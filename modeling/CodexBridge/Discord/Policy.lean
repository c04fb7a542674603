import CodexBridge.Library.Effect
import CodexBridge.Library.Json

/-! # The Discord policy

An explicit allow-list of users, servers and channels. `validate_policy` runs on what an
administrator sends and again on the saved text each time the policy is read, so an
accepted policy has to pass its own check.
-/

namespace CodexBridge.Discord

open Effect

/-! ## Definitions -/

abbrev DiscordChannelError := String

structure GuildRule where
  guildId : String
  channelIds : List String
  userIds : List String
  deriving DecidableEq

structure Policy where
  enabled : Bool
  dmUserIds : List String
  guilds : List GuildRule
  deriving DecidableEq

def Policy.closed : Policy := ⟨false, [], []⟩

/-- `_SNOWFLAKE`. -/
def isSnowflake (s : String) : Bool :=
  17 ≤ s.length && s.length ≤ 20 && s.toList.all Char.isDigit

/-- `_TOKEN`. -/
def isToken (s : String) : Bool :=
  30 ≤ s.length && s.length ≤ 200 &&
    s.toList.all fun c => c.isAlphanum || c = '_' || c = '.' || c = '-'

def snowflake (value : Json) : Except DiscordChannelError String :=
  match value with
  | .str s => if isSnowflake s then .ok s else .error "A Discord identifier is invalid."
  | _ => .error "A Discord identifier is invalid."

/-- `[_snowflake(value) for value in values]`. -/
def snowflakes : List Json → Except DiscordChannelError (List String)
  | [] => .ok []
  | value :: rest => do
      let first ← snowflake value
      let others ← snowflakes rest
      .ok (first :: others)

def listField (fields : List (String × Json)) (key : String) (e : DiscordChannelError) :
    Except DiscordChannelError (List Json) :=
  match Json.field? fields key with
  | some (.arr items) => .ok items
  | _ => .error e

def boolField (fields : List (String × Json)) (key : String) (e : DiscordChannelError) :
    Except DiscordChannelError Bool :=
  match Json.field? fields key with
  | some (.bool b) => .ok b
  | _ => .error e

def validateRule (seenGuilds : List String) (item : Json) : Except DiscordChannelError GuildRule :=
  match item with
  | .obj fields => do
      refuse (Json.hasExactly fields ["guild_id", "channel_ids", "user_ids"] = false)
        "A Discord server rule is invalid."
      let guildId ← snowflake ((Json.field? fields "guild_id").getD .null)
      refuse (guildId ∈ seenGuilds) "The Discord allow-lists contain duplicates."
      let channels ← listField fields "channel_ids"
        "A Discord server rule must name users and channels."
      let members ← listField fields "user_ids"
        "A Discord server rule must name users and channels."
      refuse (¬ (1 ≤ channels.length ∧ channels.length ≤ 32 ∧ 1 ≤ members.length ∧
          members.length ≤ 32))
        "A Discord server rule must name users and channels."
      let channelIds ← snowflakes channels
      let userIds ← snowflakes members
      refuse (¬ (channelIds.Nodup ∧ userIds.Nodup)) "The Discord allow-lists contain duplicates."
      .ok ⟨guildId, channelIds, userIds⟩
  | _ => .error "A Discord server rule is invalid."

def validateRules (seenGuilds : List String) :
    List Json → Except DiscordChannelError (List GuildRule)
  | [] => .ok []
  | item :: rest => do
      let rule ← validateRule seenGuilds item
      let rules ← validateRules (rule.guildId :: seenGuilds) rest
      .ok (rule :: rules)

def validatePolicy (raw : List (String × Json)) : Except DiscordChannelError Policy := do
  refuse (Json.hasExactly raw ["enabled", "dm_user_ids", "guilds"] = false)
    "The Discord policy is invalid."
  let enabled ← boolField raw "enabled" "The Discord policy is invalid."
  let users ← listField raw "dm_user_ids" "The Discord allow-lists are invalid."
  let guilds ← listField raw "guilds" "The Discord allow-lists are invalid."
  refuse (32 < users.length ∨ 16 < guilds.length) "The Discord allow-lists are invalid."
  let dmUsers ← snowflakes users
  refuse (¬ dmUsers.Nodup) "The Discord allow-lists contain duplicates."
  let rules ← validateRules [] guilds
  refuse (enabled = true ∧ dmUsers = [] ∧ rules = [])
    "Enable an explicit Discord user and destination first."
  .ok ⟨enabled, dmUsers, rules⟩

/-- Membership of a server, a role or a visible command never gives permission. -/
def permitted (policy : Policy) (userId : String) (guildId : Option String)
    (channelId : String) (isBot : Bool) : Bool :=
  policy.enabled && !isBot && isSnowflake userId && isSnowflake channelId &&
    match guildId with
    | none => policy.dmUserIds.contains userId
    | some guild => isSnowflake guild && policy.guilds.any fun rule =>
      guild = rule.guildId && rule.channelIds.contains channelId && rule.userIds.contains userId

structure GuildRule.WellFormed (rule : GuildRule) : Prop where
  guild : isSnowflake rule.guildId = true
  channels : ∀ c ∈ rule.channelIds, isSnowflake c = true
  users : ∀ u ∈ rule.userIds, isSnowflake u = true
  channelsCount : 1 ≤ rule.channelIds.length ∧ rule.channelIds.length ≤ 32
  usersCount : 1 ≤ rule.userIds.length ∧ rule.userIds.length ≤ 32
  channelsNodup : rule.channelIds.Nodup
  usersNodup : rule.userIds.Nodup

structure Policy.WellFormed (policy : Policy) : Prop where
  users : ∀ u ∈ policy.dmUserIds, isSnowflake u = true
  usersCount : policy.dmUserIds.length ≤ 32
  usersNodup : policy.dmUserIds.Nodup
  rules : ∀ rule ∈ policy.guilds, rule.WellFormed
  rulesCount : policy.guilds.length ≤ 16
  rulesNodup : (policy.guilds.map GuildRule.guildId).Nodup
  named : policy.enabled = true → ¬ (policy.dmUserIds = [] ∧ policy.guilds = [])

theorem closed_wellFormed : Policy.closed.WellFormed where
  users := by simp [Policy.closed]
  usersCount := by simp [Policy.closed]
  usersNodup := List.nodup_nil
  rules := by simp [Policy.closed]
  rulesCount := by simp [Policy.closed]
  rulesNodup := List.nodup_nil
  named h := by simp [Policy.closed] at h

theorem snowflake_eq_ok {value : Json} {s : String} (h : snowflake value = .ok s) :
    value = .str s ∧ isSnowflake s = true := by
  cases value with
  | str t =>
    simp only [snowflake] at h
    split at h
    · rename_i ht
      cases h
      exact ⟨rfl, ht⟩
    · cases h
  | null => cases h
  | bool b => cases h
  | int i => cases h
  | float l => cases h
  | arr items => cases h
  | obj fields => cases h

theorem snowflakes_eq_ok {values : List Json} {ids : List String}
    (h : snowflakes values = .ok ids) :
    values = ids.map .str ∧ ∀ id ∈ ids, isSnowflake id = true := by
  induction values generalizing ids with
  | nil =>
    cases h
    simp
  | cons value rest ih =>
    rw [snowflakes] at h
    obtain ⟨first, hfirst, h⟩ := except_bind_eq_ok.mp h
    obtain ⟨others, hothers, h⟩ := except_bind_eq_ok.mp h
    cases h
    obtain ⟨hvalue, hid⟩ := snowflake_eq_ok hfirst
    obtain ⟨hrest, hids⟩ := ih hothers
    constructor
    · rw [hvalue, hrest, List.map_cons]
    intro id hm
    rcases List.mem_cons.mp hm with he | hm
    · rw [he]
      exact hid
    · exact hids id hm

theorem validateRule_eq_ok {seen : List String} {item : Json} {rule : GuildRule}
    (h : validateRule seen item = .ok rule) : rule.WellFormed ∧ rule.guildId ∉ seen := by
  cases item with
  | obj fields =>
    rw [validateRule] at h
    obtain ⟨-, h⟩ := refuse_bind_eq_ok.mp h
    obtain ⟨guildId, hguild, h⟩ := except_bind_eq_ok.mp h
    obtain ⟨hseen, h⟩ := refuse_bind_eq_ok.mp h
    obtain ⟨channels, -, h⟩ := except_bind_eq_ok.mp h
    obtain ⟨members, -, h⟩ := except_bind_eq_ok.mp h
    obtain ⟨hcounts, h⟩ := refuse_bind_eq_ok.mp h
    obtain ⟨channelIds, hchannels, h⟩ := except_bind_eq_ok.mp h
    obtain ⟨userIds, husers, h⟩ := except_bind_eq_ok.mp h
    obtain ⟨hnodup, h⟩ := refuse_bind_eq_ok.mp h
    cases h
    have hcounts := not_not.mp hcounts
    have hnodup := not_not.mp hnodup
    obtain ⟨hc, hcids⟩ := snowflakes_eq_ok hchannels
    obtain ⟨hu, huids⟩ := snowflakes_eq_ok husers
    rw [hc, hu, List.length_map, List.length_map] at hcounts
    exact ⟨⟨(snowflake_eq_ok hguild).2, hcids, huids, ⟨hcounts.1, hcounts.2.1⟩, hcounts.2.2,
      hnodup.1, hnodup.2⟩, hseen⟩
  | null => cases h
  | bool b => cases h
  | int i => cases h
  | float l => cases h
  | str t => cases h
  | arr items => cases h

/-- The accepted servers are distinct from each other and from those seen before. -/
theorem validateRules_eq_ok {seen : List String} {items : List Json} {rules : List GuildRule}
    (h : validateRules seen items = .ok rules) :
    rules.length = items.length ∧ (∀ rule ∈ rules, rule.WellFormed) ∧
      (rules.map GuildRule.guildId).Nodup ∧ ∀ rule ∈ rules, rule.guildId ∉ seen := by
  induction items generalizing seen rules with
  | nil =>
    cases h
    simp
  | cons item rest ih =>
    rw [validateRules] at h
    obtain ⟨rule, hrule, h⟩ := except_bind_eq_ok.mp h
    obtain ⟨others, hothers, h⟩ := except_bind_eq_ok.mp h
    cases h
    obtain ⟨hwell, hnew⟩ := validateRule_eq_ok hrule
    obtain ⟨hlength, hwells, hnodup, hunseen⟩ := ih hothers
    refine ⟨by rw [List.length_cons, hlength, List.length_cons], ?_, ?_, ?_⟩
    · intro r hr
      rcases List.mem_cons.mp hr with he | hr
      · rw [he]
        exact hwell
      · exact hwells r hr
    · rw [List.map_cons, List.nodup_cons]
      refine ⟨?_, hnodup⟩
      intro hm
      obtain ⟨r, hr, he⟩ := List.mem_map.mp hm
      have hfresh := hunseen r hr
      rw [he] at hfresh
      exact hfresh List.mem_cons_self
    · intro r hr
      rcases List.mem_cons.mp hr with he | hr
      · rw [he]
        exact hnew
      · intro hs
        exact hunseen r hr (List.mem_cons_of_mem _ hs)

theorem validatePolicy_wellFormed {raw : List (String × Json)} {policy : Policy}
    (h : validatePolicy raw = .ok policy) : policy.WellFormed := by
  rw [validatePolicy] at h
  obtain ⟨-, h⟩ := refuse_bind_eq_ok.mp h
  obtain ⟨enabled, -, h⟩ := except_bind_eq_ok.mp h
  obtain ⟨users, -, h⟩ := except_bind_eq_ok.mp h
  obtain ⟨guilds, -, h⟩ := except_bind_eq_ok.mp h
  obtain ⟨hcounts, h⟩ := refuse_bind_eq_ok.mp h
  obtain ⟨dmUsers, husers, h⟩ := except_bind_eq_ok.mp h
  obtain ⟨hnodup, h⟩ := refuse_bind_eq_ok.mp h
  obtain ⟨rules, hrules, h⟩ := except_bind_eq_ok.mp h
  obtain ⟨hnamed, h⟩ := refuse_bind_eq_ok.mp h
  cases h
  obtain ⟨hu, hids⟩ := snowflakes_eq_ok husers
  obtain ⟨hlength, hwells, hdistinct, -⟩ := validateRules_eq_ok hrules
  have hlen : dmUsers.length = users.length := by rw [hu, List.length_map]
  have hnodup := not_not.mp hnodup
  exact {
    users := hids
    usersCount := by
      change dmUsers.length ≤ 32
      omega
    usersNodup := hnodup
    rules := hwells
    rulesCount := by
      change rules.length ≤ 16
      omega
    rulesNodup := hdistinct
    named := fun he hn => hnamed ⟨he, hn.1, hn.2⟩ }

end CodexBridge.Discord
