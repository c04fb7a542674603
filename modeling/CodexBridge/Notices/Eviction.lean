import CodexBridge.Notices.Receipts

/-! # A busy and a quiet automation

The run of a quiet automation stays listed while a second automation is created, run and
deleted again and again. Each of these runs takes a receipt, so the receipt of the quiet run
is dropped in the end and its notice is sent again.
-/

namespace CodexBridge.Notices

open Automations Effect

/-! ## Identifiers -/

/-- The last `k` binary digits of `n`, as hexadecimal digits. -/
def digits : Nat → Nat → String
  | 0, _ => ""
  | k + 1, n => (digits k (n / 2)).push (if n % 2 = 1 then '1' else '0')

theorem length_digits (k n : Nat) : (digits k n).length = k := by
  induction k generalizing n with
  | zero => rfl
  | succ k ih => rw [digits, String.length_push, ih]

theorem utf8ByteSize_digits (k n : Nat) : (digits k n).utf8ByteSize = k := by
  induction k generalizing n with
  | zero => rfl
  | succ k ih =>
    rw [digits, String.utf8ByteSize_push, ih]
    split
    · rfl
    · rfl

theorem mem_digits {k n : Nat} {c : Char} (h : c ∈ (digits k n).toList) : c = '0' ∨ c = '1' := by
  induction k generalizing n with
  | zero => simp [digits] at h
  | succ k ih =>
    rw [digits, String.toList_push, List.mem_append] at h
    cases h with
    | inl hrest => exact ih hrest
    | inr hlast =>
      have hc := List.mem_singleton.mp hlast
      split at hc
      · exact Or.inr hc
      · exact Or.inl hc

theorem digits_injective {k m n : Nat} (hm : m < 2 ^ k) (hn : n < 2 ^ k)
    (h : digits k m = digits k n) : m = n := by
  induction k generalizing m n with
  | zero =>
    rw [Nat.pow_zero] at hm hn
    omega
  | succ k ih =>
    rw [digits, digits] at h
    have hlist := congrArg String.toList h
    rw [String.toList_push, String.toList_push] at hlist
    obtain ⟨hrest, hlast⟩ := List.append_inj' hlist rfl
    have hhalf : m / 2 = n / 2 := by
      apply ih
      · rw [Nat.pow_succ] at hm
        omega
      · rw [Nat.pow_succ] at hn
        omega
      · exact String.toList_injective hrest
    have hparity : m % 2 = n % 2 := by
      have hchar := List.singleton_inj.mp hlast
      split at hchar <;> split at hchar <;> first | omega | simp at hchar
    omega

def uuid (n : Nat) : String := digits 32 n

theorem isRunId_uuid (n : Nat) : isRunId ("autrun_" ++ uuid n) = true := by
  have hdrop : ("autrun_" ++ uuid n).toList.drop 7 = (uuid n).toList := by
    rw [String.toList_append]
    rfl
  unfold isRunId
  rw [hdrop, String.ofList_toList, String.toList_append]
  have hstarts : "autrun_".toList.isPrefixOf ("autrun_".toList ++ (uuid n).toList) = true := by
    rw [List.isPrefixOf_iff_prefix]
    exact List.prefix_append _ _
  have hhex : PyText.isLowerHex 32 (uuid n) = true := by
    unfold PyText.isLowerHex
    rw [show (uuid n).length = 32 from length_digits 32 n]
    have hall : ((uuid n).toList.all fun c => c.isDigit || ('a' ≤ c && c ≤ 'f')) = true := by
      rw [List.all_eq_true]
      intro c hc
      cases mem_digits hc with
      | inl h0 => rw [h0]; decide
      | inr h1 => rw [h1]; decide
    simp only [hall]
    decide
  rw [hstarts, hhex]
  rfl

theorem isTrimmed_of_all {s : String} (hne : s ≠ "")
    (hall : ∀ c ∈ s.toList, PyText.isSpace c = false) : PyText.isTrimmed s = true := by
  unfold PyText.isTrimmed
  cases hs : s.toList with
  | nil => exact absurd (String.toList_eq_nil_iff.mp hs) hne
  | cons c rest =>
    rw [hs] at hall
    have hhead := hall c List.mem_cons_self
    have hlast := hall _ (List.getLast_mem (List.cons_ne_nil c rest))
    simp [hhead, hlast]

def Plain (s : String) (size : Nat) : Prop :=
  (∀ c ∈ s.toList, PyText.isSpace c = false) ∧ s.utf8ByteSize = size

theorem Plain.append {s t : String} {m n : Nat} (hs : Plain s m) (ht : Plain t n) :
    Plain (s ++ t) (m + n) := by
  refine ⟨?_, ?_⟩
  · intro c hc
    rw [String.toList_append, List.mem_append] at hc
    cases hc with
    | inl hleft => exact hs.1 c hleft
    | inr hright => exact ht.1 c hright
  · rw [String.utf8ByteSize_append, hs.2, ht.2]

theorem plain_of_all {s : String} (h : (s.toList.all fun c => !PyText.isSpace c) = true) :
    Plain s s.utf8ByteSize := by
  refine ⟨?_, rfl⟩
  intro c hc
  simpa using List.all_eq_true.mp h c hc

theorem plain_uuid (n : Nat) : Plain (uuid n) 32 := by
  refine ⟨?_, utf8ByteSize_digits 32 n⟩
  intro c hc
  cases mem_digits hc with
  | inl h0 => rw [h0]; decide
  | inr h1 => rw [h1]; decide

theorem Plain.isIdentifier {s : String} {n : Nat} (h : Plain s n) (hpos : 0 < n)
    (hn : n ≤ 256) : isIdentifier s = true := by
  have htrim : PyText.isTrimmed s = true := by
    apply isTrimmed_of_all _ h.1
    intro hempty
    have hsize := h.2
    rw [hempty] at hsize
    simp at hsize
    omega
  unfold Automations.isIdentifier PyText.utf8Length
  rw [htrim, h.2]
  simpa using hn

/-- The automation of round `n`, the key of its claim and its run. -/
def automationOf (n : Nat) : String := "aut_" ++ uuid n

def keyOf (n : Nat) : String := "manual:" ++ automationOf n ++ ":" ++ uuid n

def runOf (n : Nat) : String := "autrun_" ++ uuid n

theorem isIdentifier_automationOf (n : Nat) : isIdentifier (automationOf n) = true :=
  ((plain_of_all (s := "aut_") (by decide)).append (plain_uuid n)).isIdentifier (by decide)
    (by decide)

theorem isIdentifier_keyOf (n : Nat) : isIdentifier (keyOf n) = true :=
  ((((plain_of_all (s := "manual:") (by decide)).append
    ((plain_of_all (s := "aut_") (by decide)).append (plain_uuid n))).append
      (plain_of_all (s := ":") (by decide))).append (plain_uuid n)).isIdentifier (by decide)
        (by decide)

def allNotices : Notifications := ⟨.all, true, [], false⟩

/-- What `create` stores for the payload at time zero. -/
def createdRecord (name id : String) : Automation where
  automationId := id
  revision := 1
  name := name
  prompt := "Check the backup"
  target := .standalone "home"
  mode := .observe
  model := none
  thinking := none
  hostAccessGrant := none
  hostUnattendedApproved := false
  schedule := .once 1893456000
  notifications := allNotices
  notificationsRevision := 1
  enabled := true
  createdAt := 0
  updatedAt := 0
  nextRunAt := some 1893456000
  lastRunAt := .sent none
  lastStatus := .sent none

def pausedRecord (name id : String) : Automation :=
  { createdRecord name id with enabled := false, revision := 2, nextRunAt := none }

def ranRecord (name id : String) : Automation :=
  { pausedRecord name id with lastRunAt := .kept 0, lastStatus := .kept .skippedPaused }

/-- The run claimed in round `n`. -/
def skippedRun (n : Nat) : Run where
  automationRunId := runOf n
  automationId := automationOf n
  source := .manual
  dueAt := 0
  status := .skippedPaused
  dispatchable := false
  idempotencyKey := keyOf n
  createdAt := 0
  startedAt := none
  completedAt := some 0
  bridgeRunId := none
  error := none
  webSearch := none
  threadId := none
  notifications := allNotices
  notificationsRevision := 1

/-! ## The store during a round -/

structure Holds (s : Store) (automations : List (String × Automation))
    (runs : List (String × Run)) (keys : List (String × String)) : Prop where
  automations : s.state.automations.entries = automations
  runs : s.state.runs.entries = runs
  idempotency : s.state.idempotency.entries = keys
  createRequests : s.state.createRequests.entries = []

section

variable {κ α : Type} [DecidableEq κ] {d : Dict κ α} {xs : List (κ × α)} {k : κ} {v : α}

theorem get?_of_entries (h : d.entries = xs ++ [(k, v)]) : d.get? k = some v := by
  rw [Dict.get?_eq_some_iff, h]
  simp

theorem get?_none_of_entries (h : d.entries = xs) (hk : k ∉ xs.map Prod.fst) : d.get? k = none := by
  rw [Dict.get?_eq_none_iff, h]
  intro w hw
  exact hk (List.mem_map_of_mem (f := Prod.fst) hw)

theorem entries_set_of_entries (h : d.entries = xs) (hk : k ∉ xs.map Prod.fst) :
    (d.set k v).entries = xs ++ [(k, v)] := by
  rw [d.entries_set_of_none (get?_none_of_entries h hk), h]

theorem entries_ofList {xs : List (κ × α)} (h : (xs.map Prod.fst).Nodup) :
    (Dict.ofList xs).entries = xs := by
  have key : ∀ (ys : List (κ × α)) (d : Dict κ α),
      (d.entries.map Prod.fst ++ ys.map Prod.fst).Nodup →
        (ys.foldl (fun d e => d.set e.1 e.2) d).entries = d.entries ++ ys := by
    intro ys
    induction ys with
    | nil =>
      intro d _
      rw [List.foldl_nil, List.append_nil]
    | cons e rest ih =>
      intro d hd
      have hnew : e.1 ∉ d.entries.map Prod.fst := by
        intro hmem
        rw [List.map_cons, List.nodup_append] at hd
        exact hd.2.2 _ hmem _ List.mem_cons_self rfl
      have hset := entries_set_of_entries (v := e.2) (rfl : d.entries = d.entries) hnew
      rw [List.foldl_cons, ih, hset, List.append_assoc]
      · rfl
      · rw [hset, List.map_append, List.append_assoc]
        exact hd
  exact key xs Dict.empty (by simpa using h)

omit [DecidableEq κ] in
theorem entries_filter_of_entries (h : d.entries = xs ++ [(k, v)]) {p : κ → α → Bool}
    (hxs : ∀ e ∈ xs, p e.1 e.2 = true) (hlast : p k v = false) : (d.filter p).entries = xs := by
  have hfilter : (d.filter p).entries = d.entries.filter fun e => p e.1 e.2 := rfl
  have hkept : (xs.filter fun e => p e.1 e.2) = xs := List.filter_eq_self.mpr hxs
  rw [hfilter, h, List.filter_append, hkept]
  simp [hlast]

theorem entries_update_of_entries (h : d.entries = xs ++ [(k, v)]) (hk : k ∉ xs.map Prod.fst)
    (f : α → α) : (d.update k f).entries = xs ++ [(k, f v)] := by
  unfold Dict.update Dict.mapValues
  dsimp only
  rw [h, List.map_append]
  congr 1
  · refine (List.map_congr_left ?_).trans (List.map_id xs)
    intro e he
    have hek : e.1 ≠ k := fun hek => hk (hek ▸ List.mem_map_of_mem (f := Prod.fst) he)
    simp [hek]
  · simp

end

/-- From `P` the call returns, and then `Q` holds. -/
abbrev Does {α : Type} (P : Store → Prop) (c : StoreAction α) (Q : α → Store → Prop) : Prop :=
  Triple P c Q fun _ _ => False

theorem Does.perform {α : Type} {P I : Store → Prop} {c : StoreAction α} {f : α → Reply}
    (h : Does P c fun _ => I) (call : Call) {s : Store}
    (hcall : Automations.perform sampleEnvironment call = f <$> c) (hs : P s) :
    I (Automations.perform sampleEnvironment call s).2 := by
  rw [hcall]
  exact (h.map_value.raises fun _ _ he => he.elim).state hs

section

variable {automations : List (String × Automation)} {runs : List (String × Run)}
  {keys : List (String × String)}

theorem does_edit {g : State → State} {automations' : List (String × Automation)}
    {runs' : List (String × Run)} {keys' : List (String × String)}
    (h : ∀ s, Holds s automations runs keys →
      Holds { s with state := g s.state } automations' runs' keys') :
    Does (fun s => Holds s automations runs keys) (edit g)
      fun _ s => Holds s automations' runs' keys' :=
  Triple.modify h

theorem does_save (env : Environment) :
    Does (fun s => Holds s automations runs keys) (save env true)
      fun _ s => Holds s automations runs keys := by
  apply Triple.bind
  · apply does_edit
    intro s hs
    have hkept : (pruneCreateRequests env s.state).1 = s.state := by
      unfold pruneCreateRequests
      simp [hs.createRequests]
    rw [hkept]
    exact hs
  · intro _
    apply Triple.bind_require_of rfl
    exact Triple.modify fun s hs => ⟨hs.automations, hs.runs, hs.idempotency, hs.createRequests⟩

theorem does_findAutomation {id : String} {record : Automation} (hid : isIdentifier id = true) :
    Does (fun s => Holds s (automations ++ [(id, record)]) runs keys) (findAutomation id)
      fun found s => found = record ∧ Holds s (automations ++ [(id, record)]) runs keys := by
  apply Triple.bind_lift_of (identifier_of_isIdentifier hid _)
  apply Triple.bind (Q := fun found s =>
    found = some record ∧ Holds s (automations ++ [(id, record)]) runs keys)
  · exact Triple.read fun s hs => ⟨get?_of_entries hs.automations, hs⟩
  intro found
  apply Triple.of_pure
  intro hfound
  rw [hfound]
  exact Triple.pure fun s hs => ⟨rfl, hs⟩

theorem does_editAutomation {id : String} {record : Automation} {f : Automation → Automation}
    (hid : id ∉ automations.map Prod.fst) :
    Does (fun s => Holds s (automations ++ [(id, record)]) runs keys) (editAutomation id f)
      fun _ s => Holds s (automations ++ [(id, f record)]) runs keys :=
  does_edit fun _ hs => ⟨entries_update_of_entries hs.automations hid f, hs.runs, hs.idempotency,
    hs.createRequests⟩

end

theorem beyondLimit_of_le {limit : Nat} {ids : List String} {runs : List Run}
    (h : runs.length ≤ limit) : beyondLimit limit ids runs = [] := by
  have hsplit : (runs.filter fun r => r.automationRunId ∈ ids).length +
      (runs.filter fun r => r.automationRunId ∉ ids).length = runs.length := by
    have hcount := List.length_eq_length_filter_add (l := runs)
      (fun r => decide (r.automationRunId ∈ ids))
    simpa using hcount.symm
  unfold beyondLimit
  dsimp only
  rw [List.map_eq_nil_iff, List.drop_eq_nil_iff, List.length_insertionSort]
  omega

theorem pruneRuns_of_le {env : Environment} {ids : List String} {s : State}
    (h : s.runs.entries.length ≤ env.maxRunsPerAutomation) : pruneRuns env ids s = s := by
  have hvalues : s.runs.values.length ≤ env.maxRunsPerAutomation := by
    unfold Dict.values
    rw [List.length_map]
    exact h
  have hnone : prunedRuns env ids s = [] := by
    unfold prunedRuns
    dsimp only
    rw [List.append_eq_nil_iff, List.flatMap_eq_nil_iff]
    refine ⟨?_, ?_⟩
    · intro a _
      apply beyondLimit_of_le
      have hfirst := List.length_filter_le (fun r : Run => decide (r.automationId = a))
        (s.runs.values.filter isSettled)
      have hsecond := List.length_filter_le isSettled s.runs.values
      omega
    · apply beyondLimit_of_le
      have hlimits := env.limits.2.1
      have hfilter : ∀ q : String → Run → Bool,
          (s.runs.filter q).values.length ≤ s.runs.entries.length := by
        intro q
        unfold Dict.values Dict.filter
        rw [List.length_map]
        exact List.length_filter_le _ _
      exact (hfilter _).trans (h.trans hlimits)
  unfold pruneRuns
  simp [hnone]

section

variable {automations : List (String × Automation)} {runs : List (String × Run)}
  {keys : List (String × String)} {name : String} {n : Nat}

theorem does_create
    (hname : ∀ id, newRecord sampleEnvironment (.ofPayload (noticePayload name)) 0 id 1 (iso 0)
      true = .ok (createdRecord name id)) (hplain : createRequestId (noticePayload name) = .ok none)
    (hnew : automationOf n ∉ automations.map Prod.fst) :
    Does (fun s => Holds s automations runs keys)
      (create sampleEnvironment (noticePayload name) (uuid n) 0 true) fun _ s =>
        Holds s (automations ++ [(automationOf n, createdRecord name (automationOf n))]) runs
          keys := by
  apply Triple.bind_lift_of hplain
  apply Triple.bind_lift_of (hname _)
  apply Triple.bind
  · apply does_edit
    intro s hs
    exact ⟨entries_set_of_entries hs.automations hnew, hs.runs, hs.idempotency,
      hs.createRequests⟩
  · intro _
    exact Triple.bind (does_save _) fun _ => Triple.pure fun s hs => hs

section

variable (hnew : automationOf n ∉ automations.map Prod.fst)

include hnew

theorem does_pause :
    Does (fun s =>
        Holds s (automations ++ [(automationOf n, createdRecord name (automationOf n))]) runs keys)
      (pause sampleEnvironment (automationOf n) 1 0 true) fun _ s =>
        Holds s (automations ++ [(automationOf n, pausedRecord name (automationOf n))]) runs
          keys := by
  apply Triple.bind (does_findAutomation (isIdentifier_automationOf n))
  intro record
  apply Triple.of_pure
  intro hrecord
  rw [hrecord]
  apply Triple.bind_require_of rfl
  apply Triple.bind (does_editAutomation hnew)
  intro _
  apply Triple.bind_lift_of rfl
  apply Triple.bind (does_editAutomation hnew)
  intro _
  apply Triple.bind (does_save _)
  intro _
  exact (does_findAutomation (isIdentifier_automationOf n)).returns (fun _ _ hs => hs.2)

theorem does_claimNew (hrun : runOf n ∉ runs.map Prod.fst) (hkey : keyOf n ∉ keys.map Prod.fst)
    (hroom : runs.length < 200) :
    Does (fun s =>
        Holds s (automations ++ [(automationOf n, pausedRecord name (automationOf n))]) runs keys)
      (claimNew sampleEnvironment (automationOf n) ⟨.manual, 0, keyOf n, true, none⟩ 2 (uuid n) 0
        true) fun _ s =>
        Holds s (automations ++ [(automationOf n, ranRecord name (automationOf n))])
          (runs ++ [(runOf n, skippedRun n)]) (keys ++ [(keyOf n, runOf n)]) := by
  apply Triple.bind (does_findAutomation (isIdentifier_automationOf n))
  intro record
  apply Triple.of_pure
  intro hrecord
  rw [hrecord]
  apply Triple.bind_require_of rfl
  apply Triple.bind (Q := fun status s => status = RunStatus.skippedPaused ∧
    Holds s (automations ++ [(automationOf n, pausedRecord name (automationOf n))]) runs keys)
  · exact Triple.read fun s hs => ⟨rfl, hs⟩
  intro status
  apply Triple.of_pure
  intro hstatus
  rw [hstatus]
  apply Triple.bind (Q := fun _ s =>
    Holds s (automations ++ [(automationOf n, ranRecord name (automationOf n))])
      (runs ++ [(runOf n, skippedRun n)]) (keys ++ [(keyOf n, runOf n)]))
  · apply does_edit
    intro s hs
    exact ⟨entries_update_of_entries hs.automations hnew _, entries_set_of_entries hs.runs hrun,
      entries_set_of_entries hs.idempotency hkey, hs.createRequests⟩
  intro _
  refine Triple.bind (does_editAutomation hnew) ?_
  intro _
  apply Triple.bind
  · apply does_edit
    intro s hs
    have hsmall : s.state.runs.entries.length ≤ sampleEnvironment.maxRunsPerAutomation := by
      rw [hs.runs, List.length_append, List.length_singleton]
      exact hroom
    rw [pruneRuns_of_le hsmall]
    exact hs
  intro _
  exact Triple.bind (does_save _) fun _ => Triple.pure fun s hs => hs

theorem does_runNow (hrun : runOf n ∉ runs.map Prod.fst) (hkey : keyOf n ∉ keys.map Prod.fst)
    (hroom : runs.length < 200) :
    Does (fun s =>
        Holds s (automations ++ [(automationOf n, pausedRecord name (automationOf n))]) runs keys)
      (runNow sampleEnvironment (automationOf n) true .null (uuid n) (uuid n) 0 true) fun _ s =>
        Holds s (automations ++ [(automationOf n, ranRecord name (automationOf n))])
          (runs ++ [(runOf n, skippedRun n)]) (keys ++ [(keyOf n, runOf n)]) := by
  apply Triple.bind (does_findAutomation (isIdentifier_automationOf n))
  intro record
  apply Triple.of_pure
  intro hrecord
  rw [hrecord]
  apply Triple.bind_lift_of rfl
  apply Triple.bind_lift_of (identifier_of_isIdentifier (isIdentifier_keyOf n) _)
  apply Triple.bind (Q := fun found s => found = none ∧
    Holds s (automations ++ [(automationOf n, pausedRecord name (automationOf n))]) runs keys)
  · exact Triple.read fun s hs => ⟨get?_none_of_entries hs.idempotency hkey, hs⟩
  intro found
  apply Triple.of_pure
  intro hfound
  rw [hfound]
  exact does_claimNew hnew hrun hkey hroom

end

theorem does_delete (name : String) (hnew : automationOf n ∉ automations.map Prod.fst)
    (hothers : ∀ e ∈ runs, e.2.automationId ≠ automationOf n)
    (hkeys : ((runs.map fun e => (e.2.idempotencyKey, e.1)).map Prod.fst).Nodup) :
    Does (fun s =>
        Holds s (automations ++ [(automationOf n, ranRecord name (automationOf n))])
          (runs ++ [(runOf n, skippedRun n)]) keys)
      (delete sampleEnvironment (automationOf n) 2 0 true) fun _ s =>
        Holds s automations runs (runs.map fun e => (e.2.idempotencyKey, e.1)) := by
  apply Triple.bind (does_findAutomation (isIdentifier_automationOf n))
  intro record
  apply Triple.of_pure
  intro hrecord
  rw [hrecord]
  apply Triple.bind_require_of rfl
  apply Triple.bind_require_of rfl
  have hidle : ∀ s, Holds s (automations ++ [(automationOf n, ranRecord name (automationOf n))])
      (runs ++ [(runOf n, skippedRun n)]) keys → hasActiveRun s.state (automationOf n) = false := by
    intro s hs
    unfold hasActiveRun Dict.values
    rw [hs.runs, List.map_append, List.any_append]
    have hfirst : ((runs.map Prod.snd).any fun r =>
        r.automationId = automationOf n && r.status.isActive) = false := by
      rw [List.any_eq_false]
      intro r hr
      obtain ⟨e, he, her⟩ := List.mem_map.mp hr
      have hne := hothers e he
      rw [her] at hne
      simp [hne]
    rw [hfirst]
    simp [skippedRun, RunStatus.isActive]
  apply Triple.bind (Q := fun active s => active = false ∧
    Holds s (automations ++ [(automationOf n, ranRecord name (automationOf n))])
      (runs ++ [(runOf n, skippedRun n)]) keys)
  · exact Triple.read fun s hs => ⟨hidle s hs, hs⟩
  intro active
  apply Triple.of_pure
  intro hactive
  rw [hactive]
  apply Triple.bind_require_of rfl
  apply Triple.bind (Q := fun _ s =>
    Holds s automations runs (runs.map fun e => (e.2.idempotencyKey, e.1)))
  · apply does_edit
    intro s hs
    have hruns : (s.state.runs.filter fun _ r => r.automationId ≠ automationOf n).entries =
        runs := by
      apply entries_filter_of_entries hs.runs
      · exact fun e he => decide_eq_true (hothers e he)
      · simp [skippedRun]
    have hautomations : (s.state.automations.erase (automationOf n)).entries = automations := by
      apply entries_filter_of_entries hs.automations
      · intro e he
        apply decide_eq_true
        intro heq
        exact hnew (heq ▸ List.mem_map_of_mem (f := Prod.fst) he)
      · simp
    refine ⟨hautomations, hruns, ?_, ?_⟩
    · show (Dict.ofList (List.map _ (Dict.entries (s.state.runs.filter _)))).entries = _
      rw [hruns]
      exact entries_ofList hkeys
    · show List.map _ s.state.createRequests.entries = []
      rw [hs.createRequests]
      rfl
  intro _
  exact does_save _

end

/-- The record and the one run of round `n`, as the refresh finds them. -/
structure Shows (s : State) (name : String) (n : Nat) : Prop where
  found : ∃ record, s.automations.get? (automationOf n) = some record
  listed : listRuns s (automationOf n) 200 = [skippedRun n]
  named : noticeName name ≠ ""

def persistentKey (n : Nat) : String := receiptKey (runOf n) persistentDestination

theorem pendingDestinations_ran (receipts : Receipts) (name : String) (n : Nat) :
    pendingDestinations receipts (ranRecord name (automationOf n)) (skippedRun n) =
      if receipts.contains (persistentKey n) then [] else [persistentDestination] := by
  unfold pendingDestinations
  rw [show (skippedRun n).automationRunId = "autrun_" ++ uuid n from rfl, isRunId_uuid]
  have hon : ¬ allNotices.policy = NotificationPolicy.off := by decide
  have hwanted : ¬ (!isWanted allNotices allNotices .skippedPaused) = true := by decide
  rw [if_neg (by simp [skippedRun, statusLabel]), if_neg (fun h => h rfl)]
  refine (if_neg hon).trans ((if_neg hwanted).trans ?_)
  show (List.filter (fun target => !receipts.contains (receiptKey (runOf n) target))
    [persistentDestination]) = _
  rw [List.filter_singleton]
  unfold persistentKey
  cases receipts.contains (receiptKey (runOf n) persistentDestination) <;> rfl

/-- The coordinator has loaded its receipts and is at a task. -/
abbrev World.doing (w : World) (receipts : Receipts) (task : Task) : World :=
  { w with coordinator := ⟨receipts, true, false, task⟩ }

def claimedReceipts (limit : Nat) (receipts : Receipts) (n : Nat) : Receipts :=
  trimmed limit (receipts.set (persistentKey n) .attempted)

def roundNotice (name : String) (n : Nat) : Notice :=
  notice (skippedRun n) (noticeName name) (statusMessage (skippedRun n)) persistentDestination

/-- The receipt of round `n` is saved, and the notice is sent. -/
abbrev World.sent (w : World) (limit : Nat) (receipts : Receipts) (name : String) (n : Nat) :
    World :=
  { w with
    file := claimedReceipts limit receipts n
    claimed := (runOf n, persistentDestination) :: w.claimed
    calls := roundNotice name n :: w.calls }

section

variable {env : Environment} {lower : String → String} {limit : Nat} {w : World}
  {receipts : Receipts} {name : String} {n : Nat} {later : List Automation}

theorem reaches_listing (env : Environment) (lower : String → String) (limit : Nat) (w : World)
    (receipts : Receipts) :
    Runs.Reaches (World.next env lower limit) (w.doing receipts .idle)
      (w.doing receipts (.definitions (listAutomations lower w.store.state))) :=
  .head (a := .refresh) rfl (.head (a := .respond) rfl (.refl _))

section

variable (h : Shows w.store.state name n)

include h

theorem reaches_delivery :
    Runs.Reaches (World.next env lower limit)
      (w.doing receipts (.definitions (ranRecord name (automationOf n) :: later)))
      (w.doing receipts
        (deliver receipts (ranRecord name (automationOf n)) later (skippedRun n) [])) := by
  obtain ⟨record, hrecord⟩ := h.found
  have hrespond : World.next env lower limit
      (w.doing receipts (.fetching (ranRecord name (automationOf n)) later)) .respond =
      some (w.doing receipts (.runs ⟨ranRecord name (automationOf n), later, [skippedRun n]⟩)) := by
    unfold World.next World.respond
    dsimp only
    rw [show (ranRecord name (automationOf n)).automationId = automationOf n from rfl, hrecord,
      h.listed]
    rfl
  exact .head (a := .advance true) rfl (.head hrespond (.head (a := .advance true) rfl (.refl _)))

theorem reaches_passed (hreceipt : receipts.contains (persistentKey n) = true) :
    Runs.Reaches (World.next env lower limit)
      (w.doing receipts (.definitions (ranRecord name (automationOf n) :: later)))
      (w.doing receipts (.definitions later)) := by
  have hdeliver : deliver receipts (ranRecord name (automationOf n)) later (skippedRun n) [] =
      .runs ⟨ranRecord name (automationOf n), later, []⟩ := by
    unfold deliver
    rw [pendingDestinations_ran, hreceipt]
    rfl
  refine (reaches_delivery h).trans ?_
  rw [hdeliver]
  exact .head (a := .advance true) rfl (.refl _)

theorem reaches_sent (hreceipt : receipts.contains (persistentKey n) = false) :
    Runs.Reaches (World.next env lower limit)
      (w.doing receipts (.definitions (ranRecord name (automationOf n) :: later)))
      ((w.sent limit receipts name n).doing (claimedReceipts limit receipts n)
        (.definitions later)) := by
  have hdeliver : deliver receipts (ranRecord name (automationOf n)) later (skippedRun n) [] =
      .destinations ⟨⟨ranRecord name (automationOf n), later, []⟩, skippedRun n, noticeName name,
        statusMessage (skippedRun n), [persistentDestination]⟩ := by
    unfold deliver
    rw [pendingDestinations_ran, hreceipt]
    show (if ([persistentDestination].isEmpty || decide (noticeName name = "")) = true then _
      else _) = _
    rw [if_neg (by simp [h.named])]
    rfl
  have hclaiming : Coordinator.claiming ⟨receipts, true, false, .destinations
      ⟨⟨ranRecord name (automationOf n), later, []⟩, skippedRun n, noticeName name,
        statusMessage (skippedRun n), [persistentDestination]⟩⟩ =
      some (⟨⟨ranRecord name (automationOf n), later, []⟩, skippedRun n, noticeName name,
        statusMessage (skippedRun n), []⟩, persistentDestination) := by
    show (if (false || receipts.contains (persistentKey n)) = true then _ else _) = _
    rw [hreceipt]
    rfl
  have hclaim : World.next env lower limit
      (w.doing receipts (.destinations ⟨⟨ranRecord name (automationOf n), later, []⟩,
        skippedRun n, noticeName name, statusMessage (skippedRun n), [persistentDestination]⟩))
        (.advance true) =
      some (w.doing (claimedReceipts limit receipts n) (.saving
        ⟨⟨ranRecord name (automationOf n), later, []⟩, skippedRun n, noticeName name,
          statusMessage (skippedRun n), []⟩ persistentDestination .attempted)) := by
    show Option.map _ (Coordinator.advance limit _ true) = _
    unfold Coordinator.advance
    rw [hclaiming]
    rfl
  refine (reaches_delivery h).trans ?_
  rw [hdeliver]
  exact .head hclaim (.head (a := .saved) rfl (.head (a := .returns) rfl
    (.head (a := .advance true) rfl (.head (a := .advance true) rfl (.refl _)))))

end

end

theorem reaches_store (limit : Nat) (w : World) (call : Call) {t : Store}
    (ht : (perform sampleEnvironment call w.store).2 = t) (hfresh : drawsFresh w.store call = true)
    (hdrawn : ∀ id, drawnRun call = some id → id ∉ w.drawn) :
    Runs.Reaches (World.next sampleEnvironment (fun name => name) limit) w
      { w with store := t, drawn := (drawnRun call).toList ++ w.drawn } := by
  refine .head (a := .store call) ?_ (.refl _)
  have hnew : ((drawnRun call).toList.any fun id => id ∈ w.drawn) = false := by
    rw [List.any_eq_false]
    intro id hid
    have hsome : drawnRun call = some id := by simpa using hid
    simpa using hdrawn id hsome
  have hnext : Automations.next sampleEnvironment w.store call = some t := by
    rw [← ht]
    exact if_pos hfresh
  show World.callStore sampleEnvironment _ call = _
  unfold World.callStore
  refine (if_neg (Bool.eq_false_iff.mp hnew)).trans ?_
  rw [hnext]
  rfl

section

variable {automations : List (String × Automation)} {runs : List (String × Run)}
  {keys : List (String × String)} {name : String} {n : Nat}

theorem reaches_claimed (limit : Nat) (w : World) (h : Holds w.store automations runs keys)
    (hname : ∀ id, newRecord sampleEnvironment (.ofPayload (noticePayload name)) 0 id 1 (iso 0)
      true = .ok (createdRecord name id)) (hplain : createRequestId (noticePayload name) = .ok none)
    (hnew : automationOf n ∉ automations.map Prod.fst) (hrun : runOf n ∉ runs.map Prod.fst)
    (hkey : keyOf n ∉ keys.map Prod.fst) (hroom : runs.length < 200) (hdrawn : runOf n ∉ w.drawn) :
    ∃ t, Holds t (automations ++ [(automationOf n, ranRecord name (automationOf n))])
        (runs ++ [(runOf n, skippedRun n)]) (keys ++ [(keyOf n, runOf n)]) ∧
      Runs.Reaches (World.next sampleEnvironment (fun name => name) limit) w
        { w with store := t, drawn := runOf n :: w.drawn } := by
  have hcreated := (does_create hname hplain hnew).perform
    (.create (noticePayload name) (uuid n) 0 true) rfl h
  generalize hc : (perform _ _ w.store).2 = created at hcreated
  have hpaused := (does_pause hnew).perform (.pause (automationOf n) 1 0 true) rfl hcreated
  generalize hp : (perform _ _ created).2 = paused at hpaused
  have hran := (does_runNow hnew hrun hkey hroom).perform
    (.runNow (automationOf n) true .null (uuid n) (uuid n) 0 true) rfl hpaused
  generalize hr : (perform _ _ paused).2 = ran at hran
  have hfreshAutomation : drawsFresh w.store
      (.create (noticePayload name) (uuid n) 0 true) = true := by
    show (!w.store.state.automations.contains (automationOf n)) = true
    simp [Dict.contains, get?_none_of_entries h.automations hnew]
  have hfreshRun : drawsFresh paused
      (.runNow (automationOf n) true .null (uuid n) (uuid n) 0 true) = true := by
    show (!paused.state.runs.contains (runOf n)) = true
    simp [Dict.contains, get?_none_of_entries hpaused.runs hrun]
  have hfirst := reaches_store limit w _ hc hfreshAutomation fun id hid => by cases hid
  have hsecond := reaches_store limit { w with store := created } _ hp rfl
    fun id hid => by cases hid
  have hthird := reaches_store limit { w with store := paused } _ hr hfreshRun fun id hid => by
    cases hid
    exact hdrawn
  exact ⟨ran, hran, hfirst.trans (hsecond.trans hthird)⟩

end

theorem append_right_ne {s t u : String} (h : s ≠ t) : s ++ u ≠ t ++ u := by
  intro heq
  apply h
  have hlist := congrArg String.toList heq
  rw [String.toList_append, String.toList_append] at hlist
  exact String.toList_injective (List.append_cancel_right hlist)

theorem append_left_ne {s t u : String} (h : s ≠ t) : u ++ s ≠ u ++ t := by
  intro heq
  apply h
  have hlist := congrArg String.toList heq
  rw [String.toList_append, String.toList_append] at hlist
  exact String.toList_injective (List.append_cancel_left hlist)

section

variable {m n : Nat}

section

variable (hm : m < 2 ^ 32) (hn : n < 2 ^ 32) (h : m ≠ n)

include hm hn h

theorem uuid_ne : uuid m ≠ uuid n :=
  fun heq => h (digits_injective hm hn heq)

theorem automationOf_ne :
    automationOf m ≠ automationOf n :=
  append_left_ne (uuid_ne hm hn h)

theorem runOf_ne : runOf m ≠ runOf n :=
  append_left_ne (uuid_ne hm hn h)

theorem persistentKey_ne :
    persistentKey m ≠ persistentKey n :=
  append_right_ne (append_right_ne (runOf_ne hm hn h))

theorem keyOf_ne : keyOf m ≠ keyOf n := by
  intro heq
  have hlist : ("manual:" ++ automationOf m ++ ":").toList ++ (uuid m).toList =
      ("manual:" ++ automationOf n ++ ":").toList ++ (uuid n).toList := by
    rw [← String.toList_append, ← String.toList_append]
    exact congrArg String.toList heq
  have hlen : (uuid m).toList.length = (uuid n).toList.length := by
    rw [String.length_toList, String.length_toList]
    exact (length_digits 32 m).trans (length_digits 32 n).symm
  exact uuid_ne hm hn h (String.toList_injective (List.append_inj' hlist hlen).2)

end

end

/-! ## Many rounds -/

def quietRecords : List (String × Automation) :=
  [(automationOf 0, ranRecord "a" (automationOf 0))]

def quietRuns : List (String × Run) := [(runOf 0, skippedRun 0)]

def quietKeys : List (String × String) := [(keyOf 0, runOf 0)]

def receiptsBefore (n : Nat) : List (String × ReceiptState) :=
  (List.range n).map fun m => (persistentKey m, .attempted)

theorem listRuns_of_filter {s : State} {n : Nat}
    (h : (s.runs.values.filter fun r => r.automationId = automationOf n) = [skippedRun n]) :
    listRuns s (automationOf n) 200 = [skippedRun n] := by
  unfold listRuns
  rw [h]
  rfl

theorem newRecord_a (id : String) : newRecord sampleEnvironment
    (.ofPayload (noticePayload "a")) 0 id 1 (iso 0) true = .ok (createdRecord "a" id) := rfl

theorem newRecord_b (id : String) : newRecord sampleEnvironment
    (.ofPayload (noticePayload "b")) 0 id 1 (iso 0) true = .ok (createdRecord "b" id) := rfl

theorem noticeName_a : noticeName "a" ≠ "" := by decide +kernel

theorem noticeName_b : noticeName "b" ≠ "" := by decide +kernel

section

variable {store : Store} {n : Nat} {keys : List (String × String)}

theorem shows_quiet (h : Holds store quietRecords quietRuns keys) :
    Shows store.state "a" 0 ∧
      listAutomations (fun name => name) store.state = [ranRecord "a" (automationOf 0)] := by
  have hlist : listAutomations (fun name => name) store.state =
      [ranRecord "a" (automationOf 0)] := by
    unfold listAutomations Dict.values
    rw [h.automations]
    rfl
  refine ⟨⟨⟨_, get?_of_entries (show _ = [] ++ [_] from h.automations)⟩, ?_, noticeName_a⟩, hlist⟩
  apply listRuns_of_filter
  unfold Dict.values
  rw [h.runs]
  simp [quietRuns, skippedRun]

theorem shows_both (hpos : 0 < n) (hn : n < 2 ^ 32)
    (h : Holds store (quietRecords ++ [(automationOf n, ranRecord "b" (automationOf n))])
      (quietRuns ++ [(runOf n, skippedRun n)]) keys) :
    Shows store.state "a" 0 ∧ Shows store.state "b" n ∧
      listAutomations (fun name => name) store.state =
        [ranRecord "a" (automationOf 0), ranRecord "b" (automationOf n)] := by
  have hne : automationOf 0 ≠ automationOf n := automationOf_ne (by decide) hn (by omega)
  have hvalues : store.state.runs.values = [skippedRun 0, skippedRun n] := by
    unfold Dict.values
    rw [h.runs]
    rfl
  have hlist : listAutomations (fun name => name) store.state =
      [ranRecord "a" (automationOf 0), ranRecord "b" (automationOf n)] := by
    have hrecords : store.state.automations.values =
        [ranRecord "a" (automationOf 0), ranRecord "b" (automationOf n)] := by
      unfold Dict.values
      rw [h.automations]
      rfl
    have hnames :
      (ranRecord "a" (automationOf 0)).name < (ranRecord "b" (automationOf n)).name := by
      show "a" < "b"
      decide
    unfold listAutomations
    rw [hrecords]
    exact if_pos (Or.inl hnames)
  have hquiet : store.state.automations.get? (automationOf 0) =
      some (ranRecord "a" (automationOf 0)) := by
    rw [Dict.get?_eq_some_iff, h.automations]
    exact List.mem_cons_self
  refine ⟨⟨⟨_, hquiet⟩, ?_, noticeName_a⟩, ⟨⟨_, get?_of_entries h.automations⟩, ?_,
    noticeName_b⟩, hlist⟩
  · apply listRuns_of_filter
    rw [hvalues]
    simp [skippedRun, hne.symm]
  · apply listRuns_of_filter
    rw [hvalues]
    simp [skippedRun, hne]

theorem not_mem_singleton {κ α : Type} {k k' : κ} {v : α} (h : k' ≠ k) :
    k' ∉ ([(k, v)] : List (κ × α)).map Prod.fst := by
  simpa using h

variable {receipts : Receipts} {w : World}

/-- The busy automation is created, run, noticed and deleted. -/
theorem reaches_round (limit : Nat) (hpos : 0 < n) (hn : n < 2 ^ 32)
    (h : Holds w.store quietRecords quietRuns quietKeys)
    (hquiet : receipts.contains (persistentKey 0) = true)
    (hnew : receipts.contains (persistentKey n) = false) (hdrawn : runOf n ∉ w.drawn) :
    ∃ t, Holds t quietRecords quietRuns quietKeys ∧
      Runs.Reaches (World.next sampleEnvironment (fun name => name) limit) (w.doing receipts .idle)
        ((World.sent { w with store := t, drawn := runOf n :: w.drawn } limit receipts "b" n).doing
          (claimedReceipts limit receipts n) .idle) := by
  have hzero : (0 : Nat) < 2 ^ 32 := by decide
  have hne : n ≠ 0 := by omega
  have hautomation := not_mem_singleton (v := ranRecord "a" (automationOf 0))
    (automationOf_ne hn hzero hne)
  obtain ⟨both, hboth, hclaimed⟩ := reaches_claimed limit (w.doing receipts .idle) h newRecord_b rfl
    hautomation (not_mem_singleton (runOf_ne hn hzero hne))
    (not_mem_singleton (keyOf_ne hn hzero hne)) (by decide) hdrawn
  obtain ⟨hshowsQuiet, hshowsBusy, hlist⟩ := shows_both hpos hn hboth
  have hothers : ∀ e ∈ quietRuns, e.2.automationId ≠ automationOf n := by
    intro e he
    rw [List.mem_singleton.mp he]
    exact automationOf_ne hzero hn hne.symm
  have hkeys : ((quietRuns.map fun e => (e.2.idempotencyKey, e.1)).map Prod.fst).Nodup := by
    simp [quietRuns]
  have hdeleted := (does_delete "b" hautomation hothers hkeys).perform
    (.delete (automationOf n) 2 0 true) rfl hboth
  generalize ht : (perform _ _ both).2 = t at hdeleted
  have hlisting := reaches_listing sampleEnvironment (fun name => name) limit
    { w with store := both, drawn := runOf n :: w.drawn } receipts
  rw [hlist] at hlisting
  have hlast := reaches_store limit ((World.sent { w with
    store := both, drawn := runOf n :: w.drawn } limit receipts "b" n).doing
      (claimedReceipts limit receipts n) .idle) _ ht rfl fun id hid => by cases hid
  exact ⟨t, hdeleted, hclaimed.trans (hlisting.trans ((reaches_passed hshowsQuiet hquiet).trans
    ((reaches_sent hshowsBusy hnew).trans (.head (a := .advance true) rfl hlast))))⟩

theorem receiptsBefore_succ (n : Nat) :
    receiptsBefore (n + 1) = receiptsBefore n ++ [(persistentKey n, .attempted)] := by
  unfold receiptsBefore
  rw [List.range_succ, List.map_append]
  rfl

theorem mem_receiptsBefore {n : Nat} {key : String} :
    key ∈ (receiptsBefore n).map Prod.fst ↔ ∃ m < n, persistentKey m = key := by
  unfold receiptsBefore
  simp

theorem not_contains_of_entries {key : String} (h : receipts.entries = receiptsBefore n)
    (hkey : ∀ m < n, persistentKey m ≠ key) : receipts.contains key = false := by
  have hnone : receipts.get? key = none := by
    apply get?_none_of_entries h
    intro hmem
    obtain ⟨m, hm, heq⟩ := mem_receiptsBefore.mp hmem
    exact hkey m hm heq
  simp [Dict.contains, hnone]

theorem entries_claimedReceipts (limit : Nat) (hn : n < 2 ^ 32)
    (h : receipts.entries = receiptsBefore n) :
    (claimedReceipts limit receipts n).entries = (receiptsBefore (n + 1)).drop (n + 1 - limit) := by
  have hnew : persistentKey n ∉ (receiptsBefore n).map Prod.fst := by
    intro hmem
    obtain ⟨m, hm, heq⟩ := mem_receiptsBefore.mp hmem
    exact persistentKey_ne (by omega) hn (by omega) heq
  have hset := entries_set_of_entries (v := ReceiptState.attempted) h hnew
  have hsize : (receipts.set (persistentKey n) .attempted).size = n + 1 := by
    unfold Dict.size
    rw [hset, List.length_append, receiptsBefore, List.length_map, List.length_range]
    rfl
  show ((receipts.set (persistentKey n) .attempted).entries.drop _) = _
  rw [hsize, hset, receiptsBefore_succ]

theorem contains_quiet (h : receipts.entries = receiptsBefore (n + 1)) :
    receipts.contains (persistentKey 0) = true := by
  apply (Dict.contains_iff _ _).mpr
  refine ⟨.attempted, (Dict.get?_eq_some_iff _ _ _).mpr ?_⟩
  rw [h]
  exact List.mem_map_of_mem (List.mem_range.mpr (by omega))

theorem not_contains_next (hn : n < 2 ^ 32) (h : receipts.entries = receiptsBefore n) :
    receipts.contains (persistentKey n) = false :=
  not_contains_of_entries h fun _ hm => persistentKey_ne (by omega) hn (by omega)

theorem runOf_fresh {drawn : List String} (hn : n + 1 < 2 ^ 32)
    (h : ∀ id ∈ drawn, ∃ m ≤ n, id = runOf m) : runOf (n + 1) ∉ drawn := by
  intro hmem
  obtain ⟨m, hm, heq⟩ := h _ hmem
  exact runOf_ne hn (by omega) (by omega) heq

end

/-- After `n` rounds, as long as their receipts fit. -/
theorem exists_rounds {limit n : Nat} (hlimit : limit < 2 ^ 32) (hn : n < limit) :
    ∃ (w : World) (receipts : Receipts),
      Runs.Reaches (World.next sampleEnvironment (fun name => name) limit) World.initial
        (w.doing receipts .idle) ∧
      Holds w.store quietRecords quietRuns quietKeys ∧
      receipts.entries = receiptsBefore (n + 1) ∧
      (∀ id ∈ w.drawn, ∃ m ≤ n, id = runOf m) ∧ roundNotice "a" 0 ∈ w.calls := by
  induction n with
  | zero =>
    have hempty : Holds World.initial.store [] [] [] := ⟨rfl, rfl, rfl, rfl⟩
    obtain ⟨store, hstore, hclaimed⟩ := reaches_claimed (n := 0) limit World.initial hempty
      newRecord_a rfl (by simp) (by simp) (by simp) (by decide) (by simp [World.initial])
    obtain ⟨hshows, hlist⟩ := shows_quiet hstore
    have hreceipts : (claimedReceipts limit Dict.empty 0).entries = receiptsBefore 1 := by
      rw [entries_claimedReceipts limit (by decide) rfl, Nat.sub_eq_zero_of_le (by omega)]
      rfl
    have hlisting := reaches_listing sampleEnvironment (fun name => name) limit
      { World.initial with store := store, drawn := [runOf 0] } Dict.empty
    rw [hlist] at hlisting
    refine ⟨World.sent { World.initial with store := store, drawn := [runOf 0] } limit Dict.empty
      "a" 0, claimedReceipts limit Dict.empty 0, ?_, hstore, hreceipts, ?_, List.mem_cons_self⟩
    · exact hclaimed.trans (.head (a := .start true) rfl (hlisting.trans
        ((reaches_sent hshows rfl).trans (.head (a := .advance true) rfl (.refl _)))))
    · intro id hid
      exact ⟨0, Nat.le_refl 0, List.mem_singleton.mp hid⟩
  | succ n ih =>
    obtain ⟨w, receipts, hreaches, hstore, hreceipts, hdrawn, hcalls⟩ := ih (by omega)
    obtain ⟨t, ht, hround⟩ := reaches_round (n := n + 1) limit (by omega) (by omega) hstore
      (contains_quiet hreceipts) (not_contains_next (by omega) hreceipts)
      (runOf_fresh (by omega) hdrawn)
    refine ⟨_, _, hreaches.trans hround, ht, ?_, ?_, List.mem_cons_of_mem _ hcalls⟩
    · rw [entries_claimedReceipts limit (by omega) hreceipts, Nat.sub_eq_zero_of_le (by omega)]
      rfl
    intro id hid
    cases List.mem_cons.mp hid with
    | inl hlast => exact ⟨n + 1, Nat.le_refl _, hlast⟩
    | inr hold =>
      obtain ⟨m, hm, heq⟩ := hdrawn id hold
      exact ⟨m, by omega, heq⟩

/-- One round more drops the receipt of the quiet run, and the next refresh sends it again. -/
theorem exists_noticedTwice {limit : Nat} (hpos : 0 < limit) (hlimit : limit < 2 ^ 32) :
    ∃ labels w, Runs.exec (World.next sampleEnvironment (fun name => name) limit) World.initial
      labels = some w ∧ ¬ w.NoticedOnce := by
  obtain ⟨n, rfl⟩ := Nat.exists_eq_succ_of_ne_zero hpos.ne'
  obtain ⟨w, receipts, hreaches, hstore, hreceipts, hdrawn, hcalls⟩ :=
    exists_rounds hlimit (Nat.lt_succ_self n)
  obtain ⟨t, ht, hround⟩ := reaches_round (n + 1) (by omega) hlimit hstore
    (contains_quiet hreceipts) (not_contains_next hlimit hreceipts) (runOf_fresh hlimit hdrawn)
  obtain ⟨hshows, hlist⟩ := shows_quiet ht
  -- the oldest receipt is gone
  have hgone : (claimedReceipts (n + 1) receipts (n + 1)).contains (persistentKey 0) = false := by
    have hentries := entries_claimedReceipts (n + 1) hlimit hreceipts
    rw [Nat.add_sub_cancel_left] at hentries
    have hnone : (claimedReceipts (n + 1) receipts (n + 1)).get? (persistentKey 0) = none := by
      apply get?_none_of_entries hentries
      intro hmem
      obtain ⟨e, he, hkey⟩ := List.mem_map.mp hmem
      unfold receiptsBefore at he
      rw [← List.map_drop, List.range_succ_eq_map, List.drop_one, List.tail_cons] at he
      obtain ⟨m, hm, hme⟩ := List.mem_map.mp he
      obtain ⟨k, hk, hkm⟩ := List.mem_map.mp hm
      have hlt := List.mem_range.mp hk
      rw [← hme] at hkey
      exact persistentKey_ne (m := m) (n := 0) (by omega) (by decide) (by omega) hkey
    simp [Dict.contains, hnone]
  have hlisting := reaches_listing sampleEnvironment (fun name => name) (n + 1)
    (World.sent { w with store := t, drawn := runOf (n + 1) :: w.drawn } (n + 1) receipts "b"
      (n + 1))
    (claimedReceipts (n + 1) receipts (n + 1))
  rw [hlist] at hlisting
  obtain ⟨labels, hlabels⟩ :=
    hreaches.trans (hround.trans (hlisting.trans (reaches_sent hshows hgone)))
  refine ⟨labels, _, hlabels, ?_⟩
  intro hnoticed
  have honce := hnoticed.once
  rw [List.map_cons, List.nodup_cons] at honce
  exact honce.1 (List.mem_map_of_mem (List.mem_cons_of_mem _ hcalls))

/-- The claim is false for the limit of the code. -/
theorem busyRounds_noticeTwice :
    ∃ labels w, Runs.exec (World.next sampleEnvironment (fun name => name) maxReceipts)
      World.initial labels = some w ∧ ¬ w.NoticedOnce :=
  exists_noticedTwice (by decide) (by decide)

end CodexBridge.Notices
