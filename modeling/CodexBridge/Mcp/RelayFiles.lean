import CodexBridge.Mcp.Relay

/-! # What the relay saves can be loaded

A record in the relay passes every check of the loader once it is written, and is read back as it
was. The one exception is a URL whose canonical form is not canonical itself.
-/

namespace CodexBridge.Mcp

/-! ## Credentials -/

theorem secret_eq {value : Json} {text : String} (h : secret value = some text) :
    value = .str text := by
  unfold secret at h
  split at h
  · obtain ⟨_, h⟩ := Option.ite_none_right_eq_some.mp h
    cases h
    rfl
  · cases h

def headerObject (pair : String × String) : Json :=
  .obj [("name", .str pair.1), ("value", .str pair.2)]

theorem parseHeaders_again {seen : List String} {pairs : List Json}
    {result : List (String × String)} (h : parseHeaders seen pairs = some result) :
    parseHeaders seen (result.map headerObject) = some result := by
  induction pairs generalizing seen result with
  | nil =>
    cases h
    rfl
  | cons pair rest ih =>
    obtain ⟨_, _, _, _, hfree, htext, hothers, rfl⟩ := parseHeaders_cons h
    have hvalue := secret_eq htext
    subst hvalue
    simp [parseHeaders, headerObject, Json.hasExactly, Json.field?, hfree, htext]
    exact ih hothers

theorem parseHeaders_length {seen : List String} {pairs : List Json}
    {result : List (String × String)} (h : parseHeaders seen pairs = some result) :
    result.length = pairs.length := by
  induction pairs generalizing seen result with
  | nil =>
    cases h
    rfl
  | cons pair rest ih =>
    obtain ⟨_, _, _, _, _, _, hothers, rfl⟩ := parseHeaders_cons h
    rw [List.length_cons, List.length_cons, ih hothers]

namespace Relay

/-- What `stored` writes of a credential is read as that credential. -/
def IsStored (c : McpCredential) : Prop := parseStored (storedCredential c) = some c

theorem isStored_nil (mode : CredentialMode) : IsStored ⟨mode, []⟩ := by
  cases mode with
  | _ => rfl

theorem mapM_pairObject (headers : List (String × String)) :
    (headers.map fun pair => Json.arr [.str pair.1, .str pair.2]).mapM pairObject =
      some (headers.map headerObject) := by
  induction headers with
  | nil => rfl
  | cons pair rest ih =>
    rw [List.map_cons, List.mapM_cons, ih]
    rfl

theorem isStored_bearer {token : String} (hsecret : secret (.str token) = some token)
    (htoken : isToken token = true) :
    IsStored ⟨.bearer, [("Authorization", "Bearer " ++ token)]⟩ := by
  have htext : ("Bearer " ++ token).toList = "Bearer ".toList ++ token.toList :=
    String.toList_append
  have hrest : String.ofList (("Bearer " ++ token).toList.drop 7) = token := by
    rw [htext]
    exact String.ofList_toList
  have hread : parseFields .bearer [("mode", .str "bearer"),
      ("token", .str (String.ofList (("Bearer " ++ token).toList.drop 7)))] =
      some ⟨.bearer, [("Authorization", "Bearer " ++ token)]⟩ := by
    rw [hrest]
    simp [parseFields, Json.hasExactly, Json.field?, hsecret, htoken]
  unfold IsStored storedCredential parseStored
  simp [modeOf, modeText, Json.field?, Json.str?, CredentialMode.ofString, Json.hasExactly,
    pairObject]
  simpa [hrest] using hread

theorem isStored_headers {pairs : List Json} {result : List (String × String)}
    (hlength : 1 ≤ pairs.length ∧ pairs.length ≤ 8) (hresult : parseHeaders [] pairs = some result)
    (hsum : ¬ (result.map fun pair => pair.1.length + pair.2.length).sum > 8192) :
    IsStored ⟨.headers, result⟩ := by
  have hcount := parseHeaders_length hresult
  have hread : parseFields .headers [("mode", .str "headers"),
      ("headers", .arr (result.map headerObject))] = some ⟨.headers, result⟩ := by
    have hroom : 1 ≤ (result.map headerObject).length ∧ (result.map headerObject).length ≤ 8 := by
      rw [List.length_map]
      omega
    have hfield : Json.field? [("mode", .str "headers"),
        ("headers", .arr (result.map headerObject))] "headers" =
          some (.arr (result.map headerObject)) := rfl
    simp only [parseFields]
    rw [if_pos (by simp [Json.hasExactly, Json.field?]), hfield]
    simp only
    rw [if_pos hroom, parseHeaders_again hresult, Option.bind_some, if_neg hsum]
  cases result with
  | nil => simp at hcount; omega
  | cons pair rest =>
    have hobjects := mapM_pairObject (pair :: rest)
    show (((pair :: rest).map fun pair => Json.arr [.str pair.1, .str pair.2]).mapM pairObject).bind
      (fun objects => parseFields .headers [("mode", .str "headers"), ("headers", .arr objects)]) =
        some ⟨.headers, pair :: rest⟩
    rw [hobjects]
    exact hread

/-- Every credential that `parse_credential` gives can be stored. -/
theorem Credential.isStored (c : Credential) : IsStored c.value := by
  obtain ⟨value, source, h⟩ := c
  show IsStored value
  unfold parsePlain at h
  split at h
  · cases h
    exact isStored_nil .open
  · obtain ⟨mode, _, h⟩ := Option.bind_eq_some_iff.mp h
    cases mode with
    | «open» =>
      obtain ⟨_, h⟩ := Option.ite_none_right_eq_some.mp h
      cases h
      exact isStored_nil .open
    | bearer =>
      obtain ⟨_, h⟩ := Option.ite_none_right_eq_some.mp h
      obtain ⟨token, htoken, h⟩ := Option.bind_eq_some_iff.mp h
      obtain ⟨hvalid, h⟩ := Option.ite_none_right_eq_some.mp h
      obtain ⟨value, _, hsecret⟩ := Option.bind_eq_some_iff.mp htoken
      cases h
      have hvalue := secret_eq hsecret
      subst hvalue
      exact isStored_bearer hsecret hvalid
    | headers =>
      obtain ⟨_, h⟩ := Option.ite_none_right_eq_some.mp h
      split at h
      · obtain ⟨hlength, h⟩ := Option.ite_none_right_eq_some.mp h
        obtain ⟨result, hresult, h⟩ := Option.bind_eq_some_iff.mp h
        obtain ⟨hsum, h⟩ := Option.ite_none_left_eq_some.mp h
        cases h
        exact isStored_headers hlength hresult hsum
      · cases h
  · cases h

section

variable {network : Network}

/-- What a record needs so that it is read back. -/
structure McpRecord.Sound (network : Network) (r : McpRecord) : Prop where
  token : isRelayToken r.token = true
  credential : IsStored r.credential
  closed : r.isLocal = false → r.credential.mode ≠ .open
  url : canonicalLocalUrl network r.isLocal (.str r.url) = some r.url
  addresses : checkedAddresses network r.isLocal r.addresses = some r.addresses

theorem readAddresses_texts {isLocal : Bool} {addresses : List Url.Text}
    (h : checkedAddresses network isLocal addresses = some addresses) :
    readAddresses network isLocal (.arr (addresses.map fun a => .str (String.ofList a))) =
      some addresses := by
  have hread : (addresses.map fun a => Json.str (String.ofList a)).mapM
      (fun item => (Json.str? item).map String.toList) = some addresses := by
    apply Json.mapM_map_some
    intro a _
    simp [Json.str?]
  simp only [readAddresses]
  rw [hread, Option.bind_some, h]

theorem McpRecord.Sound.read {r : McpRecord} (h : r.Sound network) :
    readRecord network 2 (recordJson r) = some r := by
  have hclosed : (!r.isLocal && decide (r.credential.mode = .open)) = false := by
    cases hlocal : r.isLocal with
    | true => rfl
    | false => simpa using h.closed hlocal
  have hcredential : readCredential 2 [("url", .str r.url),
      ("addresses", .arr (r.addresses.map fun a => .str (String.ofList a))),
      ("token", .str r.token), ("local", .bool r.isLocal),
      ("credential", storedCredential r.credential)] = some r.credential := by
    have hstored : parseStored (storedCredential r.credential) = some r.credential := h.credential
    simpa [readCredential, Json.field?] using hstored
  unfold recordJson readRecord
  simp only [hcredential]
  simp [Json.hasExactly, recordKeys, Json.field?, Json.str?, Json.bool?, h.token, h.url,
    readAddresses_texts h.addresses]
  simpa using hclosed

/-- What the records of the relay need so that they are read back. -/
structure Sound (network : Network) (records : Records) : Prop where
  size : records.size ≤ maxServers
  names : ∀ e ∈ records.entries, isServerName e.1 = true
  each : ∀ e ∈ records.entries, e.2.Sound network

theorem entries_foldl_set {κ α : Type} [DecidableEq κ] (xs : List (κ × α)) (d : Dict κ α)
    (h : (d.entries.map Prod.fst ++ xs.map Prod.fst).Nodup) :
    (xs.foldl (fun d e => d.set e.1 e.2) d).entries = d.entries ++ xs := by
  induction xs generalizing d with
  | nil => simp
  | cons e rest ih =>
    have hfresh : e.1 ∉ d.entries.map Prod.fst := by
      rw [List.map_cons, List.nodup_append] at h
      intro hmem
      exact h.2.2 _ hmem _ List.mem_cons_self rfl
    have hset : (d.set e.1 e.2).entries = d.entries ++ [e] := by
      simp [Dict.set, hfresh]
    have hrest := ih (d.set e.1 e.2) (by
      rw [hset]
      simpa [List.append_assoc] using h)
    rw [List.foldl_cons, hrest, hset, List.append_assoc]
    rfl

theorem ofList_entries {κ α : Type} [DecidableEq κ] (d : Dict κ α) : Dict.ofList d.entries = d := by
  have hentries := entries_foldl_set d.entries Dict.empty (by simpa [Dict.empty] using d.nodup)
  cases d with
  | mk entries nodup =>
    have heq : (Dict.ofList entries).entries = entries := by
      unfold Dict.ofList
      rw [hentries]
      rfl
    cases hlist : Dict.ofList entries with
    | mk entries' nodup' =>
      rw [hlist] at heq
      subst heq
      rfl

variable {records : Records}

theorem Sound.mapM_readEntry (h : Sound network records) :
    (records.entries.map fun e => (e.1, recordJson e.2)).mapM (readEntry network 2) =
      some records.entries := by
  apply Json.mapM_map_some
  intro e he
  have hname := h.names e he
  have hrecord := (h.each e he).read
  unfold readEntry
  rw [if_pos hname, hrecord, Option.map_some]

theorem Sound.read (h : Sound network records) {length : Nat} (hlength : length ≤ maxRegistry) :
    readRegistry network ⟨payload records, length⟩ = some records := by
  have hsize : records.entries.length ≤ maxServers := h.size
  have hentries := h.mapM_readEntry
  unfold readRegistry
  rw [if_neg (Nat.not_lt.mpr hlength)]
  simp only [payload]
  simp only [Json.hasExactly, Json.field?, List.find?_cons, List.all_cons, List.all_nil]
  simp [hsize, hentries, ofList_entries]

theorem sound_empty : Sound network Dict.empty where
  size := Nat.zero_le _
  names := fun _ he => absurd he List.not_mem_nil
  each := fun _ he => absurd he List.not_mem_nil

theorem Sound.set (h : Sound network records) {name : String} {r : McpRecord}
    (hname : isServerName name = true) (hr : r.Sound network)
    (hsize : (records.set name r).size ≤ maxServers) : Sound network (records.set name r) where
  size := hsize
  names := by
    intro e he
    rcases (Dict.mem_set records name r e.1 e.2).mp he with ⟨heq, _⟩ | ⟨_, hold⟩
    · rw [heq]
      exact hname
    · exact h.names e hold
  each := by
    intro e he
    rcases (Dict.mem_set records name r e.1 e.2).mp he with ⟨_, heq⟩ | ⟨_, hold⟩
    · rw [heq]
      exact hr
    · exact h.each e hold

theorem Sound.filter (h : Sound network records)
    (p : String → McpRecord → Bool) : Sound network (records.filter p) where
  size := Nat.le_trans (List.length_filter_le _ _) h.size
  names := fun e he => h.names e ((Dict.mem_filter records p e.1 e.2).mp he).1
  each := fun e he => h.each e ((Dict.mem_filter records p e.1 e.2).mp he).1

theorem Sound.of_get? (h : Sound network records) {name : String}
    {r : McpRecord} (hr : records.get? name = some r) :
    isServerName name = true ∧ r.Sound network := by
  have hmem := (Dict.get?_eq_some_iff records name r).mp hr
  exact ⟨h.names _ hmem, h.each _ hmem⟩

end

end Relay

end CodexBridge.Mcp
