import CodexBridge.Runtime.StateStore

/-! # What is saved loads

The dump of a valid record, plain or with the marker of an operation, passes every check of
`load`, and the migrations for older states leave it as it is.
-/

namespace CodexBridge.Runtime

open Effect Journal

/-! ## Fields -/

theorem mem_of_field? {fields : Payload} {key : String} {value : Json}
    (h : Json.field? fields key = some value) : (key, value) ∈ fields := by
  obtain ⟨f, hf, hvalue⟩ := Option.map_eq_some_iff.mp h
  have hkey : f.1 = key := by simpa using List.find?_some hf
  have hmem := List.mem_of_find?_eq_some hf
  rw [← hkey, ← hvalue]
  exact hmem

theorem ne_of_field?_none {fields : Payload} {key : String}
    (h : Json.field? fields key = none) : ∀ f ∈ fields, f.1 ≠ key := by
  intro f hf
  have hnone := List.find?_eq_none.mp (Option.map_eq_none_iff.mp h) f hf
  simpa using hnone

theorem setDefault_of_isSome {fields : Payload} {key : String}
    (h : (Json.field? fields key).isSome = true) (value : Json) :
    setDefault fields key value = fields := by
  rw [setDefault, if_pos h]

theorem setField_same {fields : Payload} {key : String} {value : Json}
    (hdistinct : (fields.map Prod.fst).Nodup) (h : Json.field? fields key = some value) :
    setField fields key value = fields := by
  have hmem := mem_of_field? h
  rw [setField, h]
  simp only [Option.isSome_some, if_true]
  have hsame : ∀ f ∈ fields, (if f.1 = key then (key, value) else f) = id f := by
    intro f hf
    split
    · rename_i hkey
      exact List.inj_on_of_nodup_map hdistinct hmem hf hkey.symm
    · rfl
  rw [List.map_congr_left hsame, List.map_id]

section

variable (m : RecordModel)

theorem migrateRun_hasFields {run : Json}
    (h : HasFields ("prompt_fingerprint" :: legacyRunFields) run) : migrateRun m run = .ok run := by
  cases run with
  | obj fields =>
    have hall : ∀ name ∈ "prompt_fingerprint" :: legacyRunFields,
        (Json.field? fields name).isSome = true := h
    obtain ⟨fingerprint, hfingerprint⟩ :=
      Option.isSome_iff_exists.mp (hall "prompt_fingerprint" (by decide))
    unfold migrateRun
    dsimp only
    rw [hfingerprint]
    dsimp only
    rw [setDefault_of_isSome (hall "attachment_ids" (by decide)),
      setDefault_of_isSome (hall "attachment_manifest_fingerprint" (by decide)),
      setDefault_of_isSome (hall "turn_start_dispatched" (by decide)),
      setDefault_of_isSome (hall "total_deadline_at" (by decide)),
      setDefault_of_isSome (hall "workspace_context" (by decide))]
  | _ => exact h.elim

theorem migrateRuns_hasFields {runs : Payload}
    (h : ∀ run ∈ runs, HasFields ("prompt_fingerprint" :: legacyRunFields) run.2) :
    migrateRuns m runs = .ok runs := by
  induction runs with
  | nil => rfl
  | cons run rest ih =>
    obtain ⟨id, value⟩ := run
    have hfirst := migrateRun_hasFields m (h (id, value) List.mem_cons_self)
    have hrest := ih fun other hother => h other (List.mem_cons_of_mem _ hother)
    rw [migrateRuns, hfirst, hrest]
    rfl

theorem migrateOutcomes_hasFields (runs : Payload) {outcomes : Payload}
    (h : ∀ outcome ∈ outcomes, HasFields ["run_status"] outcome.2) :
    migrateOutcomes m runs outcomes = .ok (runs, outcomes) := by
  induction outcomes with
  | nil => rfl
  | cons outcome rest ih =>
    obtain ⟨id, value⟩ := outcome
    have hrest := ih fun other hother => h other (List.mem_cons_of_mem _ hother)
    have hfirst : migrateOutcome m runs value = .ok (runs, value) := by
      have hvalue : HasFields ["run_status"] value := h (id, value) List.mem_cons_self
      cases value with
      | obj fields =>
        have hstatus : (Json.field? fields "run_status").isSome = true :=
          hvalue "run_status" List.mem_cons_self
        rw [migrateOutcome, if_pos hstatus]
      | _ => exact hvalue.elim
    rw [migrateOutcomes, hfirst]
    simp only [except_pure_bind]
    rw [hrest]
    rfl

theorem migrate_dump {revision : Nat} {payload : Payload} (h : IsDump revision payload) :
    migrate m payload = .ok payload := by
  obtain ⟨runs, hruns, hrun⟩ := h.runs
  obtain ⟨outcomes, houtcomes, houtcome⟩ := h.outcomes
  unfold migrate
  rw [houtcomes, hruns]
  dsimp only
  rw [migrateRuns_hasFields m hrun, except_pure_bind, migrateOutcomes_hasFields m runs houtcome,
    except_pure_bind]
  dsimp only
  rw [setField_same h.distinct hruns, setField_same h.distinct houtcomes]
  rfl

end

variable {m : RecordModel} {record : m.Record}

theorem loadRaw_of_popMarker {raw : Payload} (hvalid : m.revalidate record = some record)
    (h : popMarker raw = .ok (m.dump record)) : loadRaw m raw = .ok record := by
  have hread : m.validate (m.dump record) = some record := m.validate_dump hvalid
  have hdump : IsDump (m.revision record) (m.dump record) := m.dump_valid hvalid
  have hschema : (Json.field? (m.dump record) "schema_version").isSome = true := by
    rw [hdump.schema]
    rfl
  unfold loadRaw
  rw [h, except_pure_bind, setDefault_of_isSome hschema]
  dsimp only
  rw [hdump.schema, refuse_bind_of_not (by decide), migrate_dump m hdump, except_pure_bind,
    hread]

theorem loadRaw_dump (hvalid : m.revalidate record = some record) :
    loadRaw m (m.dump record) = .ok record := by
  apply loadRaw_of_popMarker hvalid
  have hdump : IsDump (m.revision record) (m.dump record) := m.dump_valid hvalid
  have hunmarked := hdump.unmarked
  unfold popMarker
  rw [hunmarked]
  dsimp only
  congr 1
  rw [List.filter_eq_self]
  intro f hf
  simpa using ne_of_field?_none hunmarked f hf

theorem loadRaw_document (hvalid : m.revalidate record = some record) {document : Document}
    (hbody : document.body = m.dump record) (hid : document.operationId ≠ "")
    (hrevision : document.revision = m.revision record) (hpositive : 1 ≤ document.revision) :
    loadRaw m (documentRaw document) = .ok record := by
  apply loadRaw_of_popMarker hvalid
  have hdump : IsDump (m.revision record) (m.dump record) := m.dump_valid hvalid
  have hrest : (documentRaw document).filter (fun f => f.1 ≠ "_bridge_operation") =
      m.dump record := by
    rw [documentRaw, List.filter_cons_of_neg (by simp), hbody, List.filter_eq_self]
    intro f hf
    simpa using ne_of_field?_none hdump.unmarked f hf
  have hmarker : Json.field? (documentRaw document) "_bridge_operation" =
      some (.obj [("operation_id", .str document.operationId),
        ("revision", .int document.revision)]) := rfl
  unfold popMarker
  dsimp only
  rw [hmarker, hrest]
  have hexact : Json.hasExactly [("operation_id", .str document.operationId),
      ("revision", .int document.revision)] ["operation_id", "revision"] = true := rfl
  have hequal : isEqual document.revision (Json.field? (m.dump record) "revision") = true := by
    rw [hdump.revision, hrevision]
    simp [isEqual]
  have hfields : Json.field? [("operation_id", Json.str document.operationId),
      ("revision", .int document.revision)] "operation_id" = some (.str document.operationId) ∧
      Json.field? [("operation_id", Json.str document.operationId),
        ("revision", .int document.revision)] "revision" = some (.int document.revision) :=
    ⟨rfl, rfl⟩
  dsimp only
  rw [hfields.1, hfields.2]
  dsimp only
  rw [hexact, hequal]
  have hint : (1 : Int) ≤ document.revision := by omega
  simp [hid, hint]

end CodexBridge.Runtime
