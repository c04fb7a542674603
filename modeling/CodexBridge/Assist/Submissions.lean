import CodexBridge.Assist.Conversation
import CodexBridge.Library.Runs

/-! # What may be admitted

The property of a conversation, as a condition on every event that happens, and the condition
under which it holds. A replay that is refused for good breaks it: the agent clears a task whose
first submission may have been admitted.
-/

namespace CodexBridge.Assist

/-! ## The property -/

def Submission.taskId (s : Submission) : String := s.payload.taskId

def submissions (t : List Event) : List Submission :=
  t.filterMap fun
    | .submitted s => some s
    | _ => none

def sent (t : List Event) (taskId : String) : Nat :=
  ((submissions t).filter fun s => s.taskId = taskId).length

/-- The Bridge has stored the task, or some submission of it was not refused for good. -/
def MayBeAdmitted (t : List Event) (taskId : String) : Prop :=
  .admitted taskId ∈ t ∨ t.count (.refused taskId) < sent t taskId

def IsOpen (t : List Event) (taskId : String) : Prop :=
  MayBeAdmitted t taskId ∧ .settled taskId ∉ t

instance (t : List Event) (taskId : String) : Decidable (IsOpen t taskId) :=
  inferInstanceAs (Decidable ((_ ∨ _) ∧ _))

def given (t : List Event) (taskId : String) : List String :=
  t.filterMap fun
    | .gave other answer => if other = taskId then some answer else none
    | _ => none

/-- What may happen after the events `t`. -/
def Lawful (t : List Event) : Event → Prop
  | .submitted s =>
    (∀ old ∈ submissions t, old.taskId = s.taskId →
      old.payload = s.payload ∧ old.question = s.question) ∧
    ∀ old ∈ submissions t, old.question = s.question → old.log = s.log →
      old.taskId ≠ s.taskId → ¬ IsOpen t old.taskId
  | .spoke question answer =>
    ∃ s ∈ submissions t, s.question = question ∧ ∃ full ∈ given t s.taskId,
      answer = full ∨ answer = String.ofList (full.toList.take 1024)
  | _ => True

instance (t : List Event) : ∀ event, Decidable (Lawful t event)
  | .submitted _ => inferInstanceAs (Decidable (_ ∧ _))
  | .spoke question answer =>
    inferInstanceAs (Decidable (∃ s ∈ submissions t, s.question = question ∧
      ∃ full ∈ given t s.taskId, answer = full ∨ answer = String.ofList (full.toList.take 1024)))
  | .refused _ | .admitted _ | .settled _ | .gave _ _ => isTrue trivial

def Orderly : List Event → Prop
  | [] => True
  | event :: t => Lawful t event ∧ Orderly t

instance decidableOrderly : ∀ t, Decidable (Orderly t)
  | [] => isTrue trivial
  | _ :: t =>
    have := decidableOrderly t
    inferInstanceAs (Decidable (_ ∧ _))

/-- The delivery ends with an error that the agent takes as final. -/
def World.isRefusal (w : World) (payload : Payload) : Delivery → Bool
  | .unsent => true
  | .answered trouble =>
    match (w.bridge.handle payload trouble).2 with
    | .ok _ => false
    | .error p => !p.retryable
  | _ => false

def World.leavesRun (w : World) (payload : Payload) : Delivery → Bool
  | .answered trouble =>
    ((w.bridge.handle payload trouble).1.runs.get? payload.taskId).isSome
  | _ => false

def World.isDefinite (w : World) (payload : Payload) (delivery : Delivery) (attempt : Attempt) :
    Bool :=
  attempt = .first && !w.leavesRun payload delivery

/-- A step neither refuses a follow-up question for good although an earlier submission of it or
this one may have been admitted, nor replaces the agent while it handles a message. -/
def World.isUndoubted (w : World) : Label → Bool
  | .reload _ => w.entities.all fun e => e.request.isNone
  | .post k delivery =>
    match w.active k with
    | none => true
    | some (_, r, session) =>
      match r.phase, session.pending.bind Pending.payload with
      | .submitting _ attempt, some payload =>
        session.threadId.isNone || !w.isRefusal payload delivery ||
          w.isDefinite payload delivery attempt
      | _, _ => true
  | _ => true

@[simp] theorem submissions_submitted (s : Submission) (t : List Event) :
    submissions (.submitted s :: t) = s :: submissions t := rfl

theorem submissions_append (a b : List Event) :
    submissions (a ++ b) = submissions a ++ submissions b := List.filterMap_append

theorem sent_append (a b : List Event) (taskId : String) :
    sent (a ++ b) taskId = sent a taskId + sent b taskId := by
  unfold sent
  rw [submissions_append, List.filter_append, List.length_append]

def Event.opened : Event → List String
  | .submitted s => [s.taskId]
  | .admitted taskId => [taskId]
  | _ => []

theorem isOpen_cons {event : Event} {t : List Event} {taskId : String}
    (h : IsOpen (event :: t) taskId) : IsOpen t taskId ∨ taskId ∈ event.opened := by
  obtain ⟨hmay, hsettled⟩ := h
  have hold : .settled taskId ∉ t := fun hmem => hsettled (List.mem_cons_of_mem event hmem)
  by_cases hopened : taskId ∈ event.opened
  · exact Or.inr hopened
  left
  refine ⟨?_, hold⟩
  cases hmay with
  | inl hadmitted =>
    cases List.mem_cons.mp hadmitted with
    | inl heq =>
      rw [← heq] at hopened
      simp [Event.opened] at hopened
    | inr hmem => exact Or.inl hmem
  | inr hcount =>
    right
    have hle : t.count (.refused taskId) ≤ (event :: t).count (.refused taskId) :=
      List.count_le_count_cons
    have hsent : sent (event :: t) taskId = sent t taskId := by
      cases event with
      | submitted s =>
        have hne : s.taskId ≠ taskId := by
          intro heq
          simp [Event.opened, heq] at hopened
        simp [sent, hne]
      | _ => rfl
    omega

theorem isOpen_append {events t : List Event} {taskId : String} (h : IsOpen (events ++ t) taskId) :
    IsOpen t taskId ∨ ∃ event ∈ events, taskId ∈ event.opened := by
  induction events with
  | nil => exact Or.inl h
  | cons event rest ih =>
    cases isOpen_cons h with
    | inl hrest =>
      cases ih hrest with
      | inl hold => exact Or.inl hold
      | inr hex =>
        obtain ⟨other, hmem, hother⟩ := hex
        exact Or.inr ⟨other, List.mem_cons_of_mem event hmem, hother⟩
    | inr hopened => exact Or.inr ⟨event, List.mem_cons_self, hopened⟩

theorem mem_given {t : List Event} {taskId answer : String} :
    answer ∈ given t taskId ↔ .gave taskId answer ∈ t := by
  unfold given
  rw [List.mem_filterMap]
  constructor
  · intro h
    obtain ⟨event, hevent, heq⟩ := h
    cases event with
    | gave other text =>
      dsimp only at heq
      rcases Runs.taken heq with ⟨hsame, rfl⟩
      rw [← hsame]
      exact hevent
    | _ => cases heq
  · intro h
    exact ⟨_, h, if_pos rfl⟩

def Known (t : List Event) (conversation : String) (previous : Option Previous) : Prop :=
  ∀ prompt answer, previous = some ⟨prompt, some answer⟩ →
    ∃ s ∈ submissions t, s.question = ⟨conversation, prompt⟩ ∧ .gave s.taskId answer ∈ t

theorem Known.append {t : List Event} {conversation : String} {previous : Option Previous}
    (h : Known t conversation previous) (events : List Event) :
    Known (events ++ t) conversation previous := by
  intro prompt answer hprevious
  obtain ⟨s, hs, hquestion, hgave⟩ := h prompt answer hprevious
  rw [submissions_append]
  exact ⟨s, List.mem_append_right _ hs, hquestion, List.mem_append_right _ hgave⟩

theorem Known.lawful {t : List Event} {conversation prompt text : String}
    (h : Known t conversation (some ⟨prompt, some text⟩)) :
    Lawful t (.spoke ⟨conversation, prompt⟩ text) := by
  obtain ⟨s, hs, hquestion, hgave⟩ := h prompt text rfl
  exact ⟨s, hs, hquestion, text, mem_given.mpr hgave, Or.inl rfl⟩

theorem not_isOpen_settled {t : List Event} {taskId : String} (h : .settled taskId ∈ t) :
    ¬ IsOpen t taskId := fun hopen => hopen.2 h

structure Books (t : List Event) (drawn : List String) (delayed : List Payload) : Prop where
  orderly : Orderly t
  drawn : ∀ s ∈ submissions t, s.taskId ∈ drawn
  counted : ∀ taskId, t.count (.refused taskId) +
    (delayed.filter fun p => p.taskId = taskId).length ≤ sent t taskId
  admitted : ∀ taskId, .admitted taskId ∈ t → 0 < sent t taskId

namespace Books

variable {t : List Event} {drawn : List String} {delayed : List Payload}

section

variable (h : Books t drawn delayed)

include h

theorem draw (uuid : String) : Books t (uuid :: drawn) delayed where
  orderly := h.orderly
  drawn := fun s hs => List.mem_cons_of_mem uuid (h.drawn s hs)
  counted := h.counted
  admitted := h.admitted

theorem note {event : Event} (hlawful : Lawful t event)
    (hsub : submissions (event :: t) = submissions t) (hrefused : ∀ taskId, event ≠ .refused taskId)
    (hadmitted : ∀ taskId, event ≠ .admitted taskId) : Books (event :: t) drawn delayed where
  orderly := ⟨hlawful, h.orderly⟩
  drawn := by
    rw [hsub]
    exact h.drawn
  counted := by
    intro taskId
    have hcount := h.counted taskId
    rw [List.count_cons_of_ne (hrefused taskId)]
    unfold sent at hcount ⊢
    rw [hsub]
    exact hcount
  admitted := by
    intro taskId hmem
    unfold sent
    rw [hsub]
    cases List.mem_cons.mp hmem with
    | inl heq => exact absurd heq.symm (hadmitted taskId)
    | inr hold => exact h.admitted taskId hold

theorem settle (taskId : String) :
    Books (.settled taskId :: t) drawn delayed :=
  h.note trivial rfl (fun _ => Event.noConfusion) fun _ => Event.noConfusion

theorem give (taskId answer : String) :
    Books (.gave taskId answer :: t) drawn delayed :=
  h.note trivial rfl (fun _ => Event.noConfusion) fun _ => Event.noConfusion

theorem speak {question : Question} {answer : String}
    (hlawful : Lawful t (.spoke question answer)) :
    Books (.spoke question answer :: t) drawn delayed :=
  h.note hlawful rfl (fun _ => Event.noConfusion) fun _ => Event.noConfusion

theorem admitted_cons {taskId : String} (hsent : 0 < sent t taskId) :
    Books (.admitted taskId :: t) drawn delayed where
  orderly := ⟨trivial, h.orderly⟩
  drawn := h.drawn
  counted := by
    intro other
    rw [List.count_cons_of_ne Event.noConfusion]
    exact h.counted other
  admitted := by
    intro other hmem
    cases List.mem_cons.mp hmem with
    | inl heq =>
      cases heq
      exact hsent
    | inr hold => exact h.admitted other hold

end

theorem sent_submitted (s : Submission) (t : List Event) (taskId : String) :
    sent (.submitted s :: t) taskId = sent t taskId + if s.taskId = taskId then 1 else 0 := by
  unfold sent
  rw [submissions_submitted, List.filter_cons]
  by_cases h : s.taskId = taskId
  · simp [h]
  · simp [h]

theorem submit (h : Books t drawn delayed) {s : Submission} (hlawful : Lawful t (.submitted s))
    (hdrawn : s.taskId ∈ drawn) : Books (.submitted s :: t) drawn delayed where
  orderly := ⟨hlawful, h.orderly⟩
  drawn := by
    intro other hother
    cases List.mem_cons.mp hother with
    | inl heq =>
      rw [heq]
      exact hdrawn
    | inr hold => exact h.drawn other hold
  counted := by
    intro taskId
    have hcount := h.counted taskId
    rw [List.count_cons_of_ne Event.noConfusion, sent_submitted]
    omega
  admitted := by
    intro taskId hmem
    have hold : .admitted taskId ∈ t := by
      cases List.mem_cons.mp hmem with
      | inl heq => cases heq
      | inr hmem => exact hmem
    have hpos := h.admitted taskId hold
    rw [sent_submitted]
    omega

theorem refuse {s : Submission} (h : Books t drawn delayed) (hcount : t.count (.refused s.taskId) +
      (delayed.filter fun p => p.taskId = s.taskId).length < sent t s.taskId) :
    Books (.refused s.taskId :: t) drawn delayed where
  orderly := ⟨trivial, h.orderly⟩
  drawn := h.drawn
  counted := by
    intro taskId
    have hold := h.counted taskId
    have hsent : sent (.refused s.taskId :: t) taskId = sent t taskId := rfl
    rw [hsent]
    by_cases heq : s.taskId = taskId
    · rw [← heq] at hold ⊢
      rw [List.count_cons_self]
      omega
    rw [List.count_cons_of_ne]
    · exact hold
    · intro hevent
      exact heq (Event.refused.inj hevent)
  admitted := by
    intro taskId hmem
    cases List.mem_cons.mp hmem with
    | inl heq => cases heq
    | inr hold => exact h.admitted taskId hold

theorem delay (h : Books t drawn delayed) {p : Payload} (hcount : t.count (.refused p.taskId) +
      (delayed.filter fun q => q.taskId = p.taskId).length < sent t p.taskId) :
    Books t drawn (p :: delayed) where
  orderly := h.orderly
  drawn := h.drawn
  counted := by
    intro taskId
    have hold := h.counted taskId
    by_cases heq : p.taskId = taskId
    · rw [← heq] at hold ⊢
      rw [List.filter_cons_of_pos (by simp), List.length_cons]
      omega
    · rw [List.filter_cons_of_neg (by simpa using heq)]
      exact hold
  admitted := h.admitted

theorem arrive (h : Books t drawn delayed) {rest : List Payload} (hrest : rest.Sublist delayed) :
    Books t drawn rest where
  orderly := h.orderly
  drawn := h.drawn
  counted := by
    intro taskId
    have hold := h.counted taskId
    have hle := (hrest.filter fun p => decide (p.taskId = taskId)).length_le
    omega
  admitted := h.admitted

theorem count_lt_of_mem (h : Books t drawn delayed) {p : Payload} (hp : p ∈ delayed) :
    t.count (.refused p.taskId) < sent t p.taskId := by
  have hold := h.counted p.taskId
  have hpos : 0 < (delayed.filter fun q => q.taskId = p.taskId).length :=
    List.length_pos_of_mem (List.mem_filter.mpr ⟨hp, by simp⟩)
  omega

end Books

end CodexBridge.Assist
