import CodexBridge.Assist.Submissions

/-! # Where a task is kept

As long as the Bridge may have admitted a task, the session of its conversation keeps it as
pending, or there is no session and the chat log has an answer, so that the conversation is
refused.
-/

namespace CodexBridge.Assist

/-! ## The invariant -/

def Entity.pending (e : Entity) (conversation : String) : Option Pending :=
  (e.sessions.get? conversation).bind Session.pending

/-- The body that a pending question is sent with, in its session. -/
def isTargetOf (session : Session) : Target → Prop
  | .thread threadId => session.threadId = some threadId
  | .start _ => session.threadId = none

structure Matches (t : List Event) (conversation : String) (session : Session)
    (pending : Pending) : Prop where
  question : ∀ s ∈ submissions t, s.taskId = pending.taskId →
    s.question = ⟨conversation, pending.prompt⟩
  body : ∀ payload, pending.payload = some payload →
    payload.taskId = pending.taskId ∧ isTargetOf session payload.target ∧
      ∀ s ∈ submissions t, s.taskId = pending.taskId → s.payload = payload
  accepted : pending.payload = none → ∃ s ∈ submissions t, s.taskId = pending.taskId

def Held (w : World) (e : Entity) (conversation taskId : String) : Prop :=
  ((e.pending conversation).map Pending.taskId = some taskId ∧
    ((w.log conversation).answered = true ∨
      ∃ r, e.request = some r ∧ r.conversation = conversation)) ∨
  (e.sessions.get? conversation = none ∧ (w.log conversation).answered = true)

def Fits (t : List Event) (r : Request) (session : Session) : Prop :=
  match r.phase with
  | .resubmitting => True
  | .readingPrevious => ∀ p, session.pending = some p → p.payload = none
  | .checking previous => session.pending = none ∧ Known t r.conversation previous
  | .submitting previous attempt =>
    Known t r.conversation previous ∧ ∀ p, session.pending = some p → p.prompt = r.prompt ∧
      (attempt = .first → ∀ s ∈ submissions t, s.taskId ≠ p.taskId)
  | .polling previous =>
    Known t r.conversation previous ∧ ∀ p, session.pending = some p →
      p.prompt = r.prompt ∧ p.payload = none

structure Inv (w : World) (e : Entity) : Prop where
  place : ∃ former, w.entities = e :: former ∧ ∀ o ∈ former, o.request = none
  books : Books w.trace w.drawn w.delayed
  pending : ∀ c session p, e.sessions.get? c = some session → session.pending = some p →
    p.taskId ∈ w.drawn ∧ Matches w.trace c session p
  apart : ∀ c d p q, e.pending c = some p → e.pending d = some q → p.taskId = q.taskId → c = d
  logs : ∀ s ∈ submissions w.trace, s.log ≤ (w.log s.question.conversation).number
  held : ∀ s ∈ submissions w.trace, s.log = (w.log s.question.conversation).number →
    IsOpen w.trace s.taskId → Held w e s.question.conversation s.taskId
  busy : ∀ r, e.request = some r →
    ∃ session, e.sessions.get? r.conversation = some session ∧ Fits w.trace r session

theorem inv_initial (options : Options) (capabilities : Capabilities) (bridge : Bridge) :
    Inv (World.initial options capabilities bridge) Entity.fresh where
  place := ⟨[], rfl, fun o ho => by cases ho⟩
  books := by
    constructor
    · trivial
    · intro s hs
      cases hs
    · intro taskId
      exact Nat.le_refl 0
    · intro taskId hmem
      cases hmem
  pending := by
    intro c session p hsession
    cases hsession
  apart := by
    intro c d p q hp
    cases hp
  logs := fun s hs => by cases hs
  held := fun s hs => by cases hs
  busy := fun r hr => by cases hr

theorem Entity.pending_of_get? {e : Entity} {c : String} {session : Session}
    (h : e.sessions.get? c = some session) : e.pending c = session.pending := by
  unfold Entity.pending
  rw [h]
  rfl

theorem Entity.pending_eq_some {e : Entity} {c : String} {p : Pending} (h : e.pending c = some p) :
    ∃ session, e.sessions.get? c = some session ∧ session.pending = some p :=
  Option.bind_eq_some_iff.mp h

namespace Inv

variable {w v : World} {e : Entity}

theorem question_of_pending (h : Inv w e) {c : String} {p : Pending} (hp : e.pending c = some p)
    {s : Submission} (hs : s ∈ submissions w.trace) (heq : s.taskId = p.taskId) :
    s.question = ⟨c, p.prompt⟩ := by
  obtain ⟨session, hsession, hpending⟩ := Entity.pending_eq_some hp
  exact (h.pending c session p hsession hpending).2.question s hs heq

/-- The world changes where the tasks do not look. -/
theorem of_same (h : Inv w e) (hentities : v.entities = w.entities) (htrace : v.trace = w.trace)
    (hdrawn : v.drawn = w.drawn) (hdelayed : v.delayed = w.delayed)
    (hlogs : ∀ c, (v.log c).number = (w.log c).number ∧
        ((w.log c).answered = true → (v.log c).answered = true) ∨
      (w.log c).number < (v.log c).number) : Inv v e where
  place := by
    rw [hentities]
    exact h.place
  books := by
    rw [htrace, hdrawn, hdelayed]
    exact h.books
  pending := by
    rw [htrace, hdrawn]
    exact h.pending
  apart := h.apart
  logs := by
    intro s hs
    rw [htrace] at hs
    have hold := h.logs s hs
    have hlog := hlogs s.question.conversation
    omega
  held := by
    intro s hs hnumber hopen
    rw [htrace] at hs hopen
    have hold := h.logs s hs
    cases hlogs s.question.conversation with
    | inl hsame =>
      rw [hsame.1] at hnumber
      cases h.held s hs hnumber hopen with
      | inl hpending =>
        refine Or.inl ⟨hpending.1, ?_⟩
        cases hpending.2 with
        | inl hanswered => exact Or.inl (hsame.2 hanswered)
        | inr hrequest => exact Or.inr hrequest
      | inr hgone => exact Or.inr ⟨hgone.1, hsame.2 hgone.2⟩
    | inr hlater => omega
  busy := by
    rw [htrace]
    exact h.busy

/-- A step that works on one conversation, the one of the request if there is one. What it sends
or admits is the pending task of that conversation. -/
theorem moves (h : Inv w e) {e' : Entity} {c : String} (events : List Event)
    (hfree : ∀ r, e.request = some r → r.conversation = c)
    (hplace : ∃ former, v.entities = e' :: former ∧ ∀ o ∈ former, o.request = none)
    (hothers : ∀ d, d ≠ c → e'.sessions.get? d = e.sessions.get? d)
    (htrace : v.trace = events ++ w.trace) (hdrawn : ∀ x ∈ w.drawn, x ∈ v.drawn)
    (hlogs : ∀ d, (v.log d).number = (w.log d).number ∧
      ((w.log d).answered = true → (v.log d).answered = true))
    (hbooks : Books v.trace v.drawn v.delayed)
    (hown : ∀ s ∈ submissions events, s.question.conversation = c ∧ s.log = (w.log c).number)
    (hopened : ∀ event ∈ events, ∀ taskId ∈ event.opened,
      ∃ p, e.pending c = some p ∧ p.taskId = taskId)
    (hpending : ∀ session p, e'.sessions.get? c = some session → session.pending = some p →
      p.taskId ∈ v.drawn ∧ Matches v.trace c session p ∧
        (p.taskId ∉ w.drawn ∨ ∃ q, e.pending c = some q ∧ q.taskId = p.taskId))
    (hheld : ∀ s ∈ submissions v.trace, s.question.conversation = c →
      s.log = (w.log c).number → IsOpen v.trace s.taskId → Held v e' c s.taskId)
    (hbusy : ∀ r, e'.request = some r → r.conversation = c ∧
      ∃ session, e'.sessions.get? c = some session ∧ Fits v.trace r session) : Inv v e' := by
  have hsame : ∀ d, d ≠ c → e'.pending d = e.pending d := by
    intro d hd
    unfold Entity.pending
    rw [hothers d hd]
  -- what is sent is a submission of the pending task
  have hnew : ∀ s ∈ submissions events, ∃ p, e.pending c = some p ∧ p.taskId = s.taskId := by
    intro s hs
    obtain ⟨event, hevent, heq⟩ := List.mem_filterMap.mp hs
    have hevents : event = .submitted s := by
      cases event with
      | submitted other =>
        cases heq
        rfl
      | _ => cases heq
    exact hopened event hevent s.taskId (by simp [hevents, Event.opened])
  have hsplit : ∀ s ∈ submissions v.trace, s ∈ submissions events ∨ s ∈ submissions w.trace := by
    intro s hs
    rw [htrace, submissions_append] at hs
    exact List.mem_append.mp hs
  -- an identifier that is pending in the new state was not drawn, or was pending in the old one
  have horigin : ∀ d p, e'.pending d = some p →
      (d = c ∧ p.taskId ∉ w.drawn) ∨ ∃ q, e.pending d = some q ∧ q.taskId = p.taskId := by
    intro d p hp
    by_cases hd : d = c
    · rw [hd] at hp ⊢
      obtain ⟨session, hsession, hpend⟩ := Entity.pending_eq_some hp
      cases (hpending session p hsession hpend).2.2 with
      | inl hfresh => exact Or.inl ⟨rfl, hfresh⟩
      | inr hold => exact Or.inr hold
    · rw [hsame d hd] at hp
      exact Or.inr ⟨p, hp, rfl⟩
  have hwas : ∀ d q, e.pending d = some q → q.taskId ∈ w.drawn := by
    intro d q hq
    obtain ⟨session, hsession, hpend⟩ := Entity.pending_eq_some hq
    exact (h.pending d session q hsession hpend).1
  constructor
  · exact hplace
  · exact hbooks
  · intro d session p hsession hp
    by_cases hd : d = c
    · rw [hd] at hsession ⊢
      have hall := hpending session p hsession hp
      exact ⟨hall.1, hall.2.1⟩
    rw [hothers d hd] at hsession
    have hold := h.pending d session p hsession hp
    have hnone : ∀ s ∈ submissions events, s.taskId ≠ p.taskId := by
      intro s hs heq
      obtain ⟨q, hq, hqs⟩ := hnew s hs
      have hpd : e.pending d = some p := by rw [Entity.pending_of_get? hsession, hp]
      exact hd (h.apart d c p q hpd hq (by rw [hqs, heq]))
    refine ⟨hdrawn _ hold.1, ?_, ?_, ?_⟩
    · intro s hs heq
      cases hsplit s hs with
      | inl hfresh => exact absurd heq (hnone s hfresh)
      | inr hmem => exact hold.2.question s hmem heq
    · intro payload hpayload
      have hbody := hold.2.body payload hpayload
      refine ⟨hbody.1, hbody.2.1, ?_⟩
      intro s hs heq
      cases hsplit s hs with
      | inl hfresh => exact absurd heq (hnone s hfresh)
      | inr hmem => exact hbody.2.2 s hmem heq
    · intro hpayload
      obtain ⟨s, hs, heq⟩ := hold.2.accepted hpayload
      rw [htrace, submissions_append]
      exact ⟨s, List.mem_append_right _ hs, heq⟩
  · intro d d' p q hp hq heq
    cases horigin d p hp with
    | inl hfresh =>
      cases horigin d' q hq with
      | inl hother => rw [hfresh.1, hother.1]
      | inr hold =>
        obtain ⟨q', hq', hqq⟩ := hold
        have hmem := hwas d' q' hq'
        rw [hqq, ← heq] at hmem
        exact absurd hmem hfresh.2
    | inr hold =>
      obtain ⟨p', hp', hpp⟩ := hold
      cases horigin d' q hq with
      | inl hfresh =>
        have hmem := hwas d p' hp'
        rw [hpp, heq] at hmem
        exact absurd hmem hfresh.2
      | inr hother =>
        obtain ⟨q', hq', hqq⟩ := hother
        exact h.apart d d' p' q' hp' hq' (by rw [hpp, hqq, heq])
  · intro s hs
    rw [(hlogs s.question.conversation).1]
    cases hsplit s hs with
    | inl hfresh =>
      obtain ⟨hc, hlog⟩ := hown s hfresh
      rw [hc, hlog]
    | inr hold => exact h.logs s hold
  · intro s hs hnumber hopen
    rw [(hlogs s.question.conversation).1] at hnumber
    by_cases hc : s.question.conversation = c
    · rw [hc] at hnumber ⊢
      exact hheld s hs hc hnumber hopen
    have hold : s ∈ submissions w.trace := by
      cases hsplit s hs with
      | inl hfresh => exact absurd (hown s hfresh).1 hc
      | inr hold => exact hold
    have hopenOld : IsOpen w.trace s.taskId := by
      rw [htrace] at hopen
      cases isOpen_append hopen with
      | inl hopenOld => exact hopenOld
      | inr hex =>
        obtain ⟨event, hevent, htask⟩ := hex
        obtain ⟨p, hp, hps⟩ := hopened event hevent s.taskId htask
        have hq := h.question_of_pending hp hold hps.symm
        rw [hq] at hc
        exact absurd rfl hc
    have hanswered := (hlogs s.question.conversation).2
    cases h.held s hold hnumber hopenOld with
    | inl hpend =>
      left
      rw [hsame _ hc]
      refine ⟨hpend.1, Or.inl ?_⟩
      cases hpend.2 with
      | inl hold => exact hanswered hold
      | inr hex =>
        obtain ⟨r, hr, hrc⟩ := hex
        exact absurd (hrc.symm.trans (hfree r hr)) hc
    | inr hgone =>
      right
      rw [hothers _ hc]
      exact ⟨hgone.1, hanswered hgone.2⟩
  · intro r hr
    obtain ⟨hc, hex⟩ := hbusy r hr
    rw [hc]
    exact hex

theorem of_active (h : Inv w e) {k : Nat} {o : Entity} {r : Request} {session : Session}
    (ha : w.active k = some (o, r, session)) :
    k = 0 ∧ o = e ∧ e.request = some r ∧ e.sessions.get? r.conversation = some session := by
  obtain ⟨former, hentities, hidle⟩ := h.place
  unfold World.active at ha
  split at ha
  · cases ha
  rename_i found hfound
  split at ha
  · cases ha
  rename_i request hrequest
  obtain ⟨taken, htaken, heq⟩ := Option.map_eq_some_iff.mp ha
  cases heq
  rw [hentities] at hfound
  cases k with
  | zero =>
    cases hfound
    exact ⟨rfl, rfl, hrequest, htaken⟩
  | succ k =>
    have hnone := hidle o (List.mem_of_getElem? hfound)
    rw [hnone] at hrequest
    cases hrequest

theorem fits (h : Inv w e) {r : Request} {session : Session} (hr : e.request = some r)
    (hsession : e.sessions.get? r.conversation = some session) : Fits w.trace r session := by
  obtain ⟨other, hother, hfits⟩ := h.busy r hr
  rw [hsession] at hother
  cases hother
  exact hfits

section

variable {r : Request} {session : Session} {u : World} (events : List Event)

theorem own_of_open (h : Inv w e)
    (hsession : e.sessions.get? r.conversation = some session)
    (htrace : u.trace = events ++ w.trace)
    (hopened : ∀ event ∈ events, ∀ taskId ∈ event.opened,
      ∃ p, session.pending = some p ∧ p.taskId = taskId) :
    ∀ s ∈ submissions u.trace, s.question.conversation = r.conversation →
      s.log = (w.log r.conversation).number → IsOpen u.trace s.taskId →
        ∃ p, session.pending = some p ∧ p.taskId = s.taskId := by
  intro s hs hc hlog hopen
  have hpend := Entity.pending_of_get? hsession
  rw [htrace] at hopen
  cases isOpen_append hopen with
  | inr hex =>
    obtain ⟨event, hevent, htask⟩ := hex
    exact hopened event hevent s.taskId htask
  | inl hopenOld =>
    rw [htrace, submissions_append] at hs
    cases List.mem_append.mp hs with
    | inl hfresh =>
      obtain ⟨event, hevent, heq⟩ := List.mem_filterMap.mp hfresh
      cases event with
      | submitted other =>
        cases heq
        exact hopened _ hevent s.taskId (by simp [Event.opened])
      | _ => cases heq
    | inr hold =>
      have hheld := h.held s hold (by rw [hc]; exact hlog) hopenOld
      rw [hc] at hheld
      cases hheld with
      | inl hkept =>
        rw [hpend] at hkept
        exact Option.map_eq_some_iff.mp hkept.1
      | inr hgone =>
        rw [hsession] at hgone
        cases hgone.1

variable (h : Inv w e) (hr : e.request = some r)
  (hsession : e.sessions.get? r.conversation = some session)
  (hentities : u.entities = w.entities) (hlogs : u.logs = w.logs)
  (htrace : u.trace = events ++ w.trace) (hdrawn : ∀ x ∈ w.drawn, x ∈ u.drawn)
  (hbooks : Books u.trace u.drawn u.delayed)
  (hown : ∀ s ∈ submissions events, s.question.conversation = r.conversation ∧
    s.log = (w.log r.conversation).number)
  (hopened : ∀ event ∈ events, ∀ taskId ∈ event.opened,
    ∃ p, session.pending = some p ∧ p.taskId = taskId)

include h hr hsession hentities hlogs htrace hdrawn hbooks hown hopened

theorem goesOn {later : Session} {phase : Phase}
    (hpending : ∀ p, later.pending = some p → p.taskId ∈ u.drawn ∧
      Matches u.trace r.conversation later p ∧
        (p.taskId ∉ w.drawn ∨ ∃ q, session.pending = some q ∧ q.taskId = p.taskId))
    (hkeeps : ∀ q, session.pending = some q → IsOpen u.trace q.taskId →
      ∃ p, later.pending = some p ∧ p.taskId = q.taskId)
    (hfits : Fits u.trace { r with phase := phase } later) :
    ∃ e', Inv (u.goesOn 0 e r later phase) e' := by
  obtain ⟨former, hplace, hidle⟩ := h.place
  have hpend := Entity.pending_of_get? hsession
  refine ⟨⟨e.sessions.set r.conversation later, some { r with phase := phase }⟩, ?_⟩
  apply h.moves (c := r.conversation) events
  · intro other hother
    rw [hr] at hother
    cases hother
    rfl
  · refine ⟨former, ?_, hidle⟩
    simp [World.goesOn, World.withEntity, hentities, hplace]
  · intro d hd
    exact Dict.get?_set_of_ne _ _ hd
  · exact htrace
  · exact hdrawn
  · intro d
    simp [World.goesOn, World.withEntity, World.log, hlogs]
  · exact hbooks
  · exact hown
  · rw [hpend]
    exact hopened
  · intro s p hs hp
    rw [Dict.get?_set_self] at hs
    cases hs
    rw [hpend]
    exact hpending p hp
  · intro s hs hc hlog hopen
    obtain ⟨q, hq, hqs⟩ := h.own_of_open events hsession htrace hopened s hs hc hlog hopen
    obtain ⟨p, hp, hpq⟩ := hkeeps q hq (by rw [hqs]; exact hopen)
    refine Or.inl ⟨?_, Or.inr ⟨_, rfl, rfl⟩⟩
    rw [Entity.pending_of_get? (Dict.get?_set_self _ _ _), hp, Option.map_some, hpq, hqs]
  · intro other hother
    cases hother
    exact ⟨rfl, later, Dict.get?_set_self _ _ _, hfits⟩

theorem ends {kept : Option Session}
    (hpending : ∀ later p, kept = some later → later.pending = some p → p.taskId ∈ u.drawn ∧
      Matches u.trace r.conversation later p ∧
        (p.taskId ∉ w.drawn ∨ ∃ q, session.pending = some q ∧ q.taskId = p.taskId))
    (hkeeps : ∀ later q, kept = some later → session.pending = some q →
      IsOpen u.trace q.taskId → ∃ p, later.pending = some p ∧ p.taskId = q.taskId) :
    ∃ e', Inv (u.ends 0 e r kept) e' := by
  obtain ⟨former, hplace, hidle⟩ := h.place
  have hpend := Entity.pending_of_get? hsession
  have hanswered : ((u.ends 0 e r kept).log r.conversation).answered = true := by
    simp [World.ends, World.markAnswered, World.log, Dict.get?_set_self]
  refine ⟨⟨kept.elim (e.sessions.erase r.conversation) (e.sessions.set r.conversation), none⟩, ?_⟩
  apply h.moves (c := r.conversation) events
  · intro other hother
    rw [hr] at hother
    cases hother
    rfl
  · refine ⟨former, ?_, hidle⟩
    simp only [World.ends, World.markAnswered, World.withEntity, hentities, hplace,
      List.set_cons_zero]
    cases kept with
    | none => rfl
    | some later => rfl
  · intro d hd
    cases kept with
    | none => exact (Dict.get?_erase _ _ _).trans (if_neg hd)
    | some later => exact Dict.get?_set_of_ne _ _ hd
  · exact htrace
  · exact hdrawn
  · intro d
    by_cases hd : d = r.conversation
    · rw [hd]
      refine ⟨?_, fun _ => hanswered⟩
      simp [World.ends, World.markAnswered, World.log, World.withEntity, Dict.get?_set_self, hlogs]
    · simp [World.ends, World.markAnswered, World.log, World.withEntity,
        Dict.get?_set_of_ne _ _ hd, hlogs]
  · exact hbooks
  · exact hown
  · rw [hpend]
    exact hopened
  · intro s p hs hp
    cases kept with
    | none =>
      have hnone := (Dict.get?_erase e.sessions r.conversation r.conversation).trans (if_pos rfl)
      cases hnone.symm.trans hs
    | some later =>
      cases (Dict.get?_set_self e.sessions r.conversation later).symm.trans hs
      rw [hpend]
      exact hpending s p rfl hp
  · intro s hs hc hlog hopen
    cases kept with
    | none =>
      refine Or.inr ⟨?_, hanswered⟩
      exact (Dict.get?_erase _ _ _).trans (if_pos rfl)
    | some later =>
      obtain ⟨q, hq, hqs⟩ := h.own_of_open events hsession htrace hopened s hs hc hlog hopen
      obtain ⟨p, hp, hpq⟩ := hkeeps later q rfl hq (by rw [hqs]; exact hopen)
      refine Or.inl ⟨?_, Or.inl hanswered⟩
      rw [Entity.pending_of_get? (Dict.get?_set_self _ _ _), hp, Option.map_some, hpq, hqs]
  · intro other hother
    cases hother

end

theorem Fits_append {t : List Event} (events : List Event) {r : Request} {session : Session}
    (h : Fits t r session) (hsub : submissions (events ++ t) = submissions t) :
    Fits (events ++ t) r session := by
  have hknown : ∀ previous, Known t r.conversation previous →
      Known (events ++ t) r.conversation previous := fun _ hk => hk.append events
  unfold Fits at h ⊢
  cases hphase : r.phase with
  | resubmitting => trivial
  | readingPrevious =>
    rw [hphase] at h
    exact h
  | checking previous =>
    rw [hphase] at h
    exact ⟨h.1, hknown previous h.2⟩
  | submitting previous attempt =>
    rw [hphase] at h
    refine ⟨hknown previous h.1, ?_⟩
    rw [hsub]
    exact h.2
  | polling previous =>
    rw [hphase] at h
    exact ⟨hknown previous h.1, h.2⟩

theorem spoke (h : Inv w e) {question : Question} {answer : String}
    (hlawful : Lawful w.trace (.spoke question answer)) :
    Inv (w.withEvents [.spoke question answer]) e where
  place := h.place
  books := h.books.speak hlawful
  pending := by
    intro c session p hsession hp
    obtain ⟨hdrawn, hmatches⟩ := h.pending c session p hsession hp
    exact ⟨hdrawn, hmatches.question, hmatches.body, hmatches.accepted⟩
  apart := h.apart
  logs := h.logs
  held := by
    intro s hs hnumber hopen
    cases isOpen_cons hopen with
    | inl hold => exact h.held s hs hnumber hold
    | inr hopened => cases hopened
  busy := by
    intro r hr
    obtain ⟨session, hsession, hfits⟩ := h.busy r hr
    exact ⟨session, hsession, Fits_append [_] hfits rfl⟩

theorem spokeOption (h : Inv w e) {question : Question} {answer : Option String}
    (hlawful : ∀ text, answer = some text → Lawful w.trace (.spoke question text)) :
    Inv (w.withEvents (answer.toList.map (.spoke question))) e := by
  cases answer with
  | none => exact h
  | some text => exact h.spoke (hlawful text rfl)

theorem speaksPrevious (h : Inv w e) {r : Request} {previous : Option Previous}
    (hknown : Known w.trace r.conversation previous) :
    Inv (w.withEvents (World.speaksPrevious r previous)) e := by
  unfold World.speaksPrevious
  split
  · rename_i prompt answer
    apply h.spoke
    obtain ⟨s, hs, hquestion, hgave⟩ := hknown prompt answer rfl
    exact ⟨s, hs, hquestion, answer, mem_given.mpr hgave, Or.inr rfl⟩
  · exact h

end Inv

theorem submissions_reads (taskId : String) (status : TaskStatus) (answer : Option String) :
    submissions (World.reads taskId status answer) = [] := by
  unfold World.reads
  cases answer <;> cases status.isTerminal <;> rfl

theorem opened_reads {taskId : String} {status : TaskStatus} {answer : Option String} :
    ∀ event ∈ World.reads taskId status answer, event.opened = [] := by
  intro event hevent
  unfold World.reads at hevent
  cases List.mem_append.mp hevent with
  | inl hgave =>
    obtain ⟨text, -, heq⟩ := List.mem_map.mp hgave
    rw [← heq]
    rfl
  | inr hsettled =>
    split at hsettled
    · cases List.mem_singleton.mp hsettled
      rfl
    · cases hsettled

theorem settled_mem_reads {taskId : String} {status : TaskStatus} {answer : Option String}
    (h : status.isTerminal = true) : .settled taskId ∈ World.reads taskId status answer := by
  unfold World.reads
  rw [if_pos h]
  exact List.mem_append_right _ (List.mem_singleton_self _)

theorem gave_mem_reads {taskId text : String} {status : TaskStatus} :
    .gave taskId text ∈ World.reads taskId status (some text) :=
  List.mem_append_left _ (List.mem_singleton_self _)

theorem Books.reads {t : List Event} {drawn : List String} {delayed : List Payload}
    (h : Books t drawn delayed) (taskId : String) (status : TaskStatus) (answer : Option String) :
    Books (World.reads taskId status answer ++ t) drawn delayed := by
  have hsettled : Books ((if status.isTerminal then [.settled taskId] else []) ++ t) drawn
      delayed := by
    split
    · exact h.settle taskId
    · exact h
  unfold World.reads
  rw [List.append_assoc]
  cases answer with
  | none => exact hsettled
  | some text => exact hsettled.give taskId text

theorem Matches.append {t events : List Event} {c : String} {session : Session} {p : Pending}
    (h : Matches t c session p) (hnone : submissions events = []) :
    Matches (events ++ t) c session p := by
  have hsub : submissions (events ++ t) = submissions t := by
    rw [submissions_append, hnone, List.nil_append]
  constructor
  · rw [hsub]
    exact h.question
  · rw [hsub]
    exact h.body
  · rw [hsub]
    exact h.accepted

namespace Inv

variable {w v : World} {e : Entity} {r : Request} {session : Session}

section

variable (h : Inv w e) (hr : e.request = some r)
  (hsession : e.sessions.get? r.conversation = some session)

include h hr hsession

theorem endsSame (events : List Event)
    (hbooks : Books (events ++ w.trace) w.drawn w.delayed) (hnone : submissions events = [])
    (hquiet : ∀ event ∈ events, event.opened = []) :
    ∃ e', Inv ((w.withEvents events).ends 0 e r (some session)) e' := by
  refine h.ends (u := w.withEvents events) events hr hsession rfl rfl rfl (fun x hx => hx) hbooks ?_
    ?_ ?_ ?_
  · intro s hs
    rw [hnone] at hs
    cases hs
  · intro event hevent taskId htask
    rw [hquiet event hevent] at htask
    cases htask
  · intro later p hlater hp
    cases hlater
    obtain ⟨hdrawn, hmatches⟩ := h.pending _ session p hsession hp
    exact ⟨hdrawn, hmatches.append hnone, Or.inr ⟨p, hp, rfl⟩⟩
  · intro later q hlater hq hopen
    cases hlater
    exact ⟨q, hq, rfl⟩

theorem goesOnSame (events : List Event)
    (hbooks : Books (events ++ w.trace) w.drawn w.delayed) (hnone : submissions events = [])
    (hquiet : ∀ event ∈ events, event.opened = []) {phase : Phase}
    (hfits : Fits (events ++ w.trace) { r with phase := phase } session) :
    ∃ e', Inv ((w.withEvents events).goesOn 0 e r session phase) e' := by
  refine h.goesOn (u := w.withEvents events) events hr hsession rfl rfl rfl (fun x hx => hx) hbooks
    ?_ ?_
    ?_ ?_ hfits
  · intro s hs
    rw [hnone] at hs
    cases hs
  · intro event hevent taskId htask
    rw [hquiet event hevent] at htask
    cases htask
  · intro p hp
    obtain ⟨hdrawn, hmatches⟩ := h.pending _ session p hsession hp
    exact ⟨hdrawn, hmatches.append hnone, Or.inr ⟨p, hp, rfl⟩⟩
  · intro q hq hopen
    exact ⟨q, hq, rfl⟩

theorem goesOnCleared (events : List Event)
    (hbooks : Books (events ++ w.trace) w.drawn w.delayed) (hnone : submissions events = [])
    (hquiet : ∀ event ∈ events, event.opened = [])
    (hclosed : ∀ q, session.pending = some q → ¬ IsOpen (events ++ w.trace) q.taskId)
    {phase : Phase}
    (hfits : Fits (events ++ w.trace) { r with phase := phase } { session with pending := none }) :
    ∃ e', Inv ((w.withEvents events).goesOn 0 e r { session with pending := none } phase) e' := by
  refine h.goesOn (u := w.withEvents events) events hr hsession rfl rfl rfl (fun x hx => hx) hbooks
    ?_ ?_ ?_ ?_
    hfits
  · intro s hs
    rw [hnone] at hs
    cases hs
  · intro event hevent taskId htask
    rw [hquiet event hevent] at htask
    cases htask
  · intro p hp
    cases hp
  · intro q hq hopen
    exact absurd hopen (hclosed q hq)

theorem endsCleared (events : List Event)
    (hbooks : Books (events ++ w.trace) w.drawn w.delayed) (hnone : submissions events = [])
    (hquiet : ∀ event ∈ events, event.opened = []) (kept : Option Session)
    (hkept : ∀ later, kept = some later → later.pending = none ∧
      ∀ q, session.pending = some q → ¬ IsOpen (events ++ w.trace) q.taskId) :
    ∃ e', Inv ((w.withEvents events).ends 0 e r kept) e' := by
  refine h.ends (u := w.withEvents events) events hr hsession rfl rfl rfl (fun x hx => hx) hbooks ?_
    ?_ ?_ ?_
  · intro s hs
    rw [hnone] at hs
    cases hs
  · intro event hevent taskId htask
    rw [hquiet event hevent] at htask
    cases htask
  · intro later p hlater hp
    rw [(hkept later hlater).1] at hp
    cases hp
  · intro later q hlater hq hopen
    exact absurd hopen ((hkept later hlater).2 q hq)

end

end Inv

end CodexBridge.Assist
