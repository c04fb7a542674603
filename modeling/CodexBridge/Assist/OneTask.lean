import CodexBridge.Assist.Pending

/-! # One task for a question

Every step of the agent, the Bridge and Home Assistant keeps the tasks where they are looked for.
-/

namespace CodexBridge.Assist

namespace Inv

variable {w v : World} {e : Entity} {r : Request} {session : Session} {p : Pending}

/-! ## Reading an answer -/

theorem closed_of_reads (t : List Event) {status : TaskStatus} (answer : Option String)
    (hp : session.pending = some p) (hterminal : status.isTerminal = true) :
    ∀ q, session.pending = some q →
      ¬ IsOpen (World.reads p.taskId status answer ++ t) q.taskId := by
  intro q hq
  rw [hp] at hq
  cases hq
  exact not_isOpen_settled (List.mem_append_left _ (settled_mem_reads hterminal))

theorem known_of_reads {t : List Event} {c : String} (hmatches : Matches t c session p)
    (hpayload : p.payload = none) (status : TaskStatus) (answer : Option String) :
    Known (World.reads p.taskId status answer ++ t) c (some ⟨p.prompt, answer⟩) := by
  intro prompt text hprevious
  cases hprevious
  obtain ⟨s, hs, heq⟩ := hmatches.accepted hpayload
  refine ⟨s, ?_, hmatches.question s hs heq, ?_⟩
  · rw [submissions_append]
    exact List.mem_append_right _ hs
  · rw [heq]
    exact List.mem_append_left _ gave_mem_reads

section

variable (h : Inv w e)

include h

theorem readPrevious (hr : e.request = some r)
    (hsession : e.sessions.get? r.conversation = some session) (hp : session.pending = some p)
    (hpayload : p.payload = none) (status : TaskStatus) (answer : Option String) :
    ∃ e', Inv (w.readPrevious 0 e r session p status answer) e' := by
  have hmatches := (h.pending _ session p hsession hp).2
  have hbooks := h.books.reads p.taskId status answer
  have hnone := submissions_reads p.taskId status answer
  have hquiet : ∀ event ∈ World.reads p.taskId status answer, event.opened = [] := opened_reads
  have hknown := known_of_reads hmatches hpayload status answer
  unfold World.readPrevious
  dsimp only
  split
  · exact h.endsSame hr hsession _ hbooks hnone hquiet
  rename_i hnot
  have hterminal : status.isTerminal = true := by simpa using hnot
  have hclosed := closed_of_reads w.trace answer hp hterminal
  split
  · obtain ⟨e', he⟩ := h.endsCleared hr hsession _ hbooks hnone hquiet
      (some { session with pending := none }) (by
        intro later hlater
        cases hlater
        exact ⟨rfl, hclosed⟩)
    refine ⟨e', he.spokeOption ?_⟩
    intro text htext
    rw [htext] at hknown ⊢
    exact hknown.lawful
  · exact h.goesOnCleared hr hsession _ hbooks hnone hquiet hclosed ⟨rfl, hknown⟩

theorem poll (hr : e.request = some r)
    (hsession : e.sessions.get? r.conversation = some session) (hp : session.pending = some p)
    (hpayload : p.payload = none) (hprompt : p.prompt = r.prompt) {previous : Option Previous}
    (hprevious : Known w.trace r.conversation previous) (status : TaskStatus)
    (answer : Option String) :
    ∃ e', Inv (w.poll 0 e r session p previous status answer) e' := by
  have hmatches := (h.pending _ session p hsession hp).2
  have hbooks := h.books.reads p.taskId status answer
  have hnone := submissions_reads p.taskId status answer
  have hquiet : ∀ event ∈ World.reads p.taskId status answer, event.opened = [] := opened_reads
  have hknown := known_of_reads hmatches hpayload status answer
  have hearlier := hprevious.append (World.reads p.taskId status answer)
  unfold World.poll
  dsimp only
  split
  · rename_i hcompleted
    have hclosed := closed_of_reads w.trace answer hp
      (by rw [hcompleted]; rfl : status.isTerminal = true)
    obtain ⟨e', he⟩ := h.endsCleared hr hsession _ hbooks hnone hquiet
      (some { session with pending := none }) (by
        intro later hlater
        cases hlater
        exact ⟨rfl, hclosed⟩)
    refine ⟨e', (he.speaksPrevious hearlier).spokeOption ?_⟩
    intro text htext
    rw [htext, hprompt] at hknown
    rw [htext]
    exact (hknown.append _).lawful
  · split
    · obtain ⟨e', he⟩ := h.endsCleared hr hsession _ hbooks hnone hquiet none
        (fun later hlater => by cases hlater)
      exact ⟨e', he.speaksPrevious hearlier⟩
    apply h.goesOnSame hr hsession _ hbooks hnone hquiet
    refine ⟨hearlier, ?_⟩
    intro q hq
    rw [hp] at hq
    cases hq
    exact ⟨hprompt, hpayload⟩

theorem read {k : Nat} {reading : Reading} (hs : w.read k reading = some v) :
    ∃ e', Inv v e' := by
  unfold World.read at hs
  cases hactive : w.active k with
  | none =>
    rw [hactive] at hs
    cases hs
  | some found =>
    obtain ⟨o, r, session⟩ := found
    obtain ⟨hk, ho, hr, hsession⟩ := h.of_active hactive
    rw [hactive, hk, ho] at hs
    have hfits := h.fits hr hsession
    cases hp : session.pending with
    | none =>
      dsimp only at hs
      rw [hp] at hs
      cases hs
    | some p =>
      dsimp only at hs
      rw [hp] at hs
      dsimp only at hs
      have hsame := h.endsSame hr hsession [] h.books rfl fun _ hmem => by cases hmem
      split at hs
      · rw [← Option.some.inj hs]
        exact hsame
      · rw [← Option.some.inj hs]
        exact hsame
      · rename_i hphase hanswer
        rw [← Option.some.inj hs]
        unfold Fits at hfits
        rw [hphase] at hfits
        exact h.readPrevious hr hsession hp (hfits p hp) _ _
      · rename_i previous outcome hphase hanswer
        rw [← Option.some.inj hs]
        unfold Fits at hfits
        rw [hphase] at hfits
        obtain ⟨hprompt, hpayload⟩ := hfits.2 p hp
        exact h.poll hr hsession hp hpayload hprompt hfits.1 _ _
      · cases hs

theorem expire {k : Nat} (hs : w.expire k = some v) : ∃ e', Inv v e' := by
  unfold World.expire at hs
  cases hactive : w.active k with
  | none =>
    rw [hactive] at hs
    cases hs
  | some found =>
    obtain ⟨o, r, session⟩ := found
    obtain ⟨hk, ho, hr, hsession⟩ := h.of_active hactive
    rw [hactive, hk, ho] at hs
    have hfits := h.fits hr hsession
    dsimp only at hs
    split at hs
    · rename_i previous hphase
      rw [← Option.some.inj hs]
      unfold Fits at hfits
      rw [hphase] at hfits
      obtain ⟨e', he⟩ := h.endsSame hr hsession [] h.books rfl
        fun _ hmem => by cases hmem
      exact ⟨e', he.speaksPrevious hfits.1⟩
    · cases hs

theorem newTask (hr : e.request = some r)
    (hsession : e.sessions.get? r.conversation = some session) (hp : session.pending = none)
    {previous : Option Previous} (hprevious : Known w.trace r.conversation previous)
    {uuid : String} (hfresh : uuid ∉ w.drawn) :
    ∃ e', Inv (w.newTask 0 e r session previous uuid) e' := by
  have hunsent : ∀ s ∈ submissions w.trace, s.taskId ≠ uuid := by
    intro s hs heq
    have hmem := h.books.drawn s hs
    rw [heq] at hmem
    exact hfresh hmem
  unfold World.newTask
  dsimp only
  refine h.goesOn (u := { w with drawn := uuid :: w.drawn }) [] hr hsession rfl rfl rfl
    (fun x hx => List.mem_cons_of_mem uuid hx) (h.books.draw uuid) ?_ ?_ ?_ ?_ ?_
  · intro s hs
    cases hs
  · intro event hevent
    cases hevent
  · intro p hpending
    cases hpending
    refine ⟨List.mem_cons_self, ⟨?_, ?_, ?_⟩, Or.inl hfresh⟩
    · intro s hs heq
      exact absurd heq (hunsent s hs)
    · intro payload hpayload
      cases hpayload
      refine ⟨rfl, ?_, fun s hs heq => absurd heq (hunsent s hs)⟩
      unfold newPayload isTargetOf
      cases session.threadId with
      | none => rfl
      | some threadId => rfl
    · intro hpayload
      cases hpayload
  · intro q hq
    rw [hp] at hq
    cases hq
  · refine ⟨hprevious, ?_⟩
    intro p hpending
    cases hpending
    exact ⟨rfl, fun _ => hunsent⟩

theorem check {k : Nat} {found : Option Catalogue} {uuid : String}
    (hs : w.check k found uuid = some v) : ∃ e', Inv v e' := by
  unfold World.check at hs
  cases hactive : w.active k with
  | none =>
    rw [hactive] at hs
    cases hs
  | some handling =>
    obtain ⟨o, r, session⟩ := handling
    obtain ⟨hk, ho, hr, hsession⟩ := h.of_active hactive
    rw [hactive, hk, ho] at hs
    have hfits := h.fits hr hsession
    dsimp only at hs
    split at hs
    · rename_i previous hphase
      unfold Fits at hfits
      rw [hphase] at hfits
      split at hs
      · rcases Option.ite_none_left_eq_some.mp hs with ⟨hguard, hs⟩
        rw [← Option.some.inj hs]
        have hfresh : uuid ∉ w.drawn := by
          intro hmem
          apply hguard
          simp [hmem]
        exact h.newTask hr hsession hfits.1 hfits.2 hfresh
      · rw [← Option.some.inj hs]
        obtain ⟨e', he⟩ := h.endsCleared hr hsession [] h.books rfl
          (fun _ hmem => by cases hmem)
          (if session.threadId.isNone then none else some session) (by
            intro later hlater
            split at hlater
            · cases hlater
            cases hlater
            refine ⟨hfits.1, ?_⟩
            intro q hq
            rw [hfits.1] at hq
            cases hq)
        exact ⟨e', he.speaksPrevious hfits.2⟩
    · cases hs

end

end Inv

/-! ## Sending a task -/

variable {trouble : Trouble}

theorem Bridge.accepted_ok {run : TaskRun} {threadId : String}
    (h : Bridge.accepted run trouble = .ok threadId) : run.threadId = threadId := by
  cases trouble with
  | event p => cases h
  | _ =>
    cases h
    rfl

variable {payload : Payload}

theorem Bridge.submit_ok {b : Bridge} {threadId taken : String}
    (h : (b.submit payload threadId trouble).2 = .ok taken) :
    taken = threadId := by
  unfold Bridge.submit at h
  split at h
  · cases h
  · exact (Bridge.accepted_ok h).symm

/-- A follow-up is accepted for the chat it names. -/
theorem Bridge.continueTask_ok {b : Bridge} {threadId taken : String}
    (h : (b.continueTask payload threadId trouble).2 = .ok taken) :
    taken = threadId := by
  unfold Bridge.continueTask at h
  split at h
  · cases h
  split at h
  · cases h
  split at h
  · cases h
  split at h
  · cases h
  split at h
  · cases h
  split at h
  · unfold Bridge.replayContinue at h
    split at h
    · cases h
    split at h
    · cases h
    rename_i hsame
    rw [← Bridge.accepted_ok h]
    exact not_not.mp hsame
  · split at h
    · cases h
    split at h
    · cases h
    · exact Bridge.submit_ok h

structure Sends (w u : World) (s : Submission) (events : List Event) : Prop where
  entities : u.entities = w.entities
  logs : u.logs = w.logs
  drawn : u.drawn = w.drawn
  trace : u.trace = events ++ w.trace
  subs : ∀ x ∈ submissions events, x = s
  opened : ∀ event ∈ events, ∀ taskId ∈ event.opened, taskId = s.taskId
  books : Books u.trace u.drawn u.delayed

theorem admission_subs (w : World) (payload : Payload) (trouble : Trouble) :
    submissions (w.admission payload trouble) = [] := by
  unfold World.admission
  split <;> rfl

theorem admission_opened {w : World} :
    ∀ event ∈ w.admission payload trouble, ∀ taskId ∈ event.opened, taskId = payload.taskId := by
  intro event hevent taskId htask
  unfold World.admission at hevent
  split at hevent
  · cases List.mem_singleton.mp hevent
    exact List.mem_singleton.mp htask
  · cases hevent

theorem Books.admission {t : List Event} {drawn : List String} {delayed : List Payload}
    (h : Books t drawn delayed) (w : World) (trouble : Trouble)
    (hsent : 0 < sent t payload.taskId) :
    Books (w.admission payload trouble ++ t) drawn delayed := by
  unfold World.admission
  split
  · exact h.admitted_cons hsent
  · exact h

section

variable {w u : World} {s : Submission} {delivery : Delivery} {reply : Reply}

theorem count_lt_submitted (h : Books w.trace w.drawn w.delayed) (s : Submission) :
    (Event.submitted s :: w.trace).count (.refused s.taskId) +
      (w.delayed.filter fun p => p.taskId = s.taskId).length <
        sent (.submitted s :: w.trace) s.taskId := by
  have hcount := h.counted s.taskId
  rw [List.count_cons_of_ne Event.noConfusion, Books.sent_submitted, if_pos rfl]
  omega

theorem count_lt_admission {t : List Event} {taskId : String} {n : Nat}
    (h : t.count (.refused taskId) + n < sent t taskId) (w : World) (payload : Payload)
    (trouble : Trouble) :
    (w.admission payload trouble ++ t).count (.refused taskId) + n <
      sent (w.admission payload trouble ++ t) taskId := by
  have hcount : (w.admission payload trouble).count (.refused taskId) = 0 := by
    rw [List.count_eq_zero]
    intro hmem
    unfold World.admission at hmem
    split at hmem
    · cases List.mem_singleton.mp hmem
    · cases hmem
  rw [List.count_append, hcount, sent_append]
  omega

theorem sends_served (h : Books w.trace w.drawn w.delayed) (hlawful : Lawful w.trace (.submitted s))
    (hdrawn : s.taskId ∈ w.drawn) (trouble : Trouble) :
    Sends w ((w.withEvents [.submitted s]).serve s.payload trouble) s
      ((w.withEvents [.submitted s]).admission s.payload trouble ++ [.submitted s]) where
  entities := rfl
  logs := rfl
  drawn := rfl
  trace := (List.append_assoc _ _ _).symm
  subs := by
    intro x hx
    rw [submissions_append, admission_subs, List.nil_append] at hx
    exact List.mem_singleton.mp hx
  opened := by
    intro event hevent taskId htask
    cases List.mem_append.mp hevent with
    | inl hadmission => exact admission_opened event hadmission taskId htask
    | inr hsubmitted =>
      cases List.mem_singleton.mp hsubmitted
      exact List.mem_singleton.mp htask
  books := by
    have hsubmitted := h.submit hlawful hdrawn
    have hpos : 0 < sent (.submitted s :: w.trace) s.payload.taskId := by
      have hlt := count_lt_submitted h s
      exact Nat.lt_of_le_of_lt (Nat.zero_le _) hlt
    exact hsubmitted.admission _ trouble hpos

theorem sent_eq_zero {t : List Event} {taskId : String}
    (h : ∀ x ∈ submissions t, x.taskId ≠ taskId) : sent t taskId = 0 := by
  unfold sent
  rw [List.length_eq_zero_iff, List.filter_eq_nil_iff]
  intro x hx
  simpa using h x hx

section

variable (h : Books w.trace w.drawn w.delayed)

include h

theorem not_isOpen_unsent {taskId : String}
    (hnone : ∀ x ∈ submissions w.trace, x.taskId ≠ taskId) : ¬ IsOpen w.trace taskId := by
  intro hopen
  have hzero := sent_eq_zero hnone
  cases hopen.1 with
  | inl hadmitted =>
    have hpos := h.admitted taskId hadmitted
    omega
  | inr hcount => omega

theorem not_isOpen_refused (hnone : ∀ x ∈ submissions w.trace, x.taskId ≠ s.taskId) :
    ¬ IsOpen (.refused s.taskId :: .submitted s :: w.trace) s.taskId := by
  intro hopen
  have hzero := sent_eq_zero hnone
  cases hopen.1 with
  | inl hadmitted =>
    have hold : .admitted s.taskId ∈ w.trace := by simpa using hadmitted
    have hpos := h.admitted s.taskId hold
    omega
  | inr hcount =>
    have hsent : sent (.refused s.taskId :: .submitted s :: w.trace) s.taskId =
        sent w.trace s.taskId + 1 := by
      rw [show sent (.refused s.taskId :: .submitted s :: w.trace) s.taskId =
        sent (.submitted s :: w.trace) s.taskId from rfl, Books.sent_submitted, if_pos rfl]
    rw [hsent, List.count_cons_self] at hcount
    omega

theorem transmit_spec (hlawful : Lawful w.trace (.submitted s)) (hdrawn : s.taskId ∈ w.drawn)
    (ht : w.transmit s delivery = some (u, reply)) :
    ∃ events, Sends w u s events ∧
      (∀ t, reply = .accepted t → s ∈ submissions u.trace ∧
        ∀ x, s.payload.target = .thread x → t = x) ∧
      ∀ p, reply = .failed p → p.retryable = false → w.isRefusal s.payload delivery = true ∧
        (w.leavesRun s.payload delivery = false →
          (∀ x ∈ submissions w.trace, x.taskId ≠ s.taskId) → ¬ IsOpen u.trace s.taskId) := by
  cases delivery with
  | unsent =>
    dsimp only [World.transmit] at ht
    split at ht
    · cases ht
    cases ht
    refine ⟨[], ⟨rfl, rfl, rfl, rfl, ?_, ?_, h⟩, ?_, ?_⟩
    · intro x hx
      cases hx
    · intro event hevent
      cases hevent
    · intro t haccepted
      cases haccepted
    · intro p hfailed hfinal
      exact ⟨rfl, fun _ hnone => not_isOpen_unsent h hnone⟩
  | delayed =>
    dsimp only [World.transmit] at ht
    split at ht
    · cases ht
    cases ht
    refine ⟨[.submitted s], ⟨rfl, rfl, rfl, rfl, ?_, ?_, ?_⟩, ?_, ?_⟩
    · intro x hx
      exact List.mem_singleton.mp hx
    · intro event hevent taskId htask
      cases List.mem_singleton.mp hevent
      exact List.mem_singleton.mp htask
    · exact (h.submit hlawful hdrawn).delay (count_lt_submitted h s)
    · intro t haccepted
      cases haccepted
    · intro p hfailed
      cases hfailed
  | lost trouble =>
    dsimp only [World.transmit] at ht
    split at ht
    · cases ht
    cases ht
    refine ⟨_, sends_served h hlawful hdrawn trouble, ?_, ?_⟩
    · intro t haccepted
      cases haccepted
    · intro p hfailed
      cases hfailed
  | answered trouble =>
    have hserved := sends_served h hlawful hdrawn trouble
    dsimp only [World.transmit] at ht
    rcases Option.ite_none_left_eq_some.mp ht with ⟨_, ht⟩
    cases hresult : (w.bridge.handle s.payload trouble).2 with
    | ok threadId =>
      rw [hresult] at ht
      cases ht
      refine ⟨_, hserved, ?_, ?_⟩
      · intro t haccepted
        cases haccepted
        refine ⟨?_, ?_⟩
        · rw [hserved.trace, submissions_append, submissions_append]
          exact List.mem_append_left _ (List.mem_append_right _ List.mem_cons_self)
        · intro x hx
          unfold Bridge.handle at hresult
          rw [hx] at hresult
          exact Bridge.continueTask_ok hresult
      · intro p hfailed
        cases hfailed
    | error problem =>
      rw [hresult] at ht
      cases ht
      by_cases hretry : problem.retryable = true
      · rw [if_pos hretry]
        refine ⟨_, hserved, ?_, ?_⟩
        · intro t haccepted
          cases haccepted
        · intro p hfailed hfinal
          cases hfailed
          rw [hretry] at hfinal
          cases hfinal
      · rw [if_neg hretry]
        have hfalse : problem.retryable = false := by simpa using hretry
        refine ⟨.refused s.taskId :: _, ⟨rfl, rfl, rfl, ?_, hserved.subs, ?_, ?_⟩, ?_, ?_⟩
        · exact congrArg (Event.refused s.taskId :: ·) hserved.trace
        · intro event hevent taskId htask
          cases List.mem_cons.mp hevent with
          | inl heq =>
            rw [heq] at htask
            cases htask
          | inr hrest => exact hserved.opened event hrest taskId htask
        · apply hserved.books.refuse
          rw [hserved.trace, List.append_assoc]
          exact count_lt_admission (count_lt_submitted h s) _ _ _
        · intro t haccepted
          cases haccepted
        · intro p hfailed hfinal
          refine ⟨?_, ?_⟩
          · unfold World.isRefusal
            dsimp only
            rw [hresult]
            simp [hfalse]
          intro hleaves hnone
          have hempty : (w.withEvents [.submitted s]).admission s.payload trouble = [] := by
            unfold World.admission
            apply if_neg
            unfold World.leavesRun at hleaves
            dsimp only at hleaves
            intro hboth
            have hstored := (Bool.and_eq_true_iff.mp hboth).2
            rw [show (w.withEvents [.submitted s]).bridge = w.bridge from rfl, hleaves]
              at hstored
            cases hstored
          have hclosed := not_isOpen_refused h hnone
          have htrace := hserved.trace
          rw [hempty] at htrace
          intro hopen
          have hrefused : IsOpen (.refused s.taskId ::
            ((w.withEvents [.submitted s]).serve s.payload trouble).trace) s.taskId := hopen
          rw [htrace] at hrefused
          exact hclosed hrefused

end

end

namespace Inv

variable {w v : World} {e : Entity} {r : Request} {session : Session} {p : Pending}
  {payload : Payload}

def submissionOf (w : World) (r : Request) (p : Pending) (payload : Payload) : Submission :=
  ⟨⟨r.conversation, p.prompt⟩, (w.log r.conversation).number, payload⟩

/-- The pending task may be sent: it is the only one that can be open for its question. -/
theorem lawful_submissionOf (h : Inv w e)
    (hsession : e.sessions.get? r.conversation = some session) (hp : session.pending = some p)
    (hpayload : p.payload = some payload) :
    Lawful w.trace (.submitted (submissionOf w r p payload)) := by
  have hmatches := (h.pending _ session p hsession hp).2
  have hbody := hmatches.body payload hpayload
  refine ⟨?_, ?_⟩
  · intro old hold heq
    have hid : old.taskId = p.taskId := heq.trans hbody.1
    exact ⟨hbody.2.2 old hold hid, hmatches.question old hold hid⟩
  intro old hold hquestion hlog hother hopen
  have hc : old.question.conversation = r.conversation := by
    rw [hquestion]
    rfl
  obtain ⟨q, hq, hqs⟩ := h.own_of_open (u := w) [] hsession rfl
    (fun event hevent => by cases hevent) old hold hc hlog hopen
  rw [hp] at hq
  cases hq
  exact hother (hqs.symm.trans hbody.1.symm)

theorem Matches.sent {t events : List Event} {c : String} {s : Submission}
    (h : Matches t c session p) (hpayload : p.payload = some payload)
    (hs : s.question = ⟨c, p.prompt⟩ ∧ s.payload = payload)
    (hsubs : ∀ x ∈ submissions events, x = s) : Matches (events ++ t) c session p := by
  have hbody := h.body payload hpayload
  have hsplit : ∀ x ∈ submissions (events ++ t), x = s ∨ x ∈ submissions t := by
    intro x hx
    rw [submissions_append] at hx
    cases List.mem_append.mp hx with
    | inl hfresh => exact Or.inl (hsubs x hfresh)
    | inr hold => exact Or.inr hold
  constructor
  · intro x hx heq
    cases hsplit x hx with
    | inl hfresh =>
      rw [hfresh]
      exact hs.1
    | inr hold => exact h.question x hold heq
  · intro other hother
    rw [hpayload] at hother
    cases hother
    refine ⟨hbody.1, hbody.2.1, ?_⟩
    intro x hx heq
    cases hsplit x hx with
    | inl hfresh =>
      rw [hfresh]
      exact hs.2
    | inr hold => exact hbody.2.2 x hold heq
  · intro hnone
    rw [hpayload] at hnone
    cases hnone

section

variable {u : World} {events : List Event}

variable (h : Inv w e) (hr : e.request = some r)
  (hsession : e.sessions.get? r.conversation = some session) (hp : session.pending = some p)
  (hpayload : p.payload = some payload)
  (hsends : Sends w u (submissionOf w r p payload) events)

include hsends

theorem sent_own : ∀ s ∈ submissions events, s.question.conversation = r.conversation ∧
    s.log = (w.log r.conversation).number := by
  intro s hs
  rw [hsends.subs s hs]
  exact ⟨rfl, rfl⟩

include h hsession hp hpayload

theorem sent_opened : ∀ event ∈ events, ∀ taskId ∈ event.opened,
    ∃ q, session.pending = some q ∧ q.taskId = taskId := by
  intro event hevent taskId htask
  have hbody := (h.pending _ session p hsession hp).2.body payload hpayload
  exact ⟨p, hp, by rw [hsends.opened event hevent taskId htask]; exact hbody.1.symm⟩

theorem sent_matches : Matches u.trace r.conversation session p := by
  rw [hsends.trace]
  exact Matches.sent (h.pending _ session p hsession hp).2 hpayload ⟨rfl, rfl⟩ hsends.subs

theorem sent_same : ∀ q, session.pending = some q → q.taskId ∈ u.drawn ∧
    Matches u.trace r.conversation session q ∧
      (q.taskId ∉ w.drawn ∨ ∃ q', session.pending = some q' ∧ q'.taskId = q.taskId) := by
  intro q hq
  have hmatches := h.sent_matches hsession hp hpayload hsends
  rw [hp] at hq
  cases hq
  rw [hsends.drawn]
  exact ⟨(h.pending _ session p hsession hp).1, hmatches, Or.inr ⟨p, hp, rfl⟩⟩

include hr

theorem sentGoesOn {phase : Phase} (hfits : Fits u.trace { r with phase := phase } session) :
    ∃ e', Inv (u.goesOn 0 e r session phase) e' :=
  h.goesOn events hr hsession hsends.entities hsends.logs hsends.trace
    (fun x hx => by rw [hsends.drawn]; exact hx) hsends.books
    (sent_own hsends) (h.sent_opened hsession hp hpayload hsends)
    (h.sent_same hsession hp hpayload hsends) (fun q hq _ => ⟨q, hq, rfl⟩) hfits

theorem sentEnds : ∃ e', Inv (u.ends 0 e r (some session)) e' := by
  have hsame := h.sent_same hsession hp hpayload hsends
  refine h.ends events hr hsession hsends.entities hsends.logs hsends.trace
    (fun x hx => by rw [hsends.drawn]; exact hx) hsends.books
    (sent_own hsends) (h.sent_opened hsession hp hpayload hsends)
    ?_ ?_
  · intro later q hlater hq
    cases hlater
    exact hsame q hq
  · intro later q hlater hq hopen
    cases hlater
    exact ⟨q, hq, rfl⟩

theorem sentClears {kept : Option Session}
    (hkept : ∀ later, kept = some later → later.pending = none ∧ ¬ IsOpen u.trace p.taskId) :
    ∃ e', Inv (u.ends 0 e r kept) e' := by
  refine h.ends events hr hsession hsends.entities hsends.logs hsends.trace
    (fun x hx => by rw [hsends.drawn]; exact hx) hsends.books
    (sent_own hsends) (h.sent_opened hsession hp hpayload hsends)
    ?_ ?_
  · intro later q hlater hq
    rw [(hkept later hlater).1] at hq
    cases hq
  · intro later q hlater hq hopen
    rw [hp] at hq
    cases hq
    exact absurd hopen (hkept later hlater).2

/-- The task is accepted: only its body is let go. -/
theorem sentAccepted {threadId : String}
    (hsent : submissionOf w r p payload ∈ submissions u.trace) {phase : Phase}
    (hfits : Fits u.trace { r with phase := phase }
      { session with threadId := some threadId, pending := some { p with payload := none } }) :
    ∃ e', Inv (u.goesOn 0 e r
      { session with threadId := some threadId, pending := some { p with payload := none } }
      phase) e' := by
  have hmatches := h.sent_matches hsession hp hpayload hsends
  have hbody := (h.pending _ session p hsession hp).2.body payload hpayload
  refine h.goesOn events hr hsession hsends.entities hsends.logs hsends.trace
    (fun x hx => by rw [hsends.drawn]; exact hx) hsends.books
    (sent_own hsends) (h.sent_opened hsession hp hpayload hsends)
    ?_ ?_ hfits
  · intro q hq
    cases hq
    rw [hsends.drawn]
    refine ⟨(h.pending _ session p hsession hp).1, ⟨hmatches.question, ?_, ?_⟩,
      Or.inr ⟨p, hp, rfl⟩⟩
    · intro other hother
      cases hother
    · intro _
      exact ⟨_, hsent, hbody.1⟩
  · intro q hq hopen
    rw [hp] at hq
    cases hq
    exact ⟨_, rfl, rfl⟩

end

end Inv

theorem adopt_ok {session later : Session} {p : Pending} {reply : Reply}
    (h : World.adopt session p reply = .ok later) :
    ∃ threadId, reply = .accepted threadId ∧ later =
      { session with threadId := some threadId, pending := some { p with payload := none } } := by
  unfold World.adopt at h
  cases reply with
  | accepted threadId =>
    dsimp only at h
    split at h
    · cases h
    · cases h
      exact ⟨threadId, rfl, rfl⟩
  | failed problem => cases h
  | unreachable => cases h

/-- A final error is one of the Bridge or of the client, or the task went to another chat. -/
theorem adopt_error {session : Session} {p : Pending} {reply : Reply} {problem : Problem}
    (h : World.adopt session p reply = .error problem) (hfinal : problem.retryable = false) :
    reply = .failed problem ∨ ∃ threadId other, reply = .accepted threadId ∧
      session.threadId = some other ∧ other ≠ threadId := by
  unfold World.adopt at h
  cases reply with
  | accepted threadId =>
    right
    dsimp only at h
    split at h
    · rename_i hboth
      cases hthread : session.threadId with
      | none => simp [hthread] at hboth
      | some other =>
        refine ⟨threadId, other, rfl, rfl, ?_⟩
        simpa [hthread] using hboth
    · cases h
  | failed q =>
    cases h
    exact Or.inl rfl
  | unreachable =>
    cases h
    cases hfinal

namespace Inv

variable {w v : World} {e : Entity} {r : Request} {session : Session} {p : Pending}
  {payload : Payload}

section

variable (h : Inv w e)

include h

theorem resubmitted (hr : e.request = some r)
    (hsession : e.sessions.get? r.conversation = some session) (hp : session.pending = some p)
    (hpayload : p.payload = some payload) {delivery : Delivery} {u : World} {reply : Reply}
    (ht : w.transmit (submissionOf w r p payload) delivery = some (u, reply)) :
    ∃ e', Inv (World.resubmitted (u, reply) 0 e r session p) e' := by
  have hdrawn := (h.pending _ session p hsession hp).1
  have hbody := (h.pending _ session p hsession hp).2.body payload hpayload
  obtain ⟨events, hsends, haccepted, -⟩ := transmit_spec h.books
    (h.lawful_submissionOf hsession hp hpayload) (by rw [← hbody.1] at hdrawn; exact hdrawn) ht
  unfold World.resubmitted
  cases hadopt : World.adopt session p reply with
  | ok later =>
    obtain ⟨threadId, hreply, hlater⟩ := adopt_ok hadopt
    rw [hlater]
    apply h.sentAccepted hr hsession hp hpayload hsends (haccepted threadId hreply).1
    intro q hq
    cases hq
    rfl
  | error problem => exact h.sentEnds hr hsession hp hpayload hsends

theorem submitted (hr : e.request = some r)
    (hsession : e.sessions.get? r.conversation = some session) (hp : session.pending = some p)
    (hpayload : p.payload = some payload) {previous : Option Previous} {attempt : Attempt}
    (hphase : r.phase = .submitting previous attempt) {delivery : Delivery}
    (hcond : (session.threadId.isNone || !w.isRefusal payload delivery ||
      w.isDefinite payload delivery attempt) = true) {u : World} {reply : Reply}
    (ht : w.transmit (submissionOf w r p payload) delivery = some (u, reply)) :
    ∃ e', Inv (World.submitted (u, reply) 0 e r session p previous attempt) e' := by
  have hdrawn := (h.pending _ session p hsession hp).1
  have hbody := (h.pending _ session p hsession hp).2.body payload hpayload
  have hfits := h.fits hr hsession
  unfold Fits at hfits
  rw [hphase] at hfits
  obtain ⟨hprompt, hfirst⟩ := hfits.2 p hp
  obtain ⟨events, hsends, haccepted, hfailed⟩ := transmit_spec h.books
    (h.lawful_submissionOf hsession hp hpayload) (by rw [← hbody.1] at hdrawn; exact hdrawn) ht
  have hknown : Known u.trace r.conversation previous := by
    rw [hsends.trace]
    exact hfits.1.append events
  unfold World.submitted
  dsimp only
  cases hadopt : World.adopt session p reply with
  | ok later =>
    obtain ⟨threadId, hreply, hlater⟩ := adopt_ok hadopt
    rw [hlater]
    apply h.sentAccepted hr hsession hp hpayload hsends (haccepted threadId hreply).1
    refine ⟨hknown, ?_⟩
    intro q hq
    cases hq
    exact ⟨hprompt, rfl⟩
  | error problem =>
    dsimp only
    split
    · apply h.sentGoesOn hr hsession hp hpayload hsends
      refine ⟨hknown, ?_⟩
      intro q hq
      rw [hp] at hq
      cases hq
      exact ⟨hprompt, fun hattempt => by cases hattempt⟩
    split
    · exact h.sentEnds hr hsession hp hpayload hsends
    rename_i hretry
    have hfinal : problem.retryable = false := by simpa using hretry
    apply h.sentClears hr hsession hp hpayload hsends
    intro later hlater
    rcases Option.ite_none_left_eq_some.mp hlater with ⟨hthread, hlater⟩
    cases hlater
    refine ⟨rfl, ?_⟩
    cases adopt_error hadopt hfinal with
    | inl hreply =>
      obtain ⟨hrefusal, hclosed⟩ := hfailed problem hreply hfinal
      have hdefinite : w.isDefinite payload delivery attempt = true := by
        have hsome : session.threadId.isNone = false := by
          exact Bool.eq_false_iff.mpr hthread
        rw [hsome, show w.isRefusal payload delivery = true from hrefusal] at hcond
        exact hcond
      unfold World.isDefinite at hdefinite
      obtain ⟨hattempt, hleaves⟩ := Bool.and_eq_true_iff.mp hdefinite
      have hunsent := hfirst (of_decide_eq_true hattempt)
      have htask : (submissionOf w r p payload).taskId = p.taskId := hbody.1
      rw [← htask]
      apply hclosed
      · rw [Bool.not_eq_true'] at hleaves
        exact hleaves
      · rw [htask]
        exact hunsent
    | inr hmoved =>
      obtain ⟨threadId, other, hreply, hother, hne⟩ := hmoved
      have htarget := hbody.2.1
      cases hkind : payload.target with
      | start fields =>
        rw [hkind] at htarget
        rw [show session.threadId = none from htarget] at hother
        cases hother
      | thread named =>
        rw [hkind] at htarget
        rw [show session.threadId = some named from htarget] at hother
        cases hother
        exact absurd ((haccepted threadId hreply).2 other hkind).symm hne

theorem post {k : Nat} {delivery : Delivery}
    (hcond : w.isUndoubted (.post k delivery) = true) (hs : w.post k delivery = some v) :
    ∃ e', Inv v e' := by
  unfold World.post at hs
  dsimp only [World.isUndoubted] at hcond
  cases hactive : w.active k with
  | none =>
    rw [hactive] at hs
    cases hs
  | some found =>
    obtain ⟨o, r, session⟩ := found
    obtain ⟨hk, ho, hr, hsession⟩ := h.of_active hactive
    rw [hactive, hk, ho] at hs
    rw [hactive] at hcond
    dsimp only at hs hcond
    cases hp : session.pending with
    | none =>
      rw [hp] at hs
      cases hs
    | some p =>
      rw [hp] at hs hcond
      dsimp only at hs
      cases hpayload : p.payload with
      | none =>
        rw [hpayload] at hs
        cases hs
      | some payload =>
        rw [hpayload] at hs
        rw [Option.bind_some, hpayload] at hcond
        dsimp only at hs
        split at hs
        · obtain ⟨sent, hsent, hv⟩ := Option.map_eq_some_iff.mp hs
          rw [← hv]
          exact h.resubmitted hr hsession hp hpayload hsent
        · rename_i previous attempt hphase
          obtain ⟨sent, hsent, hv⟩ := Option.map_eq_some_iff.mp hs
          rw [hphase] at hcond
          rw [← hv]
          exact h.submitted hr hsession hp hpayload hphase hcond hsent
        · cases hs

/-! ## Messages -/

theorem markAnswered (c : String) : Inv (w.markAnswered c) e := by
  refine h.of_same rfl rfl rfl rfl ?_
  intro d
  left
  by_cases hd : d = c
  · rw [hd]
    simp [World.markAnswered, World.log, Dict.get?_set_self]
  · simp [World.markAnswered, World.log, Dict.get?_set_of_ne _ _ hd]

/-- A session goes while the conversation has nothing open, or is refused from now on. -/
theorem drops (hidle : e.request = none) {c : String} {former : List Entity}
    (hentities : w.entities = e :: former)
    (hfree : e.pending c = none ∧ (∃ session, e.sessions.get? c = some session) ∨
      (w.log c).answered = true) :
    Inv { w with entities := ⟨e.sessions.erase c, none⟩ :: former } ⟨e.sessions.erase c, none⟩ := by
  have hnone : (e.sessions.erase c).get? c = none := (Dict.get?_erase _ _ _).trans (if_pos rfl)
  obtain ⟨others, hplace, hformer⟩ := h.place
  rw [hentities] at hplace
  cases hplace
  apply h.moves (c := c) (v := { w with entities := ⟨e.sessions.erase c, none⟩ :: former }) []
  · intro r hr
    rw [hidle] at hr
    cases hr
  · exact ⟨former, rfl, hformer⟩
  · intro d hd
    exact (Dict.get?_erase _ _ _).trans (if_neg hd)
  · rfl
  · exact fun x hx => hx
  · exact fun d => ⟨rfl, fun hd => hd⟩
  · exact h.books
  · intro s hs
    cases hs
  · intro event hevent
    cases hevent
  · intro session p hsession
    rw [show (e.sessions.erase c).get? c = some session from hsession] at hnone
    cases hnone
  · intro s hs hc hlog hopen
    cases hfree with
    | inl hpending =>
      obtain ⟨hpend, session, hsession⟩ := hpending
      have hheld := h.held s hs (by rw [hc]; exact hlog) hopen
      rw [hc] at hheld
      cases hheld with
      | inl hkept =>
        rw [hpend] at hkept
        cases hkept.1
      | inr hgone =>
        rw [hsession] at hgone
        cases hgone.1
    | inr hanswered => exact Or.inr ⟨hnone, hanswered⟩
  · intro r hr
    cases hr

theorem takesUp (hidle : e.request = none) {former : List Entity}
    (hentities : w.entities = e :: former) {r : Request} {session : Session}
    (hold : e.sessions.get? r.conversation = some session ∨
      (e.sessions.get? r.conversation = none ∧ (w.log r.conversation).answered = false ∧
        session.pending = none)) (hfits : Fits w.trace r session) {sessions : Dict String Session}
    (hsessions : sessions.get? r.conversation = some session)
    (hothers : ∀ d, d ≠ r.conversation → sessions.get? d = e.sessions.get? d) :
    Inv { w with entities := ⟨sessions, some r⟩ :: former } ⟨sessions, some r⟩ := by
  have hpend : ∀ p, session.pending = some p → e.pending r.conversation = some p := by
    intro p hp
    cases hold with
    | inl hsession => rw [Entity.pending_of_get? hsession, hp]
    | inr hnew =>
      rw [hnew.2.2] at hp
      cases hp
  obtain ⟨others, hplace, hformer⟩ := h.place
  rw [hentities] at hplace
  cases hplace
  apply h.moves (c := r.conversation) (v := { w with entities := ⟨sessions, some r⟩ :: former }) []
  · intro other hr
    rw [hidle] at hr
    cases hr
  · exact ⟨former, rfl, hformer⟩
  · exact hothers
  · rfl
  · exact fun x hx => hx
  · exact fun d => ⟨rfl, fun hd => hd⟩
  · exact h.books
  · intro s hs
    cases hs
  · intro event hevent
    cases hevent
  · intro found p hfound hp
    rw [show sessions.get? r.conversation = some found from hfound] at hsessions
    cases hsessions
    have hwas := hpend p hp
    cases hold with
    | inl hsession =>
      have hpending := h.pending _ session p hsession hp
      exact ⟨hpending.1, hpending.2, Or.inr ⟨p, hwas, rfl⟩⟩
    | inr hnew =>
      rw [hnew.2.2] at hp
      cases hp
  · intro s hs hc hlog hopen
    have hheld := h.held s hs (by rw [hc]; exact hlog) hopen
    rw [hc] at hheld
    cases hold with
    | inl hsession =>
      cases hheld with
      | inl hkept =>
        refine Or.inl ⟨?_, Or.inr ⟨r, rfl, rfl⟩⟩
        rw [Entity.pending_of_get? hsession] at hkept
        rw [Entity.pending_of_get? (e := ⟨sessions, some r⟩) hsessions]
        exact hkept.1
      | inr hgone =>
        rw [hsession] at hgone
        cases hgone.1
    | inr hnew =>
      cases hheld with
      | inl hkept =>
        unfold Entity.pending at hkept
        rw [hnew.1] at hkept
        cases hkept.1
      | inr hgone =>
        rw [hnew.2.1] at hgone
        cases hgone.2
  · intro other hother
    cases hother
    exact ⟨rfl, session, hsessions, hfits⟩

end

theorem phase_fits (hphase : r.phase = session.phase) : Fits w.trace r session := by
  unfold Fits
  unfold Session.phase at hphase
  cases hp : session.pending with
  | none =>
    rw [hp] at hphase
    rw [hphase]
    exact ⟨rfl, fun prompt answer hprevious => by cases hprevious⟩
  | some p =>
    rw [hp] at hphase
    cases hpayload : p.payload with
    | none =>
      rw [show r.phase = .readingPrevious by simpa [hpayload] using hphase]
      intro q hq
      cases hq
      exact hpayload
    | some payload =>
      rw [show r.phase = .resubmitting by simpa [hpayload] using hphase]
      trivial

theorem makeRoom_spec {sessions room : Dict String Session}
    (hroom : makeRoom sessions = some room) :
    room = sessions ∨ ∃ c session, sessions.get? c = some session ∧ session.pending = none ∧
      room = sessions.erase c := by
  unfold makeRoom at hroom
  split at hroom
  · exact Or.inl (Option.some.inj hroom).symm
  split at hroom
  · cases hroom
  rename_i found hfound
  right
  have hmem := List.mem_of_find?_eq_some hfound
  have hnone := List.find?_some hfound
  exact ⟨found.1, found.2, (Dict.get?_eq_some_iff _ _ _).mpr hmem,
    Option.isNone_iff_eq_none.mp hnone, (Option.some.inj hroom).symm⟩

theorem opens (h : Inv w e) (hidle : e.request = none) {former : List Entity}
    (hentities : w.entities = e :: former) {room : Dict String Session}
    (hroom : makeRoom e.sessions = some room) {r : Request} (hphase : r.phase = .checking none)
    (hnew : e.sessions.get? r.conversation = none)
    (hanswered : (w.log r.conversation).answered = false) {session : Session}
    (hp : session.pending = none) :
    Inv { w with entities := ⟨room.set r.conversation session, some r⟩ :: former }
      ⟨room.set r.conversation session, some r⟩ := by
  have hfits : Fits w.trace r session := by
    unfold Fits
    rw [hphase]
    exact ⟨hp, fun prompt answer hprevious => by cases hprevious⟩
  cases makeRoom_spec hroom with
  | inl hsame =>
    rw [hsame]
    exact h.takesUp hidle hentities (Or.inr ⟨hnew, hanswered, hp⟩) hfits
      (Dict.get?_set_self _ _ _) fun d hd => Dict.get?_set_of_ne _ _ hd
  | inr hevicted =>
    obtain ⟨c, old, hold, hnone, heq⟩ := hevicted
    rw [heq]
    have hpend : e.pending c = none := by rw [Entity.pending_of_get? hold, hnone]
    have hdropped := h.drops hidle hentities (Or.inl ⟨hpend, old, hold⟩)
    have hgone : (e.sessions.erase c).get? r.conversation = none := by
      rw [Dict.get?_erase]
      split
      · rfl
      · exact hnew
    exact hdropped.takesUp rfl rfl (Or.inr ⟨hgone, hanswered, hp⟩) hfits
      (Dict.get?_set_self _ _ _) fun d hd => Dict.get?_set_of_ne _ _ hd

end Inv

inductive Receives (e : Entity) (answered : Bool) (c : String) : Reception → Prop
  | refused : Receives e answered c (.reply e.sessions)
  | changed {session : Session} : e.request = none → e.sessions.get? c = some session →
      Receives e answered c (.reply (e.sessions.erase c))
  | resumed {session : Session} {r : Request} : e.request = none →
      e.sessions.get? c = some session → r.conversation = c → r.phase = session.phase →
        Receives e answered c (.handle ((e.sessions.erase c).set c session) r)
  | opened {room : Dict String Session} {session : Session} {r : Request} : e.request = none →
      e.sessions.get? c = none → answered = false → makeRoom e.sessions = some room →
        session.pending = none → r.conversation = c → r.phase = .checking none →
          Receives e answered c (.handle (room.set c session) r)

theorem receives (options : Options) (capabilities : Capabilities) (answered : Bool) (e : Entity)
    (m : Message) :
    Receives e answered m.conversation (e.receive options capabilities answered m) := by
  unfold Entity.receive
  cases assistMcpSelection options.mcpServers with
  | none => exact .refused
  | some selected =>
    dsimp only
    split
    · exact .refused
    rename_i hguard
    have hidle : e.request = none := by
      cases hrequest : e.request with
      | none => rfl
      | some r => simp [hrequest] at hguard
    cases hsession : e.sessions.get? m.conversation with
    | some session =>
      dsimp only
      split
      · exact .changed hidle hsession
      split
      · exact .refused
      · exact .resumed hidle hsession rfl rfl
    | none =>
      dsimp only
      split
      · exact .refused
      rename_i hanswered
      cases hroom : makeRoom e.sessions with
      | none => exact .refused
      | some room =>
        exact .opened hidle hsession (by simpa using hanswered) hroom rfl rfl rfl

namespace Inv

variable {w v : World} {e : Entity}

theorem receive (h : Inv w e) {m : Message} (hs : w.receive m = some v) : ∃ e', Inv v e' := by
  obtain ⟨former, hentities, -⟩ := h.place
  have hsame : Inv { w with entities := e :: former } e := by
    rw [← hentities]
    exact h
  unfold World.receive at hs
  rw [hentities] at hs
  dsimp only at hs
  have hreceives := receives w.options w.capabilities (w.log m.conversation).answered e m
  cases hreception : e.receive w.options w.capabilities (w.log m.conversation).answered m with
  | reply sessions =>
    rw [hreception] at hs hreceives
    rw [← Option.some.inj hs]
    cases hreceives with
    | refused => exact ⟨e, hsame.markAnswered _⟩
    | changed hidle hsession =>
      have hmarked := h.markAnswered m.conversation
      refine ⟨⟨e.sessions.erase m.conversation, none⟩, ?_⟩
      have hanswered : ((w.markAnswered m.conversation).log m.conversation).answered = true := by
        simp [World.markAnswered, World.log, Dict.get?_set_self]
      have hdropped := hmarked.drops hidle hentities (Or.inr hanswered)
      rw [hidle]
      exact hdropped
  | handle sessions r =>
    rw [hreception] at hs hreceives
    rw [← Option.some.inj hs]
    refine ⟨⟨sessions, some r⟩, ?_⟩
    cases hreceives with
    | resumed hidle hsession hc hphase =>
      rw [← hc] at hsession ⊢
      refine h.takesUp hidle hentities (Or.inl hsession) (Inv.phase_fits hphase)
        (Dict.get?_set_self _ _ _) ?_
      intro d hd
      rw [Dict.get?_set_of_ne _ _ hd, Dict.get?_erase, if_neg hd]
    | opened hidle hnew hanswered hroom hp hc hphase =>
      rw [← hc] at hnew hanswered ⊢
      exact h.opens hidle hentities hroom hphase hnew hanswered hp

/-- A request that comes late opens nothing that was closed. -/
theorem arrive (h : Inv w e) {index : Nat} {payload : Payload}
    (hmem : w.delayed[index]? = some payload) (trouble : Trouble) :
    Inv (World.serve { w with delayed := w.delayed.eraseIdx index } payload trouble) e := by
  have hlt := h.books.count_lt_of_mem (List.mem_of_getElem? hmem)
  have hbooks : Books w.trace w.drawn (w.delayed.eraseIdx index) :=
    h.books.arrive (List.eraseIdx_sublist _ _)
  have hnone := admission_subs { w with delayed := w.delayed.eraseIdx index } payload trouble
  have hadmitted := hbooks.admission { w with delayed := w.delayed.eraseIdx index } trouble
    (Nat.lt_of_le_of_lt (Nat.zero_le _) hlt)
  have hopened : ∀ taskId, IsOpen (World.admission { w with delayed := w.delayed.eraseIdx index }
      payload trouble ++ w.trace) taskId → IsOpen w.trace taskId := by
    intro taskId hopen
    cases isOpen_append hopen with
    | inl hold => exact hold
    | inr hex =>
      obtain ⟨event, hevent, htask⟩ := hex
      rw [admission_opened event hevent taskId htask] at hopen ⊢
      exact ⟨Or.inr hlt, fun hsettled => hopen.2 (List.mem_append_right _ hsettled)⟩
  have hsub : submissions (World.admission { w with delayed := w.delayed.eraseIdx index }
      payload trouble ++ w.trace) = submissions w.trace := by
    rw [submissions_append, hnone, List.nil_append]
  constructor
  · exact h.place
  · exact hadmitted
  · intro c session p hsession hp
    have hold := h.pending c session p hsession hp
    exact ⟨hold.1, hold.2.append hnone⟩
  · exact h.apart
  · intro s hs
    rw [show submissions (World.serve { w with delayed := w.delayed.eraseIdx index } payload
      trouble).trace = submissions w.trace from hsub] at hs
    exact h.logs s hs
  · intro s hs hnumber hopen
    rw [show submissions (World.serve { w with delayed := w.delayed.eraseIdx index } payload
      trouble).trace = submissions w.trace from hsub] at hs
    exact h.held s hs hnumber (hopened _ hopen)
  · intro r hr
    obtain ⟨session, hsession, hfits⟩ := h.busy r hr
    exact ⟨session, hsession, Fits_append _ hfits hsub⟩

/-- A new agent finds every open task in a conversation that is refused. -/
theorem reload (h : Inv w e) (hidle : e.request = none) (options : Options) :
    Inv { w with options := options, entities := Entity.fresh :: w.entities } Entity.fresh where
  place := by
    obtain ⟨former, hentities, hformer⟩ := h.place
    refine ⟨w.entities, rfl, ?_⟩
    intro o ho
    rw [hentities] at ho
    cases List.mem_cons.mp ho with
    | inl heq =>
      rw [heq]
      exact hidle
    | inr hmem => exact hformer o hmem
  books := h.books
  pending := by
    intro c session p hsession
    cases hsession
  apart := by
    intro c d p q hp
    cases hp
  logs := h.logs
  held := by
    intro s hs hnumber hopen
    refine Or.inr ⟨rfl, ?_⟩
    cases h.held s hs hnumber hopen with
    | inl hkept =>
      cases hkept.2 with
      | inl hanswered => exact hanswered
      | inr hex =>
        obtain ⟨r, hr, -⟩ := hex
        rw [hidle] at hr
        cases hr
    | inr hgone => exact hgone.2
  busy := fun r hr => by cases hr

theorem next (h : Inv w e) {label : Label} (hcond : w.isUndoubted label = true)
    (hs : w.next label = some v) : ∃ e', Inv v e' := by
  cases label with
  | message m => exact h.receive hs
  | check k found uuid => exact h.check hs
  | post k delivery => exact h.post hcond hs
  | read k reading => exact h.read hs
  | expire k => exact h.expire hs
  | arrive index trouble =>
    dsimp only [World.next] at hs
    split at hs
    · cases hs
    rename_i payload hmem
    rw [← Option.some.inj hs]
    exact ⟨e, h.arrive hmem trouble⟩
  | bridge change =>
    rw [← Option.some.inj hs]
    exact ⟨e, h.of_same rfl rfl rfl rfl fun c => Or.inl ⟨rfl, fun hc => hc⟩⟩
  | configure options =>
    rw [← Option.some.inj hs]
    exact ⟨e, h.of_same rfl rfl rfl rfl fun c => Or.inl ⟨rfl, fun hc => hc⟩⟩
  | reload options =>
    rw [← Option.some.inj hs]
    obtain ⟨former, hentities, -⟩ := h.place
    have hidle : e.request = none := by
      have hall := List.all_eq_true.mp hcond e (by rw [hentities]; exact List.mem_cons_self)
      exact Option.isNone_iff_eq_none.mp hall
    exact ⟨Entity.fresh, h.reload hidle options⟩
  | negotiate capabilities =>
    rw [← Option.some.inj hs]
    exact ⟨e, h.of_same rfl rfl rfl rfl fun c => Or.inl ⟨rfl, fun hc => hc⟩⟩
  | newLog conversation =>
    dsimp only [World.next] at hs
    split at hs
    · cases hs
    rw [← Option.some.inj hs]
    refine ⟨e, h.of_same rfl rfl rfl rfl ?_⟩
    intro d
    by_cases hd : d = conversation
    · right
      rw [hd]
      simp [World.log, Dict.get?_set_self]
    · left
      simp [World.log, Dict.get?_set_of_ne _ _ hd]
  | otherAnswer conversation =>
    rw [← Option.some.inj hs]
    exact ⟨e, h.markAnswered conversation⟩

end Inv

/-- Whatever is lost, delayed, refused or changed: if no follow-up question is refused for good
although the Bridge may have admitted it, and no message is being handled when the agent is
replaced, a question has one task with one body until its outcome is known, and what is spoken
for it is the answer of that task. -/
theorem World.run_oneTask (options : Options) (capabilities : Capabilities) (bridge : Bridge)
    (labels : List Label) (w : World)
    (hundoubted : Runs.Meets World.next (fun s a => s.isUndoubted a = true)
      (World.initial options capabilities bridge) labels)
    (h : Runs.exec World.next (World.initial options capabilities bridge) labels = some w) :
    Orderly w.trace := by
  have hstep : ∀ s a t, (∃ e, Inv s e) → s.isUndoubted a = true → World.next s a = some t →
      ∃ e, Inv t e := by
    intro s a t hs ha ht
    obtain ⟨e, he⟩ := hs
    exact he.next ha ht
  obtain ⟨e, he⟩ := Runs.invariant_of_meets hstep
    ⟨Entity.fresh, inv_initial options capabilities bridge⟩ hundoubted h
  exact he.books.orderly

def samplePolicy : Policy :=
  ⟨true, true, some false, true, .ready, some [("codex", ["medium"])]⟩

def sampleBridge : Bridge :=
  ⟨samplePolicy, Dict.empty.set "home" ⟨false, "codex", "medium"⟩, Dict.empty, Dict.empty⟩

def sampleOptions : Options := ⟨true, some "", [], "home", "", ""⟩

def sampleCapabilities : Capabilities := ⟨true, true, false⟩

def asks (text : String) : Label := .message ⟨"kitchen", none, false, text⟩

def firstTask : String := "00000000000000000000000000000001"

def secondTask : String := "00000000000000000000000000000002"

def thirdTask : String := "00000000000000000000000000000003"

def completes (taskId answer : String) : List Label :=
  [.bridge (.progress taskId .completed (some answer)),
    .bridge (.thread (Bridge.taskThread firstTask) true true false "codex" "medium")]

/-- The first response is lost, the replay is accepted, the answer takes too long and is spoken
with that of the next question. -/
def slowAnswer : List Label :=
  [asks "Is the door open?", .check 0 none firstTask, .post 0 (.lost .none),
    .post 0 (.answered .none), .read 0 .arrives, .expire 0] ++ completes firstTask "It is." ++
  [asks "Close it.", .read 0 .arrives, .check 0 none secondTask, .post 0 (.answered .none)] ++
  completes secondTask "Done." ++ [.read 0 .arrives]

theorem World.run_oneTask_slowAnswer :
    (Runs.exec World.next (World.initial sampleOptions sampleCapabilities sampleBridge)
      slowAnswer).isSome = true ∧
    ∀ w, Runs.exec World.next (World.initial sampleOptions sampleCapabilities sampleBridge)
      slowAnswer = some w → Orderly w.trace :=
  ⟨by decide +kernel, fun w h => World.run_oneTask sampleOptions sampleCapabilities sampleBridge _ w
    (by decide +kernel) h⟩

/-- A follow-up is admitted, its response is lost, and MCP is enabled for the time of the replay.
Asked once more, the question becomes another task. -/
def refusedReplay : List Label :=
  [asks "Is the door open?", .check 0 none firstTask, .post 0 (.answered .none)] ++
  completes firstTask "It is." ++
  [.read 0 .arrives, asks "Close it.", .check 0 none secondTask, .post 0 (.lost .none),
    .bridge (.policy { samplePolicy with mcpEnabled := some true }), .post 0 (.answered .none),
    .bridge (.policy samplePolicy)] ++ completes secondTask "Done." ++
  [asks "Close it.", .check 0 none thirdTask, .post 0 (.answered .none)]

theorem refusedReplay_twoTasks :
    ∃ w, Runs.exec World.next (World.initial sampleOptions sampleCapabilities sampleBridge)
      refusedReplay = some w ∧ ¬ Orderly w.trace := by
  have h : (Runs.exec World.next (World.initial sampleOptions sampleCapabilities sampleBridge)
      refusedReplay).map (fun w => decide (Orderly w.trace)) = some false := by decide +kernel
  obtain ⟨w, hw, hd⟩ := Option.map_eq_some_iff.mp h
  exact ⟨w, hw, of_decide_eq_false hd⟩

end CodexBridge.Assist
