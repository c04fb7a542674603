import CodexBridge.Terminal.Replace
import CodexBridge.Terminal.Delivered

/-! # What the terminal owes

In any run in which the thread of `_run` starts, no client raises in `close` and no delta that is
due goes without a word, the terminal gives back what it holds, sends each input once and has all
output for its reader.
-/

namespace CodexBridge.Terminal

def World.isHarmless (w : World) (label : Label) : Bool := w.isSafe label && w.isClean label

/-- The terminal is closed for good by nobody but the caller of `close`. -/
theorem closed_of_isThread {maximumBytes : Nat} {w v : World} {label : Label}
    (hthread : label.isThread = true) (hs : w.next maximumBytes label = some v) :
    v.closed = w.closed := by
  have hstop : ∀ (u : World) k message, (u.stop k message).closed = u.closed := by
    intro u k message
    unfold World.stop
    split
    · rfl
    split
    · rfl
    · rfl
  cases label with
  | openStep raises =>
    dsimp only [World.next] at hs
    unfold World.openStep at hs
    repeat' split at hs
    all_goals first | (cases hs; rfl) | cases hs
  | clientClose raises =>
    dsimp only [World.next] at hs
    unfold World.clientClose at hs
    dsimp only at hs
    repeat' split at hs
    all_goals first | (cases hs; rfl) | cases hs
  | release =>
    dsimp only [World.next] at hs
    unfold World.release at hs
    repeat' split at hs
    all_goals first | (cases hs; rfl) | cases hs
  | commandEnds k result =>
    dsimp only [World.next] at hs
    unfold World.onSession at hs
    split at hs
    · cases hs
    obtain ⟨_, _, hv⟩ := Option.map_eq_some_iff.mp hs
    rw [← hv]
    rfl
  | finish k =>
    dsimp only [World.next] at hs
    unfold World.finish at hs
    repeat' split at hs
    all_goals first | (cases hs; rfl) | cases hs
  | writeChecked editable =>
    dsimp only [World.next] at hs
    unfold World.writeChecked at hs
    repeat' split at hs
    all_goals first | (cases hs; rfl) | (cases hs; exact hstop _ _ _) | cases hs
  | writeReturns delivered raises =>
    dsimp only [World.next] at hs
    unfold World.writeReturns at hs
    dsimp only at hs
    repeat' split at hs
    all_goals first | (cases hs; rfl) | (cases hs; exact hstop _ _ _) | cases hs
  | resizeReturns =>
    dsimp only [World.next] at hs
    split at hs
    · cases hs
      rfl
    · cases hs
  | _ => cases hthread

theorem Leads.closed {maximumBytes : Nat} {w v : World} (h : Leads maximumBytes w v) :
    v.closed = w.closed := by
  obtain ⟨labels, hall, hexec⟩ := h
  induction labels generalizing w with
  | nil =>
    cases hexec
    rfl
  | cons label rest ih =>
    rw [List.all_cons, Bool.and_eq_true] at hall
    obtain ⟨u, hu, hrest⟩ := (Runs.exec_cons_eq_some_iff _ _ _ _).mp hexec
    rw [ih hall.2 hrest, closed_of_isThread hall.1 hu]

theorem World.IsFree.opens {w : World} (h : w.IsFree) (hclosed : w.closed = false) :
    w.openSession.isSome = true := by
  have hnone : w.sessions.any Session.lease = false := by
    rw [List.any_eq_false]
    intro s hs
    obtain ⟨k, hk, heq⟩ := List.mem_iff_getElem.mp hs
    have hsession : w.sessions[k]? = some s := by rw [List.getElem?_eq_getElem hk, heq]
    rw [(h.released k s hsession).1]
    exact Bool.false_ne_true
  unfold World.openSession
  rw [if_neg (by simp [h.idle, hclosed, h.replaceable, hnone])]
  rfl

/-- What holds of the terminal in a state of a run. -/
structure GivesBack (maximumBytes : Nat) (w : World) : Prop where
  /-- Lease and reservation are held until the client was closed. -/
  held : ∀ (k : Nat) s c, w.sessions[k]? = some s → s.client = some c → c.isDown = false →
    s.lease = true ∧ s.reservation = true
  /-- What is held is held by a session with a thread that gives it back. -/
  owned : ∀ (k : Nat) s, w.sessions[k]? = some s → (s.lease || s.reservation) = true →
    s.isLive = true ∨ w.operation.target = some k
  placed : ∀ (k : Nat) s, w.sessions[k]? = some s → w.current = some k → s.state ≠ .closed →
    s.isLive = true ∨ w.operation.target = some k
  /-- The threads under way give all of it back. -/
  free : ∃ v, Leads maximumBytes w v ∧ v.IsFree
  /-- A new terminal follows. -/
  again : w.closed = false → ∃ v u, Leads maximumBytes w v ∧ v.next maximumBytes .open = some u
  /-- The input goes out by number from 1, each once. -/
  input : ∀ (k : Nat) s, w.sessions[k]? = some s → s.isNumbered
  /-- What was received before the command ended is in the log or awaits its callback. -/
  output : ∀ (k : Nat) s, w.sessions[k]? = some s →
    s.mayTell = true ∨ s.received = (s.appended ++ s.waiting).filter Notification.isDue
  log : ∀ (k : Nat) s, w.sessions[k]? = some s →
    s.log.flatten = (s.appended.map Notification.data).flatten
  /-- The reader has the log up to its cursor, or was told of a gap. -/
  reader : ∀ (k : Nat) s, w.sessions[k]? = some s → s.reader.warned = true ∨
    (s.reader.cursor ≤ s.log.length ∧ s.reader.got = s.log.take s.reader.cursor)
  /-- An answer without a chunk and without word of a gap comes at the end of the log. -/
  complete : ∀ (k : Nat) s, w.sessions[k]? = some s →
    (s.read s.reader.cursor).truncated = false → (s.read s.reader.cursor).chunks = [] →
    s.reader.warned = true ∨ s.reader.got = s.log

theorem givesBack_of_duty {maximumBytes : Nat} {w : World} (hduty : Duty w)
    (hdelivers : Delivers w) : GivesBack maximumBytes w where
  held := by
    intro k s c hs hc hdown
    apply (hduty.fits k s hs).held (c.isClosed, c.isDown)
    · rw [Session.flags, hc]
      rfl
    · exact hdown
  owned := by
    intro k s hs hheld
    cases hlive : s.isLive with
    | true => exact Or.inl rfl
    | false =>
      right
      by_contra hnone
      have hreleased := (hduty.fits k s hs).rests hlive (by
        intro stage heq
        rw [heq] at hnone
        exact hnone rfl)
      rw [hreleased.1, hreleased.2] at hheld
      cases hheld
  placed := by
    intro k s hs hcurrent hstate
    cases (hduty.fits k s hs).placed hcurrent hstate with
    | inl hlive => exact Or.inl hlive
    | inr heq =>
      rw [heq]
      exact Or.inr rfl
  free := hduty.leads_free maximumBytes
  again := by
    intro hopen
    obtain ⟨v, hv, hfree⟩ := hduty.leads_free maximumBytes
    have hclosed : v.closed = false := hv.closed.trans hopen
    obtain ⟨u, hu⟩ := Option.isSome_iff_exists.mp (hfree.opens hclosed)
    exact ⟨v, u, hv, hu⟩
  input := fun k s hs => (hdelivers k s hs).inputs.numbered
  output := fun k s hs => (hdelivers k s hs).tells.received
  log := fun k s hs => (hdelivers k s hs).kept.data
  reader := fun k s hs => (hdelivers k s hs).kept.reader
  complete := fun k s hs htold hempty => (hdelivers k s hs).kept.read_empty htold hempty

theorem World.run_givesBack {maximumBytes : Nat} {labels : List Label} {w : World}
    (hharmless : Runs.Meets (World.next maximumBytes)
      (fun w label => w.isHarmless label = true) World.initial labels)
    (h : Runs.exec (World.next maximumBytes) World.initial labels = some w) :
    GivesBack maximumBytes w := by
  have hall : Duty w ∧ Delivers w := by
    apply Runs.invariant_of_meets (I := fun w => Duty w ∧ Delivers w) _
      ⟨duty_initial, delivers_initial⟩ hharmless h
    intro s label t hs hc hstep
    rw [World.isHarmless, Bool.and_eq_true] at hc
    exact ⟨hs.1.next hc.1 hstep, hs.2.next hs.1 hc.2 hstep⟩
  exact givesBack_of_duty hall.1 hall.2

def openLabels : List Label :=
  [.open, .openStep false, .openStep false, .openStep false, .openStep false, .openStep false]

def outputDelta (data : List UInt8) : Notification := ⟨true, .bytes data, false, true⟩

def sessionLabels : List Label :=
  openLabels ++
    [.receive 0 (outputDelta [72, 65]), .dequeue 0, .callback 0 true, .read 0, .write 0 1,
      .writeChecked true, .writeReturns true false, .receive 0 (outputDelta [10]), .dequeue 0,
      .callback 0 true, .commandEnds 0 (some (some 0)), .finish 0, .clientClose false, .release,
      .read 0, .read 0]

theorem World.run_givesBack_session :
    (Runs.exec (World.next 64) World.initial sessionLabels).isSome = true ∧
      ∀ w, Runs.exec (World.next 64) World.initial sessionLabels = some w → GivesBack 64 w :=
  ⟨by decide +kernel, fun _ h => World.run_givesBack (by decide +kernel) h⟩

/-! ## Where it does not

Each of the three things takes one step of its own: the command returns before the callback of a
delta that came before, a client raises in `close`, a thread does not start.
-/

def lateLabels : List Label :=
  openLabels ++
    [.receive 0 (outputDelta [72, 65]), .commandEnds 0 (some (some 0)), .finish 0,
      .clientClose false, .release, .read 0]

def leakLabels : List Label :=
  openLabels ++ [.commandEnds 0 none, .finish 0, .clientClose true]

def blockedLabels : List Label :=
  [.open, .openStep false, .openStep false, .openStep false, .openStep true, .clientClose false,
    .release]

/-- The answer of the command overtakes the delta, and `close` clears the queue. -/
theorem late_output : ∃ w,
    Runs.exec (World.next 64) World.initial lateLabels = some w ∧ ¬GivesBack 64 w := by
  have hrun : (Runs.exec (World.next 64) World.initial lateLabels).map (fun w =>
      w.sessions[0]?.map fun s => decide (s.mayTell = true ∨
        s.received = (s.appended ++ s.waiting).filter Notification.isDue)) = some (some false) := by
    decide +kernel
  obtain ⟨w, hw, hsession⟩ := Option.map_eq_some_iff.mp hrun
  obtain ⟨s, hs, hfalse⟩ := Option.map_eq_some_iff.mp hsession
  exact ⟨w, hw, fun h => of_decide_eq_false hfalse (h.output 0 s hs)⟩

theorem failing_close_leaks : ∃ w,
    Runs.exec (World.next 64) World.initial leakLabels = some w ∧ ¬GivesBack 64 w := by
  have hrun : (Runs.exec (World.next 64) World.initial leakLabels).map (fun w =>
      w.sessions[0]?.map fun s => decide ((s.lease || s.reservation) = true →
        s.isLive = true ∨ w.operation.target = some 0)) = some (some false) := by
    decide +kernel
  obtain ⟨w, hw, hsession⟩ := Option.map_eq_some_iff.mp hrun
  obtain ⟨s, hs, hfalse⟩ := Option.map_eq_some_iff.mp hsession
  exact ⟨w, hw, fun h => of_decide_eq_false hfalse (h.owned 0 s hs)⟩

theorem failed_thread_blocks : ∃ w,
    Runs.exec (World.next 64) World.initial blockedLabels = some w ∧ ¬GivesBack 64 w := by
  have hrun : (Runs.exec (World.next 64) World.initial blockedLabels).map (fun w =>
      w.sessions[0]?.map fun s => decide (w.current = some 0 → s.state ≠ .closed →
        s.isLive = true ∨ w.operation.target = some 0)) = some (some false) := by
    decide +kernel
  obtain ⟨w, hw, hsession⟩ := Option.map_eq_some_iff.mp hrun
  obtain ⟨s, hs, hfalse⟩ := Option.map_eq_some_iff.mp hsession
  exact ⟨w, hw, fun h => of_decide_eq_false hfalse (h.placed 0 s hs)⟩

theorem givesBack_fails :
    (∃ w, Runs.exec (World.next 64) World.initial lateLabels = some w ∧ ¬GivesBack 64 w) ∧
      (∃ w, Runs.exec (World.next 64) World.initial leakLabels = some w ∧ ¬GivesBack 64 w) ∧
      ∃ w, Runs.exec (World.next 64) World.initial blockedLabels = some w ∧ ¬GivesBack 64 w :=
  ⟨late_output, failing_close_leaks, failed_thread_blocks⟩

end CodexBridge.Terminal
