import CodexBridge.Terminal.Workspace
import Mathlib.Algebra.GroupWithZero.Nat

/-! # What becomes of output

The chunks of a session are the end of the log of all of them, so that a reader either has the
log up to its cursor or was told of a gap. A delta of the session is in the log, or still awaits
its callback, or the session says that output is missing.
-/

namespace CodexBridge.Terminal

/-! ## Chunks -/

def chunkBytes (chunks : List (Nat × List UInt8)) : Nat :=
  (chunks.map fun chunk => chunk.2.length).sum

theorem chunkBytes_append (a b : List (Nat × List UInt8)) :
    chunkBytes (a ++ b) = chunkBytes a + chunkBytes b := by
  simp [chunkBytes]

theorem flatten_pieces {size fuel : Nat} (hsize : 0 < size) (data : List UInt8)
    (hfuel : data.length ≤ fuel) : (pieces size fuel data).flatten = data := by
  induction fuel generalizing data with
  | zero =>
    have hnil : data = [] := List.length_eq_zero_iff.mp (by omega)
    rw [hnil]
    rfl
  | succ fuel ih =>
    cases data with
    | nil => rfl
    | cons first rest =>
      rw [pieces, List.flatten_cons, ih, List.take_append_drop]
      rw [List.length_drop]
      rw [List.length_cons] at hfuel ⊢
      omega

theorem length_of_mem_pieces {size fuel : Nat} {data piece : List UInt8}
    (h : piece ∈ pieces size fuel data) : piece.length ≤ size := by
  induction fuel generalizing data with
  | zero => cases h
  | succ fuel ih =>
    cases data with
    | nil => cases h
    | cons first rest =>
      rw [pieces] at h
      cases List.mem_cons.mp h with
      | inl heq =>
        rw [heq, List.length_take]
        omega
      | inr hrest => exact ih hrest

theorem foldl_push (o : Output) (log : List (List UInt8)) :
    log.foldl Output.push o =
      { sequence := o.sequence + log.length
        sizeBytes := o.sizeBytes + chunkBytes (Backlog.numbered o.sequence log)
        totalBytes := o.totalBytes + log.flatten.length
        chunks := o.chunks ++ Backlog.numbered o.sequence log } := by
  induction log generalizing o with
  | nil => simp [Backlog.numbered, chunkBytes]
  | cons piece rest ih =>
    rw [List.foldl_cons, ih]
    simp only [Output.push, Backlog.numbered, chunkBytes, List.map_cons, List.sum_cons,
      List.length_cons, List.flatten_cons, List.length_append, List.append_assoc,
      List.singleton_append]
    congr 1
    · omega
    · omega
    · omega

/-- The oldest chunks go, but never the last one. -/
theorem trim_drop (size : Nat) (chunks : List (Nat × List UInt8))
    (hsize : size = chunkBytes chunks) (hsmall : ∀ chunk ∈ chunks, chunk.2.length ≤ keptBytes) :
    ∃ e, trim size chunks = (chunkBytes (chunks.drop e), chunks.drop e) ∧
      (e < chunks.length ∨ e = 0) := by
  induction chunks generalizing size with
  | nil =>
    rw [hsize]
    exact ⟨0, rfl, Or.inr rfl⟩
  | cons chunk rest ih =>
    unfold trim
    have hsum : size = chunk.2.length + chunkBytes rest := by
      rw [hsize]
      simp [chunkBytes]
    split
    · rename_i hlarge
      have hfirst := hsmall chunk List.mem_cons_self
      obtain ⟨e, htrim, hkept⟩ := ih (size - chunk.2.length) (by omega)
        fun other hother => hsmall other (List.mem_cons_of_mem chunk hother)
      have hmore : 0 < rest.length := by
        by_contra hnone
        have hnil : rest = [] := List.length_eq_zero_iff.mp (by omega)
        have hzero : chunkBytes rest = 0 := by
          rw [hnil]
          rfl
        omega
      refine ⟨e + 1, ?_, Or.inl ?_⟩
      · rw [htrim, List.drop_succ_cons]
      · rw [List.length_cons]
        omega
    · exact ⟨0, by rw [List.drop_zero, hsize], Or.inr rfl⟩

structure Kept (s : Session) : Prop where
  sequence : s.output.sequence = s.log.length
  size : s.output.sizeBytes = chunkBytes s.output.chunks
  small : ∀ piece ∈ s.log, piece.length ≤ pieceBytes
  chunks : ∃ dropped, s.output.chunks = (Backlog.numbered 0 s.log).drop dropped ∧
    (dropped < s.log.length ∨ dropped = 0)
  data : s.log.flatten = (s.appended.map Notification.data).flatten
  reader : s.reader.warned = true ∨
    (s.reader.cursor ≤ s.log.length ∧ s.reader.got = s.log.take s.reader.cursor)

theorem kept_fresh : Kept Session.fresh where
  sequence := rfl
  size := rfl
  small := by
    intro piece hpiece
    cases hpiece
  chunks := ⟨0, rfl, Or.inr rfl⟩
  data := rfl
  reader := Or.inr ⟨Nat.le_refl 0, rfl⟩

theorem Kept.congr {s t : Session} (h : Kept s) (houtput : t.output = s.output)
    (hlog : t.log = s.log) (happended : t.appended = s.appended)
    (hreader : t.reader = s.reader) : Kept t where
  sequence := by rw [houtput, hlog, h.sequence]
  size := by rw [houtput, h.size]
  small := by
    rw [hlog]
    exact h.small
  chunks := by
    rw [houtput, hlog]
    exact h.chunks
  data := by rw [hlog, happended, h.data]
  reader := by
    rw [hlog, hreader]
    exact h.reader

variable {s : Session}

theorem Kept.append (h : Kept s) (data : List UInt8) :
    let log := s.log ++ pieces pieceBytes data.length data
    (s.output.append data).sequence = log.length ∧
      (s.output.append data).sizeBytes = chunkBytes (s.output.append data).chunks ∧
      ∃ dropped, (s.output.append data).chunks = (Backlog.numbered 0 log).drop dropped ∧
        (dropped < log.length ∨ dropped = 0) := by
  obtain ⟨dropped, hchunks, hdropped⟩ := h.chunks
  dsimp only
  have hbound : dropped ≤ (Backlog.numbered 0 s.log).length := by
    rw [Backlog.length_numbered]
    omega
  have hall : s.output.chunks ++ Backlog.numbered s.log.length
      (pieces pieceBytes data.length data) =
      (Backlog.numbered 0 (s.log ++ pieces pieceBytes data.length data)).drop dropped := by
    rw [Backlog.numbered_append, List.drop_append_of_le_length hbound, hchunks, Nat.zero_add]
  have hsmall : ∀ chunk ∈ (Backlog.numbered 0
      (s.log ++ pieces pieceBytes data.length data)).drop dropped,
      chunk.2.length ≤ keptBytes := by
    intro chunk hchunk
    have hlimit : pieceBytes ≤ keptBytes := by decide
    cases List.mem_append.mp (Backlog.snd_mem_of_mem_numbered (List.mem_of_mem_drop hchunk)) with
    | inl hold => exact Nat.le_trans (h.small _ hold) hlimit
    | inr hnew => exact Nat.le_trans (length_of_mem_pieces hnew) hlimit
  have hsize : s.output.sizeBytes + chunkBytes (Backlog.numbered s.log.length
      (pieces pieceBytes data.length data)) =
      chunkBytes ((Backlog.numbered 0
        (s.log ++ pieces pieceBytes data.length data)).drop dropped) := by
    rw [h.size, ← chunkBytes_append, hall]
  obtain ⟨e, htrim, hkept⟩ := trim_drop _ _ hsize hsmall
  unfold Output.append
  dsimp only
  rw [foldl_push, h.sequence]
  dsimp only
  rw [hall, htrim]
  refine ⟨?_, rfl, dropped + e, ?_, ?_⟩
  · rw [List.length_append]
  · rw [List.drop_drop]
  · rw [List.length_drop, Backlog.length_numbered] at hkept
    rw [List.length_append] at hkept ⊢
    omega

variable {n : Notification}

theorem Kept.stopAsync (h : Kept s) (starts : Bool) (message : Message) (dropped : Bool) :
    Kept (s.stopAsync starts message dropped) := by
  unfold Session.stopAsync
  split
  · exact h.congr rfl rfl rfl rfl
  · exact h

theorem Kept.take (h : Kept s) (maximumBytes : Nat) (starts : Bool)
    {data : List UInt8} (hn : n.delta = .bytes data) :
    Kept (s.take maximumBytes starts n data) := by
  obtain ⟨hsequence, hsize, hchunks⟩ := h.append data
  have htaken : Kept { s with
      state := .running
      message := .workspace
      output := s.output.append data
      log := s.log ++ pieces pieceBytes data.length data
      appended := s.appended ++ [n] } := by
    constructor
    · exact hsequence
    · exact hsize
    · intro piece hpiece
      cases List.mem_append.mp hpiece with
      | inl hold => exact h.small piece hold
      | inr hnew => exact length_of_mem_pieces hnew
    · exact hchunks
    · have hdata : n.data = data := by rw [Notification.data, hn]
      dsimp only
      rw [List.flatten_append, h.data, flatten_pieces (by decide) data (Nat.le_refl _),
        List.map_append, List.flatten_append]
      simp [hdata]
    · cases h.reader with
      | inl hwarned => exact Or.inl hwarned
      | inr hgot =>
        refine Or.inr ⟨?_, ?_⟩
        · dsimp only
          rw [List.length_append]
          omega
        · dsimp only
          rw [List.take_append_of_le_length hgot.1]
          exact hgot.2
  unfold Session.take
  dsimp only
  split
  · exact htaken.stopAsync starts .outputLimit false
  · exact htaken

/-- An answer that tells of no gap has what comes next in the log. -/
theorem Kept.read (h : Kept s) {cursor : Nat} (htold : (s.read cursor).truncated = false) :
    (s.read cursor).chunks.map Prod.snd = (s.log.drop cursor).take 4 ∧
      (s.read cursor).cursor = cursor + ((s.log.drop cursor).take 4).length := by
  obtain ⟨dropped, hchunks, hdropped⟩ := h.chunks
  have hnext : dropped ≤ cursor := by
    cases hdropped with
    | inr hzero => omega
    | inl hlt =>
      unfold Session.read at htold
      rw [hchunks, Backlog.numbered_drop, Nat.zero_add, List.drop_eq_getElem_cons hlt,
        Backlog.numbered] at htold
      simp only [decide_eq_false_iff_not, Nat.add_sub_cancel, Nat.not_lt] at htold
      exact htold
  have hpage : (s.read cursor).chunks = Backlog.numbered cursor ((s.log.drop cursor).take 4) := by
    unfold Session.read
    dsimp only
    rw [Backlog.after_kept hchunks hnext, Backlog.take_numbered]
  refine ⟨?_, ?_⟩
  · rw [hpage, Backlog.map_snd_numbered]
  have hcursor : (s.read cursor).cursor =
      ((s.read cursor).chunks.getLast?.map Prod.fst).getD cursor := rfl
  rw [hcursor, hpage, Backlog.getLast?_numbered]

theorem Kept.readsOn (h : Kept s) : Kept s.readsOn := by
  constructor
  · exact h.sequence
  · exact h.size
  · exact h.small
  · exact h.chunks
  · exact h.data
  · unfold Session.readsOn
    dsimp only
    cases h.reader with
    | inl hwarned =>
      rw [hwarned]
      exact Or.inl rfl
    | inr hgot =>
      cases htold : (s.read s.reader.cursor).truncated with
      | true => exact Or.inl (Bool.or_true _)
      | false =>
        obtain ⟨hpage, hcursor⟩ := h.read htold
        refine Or.inr ⟨?_, ?_⟩
        · rw [hcursor, List.length_take, List.length_drop]
          omega
        · rw [hcursor, hpage, hgot.2, List.take_add]
          congr 1
          rw [List.length_take, ← List.take_eq_take_min]

theorem Kept.read_empty (h : Kept s) (htold : (s.read s.reader.cursor).truncated = false)
    (hempty : (s.read s.reader.cursor).chunks = []) :
    s.reader.warned = true ∨ s.reader.got = s.log := by
  cases h.reader with
  | inl hwarned => exact Or.inl hwarned
  | inr hgot =>
    have hpage := (h.read htold).1
    rw [hempty, List.map_nil] at hpage
    have hrest := congrArg List.length hpage
    rw [List.length_nil, List.length_take, List.length_drop] at hrest
    have hlength : s.log.length ≤ s.reader.cursor := by omega
    rw [hgot.2, List.take_of_length_le hlength]
    exact Or.inr rfl

/-! ## Nothing goes without a word -/

def Message.tells : Message → Bool
  | .outputLimit => true
  | .invalidOutput => true
  | _ => false

/-- The session says that output is missing, or a thread is on its way that makes it do so. -/
def Session.mayTell (s : Session) : Bool := s.message.tells || s.stops.any AsyncStop.dropped

def Session.waiting (s : Session) : List Notification :=
  match s.client with
  | none => []
  | some c => c.waiting

def Notification.isBytes (n : Notification) : Bool :=
  match n.delta with
  | .bytes _ => true
  | _ => false

structure Tells (s : Session) : Prop where
  ended : s.message.tells = true → s.isOver = true
  drops : ∀ thread ∈ s.stops, thread.dropped = true → thread.message.tells = true
  received : s.mayTell = true ∨ s.received = (s.appended ++ s.waiting).filter Notification.isDue

theorem tells_fresh : Tells Session.fresh where
  ended := by
    intro htells
    cases htells
  drops := by
    intro thread hthread
    cases hthread
  received := Or.inr rfl

theorem Tells.congr {s t : Session} (h : Tells s) (hmessage : t.message = s.message)
    (hover : s.isOver = true → t.isOver = true) (hstops : t.stops = s.stops)
    (hreceived : t.received = s.received) (happended : t.appended = s.appended)
    (hwaiting : s.mayTell = true ∨
      t.waiting.filter Notification.isDue = s.waiting.filter Notification.isDue) : Tells t where
  ended := by
    rw [hmessage]
    intro htells
    exact hover (h.ended htells)
  drops := by
    rw [hstops]
    exact h.drops
  received := by
    have hmay : t.mayTell = s.mayTell := by rw [Session.mayTell, Session.mayTell, hmessage, hstops]
    rw [hmay, hreceived, happended]
    cases h.received with
    | inl htells => exact Or.inl htells
    | inr heq =>
      cases hwaiting with
      | inl htells => exact Or.inl htells
      | inr hsame =>
        rw [List.filter_append, hsame, ← List.filter_append]
        exact Or.inr heq

theorem tells_stopAsync {message : Message} (ended : s.message.tells = true → s.isOver = true)
    (drops : ∀ thread ∈ s.stops, thread.dropped = true → thread.message.tells = true)
    (hmessage : message.tells = true) : Tells (s.stopAsync true message true) where
  ended := ended
  drops := by
    intro thread hthread hdropped
    cases List.mem_append.mp hthread with
    | inl hold => exact drops thread hold hdropped
    | inr hnew =>
      rw [List.mem_singleton.mp hnew]
      exact hmessage
  received := by
    left
    simp [Session.mayTell, Session.stopAsync]

theorem Tells.stopStarts (h : Tells s) (message : Message) :
    Tells (s.stopAsync true message false) where
  ended := h.ended
  drops := by
    intro thread hthread hdropped
    cases List.mem_append.mp hthread with
    | inl hold => exact h.drops thread hold hdropped
    | inr hnew =>
      rw [List.mem_singleton.mp hnew] at hdropped
      cases hdropped
  received := by
    have hmay : (s.stopAsync true message false).mayTell = s.mayTell := by
      simp [Session.mayTell, Session.stopAsync]
    rw [hmay]
    exact h.received

theorem Tells.stopLater (h : Tells s) (starts : Bool) (message : Message) :
    Tells (s.stopAsync starts message false) := by
  cases starts with
  | false => exact h
  | true => exact h.stopStarts message

def Session.taken (s : Session) (c : Client) : Session :=
  { s with client := some { c with current := none } }

variable {c : Client}

theorem waiting_taken (hc : s.client = some c)
    (hn : c.current = some n) : s.waiting = n :: (s.taken c).waiting := by
  simp [Session.waiting, Session.taken, Client.waiting, hc, hn]

section

variable (h : Tells s)

include h

theorem Tells.not_tells (hover : s.isOver = false) : s.message.tells = false := by
  cases htells : s.message.tells with
  | false => rfl
  | true =>
    have hyes := h.ended htells
    rw [hover] at hyes
    cases hyes

theorem Tells.take {c : Client}
    (maximumBytes : Nat) (starts : Bool) (data : List UInt8) (hc : s.client = some c)
    (hn : c.current = some n) (hover : s.isOver = false) :
    Tells ((s.taken c).take maximumBytes starts n data) := by
  have hmessage := h.not_tells hover
  have htaken : Tells { s.taken c with
      state := .running
      message := .workspace
      output := (s.taken c).output.append data
      log := (s.taken c).log ++ pieces pieceBytes data.length data
      appended := s.appended ++ [n] } := by
    constructor
    · intro htells
      cases htells
    · exact h.drops
    · cases h.received with
      | inl htells =>
        rw [Session.mayTell, hmessage, Bool.false_or] at htells
        left
        rw [Session.mayTell]
        exact htells
      | inr heq =>
        right
        dsimp only
        rw [waiting_taken hc hn] at heq
        rw [List.append_assoc, List.singleton_append]
        exact heq
  unfold Session.take
  dsimp only
  split
  · exact htaken.stopLater starts .outputLimit
  · exact htaken

/-- A callback drops a delta that is due only if the session says so. -/
theorem Tells.onOutput {c : Client}
    (maximumBytes : Nat) (starts : Bool) (hc : s.client = some c) (hn : c.current = some n)
    (hclean : (n.isDue && !s.mayTell && if n.isBytes then s.isOver else !starts) = false) :
    Tells ((s.taken c).onOutput maximumBytes starts n) := by
  have hskips : (n.isDue && !s.mayTell) = false → Tells (s.taken c) := by
    intro hcases
    apply h.congr (t := s.taken c) rfl id rfl rfl rfl
    cases Bool.and_eq_false_iff.mp hcases with
    | inl hnot =>
      rw [waiting_taken hc hn, List.filter_cons_of_neg (by simp [hnot])]
      exact Or.inr rfl
    | inr htells =>
      left
      simpa using htells
  unfold Session.onOutput
  split
  · rename_i hother
    have hown : n.own = false := by simpa using hother
    apply hskips
    rw [Notification.isDue, hown, Bool.false_and, Bool.false_and]
  -- without its thread, a delta that cannot be read is dropped like one that comes too late
  have hstops : n.isBytes = false → ∀ message : Message, message.tells = true →
      Tells ((s.taken c).stopAsync starts message true) := by
    intro hbytes message htells
    cases starts with
    | true => exact tells_stopAsync h.ended h.drops htells
    | false =>
      apply hskips
      rw [hbytes] at hclean
      simpa using hclean
  cases hdelta : n.delta with
  | oversized => exact hstops (by rw [Notification.isBytes, hdelta]) .outputLimit rfl
  | invalid => exact hstops (by rw [Notification.isBytes, hdelta]) .invalidOutput rfl
  | bytes data =>
    have hbytes : n.isBytes = true := by rw [Notification.isBytes, hdelta]
    dsimp only
    split
    · rename_i hover
      have hyes : s.isOver = true := hover
      apply hskips
      rw [hyes, hbytes] at hclean
      simpa using hclean
    · rename_i hover
      have hnot : s.isOver = false := Bool.not_eq_true _ ▸ hover
      exact h.take maximumBytes starts data hc hn hnot

theorem Tells.closes (hover : s.isOver = false) (message : Message) :
    Tells { s with state := .closing, message := message } where
  ended := fun _ => rfl
  drops := h.drops
  received := by
    cases h.received with
    | inl htells =>
      rw [Session.mayTell, h.not_tells hover, Bool.false_or] at htells
      left
      rw [Session.mayTell, htells, Bool.or_true]
    | inr heq => exact Or.inr heq

/-- A thread of `_stop_async` has run, of no dropped delta or after the word. -/
theorem Tells.erase {index : Nat} {thread : AsyncStop} (hthread : s.stops[index]? = some thread)
    (htold : thread.dropped = false ∨ s.message.tells = true) :
    Tells { s with stops := s.stops.eraseIdx index } where
  ended := h.ended
  drops := fun other hother => h.drops other (List.mem_of_mem_eraseIdx hother)
  received := by
    cases h.received with
    | inr heq => exact Or.inr heq
    | inl htells =>
      left
      cases htold with
      | inr hmessage => rw [Session.mayTell, hmessage, Bool.true_or]
      | inl hnot =>
        rw [Session.mayTell, Bool.or_eq_true] at htells ⊢
        cases htells with
        | inl hmessage => exact Or.inl hmessage
        | inr hany =>
          right
          obtain ⟨other, hother, hdropped⟩ := List.any_eq_true.mp hany
          obtain ⟨j, hj, heq⟩ := List.mem_iff_getElem.mp hother
          apply List.any_eq_true.mpr
          refine ⟨other, List.mem_eraseIdx_iff_getElem?.mpr ⟨j, ?_, ?_⟩, hdropped⟩
          · intro hsame
            rw [← hsame, List.getElem?_eq_getElem hj, heq] at hthread
            rw [← Option.some.inj hthread, hdropped] at hnot
            cases hnot
          · rw [List.getElem?_eq_getElem hj, heq]

theorem Tells.eraseStop (hover : s.isOver = false) {index : Nat}
    {thread : AsyncStop} (hthread : s.stops[index]? = some thread) :
    Tells { s with
      stops := s.stops.eraseIdx index, state := .closing, message := thread.message } := by
  cases hdropped : thread.dropped with
  | false => exact (h.erase hthread (Or.inl hdropped)).closes hover thread.message
  | true =>
    constructor
    · intro _
      rfl
    · exact fun other hother => h.drops other (List.mem_of_mem_eraseIdx hother)
    · left
      have htells := h.drops thread (List.mem_of_getElem? hthread) hdropped
      rw [Session.mayTell, htells, Bool.true_or]

theorem Tells.commandEnds (result : Option (Option Int))
    (hopen : s.state ≠ .closed) : Tells (s.commandEnds result) := by
  by_cases hclosing : s.state = .closing
  · have hmessage : (s.commandEnds result).message = s.message := by
      cases result with
      | none => simp [Session.commandEnds, hclosing]
      | some code => simp [Session.commandEnds, hclosing]
    cases result with
    | none => exact h.congr hmessage id rfl rfl rfl (Or.inr rfl)
    | some code => exact h.congr hmessage id rfl rfl rfl (Or.inr rfl)
  · have hover : s.isOver = false := by simp [Session.isOver, hclosing, hopen]
    have hnot : (s.commandEnds result).message.tells = false := by
      cases result with
      | none => simp [Session.commandEnds, hclosing, Message.tells]
      | some code => simp [Session.commandEnds, hclosing, Message.tells]
    have hrest : (s.commandEnds result).stops = s.stops ∧
        (s.commandEnds result).received = s.received ∧
        (s.commandEnds result).appended = s.appended ∧
        (s.commandEnds result).waiting = s.waiting := by
      cases result with
      | none => exact ⟨rfl, rfl, rfl, rfl⟩
      | some code => exact ⟨rfl, rfl, rfl, rfl⟩
    constructor
    · intro htells
      rw [hnot] at htells
      cases htells
    · rw [hrest.1]
      exact h.drops
    · rw [Session.mayTell, hnot, hrest.1, hrest.2.1, hrest.2.2.1, hrest.2.2.2]
      cases h.received with
      | inr heq => exact Or.inr heq
      | inl htells =>
        rw [Session.mayTell, h.not_tells hover] at htells
        exact Or.inl htells

end

/-- A notification that is due is among those received and those that wait. -/
theorem Tells.receives {s t : Session} (h : Tells s)
    (hc : s.client = some c) (ht : World.receives s c n = some t) : Tells t := by
  unfold World.receives at ht
  rcases Option.ite_none_left_eq_some.mp ht with ⟨_, ht⟩
  rw [← Option.some.inj ht]
  constructor
  · exact h.ended
  · exact h.drops
  · cases h.received with
    | inl htells => exact Or.inl htells
    | inr heq =>
      right
      have hwaiting : s.waiting = c.waiting := by rw [Session.waiting, hc]
      rw [hwaiting] at heq
      dsimp only
      rw [Session.waiting]
      dsimp only
      rw [Client.waiting] at heq ⊢
      dsimp only
      rw [← List.append_assoc, ← List.append_assoc, List.filter_append,
        List.append_assoc, ← heq]
      split
      · rename_i hdue
        rw [List.filter_cons_of_pos hdue, List.filter_nil]
      · rename_i hdue
        rw [List.filter_cons_of_neg hdue, List.filter_nil, List.append_nil]

theorem filter_waiting (hc : s.client = some c)
    (hnone : c.queue.any Notification.isDue = false) (d : Client) (hd : d.current = c.current)
    (hempty : d.queue = []) : d.waiting.filter Notification.isDue =
      s.waiting.filter Notification.isDue := by
  have hqueue : c.queue.filter Notification.isDue = [] := by
    rw [List.filter_eq_nil_iff]
    intro n hn hdue
    have hany : c.queue.any Notification.isDue = true := List.any_eq_true.mpr ⟨n, hn, hdue⟩
    rw [hnone] at hany
    cases hany
  unfold Session.waiting
  rw [hc]
  dsimp only
  rw [Client.waiting, Client.waiting, List.filter_append, List.filter_append, hd, hempty, hqueue,
    List.filter_nil]

end CodexBridge.Terminal
