import CodexBridge.Mcp.StdioReader
import Mathlib.Data.List.Forall2

/-! # Framing and read boundaries

The limit on a message is tested on the whole buffer before its lines are cut off. So a message
close to the limit is refused when enough of what follows arrives with its end, and a message of
exactly the limit always.
-/

namespace CodexBridge.Mcp.Stdio

/-! ## Lines -/

def joined (lines : List (List UInt8)) : List UInt8 := lines.flatMap (· ++ [newline])

@[simp] theorem joined_nil : joined [] = [] := rfl

@[simp] theorem joined_cons (line : List UInt8) (lines : List (List UInt8)) :
    joined (line :: lines) = line ++ newline :: joined lines := by
  simp [joined]

theorem cutLine_none {bytes : List UInt8} : cutLine bytes = none ↔ newline ∉ bytes := by
  induction bytes with
  | nil => simp [cutLine]
  | cons b bytes ih =>
    by_cases hb : b = newline
    · simp [cutLine, hb]
    · have hne : newline ≠ b := fun h => hb h.symm
      simp [cutLine, hb, hne, ih]

theorem cutLine_line {line : List UInt8} (hline : newline ∉ line) (rest : List UInt8) :
    cutLine (line ++ newline :: rest) = some (line, rest) := by
  induction line with
  | nil => simp [cutLine]
  | cons b line ih =>
    have hb : b ≠ newline := fun h => hline (by simp [h])
    have hrest : newline ∉ line := fun h => hline (List.mem_cons_of_mem b h)
    simp [cutLine, hb, ih hrest]

theorem cutLine_some {bytes line rest : List UInt8} (h : cutLine bytes = some (line, rest)) :
    bytes = line ++ newline :: rest ∧ newline ∉ line := by
  induction bytes generalizing line with
  | nil => cases h
  | cons b bytes ih =>
    by_cases hb : b = newline
    · simp only [cutLine, hb, if_true, Option.some.injEq, Prod.mk.injEq] at h
      rw [← h.1, ← h.2, hb]
      exact ⟨rfl, List.not_mem_nil⟩
    simp only [cutLine, hb, if_false, Option.map_eq_some_iff] at h
    obtain ⟨parts, hparts, heq⟩ := h
    have hfirst : b :: parts.1 = line := congrArg Prod.fst heq
    have hrest : parts.2 = rest := congrArg Prod.snd heq
    have hparts' : cutLine bytes = some (parts.1, rest) := by rw [hparts, ← hrest]
    have hprior := ih hparts'
    have hne : newline ≠ b := fun h => hb h.symm
    rw [← hfirst, List.cons_append, ← hprior.1]
    exact ⟨rfl, by simp [hne, hprior.2]⟩

section

variable (loads : List UInt8 → Option Json)

/-- The messages of a stream and whether it breaks the protocol, one line after the other: a line
and its end are at most `maxMessage` bytes. -/
def framed (bytes : List UInt8) : List Json × Bool :=
  match _ : cutLine bytes with
  | none => ([], decide (maxMessage < bytes.length))
  | some (line, rest) =>
    if maxMessage ≤ line.length then ([], true)
    else
      match message? loads line with
      | none => ([], true)
      | some value => (value :: (framed rest).1, (framed rest).2)
termination_by bytes.length
decreasing_by all_goals exact cutLine_length ‹_›

theorem framed_none {bytes : List UInt8} (h : cutLine bytes = none) :
    framed loads bytes = ([], decide (maxMessage < bytes.length)) := by
  rw [framed]
  split
  · rfl
  rename_i hcut
  rw [h] at hcut
  cases hcut

theorem framed_some {bytes line rest : List UInt8} (h : cutLine bytes = some (line, rest)) :
    framed loads bytes =
      if maxMessage ≤ line.length then ([], true)
      else match message? loads line with
        | none => ([], true)
        | some value => (value :: (framed loads rest).1, (framed loads rest).2) := by
  rw [framed]
  split
  · rename_i hcut
    rw [h] at hcut
    cases hcut
  rename_i hcut
  rw [h] at hcut
  cases hcut
  rfl

/-- A line the reader passes on, whatever the reads. -/
structure Accepted (line : List UInt8) (value : Json) : Prop where
  complete : newline ∉ line
  short : line.length < maxMessage
  message : message? loads line = some value

variable {loads}

variable {line : List UInt8}

theorem framed_accepted {value : Json} (h : Accepted loads line value) (rest : List UInt8) :
    framed loads (line ++ newline :: rest) =
      (value :: (framed loads rest).1, (framed loads rest).2) := by
  have hshort : ¬ maxMessage ≤ line.length := Nat.not_le.mpr h.short
  rw [framed_some loads (cutLine_line h.complete rest), if_neg hshort, h.message]

def AllAccepted (loads : List UInt8 → Option Json) (lines : List (List UInt8))
    (values : List Json) : Prop := List.Forall₂ (Accepted loads) lines values

variable {lines : List (List UInt8)} {values : List Json}

theorem framed_joined {lines : List (List UInt8)}
    (h : AllAccepted loads lines values) (rest : List UInt8) :
    framed loads (joined lines ++ rest) =
      (values ++ (framed loads rest).1, (framed loads rest).2) := by
  induction h with
  | nil => rfl
  | cons hfirst _ ih =>
    rw [joined_cons, List.append_assoc, List.cons_append, framed_accepted hfirst, ih]
    rfl

def Reader.outcome (s : Reader) : List Json × Bool :=
  (s.messages, decide (s.stop = some .protocolError))

/-- Whole lines go out of a buffer within the limit, or the stream is broken there. -/
theorem drain_spec (loads : List UInt8 → Option Json) (buffer : List UInt8) (messages : List Json)
    (hsmall : buffer.length ≤ maxMessage) (rest : List UInt8) :
    (∃ values after, framed loads (buffer ++ rest) = (values, true) ∧
      Reader.drain loads buffer messages = ⟨after, messages ++ values, some .protocolError⟩) ∨
    ∃ lines values pending, buffer = joined lines ++ pending ∧ AllAccepted loads lines values ∧
      newline ∉ pending ∧
      Reader.drain loads buffer messages = ⟨pending, messages ++ values, none⟩ := by
  induction buffer, messages using Reader.drain.induct loads with
  | case1 buffer messages hcut =>
    have hopen := cutLine_none.mp hcut
    exact .inr ⟨[], [], buffer, rfl, .nil, hopen, by
      rw [Reader.drain_none loads hcut, List.append_nil]⟩
  | case2 buffer messages line after hcut hmessage =>
    have hbuffer := cutLine_some hcut
    have hshort : ¬ maxMessage ≤ line.length := by
      rw [hbuffer.1, List.length_append, List.length_cons] at hsmall
      omega
    refine .inl ⟨[], after, ?_, ?_⟩
    · rw [hbuffer.1, List.append_assoc, List.cons_append,
        framed_some loads (cutLine_line hbuffer.2 _), if_neg hshort, hmessage]
    · rw [Reader.drain_some loads hcut, hmessage, List.append_nil]
  | case3 buffer messages line after hcut value hmessage ih =>
    have hbuffer := cutLine_some hcut
    rw [hbuffer.1, List.length_append, List.length_cons] at hsmall
    have hfirst : Accepted loads line value := ⟨hbuffer.2, by omega, hmessage⟩
    have hstep : Reader.drain loads buffer messages =
        Reader.drain loads after (messages ++ [value]) := by
      rw [Reader.drain_some loads hcut, hmessage]
    rw [hstep]
    cases ih (by omega) with
    | inl hbroken =>
      obtain ⟨values, left, hframed, hdrain⟩ := hbroken
      refine .inl ⟨value :: values, left, ?_, ?_⟩
      · rw [hbuffer.1, List.append_assoc, List.cons_append, framed_accepted hfirst, hframed]
      · rw [hdrain, List.append_assoc]
        rfl
    | inr hlines =>
      obtain ⟨lines, values, pending, hafter, haccepted, hopen, hdrain⟩ := hlines
      refine .inr ⟨line :: lines, value :: values, pending, ?_, .cons hfirst haccepted, hopen,
        ?_⟩
      · rw [hbuffer.1, hafter, joined_cons, List.append_assoc]
        rfl
      · rw [hdrain, List.append_assoc]
        rfl

theorem read_stopped {s : Reader} (h : s.stop.isSome) (chunk : List UInt8) :
    s.read loads chunk = s := by
  simp [Reader.read, h]

theorem reads_stopped (loads : List UInt8 → Option Json) {s : Reader} (h : s.stop.isSome)
    (chunks : List (List UInt8)) : s.reads loads chunks = s := by
  induction chunks with
  | nil => rfl
  | cons chunk chunks ih =>
    rw [Reader.reads, List.foldl_cons, read_stopped h]
    exact ih

/-- No message that the reader comes to, near enough to the limit for a read of `size` bytes to
pass it, has more than the limit of the stream from its first byte on. -/
def Clear (loads : List UInt8 → Option Json) (size : Nat) (stream : List UInt8) : Prop :=
  ∀ lines values line value rest, stream = joined lines ++ (line ++ newline :: rest) →
    AllAccepted loads lines values → Accepted loads line value →
    maxMessage < line.length + size → (line ++ newline :: rest).length ≤ maxMessage

theorem Clear.rest {size : Nat} {lines : List (List UInt8)}
    {rest : List UInt8} (h : Clear loads size (joined lines ++ rest))
    (hlines : AllAccepted loads lines values) : Clear loads size rest := by
  intro more moreValues line value after hrest hmore hline hnear
  refine h (lines ++ more) (values ++ moreValues) line value after ?_ ?_ hline hnear
  · rw [hrest, joined, joined, joined, List.flatMap_append, List.append_assoc]
  · exact List.rel_append hlines hmore

theorem length_pending {pending more line rest : List UInt8} (hopen : newline ∉ pending)
    (h : pending ++ more = line ++ newline :: rest) : pending.length ≤ line.length := by
  cases List.append_eq_append_iff.mp h with
  | inl hline =>
    obtain ⟨middle, hline, -⟩ := hline
    rw [hline, List.length_append]
    exact Nat.le_add_right _ _
  | inr hpending =>
    obtain ⟨middle, hpending, hend⟩ := hpending
    cases middle with
    | nil => simp [hpending]
    | cons b middle =>
      have hb : newline = b := by
        rw [List.cons_append] at hend
        exact (List.cons.inj hend).1
      exact absurd (by simp [hpending, hb]) hopen

/-- A read that passes the limit breaks a stream that is clear for it. -/
theorem framed_over {size : Nat} {pending more : List UInt8}
    (hclear : Clear loads size (pending ++ more)) (hopen : newline ∉ pending)
    (hover : maxMessage < (pending ++ more).length) (hnear : maxMessage < pending.length + size) :
    framed loads (pending ++ more) = ([], true) := by
  cases hcut : cutLine (pending ++ more) with
  | none => rw [framed_none loads hcut, decide_eq_true hover]
  | some parts =>
    have hparts : cutLine (pending ++ more) = some (parts.1, parts.2) := hcut
    have hstream := cutLine_some hparts
    rw [framed_some loads hparts]
    by_cases hlong : maxMessage ≤ parts.1.length
    · rw [if_pos hlong]
    rw [if_neg hlong]
    cases hmessage : message? loads parts.1 with
    | none => rfl
    | some value =>
      have haccepted : Accepted loads parts.1 value :=
        ⟨hstream.2, by omega, hmessage⟩
      have hwithin := length_pending hopen hstream.1
      have hfits := hclear [] [] parts.1 value parts.2 hstream.1 .nil haccepted (by omega)
      rw [← hstream.1] at hfits
      omega

/-- Reads of at most `size` bytes give what a stream clear for them says. -/
theorem reads_framed (loads : List UInt8 → Option Json) (size : Nat) (chunks : List (List UInt8))
    (hchunks : ∀ chunk ∈ chunks, chunk ≠ [] ∧ chunk.length ≤ size) (pending : List UInt8)
    (messages : List Json) (hopen : newline ∉ pending) (hpending : pending.length ≤ maxMessage)
    (hclear : Clear loads size (pending ++ chunks.flatten)) :
    (Reader.reads loads ⟨pending, messages, none⟩ chunks).outcome =
      (messages ++ (framed loads (pending ++ chunks.flatten)).1,
        (framed loads (pending ++ chunks.flatten)).2) := by
  induction chunks generalizing pending messages with
  | nil =>
    have hlast : framed loads pending = ([], false) := by
      rw [framed_none loads (cutLine_none.mpr hopen), decide_eq_false (Nat.not_lt.mpr hpending)]
    simp [Reader.reads, Reader.outcome, hlast]
  | cons chunk chunks ih =>
    have hfirst := hchunks chunk List.mem_cons_self
    have hrest : ∀ c ∈ chunks, c ≠ [] ∧ c.length ≤ size :=
      fun c hc => hchunks c (List.mem_cons_of_mem chunk hc)
    have hflat : pending ++ (chunk :: chunks).flatten =
        (pending ++ chunk) ++ chunks.flatten := by simp
    rw [hflat] at hclear ⊢
    rw [Reader.reads, List.foldl_cons]
    by_cases hover : maxMessage < (pending ++ chunk).length
    · have hread : Reader.read loads ⟨pending, messages, none⟩ chunk =
          ⟨pending ++ chunk, messages, some .protocolError⟩ := by
        simp only [Reader.read, Option.isSome_none, Bool.false_eq_true, if_false, hfirst.1,
          hover, if_true]
      have hframed : framed loads ((pending ++ chunk) ++ chunks.flatten) = ([], true) := by
        rw [List.append_assoc] at hclear ⊢
        apply framed_over hclear hopen
        · rw [← List.append_assoc, List.length_append]
          omega
        · rw [List.length_append] at hover
          omega
      have hstopped := reads_stopped loads
        (s := ⟨pending ++ chunk, messages, some .protocolError⟩) rfl chunks
      rw [Reader.reads] at hstopped
      rw [hread, hstopped, hframed]
      simp [Reader.outcome]
    · have hread : Reader.read loads ⟨pending, messages, none⟩ chunk =
          Reader.drain loads (pending ++ chunk) messages := by
        simp only [Reader.read, Option.isSome_none, Bool.false_eq_true, if_false, hfirst.1,
          hover]
      rw [hread]
      cases drain_spec loads (pending ++ chunk) messages (by omega) chunks.flatten with
      | inl hbroken =>
        obtain ⟨values, after, hframed, hdrain⟩ := hbroken
        have hstopped := reads_stopped loads
          (s := ⟨after, messages ++ values, some .protocolError⟩) rfl chunks
        rw [Reader.reads] at hstopped
        rw [hdrain, hstopped, hframed]
        simp [Reader.outcome]
      | inr hlines =>
        obtain ⟨lines, values, left, hbuffer, haccepted, hleft, hdrain⟩ := hlines
        rw [hbuffer, List.append_assoc] at hclear ⊢
        have hsmall : left.length ≤ maxMessage := by
          rw [hbuffer, List.length_append] at hover
          omega
        have hafter := ih hrest left (messages ++ values) hleft hsmall (hclear.rest haccepted)
        rw [← hbuffer, hdrain]
        rw [Reader.reads] at hafter
        rw [hafter, framed_joined haccepted, List.append_assoc]

def bytewise (bytes : List UInt8) : List (List UInt8) := bytes.map fun b => [b]

@[simp] theorem flatten_bytewise (bytes : List UInt8) : (bytewise bytes).flatten = bytes := by
  induction bytes with
  | nil => rfl
  | cons b bytes ih => simpa [bytewise] using ih

theorem bytewise_append (as bs : List UInt8) :
    bytewise (as ++ bs) = bytewise as ++ bytewise bs := List.map_append

theorem mem_bytewise {bytes chunk : List UInt8} (h : chunk ∈ bytewise bytes) :
    chunk ≠ [] ∧ chunk.length ≤ 1 := by
  obtain ⟨b, -, rfl⟩ := List.mem_map.mp h
  exact ⟨List.cons_ne_nil b [], Nat.le_refl 1⟩

theorem clear_one (stream : List UInt8) : Clear loads 1 stream := by
  intro lines values line value rest _ _ hline hnear
  have hshort := hline.short
  omega

theorem reads_append (s : Reader) (a b : List (List UInt8)) :
    s.reads loads (a ++ b) = (s.reads loads a).reads loads b := List.foldl_append

theorem bytewise_framed (stream : List UInt8) :
    (Reader.new.reads loads (bytewise stream)).outcome = framed loads stream := by
  have hreads := reads_framed loads 1 (bytewise stream)
    (fun _ => mem_bytewise) [] [] List.not_mem_nil (Nat.zero_le _) (clear_one _)
  rw [List.nil_append, flatten_bytewise, List.nil_append] at hreads
  exact hreads

theorem reads_open (loads : List UInt8 → Option Json) (pending bytes : List UInt8)
    (messages : List Json) (hopen : newline ∉ pending ++ bytes)
    (hsmall : (pending ++ bytes).length ≤ maxMessage) :
    Reader.reads loads ⟨pending, messages, none⟩ (bytewise bytes) =
      ⟨pending ++ bytes, messages, none⟩ := by
  induction bytes generalizing pending with
  | nil => simp [Reader.reads, bytewise]
  | cons b bytes ih =>
    have hsplit : pending ++ b :: bytes = (pending ++ [b]) ++ bytes := by simp
    rw [hsplit] at hopen hsmall ⊢
    have hfirst : newline ∉ pending ++ [b] := fun h => hopen (List.mem_append_left bytes h)
    have hroom : ¬ maxMessage < (pending ++ [b]).length := by
      rw [List.length_append] at hsmall
      omega
    have hread : Reader.read loads ⟨pending, messages, none⟩ [b] =
        ⟨pending ++ [b], messages, none⟩ := by
      simp only [Reader.read, Option.isSome_none, Bool.false_eq_true, if_false,
        List.cons_ne_nil, hroom, Reader.drain_none loads (cutLine_none.mpr hfirst)]
    have hrest := ih (pending ++ [b]) hopen hsmall
    rw [← hrest, ← hread]
    rfl

theorem reads_accepted {value : Json} (h : Accepted loads line value) (messages : List Json) :
    Reader.reads loads ⟨[], messages, none⟩ (bytewise (line ++ [newline])) =
      ⟨[], messages ++ [value], none⟩ := by
  have hshort := h.short
  have hline := reads_open loads [] line messages (by simpa using h.complete)
    (by simpa using Nat.le_of_lt h.short)
  have hroom : ¬ maxMessage < (line ++ [newline]).length := by
    rw [List.length_append, List.length_singleton]
    omega
  have hread : Reader.read loads ⟨line, messages, none⟩ [newline] =
      ⟨[], messages ++ [value], none⟩ := by
    simp only [Reader.read, Option.isSome_none, Bool.false_eq_true, if_false, List.cons_ne_nil,
      hroom, Reader.drain_some loads (cutLine_line h.complete []), h.message,
      Reader.drain_none loads (show cutLine [] = none from rfl)]
  rw [bytewise_append, reads_append, hline, List.nil_append, ← hread]
  rfl

theorem reads_joined {lines : List (List UInt8)}
    (h : AllAccepted loads lines values) (messages : List Json) :
    Reader.reads loads ⟨[], messages, none⟩ (bytewise (joined lines)) =
      ⟨[], messages ++ values, none⟩ := by
  induction h generalizing messages with
  | nil => simp [Reader.reads, bytewise]
  | @cons line value lines values hfirst _ ih =>
    have hsplit : joined (line :: lines) = (line ++ [newline]) ++ joined lines := by simp
    rw [hsplit, bytewise_append, reads_append, reads_accepted hfirst, ih, List.append_assoc]
    rfl

/-! ## Read boundaries -/

/-- The reads of a stream, each of what `os.read` may return. -/
def Splits (stream : List UInt8) (chunks : List (List UInt8)) : Prop :=
  chunks.flatten = stream ∧ ∀ chunk ∈ chunks, chunk ≠ [] ∧ chunk.length ≤ readSize

def output (loads : List UInt8 → Option Json) (chunks : List (List UInt8)) (ended : Bool) :
    List Json × Bool :=
  (Reader.new.reads loads (chunks ++ if ended then [[]] else [])).outcome

theorem output_eq (chunks : List (List UInt8)) (ended : Bool) :
    output loads chunks ended = (Reader.new.reads loads chunks).outcome := by
  cases ended with
  | false => simp [output]
  | true =>
    have hend (s : Reader) : (s.read loads []).outcome = s.outcome := by
      cases s with
      | mk buffer messages stop => cases stop <;> rfl
    rw [output, reads_append]
    exact hend _

/-- A stream of JSON-RPC objects of at most `maxMessage` bytes, the last one maybe unfinished. -/
structure Messages (loads : List UInt8 → Option Json) (stream : List UInt8)
    (lines : List (List UInt8)) (rest : List UInt8) : Prop where
  stream : stream = joined lines ++ rest
  lines : ∀ line ∈ lines, newline ∉ line ∧ (message? loads line).isSome
  unfinished : newline ∉ rest
  short : rest.length ≤ maxMessage

/-- What is read off a stream does not depend on the reads, and a stream of messages is never
refused. -/
structure ReadsAlike (loads : List UInt8 → Option Json) (stream : List UInt8) : Prop where
  alike : ∀ chunks chunks' ended, Splits stream chunks → Splits stream chunks' →
    output loads chunks ended = output loads chunks' ended
  passes : ∀ lines rest chunks ended, Messages loads stream lines rest → Splits stream chunks →
    (output loads chunks ended).2 = false

def NoneFull (loads : List UInt8 → Option Json) (stream : List UInt8) : Prop :=
  ∀ lines rest, Messages loads stream lines rest → ∀ line ∈ lines, line.length ≠ maxMessage

theorem splits_bytewise (stream : List UInt8) : Splits stream (bytewise stream) :=
  ⟨flatten_bytewise stream, fun _ h =>
    ⟨(mem_bytewise h).1, Nat.le_trans (mem_bytewise h).2 (by decide)⟩⟩

theorem output_framed {stream : List UInt8} {chunks : List (List UInt8)}
    (hclear : Clear loads readSize stream) (h : Splits stream chunks) (ended : Bool) :
    output loads chunks ended = framed loads stream := by
  have hreads := reads_framed loads readSize chunks h.2 [] [] List.not_mem_nil (Nat.zero_le _)
    (by rw [List.nil_append, h.1]; exact hclear)
  rw [List.nil_append, h.1, List.nil_append] at hreads
  rw [output_eq]
  exact hreads

/-- A message near the limit, read with what follows it, is lost. -/
theorem exists_refusal {values : List Json}
    {value : Json} {rest : List UInt8} (hlines : AllAccepted loads lines values)
    (hline : Accepted loads line value) (hnear : maxMessage < line.length + readSize)
    (hover : maxMessage < (line ++ newline :: rest).length) :
    ∃ chunks, Splits (joined lines ++ (line ++ newline :: rest)) chunks ∧
      ∀ ended, output loads chunks ended = (values, true) := by
  set chunk := (newline :: rest).take (maxMessage + 1 - line.length) with hchunk
  set more := (newline :: rest).drop (maxMessage + 1 - line.length) with hmore
  have hshort := hline.short
  have hlength : chunk.length = maxMessage + 1 - line.length := by
    rw [List.length_append] at hover
    rw [hchunk, List.length_take]
    omega
  have hjoin : chunk ++ more = newline :: rest := List.take_append_drop _ _
  have hchunkNe : chunk ≠ [] := by
    intro hnil
    rw [hnil, List.length_nil] at hlength
    omega
  refine ⟨bytewise (joined lines ++ line) ++ chunk :: bytewise more, ⟨?_, ?_⟩, ?_⟩
  · rw [List.flatten_append, List.flatten_cons, flatten_bytewise, flatten_bytewise, hjoin,
      List.append_assoc]
  · intro part hpart
    have hbyte {bytes : List UInt8} (hpart : part ∈ bytewise bytes) :
        part ≠ [] ∧ part.length ≤ readSize := (splits_bytewise bytes).2 part hpart
    cases List.mem_append.mp hpart with
    | inl hbefore => exact hbyte hbefore
    | inr hafter =>
      cases List.mem_cons.mp hafter with
      | inl hthis =>
        rw [hthis]
        exact ⟨hchunkNe, by omega⟩
      | inr hlater => exact hbyte hlater
  · intro ended
    have hbefore : Reader.new.reads loads (bytewise (joined lines ++ line)) =
        ⟨line, values, none⟩ := by
      have hpending := reads_open loads [] line values (by simpa using hline.complete)
        (by simpa using Nat.le_of_lt hshort)
      rw [bytewise_append, reads_append]
      rw [List.nil_append] at hpending
      rw [← hpending]
      exact congrArg (fun s => s.reads loads (bytewise line)) (reads_joined hlines [])
    have hlimit : maxMessage < (line ++ chunk).length := by
      rw [List.length_append, hlength]
      omega
    have hread : Reader.read loads ⟨line, values, none⟩ chunk =
        ⟨line ++ chunk, values, some .protocolError⟩ := by
      simp only [Reader.read, Option.isSome_none, Bool.false_eq_true, if_false, hchunkNe, hlimit,
        if_true]
    rw [output_eq, reads_append, hbefore, Reader.reads, List.foldl_cons, hread]
    have hstopped := reads_stopped loads
      (s := ⟨line ++ chunk, values, some .protocolError⟩) rfl (bytewise more)
    rw [Reader.reads] at hstopped
    rw [hstopped]
    rfl

theorem allAccepted_of_short
    (hlines : ∀ line ∈ lines, newline ∉ line ∧ (message? loads line).isSome)
    (hshort : ∀ line ∈ lines, line.length < maxMessage) :
    ∃ values, AllAccepted loads lines values := by
  induction lines with
  | nil => exact ⟨[], .nil⟩
  | cons line lines ih =>
    have hfirst := hlines line List.mem_cons_self
    obtain ⟨value, hvalue⟩ := Option.isSome_iff_exists.mp hfirst.2
    obtain ⟨values, hrest⟩ := ih (fun l hl => hlines l (List.mem_cons_of_mem line hl))
      (fun l hl => hshort l (List.mem_cons_of_mem line hl))
    exact ⟨value :: values, .cons ⟨hfirst.1, hshort line List.mem_cons_self, hvalue⟩ hrest⟩

theorem framed_full (rest : List UInt8)
    (hlines : ∀ line ∈ lines, newline ∉ line ∧ (message? loads line).isSome)
    (hfull : ∃ line ∈ lines, maxMessage ≤ line.length) :
    (framed loads (joined lines ++ rest)).2 = true := by
  induction lines with
  | nil =>
    obtain ⟨line, hline, -⟩ := hfull
    cases hline
  | cons line lines ih =>
    have hfirst := hlines line List.mem_cons_self
    rw [joined_cons, List.append_assoc, List.cons_append]
    by_cases hlong : maxMessage ≤ line.length
    · rw [framed_some loads (cutLine_line hfirst.1 _), if_pos hlong]
    obtain ⟨value, hvalue⟩ := Option.isSome_iff_exists.mp hfirst.2
    have haccepted : Accepted loads line value := ⟨hfirst.1, by omega, hvalue⟩
    obtain ⟨full, hmem, hlength⟩ := hfull
    rw [framed_accepted haccepted]
    cases List.mem_cons.mp hmem with
    | inl hthis =>
      rw [hthis] at hlength
      exact absurd hlength hlong
    | inr hlater =>
      exact ih (fun l hl => hlines l (List.mem_cons_of_mem line hl)) ⟨full, hlater, hlength⟩

theorem message_length (h : (message? loads line).isSome) :
    line.length ≤ maxMessage := by
  unfold message? at h
  by_cases hrefused : line = [] ∨ maxMessage < line.length
  · simp [hrefused] at h
  · exact Nat.not_lt.mp fun hlong => hrefused (.inr hlong)

theorem clear_of_alike {stream : List UInt8} (h : ReadsAlike loads stream) :
    Clear loads readSize stream := by
  intro lines values line value rest hstream hlines hline hnear
  apply Nat.not_lt.mp
  intro hover
  obtain ⟨chunks, hsplits, hrefused⟩ := exists_refusal hlines hline hnear hover
  have hsame := h.alike chunks (bytewise stream) false (by rw [hstream]; exact hsplits)
    (splits_bytewise stream)
  rw [hrefused, output_eq, bytewise_framed, hstream, framed_joined hlines,
    framed_accepted hline] at hsame
  have hlength := congrArg (fun r : List Json × Bool => r.1.length) hsame
  simp only [List.length_append, List.length_cons] at hlength
  omega

theorem noneFull_of_alike {stream : List UInt8} (h : ReadsAlike loads stream) :
    NoneFull loads stream := by
  intro lines rest hmessages line hline hfull
  have hpasses := h.passes lines rest (bytewise stream) false hmessages (splits_bytewise stream)
  have hstops := framed_full rest hmessages.lines ⟨line, hline, Nat.le_of_eq hfull.symm⟩
  rw [output_eq, bytewise_framed, hmessages.stream, hstops] at hpasses
  cases hpasses

/-- The reads do not matter, and messages pass, if and only if no message near the limit is
followed by enough and none has exactly the limit. -/
theorem readsAlike_iff (loads : List UInt8 → Option Json) (stream : List UInt8) :
    ReadsAlike loads stream ↔ Clear loads readSize stream ∧ NoneFull loads stream := by
  constructor
  · intro h
    exact ⟨clear_of_alike h, noneFull_of_alike h⟩
  · intro h
    constructor
    · intro chunks chunks' ended hchunks hchunks'
      rw [output_framed h.1 hchunks, output_framed h.1 hchunks']
    · intro lines rest chunks ended hmessages hchunks
      have hshort : ∀ line ∈ lines, line.length < maxMessage := by
        intro line hline
        have hlength := message_length (hmessages.lines line hline).2
        have hnotFull := h.2 lines rest hmessages line hline
        omega
      obtain ⟨values, haccepted⟩ := allAccepted_of_short hmessages.lines hshort
      have hlast : framed loads rest = ([], false) := by
        rw [framed_none loads (cutLine_none.mpr hmessages.unfinished),
          decide_eq_false (Nat.not_lt.mpr hmessages.short)]
      rw [output_framed h.1 hchunks, hmessages.stream, framed_joined haccepted, hlast]

end

/-- `b'{"jsonrpc":"2.0"}'`. -/
def bareMessage : List UInt8 :=
  [0x7b, 0x22, 0x6a, 0x73, 0x6f, 0x6e, 0x72, 0x70, 0x63, 0x22, 0x3a, 0x22, 0x32, 0x2e, 0x30, 0x22,
   0x7d]

def loadsBare (line : List UInt8) : Option Json :=
  if line.take bareMessage.length = bareMessage ∧
      (line.drop bareMessage.length).all (fun b => b = 0x20) then
    some (.obj [("jsonrpc", .str "2.0")])
  else none

def paddedMessage : List UInt8 :=
  bareMessage ++ List.replicate (maxMessage - 1 - bareMessage.length) 0x20

theorem accepted_padded : Accepted loadsBare paddedMessage (.obj [("jsonrpc", .str "2.0")]) := by
  have hlength : paddedMessage.length = maxMessage - 1 := by
    rw [paddedMessage, List.length_append, List.length_replicate]
    decide
  have hloads : loadsBare paddedMessage = some (.obj [("jsonrpc", .str "2.0")]) := by
    simp [loadsBare, paddedMessage]
  have hmax : 0 < maxMessage := by decide
  constructor
  · intro h
    cases List.mem_append.mp h with
    | inl hbare => exact absurd hbare (by decide)
    | inr hspace => exact absurd (List.eq_of_mem_replicate hspace) (by decide)
  · omega
  · have hkept : ¬ (paddedMessage = [] ∨ maxMessage < paddedMessage.length) := by
      rintro (hnil | hlong)
      · rw [hnil] at hlength
        exact absurd hlength (by decide)
      · omega
    rw [message?, if_neg hkept, hloads]
    decide

/-- Two messages, the first one a byte below the limit: the reads matter. -/
theorem padded_lost : ¬ ReadsAlike loadsBare (paddedMessage ++ newline :: bareMessage) := by
  intro h
  have hlength : paddedMessage.length = maxMessage - 1 := by
    rw [paddedMessage, List.length_append, List.length_replicate]
    decide
  have hmax : 0 < maxMessage := by decide
  have hfits := clear_of_alike h [] [] paddedMessage _ bareMessage rfl .nil accepted_padded
    (by rw [hlength, readSize]; omega)
  rw [List.length_append, hlength, List.length_cons] at hfits
  have hbare : 0 < bareMessage.length := by decide
  omega

end CodexBridge.Mcp.Stdio
