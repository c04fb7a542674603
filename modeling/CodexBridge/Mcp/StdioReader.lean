import CodexBridge.Library.Json

/-! # The reader of a stdio MCP worker

A thread reads the worker's output and cuts it into lines, one JSON-RPC object a line. What the
decoder makes of a line is a parameter.
-/

namespace CodexBridge.Mcp.Stdio

def maxMessage : Nat := 1024 * 1024

def readSize : Nat := 65536

/-- `b"\n"`. -/
def newline : UInt8 := 10

/-- `buffer.partition(b"\n")` where there is a line. -/
def cutLine : List UInt8 → Option (List UInt8 × List UInt8)
  | [] => none
  | b :: bytes =>
    if b = newline then some ([], bytes)
    else (cutLine bytes).map fun parts => (b :: parts.1, parts.2)

theorem cutLine_length {bytes line rest : List UInt8} (h : cutLine bytes = some (line, rest)) :
    rest.length < bytes.length := by
  induction bytes generalizing line with
  | nil => cases h
  | cons b bytes ih =>
    by_cases hb : b = newline
    · simp [cutLine, hb] at h
      simp [h.2]
    simp only [cutLine, hb, if_false, Option.map_eq_some_iff] at h
    obtain ⟨parts, hparts, heq⟩ := h
    have hrest : parts.2 = rest := congrArg Prod.snd heq
    have hparts' : cutLine bytes = some (parts.1, rest) := by rw [hparts, ← hrest]
    have hlt := ih hparts'
    simp only [List.length_cons]
    omega

/-- `isinstance(value, dict) and value.get("jsonrpc") == "2.0"`. -/
def isMessage : Json → Bool
  | .obj fields => Json.field? fields "jsonrpc" == some (.str "2.0")
  | _ => false

section

variable (loads : List UInt8 → Option Json)

/-- A line as `_read_messages` checks it; there is no value where it raises. -/
def message? (line : List UInt8) : Option Json :=
  if line = [] ∨ maxMessage < line.length then none else (loads line).filter isMessage

inductive Stop where
  | endOfOutput
  | protocolError
  deriving DecidableEq

/-- The queue is drained in time: it is never full, and `messages` is all it was given. -/
structure Reader where
  buffer : List UInt8
  messages : List Json
  stop : Option Stop

namespace Reader

def new : Reader := ⟨[], [], none⟩

def drain (buffer : List UInt8) (messages : List Json) : Reader :=
  match _ : cutLine buffer with
  | none => ⟨buffer, messages, none⟩
  | some (line, rest) =>
    match message? loads line with
    | none => ⟨rest, messages, some .protocolError⟩
    | some value => drain rest (messages ++ [value])
termination_by buffer.length
decreasing_by exact cutLine_length ‹_›

theorem drain_none {buffer : List UInt8} (h : cutLine buffer = none) (messages : List Json) :
    drain loads buffer messages = ⟨buffer, messages, none⟩ := by
  rw [drain]
  split
  · rfl
  rename_i hcut
  rw [h] at hcut
  cases hcut

theorem drain_some {buffer line rest : List UInt8} (h : cutLine buffer = some (line, rest))
    (messages : List Json) :
    drain loads buffer messages = match message? loads line with
      | none => ⟨rest, messages, some .protocolError⟩
      | some value => drain loads rest (messages ++ [value]) := by
  rw [drain]
  split
  · rename_i hcut
    rw [h] at hcut
    cases hcut
  rename_i hcut
  rw [h] at hcut
  cases hcut
  rfl

/-- One turn of `_read_messages` with what `os.read` returned. -/
def read (s : Reader) (chunk : List UInt8) : Reader :=
  if s.stop.isSome then s
  else if chunk = [] then { s with stop := some .endOfOutput }
  else
    let buffer := s.buffer ++ chunk
    if maxMessage < buffer.length then { s with buffer := buffer, stop := some .protocolError }
    else drain loads buffer s.messages

def reads (s : Reader) (chunks : List (List UInt8)) : Reader := chunks.foldl (read loads) s

end Reader

end

end CodexBridge.Mcp.Stdio
