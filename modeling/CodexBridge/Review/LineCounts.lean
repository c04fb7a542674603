import CodexBridge.Panel.EventStream

/-! # Changed lines of a diff

The review route of the App and the run activity of the panel count the added and removed lines of
a unified diff of one file, each in its own way of cutting the text into lines.
-/

namespace CodexBridge.Review

abbrev Text := List Char

inductive Sign where
  | plus
  | minus

def Sign.char : Sign → Char
  | .plus => '+'
  | .minus => '-'

def startsWith (start line : Text) : Bool := start.isPrefixOf line

/-! ## The route -/

def isBoundary (c : Char) : Bool :=
  c ∈ ['\n', '\r', '\x0b', '\x0c', '\x1c', '\x1d', '\x1e', '\x85', '\u2028', '\u2029']

def consFirst (c : Char) : List Text → List Text
  | [] => [[c]]
  | line :: lines => (c :: line) :: lines

def splitlines : Text → List Text
  | [] => []
  | '\r' :: '\n' :: rest => [] :: splitlines rest
  | c :: rest => if isBoundary c then [] :: splitlines rest else consFirst c (splitlines rest)

/-- `line.startswith("+") and not line.startswith("+++")`, or with minus signs. -/
def isChanged (sign : Sign) (line : Text) : Bool :=
  startsWith [sign.char] line && !startsWith [sign.char, sign.char, sign.char] line

def maxPatchBytes : Nat := 48 * 1024

def contains (marker patch : Text) : Bool := patch.tails.any (startsWith marker)

/-- `"GIT binary patch" in patch or "Binary files " in patch`. -/
def isBinary (patch : Text) : Bool :=
  contains "GIT binary patch".toList patch || contains "Binary files ".toList patch

def utf8Width (c : Char) : Nat :=
  if c.toNat < 0x80 then 1 else if c.toNat < 0x800 then 2 else if c.toNat < 0x10000 then 3 else 4

def utf8Bytes (patch : Text) : Nat := (patch.map utf8Width).sum

/-- The additions and deletions of a patch in `get_git_review`; a binary or cut one has none. -/
def reviewCounts (patch : Text) : Option (Nat × Nat) :=
  if isBinary patch ∨ maxPatchBytes < utf8Bytes patch then none
  else
    some ((splitlines patch).countP (isChanged .plus), (splitlines patch).countP (isChanged .minus))

def splitNewline : Text → List Text
  | [] => [[]]
  | c :: rest => if c = '\n' then [] :: splitNewline rest else consFirst c (splitNewline rest)

def maxDiffUnits : Nat := 262144

def isCounted (sign : Sign) (line : Text) : Bool :=
  !(startsWith "+++".toList line || startsWith "---".toList line) && startsWith [sign.char] line

/-- `diffLineCounts` of a string. -/
def diffLineCounts (diff : Text) : Nat × Nat :=
  let lines := splitNewline (Panel.sliceUnits maxDiffUnits diff)
  (lines.countP (isCounted .plus), lines.countP (isCounted .minus))

/-- A line of a unified diff. The texts of hunks and the headings after their ranges are those of
the file. -/
inductive DiffLine where
  | header (text : Text)
  | oldName (name : Text)
  | newName (name : Text)
  | heading (text : Text)
  | added (text : Text)
  | removed (text : Text)
  | context (text : Text)
  | note (text : Text)

namespace DiffLine

def chars : DiffLine → Text
  | header text => text
  | oldName name => "--- ".toList ++ name
  | newName name => "+++ ".toList ++ name
  | heading text => "@@ ".toList ++ text
  | added text => '+' :: text
  | removed text => '-' :: text
  | context text => ' ' :: text
  | note text => '\\' :: text

def changes : Sign → DiffLine → Bool
  | .plus, added _ => true
  | .minus, removed _ => true
  | _, _ => false

/-- What may stand in a line: the names and headers of git hold no line ends of any kind, the texts
of a file no newline. -/
def isWell : DiffLine → Bool
  | header text =>
    text.all (fun c => !isBoundary c) && text.head? ≠ some '+' && text.head? ≠ some '-'
  | oldName name => name.all fun c => !isBoundary c
  | newName name => name.all fun c => !isBoundary c
  | heading text => text.all (· ≠ '\n')
  | added text => text.all (· ≠ '\n')
  | removed text => text.all (· ≠ '\n')
  | context text => text.all (· ≠ '\n')
  | note text => text.all (· ≠ '\n')

def inHunk : DiffLine → Bool
  | header _ | oldName _ | newName _ => false
  | _ => true

end DiffLine

def lineUnits (line : Text) : Nat :=
  (line.map fun c => if c.toNat < 0x10000 then 1 else 2).sum + 1

structure Diff where
  top : List DiffLine
  hunks : List DiffLine
  top_ok : top.all (fun line => line.isWell && !line.inHunk) = true
  hunks_ok : hunks.all (fun line => line.isWell && line.inHunk) = true
  top_short : (top.map fun line => lineUnits line.chars).sum ≤ maxDiffUnits

def Diff.lines (d : Diff) : List DiffLine := d.top ++ d.hunks

def joined (lines : List Text) : Text := lines.flatMap (· ++ ['\n'])

def Diff.text (d : Diff) : Text := joined (d.lines.map DiffLine.chars)

def Diff.counts (d : Diff) : Nat × Nat :=
  (d.lines.countP (DiffLine.changes .plus), d.lines.countP (DiffLine.changes .minus))

end CodexBridge.Review
