import KotlinSchema.Source.Region
import KotlinSchema.Text.Lines

/-! Bracketed stretches of a source text. Only brackets in code count; those in literals and
comments are plain text. -/

namespace KotlinSchema.Source
open Text

/-- A brace block that the text never closes; the line is that of its opening brace. -/
structure UnbalancedBlock where
  line : Nat
  deriving DecidableEq, Repr

def UnbalancedBlock.message (b : UnbalancedBlock) : String :=
  "Unbalanced braces in block opened at line " ++ toString b.line

def depthChange (opening closing : Char) : Marked → Int
  | (c, .code) => if c = opening then 1 else if c = closing then -1 else 0
  | _ => 0

/-- The offset of the closing bracket that takes the depth to zero. -/
def closingOffset? (opening closing : Char) : Int → List Marked → Option Nat
  | _, [] => none
  | depth, m :: rest =>
    let after := depth + depthChange opening closing m
    if m = (closing, .code) ∧ after = 0 then some 0
    else (closingOffset? opening closing after rest).map (· + 1)

def blockEnd (source : List Char) (offset : Nat) : Except UnbalancedBlock Nat :=
  match closingOffset? '{' '}' 0 (marked (source.drop offset)) with
  | some k => .ok (offset + k)
  | none => .error ⟨lineAt source offset⟩

def block (source : List Char) (offset : Nat) : Except UnbalancedBlock (List Char) := do
  let stop ← blockEnd source offset
  return (source.drop (offset + 1)).take (stop - (offset + 1))

/-- The text between the parentheses of a call, where one opens the text after spaces and tabs. -/
def arguments? (text : List Char) : Option (List Char) :=
  match text.dropWhile fun c => c == ' ' || c == '\t' with
  | '(' :: inner =>
    (closingOffset? '(' ')' 0 (marked ('(' :: inner))).map fun k => inner.take (k - 1)
  | _ => none

/-- The offset of the outermost brace that is still open at the end of the text, given the depth
before it, the offset of its next character and that of the outermost brace open there. -/
def openBrace? : Nat → Nat → Nat → List Marked → Option Nat
  | depth, _, outermost, [] => if depth = 0 then none else some outermost
  | depth, offset, outermost, m :: rest =>
    if m = ('{', .code) then
      openBrace? (depth + 1) (offset + 1) (if depth = 0 then offset else outermost) rest
    -- At depth zero it closes nothing.
    else if m = ('}', .code) then openBrace? (depth - 1) (offset + 1) outermost rest
    else openBrace? depth (offset + 1) outermost rest

/-- The text with all blanked, line ends apart, that stands inside of a brace block; the braces of
the outermost blocks stay. The depth is the number of blocks open before the text. -/
def blankNested : Nat → List Marked → List Char
  | _, [] => []
  | depth, m :: rest =>
    if m = ('{', .code) then (if depth = 0 then '{' else ' ') :: blankNested (depth + 1) rest
    else if m = ('}', .code) then (if depth ≤ 1 then '}' else ' ') :: blankNested (depth - 1) rest
    else (if depth = 0 || m.1 == '\n' then m.1 else ' ') :: blankNested depth rest

/-- A block's text without what its nested blocks hold, each character at its old offset. -/
def maskNested (body : List Char) : Except UnbalancedBlock (List Char) :=
  match openBrace? 0 0 0 (marked body) with
  | some offset => .error ⟨lineAt body offset⟩
  | none => .ok (blankNested 0 (marked body))

@[simp] theorem length_blankNested (depth : Nat) (ms : List Marked) :
    (blankNested depth ms).length = ms.length := by
  induction ms generalizing depth with
  | nil => rfl
  | cons m rest ih =>
    rw [blankNested]
    split
    · simp [ih]
    · split <;> simp [ih]

theorem length_maskNested {body masked : List Char} (h : maskNested body = .ok masked) :
    masked.length = body.length := by
  unfold maskNested at h
  split at h
  · exact absurd h (by simp)
  · obtain rfl := Except.ok.inj h
    simp

/-- The text in which the members of a block are read: without comments and nested blocks. -/
def memberText (body : List Char) : Except UnbalancedBlock (List Char) :=
  maskNested (mask true body)

end KotlinSchema.Source
