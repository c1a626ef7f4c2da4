/-! Regions of a source text: code, literals and comments. A text is read one character at a time,
with a mode that says what the reader is inside of; where a delimiter is longer than one character,
the first one is recognised by looking ahead and the others are passed in modes of their own. A
literal or comment that is never closed reaches to the end of the text. -/

namespace KotlinSchema.Source

inductive Region where
  | code
  | literal
  | comment
  deriving DecidableEq, Repr

inductive Mode where
  | code
  | lineComment
  | blockOpening
  | blockComment
  | blockClosing
  | quoted (quote : Char)
  | escaped (quote : Char)
  | rawSecond
  | rawThird
  | raw
  | rawClosing
  deriving DecidableEq, Repr

/-- The region of a character and the mode after it, given the characters that follow. -/
def step : Mode → Char → List Char → Region × Mode
  | .code, '/', '/' :: _ => (.comment, .lineComment)
  | .code, '/', '*' :: _ => (.comment, .blockOpening)
  | .code, '"', '"' :: '"' :: _ => (.literal, .rawSecond)
  | .code, '"', _ => (.literal, .quoted '"')
  | .code, '\'', _ => (.literal, .quoted '\'')
  | .code, _, _ => (.code, .code)
  -- A line comment owns its line end.
  | .lineComment, c, _ => (.comment, if c = '\n' then .code else .lineComment)
  | .blockOpening, _, _ => (.comment, .blockComment)
  | .blockComment, '*', '/' :: _ => (.comment, .blockClosing)
  | .blockComment, _, _ => (.comment, .blockComment)
  | .blockClosing, _, _ => (.comment, .code)
  | .quoted q, c, _ =>
    (.literal, if c = '\\' then .escaped q else if c = q then .code else .quoted q)
  | .escaped q, _, _ => (.literal, .quoted q)
  | .rawSecond, _, _ => (.literal, .rawThird)
  | .rawThird, _, _ => (.literal, .raw)
  | .raw, '"', '"' :: '"' :: _ => (.literal, .rawClosing)
  | .raw, _, _ => (.literal, .raw)
  -- Three quotes close a raw literal together with all quotes after them.
  | .rawClosing, _, '"' :: _ => (.literal, .rawClosing)
  | .rawClosing, _, _ => (.literal, .code)

abbrev Marked := Char × Region

def mark : Mode → List Char → List Marked
  | _, [] => []
  | mode, c :: rest => (c, (step mode c rest).1) :: mark (step mode c rest).2 rest

def marked (source : List Char) : List Marked := mark .code source

@[simp] theorem mark_nil (mode : Mode) : mark mode [] = [] := rfl

@[simp] theorem mark_cons (mode : Mode) (c : Char) (rest : List Char) :
    mark mode (c :: rest) = (c, (step mode c rest).1) :: mark (step mode c rest).2 rest := rfl

@[simp] theorem map_fst_mark (mode : Mode) (source : List Char) :
    (mark mode source).map Prod.fst = source := by
  induction source generalizing mode with
  | nil => rfl
  | cons c rest ih => simp [ih]

@[simp] theorem length_mark (mode : Mode) (source : List Char) :
    (mark mode source).length = source.length := by
  rw [← List.length_map Prod.fst, map_fst_mark]

@[simp] theorem length_marked (source : List Char) : (marked source).length = source.length :=
  length_mark .code source

def Region.isKept (keepLiterals : Bool) : Region → Bool
  | .code => true
  | .literal => keepLiterals
  | .comment => false

/-- The kept characters from an offset on, which counts as code, with their offsets. -/
def keptChars (keepLiterals : Bool) (source : List Char) (start : Nat) : List (Nat × Char) :=
  ((marked (source.drop start)).zipIdx start).filterMap fun ((c, r), i) =>
    if r.isKept keepLiterals then some (i, c) else none

/-- What a masked text shows for a character: itself if it is kept or ends a line, else a blank. -/
def shown (keepLiterals : Bool) : Marked → Char
  | (c, r) => if r.isKept keepLiterals || c == '\n' then c else ' '

/-- The text with everything blanked that is not kept, each character at its old offset. -/
def mask (keepLiterals : Bool) (source : List Char) : List Char :=
  (marked source).map (shown keepLiterals)

@[simp] theorem length_mask (keepLiterals : Bool) (source : List Char) :
    (mask keepLiterals source).length = source.length := by
  simp [mask]

end KotlinSchema.Source
