import KotlinSchema.Text.Recogniser

/-! Control sequences, by which a text sets the colours of a terminal and moves its cursor. A
sequence is an escape, an opening bracket, parameters and one letter. -/

namespace KotlinSchema.Text

def escape : Char := '\x1b'

def isParameter (c : Char) : Bool := c.isDigit || c == ';' || c == '?'

def controlSequenceEnd? (cs : List Char) : Option (List Char) :=
  match after? [escape, '['] cs with
  | none => none
  | some rest =>
    match rest.dropWhile isParameter with
    | [] => none
    | letter :: rest => if letter.isAlpha then some rest else none

/-- A text without its control sequences. An escape that begins none stays. -/
def withoutControlSequences (s : String) : String :=
  String.ofList (removeAll controlSequenceEnd? s.toList)

theorem controlSequenceEnd?_eq_none {c : Char} (h : c ≠ escape) (cs : List Char) :
    controlSequenceEnd? (c :: cs) = none := by
  simp [controlSequenceEnd?, after?, h]

theorem withoutControlSequences_eq_self {s : String} (h : escape ∉ s.toList) :
    withoutControlSequences s = s := by
  rw [withoutControlSequences, removeAll, removeFrom_eq_self, String.ofList_toList]
  intro c cs hsuffix
  refine controlSequenceEnd?_eq_none (fun hc => h ?_) cs
  exact hsuffix.subset (hc ▸ List.mem_cons_self)

end KotlinSchema.Text
