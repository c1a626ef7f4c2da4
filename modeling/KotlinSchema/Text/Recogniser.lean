import KotlinSchema.Text.Blank

/-! Recognisers. A place in a text is the text that follows it. A recogniser looks at a place and
gives, where it accepts, the place after what it accepted; one that reads something gives that
as well. -/

namespace KotlinSchema.Text

def after? : List Char → List Char → Option (List Char)
  | [], cs => some cs
  | w :: ws, c :: cs => if c = w then after? ws cs else none
  | _ :: _, [] => none

theorem after?_eq_some {ws cs rest : List Char} (h : after? ws cs = some rest) :
    cs = ws ++ rest := by
  fun_induction after? ws cs with
  | case1 cs => simpa using h
  | case2 w ws cs ih => rw [ih h]; rfl
  | case3 => simp at h
  | case4 => simp at h

@[simp] theorem after?_append (ws rest : List Char) : after? ws (ws ++ rest) = some rest := by
  induction ws with
  | nil => cases rest <;> rfl
  | cons w ws ih => simp [after?, ih]

def between (start stop : List Char) : List Char := start.take (start.length - stop.length)

def Advances (piece? : List Char → Option (List Char)) : Prop :=
  ∀ cs rest, piece? cs = some rest → rest.length < cs.length

/-- The places at which consecutive pieces begin, and the place after the last. -/
def consecutive (piece? : List Char → Option (List Char)) (h : Advances piece?)
    (cs : List Char) : List (List Char) × List Char :=
  match _hp : piece? cs with
  | none => ([], cs)
  | some rest =>
    let (starts, stop) := consecutive piece? h rest
    (cs :: starts, stop)
termination_by cs.length
decreasing_by exact h cs rest _hp

theorem length_after?_le {ws cs rest : List Char} (h : after? ws cs = some rest) :
    rest.length ≤ cs.length := by
  rw [after?_eq_some h]
  simp

/-- All that a recogniser reads in a text, from left to right, each search beginning where the last
reading ended. The recogniser is told the character before the place. `skip` counts the characters
that belong to the last reading. -/
def findFrom {α : Type} (read? : Option Char → List Char → Option (α × List Char)) :
    Nat → Option Char → List Char → List α
  | _, _, [] => []
  | skip + 1, _, c :: cs => findFrom read? skip (some c) cs
  | 0, before, c :: cs =>
    match read? before (c :: cs) with
    | none => findFrom read? 0 (some c) cs
    | some (a, rest) => a :: findFrom read? (cs.length - rest.length) (some c) cs

def findAll {α : Type} (read? : Option Char → List Char → Option (α × List Char))
    (text : List Char) : List α :=
  findFrom read? 0 none text

@[simp] theorem findAll_nil {α : Type}
    (read? : Option Char → List Char → Option (α × List Char)) : findAll read? [] = [] := rfl

theorem findFrom_none {α : Type} {read? : Option Char → List Char → Option (α × List Char)}
    {before : Option Char} {c : Char} {cs : List Char} (h : read? before (c :: cs) = none) :
    findFrom read? 0 before (c :: cs) = findFrom read? 0 (some c) cs := by
  simp [findFrom, h]

theorem findFrom_some {α : Type} {read? : Option Char → List Char → Option (α × List Char)}
    {before : Option Char} {c : Char} {cs rest : List Char} {a : α}
    (h : read? before (c :: cs) = some (a, rest)) :
    findFrom read? 0 before (c :: cs) =
      a :: findFrom read? (cs.length - rest.length) (some c) cs := by
  simp [findFrom, h]

/-- A text without all that a recogniser accepts, from left to right. `skip` counts the characters
that belong to the last piece. -/
def removeFrom (piece? : List Char → Option (List Char)) : Nat → List Char → List Char
  | _, [] => []
  | skip + 1, _ :: cs => removeFrom piece? skip cs
  | 0, c :: cs =>
    match piece? (c :: cs) with
    | none => c :: removeFrom piece? 0 cs
    | some rest => removeFrom piece? (cs.length - rest.length) cs

def removeAll (piece? : List Char → Option (List Char)) (text : List Char) : List Char :=
  removeFrom piece? 0 text

theorem removeFrom_eq_self {piece? : List Char → Option (List Char)} {text : List Char}
    (h : ∀ c cs, c :: cs <:+ text → piece? (c :: cs) = none) : removeFrom piece? 0 text = text := by
  induction text with
  | nil => rfl
  | cons c cs ih =>
    rw [removeFrom, h c cs (List.suffix_refl _)]
    exact congrArg _ (ih fun d ds hd => h d ds (hd.trans (List.suffix_cons c cs)))

def optionalKeyword (keywords : List String) (cs : List Char) : Option String × List Char :=
  let read? := fun (k : String) =>
    ((after? k.toList cs).bind skipBlanks1?).map fun rest => (k, rest)
  match keywords.findSome? read? with
  | some (k, rest) => (some k, rest)
  | none => (none, cs)

def keyword? (word : String) (cs : List Char) : Option (List Char) :=
  (after? word.toList cs).bind skipBlanks1?

end KotlinSchema.Text
