/-! Ordinary string literals: text between double quotes on one line, in which a backslash takes the
character after it. -/

namespace KotlinSchema.Source

def literalEnd? : List Char → Option (List Char)
  | [] => none
  | '"' :: cs => some cs
  | '\\' :: c :: cs => if c = '\n' then none else literalEnd? cs
  | c :: cs => if c = '\n' ∨ c = '\\' then none else literalEnd? cs

theorem length_literalEnd? {cs rest : List Char} (h : literalEnd? cs = some rest) :
    rest.length < cs.length := by
  fun_induction literalEnd? cs with
  | case1 => simp at h
  | case2 cs => simp at h; subst h; simp
  | case3 => simp at h
  | case4 c cs _ ih => have := ih h; simp; omega
  | case5 => simp at h
  | case6 c cs _ _ _ ih => have := ih h; simp; omega

def literal? : List Char → Option (List Char × List Char)
  | '"' :: cs =>
    (literalEnd? cs).map fun rest => ('"' :: cs.take (cs.length - rest.length), rest)
  | _ => none

theorem length_literal? {cs text rest : List Char} (h : literal? cs = some (text, rest)) :
    rest.length < cs.length := by
  unfold literal? at h
  split at h
  · obtain ⟨r, hr, e⟩ := Option.map_eq_some_iff.1 h
    obtain ⟨-, rfl⟩ := Prod.mk.inj e
    have := length_literalEnd? hr
    simp; omega
  · simp at h

def escape : Char → Char
  | 'n' => '\n'
  | 't' => '\t'
  | 'r' => '\r'
  | c => c

/-- A text with its escapes resolved. A backslash before a line end, or at the end, stays. -/
def unescape : List Char → List Char
  | [] => []
  | '\\' :: c :: cs =>
    if c = '\n' then '\\' :: '\n' :: unescape cs else escape c :: unescape cs
  | c :: cs => c :: unescape cs

def literalText (literal : List Char) : List Char := unescape literal.tail.dropLast

end KotlinSchema.Source
