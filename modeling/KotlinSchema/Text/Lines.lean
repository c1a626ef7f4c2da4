/-! Lines of a text: their ends and their numbers. -/

namespace KotlinSchema.Text

def unifyNewlines : List Char → List Char
  | [] => []
  | '\r' :: '\n' :: cs => '\n' :: unifyNewlines cs
  | '\r' :: cs => '\n' :: unifyNewlines cs
  | c :: cs => c :: unifyNewlines cs

/-- Without the carriage return before a newline. One that stands elsewhere stays. -/
def dropReturns : List Char → List Char
  | [] => []
  | '\r' :: '\n' :: cs => '\n' :: dropReturns cs
  | c :: cs => c :: dropReturns cs

def lineAt (source : List Char) (offset : Nat) : Nat := (source.take offset).count '\n' + 1

theorem dropReturns_eq_self {cs : List Char} (h : '\r' ∉ cs) : dropReturns cs = cs := by
  fun_induction dropReturns cs with
  | case1 => rfl
  | case2 cs ih => simp at h
  | case3 c cs hc ih => rw [ih fun hr => h (List.mem_cons_of_mem c hr)]

theorem unifyNewlines_eq_self {cs : List Char} (h : '\r' ∉ cs) : unifyNewlines cs = cs := by
  fun_induction unifyNewlines cs with
  | case1 => rfl
  | case2 cs ih => simp at h
  | case3 cs hcs ih => simp at h
  | case4 c cs hc hc' ih => rw [ih fun hr => h (List.mem_cons_of_mem c hr)]

theorem lineAt_append (before after : List Char) :
    lineAt (before ++ after) before.length = before.count '\n' + 1 := by
  simp [lineAt]

end KotlinSchema.Text
