import KotlinSchema.Source.TypeRef
import KotlinSchema.Proofs.Text.Words
import Mathlib.Algebra.Ring.Int.Defs

/-! Type arguments. One that is read ends at the angle bracket that takes the depth to zero, so all
is passed in which angle brackets match. -/

namespace KotlinSchema.Source
open Text

section Brackets
variable {a b : List Char}

def isFlat (c : Char) : Bool := c != '<' && c != '>' && !"{};=".toList.contains c

/-- The search for the bracket that closes a type argument passes a text. -/
def Passed (cs : List Char) : Prop :=
  ∀ depth : Int, 1 ≤ depth → ∀ rest,
    typeArgumentEnd? depth (cs ++ rest) = typeArgumentEnd? depth rest

theorem passed_append (ha : Passed a) (hb : Passed b) : Passed (a ++ b) := by
  intro depth hdepth rest
  rw [List.append_assoc, ha depth hdepth, hb depth hdepth]

theorem passed_of_isFlat (h : ∀ c ∈ a, isFlat c = true) : Passed a := by
  intro depth hdepth rest
  induction a with
  | nil => rfl
  | cons c a ih =>
    have hc : (c ≠ '<' ∧ c ≠ '>') ∧ "{};=".toList.contains c = false := by
      simpa [isFlat] using h c List.mem_cons_self
    have hchange : angleChange c = 0 := by simp [angleChange, hc.1]
    rw [List.cons_append, typeArgumentEnd?, hchange, Int.add_zero, if_neg fun h => hc.1.2 h.1,
      if_neg (by simp only [hc.2, Bool.false_eq_true, not_false_eq_true]),
      ih fun d hd => h d (List.mem_cons_of_mem c hd)]

theorem passed_bracket (h : Passed a) : Passed (['<'] ++ a ++ ['>']) := by
  intro depth hdepth rest
  have hopen : angleChange '<' = 1 := rfl
  have hclose : angleChange '>' = -1 := rfl
  rw [List.append_assoc, List.append_assoc, List.cons_append, List.nil_append, typeArgumentEnd?,
    if_neg (by simp), if_neg (by decide), h _ (by omega), List.cons_append, List.nil_append,
    typeArgumentEnd?, if_neg (by rw [hopen, hclose]; simp; omega), if_neg (by decide), hopen,
    hclose, Int.add_assoc, Int.add_right_neg, Int.add_zero]

theorem typeArgument?_of_passed (h : Passed a) (rest : List Char) :
    typeArgument? ('<' :: (a ++ '>' :: rest)) = some (trim a, rest) := by
  have hend : typeArgumentEnd? 0 ('<' :: (a ++ '>' :: rest)) = some ('>' :: rest) := by
    rw [typeArgumentEnd?, if_neg (by simp), if_neg (by decide), h _ (by decide)]
    rfl
  have hlength : ('<' :: (a ++ '>' :: rest)).length - ('>' :: rest).length = a.length + 1 := by
    simp only [List.length_cons, List.length_append]
    omega
  rw [typeArgument?, hend, Option.map_some, hlength, List.take_succ_cons, List.take_left]
  rfl

def angleDepth (cs : List Char) : Int := (cs.map angleChange).sum

/-- A type whose angle brackets match, without the characters that end the search for the bracket
after it. -/
structure IsBalanced (type : List Char) : Prop where
  opens : ∀ n, 0 ≤ angleDepth (type.take n)
  closes : angleDepth type = 0
  isPlain : ∀ c ∈ type, c ∉ "{};=".toList

theorem typeArgumentEnd?_append {depth : Int} (hplain : ∀ c ∈ a, c ∉ "{};=".toList)
    (h : ∀ n, 1 ≤ depth + angleDepth (a.take n)) (rest : List Char) :
    typeArgumentEnd? depth (a ++ rest) = typeArgumentEnd? (depth + angleDepth a) rest := by
  induction a generalizing depth with
  | nil => simp [angleDepth]
  | cons c a ih =>
    have hstep (n : Nat) :
        angleDepth ((c :: a).take (n + 1)) = angleChange c + angleDepth (a.take n) := by
      simp [angleDepth]
    have hafter : 1 ≤ depth + angleChange c := by simpa [angleDepth] using h 1
    rw [List.cons_append, typeArgumentEnd?, if_neg (by omega),
      if_neg (by simpa using hplain c List.mem_cons_self),
      ih (fun d hd => hplain d (List.mem_cons_of_mem c hd)) fun n => ?_]
    · simp [angleDepth, Int.add_assoc]
    · have hn := h (n + 1)
      rw [hstep] at hn
      omega

theorem passed_of_isBalanced (h : IsBalanced a) : Passed a := by
  intro depth hdepth rest
  rw [typeArgumentEnd?_append h.isPlain (fun n => ?_), h.closes, Int.add_zero]
  have hn := h.opens n
  omega

end Brackets

end KotlinSchema.Source
