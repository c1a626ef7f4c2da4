/-! Similarity of texts: how much of two texts matches when their longest common stretch is put
together with what matches before and after it. -/

namespace KotlinSchema.Text

def commonLength : List Char → List Char → Nat
  | a :: as, b :: bs => if a = b then commonLength as bs + 1 else 0
  | _, _ => 0

/-- The longest stretch that two texts share, as its offsets and its length. Of several it is the
one that begins first in the first text, and then in the second. -/
def longestCommon (as bs : List Char) : Nat × Nat × Nat :=
  let stretches := (List.range as.length).flatMap fun i =>
    (List.range bs.length).map fun j => (i, j, commonLength (as.drop i) (bs.drop j))
  stretches.foldl (fun best s => if best.2.2 < s.2.2 then s else best) (0, 0, 0)

def matching (as bs : List Char) : Nat :=
  let (i, j, k) := longestCommon as bs
  if _h : 0 < k ∧ i < as.length then
    matching (as.take i) (bs.take j) + k + matching (as.drop (i + k)) (bs.drop (j + k))
  else 0
termination_by as.length
decreasing_by
  all_goals
    simp only [List.length_take, List.length_drop]
    omega

def isSimilar (a b : String) : Bool :=
  3 * (a.length + b.length) ≤ 10 * matching a.toList b.toList

/-- Whether a candidate is at least as close to a word as another one; of equally close ones, the
later in the alphabet counts as closer. -/
def isCloser (word a b : String) : Bool :=
  let score := fun (x y : String) =>
    matching x.toList word.toList * (y.length + word.length)
  if score a b = score b a then b ≤ a else score b a < score a b

/-- The candidates similar to a word, at most three, in alphabetical order. -/
def similarTo (word : String) (candidates : List String) : List String :=
  (((candidates.filter fun c => isSimilar c word).mergeSort (isCloser word)).take 3).mergeSort
    fun a b => a ≤ b

end KotlinSchema.Text
