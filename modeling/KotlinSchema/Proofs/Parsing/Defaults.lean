import KotlinSchema.Proofs.Parsing.Delegations
import KotlinSchema.Proofs.Source.TypeArguments

/-! Which properties are not required: those of the nullable delegate, and those whose delegate is
given arguments, right after its name or after a type argument in which angle brackets match. -/

namespace KotlinSchema
open Text Source

namespace Source

/-- A text begins with arguments in parentheses, of which the closing one is in code and the first
at which they balance. -/
def BeginsWithArguments (text arguments : List Char) : Prop :=
  ∃ rest, text = '(' :: (arguments ++ ')' :: rest) ∧
    ClosesAt '(' ')' 0 (marked text) (arguments.length + 1) ∧
    ∀ j < arguments.length + 1, ¬ClosesAt '(' ')' 0 (marked text) j

/-- The delegate is given arguments: after its name and blanks, or after a type argument and then on
the same line. -/
def Delegation.IsGiven (d : Delegation) (arguments : List Char) : Prop :=
  ∃ callee blanks call, d.calleeAt = callee ++ (blanks ++ call) ∧
    (∀ c ∈ callee, isWord c = true) ∧ (∀ c ∈ blanks, isBlank c = true) ∧
    (BeginsWithArguments call arguments ∨
      ∃ type spaces more, call = '<' :: (type ++ '>' :: (spaces ++ more)) ∧ IsBalanced type ∧
        (∀ c ∈ spaces, c = ' ' ∨ c = '\t') ∧ BeginsWithArguments more arguments)

section Arguments
variable {text arguments spaces : List Char}

theorem arguments?_of_begins (hspaces : ∀ c ∈ spaces, c = ' ' ∨ c = '\t')
    (h : BeginsWithArguments text arguments) : arguments? (spaces ++ text) = some arguments := by
  obtain ⟨rest, rfl, hclose⟩ := h
  have hskip : (spaces ++ '(' :: (arguments ++ ')' :: rest)).dropWhile
      (fun c => c == ' ' || c == '\t') = '(' :: (arguments ++ ')' :: rest) := by
    rw [List.dropWhile_append_of_pos fun c hc => by simpa using hspaces c hc]
    rfl
  rw [arguments?, hskip]
  simp only [closingOffset?_eq_some_iff.2 hclose, Option.map_some, Nat.add_sub_cancel,
    List.take_left]

theorem head?_of_begins (h : BeginsWithArguments text arguments) : text.head? = some '(' := by
  obtain ⟨rest, rfl, -⟩ := h
  rfl

theorem isSome_defaultText? (h : trim arguments ≠ []) : (defaultText? arguments).isSome = true := by
  rw [defaultText?]
  split
  · exact absurd ‹_› h
  · rfl

end Arguments

theorem arguments?_of_isGiven {p : PropertyText} {callee after arguments : List Char}
    (hspelled : p.delegation.Spelled callee after) (h : p.delegation.IsGiven arguments) :
    arguments? p.typeAndCall.2 = some arguments := by
  obtain ⟨callee', blanks, call, hcalleeAt, hcallee, hblanks, hcall⟩ := h
  have hhead : call.head? = some '(' ∨ call.head? = some '<' := by
    rcases hcall with hcall | ⟨type, spaces, more, rfl, -⟩
    · exact .inl (head?_of_begins hcall)
    · exact .inr rfl
  have hafter : after = blanks ++ call := by
    have hword : takeWord p.delegation.calleeAt = (callee', blanks ++ call) := by
      rw [hcalleeAt, takeWord_of_append hcallee]
      intro c hc
      cases blanks with
      | nil =>
        rcases hhead with hhead | hhead <;>
          · rw [List.nil_append, hhead] at hc
            obtain rfl := Option.some.inj hc
            decide
      | cons b blanks =>
        obtain rfl := Option.some.inj hc
        exact not_isWord_of_isBlank (hblanks _ List.mem_cons_self)
    exact (Prod.mk.inj (hspelled.callee.symm.trans hword)).2
  have hskip : skipBlanks after = call := by
    rw [hafter, skipBlanks_append hblanks, skipBlanks_eq_self]
    intro c hc
    rcases hhead with hhead | hhead <;>
      · rw [hhead] at hc
        obtain rfl := Option.some.inj hc
        decide
  have hparts := hspelled.call
  rw [hskip] at hparts
  rcases hcall with hcall | ⟨type, spaces, more, rfl, hbalanced, hspaces, hmore⟩
  · obtain ⟨rest, rfl, -⟩ := id hcall
    obtain ⟨hnone, hrest⟩ := Prod.mk.inj hparts
    rw [PropertyText.typeAndCall, hnone, Option.bind_none, hrest]
    exact arguments?_of_begins (fun c (hc : c ∈ []) => absurd hc List.not_mem_nil) hcall
  · obtain ⟨hsome, -⟩ := Prod.mk.inj hparts
    rw [PropertyText.typeAndCall, hsome, Option.bind_some,
      typeArgument?_of_passed (passed_of_isBalanced hbalanced)]
    exact arguments?_of_begins hspaces hmore

end Source

section Required
variable {p : PropertyText}

theorem not_isRequired_of_nullable (h : p.delegation.delegate = .nullableValue) :
    (propertyOf p).isRequired = false := by
  simp [propertyOf, Property.isRequired, h]

theorem not_isRequired_of_isGiven {text arguments : List Char} (hp : p ∈ findAll propertyText? text)
    (h : p.delegation.IsGiven arguments) (hne : trim arguments ≠ []) :
    (propertyOf p).isRequired = false := by
  obtain ⟨_, place, _, -, hread⟩ := mem_findFrom hp
  obtain ⟨-, -, callee, after, hspelled⟩ := spelled_of_propertyText? hread
  have hdefault : (propertyOf p).defaultText.isSome = true := by
    simp [propertyOf, arguments?_of_isGiven hspelled h, isSome_defaultText? hne]
  rw [Property.isRequired, Bool.and_eq_false_iff]
  exact .inr (by simpa using hdefault)

end Required

end KotlinSchema
