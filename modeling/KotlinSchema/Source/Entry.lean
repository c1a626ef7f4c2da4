import KotlinSchema.Source.Property

/-! Enum entries: a name and, in parentheses, a literal with the schema value and further
arguments. -/

namespace KotlinSchema.Source
open Text

structure EntryText where
  annotations : List Char
  nameAt : List Char
  name : List Char
  value : List Char
  arguments : List Char
  deriving DecidableEq, Repr

/-- The leading name in ASCII letters, digits of any script, and underscores. -/
def entryName? (cs : List Char) : Option (List Char × List Char) :=
  match cs with
  | c :: _ => if c.isAlpha || c == '_' then takeWord1? cs else none
  | [] => none

/-- An entry. Among its further arguments, quotes inside nested parentheses are plain text. -/
def entryText? (before : Option Char) (cs : List Char) : Option (EntryText × List Char) := do
  let stop := (annotationRun cs).2
  if canBeginName (charBefore before cs stop) then
    let (name, rest) ← entryName? stop
    let inside ← after? ['('] (skipBlanks rest)
    let (value, more) ← literal? (skipBlanks inside)
    let rest ← groupEnd? (fun nesting => nesting == .outer) .outer false more
    return (⟨between cs stop, stop, name, value, (between more rest).dropLast⟩, rest)
  else none

/-- The part of an enum body before the first semicolon in code. -/
def entrySection (text : List Char) : List Char :=
  ((marked text).takeWhile fun m => !(m.1 == ';' && m.2 == .code)).map Prod.fst

def outdatedFlag? (before : Option Char) (cs : List Char) : Option (Unit × List Char) :=
  if before.any isWord then none
  else do
    let rest ← after? "outdated".toList cs
    let rest ← after? ['='] (skipBlanks rest)
    let rest ← after? "true".toList (skipBlanks rest)
    if rest.head?.any isWord then none else some ((), rest)

def EntryText.isOutdated (e : EntryText) : Bool := !(findAll outdatedFlag? e.arguments).isEmpty

end KotlinSchema.Source
