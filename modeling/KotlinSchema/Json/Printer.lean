import KotlinSchema.Json.Basic
import KotlinSchema.Text.Hex

/-! The text of a document: one value a line, two blanks a level, members in order. In strings only
quotes, backslashes and control characters are escaped. -/

namespace KotlinSchema.Json
open Text

def escapeChar (c : Char) : List Char :=
  if c = '"' then ['\\', '"']
  else if c = '\\' then ['\\', '\\']
  else if c = '\n' then ['\\', 'n']
  else if c = '\r' then ['\\', 'r']
  else if c = '\t' then ['\\', 't']
  else if c.toNat = 8 then ['\\', 'b']
  else if c.toNat = 12 then ['\\', 'f']
  else if c.toNat < 0x20 then '\\' :: 'u' :: hex 4 c.toNat
  else [c]

def stringText (s : String) : List Char := '"' :: s.toList.flatMap escapeChar ++ ['"']

def newLine (depth : Nat) : List Char := '\n' :: List.replicate (2 * depth) ' '

mutual

/-- The text of a value whose last line has an indentation of `depth` levels. -/
def text (depth : Nat) : Json → List Char
  | null => "null".toList
  | bool b => (if b then "true" else "false").toList
  | int n => (toString n).toList
  | str s => stringText s
  | arr [] => ['[', ']']
  | arr (v :: vs) => '[' :: itemsText (depth + 1) (v :: vs) ++ newLine depth ++ [']']
  | obj [] => ['\x7b', '\x7d']
  | obj (m :: ms) =>
    '\x7b' :: membersText (depth + 1) (m :: ms) ++ newLine depth ++ ['\x7d']

def itemsText (depth : Nat) : List Json → List Char
  | [] => []
  | [v] => newLine depth ++ text depth v
  | v :: vs => newLine depth ++ text depth v ++ ',' :: itemsText depth vs

def membersText (depth : Nat) : List (String × Json) → List Char
  | [] => []
  | [(k, v)] => newLine depth ++ stringText k ++ [':', ' '] ++ text depth v
  | (k, v) :: ms =>
    newLine depth ++ stringText k ++ [':', ' '] ++ text depth v ++ ',' :: membersText depth ms

end

def render (document : Json) : String := String.ofList (text 0 document ++ ['\n'])

end KotlinSchema.Json
