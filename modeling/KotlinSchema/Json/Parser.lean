import KotlinSchema.Json.Basic
import KotlinSchema.Model.Table
import KotlinSchema.Text.Recogniser

/-! Reading documents. Members keep their order; of several with one name the last value counts, at
the place of the first. Numbers must be integers. -/

namespace KotlinSchema.Json
open Text

def isSpace (c : Char) : Bool := c == ' ' || c == '\n' || c == '\t' || c == '\r'

def skipSpace (cs : List Char) : List Char := cs.dropWhile isSpace

def hexDigit? (c : Char) : Option Nat :=
  if '0' ≤ c ∧ c ≤ '9' then some (c.toNat - '0'.toNat)
  else if 'a' ≤ c ∧ c ≤ 'f' then some (c.toNat - 'a'.toNat + 10)
  else if 'A' ≤ c ∧ c ≤ 'F' then some (c.toNat - 'A'.toNat + 10)
  else none

def unit? (a b c d : Char) : Option Nat := do
  return ((← hexDigit? a) * 16 + (← hexDigit? b)) * 256 + (← hexDigit? c) * 16 + (← hexDigit? d)

def isHigh (n : Nat) : Bool := 0xD800 ≤ n && n < 0xDC00

def isLow (n : Nat) : Bool := 0xDC00 ≤ n && n < 0xE000

def shortEscape? : Char → Option Char
  | '"' => some '"'
  | '\\' => some '\\'
  | '/' => some '/'
  | 'b' => some (Char.ofNat 8)
  | 'f' => some (Char.ofNat 12)
  | 'n' => some '\n'
  | 'r' => some '\r'
  | 't' => some '\t'
  | _ => none

/-- The characters up to the closing quote of a string and the place after it. A character beyond
four digits is escaped as two units, neither of which may stand alone. -/
def stringBody? : List Char → Option (List Char × List Char)
  | [] => none
  | '"' :: rest => some ([], rest)
  | '\\' :: 'u' :: a :: b :: c :: d :: '\\' :: 'u' :: a' :: b' :: c' :: d' :: rest => do
    let first ← unit? a b c d
    if isHigh first then
      let second ← unit? a' b' c' d'
      if isLow second then
        let (cs, rest) ← stringBody? rest
        return (Char.ofNat (0x10000 + (first - 0xD800) * 0x400 + (second - 0xDC00)) :: cs, rest)
      else none
    else if isLow first then none
    else
      let (cs, rest) ← stringBody? ('\\' :: 'u' :: a' :: b' :: c' :: d' :: rest)
      return (Char.ofNat first :: cs, rest)
  | '\\' :: 'u' :: a :: b :: c :: d :: rest => do
    let n ← unit? a b c d
    if isHigh n || isLow n then none
    else
      let (cs, rest) ← stringBody? rest
      return (Char.ofNat n :: cs, rest)
  | '\\' :: e :: rest => do
    let c ← shortEscape? e
    let (cs, rest) ← stringBody? rest
    return (c :: cs, rest)
  | c :: rest =>
    if c = '\\' ∨ c.toNat < 0x20 then none
    else (stringBody? rest).map fun (cs, rest) => (c :: cs, rest)

def natOfDigits (digits : List Char) : Nat :=
  digits.foldl (fun n c => 10 * n + (c.toNat - '0'.toNat)) 0

/-- The digits of a number: no leading zero, and neither a fraction nor an exponent after them. -/
def nat? (cs : List Char) : Option (Nat × List Char) :=
  let digits := cs.takeWhile Char.isDigit
  let rest := cs.dropWhile Char.isDigit
  if digits.isEmpty || (digits.head? == some '0' && digits.length > 1)
      || rest.head?.any (fun c => c == '.' || c == 'e' || c == 'E') then none
  else some (natOfDigits digits, rest)

def int? : List Char → Option (Int × List Char)
  | '-' :: rest => (nat? rest).map fun (n, rest) => (-(n : Int), rest)
  | cs => (nat? cs).map fun (n, rest) => ((n : Int), rest)

mutual

/-- A value at the start of a text, whose nesting the fuel bounds. -/
def value? : Nat → List Char → Option (Json × List Char)
  | 0, _ => none
  | fuel + 1, cs =>
    match skipSpace cs with
    | '"' :: rest => (stringBody? rest).map fun (s, rest) => (str (String.ofList s), rest)
    | '[' :: rest =>
      match skipSpace rest with
      | ']' :: rest => some (arr [], rest)
      | rest => (items? fuel rest).map fun (vs, rest) => (arr vs, rest)
    | '\x7b' :: rest =>
      match skipSpace rest with
      | '\x7d' :: rest => some (obj [], rest)
      | rest => (members? fuel rest).map fun (ms, rest) => (obj (Table.ofList ms).entries, rest)
    | rest =>
      ((after? "null".toList rest).map fun rest => (null, rest)).or <|
        ((after? "true".toList rest).map fun rest => (bool true, rest)).or <|
        ((after? "false".toList rest).map fun rest => (bool false, rest)).or <|
        (int? rest).map fun (n, rest) => (int n, rest)

def items? : Nat → List Char → Option (List Json × List Char)
  | 0, _ => none
  | fuel + 1, cs => do
    let (v, rest) ← value? fuel cs
    match skipSpace rest with
    | ',' :: rest =>
      let (vs, rest) ← items? fuel rest
      return (v :: vs, rest)
    | ']' :: rest => return ([v], rest)
    | _ => none

def members? : Nat → List Char → Option (List (String × Json) × List Char)
  | 0, _ => none
  | fuel + 1, cs => do
    let rest ← after? ['"'] (skipSpace cs)
    let (k, rest) ← stringBody? rest
    let rest ← after? [':'] (skipSpace rest)
    let (v, rest) ← value? fuel rest
    match skipSpace rest with
    | ',' :: rest =>
      let (ms, rest) ← members? fuel rest
      return ((String.ofList k, v) :: ms, rest)
    | '\x7d' :: rest => return ([(String.ofList k, v)], rest)
    | _ => none

end

/-- The document that a text writes. A value takes a character for each step of the fuel, and an
item or member takes two steps at most. -/
def parse? (text : String) : Option Json :=
  match value? (2 * text.toList.length + 1) text.toList with
  | some (v, rest) => if (skipSpace rest).isEmpty then some v else none
  | none => none

end KotlinSchema.Json
