/-! Bytes read as UTF-8. Reading never fails: each longest stretch of bytes that begins a character
but does not complete one reads as a single replacement character. -/

namespace KotlinSchema.Text.Utf8

/-- Between two characters, or inside one that still needs `owed` bytes, the next of which lies
between `low` and `high`; `code` holds the bits read so far. -/
inductive State where
  | ready
  | inside (owed low high code : Nat)
  deriving DecidableEq, Repr

def replacement : Char := Char.ofNat 0xFFFD

def lead (b : Nat) : List Char × State :=
  if b < 0x80 then ([Char.ofNat b], .ready)
  else if b < 0xC2 then ([replacement], .ready)
  else if b < 0xE0 then ([], .inside 1 0x80 0xBF (b - 0xC0))
  else if b == 0xE0 then ([], .inside 2 0xA0 0xBF 0)
  else if b == 0xED then ([], .inside 2 0x80 0x9F (b - 0xE0))
  else if b < 0xF0 then ([], .inside 2 0x80 0xBF (b - 0xE0))
  else if b == 0xF0 then ([], .inside 3 0x90 0xBF 0)
  else if b < 0xF4 then ([], .inside 3 0x80 0xBF (b - 0xF0))
  else if b == 0xF4 then ([], .inside 3 0x80 0x8F (b - 0xF0))
  else ([replacement], .ready)

def step : State → Nat → List Char × State
  | .ready, b => lead b
  | .inside owed low high code, b =>
    if low ≤ b && b ≤ high then
      let code := code * 0x40 + (b - 0x80)
      if owed ≤ 1 then ([Char.ofNat code], .ready)
      else ([], .inside (owed - 1) 0x80 0xBF code)
    else
      let (out, state) := lead b
      (replacement :: out, state)

def run : State → List UInt8 → List Char
  | .ready, [] => []
  | .inside .., [] => [replacement]
  | state, b :: bs => (step state b.toNat).1 ++ run (step state b.toNat).2 bs

def decode (bytes : List UInt8) : List Char := run .ready bytes

end KotlinSchema.Text.Utf8
