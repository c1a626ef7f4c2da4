import KotlinSchema.Text.Ranges
import KotlinSchema.Text.UnprintableTable

/-! Characters that are shown as they are where a text is quoted in a message. -/

namespace KotlinSchema.Text

def isPrintable (c : Char) : Bool :=
  if c.toNat < 0x80 then 0x20 ≤ c.toNat && c.toNat < 0x7F
  else !inRanges unprintableRanges c.toNat

end KotlinSchema.Text
