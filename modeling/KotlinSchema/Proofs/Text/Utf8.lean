import KotlinSchema.Text.Utf8

/-! Bytes that encode a text read as that text. -/

namespace KotlinSchema.Text.Utf8

section Bytes
variable {owed low high code n m : Nat} {b : UInt8} {bytes : List UInt8}

theorem run_lead (b : UInt8) (bytes : List UInt8) :
    run .ready (b :: bytes) = (lead b.toNat).1 ++ run (lead b.toNat).2 bytes := rfl

theorem run_inside (hlow : low ≤ b.toNat) (hhigh : b.toNat ≤ high) :
    run (.inside (owed + 2) low high code) (b :: bytes) =
      run (.inside (owed + 1) 0x80 0xBF (code * 0x40 + (b.toNat - 0x80))) bytes := by
  simp [run, step, hlow, hhigh]

theorem run_last (hlow : low ≤ b.toNat) (hhigh : b.toNat ≤ high) :
    run (.inside 1 low high code) (b :: bytes) =
      Char.ofNat (code * 0x40 + (b.toNat - 0x80)) :: run .ready bytes := by
  simp [run, step, hlow, hhigh]

theorem lead_two (hn : 2 ≤ n) (hn' : n < 0x20) :
    lead (n + 0xC0) = ([], .inside 1 0x80 0xBF n) := by
  simp only [lead]
  rw [if_neg (by omega), if_neg (by omega), if_pos (by omega), Nat.add_sub_cancel]

theorem lead_three (hn : n < 0x10) (hm : m < 0x40) (hlong : n = 0 → 0x20 ≤ m)
    (hsurrogate : n = 0xD → m < 0x20) :
    ∃ low high, lead (n + 0xE0) = ([], .inside 2 low high n) ∧
      low ≤ m + 0x80 ∧ m + 0x80 ≤ high := by
  simp only [lead]
  rw [if_neg (by omega), if_neg (by omega), if_neg (by omega)]
  by_cases hzero : n = 0
  · subst hzero
    exact ⟨0xA0, 0xBF, rfl, by omega, by omega⟩
  by_cases hD : n = 0xD
  · subst hD
    exact ⟨0x80, 0x9F, rfl, by omega, by omega⟩
  · rw [if_neg (by simpa using hzero), if_neg (by simpa using hD), if_pos (by omega),
      Nat.add_sub_cancel]
    exact ⟨0x80, 0xBF, rfl, by omega, by omega⟩

theorem lead_four (hn : n ≤ 4) (hm : m < 0x40) (hlong : n = 0 → 0x10 ≤ m)
    (hlast : n = 4 → m < 0x10) :
    ∃ low high, lead (n + 0xF0) = ([], .inside 3 low high n) ∧
      low ≤ m + 0x80 ∧ m + 0x80 ≤ high := by
  simp only [lead]
  rw [if_neg (by omega), if_neg (by omega), if_neg (by omega), if_neg (by simp),
    if_neg (by simp), if_neg (by omega)]
  by_cases hzero : n = 0
  · subst hzero
    exact ⟨0x90, 0xBF, rfl, by omega, by omega⟩
  by_cases hfour : n = 4
  · subst hfour
    exact ⟨0x80, 0x8F, rfl, by omega, by omega⟩
  · rw [if_neg (by simp; omega), if_pos (by omega), Nat.add_sub_cancel]
    exact ⟨0x80, 0xBF, rfl, by omega, by omega⟩

theorem toNat_ofNat (h : n < 0x100) : (UInt8.ofNat n).toNat = n := by
  simpa using Nat.mod_eq_of_lt h

end Bytes

theorem run_utf8EncodeChar (c : Char) (bytes : List UInt8) :
    run .ready (String.utf8EncodeChar c ++ bytes) = c :: run .ready bytes := by
  have hvalid : c.val.toNat < 0xD800 ∨ 0xDFFF < c.val.toNat ∧ c.val.toNat < 0x110000 := c.valid
  have hchar : Char.ofNat c.val.toNat = c := Char.ofNat_toNat c
  rw [String.utf8EncodeChar]
  generalize c.val.toNat = v at hvalid hchar
  split
  · rename_i hone
    rw [List.singleton_append, run_lead, toNat_ofNat (by omega), lead, if_pos (by omega), hchar]
    rfl
  split
  · rename_i hone htwo
    have hn : v / 64 % 32 = v / 64 := Nat.mod_eq_of_lt (by omega)
    rw [hn]
    simp only [List.cons_append, List.nil_append]
    rw [run_lead, toNat_ofNat (by omega), lead_two (by omega) (by omega),
      List.nil_append, run_last (by rw [toNat_ofNat] <;> omega) (by rw [toNat_ofNat] <;> omega),
      toNat_ofNat (by omega)]
    rw [show v / 64 * 0x40 + (v % 64 + 128 - 0x80) = v by omega, hchar]
  split
  · rename_i hone htwo hthree
    have hn : v / 4096 % 16 = v / 4096 := Nat.mod_eq_of_lt (by omega)
    rw [hn]
    obtain ⟨low, high, hlead, hlow, hhigh⟩ := lead_three (n := v / 4096) (m := v / 64 % 64)
      (by omega) (by omega) (by omega) (by omega)
    simp only [List.cons_append, List.nil_append]
    rw [run_lead, toNat_ofNat (by omega), hlead, List.nil_append,
      run_inside (by rwa [toNat_ofNat (by omega)]) (by rwa [toNat_ofNat (by omega)]),
      run_last (by rw [toNat_ofNat] <;> omega) (by rw [toNat_ofNat] <;> omega),
      toNat_ofNat (by omega), toNat_ofNat (by omega)]
    rw [show (v / 4096 * 0x40 + (v / 64 % 64 + 128 - 0x80)) * 0x40 + (v % 64 + 128 - 0x80) = v by
      omega, hchar]
  · rename_i hone htwo hthree
    have hn : v / 262144 % 8 = v / 262144 := Nat.mod_eq_of_lt (by omega)
    rw [hn]
    obtain ⟨low, high, hlead, hlow, hhigh⟩ := lead_four (n := v / 262144) (m := v / 4096 % 64)
      (by omega) (by omega) (by omega) (by omega)
    simp only [List.cons_append, List.nil_append]
    rw [run_lead, toNat_ofNat (by omega), hlead, List.nil_append,
      run_inside (by rwa [toNat_ofNat (by omega)]) (by rwa [toNat_ofNat (by omega)]),
      run_inside (by rw [toNat_ofNat] <;> omega) (by rw [toNat_ofNat] <;> omega),
      run_last (by rw [toNat_ofNat] <;> omega) (by rw [toNat_ofNat] <;> omega),
      toNat_ofNat (by omega), toNat_ofNat (by omega), toNat_ofNat (by omega)]
    rw [show ((v / 262144 * 0x40 + (v / 4096 % 64 + 128 - 0x80)) * 0x40 +
      (v / 64 % 64 + 128 - 0x80)) * 0x40 + (v % 64 + 128 - 0x80) = v by omega, hchar]

theorem toList_loop (bytes : ByteArray) (i : Nat) (r : List UInt8) :
    ByteArray.toList.loop bytes i r = r.reverse ++ bytes.data.toList.drop i := by
  fun_induction ByteArray.toList.loop bytes i r with
  | case1 i r hi ih =>
    have hi' : i < bytes.data.toList.length := hi
    rw [ih, List.drop_eq_getElem_cons hi', List.reverse_cons, List.append_assoc]
    simp [ByteArray.get!, getElem!_pos bytes.data i hi]
  | case2 i r hi =>
    have hi' : bytes.data.toList.length ≤ i := Nat.not_lt.1 hi
    rw [List.drop_eq_nil_of_le hi', List.append_nil]

theorem toList_eq_data (bytes : ByteArray) : bytes.toList = bytes.data.toList :=
  toList_loop bytes 0 []

theorem decode_toUTF8 (s : String) : decode s.toUTF8.toList = s.toList := by
  have hrun : ∀ cs : List Char, run .ready (cs.flatMap String.utf8EncodeChar) = cs := by
    intro cs
    induction cs with
    | nil => rfl
    | cons c cs ih => rw [List.flatMap_cons, run_utf8EncodeChar, ih]
  have hbytes : s.toUTF8.toList = s.toList.flatMap String.utf8EncodeChar := by
    rw [String.toUTF8_eq_toByteArray, ← String.utf8Encode_toList]
    rw [List.utf8Encode, toList_eq_data, List.toList_data_toByteArray]
  rw [decode, hbytes, hrun]

end KotlinSchema.Text.Utf8
