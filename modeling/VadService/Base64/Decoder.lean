import VadService.Base64.RoundTrip

set_option autoImplicit false

/-! # What `decode` makes of any text

The texts of clients need not be well formed. `decode` reads the alphabet characters a text
starts with, as one bit string, and returns the whole bytes in it, whatever comes behind them
and however many they are.
-/

namespace VadService

namespace Base64

open Bits Window

/-! ## The longest prefix in the alphabet -/

/-- `is_base64` accepts the characters of the alphabet. -/
theorem isBase64_iff (c : Char) : isBase64 c = true ↔ c ∈ base64Chars := by
  have halphabet : base64Chars.all isBase64 = true := by decide +kernel
  exact ⟨mem_of_isBase64, List.all_eq_true.mp halphabet c⟩

/-- `p` is the longest prefix of the text in the alphabet. -/
structure LongestDigits (p : List Char) (s : String) : Prop where
  isPrefixOf : p <+: s.toList
  alphabet : ∀ c ∈ p, c ∈ base64Chars
  longest : ∀ q, q <+: s.toList → (∀ c ∈ q, c ∈ base64Chars) → q.length ≤ p.length

/-- No prefix in the alphabet goes beyond the digits. -/
theorem prefix_digits {q chars : List Char} (hq : q <+: chars)
    (halphabet : ∀ c ∈ q, c ∈ base64Chars) : q <+: digits chars := by
  obtain ⟨rest, rfl⟩ := hq
  rw [digits, List.takeWhile_append_of_pos fun c hc => (isBase64_iff c).mpr (halphabet c hc)]
  exact List.prefix_append q _

/-- The digits of a text are its longest prefix in the alphabet. -/
theorem longestDigits_digits (s : String) : LongestDigits (digits s.toList) s where
  isPrefixOf := List.takeWhile_prefix isBase64
  alphabet := fun c hc => (isBase64_iff c).mp (List.all_eq_true.mp List.all_takeWhile c hc)
  longest := fun _ hq halphabet => (prefix_digits hq halphabet).length_le

theorem LongestDigits.eq_digits {p : List Char} {s : String} (h : LongestDigits p s) :
    p = digits s.toList := by
  apply (prefix_digits h.isPrefixOf h.alphabet).eq_of_length_le
  exact h.longest _ (List.takeWhile_prefix isBase64) (longestDigits_digits s).alphabet

/-! ## The bytes in it -/

theorem length_bytesOf (chars : List Char) : (bytesOf chars).length = 6 * chars.length / 8 := by
  rw [bytesOf, List.length_map, length_windows, length_charBits, Nat.mul_comm]

/-- The bits of the bytes are the bits of the characters up to the last whole byte. -/
theorem byteBits_bytesOf (chars : List Char) :
    byteBits (bytesOf chars) = (charBits chars).take (8 * (6 * chars.length / 8)) := by
  calc byteBits (bytesOf chars) = (windows 8 (charBits chars)).flatten := byteBits_windows _
    _ = (charBits chars).take ((charBits chars).length / 8 * 8) :=
        flatten_windows (by decide : 0 < 8) _
    _ = (charBits chars).take (8 * (6 * chars.length / 8)) := by
        rw [length_charBits, Nat.mul_comm chars.length, Nat.mul_comm 8]

/-- **What `decode` returns for a text whose length fits an `int`**: the whole bytes in the bit
string of its longest prefix in the alphabet. -/
theorem decode_longestDigits (s : String) (hs : s.length < 2 ^ 31) (p : List Char)
    (hp : LongestDigits p s) :
    (decode s).length = 6 * p.length / 8 ∧
      byteBits (decode s) = (charBits p).take (8 * (6 * p.length / 8)) ∧
      decode s = (windows 8 (charBits p)).map fun w => UInt8.ofNat (ofBits w) := by
  have hdecode : decode s = bytesOf p := by
    calc decode s = read s := decode_eq_read s hs
      _ = bytesOf (digits s.toList) := read_eq_bytesOf s
      _ = bytesOf p := by rw [hp.eq_digits]
  rw [hdecode]
  exact ⟨length_bytesOf p, byteBits_bytesOf p, rfl⟩

/-- Two groups and two characters, and an invalid character behind them. -/
theorem decode_longestDigits_tail :
    (decode "TWFuTWFuTW?u").length = 6 * 10 / 8 ∧
      byteBits (decode "TWFuTWFuTW?u")
        = (charBits "TWFuTWFuTW".toList).take (8 * (6 * 10 / 8)) ∧
      decode "TWFuTWFuTW?u"
        = (windows 8 (charBits "TWFuTWFuTW".toList)).map fun w => UInt8.ofNat (ofBits w) := by
  have hdigits : "TWFuTWFuTW".toList = digits "TWFuTWFuTW?u".toList := by decide +kernel
  exact decode_longestDigits "TWFuTWFuTW?u" (by decide +kernel) "TWFuTWFuTW".toList
    (hdigits ▸ longestDigits_digits _)

end Base64

end VadService
