import VadService.Base64.Codec

set_option autoImplicit false

/-! # Base64 in both directions

A text is `Canonical` when it is made of whole groups, padded as it should be, and the bits
that complete its last digit are zero. `encode` writes canonical texts, and of all canonical
texts that stand for the same bytes it writes the only one (`encode_read`). So `encode` and
`decode` are inverse to each other, as long as the lengths fit an `int`.
-/

namespace VadService

namespace Base64

open Bits Window

/-! ## Lengths -/

@[simp] theorem length_charBits (chars : List Char) :
    (charBits chars).length = chars.length * 6 := by
  simp [charBits]

/-- The length of a text written by `encode`, up to its padding. -/
theorem length_encode_le (bytes : List UInt8) (n : ℕ) :
    6 * (encode bytes n).length ≤ 8 * (bytes.take n).length + 16 := by
  obtain ⟨chars, pad, htext, -, hbits, hpad⟩ := encode_bits bytes n
  have hlen := congrArg List.length hbits
  rw [length_charBits, List.length_append, length_byteBits, List.length_replicate] at hlen
  rw [← String.length_toList, htext, List.length_append, List.length_replicate]
  omega

/-- A text stands for fewer bytes than it has characters, or for none. -/
theorem length_read_le (s : String) : (read s).length ≤ s.length := by
  have hdigits : (digits s.toList).length ≤ s.toList.length :=
    (List.takeWhile_prefix isBase64).length_le
  rw [String.length_toList] at hdigits
  rw [read, List.length_map, length_windows, length_charBits]
  omega

/-- **Decoding what was encoded**, if the length of the text fits an `int`. -/
theorem decode_encode {bytes : List UInt8} (h : (encode bytes bytes.length).length < 2 ^ 31) :
    decode (encode bytes bytes.length) = bytes := by
  rw [decode_eq_read _ h, read_encode, List.take_length]

/-- The text of fewer than `2^30` bytes fits. -/
theorem length_encode_lt {bytes : List UInt8} (h : bytes.length < 2 ^ 30) :
    (encode bytes bytes.length).length < 2 ^ 31 := by
  have hlen := length_encode_le bytes bytes.length
  rw [List.take_length] at hlen
  omega

/-! ## Canonical texts -/

/-- The bytes of a sequence of alphabet characters. -/
def bytesOf (chars : List Char) : List UInt8 :=
  (windows 8 (charBits chars)).map fun w => UInt8.ofNat (ofBits w)

theorem read_eq_bytesOf (s : String) : read s = bytesOf (digits s.toList) := rfl

/-- A Base64 text in whole groups: alphabet characters, padding up to a multiple of four, and
zeros in the bits after the last whole byte. -/
structure CanonicalAs (chars : List Char) (pad : ℕ) (s : String) : Prop where
  text : s.toList = chars ++ List.replicate pad '='
  alphabet : ∀ c ∈ chars, isBase64 c = true
  pad_le : pad ≤ 2
  groups : (chars.length + pad) % 4 = 0
  trailing : ∀ b ∈ leftover 8 (charBits chars), b = false

/-- A canonical Base64 text. -/
def Canonical (s : String) : Prop := ∃ chars pad, CanonicalAs chars pad s

/-- The value of a byte that is read from eight bits. -/
theorem toBits_ofBits {w : List Bool} (h : w.length = 8) :
    toBits 8 (UInt8.ofNat (ofBits w)).toNat = w := by
  match w, h with
  | [a, b, c, d, e, f, g, i], _ =>
      revert a b c d e f g i
      decide +kernel

/-- The bits of the bytes read from a bit string. -/
theorem byteBits_windows (l : List Bool) :
    byteBits ((windows 8 l).map fun w => UInt8.ofNat (ofBits w)) = (windows 8 l).flatten := by
  have hfull : ∀ w ∈ windows 8 l, toBits 8 (UInt8.ofNat (ofBits w)).toNat = w := by
    intro w hw
    exact toBits_ofBits (length_of_mem_windows hw)
  rw [byteBits, digitBits, List.flatMap_def, List.map_map, List.map_map]
  congr 1
  calc (windows 8 l).map (toBits 8 ∘ UInt8.toNat ∘ fun w => UInt8.ofNat (ofBits w))
      = (windows 8 l).map id := List.map_congr_left hfull
    _ = windows 8 l := List.map_id _

/-- The bits of alphabet characters are those of the bytes read from them, and a rest. -/
theorem charBits_eq (chars : List Char) :
    charBits chars = byteBits (bytesOf chars) ++ leftover 8 (charBits chars) := by
  rw [bytesOf, byteBits_windows, flatten_windows_append (by decide : 0 < 8)]

/-- The character with a given digit. -/
theorem getD_idxOf {c : Char} (h : isBase64 c = true) :
    base64Chars.getD (base64Chars.idxOf c) '\x00' = c := by
  have hlt : base64Chars.idxOf c < base64Chars.length :=
    List.idxOf_lt_length_of_mem (mem_of_isBase64 h)
  rw [List.getD_eq_getElem?_getD, List.getElem?_eq_getElem hlt, Option.getD_some,
    List.getElem_idxOf hlt]

/-- The characters can be read off their bits. -/
theorem chars_of_charBits {chars : List Char} (h : ∀ c ∈ chars, isBase64 c = true) :
    ((windows 6 (charBits chars)).map ofBits).map (fun n => base64Chars.getD n '\x00')
      = chars := by
  have hdigit : ∀ n ∈ chars.map base64Chars.idxOf, n < 2 ^ 6 := by
    intro n hn
    obtain ⟨c, hc, rfl⟩ := List.mem_map.mp hn
    exact (find_toNat (h c hc)).2
  have hshort : ([] : List Bool).length < 6 := by decide
  have hw := windows_digitBits (by decide) hdigit hshort
  rw [List.append_nil] at hw
  rw [charBits, hw, List.map_map]
  calc chars.map ((fun n => base64Chars.getD n '\x00') ∘ base64Chars.idxOf)
      = chars.map id := List.map_congr_left fun c hc => getD_idxOf (h c hc)
    _ = chars := List.map_id chars

/-- **Alphabet characters with the same bits are the same.** -/
theorem charBits_injective {chars chars' : List Char} (h : ∀ c ∈ chars, isBase64 c = true)
    (h' : ∀ c ∈ chars', isBase64 c = true) (hbits : charBits chars = charBits chars') :
    chars = chars' := by
  calc chars = ((windows 6 (charBits chars)).map ofBits).map
        (fun n => base64Chars.getD n '\x00') := (chars_of_charBits h).symm
    _ = ((windows 6 (charBits chars')).map ofBits).map
        (fun n => base64Chars.getD n '\x00') := by rw [hbits]
    _ = chars' := chars_of_charBits h'

/-! ## Well-formed texts -/

/-- A well-formed Base64 text: alphabet characters that are not one over whole groups, and
either no padding or all of it. -/
structure WellFormedAs (chars : List Char) (s : String) : Prop where
  text : ∃ pad, s.toList = chars ++ List.replicate pad '=' ∧
    (pad = 0 ∨ (pad ≤ 2 ∧ (chars.length + pad) % 4 = 0))
  alphabet : ∀ c ∈ chars, isBase64 c = true
  groups : chars.length % 4 ≠ 1

/-- A canonical text is well formed. -/
theorem CanonicalAs.wellFormedAs {chars : List Char} {pad : ℕ} {s : String}
    (h : CanonicalAs chars pad s) : WellFormedAs chars s where
  text := ⟨pad, h.text, Or.inr ⟨h.pad_le, h.groups⟩⟩
  alphabet := h.alphabet
  groups := by
    have hgroups := h.groups
    have hpad := h.pad_le
    omega

/-- **Of a well-formed text every character counts.** -/
theorem WellFormedAs.digits_eq {chars : List Char} {s : String} (h : WellFormedAs chars s) :
    digits s.toList = chars := by
  obtain ⟨pad, htext, -⟩ := h.text
  rw [htext, digits_append_padding h.alphabet]

/-! ## Encoding what was decoded -/

theorem CanonicalAs.read_eq {chars : List Char} {pad : ℕ} {s : String}
    (h : CanonicalAs chars pad s) : read s = bytesOf chars := by
  rw [read_eq_bytesOf, h.wellFormedAs.digits_eq]

/-- The zeros behind the last whole byte of a canonical text are two for each padding
character. -/
theorem CanonicalAs.charBits_eq {chars : List Char} {pad : ℕ} {s : String}
    (h : CanonicalAs chars pad s) :
    charBits chars = byteBits (bytesOf chars) ++ List.replicate (2 * pad) false := by
  have hrest := List.eq_replicate_of_mem h.trailing
  have hlen : (leftover 8 (charBits chars)).length = 2 * pad := by
    have hgroups := h.groups
    have hpad := h.pad_le
    rw [length_leftover, length_charBits]
    omega
  rw [hlen] at hrest
  rw [← hrest]
  exact Base64.charBits_eq chars

/-- **The canonical text that stands for some bytes is the one `encode` writes.** -/
theorem encode_read {s : String} (h : Canonical s) : encode (read s) (read s).length = s := by
  obtain ⟨chars, pad, hs⟩ := h
  obtain ⟨chars', pad', htext, halpha, hbits, hpad⟩ := encode_bits (read s) (read s).length
  rw [List.take_length, hs.read_eq] at hbits
  have hsame := hs.charBits_eq
  have hlen := congrArg List.length hbits
  have hlen' := congrArg List.length hsame
  rw [length_charBits, List.length_append, length_byteBits, List.length_replicate] at hlen hlen'
  -- the bits of the bytes and of whole digits differ by as many zeros on either side
  have hpads : pad' = pad := by
    have := hs.pad_le
    omega
  have hchars : chars' = chars :=
    charBits_injective halpha hs.alphabet (by rw [hbits, hsame, hpads])
  apply String.toList_injective
  rw [htext, hs.text, hchars, hpads]

/-- **Encoding what was decoded.** -/
theorem encode_decode {s : String} (h : Canonical s) (hlen : s.length < 2 ^ 31) :
    encode (decode s) (decode s).length = s := by
  rw [decode_eq_read s hlen]
  exact encode_read h

/-- A text whose length is a multiple of `2^32` decodes to nothing: its length as an `int`
is zero. -/
theorem decode_of_length_wraps {s : String} (h : (s.length : ℤ) % 2 ^ 32 = 0) :
    decode s = [] := by
  have hzero : WordArith.bits32.toSigned s.length = 0 := by
    simp only [WordArith.bits32]
    omega
  have hloop : decodeLoop s.toList 0 [] [] = ([], []) := by
    cases s.toList with
    | nil => rfl
    | cons c chars =>
        unfold decodeLoop
        rw [if_neg (fun hcond => hcond.1 rfl)]
  unfold decode
  dsimp only
  rw [hzero, hloop]
  rfl

end Base64

end VadService
