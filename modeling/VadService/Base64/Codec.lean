import VadService.Base64.Basic
import VadService.Lib.Bits

set_option autoImplicit false

/-! # What a Base64 text stands for

`read` is the meaning of a Base64 text, as bits: the characters of the alphabet it starts
with are digits of six bits each, and the bytes are the complete groups of eight of these
bits. `encode` writes a text that stands for its input (`read_encode`), and `decode` reads
every text of less than `2^31` characters (`decode_eq_read`).
-/

namespace VadService

namespace Base64

open Bits Window

/-- The alphabet characters a text starts with. -/
def digits (chars : List Char) : List Char := chars.takeWhile isBase64

/-- The bits of a sequence of alphabet characters. -/
def charBits (chars : List Char) : List Bool := digitBits 6 (chars.map base64Chars.idxOf)

/-- The bits of a sequence of bytes. -/
def byteBits (bytes : List UInt8) : List Bool := digitBits 8 (bytes.map UInt8.toNat)

/-- The bytes a Base64 text stands for. -/
def read (s : String) : List UInt8 :=
  (windows 8 (charBits (digits s.toList))).map fun w => UInt8.ofNat (ofBits w)

@[simp] theorem byteBits_nil : byteBits [] = [] := rfl

@[simp] theorem byteBits_append (l l' : List UInt8) :
    byteBits (l ++ l') = byteBits l ++ byteBits l' := by
  simp [byteBits]

@[simp] theorem charBits_nil : charBits [] = [] := rfl

@[simp] theorem charBits_append (l l' : List Char) :
    charBits (l ++ l') = charBits l ++ charBits l' := by
  simp [charBits]

@[simp] theorem length_byteBits (l : List UInt8) : (byteBits l).length = l.length * 8 := by
  simp [byteBits]

/-- **Cutting the bits of bytes gives back the bytes.** -/
theorem windows_byteBits (l : List UInt8) {rest : List Bool} (h : rest.length < 8) :
    ((windows 8 (byteBits l ++ rest)).map fun w => UInt8.ofNat (ofBits w)) = l := by
  have hl : ∀ n ∈ l.map UInt8.toNat, n < 2 ^ 8 := by
    intro n hn
    obtain ⟨b, -, rfl⟩ := List.mem_map.mp hn
    exact b.toNat_lt
  have hw := windows_digitBits (by decide : 0 < 8) hl h
  calc ((windows 8 (byteBits l ++ rest)).map fun w => UInt8.ofNat (ofBits w))
      = ((windows 8 (byteBits l ++ rest)).map ofBits).map UInt8.ofNat := by
        rw [List.map_map]
        rfl
    _ = (l.map UInt8.toNat).map UInt8.ofNat := by rw [byteBits, hw]
    _ = l := by simp [List.map_map, Function.comp_def]

/-! ## Single groups -/

/-- A fact about every byte, by running through the bytes. -/
theorem forall_byte {P : UInt8 → Prop} (h : ∀ n : Fin 256, P (UInt8.ofNat n)) (b : UInt8) :
    P b := by
  have := h ⟨b.toNat, b.toNat_lt⟩
  simpa using this

theorem high6 (a : UInt8) : ((a &&& 0xfc) >>> 2).toNat = a.toNat / 4 :=
  forall_byte (P := fun a => ((a &&& 0xfc) >>> 2).toNat = a.toNat / 4) (by decide +kernel) a

theorem low2 (a : UInt8) : ((a &&& 0x03) <<< 4).toNat = a.toNat % 4 * 16 :=
  forall_byte (P := fun a => ((a &&& 0x03) <<< 4).toNat = a.toNat % 4 * 16) (by decide +kernel) a

theorem high4 (a : UInt8) : ((a &&& 0xf0) >>> 4).toNat = a.toNat / 16 :=
  forall_byte (P := fun a => ((a &&& 0xf0) >>> 4).toNat = a.toNat / 16) (by decide +kernel) a

theorem low4 (a : UInt8) : ((a &&& 0x0f) <<< 2).toNat = a.toNat % 16 * 4 :=
  forall_byte (P := fun a => ((a &&& 0x0f) <<< 2).toNat = a.toNat % 16 * 4) (by decide +kernel) a

theorem high2 (a : UInt8) : ((a &&& 0xc0) >>> 6).toNat = a.toNat / 64 :=
  forall_byte (P := fun a => ((a &&& 0xc0) >>> 6).toNat = a.toNat / 64) (by decide +kernel) a

theorem low6 (a : UInt8) : (a &&& 0x3f).toNat = a.toNat % 64 :=
  forall_byte (P := fun a => (a &&& 0x3f).toNat = a.toNat % 64) (by decide +kernel) a

/-- The sextets are the bytes, six bits at a time. -/
theorem sextets_toNat (a b c : UInt8) : (sextets a b c).map UInt8.toNat =
    [a.toNat / 4, a.toNat % 4 * 16 + b.toNat / 16, b.toNat % 16 * 4 + c.toNat / 64,
      c.toNat % 64] := by
  have ha := a.toNat_lt
  have hb := b.toNat_lt
  have hc := c.toNat_lt
  simp only [sextets, List.map_cons, List.map_nil, UInt8.toNat_add, high6, low2, high4, low4,
    high2, low6]
  have h1 : (a.toNat % 4 * 16 + b.toNat / 16) % 2 ^ 8 = a.toNat % 4 * 16 + b.toNat / 16 := by
    omega
  have h2 : (b.toNat % 16 * 4 + c.toNat / 64) % 2 ^ 8 = b.toNat % 16 * 4 + c.toNat / 64 := by
    omega
  rw [h1, h2]

/-! ## The alphabet -/

theorem length_base64Chars : base64Chars.length = 64 := by decide +kernel

theorem charAt_spec : ∀ n : Fin 64, isBase64 (charAt (UInt8.ofNat n)) = true ∧
    base64Chars.idxOf (charAt (UInt8.ofNat n)) = n := by
  decide +kernel

/-- A sextet selects a character of the alphabet. -/
theorem charAt_of_lt {n : UInt8} (h : n.toNat < 64) :
    isBase64 (charAt n) = true ∧ base64Chars.idxOf (charAt n) = n.toNat := by
  have := charAt_spec ⟨n.toNat, h⟩
  simpa using this

theorem mem_of_isBase64_lt : ∀ n : Fin 128, isBase64 (Char.ofNat n) = true →
    Char.ofNat n ∈ base64Chars := by
  decide +kernel

/-- `is_base64` accepts the characters of the alphabet only. -/
theorem mem_of_isBase64 {c : Char} (h : isBase64 c = true) : c ∈ base64Chars := by
  have hlt : c.toNat < 128 := by
    simp only [isBase64, isalnum, Bool.or_eq_true, Bool.and_eq_true, decide_eq_true_eq,
      beq_iff_eq] at h
    rcases h with ((((h | h) | h) | rfl) | rfl)
    · omega
    · omega
    · omega
    · decide
    · decide
  have := mem_of_isBase64_lt ⟨c.toNat, hlt⟩
  simp only [Char.ofNat_toNat] at this
  exact this h

/-- The table lookup of the decoder, on the characters it lets through. -/
theorem find_toNat {c : Char} (h : isBase64 c = true) :
    (find c).toNat = base64Chars.idxOf c ∧ base64Chars.idxOf c < 64 := by
  have hmem := mem_of_isBase64 h
  have hlt : base64Chars.idxOf c < 64 := by
    rw [← length_base64Chars]
    exact List.idxOf_lt_length_of_mem hmem
  refine ⟨?_, hlt⟩
  rw [find, if_pos hmem]
  exact UInt8.toNat_ofNat_of_lt' (hlt.trans (by decide))

/-! ## Encoding -/

theorem sextet_lt (a b c : UInt8) : ∀ n ∈ sextets a b c, n.toNat < 64 := by
  intro n hn
  have hmem : n.toNat ∈ (sextets a b c).map UInt8.toNat := List.mem_map_of_mem hn
  have ha := a.toNat_lt
  have hb := b.toNat_lt
  have hc := c.toNat_lt
  rw [sextets_toNat] at hmem
  simp only [List.mem_cons, List.not_mem_nil, or_false] at hmem
  omega

theorem isBase64_of_mem_group {arr : List UInt8} {c : Char} (h : c ∈ encodeGroup arr) :
    isBase64 c = true := by
  obtain ⟨n, hn, rfl⟩ := List.mem_map.mp h
  exact (charAt_of_lt (sextet_lt _ _ _ n hn)).1

/-- The digits of a group are the sextets. -/
theorem idxOf_group (arr : List UInt8) : (encodeGroup arr).map base64Chars.idxOf
    = (sextets (arr.getD 0 0) (arr.getD 1 0) (arr.getD 2 0)).map UInt8.toNat := by
  rw [encodeGroup, List.map_map]
  exact List.map_congr_left fun n hn => (charAt_of_lt (sextet_lt _ _ _ n hn)).2

/-- The bits of a full group are the bits of its three bytes. -/
theorem charBits_group (a b c : UInt8) :
    charBits (encodeGroup [a, b, c]) = byteBits [a, b, c] := by
  have ha := a.toNat_lt
  have hb := b.toNat_lt
  have hc := c.toNat_lt
  have h1 : toBits 6 (a.toNat / 4) ++ toBits 2 (a.toNat % 4) = toBits 8 a.toNat :=
    (toBits_add 6 2 a.toNat).symm
  have h2 : toBits 6 (a.toNat % 4 * 16 + b.toNat / 16)
      = toBits 2 (a.toNat % 4) ++ toBits 4 (b.toNat / 16) :=
    toBits_mul_add (v := 2) (w := 4) _ (by omega)
  have h3 : toBits 4 (b.toNat / 16) ++ toBits 4 (b.toNat % 16) = toBits 8 b.toNat :=
    (toBits_add 4 4 b.toNat).symm
  have h4 : toBits 6 (b.toNat % 16 * 4 + c.toNat / 64)
      = toBits 4 (b.toNat % 16) ++ toBits 2 (c.toNat / 64) :=
    toBits_mul_add (v := 4) (w := 2) _ (by omega)
  have h5 : toBits 2 (c.toNat / 64) ++ toBits 6 (c.toNat % 64) = toBits 8 c.toNat :=
    (toBits_add 2 6 c.toNat).symm
  rw [charBits, idxOf_group]
  simp only [List.getD_cons_zero, List.getD_cons_succ, sextets_toNat, byteBits, List.map_cons,
    List.map_nil, digitBits_cons, digitBits_nil, List.append_nil, ← h1, h2, ← h3, h4, ← h5,
    List.append_assoc]

/-- The bits of the last group, which holds one or two bytes: those of its bytes, and zeros
up to the end of the last digit. -/
theorem charBits_last_group {arr : List UInt8} (h0 : arr.length ≠ 0) (h3 : arr.length < 3) :
    charBits ((encodeGroup arr).take (arr.length + 1))
      = byteBits arr ++ List.replicate (6 - 2 * arr.length) false := by
  have htake : charBits ((encodeGroup arr).take (arr.length + 1))
      = (charBits (encodeGroup arr)).take ((arr.length + 1) * 6) := by
    rw [charBits, List.map_take, digitBits_take, charBits]
  have hzero : byteBits [0] = List.replicate 8 false := by simp [byteBits]
  rw [htake]
  match arr, h0, h3 with
  | [a], _, _ =>
      have hfill : encodeGroup [a] = encodeGroup [a, 0, 0] := rfl
      have hbits : byteBits [a, 0, 0] = byteBits [a] ++ List.replicate 16 false := by
        rw [show [a, 0, 0] = [a] ++ ([0] ++ [0]) from rfl, byteBits_append, byteBits_append,
          hzero, List.replicate_append_replicate]
      calc (charBits (encodeGroup [a])).take 12
          = (byteBits [a] ++ List.replicate 16 false).take 12 := by
            rw [hfill, charBits_group, hbits]
        _ = byteBits [a] ++ List.replicate 4 false := by
            rw [List.take_append, List.take_of_length_le (by simp), length_byteBits,
              List.take_replicate]
            rfl
  | [a, b], _, _ =>
      have hfill : encodeGroup [a, b] = encodeGroup [a, b, 0] := rfl
      have hbits : byteBits [a, b, 0] = byteBits [a, b] ++ List.replicate 8 false := by
        rw [show [a, b, 0] = [a, b] ++ [0] from rfl, byteBits_append, hzero]
      calc (charBits (encodeGroup [a, b])).take 18
          = (byteBits [a, b] ++ List.replicate 8 false).take 18 := by
            rw [hfill, charBits_group, hbits]
        _ = byteBits [a, b] ++ List.replicate 2 false := by
            rw [List.take_append, List.take_of_length_le (by simp), length_byteBits,
              List.take_replicate]
            rfl

/-- What the loop of `encode` has read is what it has written and what waits in
`char_array_3`. -/
structure EncodeInv (bytes : List UInt8) (s : List UInt8 × List Char) : Prop where
  pending : s.1.length < 3
  alphabet : ∀ c ∈ s.2, isBase64 c = true
  bits : charBits s.2 ++ byteBits s.1 = byteBits bytes

theorem encodeLoop_inv (bytes : List UInt8) {done arr : List UInt8} {ret : List Char}
    (h : EncodeInv done (arr, ret)) :
    EncodeInv (done ++ bytes) (encodeLoop bytes arr ret) := by
  induction bytes generalizing done arr ret with
  | nil =>
      rw [List.append_nil]
      exact h
  | cons b bytes ih =>
      obtain ⟨hp, ha, hb⟩ := h
      dsimp only at hp ha hb
      have happend : done ++ b :: bytes = (done ++ [b]) ++ bytes := by simp
      unfold encodeLoop
      rw [happend]
      dsimp only
      split_ifs with hfull
      · -- the third byte of a group
        refine ih ⟨by simp, ?_, ?_⟩
        · intro c hc
          rcases List.mem_append.mp hc with hc | hc
          · exact ha c hc
          · exact isBase64_of_mem_group hc
        · match arr, hp, hfull with
          | [x, y], _, _ =>
              have hgroup : charBits (encodeGroup ([x, y] ++ [b]))
                  = byteBits [x, y] ++ byteBits [b] :=
                (charBits_group x y b).trans (byteBits_append [x, y] [b])
              simp only [charBits_append, hgroup, byteBits_nil, List.append_nil, byteBits_append,
                ← hb, List.append_assoc]
      · refine ih ⟨?_, ha, ?_⟩
        · simp only [List.length_append, List.length_singleton] at hfull ⊢
          omega
        · simp only [byteBits_append, ← hb, List.append_assoc]

/-- **The text `encode` writes**: alphabet characters with the bits of the bytes, and padding
with two zero bits in front of it for each of its characters. -/
theorem encode_bits (bytes : List UInt8) (n : ℕ) : ∃ chars pad,
    (encode bytes n).toList = chars ++ List.replicate pad '=' ∧
      (∀ c ∈ chars, isBase64 c = true) ∧
      charBits chars = byteBits (bytes.take n) ++ List.replicate (2 * pad) false ∧ pad < 3 := by
  have hinv : EncodeInv (bytes.take n) (encodeLoop (bytes.take n) [] []) :=
    encodeLoop_inv (bytes.take n) (show EncodeInv [] ([], []) from ⟨by simp, by simp, rfl⟩)
  unfold encode
  generalize encodeLoop (bytes.take n) [] [] = s at hinv
  obtain ⟨arr, ret⟩ := s
  obtain ⟨hp, ha, hb⟩ := hinv
  dsimp only at hp ha hb ⊢
  split_ifs with h0
  · refine ⟨ret, 0, by simp, ha, ?_, by omega⟩
    rw [← hb, List.length_eq_zero_iff.mp h0]
    simp
  · refine ⟨ret ++ (encodeGroup arr).take (arr.length + 1), 3 - arr.length, by simp, ?_, ?_,
      by omega⟩
    · intro c hc
      rcases List.mem_append.mp hc with hc | hc
      · exact ha c hc
      · exact isBase64_of_mem_group (List.mem_of_mem_take hc)
    · rw [charBits_append, charBits_last_group h0 hp, ← hb, List.append_assoc, Nat.mul_sub]

/-- Reading stops in front of the padding, which is not in the alphabet. -/
theorem digits_append_padding {chars : List Char} (h : ∀ c ∈ chars, isBase64 c = true) (pad : ℕ) :
    digits (chars ++ List.replicate pad '=') = chars := by
  have hpad : (List.replicate pad '=').takeWhile isBase64 = [] := by
    cases pad with
    | zero => rfl
    | succ pad => rfl
  rw [digits, List.takeWhile_append_of_pos h, hpad, List.append_nil]

/-- **A text written by `encode` stands for the bytes it was given.** -/
theorem read_encode (bytes : List UInt8) (n : ℕ) : read (encode bytes n) = bytes.take n := by
  obtain ⟨chars, pad, htext, halpha, hbits, hpad⟩ := encode_bits bytes n
  calc read (encode bytes n)
      = (windows 8 (byteBits (bytes.take n) ++ List.replicate (2 * pad) false)).map
          fun w => UInt8.ofNat (ofBits w) := by
        rw [read, htext, digits_append_padding halpha, hbits]
    _ = bytes.take n := by
        apply windows_byteBits
        rw [List.length_replicate]
        omega

/-! ## Decoding -/

theorem up2 (a : UInt8) : (a <<< 2).toNat = a.toNat % 64 * 4 :=
  forall_byte (P := fun a => (a <<< 2).toNat = a.toNat % 64 * 4) (by decide +kernel) a

theorem mid2 (a : UInt8) : ((a &&& 0x30) >>> 4).toNat = a.toNat / 16 % 4 :=
  forall_byte (P := fun a => ((a &&& 0x30) >>> 4).toNat = a.toNat / 16 % 4) (by decide +kernel) a

theorem up4 (a : UInt8) : ((a &&& 0xf) <<< 4).toNat = a.toNat % 16 * 16 :=
  forall_byte (P := fun a => ((a &&& 0xf) <<< 4).toNat = a.toNat % 16 * 16) (by decide +kernel) a

theorem mid4 (a : UInt8) : ((a &&& 0x3c) >>> 2).toNat = a.toNat / 4 % 16 :=
  forall_byte (P := fun a => ((a &&& 0x3c) >>> 2).toNat = a.toNat / 4 % 16) (by decide +kernel) a

theorem up6 (a : UInt8) : ((a &&& 0x3) <<< 6).toNat = a.toNat % 4 * 64 :=
  forall_byte (P := fun a => ((a &&& 0x3) <<< 6).toNat = a.toNat % 4 * 64) (by decide +kernel) a

section Triple

variable {a b c d : Char}

/-- The bits of the first byte of a group. -/
theorem toBits_first (ha : isBase64 a = true) (hb : isBase64 b = true) :
    toBits 8 ((find a <<< 2) + ((find b &&& 0x30) >>> 4)).toNat
      = toBits 6 (base64Chars.idxOf a) ++ toBits 2 (base64Chars.idxOf b / 16) := by
  obtain ⟨ha, ha'⟩ := find_toNat ha
  obtain ⟨hb, hb'⟩ := find_toNat hb
  rw [UInt8.toNat_add, up2, mid2, ha, hb]
  have hsum : (base64Chars.idxOf a % 64 * 4 + base64Chars.idxOf b / 16 % 4) % 2 ^ 8
      = base64Chars.idxOf a * 2 ^ 2 + base64Chars.idxOf b / 16 := by omega
  rw [hsum]
  exact toBits_mul_add (v := 6) (w := 2) _ (by omega)

/-- The bits of the second byte of a group. -/
theorem toBits_second (hb : isBase64 b = true) (hc : isBase64 c = true) :
    toBits 8 (((find b &&& 0xf) <<< 4) + ((find c &&& 0x3c) >>> 2)).toNat
      = toBits 4 (base64Chars.idxOf b % 16) ++ toBits 4 (base64Chars.idxOf c / 4) := by
  obtain ⟨hb, hb'⟩ := find_toNat hb
  obtain ⟨hc, hc'⟩ := find_toNat hc
  rw [UInt8.toNat_add, up4, mid4, hb, hc]
  have hsum : (base64Chars.idxOf b % 16 * 16 + base64Chars.idxOf c / 4 % 16) % 2 ^ 8
      = base64Chars.idxOf b % 16 * 2 ^ 4 + base64Chars.idxOf c / 4 := by omega
  rw [hsum]
  exact toBits_mul_add (v := 4) (w := 4) _ (by omega)

/-- The bits of the third byte of a group. -/
theorem toBits_third (hc : isBase64 c = true) (hd : isBase64 d = true) :
    toBits 8 (((find c &&& 0x3) <<< 6) + find d).toNat
      = toBits 2 (base64Chars.idxOf c % 4) ++ toBits 6 (base64Chars.idxOf d) := by
  obtain ⟨hc, hc'⟩ := find_toNat hc
  obtain ⟨hd, hd'⟩ := find_toNat hd
  rw [UInt8.toNat_add, up6, hc, hd]
  have hsum : (base64Chars.idxOf c % 4 * 64 + base64Chars.idxOf d) % 2 ^ 8
      = base64Chars.idxOf c % 4 * 2 ^ 6 + base64Chars.idxOf d := by omega
  rw [hsum]
  exact toBits_mul_add (v := 2) (w := 6) _ (by omega)

end Triple

/-- The bits of a group of characters are those of the bytes read from it, and fewer than
eight more; what `char_array_4` is filled up with does not enter. -/
theorem charBits_decodeGroup {arr : List Char} (h : ∀ c ∈ arr, isBase64 c = true)
    (h4 : arr.length ≤ 4) :
    ∃ rest, charBits arr = byteBits ((decodeGroup arr).take (arr.length - 1)) ++ rest ∧
      rest.length = arr.length * 6 - (arr.length - 1) * 8 := by
  have s2 : ∀ n, toBits 6 n = toBits 2 (n / 16) ++ toBits 4 (n % 16) := toBits_add 2 4
  have s4 : ∀ n, toBits 6 n = toBits 4 (n / 4) ++ toBits 2 (n % 4) := toBits_add 4 2
  match arr, h, h4 with
  | [], _, _ => exact ⟨[], rfl, rfl⟩
  | [a], _, _ => exact ⟨charBits [a], rfl, by simp [charBits]⟩
  | [a, b], h, _ =>
      have h1 := toBits_first (h a (by simp)) (h b (by simp))
      refine ⟨toBits 4 (base64Chars.idxOf b % 16), ?_, by simp⟩
      calc charBits [a, b]
          = toBits 6 (base64Chars.idxOf a) ++ (toBits 6 (base64Chars.idxOf b) ++ []) := rfl
        _ = _ := by
            rw [s2 (base64Chars.idxOf b), List.append_nil, ← List.append_assoc, ← h1]
            rfl
  | [a, b, c], h, _ =>
      have h1 := toBits_first (h a (by simp)) (h b (by simp))
      have h2 := toBits_second (h b (by simp)) (h c (by simp))
      refine ⟨toBits 2 (base64Chars.idxOf c % 4), ?_, by simp⟩
      calc charBits [a, b, c]
          = (toBits 6 (base64Chars.idxOf a) ++ toBits 2 (base64Chars.idxOf b / 16)) ++
              (toBits 4 (base64Chars.idxOf b % 16) ++ toBits 4 (base64Chars.idxOf c / 4)) ++
              toBits 2 (base64Chars.idxOf c % 4) := by
            simp only [charBits, List.map_cons, List.map_nil, digitBits_cons, digitBits_nil,
              s2 (base64Chars.idxOf b), s4 (base64Chars.idxOf c), List.append_nil,
              List.append_assoc]
        _ = _ := by
            rw [← h1, ← h2]
            rfl
  | [a, b, c, d], h, _ =>
      have h1 := toBits_first (h a (by simp)) (h b (by simp))
      have h2 := toBits_second (h b (by simp)) (h c (by simp))
      have h3 := toBits_third (h c (by simp)) (h d (by simp))
      refine ⟨[], ?_, by simp⟩
      calc charBits [a, b, c, d]
          = (toBits 6 (base64Chars.idxOf a) ++ toBits 2 (base64Chars.idxOf b / 16)) ++
              ((toBits 4 (base64Chars.idxOf b % 16) ++ toBits 4 (base64Chars.idxOf c / 4)) ++
              (toBits 2 (base64Chars.idxOf c % 4) ++ toBits 6 (base64Chars.idxOf d))) ++ [] := by
            simp only [charBits, List.map_cons, List.map_nil, digitBits_cons, digitBits_nil,
              s2 (base64Chars.idxOf b), s4 (base64Chars.idxOf c), List.append_nil,
              List.append_assoc]
        _ = _ := by
            rw [← h1, ← h2, ← h3]
            rfl

/-- What the loop of `decode` has read is what it has written and what waits in
`char_array_4`. -/
structure DecodeInv (chars : List Char) (s : List Char × List UInt8) : Prop where
  pending : s.1.length < 4
  alphabet : ∀ c ∈ s.1, isBase64 c = true
  bits : byteBits s.2 ++ charBits s.1 = charBits chars

/-- The loop reads the alphabet characters up to the first other one, if `in_len` lets it. -/
theorem decodeLoop_inv (chars : List Char) {done arr : List Char} {ret : List UInt8} {inLen : ℤ}
    (hlen : inLen = chars.length) (h : DecodeInv done (arr, ret)) :
    DecodeInv (done ++ digits chars) (decodeLoop chars inLen arr ret) := by
  induction chars generalizing done arr ret inLen with
  | nil =>
      rw [digits, List.takeWhile_nil, List.append_nil]
      exact h
  | cons c chars ih =>
      have hne : inLen ≠ 0 := by
        rw [hlen, List.length_cons]
        omega
      have hpred : inLen - 1 = chars.length := by
        rw [hlen, List.length_cons]
        omega
      unfold decodeLoop
      by_cases hc : isBase64 c = true
      · obtain ⟨hp, ha, hb⟩ := h
        dsimp only at hp ha hb
        have heq : c ≠ '=' := by
          rintro rfl
          exact absurd hc (by decide)
        have happend : done ++ digits (c :: chars) = (done ++ [c]) ++ digits chars := by
          rw [digits, List.takeWhile_cons_of_pos hc, List.append_assoc]
          rfl
        have halpha : ∀ d ∈ arr ++ [c], isBase64 d = true := by
          intro d hd
          rcases List.mem_append.mp hd with hd | hd
          · exact ha d hd
          · rw [List.mem_singleton.mp hd]
            exact hc
        have hlen1 : (arr ++ [c]).length = arr.length + 1 := by simp
        rw [if_pos ⟨hne, heq, hc⟩, happend]
        dsimp only
        split_ifs with hfull
        · -- the fourth character of a group
          refine ih hpred ⟨by simp, by simp, ?_⟩
          obtain ⟨rest, hbits, hrest⟩ := charBits_decodeGroup halpha (by omega)
          have hnil : rest = [] := List.eq_nil_of_length_eq_zero (by rw [hrest, hfull])
          have hthree : (decodeGroup (arr ++ [c])).take ((arr ++ [c]).length - 1)
              = decodeGroup (arr ++ [c]) := by
            rw [hfull]
            rfl
          rw [hthree, hnil, List.append_nil] at hbits
          calc byteBits (ret ++ decodeGroup (arr ++ [c])) ++ charBits []
              = byteBits ret ++ charBits (arr ++ [c]) := by
                rw [byteBits_append, ← hbits, charBits_nil, List.append_nil]
            _ = byteBits ret ++ charBits arr ++ charBits [c] := by
                rw [charBits_append, List.append_assoc]
            _ = charBits (done ++ [c]) := by rw [hb, charBits_append]
        · refine ih hpred ⟨show (arr ++ [c]).length < 4 by omega, halpha, ?_⟩
          calc byteBits ret ++ charBits (arr ++ [c])
              = byteBits ret ++ charBits arr ++ charBits [c] := by
                rw [charBits_append, List.append_assoc]
            _ = charBits (done ++ [c]) := by rw [hb, charBits_append]
      · rw [if_neg fun hcond => hc hcond.2.2, digits, List.takeWhile_cons_of_neg hc,
          List.append_nil]
        exact h

/-- **`decode` reads every text whose length fits an `int`**, padded or not, up to the first
character outside the alphabet. -/
theorem decode_eq_read (s : String) (h : s.length < 2 ^ 31) : decode s = read s := by
  have hlen : WordArith.bits32.toSigned s.length = s.toList.length := by
    rw [WordArith.bits32_exactBelow.toSigned _ (by omega) (by exact_mod_cast h),
      String.length_toList]
  have hinv : DecodeInv ([] ++ digits s.toList)
      (decodeLoop s.toList (WordArith.bits32.toSigned s.length) [] []) :=
    decodeLoop_inv s.toList hlen ⟨by simp, by simp, rfl⟩
  have hdecode : decode s = (fun r : List Char × List UInt8 =>
      r.2 ++ (decodeGroup r.1).take (r.1.length - 1))
      (decodeLoop s.toList (WordArith.bits32.toSigned s.length) [] []) := rfl
  rw [hdecode]
  generalize decodeLoop s.toList (WordArith.bits32.toSigned s.length) [] [] = r at hinv ⊢
  obtain ⟨arr, ret⟩ := r
  obtain ⟨hp, ha, hb⟩ := hinv
  dsimp only at hp ha hb ⊢
  obtain ⟨rest, hbits, hrest⟩ := charBits_decodeGroup ha (by omega)
  rw [hbits, ← List.append_assoc, ← byteBits_append, List.nil_append] at hb
  rw [read, ← hb]
  -- what `char_array_4` holds beyond its whole bytes is dropped
  have hshort : rest.length < 8 := by omega
  exact (windows_byteBits _ hshort).symm

end Base64

end VadService
