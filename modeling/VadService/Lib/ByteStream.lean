import VadService.Lib.Window
import Mathlib.Data.Nat.Digits.Defs

set_option autoImplicit false

/-! # Files of bytes

A number is written in a fixed number of bytes, the low ones first (`littleEndian`), and
`unsigned` and `signed` are the numbers that bytes stand for.

A `ReadStream` is a file with a position, which may lie behind its end. `read` overwrites the
start of a buffer with the bytes there are, so a short read leaves the end of the buffer as it
was. What a stream has still to give is its `rest`; the lemmas about the operations are stated
with it.
-/

/-! ## Numbers in bytes -/

namespace ByteStream

open Window

/-- The low `w` bytes of `n`, the lowest first. -/
def littleEndian : ℕ → ℕ → List UInt8
  | 0, _ => []
  | w + 1, n => UInt8.ofNat n :: littleEndian w (n / 256)

/-- The number that bytes stand for, the lowest first. -/
def unsigned (bytes : List UInt8) : ℕ := Nat.ofDigits 256 (bytes.map UInt8.toNat)

/-- The number in two's complement. -/
def signed (bytes : List UInt8) : ℤ := (unsigned bytes : ℤ).bmod (256 ^ bytes.length)

/-- The bytes of an integer in two's complement. -/
def ofInt (w : ℕ) (x : ℤ) : List UInt8 := littleEndian w (x % 256 ^ w).toNat

@[simp] theorem length_littleEndian (w n : ℕ) : (littleEndian w n).length = w := by
  induction w generalizing n with
  | zero => rfl
  | succ w ih => rw [littleEndian, List.length_cons, ih]

@[simp] theorem length_ofInt (w : ℕ) (x : ℤ) : (ofInt w x).length = w := length_littleEndian _ _

theorem unsigned_cons (b : UInt8) (bytes : List UInt8) :
    unsigned (b :: bytes) = b.toNat + 256 * unsigned bytes := by
  simp [unsigned, Nat.ofDigits_cons]

theorem unsigned_littleEndian (w n : ℕ) : unsigned (littleEndian w n) = n % 256 ^ w := by
  induction w generalizing n with
  | zero => rw [pow_zero, Nat.mod_one, littleEndian, unsigned, List.map_nil, Nat.ofDigits_nil]
  | succ w ih =>
      have hlow : (UInt8.ofNat n).toNat = n % 256 := by simp
      rw [littleEndian, unsigned_cons, hlow, ih, pow_succ', Nat.mod_mul]

theorem unsigned_littleEndian_of_lt {w n : ℕ} (h : n < 256 ^ w) :
    unsigned (littleEndian w n) = n := by
  rw [unsigned_littleEndian, Nat.mod_eq_of_lt h]

theorem unsigned_lt (bytes : List UInt8) : unsigned bytes < 256 ^ bytes.length := by
  have h := Nat.ofDigits_lt_base_pow_length (b := 256) (l := bytes.map UInt8.toNat) (by decide)
  rw [List.length_map] at h
  refine h fun d hd => ?_
  obtain ⟨b, -, rfl⟩ := List.mem_map.mp hd
  exact b.toNat_lt

/-- The bytes of an integer, read as a number. -/
theorem unsigned_ofInt (w : ℕ) (x : ℤ) : (unsigned (ofInt w x) : ℤ) = x % (256 ^ w : ℕ) := by
  have hpos : (0 : ℤ) < 256 ^ w := by positivity
  have hlt : (x % 256 ^ w).toNat < 256 ^ w := by
    zify
    rw [Int.toNat_of_nonneg (Int.emod_nonneg x hpos.ne')]
    exact Int.emod_lt_of_pos x hpos
  rw [ofInt, unsigned_littleEndian_of_lt hlt, Int.toNat_of_nonneg (Int.emod_nonneg x hpos.ne')]
  push_cast
  rfl

/-- An integer of the range is read as it was written. -/
theorem signed_ofInt {w : ℕ} {x : ℤ} (h : -(256 ^ w : ℕ) ≤ x * 2) (h' : x * 2 < (256 ^ w : ℕ)) :
    signed (ofInt w x) = x := by
  rw [signed, length_ofInt, unsigned_ofInt, Int.emod_bmod, Int.bmod_eq_of_le_mul_two h h']

end ByteStream

/-! ## Streams -/

/-- A file that is read, and its position. -/
structure ReadStream where
  bytes : List UInt8
  pos : ℕ

namespace ReadStream

open Window

/-- What is still to be read. -/
def rest (s : ReadStream) : List UInt8 := s.bytes.drop s.pos

/-- Reads up to `n` bytes onto the start of the buffer. -/
def read (n : ℕ) (buffer : List UInt8) (s : ReadStream) : List UInt8 × ReadStream :=
  (s.rest.take n ++ buffer.drop (s.rest.take n).length,
    { s with pos := s.pos + (s.rest.take n).length })

/-- Moves to an offset from the start; a negative one fails and leaves the position. -/
def seekSet (offset : ℤ) (s : ReadStream) : ReadStream :=
  if 0 ≤ offset then { s with pos := offset.toNat } else s

/-- Moves on by an offset. -/
def seekCur (offset : ℕ) (s : ReadStream) : ReadStream := { s with pos := s.pos + offset }

/-- Moves to the end. -/
def seekEnd (s : ReadStream) : ReadStream := { s with pos := s.bytes.length }

/-- Reads `n` items of `w` bytes onto one buffer, and gives what the buffer holds each time. -/
def readItems (w : ℕ) : ℕ → List UInt8 → ReadStream → List (List UInt8)
  | 0, _, _ => []
  | n + 1, buffer, s =>
      let (buffer, s) := s.read w buffer
      buffer :: readItems w n buffer s

variable (s : ReadStream)

@[simp] theorem read_bytes (n : ℕ) (buffer : List UInt8) :
    (s.read n buffer).2.bytes = s.bytes := rfl

@[simp] theorem seekCur_bytes (offset : ℕ) : (s.seekCur offset).bytes = s.bytes := rfl

theorem length_rest : s.rest.length = s.bytes.length - s.pos := List.length_drop

/-- A read leaves the length of the buffer. -/
theorem length_read {n : ℕ} {buffer : List UInt8} (h : n ≤ buffer.length) :
    (s.read n buffer).1.length = buffer.length := by
  have hle : (s.rest.take n).length ≤ n := List.length_take_le n s.rest
  rw [read, List.length_append, List.length_drop]
  omega

/-- A read of bytes that are there. -/
theorem read_of_le {n : ℕ} (buffer : List UInt8) (h : n ≤ s.rest.length) :
    s.read n buffer = (s.rest.take n ++ buffer.drop n, { s with pos := s.pos + n }) := by
  rw [read, List.length_take_of_le h]

/-- A read at the end does nothing. -/
theorem read_of_rest_nil {n : ℕ} {buffer : List UInt8} (h : s.rest = []) :
    s.read n buffer = (buffer, s) := by
  rw [read, h, List.take_nil, List.nil_append, List.length_nil, List.drop_zero]
  rfl

theorem rest_read (n : ℕ) (buffer : List UInt8) :
    (s.read n buffer).2.rest = s.rest.drop n := by
  by_cases h : n ≤ s.rest.length
  · rw [read_of_le s buffer h, rest, rest, List.drop_drop]
  · have hlen := s.length_rest
    rw [read, List.take_of_length_le (le_of_not_ge h), rest,
      List.drop_eq_nil_of_le (le_of_not_ge h)]
    apply List.drop_eq_nil_of_le
    show s.bytes.length ≤ s.pos + s.rest.length
    omega

theorem rest_seekCur (offset : ℕ) : (s.seekCur offset).rest = s.rest.drop offset := by
  rw [rest, rest, seekCur, List.drop_drop]

/-! ## A stream between what is read and what is not -/

/-- The stream of a file that is read up to a point. -/
def between (done rest : List UInt8) : ReadStream := { bytes := done ++ rest, pos := done.length }

@[simp] theorem between_bytes (done rest : List UInt8) :
    (between done rest).bytes = done ++ rest := rfl

@[simp] theorem between_pos (done rest : List UInt8) : (between done rest).pos = done.length := rfl

@[simp] theorem rest_between (done rest : List UInt8) : (between done rest).rest = rest :=
  List.drop_left

theorem between_move (done moved rest : List UInt8) :
    { between done (moved ++ rest) with pos := done.length + moved.length }
      = between (done ++ moved) rest := by
  rw [between, between, List.append_assoc, List.length_append]

/-- A read gives what comes next. -/
theorem read_between {n : ℕ} {next : List UInt8} (h : next.length = n)
    (done rest buffer : List UInt8) :
    (between done (next ++ rest)).read n buffer
      = (next ++ buffer.drop n, between (done ++ next) rest) := by
  have hlen : n ≤ (between done (next ++ rest)).rest.length := by
    rw [rest_between, List.length_append, h]
    omega
  rw [read_of_le _ buffer hlen, rest_between, List.take_left' h, ← between_move, h]
  rfl

theorem seekCur_between {n : ℕ} {skipped : List UInt8} (h : skipped.length = n)
    (done rest : List UInt8) :
    (between done (skipped ++ rest)).seekCur n = between (done ++ skipped) rest := by
  rw [← between_move, h]
  rfl

theorem seekSet_between {done rest done' rest' : List UInt8} (h : done ++ rest = done' ++ rest')
    {offset : ℤ} (hoffset : offset = done'.length) :
    (between done rest).seekSet offset = between done' rest' := by
  rw [seekSet, if_pos (by omega), hoffset, Int.toNat_natCast, between, between, h]

/-! ## Items -/

/-- **The items of a file** that has them all are its windows. -/
theorem readItems_eq {w : ℕ} (hw : 0 < w) {n : ℕ} {buffer : List UInt8}
    (hbuffer : buffer.length = w) (h : n * w ≤ s.rest.length) :
    readItems w n buffer s = windows w (s.rest.take (n * w)) := by
  induction n generalizing buffer s with
  | zero => simp [readItems, windows]
  | succ n ih =>
      rw [Nat.succ_mul] at h
      have hitem : s.read w buffer = (s.rest.take w, { s with pos := s.pos + w }) := by
        rw [read_of_le s buffer (by omega), ← hbuffer, List.drop_length, List.append_nil]
      have hnext : ({ s with pos := s.pos + w } : ReadStream).rest = s.rest.drop w :=
        rest_seekCur s w
      have hlen : w ≤ (s.rest.take ((n + 1) * w)).length := by
        rw [List.length_take, Nat.succ_mul]
        omega
      rw [readItems, hitem, windows_cons hw hlen, List.take_take, List.drop_take,
        Nat.min_eq_left (by rw [Nat.succ_mul]; omega)]
      dsimp only
      rw [ih _ (List.length_take_of_le (by omega)) (by rw [hnext, List.length_drop]; omega), hnext,
        Nat.succ_mul, Nat.add_sub_cancel]

end ReadStream
