import VadService.Wav.RoundTrip
import VadService.Wav.Service

set_option autoImplicit false

/-! # Copies of files

The reader divides the samples of a file by 32768, and the writer cuts off what a sample has
behind the point. So the copy of a file of 16 bits that is read and written again is silent, but
for the samples of the lowest value (`copy_is_silent`).
-/

namespace VadService

open ByteStream Window

namespace Wav

open WavWriter

/-- A sample between -1 and 1 has the whole part zero, but at the lower end. -/
theorem truncate_sample {n : ℤ} (hlow : -2 ^ 15 ≤ n) (hhigh : n < 2 ^ 15) :
    (if 0 ≤ (n : ℚ) / 32768 then ⌊(n : ℚ) / 32768⌋ else ⌈(n : ℚ) / 32768⌉)
      = if n = -2 ^ 15 then -1 else 0 := by
  have hlow' : (-2 ^ 15 : ℚ) ≤ n := by exact_mod_cast hlow
  have hhigh' : (n : ℚ) < 2 ^ 15 := by exact_mod_cast hhigh
  by_cases hlowest : n = -2 ^ 15
  · subst hlowest
    norm_num
  · rw [if_neg hlowest]
    have hlt : (-2 ^ 15 : ℚ) < n := lt_of_le_of_ne hlow' (by exact_mod_cast Ne.symm hlowest)
    split_ifs with hsign
    · rw [Int.floor_eq_zero_iff]
      exact ⟨hsign, by rw [div_lt_one (by norm_num)]; linarith⟩
    · rw [Int.ceil_eq_zero_iff]
      refine ⟨?_, (not_le.mp hsign).le⟩
      rw [lt_div_iff₀ (by norm_num)]
      linarith

/-- The bytes of a sample once it is cut off. -/
def silenced (sample : List UInt8) : List UInt8 :=
  if sample = [0x00, 0x80] then [0xff, 0xff] else [0x00, 0x00]

theorem sampleOf_whole (lo hi : UInt8) :
    (sampleOf lo hi).toSigned 2 = some (whole (sampleOf lo hi)) ∧
      ofInt 2 (whole (sampleOf lo hi)) = silenced [lo, hi] := by
  obtain ⟨hlow, hhigh⟩ := toInt16_bounds (lo.toNat ||| hi.toNat <<< 8 : ℕ)
  have hlowest : toInt16 (lo.toNat ||| hi.toNat <<< 8 : ℕ) = -2 ^ 15 ↔ [lo, hi] = [0x00, 0x80] := by
    have hlo := lo.toNat_lt
    have hhi := hi.toNat_lt
    rw [or_shift, toInt16]
    push_cast
    simp only [List.cons.injEq, and_true, ← UInt8.toNat_inj]
    have hzero : (0x00 : UInt8).toNat = 0 := rfl
    have hlast : (0x80 : UInt8).toNat = 128 := rfl
    omega
  have hwhole : (sampleOf lo hi).truncate
      = some (if [lo, hi] = [0x00, 0x80] then -1 else 0) := by
    obtain ⟨h, heq⟩ := sampleOf_eq lo hi
    rw [heq, F32.truncate, truncate_sample hlow hhigh]
    simp only [hlowest]
  rw [whole, F32.toSigned, hwhole, silenced, Option.getD_some]
  split_ifs <;> decide

/-- The samples of a range of indices are written, if each of them is of its type. -/
theorem writeSamples_of_toSigned (w : WavWriter) (hbits : w.bitsPerSample = 16) {first count : ℕ}
    (hcount : first + count ≤ w.data.length)
    (hall : ∀ x ∈ w.data, x.toSigned 2 = some (whole x)) :
    w.writeSamples ((List.range' first count).map Nat.cast)
      = some (((w.data.drop first).take count).flatMap fun x => ofInt 2 (whole x)) := by
  induction count generalizing first with
  | zero => simp [writeSamples]
  | succ count ih =>
      have hlt : first < w.data.length := by omega
      have hdrop : w.data.drop first = w.data[first] :: w.data.drop (first + 1) :=
        List.drop_eq_getElem_cons hlt
      have hsample : w.sampleBytes (first : ℕ) = some (ofInt 2 (whole w.data[first])) := by
        rw [w.sampleBytes_eq (Or.inr (Or.inl rfl)) hbits, List.getElem?_eq_getElem hlt,
          Option.bind_some, hall _ (List.getElem_mem hlt), Option.map_some]
      rw [List.range'_succ, List.map_cons, writeSamples, hsample, ih (by omega), hdrop,
        List.take_succ_cons, List.flatMap_cons]
      rfl

theorem mulInt_of_range {x y : ℤ} (hlow : -2 ^ 31 ≤ x * y) (hhigh : x * y < 2 ^ 31) :
    mulInt x y = some (x * y) := if_pos ⟨hlow, hhigh⟩

/-- A file of 16 bits is written, if its products and its samples are of their types. -/
theorem write_of_toSigned (w : WavWriter) (hbits : w.bitsPerSample = 16) (n c : ℕ)
    (hn : w.numSamples = n) (hc : w.numChannel = c) (hpos : 0 < c) (hc' : c < 2 ^ 16)
    (hcount : n * c ≤ w.data.length) (hlen : n * c * 2 < 2 ^ 31)
    (hlow : -2 ^ 31 ≤ w.sampleRate * c * 2) (hhigh : w.sampleRate * c * 2 < 2 ^ 31)
    (hall : ∀ x ∈ w.data, x.toSigned 2 = some (whole x)) :
    ∃ header, header.length = 44 ∧
      w.write
        = some (header ++ (w.data.take (n * c)).flatMap fun x => ofInt 2 (whole x)) := by
  have hsamples := writeSamples_of_toSigned w hbits (by omega : 0 + n * c ≤ w.data.length) hall
  rw [← w.indices_eq hn hc, List.drop_zero] at hsamples
  have hsize : w.bitsPerSample.tdiv 8 = 2 := by
    rw [hbits]
    rfl
  have hbound : ((n : ℤ) * c) * 2 < 2 ^ 31 := by exact_mod_cast hlen
  have hnonneg : (0 : ℤ) ≤ n * c := by positivity
  have hpoints : mulInt n c = some ((n : ℤ) * c) := mulInt_of_range (by omega) (by omega)
  have hdata : mulInt ((n : ℤ) * c) 2 = some ((n : ℤ) * c * 2) :=
    mulInt_of_range (by omega) hbound
  have hper : mulInt w.sampleRate c = some (w.sampleRate * c) :=
    mulInt_of_range (by omega) (by omega)
  have hbytes : mulInt (w.sampleRate * c) 2 = some (w.sampleRate * c * 2) :=
    mulInt_of_range hlow hhigh
  have hblock : mulInt (c : ℤ) 2 = some ((c : ℤ) * 2) := mulInt_of_range (by omega) (by omega)
  refine ⟨w.header (n * c * 2) (w.sampleRate * c * 2) (c * 2), ?_, ?_⟩
  · rw [header_eq, List.length_append, Layout.length_head, List.length_append, length_dataId,
      length_ofInt]
  · rw [WavWriter.write]
    dsimp only [bind]
    rw [hsize, hn, hc, hpoints, Option.bind_some, hdata, Option.bind_some, hper, Option.bind_some,
      hbytes, Option.bind_some, hblock, Option.bind_some, hsamples, Option.bind_some]

/-- A window of two bytes is a sample. -/
theorem pcmSample_whole {audio sample : List UInt8} (h : sample ∈ windows 2 audio) :
    (pcmSample sample).toSigned 2 = some (whole (pcmSample sample)) ∧
      ofInt 2 (whole (pcmSample sample)) = silenced sample := by
  obtain ⟨lo, hi, rfl⟩ := List.length_eq_two.mp (length_of_mem_windows h)
  rw [pcmSample_pair]
  exact sampleOf_whole lo hi

/-- The writer that copies what a reader has. -/
def copyOf (r : WavReader) : WavWriter where
  data := r.data
  numSamples := r.numSamples
  numChannel := r.numChannel
  sampleRate := r.sampleRate
  bitsPerSample := r.bitsPerSample

/-- **A copy is silent.** Take any file with chunks whose samples have 16 bits, and copy it: read
it, and write what the reader has. If the bytes of a second are an `int`, then the copy has a
header and as many samples as the file has in all channels, and each of them is zero, but for
those of the lowest value, which become -1. -/
theorem copy_is_silent (f : WavFile) (memory : Memory) {rounds : ℕ}
    (hrounds : f.chunks.length < rounds) (hbits : f.fmtField 14 2 = 16)
    (hchannels : f.fmtField 2 2 ≠ 0) (hsize : f.dataSize ≤ f.tail.length)
    (hlt : f.dataSize < 2 ^ 31) (hrest : f.dataSize = 0 → f.bytes.length < 2 ^ 31)
    (hlow : -2 ^ 31 ≤ WordArith.bits32.toSigned (f.fmtField 4 4) * f.fmtField 2 2 * 2)
    (hhigh : WordArith.bits32.toSigned (f.fmtField 4 4) * f.fmtField 2 2 * 2 < 2 ^ 31) :
    ∃ r header, openFile memory rounds (some f.bytes) = some (.reader r) ∧
      header.length = 44 ∧
      (copyOf r).write = some (header ++ ((windows 2 f.audio).take
        (f.audio.length / 2 / f.fmtField 2 2 * f.fmtField 2 2)).flatMap silenced) := by
  have hformat : sampleFormat (f.fmtField 14 2) (f.fmtField 0 2) = some (2, pcmSample) := by
    rw [hbits]
    rfl
  have hopen := f.openFile_reader memory hrounds hformat hchannels hsize hlt hrest
  have haudio := f.length_audio_lt hsize hlt hrest
  have hfield : f.fmtField 2 2 < 2 ^ 16 := by
    have hlt := unsigned_lt ((f.fmt.drop 2).take 2)
    rwa [List.length_take, List.length_drop, f.length_fmt] at hlt
  have hcount : f.audio.length / 2 / f.fmtField 2 2 * f.fmtField 2 2 ≤ f.audio.length / 2 :=
    Nat.div_mul_le_self _ _
  generalize hr : f.audio.length / 2 / f.fmtField 2 2 = n at hcount hopen ⊢
  generalize f.fmtField 2 2 = c at hcount hlow hhigh hopen hchannels hfield ⊢
  rw [hbits] at hopen
  have hall : ∀ x ∈ (windows 2 f.audio).map pcmSample, x.toSigned 2 = some (whole x) := by
    intro x hx
    obtain ⟨sample, hsample, rfl⟩ := List.mem_map.mp hx
    exact (pcmSample_whole hsample).1
  have hlen : ((windows 2 f.audio).map pcmSample).length = f.audio.length / 2 := by
    rw [List.length_map, length_windows]
  have hsilent : (((windows 2 f.audio).map pcmSample).take (n * c)).flatMap
        (fun x => ofInt 2 (whole x))
      = ((windows 2 f.audio).take (n * c)).flatMap silenced := by
    rw [← List.map_take, List.flatMap_map]
    refine List.flatMap_congr fun sample hsample => ?_
    exact (pcmSample_whole (List.mem_of_mem_take hsample)).2
  obtain ⟨header, hheader, hwrite⟩ := write_of_toSigned
    (copyOf
      { numChannel := c
        sampleRate := WordArith.bits32.toSigned (f.fmtField 4 4)
        bitsPerSample := 16
        numSamples := n
        data := (windows 2 f.audio).map pcmSample })
    rfl n c rfl rfl (by omega) hfield (hcount.trans hlen.ge) (by omega) hlow hhigh hall
  refine ⟨_, header, hopen, hheader, hwrite.trans ?_⟩
  exact congrArg (fun samples => some (header ++ samples)) hsilent

theorem copy_is_silent_streamed :
    ∃ r header, openFile zeroMemory 2 (some streamedFile.bytes) = some (.reader r) ∧
      header.length = 44 ∧ (copyOf r).write = some (header ++ [0x00, 0x00, 0xff, 0xff]) := by
  have hsilent : ((windows 2 streamedFile.audio).take (streamedFile.audio.length / 2
      / streamedFile.fmtField 2 2 * streamedFile.fmtField 2 2)).flatMap silenced
        = [0x00, 0x00, 0xff, 0xff] := by decide +kernel
  have hcopy := copy_is_silent streamedFile zeroMemory (by decide : 1 < 2) (by decide +kernel)
    (by decide +kernel) (by decide) (by decide) (by decide +kernel) (by decide +kernel)
    (by decide +kernel)
  rw [hsilent] at hcopy
  exact hcopy

end Wav

end VadService
