import VadService.Go.Events
import VadService.Lib.Window

set_option autoImplicit false

/-! # The frames of a packet

`ProcessFrames` of the Go detector cuts the PCM data it has into frames of 20 ms, and with them
the source data the PCM data was decoded from. The source data is shorter, so the indices of its
cuts are those of the PCM data times the ratio of the lengths, computed in `float32`. Every byte
of the source data gets into one of the frames nonetheless, none of them twice
(`processFrames_frames`). The frames are handed over until one of them answers.
-/

namespace VadService

open Machine FloatFormat Window

namespace Go

/-- `intBuff`, with PCM data and the source data it was decoded from. -/
structure IntBuff (ι : Type) where
  append : ι → List UInt8 → List UInt8 → ι
  len : ι → ℕ
  get : ι → ℕ → (List UInt8 × List UInt8) × ι

/-- `Detector`, with its `marginBuff`. -/
structure MarginDetector (τ β ι : Type) extends Detector τ β where
  marginBuff : ι

/-- `float32(len(sourceData)) / float32(len(pcmData))` -/
def lengthRatio (source pcm : ℕ) : F32 := (F32.ofInt source).div (F32.ofInt pcm)

/-- `int(float32(i)*ratio)` -/
def sourceIndex (ratio : F32) (i : ℕ) : Option ℤ := F32.toSigned 8 ((F32.ofInt i).mul ratio)

/-- `data[first:last]`, if the indices are in order and within the data. -/
def slice (data : List UInt8) (first last : ℤ) : Option (List UInt8) :=
  if 0 ≤ first ∧ first ≤ last ∧ last ≤ data.length then
    some ((data.drop first.toNat).take (last - first).toNat)
  else none

/-- The source data of the frame from `i` to `stop`; the last frame takes what is left. -/
def sourceFrame (sourceData : List UInt8) (size i stop : ℕ) : Option (List UInt8) := do
  let first ← sourceIndex (lengthRatio sourceData.length size) i
  let last ← sourceIndex (lengthRatio sourceData.length size) stop
  let frame ← slice sourceData first last
  if stop = size then slice sourceData first sourceData.length else some frame

namespace Detector

variable {τ β : Type} (S : Sherpa τ) (B : FixedSizeBuffer β)

/-- The loop over the frames that start at the given indices. It ends at the first frame that
answers. -/
def frameLoop (pcmData sourceData : List UInt8) :
    List ℕ → Detector τ β → Option (Outcome × Detector τ β)
  | [], d => some ({ result := false, events := [] }, d)
  | i :: starts, d => do
      let stop := min (i + frameDuration20SizeInBytes) pcmData.length
      let source ← sourceFrame sourceData pcmData.length i stop
      let (outcome, d) := d.processFrame S B ((pcmData.drop i).take (stop - i)) source
      if outcome.result then some (outcome, d)
      else
        let (rest, d) ← frameLoop pcmData sourceData starts d
        some ({ rest with events := outcome.events ++ rest.events }, d)

end Detector

/-- The indices `i` of the loop. -/
def frameStarts (size : ℕ) : List ℕ :=
  List.range' 0 ((size + (frameDuration20SizeInBytes - 1)) / frameDuration20SizeInBytes)
    frameDuration20SizeInBytes

namespace MarginDetector

variable {τ β ι : Type} (S : Sherpa τ) (B : FixedSizeBuffer β) (M : IntBuff ι)
  (decode : List UInt8 → ℤ → ℤ → List UInt8)

/-- The PCM data of a packet; `decode` is that of the package speex. -/
def pcmOf (buff : List UInt8) (encoding : String) (speexSize : ℤ) : List UInt8 :=
  if encoding = "speex-wb" then decode buff buff.length speexSize
  else if encoding = "raw" then buff
  else []

/-- `ProcessFrames` -/
def processFrames (m : MarginDetector τ β ι) (buff : List UInt8) (encoding : String)
    (speexSize : ℤ) : Option (Detector.Outcome × MarginDetector τ β ι) :=
  let marginBuff := M.append m.marginBuff (pcmOf decode buff encoding speexSize) buff
  let block := M.len marginBuff / frameDuration20SizeInBytes
  if block = 0 then
    some ({ result := false, events := [] }, { m with marginBuff := marginBuff })
  else do
    let (data, marginBuff) := M.get marginBuff (block * frameDuration20SizeInBytes)
    let (outcome, d) ←
      m.toDetector.frameLoop S B data.1 data.2 (frameStarts data.1.length)
    some (outcome, { toDetector := d, marginBuff := marginBuff })

end MarginDetector

/-! ## The cuts of the source data -/

/-- The index in the source data of an index in the PCM data. -/
def cut (source pcm i : ℕ) : ℕ := ⌊binary32.roundRat (i * binary32.roundRat (source / pcm))⌋₊

section Cuts

variable {source pcm : ℕ}

/-- What is at most half a byte beyond the end does not overflow. -/
theorem lt_emax (hsource : source < 2 ^ 23) {x : ℚ} (hx : x ≤ source + 1 / 2) :
    x < 2 ^ binary32.emax := by
  have hlt : (source : ℚ) < 2 ^ 23 := by exact_mod_cast hsource
  have hmax : (2 : ℚ) ^ 23 + 1 / 2 < 2 ^ binary32.emax := by norm_num [binary32]
  linarith

theorem cut_zero : cut source pcm 0 = 0 := by
  rw [cut, Nat.cast_zero, zero_mul, roundRat_zero, Nat.floor_zero]

theorem ratio_nonneg (source pcm : ℕ) : (0 : ℚ) ≤ binary32.roundRat (source / pcm) :=
  roundRat_nonneg (by positivity)

theorem cut_mono (source pcm : ℕ) {i j : ℕ} (h : i ≤ j) : cut source pcm i ≤ cut source pcm j := by
  have hcast : (i : ℚ) ≤ j := by exact_mod_cast h
  have hle := mul_le_mul_of_nonneg_right hcast (ratio_nonneg source pcm)
  exact Nat.floor_mono (roundRat_mono (mul_nonneg i.cast_nonneg (ratio_nonneg _ _)) hle)

/-- The relative error of `float32`. -/
theorem abs_roundRat_sub_le {x : ℚ} (hx : 1 / 2 ^ 25 ≤ x) :
    |binary32.roundRat x - x| ≤ x / 2 ^ 24 := by
  have hpos : 0 < x := lt_of_lt_of_le (by positivity) hx
  have hlog : -25 ≤ Int.log 2 x := by
    refine (Int.zpow_le_iff_le_log (by norm_num) hpos).mp ?_
    rw [zpow_neg]
    exact_mod_cast (one_div (2 ^ 25 : ℚ)) ▸ hx
  refine abs_roundRat_sub_le_div hpos ?_
  have hprec : (binary32.prec : ℤ) = 24 := rfl
  have hemin : binary32.emin = -149 := rfl
  omega

/-- A ratio of lengths is not too small. -/
theorem le_ratio (hsource : 0 < source) (hpcm : 0 < pcm) (hpcm' : pcm < 2 ^ 24) :
    (1 : ℚ) / 2 ^ 24 ≤ source / pcm := by
  have hone : (1 : ℚ) ≤ source := by exact_mod_cast hsource
  have hle : (pcm : ℚ) ≤ 2 ^ 24 := by exact_mod_cast hpcm'.le
  have hpos : (0 : ℚ) < pcm := by exact_mod_cast hpcm
  exact div_le_div₀ (by linarith) hone hpos hle

/-- The ratio is at most half a unit of the last place off. -/
theorem abs_ratio_sub_le (source : ℕ) {pcm : ℕ} (hpcm : 0 < pcm) (hpcm' : pcm < 2 ^ 24) :
    |binary32.roundRat (source / pcm) - source / pcm| ≤ source / pcm / 2 ^ 24 := by
  rcases source.eq_zero_or_pos with rfl | hsource
  · simp [roundRat_zero]
  · have hle := le_ratio hsource hpcm hpcm'
    refine abs_roundRat_sub_le (le_trans ?_ hle)
    norm_num

/-- The whole of the PCM data is mapped no more than half a byte beyond the end. -/
theorem mul_ratio_le (hpcm : 0 < pcm) (hpcm' : pcm < 2 ^ 24) (hsource : source < 2 ^ 23) :
    pcm * binary32.roundRat (source / pcm) ≤ source + 1 / 2 := by
  have hpcm0 : (0 : ℚ) < pcm := by exact_mod_cast hpcm
  have hlt : (source : ℚ) ≤ 2 ^ 23 := by exact_mod_cast hsource.le
  have hratio := (abs_le.mp (abs_ratio_sub_le source hpcm hpcm')).2
  calc (pcm : ℚ) * binary32.roundRat (source / pcm)
      ≤ pcm * (source / pcm + source / pcm / 2 ^ 24) := by
        gcongr
        linarith
    _ = source + source / 2 ^ 24 := by field_simp
    _ ≤ source + 1 / 2 := by linarith

theorem roundRat_cut_le (hpcm : 0 < pcm) (hpcm' : pcm < 2 ^ 24) (hsource : source < 2 ^ 23)
    {i : ℕ} (hi : i ≤ pcm) :
    binary32.roundRat (i * binary32.roundRat (source / pcm)) ≤ source + 1 / 2 := by
  have hhalf : binary32.Representable (source + 1 / 2) := by
    refine ⟨⟨2 * source + 1, -1, ?_, ?_, by decide⟩, ?_⟩
    · push_cast
      ring
    · have hprec : binary32.prec = 24 := rfl
      rw [hprec, abs_of_nonneg (by omega)]
      omega
    · rw [abs_of_nonneg (by positivity)]
      exact lt_emax hsource le_rfl
  have hi' : (i : ℚ) ≤ pcm := by exact_mod_cast hi
  exact roundRat_le hhalf
    ((mul_le_mul_of_nonneg_right hi' (ratio_nonneg _ _)).trans (mul_ratio_le hpcm hpcm' hsource))

theorem cut_le (hpcm : 0 < pcm) (hpcm' : pcm < 2 ^ 24) (hsource : source < 2 ^ 23)
    {i : ℕ} (hi : i ≤ pcm) : cut source pcm i ≤ source := by
  have hle := roundRat_cut_le hpcm hpcm' hsource hi
  refine Nat.lt_add_one_iff.mp ((Nat.floor_lt ?_).mpr ?_)
  · exact roundRat_nonneg (mul_nonneg i.cast_nonneg (ratio_nonneg _ _))
  · push_cast
    linarith

/-- **A cut is less than two bytes off its place.** -/
theorem cut_near (hpcm : 0 < pcm) (hpcm' : pcm < 2 ^ 24) (hsource : source < 2 ^ 23)
    {i : ℕ} (hi : i ≤ pcm) : |(cut source pcm i : ℚ) - i * source / pcm| < 2 := by
  rcases Nat.eq_zero_or_pos i with rfl | hipos
  · simp [cut_zero]
  rcases source.eq_zero_or_pos with rfl | hsourcepos
  · simp [cut, roundRat_zero]
  have hpcm0 : (0 : ℚ) < pcm := by exact_mod_cast hpcm
  have hi0 : (1 : ℚ) ≤ i := by exact_mod_cast hipos
  have hi' : (i : ℚ) ≤ pcm := by exact_mod_cast hi
  have hsource' : (source : ℚ) ≤ 2 ^ 23 - 1 := by
    have hle : (source : ℚ) + 1 ≤ 2 ^ 23 := by exact_mod_cast hsource
    linarith
  have hplace : (i : ℚ) * (source / pcm) ≤ source := by
    rw [mul_div_assoc', div_le_iff₀ hpcm0, mul_comm]
    exact mul_le_mul_of_nonneg_left hi' source.cast_nonneg
  -- the ratio is rounded, then the product, and then the fraction is cut off
  have hratio := abs_ratio_sub_le source hpcm hpcm'
  have hproduct : |(i : ℚ) * binary32.roundRat (source / pcm) - i * (source / pcm)| ≤ 1 / 2 := by
    rw [← mul_sub, abs_mul, abs_of_nonneg i.cast_nonneg]
    calc (i : ℚ) * |binary32.roundRat (source / pcm) - source / pcm|
        ≤ i * (source / pcm / 2 ^ 24) := mul_le_mul_of_nonneg_left hratio i.cast_nonneg
      _ = i * (source / pcm) / 2 ^ 24 := by ring
      _ ≤ source / 2 ^ 24 := by gcongr
      _ ≤ 1 / 2 := by linarith
  have hlow : (1 : ℚ) / 2 ^ 25 ≤ i * binary32.roundRat (source / pcm) := by
    have hle := le_ratio hsourcepos hpcm hpcm'
    have hhalf : (source : ℚ) / pcm / 2 ≤ binary32.roundRat (source / pcm) := by
      have hdown := (abs_le.mp hratio).1
      linarith
    calc (1 : ℚ) / 2 ^ 25 ≤ source / pcm / 2 := by linarith
      _ ≤ binary32.roundRat (source / pcm) := hhalf
      _ ≤ i * binary32.roundRat (source / pcm) := le_mul_of_one_le_left (ratio_nonneg _ _) hi0
  have hround := abs_roundRat_sub_le hlow
  have hfloor := Nat.floor_le
    (roundRat_nonneg (F := binary32) (mul_nonneg (i.cast_nonneg (α := ℚ))
      (ratio_nonneg source pcm)))
  have hceil := Nat.lt_floor_add_one (binary32.roundRat (i * binary32.roundRat (source / pcm)))
  rw [← cut] at hfloor hceil
  rw [abs_le] at hproduct hround
  rw [mul_div_assoc, abs_lt]
  constructor <;> linarith

/-- If the lengths are the same, so are the indices. -/
theorem cut_self (hpcm : 0 < pcm) {i : ℕ} (hi : i < 2 ^ 24) : cut pcm pcm i = i := by
  have hpcm0 : (pcm : ℚ) ≠ 0 := by exact_mod_cast hpcm.ne'
  have hone : binary32.roundRat 1 = 1 := by
    exact_mod_cast (F32.representable_int (by norm_num : |(1 : ℤ)| < 2 ^ 24)).roundRat_eq
  have hindex : binary32.Representable (i : ℤ) :=
    F32.representable_int (by rw [Nat.abs_cast]; exact_mod_cast hi)
  have hround := hindex.roundRat_eq
  rw [Int.cast_natCast] at hround
  rw [cut, div_self hpcm0, hone, mul_one, hround, Nat.floor_natCast]

/-- **The indices** that the program computes are the cuts. -/
theorem sourceIndex_eq (hpcm : 0 < pcm) (hpcm' : pcm < 2 ^ 24) (hsource : source < 2 ^ 23)
    {i : ℕ} (hi : i ≤ pcm) :
    sourceIndex (lengthRatio source pcm) i = some (cut source pcm i : ℤ) := by
  have habs {n : ℕ} (hn : n < 2 ^ 24) : |(n : ℤ)| < 2 ^ 24 := by
    rw [Nat.abs_cast]
    exact_mod_cast hn
  have hsmall {x : ℚ} (h0 : 0 ≤ x) (hx : x ≤ source + 1 / 2) : |x| < 2 ^ binary32.emax := by
    rw [abs_of_nonneg h0]
    exact lt_emax hsource hx
  have hpcm0 : (pcm : ℚ) ≠ 0 := by exact_mod_cast hpcm.ne'
  have hratio : |binary32.roundRat (source / pcm)| < 2 ^ binary32.emax := by
    have hone : (1 : ℚ) ≤ pcm := by exact_mod_cast hpcm
    refine hsmall (ratio_nonneg _ _) (le_trans ?_ (mul_ratio_le hpcm hpcm' hsource))
    exact le_mul_of_one_le_left (ratio_nonneg _ _) hone
  have hindex : |binary32.roundRat (i * binary32.roundRat (source / pcm))| < 2 ^ binary32.emax :=
    hsmall (roundRat_nonneg (mul_nonneg i.cast_nonneg (ratio_nonneg _ _)))
      (roundRat_cut_le hpcm hpcm' hsource hi)
  rw [sourceIndex, lengthRatio, F32.ofInt_eq (habs (by omega : source < 2 ^ 24)),
    F32.ofInt_eq (habs hpcm'), F32.ofInt_eq (habs (by omega : i < 2 ^ 24))]
  simp only [Value.div, Int.cast_natCast, hpcm0, if_false, Value.round_fin hratio, Value.mul,
    Value.round_fin hindex]
  have hnonneg : 0 ≤ binary32.roundRat (i * binary32.roundRat (source / pcm)) :=
    roundRat_nonneg (mul_nonneg i.cast_nonneg (ratio_nonneg _ _))
  have hcut := cut_le hpcm hpcm' hsource hi
  rw [F32.toSigned, F32.truncate, if_pos hnonneg, ← Int.natCast_floor_eq_floor hnonneg, ← cut]
  refine Option.filter_eq_some_iff.mpr ⟨rfl, decide_eq_true ⟨?_, ?_⟩⟩
  · push_cast
    omega
  · push_cast
    omega

/-- The part of the source data between two cuts. -/
theorem slice_cuts {data : List UInt8} (hpcm : 0 < pcm) (hpcm' : pcm < 2 ^ 24)
    (hdata : data.length < 2 ^ 23) {i j : ℕ} (hij : i ≤ j) (hj : j ≤ pcm) :
    slice data (cut data.length pcm i) (cut data.length pcm j)
      = some ((data.drop (cut data.length pcm i)).take
          (cut data.length pcm j - cut data.length pcm i)) := by
  have hmono : cut data.length pcm i ≤ cut data.length pcm j := cut_mono _ _ hij
  have hle := cut_le hpcm hpcm' hdata hj
  rw [slice, if_pos (by omega), Int.toNat_natCast, ← Nat.cast_sub hmono, Int.toNat_natCast]

end Cuts

/-! ## The frames -/

/-- The frame that starts at an index, with its source data. -/
def frameAt (pcmData sourceData : List UInt8) (i : ℕ) : List UInt8 × List UInt8 :=
  let start := cut sourceData.length pcmData.length i
  let stop := i + frameDuration20SizeInBytes
  ((pcmData.drop i).take frameDuration20SizeInBytes,
    if pcmData.length ≤ stop then sourceData.drop start
    else (sourceData.drop start).take (cut sourceData.length pcmData.length stop - start))

section Frames

variable {pcmData sourceData : List UInt8}

theorem sourceFrame_eq (hpcm : pcmData.length < 2 ^ 24) (hsource : sourceData.length < 2 ^ 23)
    {i : ℕ} (hi : i < pcmData.length) :
    sourceFrame sourceData pcmData.length i (min (i + frameDuration20SizeInBytes) pcmData.length)
      = some (frameAt pcmData sourceData i).2 := by
  have hpos : 0 < pcmData.length := by omega
  have hstart := sourceIndex_eq hpos hpcm hsource hi.le
  have hstop := sourceIndex_eq hpos hpcm hsource
    (min_le_right (i + frameDuration20SizeInBytes) pcmData.length)
  have hfirst := slice_cuts hpos hpcm hsource
    (le_min (Nat.le_add_right i frameDuration20SizeInBytes) hi.le) (min_le_right _ _)
  simp only [sourceFrame, hstart, hstop, hfirst, Option.bind_eq_bind, Option.bind_some]
  rw [frameAt]
  by_cases hlast : pcmData.length ≤ i + frameDuration20SizeInBytes
  · have hle := cut_le hpos hpcm hsource hi.le
    rw [min_eq_right hlast, if_pos rfl, if_pos hlast, slice, if_pos (by omega), Int.toNat_natCast,
      ← Nat.cast_sub hle, Int.toNat_natCast, List.take_of_length_le]
    rw [List.length_drop]
  · rw [min_eq_left (by omega), if_neg (by omega), if_neg hlast]

/-- The frames of a packet. -/
def framesOf (pcmData sourceData : List UInt8) : List (List UInt8 × List UInt8) :=
  (frameStarts pcmData.length).map (frameAt pcmData sourceData)

/-- All frames but the last one end before the PCM data does. -/
theorem frameStarts_eq {size : ℕ} (hsize : 0 < size) :
    ∃ n, frameDuration20SizeInBytes * n < size ∧ size ≤ frameDuration20SizeInBytes * (n + 1) ∧
      frameStarts size = List.range' 0 n frameDuration20SizeInBytes
        ++ [frameDuration20SizeInBytes * n] := by
  have h20 : frameDuration20SizeInBytes = 640 := rfl
  obtain ⟨n, hn⟩ : ∃ n, (size + (frameDuration20SizeInBytes - 1)) / frameDuration20SizeInBytes
      = n + 1 := Nat.exists_eq_succ_of_ne_zero (by rw [h20]; omega)
  refine ⟨n, ?_, ?_, ?_⟩
  · rw [h20] at hn ⊢
    omega
  · rw [h20] at hn ⊢
    omega
  · rw [frameStarts, hn, List.range'_concat, Nat.zero_add]

theorem lt_of_mem_frameStarts {size i : ℕ} (hsize : 0 < size) (h : i ∈ frameStarts size) :
    i < size := by
  obtain ⟨n, hlast, -, heq⟩ := frameStarts_eq hsize
  rw [heq, List.mem_append, List.mem_singleton, List.mem_range'] at h
  rcases h with ⟨k, hk, rfl⟩ | rfl
  · have hle : frameDuration20SizeInBytes * k ≤ frameDuration20SizeInBytes * n :=
      Nat.mul_le_mul_left _ hk.le
    omega
  · exact hlast

theorem flatten_pcm (hpcm : 0 < pcmData.length) :
    ((framesOf pcmData sourceData).map Prod.fst).flatten = pcmData := by
  obtain ⟨n, -, hend, heq⟩ := frameStarts_eq hpcm
  have hpieces := flatten_pieces pcmData monotone_id frameDuration20SizeInBytes n 0
  simp only [id_eq, Nat.add_sub_cancel_left, List.drop_zero, Nat.zero_add, Nat.sub_zero]
    at hpieces
  have hlast : (pcmData.drop (frameDuration20SizeInBytes * n)).length
      ≤ frameDuration20SizeInBytes := by
    rw [List.length_drop]
    rw [Nat.mul_succ] at hend
    omega
  calc ((framesOf pcmData sourceData).map Prod.fst).flatten
      = ((List.range' 0 n frameDuration20SizeInBytes).map fun i =>
          (pcmData.drop i).take frameDuration20SizeInBytes).flatten
        ++ (pcmData.drop (frameDuration20SizeInBytes * n)).take frameDuration20SizeInBytes := by
        rw [framesOf, heq, List.map_map, List.map_append, List.flatten_append]
        exact congrArg _ (List.append_nil _)
    _ = pcmData.take (frameDuration20SizeInBytes * n)
        ++ pcmData.drop (frameDuration20SizeInBytes * n) := by
        rw [hpieces, List.take_of_length_le hlast]
    _ = pcmData := List.take_append_drop _ _

/-- The source data of the first frames ends at a cut. -/
theorem flatten_source_take {k : ℕ} (hk : frameDuration20SizeInBytes * k < pcmData.length) :
    ((List.range' 0 k frameDuration20SizeInBytes).map
      (Prod.snd ∘ frameAt pcmData sourceData)).flatten
        = sourceData.take
            (cut sourceData.length pcmData.length (frameDuration20SizeInBytes * k)) := by
  have hpieces := flatten_pieces sourceData
    (fun _ _ h => cut_mono sourceData.length pcmData.length h)
    frameDuration20SizeInBytes k 0
  rw [cut_zero, List.drop_zero, Nat.sub_zero, Nat.zero_add] at hpieces
  rw [← hpieces]
  refine congrArg List.flatten (List.map_congr_left fun i hi => ?_)
  obtain ⟨j, hj, rfl⟩ := List.mem_range'.mp hi
  have hle : frameDuration20SizeInBytes * (j + 1) ≤ frameDuration20SizeInBytes * k :=
    Nat.mul_le_mul_left _ hj
  rw [Nat.mul_succ] at hle
  exact if_neg (by omega)

/-- **No byte of the source data is lost**, and none gets into two frames. -/
theorem flatten_source (hpcm : 0 < pcmData.length) :
    ((framesOf pcmData sourceData).map Prod.snd).flatten = sourceData := by
  obtain ⟨n, hlast, hend, heq⟩ := frameStarts_eq hpcm
  have hrest : (frameAt pcmData sourceData (frameDuration20SizeInBytes * n)).2
      = sourceData.drop (cut sourceData.length pcmData.length (frameDuration20SizeInBytes * n)) :=
    if_pos hend
  calc ((framesOf pcmData sourceData).map Prod.snd).flatten
      = ((List.range' 0 n frameDuration20SizeInBytes).map
          (Prod.snd ∘ frameAt pcmData sourceData)).flatten
        ++ (frameAt pcmData sourceData (frameDuration20SizeInBytes * n)).2 := by
        rw [framesOf, heq, List.map_map, List.map_append, List.flatten_append]
        exact congrArg _ (List.append_nil _)
    _ = sourceData := by rw [flatten_source_take hlast, hrest, List.take_append_drop]

/-- The source data of each frame starts less than two bytes off its place. -/
theorem source_near (hempty : 0 < pcmData.length) (hpcm : pcmData.length < 2 ^ 24)
    (hsource : sourceData.length < 2 ^ 23) {k : ℕ}
    (hk : k < (framesOf pcmData sourceData).length) :
    |((((framesOf pcmData sourceData).take k).map Prod.snd).flatten.length : ℚ)
      - (frameDuration20SizeInBytes * k : ℕ) * sourceData.length / pcmData.length| < 2 := by
  obtain ⟨n, hlast, -, heq⟩ := frameStarts_eq hempty
  have hkn : k ≤ n := by
    rw [framesOf, List.length_map, heq, List.length_append, List.length_range'] at hk
    exact Nat.lt_add_one_iff.mp hk
  have hle : frameDuration20SizeInBytes * k ≤ frameDuration20SizeInBytes * n :=
    Nat.mul_le_mul_left _ hkn
  have hfirst : (framesOf pcmData sourceData).take k
      = (List.range' 0 k frameDuration20SizeInBytes).map (frameAt pcmData sourceData) := by
    rw [framesOf, heq, ← List.map_take, List.take_append_of_le_length (by simpa using hkn),
      List.take_range'_of_length_ge hkn]
  have hcut := cut_le hempty hpcm hsource (hle.trans hlast.le)
  rw [hfirst, List.map_map, flatten_source_take (lt_of_le_of_lt hle hlast), List.length_take,
    min_eq_left hcut]
  exact cut_near hempty hpcm hsource (hle.trans hlast.le)

/-- All frames but the last one are full. -/
theorem length_of_mem_dropLast (hempty : 0 < pcmData.length)
    {frame : List UInt8 × List UInt8}
    (h : frame ∈ (framesOf pcmData sourceData).dropLast) :
    frame.1.length = frameDuration20SizeInBytes := by
  obtain ⟨n, hlast, -, heq⟩ := frameStarts_eq hempty
  rw [framesOf, heq, List.map_append, List.map_singleton, List.dropLast_concat] at h
  obtain ⟨i, hi, rfl⟩ := List.mem_map.mp h
  obtain ⟨j, hj, rfl⟩ := List.mem_range'.mp hi
  have hle : frameDuration20SizeInBytes * (j + 1) ≤ frameDuration20SizeInBytes * n :=
    Nat.mul_le_mul_left _ hj
  rw [Nat.mul_succ] at hle
  rw [frameAt, List.length_take, List.length_drop]
  omega

/-- If the source data is as long as the PCM data, then so it is in each frame. -/
theorem length_frameAt (hlen : sourceData.length = pcmData.length)
    (hpcm : pcmData.length < 2 ^ 24) {i : ℕ} (hi : i < pcmData.length) :
    (frameAt pcmData sourceData i).2.length = (frameAt pcmData sourceData i).1.length := by
  have hpos : 0 < pcmData.length := by omega
  rw [frameAt, hlen, cut_self hpos (by omega)]
  split_ifs with hlast
  · simp only [List.length_drop, List.length_take]
    omega
  · rw [cut_self hpos (by omega)]
    simp only [List.length_drop, List.length_take]
    omega

end Frames

/-- A packet cut into frames: the frames make up the PCM data and the source data, all of them
but the last one have 20 ms, and the source data of each starts less than two bytes off its
place. -/
structure Framing (pcmData sourceData : List UInt8)
    (frames : List (List UInt8 × List UInt8)) : Prop where
  pcm : (frames.map Prod.fst).flatten = pcmData
  source : (frames.map Prod.snd).flatten = sourceData
  length_eq : ∀ frame ∈ frames.dropLast, frame.1.length = frameDuration20SizeInBytes
  length_le : ∀ frame ∈ frames, frame.1.length ≤ frameDuration20SizeInBytes
  near : ∀ k < frames.length,
    |(((frames.take k).map Prod.snd).flatten.length : ℚ)
      - (frameDuration20SizeInBytes * k : ℕ) * sourceData.length / pcmData.length| < 2
  same : sourceData.length = pcmData.length →
    ∀ frame ∈ frames, frame.2.length = frame.1.length

theorem framing_framesOf {pcmData sourceData : List UInt8} (hempty : 0 < pcmData.length)
    (hpcm : pcmData.length < 2 ^ 24) (hsource : sourceData.length < 2 ^ 23) :
    Framing pcmData sourceData (framesOf pcmData sourceData) where
  pcm := flatten_pcm hempty
  source := flatten_source hempty
  length_eq _ h := length_of_mem_dropLast hempty h
  length_le frame hframe := by
    obtain ⟨i, -, rfl⟩ := List.mem_map.mp hframe
    exact List.length_take_le _ _
  near _ hk := source_near hempty hpcm hsource hk
  same hlen frame hframe := by
    obtain ⟨i, hi, rfl⟩ := List.mem_map.mp hframe
    exact length_frameAt hlen hpcm (lt_of_mem_frameStarts hempty hi)

namespace Detector

variable {τ β : Type} (S : Sherpa τ) (B : FixedSizeBuffer β)

/-- What a call answers. -/
def answers (d : Detector τ β) : Call → Bool
  | .processFrame buff sourceBuff => (d.processFrame S B buff sourceBuff).1.result
  | .forceEnd => false

/-- The calls up to the first one that answers. -/
def untilAnswer (d : Detector τ β) : List Call → List Call
  | [] => []
  | c :: calls =>
      if d.answers S B c then [c] else c :: untilAnswer (d.call S B c).2 calls

/-- The calls of the frames of a packet. -/
def frameCalls (frames : List (List UInt8 × List UInt8)) : List Call :=
  frames.map fun frame => .processFrame frame.1 frame.2

theorem events_cons (d : Detector τ β) (c : Call) (calls : List Call) :
    d.events S B (c :: calls) = (d.call S B c).1 ++ (d.call S B c).2.events S B calls := rfl

/-- One round of the loop. -/
theorem frameLoop_cons {pcmData sourceData : List UInt8} (hpcm : pcmData.length < 2 ^ 24)
    (hsource : sourceData.length < 2 ^ 23) {i : ℕ} (hi : i < pcmData.length) (starts : List ℕ)
    (d : Detector τ β) {c : Call} (hc : c = .processFrame (frameAt pcmData sourceData i).1
      (frameAt pcmData sourceData i).2) :
    d.frameLoop S B pcmData sourceData (i :: starts)
      = if d.answers S B c then
          some ({ result := true, events := (d.call S B c).1 }, (d.call S B c).2)
        else
          ((d.call S B c).2.frameLoop S B pcmData sourceData starts).map fun rest =>
            ({ rest.1 with events := (d.call S B c).1 ++ rest.1.events }, rest.2) := by
  have hframe : (pcmData.drop i).take
      (min (i + frameDuration20SizeInBytes) pcmData.length - i)
        = (frameAt pcmData sourceData i).1 := by
    rw [frameAt, List.take_eq_take_iff, List.length_drop]
    omega
  subst hc
  rw [frameLoop]
  simp only [sourceFrame_eq hpcm hsource hi, Option.bind_eq_bind, Option.bind_some, hframe]
  rw [answers, call]
  cases hresult : (d.processFrame S B (frameAt pcmData sourceData i).1
    (frameAt pcmData sourceData i).2).1.result with
  | true => rw [if_pos rfl, if_pos rfl, ← hresult]
  | false =>
      rw [if_neg Bool.false_ne_true, if_neg Bool.false_ne_true]
      exact Option.map_eq_bind.symm

/-- **The loop over the frames** hands the frames over until one of them answers. -/
theorem frameLoop_eq {pcmData sourceData : List UInt8} (hpcm : pcmData.length < 2 ^ 24)
    (hsource : sourceData.length < 2 ^ 23) {starts : List ℕ}
    (hstarts : ∀ i ∈ starts, i < pcmData.length) (d : Detector τ β) {calls : List Call}
    (hcalls : calls = frameCalls (starts.map (frameAt pcmData sourceData))) :
    d.frameLoop S B pcmData sourceData starts
      = some ({ result := !decide (Along (call S B) (fun d c => d.answers S B c = false) d calls)
                events := d.events S B (d.untilAnswer S B calls) },
          final (call S B) d (d.untilAnswer S B calls)) := by
  induction starts generalizing d calls with
  | nil =>
      rw [hcalls]
      rfl
  | cons i starts ih =>
      have hi : i < pcmData.length := hstarts i List.mem_cons_self
      have hrest : ∀ j ∈ starts, j < pcmData.length :=
        fun j hj => hstarts j (List.mem_cons_of_mem i hj)
      rw [List.map_cons, frameCalls, List.map_cons, ← frameCalls] at hcalls
      subst hcalls
      rw [frameLoop_cons S B hpcm hsource hi starts d rfl, ih hrest _ rfl, untilAnswer]
      generalize Call.processFrame (frameAt pcmData sourceData i).1
        (frameAt pcmData sourceData i).2 = c
      cases hanswer : d.answers S B c with
      | true =>
          have hnot : ¬ Along (call S B) (fun d c => d.answers S B c = false) d
              (c :: frameCalls (starts.map (frameAt pcmData sourceData))) := fun h => by
            simp [hanswer] at h
          rw [if_pos rfl, if_pos rfl, events_cons, decide_eq_false hnot]
          simp [events]
      | false =>
          rw [if_neg Bool.false_ne_true, if_neg Bool.false_ne_true, events_cons]
          simp [hanswer]

end Detector

/-! ## A packet -/

namespace MarginDetector

variable {τ β ι : Type} (S : Sherpa τ) (B : FixedSizeBuffer β) (M : IntBuff ι)
  (decode : List UInt8 → ℤ → ℤ → List UInt8)

/-- **A packet is cut into frames.** Take any packet that completes a frame, and what the
buffer hands out then: PCM data, and the source data it was decoded from, below 16 and 8 MB.
No index is outside of its data, the frames make up the packet, and they are handed over in
order until one of them answers; the frames after that one are dropped. -/
theorem processFrames_frames (m : MarginDetector τ β ι) (buff : List UInt8) (encoding : String)
    (speexSize : ℤ) {block : ℕ} {pcmData sourceData : List UInt8} {left : ι}
    (hblock : block = M.len (M.append m.marginBuff (pcmOf decode buff encoding speexSize) buff)
      / frameDuration20SizeInBytes) (hpos : 0 < block)
    (hget : M.get (M.append m.marginBuff (pcmOf decode buff encoding speexSize) buff)
      (block * frameDuration20SizeInBytes) = ((pcmData, sourceData), left))
    (hempty : 0 < pcmData.length) (hpcm : pcmData.length < 2 ^ 24)
    (hsource : sourceData.length < 2 ^ 23) :
    ∃ frames, Framing pcmData sourceData frames ∧
      m.processFrames S B M decode buff encoding speexSize
        = some ({ result := !decide (Along (Detector.call S B)
                    (fun d c => d.answers S B c = false) m.toDetector
                    (Detector.frameCalls frames))
                  events := m.toDetector.events S B
                    (m.toDetector.untilAnswer S B (Detector.frameCalls frames)) },
            { toDetector := final (Detector.call S B) m.toDetector
                (m.toDetector.untilAnswer S B (Detector.frameCalls frames))
              marginBuff := left }) := by
  refine ⟨framesOf pcmData sourceData, framing_framesOf hempty hpcm hsource, ?_⟩
  have hloop := m.toDetector.frameLoop_eq S B hpcm hsource
    (fun i hi => lt_of_mem_frameStarts hempty hi) rfl
  rw [processFrames]
  simp only [← hblock, hpos.ne', if_false, hget, hloop]
  rfl

section Raw

open SherpaVadDetector (goWithScript scriptedSherpa lastBytes)

/-- A buffer of PCM data and of source data, of which it hands out the same part. -/
def halves : IntBuff (List UInt8 × List UInt8) where
  append buffer pcmData sourceData := (buffer.1 ++ pcmData, buffer.2 ++ sourceData)
  len buffer := buffer.1.length
  get buffer n :=
    let stop := n * buffer.2.length / buffer.1.length
    ((buffer.1.take n, buffer.2.take stop), (buffer.1.drop n, buffer.2.drop stop))

/-- A Go detector whose buffer is empty. -/
def emptyMargin : MarginDetector (List Bool) (ℕ × List UInt8) (List UInt8 × List UInt8) where
  toDetector := (goWithScript [true, false, true]).initializeDetector scriptedSherpa lastBytes
    15000
  marginBuff := ([], [])

theorem processFrames_frames_raw :
    ∃ frames, Framing (List.replicate 1280 7) (List.replicate 1280 7) frames ∧
      ∃ outcome, emptyMargin.processFrames scriptedSherpa lastBytes halves (fun _ _ _ => [])
        (List.replicate 1300 7) "raw" 0 = some outcome := by
  have hblock : 2 = halves.len (halves.append emptyMargin.marginBuff
      (pcmOf (fun _ _ _ => []) (List.replicate 1300 7) "raw" 0) (List.replicate 1300 7))
      / frameDuration20SizeInBytes := by decide +kernel
  have hget : halves.get (halves.append emptyMargin.marginBuff
      (pcmOf (fun _ _ _ => []) (List.replicate 1300 7) "raw" 0) (List.replicate 1300 7))
      (2 * frameDuration20SizeInBytes)
        = ((List.replicate 1280 7, List.replicate 1280 7),
          (List.replicate 20 7, List.replicate 20 7)) := by decide +kernel
  obtain ⟨frames, hframing, hprocess⟩ := processFrames_frames scriptedSherpa lastBytes halves
    (fun _ _ _ => []) emptyMargin (List.replicate 1300 7) "raw" 0 hblock (by decide) hget
    (by decide +kernel) (by decide +kernel) (by decide +kernel)
  exact ⟨frames, hframing, _, hprocess⟩

end Raw

end MarginDetector

end Go

end VadService
