import VadService.Wav.Layout

set_option autoImplicit false

/-! # Files that the writer writes

The writer writes one chunk of sixteen bytes of format and one of data. It cuts off what a
sample has behind the point and does not scale it; the reader divides what it reads by 32768
(`openFile_write`).
-/

namespace VadService

open ByteStream ReadStream Window

namespace Wav

/-! ## The header -/

/-- A field of two bytes has two bytes. -/
theorem ofInt_two (x : ℤ) : ∃ a b, ofInt 2 x = [a, b] := ⟨_, _, rfl⟩

/-- A field of four bytes has four bytes. -/
theorem ofInt_four (x : ℤ) : ∃ a b c d, ofInt 4 x = [a, b, c, d] := ⟨_, _, _, _, rfl⟩

namespace WavWriter

variable (w : WavWriter)

/-- The start of the file. -/
def layout (dataSize bytesPerSecond blockSize : ℤ) : Layout where
  riff := [0x52, 0x49, 0x46, 0x46] ++ ofInt 4 (44 - 8 + dataSize)
    ++ [0x57, 0x41, 0x56, 0x45, 0x66, 0x6d, 0x74, 0x20]
  fmt := [1, 0] ++ ofInt 2 w.numChannel ++ ofInt 4 w.sampleRate ++ ofInt 4 bytesPerSecond
    ++ ofInt 2 blockSize ++ ofInt 2 w.bitsPerSample
  extra := []
  chunks := []
  length_riff := rfl
  length_fmt := rfl
  length_extra := by decide

/-- The header is the start of a file and the header of its data. -/
theorem header_eq (dataSize bytesPerSecond blockSize : ℤ) :
    w.header dataSize bytesPerSecond blockSize
      = (w.layout dataSize bytesPerSecond blockSize).head ++ (dataId ++ ofInt 4 dataSize) := by
  obtain ⟨c₁, c₂, hchannel⟩ := ofInt_two w.numChannel
  obtain ⟨b₁, b₂, hbits⟩ := ofInt_two w.bitsPerSample
  obtain ⟨k₁, k₂, hblock⟩ := ofInt_two blockSize
  obtain ⟨r₁, r₂, r₃, r₄, hrate⟩ := ofInt_four w.sampleRate
  obtain ⟨d₁, d₂, d₃, d₄, hdata⟩ := ofInt_four dataSize
  obtain ⟨s₁, s₂, s₃, s₄, hsize⟩ := ofInt_four (44 - 8 + dataSize)
  obtain ⟨p₁, p₂, p₃, p₄, hsecond⟩ := ofInt_four bytesPerSecond
  simp only [header, layout, Layout.head, hchannel, hbits, hblock, hrate, hdata, hsize, hsecond]
  rfl

/-- The fields that the reader looks at. -/
theorem fmtField_layout (dataSize bytesPerSecond blockSize : ℤ) :
    (w.layout dataSize bytesPerSecond blockSize).fmtField 0 2 = 1 ∧
      (w.layout dataSize bytesPerSecond blockSize).fmtField 2 2
        = unsigned (ofInt 2 w.numChannel) ∧
      (w.layout dataSize bytesPerSecond blockSize).fmtField 4 4
        = unsigned (ofInt 4 w.sampleRate) ∧
      (w.layout dataSize bytesPerSecond blockSize).fmtField 14 2
        = unsigned (ofInt 2 w.bitsPerSample) := by
  obtain ⟨c₁, c₂, hchannel⟩ := ofInt_two w.numChannel
  obtain ⟨b₁, b₂, hbits⟩ := ofInt_two w.bitsPerSample
  obtain ⟨k₁, k₂, hblock⟩ := ofInt_two blockSize
  obtain ⟨r₁, r₂, r₃, r₄, hrate⟩ := ofInt_four w.sampleRate
  obtain ⟨p₁, p₂, p₃, p₄, hsecond⟩ := ofInt_four bytesPerSecond
  simp only [Layout.fmtField, layout, hchannel, hbits, hblock, hrate, hsecond]
  exact ⟨rfl, rfl, rfl, rfl⟩

/-! ## The samples -/

/-- The value of a sample in the file, cut off behind the point. -/
def whole (x : F32) : ℤ := x.truncate.getD 0

theorem whole_of_toSigned {width : ℕ} {x : F32} {n : ℤ} (h : x.toSigned width = some n) :
    whole x = n ∧ -(256 ^ width : ℕ) ≤ n * 2 ∧ n * 2 < (256 ^ width : ℕ) := by
  rw [F32.toSigned, Option.filter_eq_some_iff] at h
  obtain ⟨hn, hrange⟩ := h
  rw [whole, hn, Option.getD_some]
  exact ⟨rfl, of_decide_eq_true hrange⟩

/-- The cases of `bits_per_sample_` that write samples. -/
theorem sampleBytes_eq {width : ℕ} (hwidth : width = 1 ∨ width = 2 ∨ width = 4)
    (hbits : w.bitsPerSample = 8 * width) (k : ℕ) :
    w.sampleBytes k = (w.data[k]?).bind fun x => (x.toSigned width).map (ofInt width) := by
  rcases hwidth with rfl | rfl | rfl <;>
  · rw [sampleBytes, hbits]
    cases hx : w.data[k]? with
    | none => simp [hx]
    | some x => simp [hx, Option.map_eq_bind]

/-- **The bytes of the samples** from an index on: each is a sample cut off, which is in the
range of its type. -/
theorem writeSamples_eq {width : ℕ} (hwidth : width = 1 ∨ width = 2 ∨ width = 4)
    (hbits : w.bitsPerSample = 8 * width) {first count : ℕ} {bytes : List UInt8}
    (h : w.writeSamples ((List.range' first count).map Nat.cast) = some bytes) :
    ((w.data.drop first).take count).length = count ∧
      bytes = ((w.data.drop first).take count).flatMap (fun x => ofInt width (whole x)) ∧
      ∀ x ∈ (w.data.drop first).take count,
        -(256 ^ width : ℕ) ≤ whole x * 2 ∧ whole x * 2 < (256 ^ width : ℕ) := by
  induction count generalizing first bytes with
  | zero =>
      cases h
      simp
  | succ count ih =>
      rw [List.range'_succ, List.map_cons, writeSamples, w.sampleBytes_eq hwidth hbits] at h
      obtain ⟨sample, hsample, h⟩ := Option.bind_eq_some_iff.mp h
      obtain ⟨samples, hsamples, h⟩ := Option.bind_eq_some_iff.mp h
      cases h
      obtain ⟨x, hx, hsample⟩ := Option.bind_eq_some_iff.mp hsample
      obtain ⟨n, hn, rfl⟩ := Option.map_eq_some_iff.mp hsample
      obtain ⟨hwhole, hrange⟩ := whole_of_toSigned hn
      obtain ⟨hlen, hbytes, hall⟩ := ih hsamples
      obtain ⟨hlt, hget⟩ := List.getElem?_eq_some_iff.mp hx
      have hdrop : w.data.drop first = x :: w.data.drop (first + 1) := by
        rw [List.drop_eq_getElem_cons hlt, hget]
      rw [hdrop, List.take_succ_cons]
      refine ⟨?_, ?_, ?_⟩
      · rw [List.length_cons, hlen]
      · rw [List.flatMap_cons, hwhole, ← hbytes]
      · intro y hy
        rcases List.mem_cons.mp hy with rfl | hy
        · rw [hwhole]
          exact hrange
        · exact hall y hy

/-- The two loops go through the points in order. -/
theorem indices_eq {samples channels : ℕ} (hsamples : w.numSamples = samples)
    (hchannels : w.numChannel = channels) :
    w.indices = (List.range' 0 (samples * channels)).map Nat.cast := by
  rw [indices, hsamples, hchannels, Int.toNat_natCast, Int.toNat_natCast, ← List.range_eq_range']
  clear hsamples
  induction samples with
  | zero => simp
  | succ samples ih =>
      rw [List.range_succ, List.flatMap_append, ih, Nat.succ_mul, List.range_add, List.map_append]
      simp

/-- The samples are read as they were cut off. -/
theorem windows_samples {width : ℕ} (hpos : 0 < width) {data : List F32}
    (hrange : ∀ x ∈ data, -(256 ^ width : ℕ) ≤ whole x * 2 ∧ whole x * 2 < (256 ^ width : ℕ)) :
    (windows width (data.flatMap fun x => ofInt width (whole x))).map pcmSample
      = data.map fun x => (F32.ofInt (whole x)).divRat 32768 := by
  have hall : ∀ v ∈ data.map (fun x => ofInt width (whole x)), v.length = width := by
    intro v hv
    obtain ⟨x, -, rfl⟩ := List.mem_map.mp hv
    exact length_ofInt _ _
  rw [List.flatMap_def, windows_flatten hpos hall, List.map_map]
  refine List.map_congr_left fun x hx => ?_
  obtain ⟨hlow, hhigh⟩ := hrange x hx
  rw [Function.comp_apply, pcmSample, signed_ofInt hlow hhigh]

/-! ## The file -/

theorem mulInt_eq_some {x y z : ℤ} (h : mulInt x y = some z) :
    z = x * y ∧ -2 ^ 31 ≤ z ∧ z < 2 ^ 31 := by
  unfold mulInt at h
  split_ifs at h with hrange
  cases h
  exact ⟨rfl, hrange⟩

/-- What is computed for a file. -/
theorem write_eq_some {file : List UInt8} (h : w.write = some file) :
    ∃ points dataSize pointsPerSecond bytesPerSecond blockSize samples,
      mulInt w.numSamples w.numChannel = some points ∧
      mulInt points (w.bitsPerSample.tdiv 8) = some dataSize ∧
      mulInt w.sampleRate w.numChannel = some pointsPerSecond ∧
      mulInt pointsPerSecond (w.bitsPerSample.tdiv 8) = some bytesPerSecond ∧
      w.writeSamples w.indices = some samples ∧
      file = w.header dataSize bytesPerSecond blockSize ++ samples := by
  obtain ⟨points, hpoints, h⟩ := Option.bind_eq_some_iff.mp h
  obtain ⟨dataSize, hdataSize, h⟩ := Option.bind_eq_some_iff.mp h
  obtain ⟨pointsPerSecond, hper, h⟩ := Option.bind_eq_some_iff.mp h
  obtain ⟨bytesPerSecond, hbytes, h⟩ := Option.bind_eq_some_iff.mp h
  obtain ⟨blockSize, -, h⟩ := Option.bind_eq_some_iff.mp h
  obtain ⟨samples, hsamples, h⟩ := Option.bind_eq_some_iff.mp h
  cases h
  exact ⟨points, dataSize, pointsPerSecond, bytesPerSecond, blockSize, samples, hpoints,
    hdataSize, hper, hbytes, hsamples, rfl⟩

/-- A rate that can be multiplied by a number of channels is an `int`. -/
theorem sampleRate_range {rate channels : ℤ} (hchannels : 0 < channels)
    (h : -2 ^ 31 ≤ rate * channels) (h' : rate * channels < 2 ^ 31) :
    WordArith.bits32.toSigned (rate % 2 ^ 32) = rate := by
  have hlow : -2 ^ 31 ≤ rate := by nlinarith
  have hhigh : rate < 2 ^ 31 := by nlinarith
  simp only [WordArith.bits32]
  omega

/-- The file of a writer, in parts. -/
def file (dataSize bytesPerSecond blockSize : ℤ) {samples : List UInt8}
    (h : samples.length < 2 ^ 32) : WavFile :=
  { w.layout dataSize bytesPerSecond blockSize with
    dataSize := samples.length
    tail := samples
    dataSize_lt := h }

theorem bytes_file {dataSize : ℤ} (bytesPerSecond blockSize : ℤ) {samples : List UInt8}
    (h : samples.length < 2 ^ 32) (hsize : dataSize = samples.length) :
    (w.file dataSize bytesPerSecond blockSize h).bytes
      = w.header dataSize bytesPerSecond blockSize ++ samples := by
  have hmod : (dataSize % 256 ^ 4).toNat = samples.length := by omega
  have hdata : ofInt 4 dataSize = littleEndian 4 samples.length := by rw [ofInt, hmod]
  rw [header_eq, hdata]
  simp only [List.append_assoc]
  rfl

theorem audio_file (dataSize bytesPerSecond blockSize : ℤ) {samples : List UInt8}
    (h : samples.length < 2 ^ 32) :
    (w.file dataSize bytesPerSecond blockSize h).audio = samples := by
  rw [WavFile.audio]
  split_ifs
  · rfl
  · exact List.take_length

/-- A file without samples is a header. -/
theorem length_file (dataSize bytesPerSecond blockSize : ℤ) {samples : List UInt8}
    (h : samples.length < 2 ^ 32) (hzero : samples.length = 0) :
    (w.file dataSize bytesPerSecond blockSize h).bytes.length < 2 ^ 31 := by
  have hempty : samples = [] := List.eq_nil_of_length_eq_zero hzero
  subst hempty
  have hlen : (w.file dataSize bytesPerSecond blockSize h).bytes.length = 44 := by
    show ((w.layout dataSize bytesPerSecond blockSize).head ++ _).length = 44
    rw [List.length_append, Layout.length_head]
    rfl
  omega

/-- The fields of the file, as the reader has them. -/
theorem fmtField_file (dataSize bytesPerSecond blockSize : ℤ) {samples : List UInt8}
    (h : samples.length < 2 ^ 32) {channels bits : ℕ} (hchannels : w.numChannel = channels)
    (hchannels' : channels < 2 ^ 16) (hbits : w.bitsPerSample = bits) (hbits' : bits < 2 ^ 16) :
    (w.file dataSize bytesPerSecond blockSize h).fmtField 0 2 = 1 ∧
      (w.file dataSize bytesPerSecond blockSize h).fmtField 2 2 = channels ∧
      ((w.file dataSize bytesPerSecond blockSize h).fmtField 4 4 : ℤ) = w.sampleRate % 2 ^ 32 ∧
      (w.file dataSize bytesPerSecond blockSize h).fmtField 14 2 = bits := by
  obtain ⟨hformat, hfield, hrate, hbit⟩ := w.fmtField_layout dataSize bytesPerSecond blockSize
  refine ⟨hformat, ?_, ?_, ?_⟩
  · refine hfield.trans ?_
    zify
    rw [unsigned_ofInt, hchannels]
    omega
  · refine (congrArg Nat.cast hrate).trans ?_
    rw [unsigned_ofInt]
    rfl
  · refine hbit.trans ?_
    zify
    rw [unsigned_ofInt, hbits]
    omega

/-- **What is written is read.** Take a writer of 8, 16 or 32 bits that writes a file (all its
products and its samples are of their types), with a number of samples that is not negative
and of channels from 1 to 65535. The reader of this file has its members, and its data is
that of the writer, cut off and divided by 32768. -/
theorem openFile_write {file : List UInt8} (hwrite : w.write = some file)
    (hbits : w.bitsPerSample = 8 ∨ w.bitsPerSample = 16 ∨ w.bitsPerSample = 32)
    (hsamples : 0 ≤ w.numSamples) (hchannels : 0 < w.numChannel)
    (hchannels' : w.numChannel < 2 ^ 16) (memory : Memory) {rounds : ℕ} (hrounds : 0 < rounds) :
    openFile memory rounds (some file)
      = some (.reader
          { numChannel := w.numChannel
            sampleRate := w.sampleRate
            bitsPerSample := w.bitsPerSample
            numSamples := w.numSamples
            data := (w.data.take (w.numSamples * w.numChannel).toNat).map fun x =>
              (F32.ofInt (whole x)).divRat 32768 }) := by
  obtain ⟨points, dataSize, pointsPerSecond, bytesPerSecond, blockSize, samples, hpoints, hdataSize,
    hper, -, hwritten, rfl⟩ := w.write_eq_some hwrite
  obtain ⟨n, hn⟩ := Int.eq_ofNat_of_zero_le hsamples
  obtain ⟨c, hc⟩ := Int.eq_ofNat_of_zero_le hchannels.le
  obtain ⟨width, hwidth, hwide⟩ : ∃ width : ℕ, (width = 1 ∨ width = 2 ∨ width = 4) ∧
      w.bitsPerSample = (8 * width : ℕ) := by
    rcases hbits with h | h | h
    · exact ⟨1, by simp, h⟩
    · exact ⟨2, by simp, h⟩
    · exact ⟨4, by simp, h⟩
  have hpos : 0 < width := by omega
  have hcpos : 0 < c := by omega
  -- the bytes of the samples
  rw [w.indices_eq hn hc] at hwritten
  obtain ⟨hlen, hbytes, hrange⟩ := w.writeSamples_eq hwidth (by rw [hwide]; push_cast; rfl) hwritten
  rw [List.drop_zero] at hlen hbytes hrange
  have hcount : samples.length = n * c * width := by
    rw [hbytes, List.length_flatMap]
    simp only [length_ofInt, List.map_const', List.sum_replicate, hlen, smul_eq_mul]
  have hsize : dataSize = samples.length := by
    have htdiv : w.bitsPerSample.tdiv 8 = width := by
      rw [hwide]
      push_cast
      exact Int.mul_tdiv_cancel_left _ (by decide)
    rw [(mulInt_eq_some hdataSize).1, (mulInt_eq_some hpoints).1, htdiv, hn, hc, hcount]
    push_cast
    rfl
  have hlt : samples.length < 2 ^ 31 := by
    have hbound := (mulInt_eq_some hdataSize).2.2
    omega
  have hrate := (mulInt_eq_some hper).1 ▸ (mulInt_eq_some hper).2
  have hlt32 : samples.length < 2 ^ 32 := by omega
  -- the file is read as any other
  obtain ⟨hfmt, hch, hsr, hbit⟩ := w.fmtField_file dataSize bytesPerSecond blockSize
    hlt32 hc (by omega) hwide (by omega)
  have hformat : sampleFormat (8 * width) 1 = some (width, pcmSample) := by
    rcases hwidth with rfl | rfl | rfl <;> rfl
  have hopen := (w.file dataSize bytesPerSecond blockSize hlt32).openFile_reader memory hrounds
    (by rw [hbit, hfmt]; exact hformat) (by rw [hch]; omega) le_rfl hlt
    (fun hzero => w.length_file dataSize bytesPerSecond blockSize hlt32 hzero)
  have hdata : (windows width samples).map pcmSample
      = (w.data.take (n * c)).map fun x => (F32.ofInt (whole x)).divRat 32768 := by
    rw [hbytes, windows_samples hpos hrange]
  have hnum : n * c * width / width / c = n := by
    rw [Nat.mul_div_cancel _ hpos, Nat.mul_div_cancel _ hcpos]
  have htoNat : (w.numSamples * w.numChannel).toNat = n * c := by
    rw [hn, hc, ← Nat.cast_mul, Int.toNat_natCast]
  rw [w.bytes_file bytesPerSecond blockSize _ hsize, audio_file, hch, hsr, hbit, hcount, hnum,
    sampleRate_range hchannels hrate.1 hrate.2, hdata, ← hn, ← hc, ← hwide, ← htoNat] at hopen
  exact hopen

/-- Two samples in two channels. -/
def stereo : WavWriter where
  data := [F32.ofInt 5, F32.ofInt (-3), F32.ofInt 16384, F32.ofInt (-32768)]
  numSamples := 2
  numChannel := 2
  sampleRate := 16000
  bitsPerSample := 16

theorem openFile_write_stereo :
    ∃ file, stereo.write = some file ∧
      openFile zeroMemory 1 (some file)
        = some (.reader
            { numChannel := 2
              sampleRate := 16000
              bitsPerSample := 16
              numSamples := 2
              data := stereo.data.map fun x => (F32.ofInt (whole x)).divRat 32768 }) := by
  have hsome : stereo.write.isSome = true := by decide +kernel
  refine ⟨stereo.write.get hsome, (Option.some_get hsome).symm, ?_⟩
  exact stereo.openFile_write (Option.some_get hsome).symm (by decide) (by decide) (by decide)
    (by decide) zeroMemory (by decide)

end WavWriter

end Wav

end VadService
