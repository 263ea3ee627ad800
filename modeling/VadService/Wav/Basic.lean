import VadService.Basic
import VadService.Lib.ByteStream
import VadService.Lib.WordArith

set_option autoImplicit false

/-! # WAV files

`WavReader` and `WavWriter` of `wav.h`. The header of a file is one struct of 44 bytes that is
read and written as it lies in memory, and the reader goes through the chunks of a file by
reading eight bytes at a time over its last two fields. Memory holds arbitrary bytes before it
is written (`Memory`), and a short read leaves them.

The reader does not look at the ids of the file, and it may go on looking for a `data` chunk
for ever: its loop is given a number of rounds.
-/

namespace VadService

open ByteStream

/-! ## The bits of a `float` -/

/-- The `float` with the given bits. -/
def F32.ofBits (n : ℕ) : F32 :=
  let negative := n / 2 ^ 31 % 2 == 1
  let sign : ℚ := if negative then -1 else 1
  let exponent : ℕ := n / 2 ^ 23 % 256
  let fraction : ℕ := n % 2 ^ 23
  if exponent = 255 then if fraction = 0 then .inf negative else .nan
  else if exponent = 0 then binary32.round (sign * fraction * 2 ^ (-149 : ℤ))
  else binary32.round (sign * (2 ^ 23 + fraction) * 2 ^ (exponent - 150 : ℤ))

namespace Wav

/-! ## The header -/

/-- `WavHeader` -/
@[ext]
structure WavHeader where
  bytes : List UInt8
  length_bytes : bytes.length = 44

namespace WavHeader

variable (header : WavHeader)

/-- The bytes of a field. -/
def field (offset width : ℕ) : List UInt8 := (header.bytes.drop offset).take width

/-- `fmt_size` -/
def fmtSize : ℕ := unsigned (header.field 16 4)

/-- `format` -/
def format : ℕ := unsigned (header.field 20 2)

/-- `channels` -/
def channels : ℕ := unsigned (header.field 22 2)

/-- `sample_rate` -/
def sampleRate : ℕ := unsigned (header.field 24 4)

/-- `bit` -/
def bit : ℕ := unsigned (header.field 34 2)

/-- `data` -/
def data : List UInt8 := header.field 36 4

/-- `data_size` -/
def dataSize : ℕ := unsigned (header.field 40 4)

end WavHeader

/-- The bytes of `"data"`. -/
def dataId : List UInt8 := [0x64, 0x61, 0x74, 0x61]

/-! ## The reader -/

/-- What the memory of the reader holds before it is written. -/
structure Memory where
  header : WavHeader
  sample : List UInt8
  floats : ℕ → F32
  length_sample : sample.length = 4

/-- `WavReader` -/
structure WavReader where
  numChannel : ℤ
  sampleRate : ℤ
  bitsPerSample : ℤ
  numSamples : ℤ
  data : List F32

/-- What `Open` comes to: it returns `false`, or it returns `true` with a reader that is set,
or it divides by zero, or it throws `std::bad_array_new_length`. -/
inductive Opened where
  | refused
  | reader (r : WavReader)
  | divisionByZero
  | badArrayLength

/-- `fread(&header, 1, sizeof(header), fp)` -/
def readHeader (memory : Memory) (s : ReadStream) : WavHeader × ReadStream :=
  let header := s.read 44 memory.header.bytes
  ({ bytes := header.1
     length_bytes := by
      have h := memory.header.length_bytes
      rw [ReadStream.length_read s (by omega), h] },
    header.2)

/-- `fread(header.data, 8, sizeof(char), fp)`, which goes over `data` and `data_size`. -/
def readChunk (header : WavHeader) (s : ReadStream) : WavHeader × ReadStream :=
  let chunk := s.read 8 (header.bytes.drop 36)
  ({ bytes := header.bytes.take 36 ++ chunk.1
     length_bytes := by
      have h := header.length_bytes
      have hdrop : (header.bytes.drop 36).length = 8 := by rw [List.length_drop, h]
      rw [List.length_append, ReadStream.length_read s (by omega), hdrop, List.length_take, h]
      rfl },
    chunk.2)

/-- The check of `fmt_size`, and the chunk after a longer format. -/
def skipFormat (header : WavHeader) (s : ReadStream) : Option (WavHeader × ReadStream) :=
  if header.fmtSize < 16 then none
  else if 16 < header.fmtSize then
    let offset := WordArith.bits32.toSigned (44 - 8 + header.fmtSize - 16)
    some (readChunk header (s.seekSet offset))
  else some (header, s)

/-- The loop that looks for the `data` chunk. -/
def findData : ℕ → WavHeader → ReadStream → Option (WavHeader × ReadStream)
  | 0, _, _ => none
  | rounds + 1, header, s =>
      if header.data = dataId then some (header, s)
      else
        let (header, s) := readChunk header (s.seekCur header.dataSize)
        findData rounds header s

/-- The size of the data; a size of zero stands for the rest of the file. -/
def settleSize (header : WavHeader) (s : ReadStream) : ℕ × ReadStream :=
  if header.dataSize = 0 then
    let offset := WordArith.bits32.toSigned s.pos
    let s := s.seekEnd
    ((WordArith.bits32.toUnsigned (s.pos - offset)).toNat, s.seekSet offset)
  else (header.dataSize, s)

/-- A sample of signed integers: `static_cast<float>(sample) / 32768` -/
def pcmSample (sample : List UInt8) : F32 := (F32.ofInt (signed sample)).divRat 32768

/-- A sample of `float`s. -/
def ieeeSample (sample : List UInt8) : F32 := F32.ofBits (unsigned sample)

/-- The cases of `bits_per_sample_`: the bytes of a sample, and its value. -/
def sampleFormat (bitsPerSample format : ℕ) : Option (ℕ × (List UInt8 → F32)) :=
  match bitsPerSample with
  | 8 => some (1, pcmSample)
  | 16 => some (2, pcmSample)
  | 32 =>
      if format = 1 then some (4, pcmSample)
      else if format = 3 then some (4, ieeeSample)
      else none
  | _ => none

/-- The samples, which are not written if their format is not supported. -/
def loadSamples (memory : Memory) (header : WavHeader) (numData : ℕ) (s : ReadStream) :
    List F32 :=
  match sampleFormat header.bit header.format with
  | some (width, value) => (s.readItems width numData (memory.sample.take width)).map value
  | none => (List.range numData).map memory.floats

/-- The rest of `Open`, once the data is found. -/
def load (memory : Memory) (header : WavHeader) (dataSize : ℕ) (s : ReadStream) : Opened :=
  if header.bit / 8 = 0 then .divisionByZero
  else
    let numData := WordArith.bits32.toSigned (dataSize / (header.bit / 8) : ℕ)
    if numData < 0 then .badArrayLength
    else if header.channels = 0 then .divisionByZero
    else
      .reader
        { numChannel := header.channels
          sampleRate := WordArith.bits32.toSigned header.sampleRate
          bitsPerSample := header.bit
          numSamples := numData.tdiv header.channels
          data := loadSamples memory header numData.toNat s }

/-- `Open` of a file, or of a name that `fopen` does not open. It has no result if the loop
is not through after the given number of rounds. -/
def openFile (memory : Memory) (rounds : ℕ) : Option (List UInt8) → Option Opened
  | none => some .refused
  | some bytes =>
      let (header, s) := readHeader memory { bytes := bytes, pos := 0 }
      match skipFormat header s with
      | none => some .refused
      | some (header, s) =>
          (findData rounds header s).map fun (header, s) =>
            let (dataSize, s) := settleSize header s
            load memory header dataSize s

/-! ## The writer -/

/-- `WavWriter` -/
structure WavWriter where
  data : List F32
  numSamples : ℤ
  numChannel : ℤ
  sampleRate : ℤ
  bitsPerSample : ℤ

/-- A product of two `int`s, which is undefined if it is not an `int`. -/
def mulInt (x y : ℤ) : Option ℤ :=
  if -2 ^ 31 ≤ x * y ∧ x * y < 2 ^ 31 then some (x * y) else none

/-- `wav_header` -/
def wavHeader : List UInt8 :=
  [0x52, 0x49, 0x46, 0x46, 0x00, 0x00, 0x00, 0x00, 0x57,
   0x41, 0x56, 0x45, 0x66, 0x6d, 0x74, 0x20, 0x10, 0x00,
   0x00, 0x00, 0x01, 0x00, 0x00, 0x00, 0x00, 0x00, 0x00,
   0x00, 0x00, 0x00, 0x00, 0x00, 0x00, 0x00, 0x00, 0x00,
   0x64, 0x61, 0x74, 0x61, 0x00, 0x00, 0x00, 0x00]

/-- Sets a field. -/
def setField (offset : ℕ) (field header : List UInt8) : List UInt8 :=
  header.take offset ++ field ++ header.drop (offset + field.length)

namespace WavWriter

variable (w : WavWriter)

/-- The header of the file. -/
def header (dataSize bytesPerSecond blockSize : ℤ) : List UInt8 :=
  (((((((wavHeader
    |> setField 22 (ofInt 2 w.numChannel))
    |> setField 34 (ofInt 2 w.bitsPerSample))
    |> setField 24 (ofInt 4 w.sampleRate))
    |> setField 40 (ofInt 4 dataSize))
    |> setField 4 (ofInt 4 (44 - 8 + dataSize)))
    |> setField 28 (ofInt 4 bytesPerSecond))
    |> setField 32 (ofInt 2 blockSize))

/-- The bytes of the sample at an index; the data is only looked at in one of the cases. -/
def sampleBytes (index : ℤ) : Option (List UInt8) :=
  let write (width : ℕ) : Option (List UInt8) := do
    let x ← if 0 ≤ index then w.data[index.toNat]? else none
    let sample ← x.toSigned width
    some (ofInt width sample)
  match w.bitsPerSample with
  | 8 => write 1
  | 16 => write 2
  | 32 => write 4
  | _ => some []

/-- The bytes of the samples at a list of indices. -/
def writeSamples : List ℤ → Option (List UInt8)
  | [] => some []
  | index :: indices => do
      let sample ← w.sampleBytes index
      let samples ← writeSamples indices
      some (sample ++ samples)

/-- The indices of the two loops. -/
def indices : List ℤ :=
  (List.range w.numSamples.toNat).flatMap fun (i : ℕ) =>
    (List.range w.numChannel.toNat).map fun (j : ℕ) => i * w.numChannel + j

/-- `Write`: the bytes of the file, unless what it does is undefined. -/
def write : Option (List UInt8) := do
  let sampleSize := w.bitsPerSample.tdiv 8
  let points ← mulInt w.numSamples w.numChannel
  let dataSize ← mulInt points sampleSize
  let pointsPerSecond ← mulInt w.sampleRate w.numChannel
  let bytesPerSecond ← mulInt pointsPerSecond sampleSize
  let blockSize ← mulInt w.numChannel sampleSize
  let samples ← w.writeSamples w.indices
  some (w.header dataSize bytesPerSecond blockSize ++ samples)

end WavWriter

end Wav

end VadService
