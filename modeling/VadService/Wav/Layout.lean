import VadService.Wav.Basic

set_option autoImplicit false

/-! # Files with chunks

A WAV file has a header, a format that may be longer than the sixteen bytes the reader knows,
and any number of other chunks (`Layout`); then come the data, and perhaps more (`WavFile`).
Whatever the chunks are, the reader goes over them to the data and reads it
(`openFile_bytes`). If there is no data it goes over the end of the file and never comes back
(`openFile_without_data`).
-/

namespace VadService

open ByteStream ReadStream Window

namespace Wav

/-- A chunk that is not the data. Its body is not padded: the reader goes on at its end. -/
structure Chunk where
  id : List UInt8
  body : List UInt8
  length_id : id.length = 4
  id_ne : id ≠ dataId
  length_body : body.length < 2 ^ 32

/-- The start of a file: what stands in front of the size of the format, the format and what
follows it in its chunk, and the other chunks. -/
structure Layout where
  riff : List UInt8
  fmt : List UInt8
  extra : List UInt8
  chunks : List Chunk
  length_riff : riff.length = 16
  length_fmt : fmt.length = 16
  length_extra : extra.length + 36 < 2 ^ 31

/-- A file: the start, the size that is declared for the data, and all bytes after that. -/
structure WavFile extends Layout where
  dataSize : ℕ
  tail : List UInt8
  dataSize_lt : dataSize < 2 ^ 32

/-- The eight bytes in front of the body of a chunk. -/
def chunkHeader (id : List UInt8) (size : ℕ) : List UInt8 := id ++ littleEndian 4 size

/-- The header of the next chunk and what follows it, given those of the last one. -/
def chunksBytes (last : List UInt8 × List UInt8) : List Chunk → List UInt8 × List UInt8
  | [] => last
  | c :: cs =>
      let next := chunksBytes last cs
      (chunkHeader c.id c.body.length, c.body ++ (next.1 ++ next.2))

namespace Layout

variable (l : Layout)

/-- The bytes of the header in front of the next chunk. -/
def head : List UInt8 := l.riff ++ littleEndian 4 (16 + l.extra.length) ++ l.fmt

/-- The bytes of a file that ends with the last chunk. -/
def fileBytes (last : List UInt8 × List UInt8) : List UInt8 :=
  l.head ++ (l.extra ++ ((chunksBytes last l.chunks).1 ++ (chunksBytes last l.chunks).2))

/-- A number of the format. -/
def fmtField (offset width : ℕ) : ℕ := unsigned ((l.fmt.drop offset).take width)

theorem length_head : l.head.length = 36 := by
  simp [head, l.length_riff, l.length_fmt]

end Layout

namespace WavFile

variable (f : WavFile)

/-- The bytes of the file. -/
def bytes : List UInt8 := f.fileBytes (chunkHeader dataId f.dataSize, f.tail)

/-- The bytes of the samples. A declared size of zero stands for the rest of the file. -/
def audio : List UInt8 := if f.dataSize = 0 then f.tail else f.tail.take f.dataSize

end WavFile

theorem suffix_chunksBytes (last : List UInt8 × List UInt8) (chunks : List Chunk) :
    last.2 <:+ (chunksBytes last chunks).2 := by
  induction chunks with
  | nil => exact List.suffix_rfl
  | cons c cs ih =>
      have hnext : (chunksBytes last cs).2 <:+ (chunksBytes last (c :: cs)).2 :=
        (List.suffix_append _ _).trans (List.suffix_append _ _)
      exact ih.trans hnext

/-- What follows the last chunk header ends the file. -/
theorem Layout.suffix_fileBytes (l : Layout) (last : List UInt8 × List UInt8) :
    last.2 <:+ l.fileBytes last := by
  have hend : (chunksBytes last l.chunks).2 <:+ l.fileBytes last :=
    ((List.suffix_append _ _).trans (List.suffix_append _ _)).trans (List.suffix_append _ _)
  exact (suffix_chunksBytes last l.chunks).trans hend

/-! ## Headers in two parts -/

/-- A header that is made of its first nine fields and of the last two. -/
def headerOf (head chunk : List UInt8) (h : head.length = 36) (h' : chunk.length = 8) :
    WavHeader where
  bytes := head ++ chunk
  length_bytes := by rw [List.length_append, h, h']

section Parts

variable {head chunk : List UInt8} (h : head.length = 36) (h' : chunk.length = 8)

theorem field_headerOf {offset width : ℕ} (hoffset : offset + width ≤ 36) :
    (headerOf head chunk h h').field offset width = (head.drop offset).take width := by
  rw [WavHeader.field, headerOf, List.drop_append_of_le_length (by omega),
    List.take_append_of_le_length (by rw [List.length_drop]; omega)]

theorem data_headerOf : (headerOf head chunk h h').data = chunk.take 4 := by
  rw [WavHeader.data, WavHeader.field, headerOf, List.drop_left' h]

theorem dataSize_headerOf :
    (headerOf head chunk h h').dataSize = unsigned ((chunk.drop 4).take 4) := by
  rw [WavHeader.dataSize, WavHeader.field, headerOf, List.drop_append, h,
    List.drop_eq_nil_of_le (by omega), List.nil_append]

/-- A chunk header is read over the last two fields. -/
theorem readChunk_headerOf {next : List UInt8} (hnext : next.length = 8)
    (done rest : List UInt8) :
    readChunk (headerOf head chunk h h') (between done (next ++ rest))
      = (headerOf head next h hnext, between (done ++ next) rest) := by
  have hempty : chunk.drop 8 = [] := List.drop_eq_nil_of_le h'.le
  refine Prod.ext (WavHeader.ext ?_) ?_
  · show (head ++ chunk).take 36
        ++ ((between done (next ++ rest)).read 8 ((head ++ chunk).drop 36)).1 = head ++ next
    rw [List.take_left' h, List.drop_left' h, read_between hnext, hempty, List.append_nil]
  · show ((between done (next ++ rest)).read 8 ((head ++ chunk).drop 36)).2 = _
    rw [read_between hnext]

end Parts

@[simp] theorem length_chunkHeader {id : List UInt8} (h : id.length = 4) (size : ℕ) :
    (chunkHeader id size).length = 8 := by
  rw [chunkHeader, List.length_append, h, length_littleEndian]

theorem length_dataId : dataId.length = 4 := rfl

theorem take_chunkHeader {id : List UInt8} (h : id.length = 4) (size : ℕ) :
    (chunkHeader id size).take 4 = id := List.take_left' h

theorem size_chunkHeader {id : List UInt8} (h : id.length = 4) {size : ℕ} (hsize : size < 2 ^ 32) :
    unsigned (((chunkHeader id size).drop 4).take 4) = size := by
  rw [chunkHeader, List.drop_left' h, List.take_of_length_le (by simp),
    unsigned_littleEndian_of_lt hsize]

/-! ## The loop over the chunks -/

section Chunks

variable {last : List UInt8 × List UInt8} (hlast : last.1.length = 8)

include hlast in
theorem length_chunksBytes (chunks : List Chunk) : (chunksBytes last chunks).1.length = 8 := by
  cases chunks with
  | nil => exact hlast
  | cons c cs => exact length_chunkHeader c.length_id c.body.length

omit hlast in
/-- What follows the header of a chunk. -/
theorem chunksBytes_cons_snd (c : Chunk) (cs : List Chunk) :
    (chunksBytes last (c :: cs)).2
      = c.body ++ ((chunksBytes last cs).1 ++ (chunksBytes last cs).2) := rfl

/-- **The loop goes over the chunks**, and comes to the last one. -/
theorem findData_chunksBytes {head : List UInt8} (h : head.length = 36) (chunks : List Chunk)
    (rounds : ℕ) (done : List UInt8) :
    ∃ done',
      done ++ (chunksBytes last chunks).2 = done' ++ last.2 ∧
      findData (rounds + chunks.length)
          (headerOf head (chunksBytes last chunks).1 h (length_chunksBytes hlast chunks))
          (between done (chunksBytes last chunks).2)
        = findData rounds (headerOf head last.1 h hlast) (between done' last.2) := by
  induction chunks generalizing done with
  | nil => exact ⟨done, rfl, rfl⟩
  | cons c cs ih =>
      obtain ⟨done', hdone, hfind⟩ := ih (done ++ c.body ++ (chunksBytes last cs).1)
      refine ⟨done', ?_, ?_⟩
      · rw [← hdone, chunksBytes_cons_snd]
        simp only [List.append_assoc]
      · have hchunk := length_chunksBytes hlast (c :: cs)
        have hdata : (headerOf head (chunksBytes last (c :: cs)).1 h hchunk).data = c.id := by
          rw [data_headerOf]
          exact take_chunkHeader c.length_id _
        have hsize : (headerOf head (chunksBytes last (c :: cs)).1 h hchunk).dataSize
            = c.body.length := by
          rw [dataSize_headerOf]
          exact size_chunkHeader c.length_id c.length_body
        rw [List.length_cons, ← Nat.add_assoc, findData, hdata, if_neg c.id_ne, hsize,
          chunksBytes_cons_snd, seekCur_between rfl,
          readChunk_headerOf _ _ (length_chunksBytes hlast cs)]
        exact hfind

end Chunks

/-! ## The header -/

/-- `Open` after its loop. -/
def finish (memory : Memory) (found : WavHeader × ReadStream) : Opened :=
  load memory found.1 (settleSize found.1 found.2).1 (settleSize found.1 found.2).2

/-- `Open` of a file that is not refused. -/
theorem openFile_of_skipFormat {memory : Memory} {bytes : List UInt8} {header : WavHeader}
    {s : ReadStream}
    (h : skipFormat (readHeader memory (between [] bytes)).1
      (readHeader memory (between [] bytes)).2 = some (header, s)) (rounds : ℕ) :
    openFile memory rounds (some bytes) = (findData rounds header s).map (finish memory) := by
  have hstart : { bytes := bytes, pos := 0 } = between [] bytes := rfl
  simp only [openFile, hstart, h]
  rfl

theorem readHeader_between (memory : Memory) {head next : List UInt8} (h : head.length = 36)
    (h' : next.length = 8) (rest : List UInt8) :
    readHeader memory (between [] (head ++ (next ++ rest)))
      = (headerOf head next h h', between (head ++ next) rest) := by
  have hlen : (head ++ next).length = 44 := by rw [List.length_append, h, h']
  have hempty : memory.header.bytes.drop 44 = [] :=
    List.drop_eq_nil_of_le memory.header.length_bytes.le
  rw [← List.append_assoc]
  refine Prod.ext (WavHeader.ext ?_) ?_
  · show ((between [] (head ++ next ++ rest)).read 44 memory.header.bytes).1 = head ++ next
    rw [read_between hlen, hempty, List.append_nil]
  · show ((between [] (head ++ next ++ rest)).read 44 memory.header.bytes).2 = _
    rw [read_between hlen, List.nil_append]

namespace Layout

variable (l : Layout)

theorem fmtSize_headerOf {chunk : List UInt8} (h' : chunk.length = 8) :
    (headerOf l.head chunk l.length_head h').fmtSize = 16 + l.extra.length := by
  have hlt := l.length_extra
  rw [WavHeader.fmtSize, field_headerOf _ _ (by decide), head, List.append_assoc,
    List.drop_left' l.length_riff, List.take_left' (length_littleEndian _ _),
    unsigned_littleEndian_of_lt (by omega)]

/-- The fields of the format. -/
theorem field_fmt {chunk : List UInt8} (h' : chunk.length = 8) (offset width : ℕ)
    (hoffset : offset + width ≤ 16) :
    unsigned ((headerOf l.head chunk l.length_head h').field (20 + offset) width)
      = l.fmtField offset width := by
  have hlen : (l.riff ++ littleEndian 4 (16 + l.extra.length)).length = 20 := by
    rw [List.length_append, l.length_riff, length_littleEndian]
  rw [field_headerOf _ _ (by omega), head, List.drop_append, hlen,
    List.drop_eq_nil_of_le (by omega), List.nil_append, Nat.add_sub_cancel_left, fmtField]

/-- The reader comes to the first chunk after the format, whatever the length of the format. -/
theorem skipFormat_head (memory : Memory) {first : List UInt8} (hchunk : first.length = 8)
    (after : List UInt8) :
    skipFormat (readHeader memory (between [] (l.head ++ (l.extra ++ (first ++ after))))).1
        (readHeader memory (between [] (l.head ++ (l.extra ++ (first ++ after))))).2
      = some (headerOf l.head first l.length_head hchunk,
          between (l.head ++ l.extra ++ first) after) := by
  by_cases hextra : l.extra = []
  · have hread := readHeader_between memory l.length_head hchunk after
    have hsize := l.fmtSize_headerOf hchunk
    rw [hextra, List.length_nil] at hsize
    rw [hextra, List.nil_append, hread, skipFormat, hsize, if_neg (by decide),
      if_neg (by decide), List.append_nil]
  · -- the first eight bytes of the longer format are read as a chunk header
    have hpos : 0 < l.extra.length := List.length_pos_iff.mpr hextra
    obtain ⟨next, rest, hnext, hsplit⟩ : ∃ next rest, next.length = 8 ∧
        l.extra ++ (first ++ after) = next ++ rest := by
      refine ⟨_, _, ?_, (List.take_append_drop 8 _).symm⟩
      rw [List.length_take, List.length_append, List.length_append, hchunk]
      omega
    have hread := readHeader_between memory l.length_head hnext rest
    have hsize := l.fmtSize_headerOf hnext
    have hoffset : WordArith.bits32.toSigned (44 - 8 + (16 + l.extra.length : ℕ) - 16)
        = ((l.head ++ l.extra).length : ℕ) := by
      have hlt := l.length_extra
      rw [List.length_append, l.length_head, WordArith.bits32_exactBelow.toSigned _ (by omega)
        (by push_cast; omega)]
      push_cast
      omega
    have hseek : (between (l.head ++ next) rest).seekSet
          (WordArith.bits32.toSigned (44 - 8 + (16 + l.extra.length : ℕ) - 16))
        = between (l.head ++ l.extra) (first ++ after) := by
      refine seekSet_between ?_ hoffset
      rw [List.append_assoc, List.append_assoc, hsplit]
    rw [hsplit, hread, skipFormat, hsize, if_neg (by omega), if_pos (by omega)]
    dsimp only
    rw [hseek, readChunk_headerOf l.length_head hnext hchunk]

/-- `Open` of a file with chunks comes to its last chunk. -/
theorem openFile_fileBytes (memory : Memory) (last : List UInt8 × List UInt8)
    (hlast : last.1.length = 8) (rounds : ℕ) :
    ∃ done,
      l.fileBytes last = done ++ last.2 ∧
      openFile memory (rounds + l.chunks.length) (some (l.fileBytes last))
        = (findData rounds (headerOf l.head last.1 l.length_head hlast)
            (between done last.2)).map (finish memory) := by
  obtain ⟨done, hdone, hfind⟩ := findData_chunksBytes hlast l.length_head l.chunks rounds
    (l.head ++ l.extra ++ (chunksBytes last l.chunks).1)
  refine ⟨done, ?_, ?_⟩
  · rw [← hdone, fileBytes]
    simp only [List.append_assoc]
  · have hskip := l.skipFormat_head memory (length_chunksBytes hlast l.chunks)
      (chunksBytes last l.chunks).2
    rw [← fileBytes] at hskip
    rw [openFile_of_skipFormat hskip, hfind]

end Layout

/-! ## The data -/

/-- The stream stays where it is, and a size of zero becomes that of the rest of the file. -/
theorem settleSize_between {header : WavHeader} (done tail : List UInt8)
    (hlen : header.dataSize = 0 → done.length + tail.length < 2 ^ 31) :
    settleSize header (between done tail)
      = (if header.dataSize = 0 then tail.length else header.dataSize, between done tail) := by
  rw [settleSize]
  by_cases hzero : header.dataSize = 0
  · have hlt := hlen hzero
    have hoffset : WordArith.bits32.toSigned (done.length : ℕ) = (done.length : ℕ) :=
      WordArith.bits32_exactBelow.toSigned _ (by omega) (by omega)
    have hsize : (WordArith.bits32.toUnsigned ((done ++ tail).length - (done.length : ℕ))).toNat
        = tail.length := by
      rw [List.length_append, WordArith.bits32_exactBelow.toUnsigned _ (by omega) (by omega)]
      omega
    rw [if_pos hzero, if_pos hzero, between_pos, hoffset]
    refine Prod.ext hsize ?_
    show (between done tail).seekEnd.seekSet (done.length : ℕ) = between done tail
    rw [seekSet, if_pos (by omega)]
    rfl
  · rw [if_neg hzero, if_neg hzero]

theorem sampleFormat_width {bitsPerSample format width : ℕ} {value : List UInt8 → F32}
    (h : sampleFormat bitsPerSample format = some (width, value)) :
    bitsPerSample / 8 = width ∧ 0 < width ∧ width ≤ 4 := by
  unfold sampleFormat at h
  split at h
  · cases h
    decide
  · cases h
    decide
  · split_ifs at h <;> cases h <;> decide
  · cases h

/-- The samples of the bytes at hand. -/
theorem readItems_between {width : ℕ} (hwidth : 0 < width) {buffer : List UInt8}
    (hbuffer : buffer.length = width) (done audio rest : List UInt8) :
    readItems width (audio.length / width) buffer (between done (audio ++ rest))
      = windows width audio := by
  have hle : audio.length / width * width ≤ audio.length := Nat.div_mul_le_self _ _
  have htake : (audio ++ rest).take (audio.length / width * width)
      = (windows width audio).flatten := by
    rw [List.take_append_of_le_length hle, flatten_windows hwidth]
  rw [readItems_eq _ hwidth hbuffer (by rw [rest_between, List.length_append]; omega),
    rest_between, htake, windows_flatten hwidth fun v hv => length_of_mem_windows hv]

/-- The samples of a supported format, once their bytes are at hand. -/
theorem loadSamples_between (memory : Memory) {header : WavHeader} {width : ℕ}
    {value : List UInt8 → F32}
    (hformat : sampleFormat header.bit header.format = some (width, value))
    (done audio rest : List UInt8) :
    loadSamples memory header (audio.length / (header.bit / 8)) (between done (audio ++ rest))
      = (windows width audio).map value := by
  obtain ⟨hwidth, hpos, hle⟩ := sampleFormat_width hformat
  have hbuffer : (memory.sample.take width).length = width := by
    rw [List.length_take, memory.length_sample]
    omega
  rw [loadSamples, hformat, hwidth]
  dsimp only
  rw [readItems_between hpos hbuffer]

/-- What `Open` comes to, once the bytes of the samples are at hand. -/
theorem load_between (memory : Memory) (header : WavHeader) (done : List UInt8)
    {audio : List UInt8} (hlen : audio.length < 2 ^ 31) (rest : List UInt8) :
    load memory header audio.length (between done (audio ++ rest))
      = if header.bit / 8 = 0 ∨ header.channels = 0 then .divisionByZero
        else .reader
          { numChannel := header.channels
            sampleRate := WordArith.bits32.toSigned header.sampleRate
            bitsPerSample := header.bit
            numSamples := (audio.length / (header.bit / 8) / header.channels : ℕ)
            data := loadSamples memory header (audio.length / (header.bit / 8))
              (between done (audio ++ rest)) } := by
  have hnum : WordArith.bits32.toSigned (audio.length / (header.bit / 8) : ℕ)
      = (audio.length / (header.bit / 8) : ℕ) := by
    have hdiv : audio.length / (header.bit / 8) ≤ audio.length := Nat.div_le_self _ _
    exact WordArith.bits32_exactBelow.toSigned _ (Int.natCast_nonneg _) (by omega)
  have hneg : ¬ ((audio.length / (header.bit / 8) : ℕ) : ℤ) < 0 :=
    not_lt.mpr (Int.natCast_nonneg _)
  rw [load, hnum]
  dsimp only
  rw [if_neg hneg]
  by_cases hbit : header.bit / 8 = 0
  · rw [if_pos hbit, if_pos (Or.inl hbit)]
  · by_cases hchannels : header.channels = 0
    · rw [if_neg hbit, if_pos hchannels, if_pos (Or.inr hchannels)]
    · rw [if_neg hbit, if_neg hchannels, if_neg (by simp [hbit, hchannels]), Int.toNat_natCast]
      rfl

namespace WavFile

variable (f : WavFile)

/-- The bytes after the samples. -/
def afterAudio : List UInt8 := if f.dataSize = 0 then [] else f.tail.drop f.dataSize

theorem audio_append : f.audio ++ f.afterAudio = f.tail := by
  rw [audio, afterAudio]
  split_ifs
  · exact List.append_nil _
  · exact List.take_append_drop _ _

theorem length_audio (hsize : f.dataSize ≤ f.tail.length) :
    f.audio.length = if f.dataSize = 0 then f.tail.length else f.dataSize := by
  rw [audio]
  split_ifs
  · rfl
  · exact List.length_take_of_le hsize

/-- The samples of a file that declares them, or is short, are few. -/
theorem length_audio_lt (hsize : f.dataSize ≤ f.tail.length) (hlt : f.dataSize < 2 ^ 31)
    (hrest : f.dataSize = 0 → f.bytes.length < 2 ^ 31) : f.audio.length < 2 ^ 31 := by
  rw [f.length_audio hsize]
  split_ifs with hzero
  · have hle := (f.suffix_fileBytes (chunkHeader dataId f.dataSize, f.tail)).length_le
    exact lt_of_le_of_lt hle (hrest hzero)
  · exact hlt

/-- The reader goes over the chunks of a file to its data, in one round each, and then has the
fields of its format and the bytes of its samples. -/
theorem openFile_load (memory : Memory) {rounds : ℕ} (hrounds : f.chunks.length < rounds)
    (hsize : f.dataSize ≤ f.tail.length) (hrest : f.dataSize = 0 → f.bytes.length < 2 ^ 31) :
    ∃ header done,
      openFile memory rounds (some f.bytes)
        = some (load memory header f.audio.length (between done (f.audio ++ f.afterAudio))) ∧
      header.format = f.fmtField 0 2 ∧ header.channels = f.fmtField 2 2 ∧
      header.sampleRate = f.fmtField 4 4 ∧ header.bit = f.fmtField 14 2 := by
  have hchunk := length_chunkHeader length_dataId f.dataSize
  obtain ⟨more, rfl⟩ : ∃ more, rounds = more + 1 + f.chunks.length :=
    ⟨rounds - (1 + f.chunks.length), by omega⟩
  obtain ⟨done, hdone, hopen⟩ := f.openFile_fileBytes memory
    (chunkHeader dataId f.dataSize, f.tail) hchunk (more + 1)
  refine ⟨headerOf f.head _ f.length_head hchunk, done, ?_, f.field_fmt hchunk 0 2 (by decide),
    f.field_fmt hchunk 2 2 (by decide), f.field_fmt hchunk 4 4 (by decide),
    f.field_fmt hchunk 14 2 (by decide)⟩
  -- the loop stops at once
  have hdata : (headerOf f.head _ f.length_head hchunk).data = dataId := by
    rw [data_headerOf]
    exact take_chunkHeader length_dataId _
  have hdataSize : (headerOf f.head _ f.length_head hchunk).dataSize = f.dataSize := by
    rw [dataSize_headerOf]
    exact size_chunkHeader length_dataId f.dataSize_lt
  have htail : f.dataSize = 0 → done.length + f.tail.length < 2 ^ 31 := by
    intro hzero
    have hlen := hrest hzero
    rw [bytes, hdone, List.length_append] at hlen
    exact hlen
  rw [findData, if_pos hdata, Option.map_some, finish] at hopen
  dsimp only at hopen
  rw [settleSize_between done f.tail (by rwa [hdataSize]), hdataSize, ← f.length_audio hsize]
    at hopen
  rw [f.audio_append]
  exact hopen

/-- The reader of a file whose samples are supported. -/
theorem openFile_reader (memory : Memory) {rounds : ℕ} (hrounds : f.chunks.length < rounds)
    {width : ℕ} {value : List UInt8 → F32}
    (hformat : sampleFormat (f.fmtField 14 2) (f.fmtField 0 2) = some (width, value))
    (hchannels : f.fmtField 2 2 ≠ 0) (hsize : f.dataSize ≤ f.tail.length)
    (hlt : f.dataSize < 2 ^ 31) (hrest : f.dataSize = 0 → f.bytes.length < 2 ^ 31) :
    openFile memory rounds (some f.bytes)
      = some (.reader
          { numChannel := f.fmtField 2 2
            sampleRate := WordArith.bits32.toSigned (f.fmtField 4 4)
            bitsPerSample := f.fmtField 14 2
            numSamples := (f.audio.length / width / f.fmtField 2 2 : ℕ)
            data := (windows width f.audio).map value }) := by
  obtain ⟨header, done, hopen, hfmt, hch, hrate, hbit⟩ :=
    f.openFile_load memory hrounds hsize hrest
  rw [← hfmt, ← hbit] at hformat
  obtain ⟨hwidth, hpos, -⟩ := sampleFormat_width hformat
  have hone : ¬ (header.bit / 8 = 0 ∨ header.channels = 0) := by
    rw [hwidth, hch]
    omega
  rw [load_between memory header done (f.length_audio_lt hsize hlt hrest), if_neg hone,
    loadSamples_between memory hformat, hwidth, hch, hrate, hbit] at hopen
  exact hopen

/-- The samples of the bytes `audio`; those that are not supported are what memory held. -/
def samplesOf (memory : Memory) (bits format : ℕ) (audio : List UInt8) : List F32 :=
  match sampleFormat bits format with
  | some (width, value) => (windows width audio).map value
  | none => (List.range (audio.length / (bits / 8))).map memory.floats

/-- **Any file with chunks is read.** Take a file with a format of any length, any chunks that
are not the data, and a data chunk that has the bytes it declares, or declares none and ends a
file of less than `2^31` bytes. The reader goes over the chunks, in one round each. It divides
by zero if the format has no channels or less than eight bits; if not, its samples are those
of the data. -/
theorem openFile_bytes (memory : Memory) {rounds : ℕ} (hrounds : f.chunks.length < rounds)
    (hsize : f.dataSize ≤ f.tail.length) (hlt : f.dataSize < 2 ^ 31)
    (hrest : f.dataSize = 0 → f.bytes.length < 2 ^ 31) :
    openFile memory rounds (some f.bytes)
      = some (if f.fmtField 14 2 / 8 = 0 ∨ f.fmtField 2 2 = 0 then .divisionByZero
        else .reader
          { numChannel := f.fmtField 2 2
            sampleRate := WordArith.bits32.toSigned (f.fmtField 4 4)
            bitsPerSample := f.fmtField 14 2
            numSamples := (f.audio.length / (f.fmtField 14 2 / 8) / f.fmtField 2 2 : ℕ)
            data := samplesOf memory (f.fmtField 14 2) (f.fmtField 0 2) f.audio }) := by
  obtain ⟨header, done, hopen, hfmt, hch, hrate, hbit⟩ :=
    f.openFile_load memory hrounds hsize hrest
  have hsamples : loadSamples memory header (f.audio.length / (header.bit / 8))
      (between done (f.audio ++ f.afterAudio))
        = samplesOf memory header.bit header.format f.audio := by
    rw [samplesOf]
    cases hformat : sampleFormat header.bit header.format with
    | some format => exact loadSamples_between memory hformat done f.audio f.afterAudio
    | none => rw [loadSamples, hformat]
  rw [load_between memory header done (f.length_audio_lt hsize hlt hrest), hsamples, hch, hrate,
    hbit, hfmt] at hopen
  exact hopen

end WavFile

/-- A chunk of three bytes. -/
def listChunk : Chunk where
  id := [0x4c, 0x49, 0x53, 0x54]
  body := [1, 2, 3]
  length_id := rfl
  id_ne := by decide
  length_body := by decide

/-- A file of 16-bit samples in two channels, with a format of eighteen bytes, such a chunk, and
a byte after the data. -/
def listFile : WavFile where
  riff := wavHeader.take 16
  fmt := [1, 0, 2, 0, 128, 62, 0, 0, 0, 250, 0, 0, 4, 0, 16, 0]
  extra := [0, 0]
  chunks := [listChunk]
  dataSize := 4
  tail := [0, 64, 0, 128, 7]
  length_riff := rfl
  length_fmt := rfl
  length_extra := by decide
  dataSize_lt := by decide

/-- Memory with zeros. -/
def zeroMemory : Memory where
  header := { bytes := List.replicate 44 0, length_bytes := rfl }
  sample := [0, 0, 0, 0]
  floats := fun _ => F32.zero
  length_sample := rfl

theorem openFile_bytes_listFile :
    openFile zeroMemory 2 (some listFile.bytes)
      = some (.reader
          { numChannel := 2
            sampleRate := 16000
            bitsPerSample := 16
            numSamples := 1
            data := [pcmSample [0, 64], pcmSample [0, 128]] }) := by
  have hrate : WordArith.bits32.toSigned (listFile.fmtField 4 4) = 16000 := by decide +kernel
  have hwindows : windows 2 listFile.audio = [[0, 64], [0, 128]] := by decide +kernel
  have hsamples : WavFile.samplesOf zeroMemory (listFile.fmtField 14 2) (listFile.fmtField 0 2)
      listFile.audio = (windows 2 listFile.audio).map pcmSample := rfl
  have hopen := listFile.openFile_bytes zeroMemory (by decide : 1 < 2) (by decide +kernel)
    (by decide +kernel) (by decide +kernel)
  rw [if_neg (by decide +kernel), hrate, hsamples, hwindows] at hopen
  exact hopen

end Wav

end VadService
