import VadService.Wav.Layout

set_option autoImplicit false

/-! # How long the reader looks for the data

Every round of the loop moves on by eight bytes or comes to the end of the file, and at the end
nothing changes any more. So the loop is through after as many rounds as the file has chunk
headers, or it never is (`openFile_returns_iff`); it never is if there is no data
(`openFile_without_data`).
-/

namespace VadService

open ByteStream ReadStream

namespace Wav

variable {header : WavHeader} {s : ReadStream}

theorem rest_readChunk : (readChunk header s).2.rest = s.rest.drop 8 :=
  rest_read s 8 (header.bytes.drop 36)

/-- At the end of the file a chunk header that is read stays what it was. -/
theorem readChunk_of_rest_nil (h : s.rest = []) : (readChunk header s).1 = header := by
  refine WavHeader.ext ?_
  show header.bytes.take 36 ++ (s.read 8 (header.bytes.drop 36)).1 = header.bytes
  rw [read_of_rest_nil s h, List.take_append_drop]

/-- What is left after a round. -/
theorem length_round (header : WavHeader) (s : ReadStream) (offset : ℕ) :
    (readChunk header (s.seekCur offset)).2.rest.length ≤ s.rest.length - 8 := by
  rw [rest_readChunk, rest_seekCur, List.length_drop, List.length_drop]
  omega

/-- **At the end of the file the loop never stops.** -/
theorem findData_of_rest_nil (hdata : header.data ≠ dataId) (h : s.rest = []) (rounds : ℕ) :
    findData rounds header s = none := by
  induction rounds generalizing s with
  | zero => rfl
  | succ rounds ih =>
      have hskip : (s.seekCur header.dataSize).rest = [] := by
        rw [rest_seekCur, h, List.drop_nil]
      rw [findData, if_neg hdata]
      dsimp only
      rw [readChunk_of_rest_nil hskip]
      refine ih ?_
      rw [rest_readChunk, hskip, List.drop_nil]

/-- More rounds do no harm. -/
theorem findData_mono {rounds more : ℕ} {found : WavHeader × ReadStream}
    (h : findData rounds header s = some found) (hle : rounds ≤ more) :
    findData more header s = some found := by
  induction rounds generalizing header s more with
  | zero => cases h
  | succ rounds ih =>
      obtain ⟨more, rfl⟩ : ∃ k, more = k + 1 := ⟨more - 1, by omega⟩
      rw [findData] at h ⊢
      split_ifs at h ⊢ with hdata
      · exact h
      · exact ih h (by omega)

/-- **The rounds that are needed**: one for each eight bytes that are left, and two. -/
theorem findData_rounds {rounds : ℕ} {found : WavHeader × ReadStream}
    (h : findData rounds header s = some found) :
    findData (s.rest.length / 8 + 2) header s = some found := by
  induction rounds generalizing header s with
  | zero => cases h
  | succ rounds ih =>
      by_cases hdata : header.data = dataId
      · rw [findData, if_pos hdata] at h ⊢
        exact h
      · have hrest : s.rest ≠ [] := by
          intro hnil
          rw [findData_of_rest_nil hdata hnil] at h
          cases h
        rw [findData, if_neg hdata] at h ⊢
        have hlen := length_round header s header.dataSize
        generalize readChunk header (s.seekCur header.dataSize) = next at h hlen ⊢
        dsimp only at h ⊢
        by_cases hnext : next.2.rest = []
        · -- the loop stops in the next round, or it does not stop
          have hfound : next.1.data = dataId := by
            by_contra hne
            rw [findData_of_rest_nil hne hnext] at h
            cases h
          cases rounds with
          | zero => cases h
          | succ rounds =>
              rw [findData, if_pos hfound] at h ⊢
              exact h
        · have hpos := List.length_pos_iff.mpr hnext
          exact findData_mono (ih h) (by omega)

/-! ## `Open` -/

/-- What is left to be read is no more than the file. -/
theorem length_rest_le (s : ReadStream) : s.rest.length ≤ s.bytes.length := by
  rw [length_rest]
  exact Nat.sub_le _ _

theorem skipFormat_bytes_eq {next : WavHeader × ReadStream}
    (h : skipFormat header s = some next) : next.2.bytes = s.bytes := by
  unfold skipFormat at h
  split_ifs at h
  · cases h
    show (s.seekSet _).bytes = s.bytes
    unfold seekSet
    split_ifs <;> rfl
  · cases h
    rfl

/-- A file is refused, or it has a result if the loop has one. -/
theorem openFile_cases (memory : Memory) (bytes : List UInt8) :
    (∀ rounds, openFile memory rounds (some bytes) = some .refused) ∨
      ∃ header s, s.bytes = bytes ∧ ∀ rounds, openFile memory rounds (some bytes)
        = (findData rounds header s).map (finish memory) := by
  have hstart : { bytes := bytes, pos := 0 } = between [] bytes := rfl
  cases hskip : skipFormat (readHeader memory (between [] bytes)).1
      (readHeader memory (between [] bytes)).2 with
  | none => exact .inl fun rounds => by simp only [openFile, hstart, hskip]
  | some next =>
      exact .inr ⟨next.1, next.2, skipFormat_bytes_eq hskip, openFile_of_skipFormat hskip⟩

theorem openFile_mono {memory : Memory} {bytes : List UInt8} {result : Opened} {rounds more : ℕ}
    (h : openFile memory rounds (some bytes) = some result) (hle : rounds ≤ more) :
    openFile memory more (some bytes) = some result := by
  rcases openFile_cases memory bytes with hrefused | ⟨header, s, -, hopen⟩
  · rw [hrefused] at h ⊢
    exact h
  · rw [hopen] at h ⊢
    obtain ⟨found, hfound, rfl⟩ := Option.map_eq_some_iff.mp h
    rw [findData_mono hfound hle, Option.map_some]

/-- **The reader comes back soon or never.** For every file, `Open` comes to a result exactly if
it does within a round for each eight bytes of the file, and two. -/
theorem openFile_returns_iff (memory : Memory) (bytes : List UInt8) (result : Opened) :
    (∃ rounds, openFile memory rounds (some bytes) = some result) ↔
      openFile memory (bytes.length / 8 + 2) (some bytes) = some result := by
  refine ⟨?_, fun h => ⟨_, h⟩⟩
  rintro ⟨rounds, h⟩
  rcases openFile_cases memory bytes with hrefused | ⟨header, s, hbytes, hopen⟩
  · rw [hrefused] at h ⊢
    exact h
  · rw [hopen] at h ⊢
    obtain ⟨found, hfound, rfl⟩ := Option.map_eq_some_iff.mp h
    have hlen := length_rest_le s
    rw [hbytes] at hlen
    have hle : s.rest.length / 8 + 2 ≤ bytes.length / 8 + 2 := by omega
    rw [findData_mono (findData_rounds hfound) hle, Option.map_some]

/-- **Without data the reader never comes back.** Take a file with a format and any chunks, none
of them the data, the last of which ends the file. -/
theorem openFile_without_data (memory : Memory) (l : Layout) (c : Chunk) (rounds : ℕ) :
    openFile memory rounds
      (some (l.fileBytes (chunkHeader c.id c.body.length, c.body))) = none := by
  have hchunk := length_chunkHeader c.length_id c.body.length
  obtain ⟨done, -, hopen⟩ :=
    l.openFile_fileBytes memory (chunkHeader c.id c.body.length, c.body) hchunk (rounds + 1)
  have hdata : (headerOf l.head _ l.length_head hchunk).data ≠ dataId := by
    rw [data_headerOf]
    exact fun heq => c.id_ne ((take_chunkHeader c.length_id _).symm.trans heq)
  have hsize : (headerOf l.head _ l.length_head hchunk).dataSize = c.body.length := by
    rw [dataSize_headerOf]
    exact size_chunkHeader c.length_id c.length_body
  have hstuck : findData (rounds + 1) (headerOf l.head _ l.length_head hchunk)
      (between done c.body) = none := by
    have hend : ((between done c.body).seekCur c.body.length).rest = [] := by
      rw [rest_seekCur, rest_between, List.drop_length]
    rw [findData, if_neg hdata, hsize]
    dsimp only
    rw [readChunk_of_rest_nil hend]
    refine findData_of_rest_nil hdata ?_ rounds
    rw [rest_readChunk, hend, List.drop_nil]
  rw [hstuck, Option.map_none] at hopen
  cases hresult : openFile memory rounds
      (some (l.fileBytes (chunkHeader c.id c.body.length, c.body))) with
  | none => rfl
  | some result =>
      rw [openFile_mono hresult (by omega)] at hopen
      cases hopen

end Wav

end VadService
