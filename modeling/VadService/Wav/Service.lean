import VadService.Wav.Layout
import VadService.Session.Packets
import VadService.Session.Stream
import VadService.Iterator.Run

set_option autoImplicit false

/-! # Recordings and streams

The samples that the reader gives for a file of 16 bits are those a session makes of the bytes
of its data. So a recording that is streamed to a session in even packets is heard as
`process` hears it (`session_hears_file`).
-/

namespace VadService

open ByteStream Window Machine

namespace Wav

theorem pcmSample_pair (lo hi : UInt8) : pcmSample [lo, hi] = sampleOf lo hi := by
  have hpair : unsigned [lo, hi] = hi.toNat * 256 + lo.toNat := by
    rw [unsigned_cons, unsigned_cons, unsigned, List.map_nil, Nat.ofDigits_nil]
    omega
  have hsigned : signed [lo, hi] = toInt16 (lo.toNat ||| hi.toNat <<< 8 : ℕ) := by
    rw [signed, hpair, or_shift, toInt16, Int.bmod_def]
    push_cast
    simp only [List.length_cons, List.length_nil]
    omega
  rw [pcmSample, sampleOf, hsigned]

/-- The samples of the reader are those of a session. -/
theorem map_pcmSample (l : List UInt8) : (windows 2 l).map pcmSample = toFloatAudio l := by
  induction l using toFloatAudio.induct with
  | case1 lo hi l ih =>
      rw [windows_cons (by decide) (by simp), List.map_cons, toFloatAudio]
      exact congrArg₂ List.cons (pcmSample_pair lo hi) ih
  | case2 l hshort =>
      rcases l with _ | ⟨lo, _ | ⟨hi, l⟩⟩
      · rfl
      · rw [windows_of_lt (by simp)]
        rfl
      · exact absurd rfl (hshort lo hi l)

theorem resetStates_new {σ : Type} (cfg : VadConfig) (session : σ) :
    (VadIterator.new cfg session).resetStates = VadIterator.new cfg session := by
  simp [VadIterator.resetStates, VadIterator.new]

/-- **A recording that is streamed is heard as `process` hears it.** Take a file of one channel
of 16 bits with any chunks, and stream its data to a session in even packets. The windows
handed to `predict` are those of the samples of the reader, and with the segment closed that
is still open, the iterator of the session is left as `process` leaves a new one that is
given these samples. -/
theorem session_hears_file {σ H : Type} (run : OrtRun σ) (f : WavFile) (memory : Memory)
    {rounds : ℕ} (hrounds : f.chunks.length < rounds) (hbits : f.fmtField 14 2 = 16)
    (hchannels : f.fmtField 2 2 = 1) (hsize : f.dataSize ≤ f.tail.length)
    (hlt : f.dataSize < 2 ^ 31) (hrest : f.dataSize = 0 → f.bytes.length < 2 ^ 31)
    (id : String) (hdl : H) (session : σ) (packets : List (List UInt8 × ℕ))
    (heven : ∀ p ∈ packets, Even p.1.length) (hstream : Session.streamBytes packets = f.audio) :
    ∃ r, openFile memory rounds (some f.bytes) = some (.reader r) ∧
      (Session.silero id hdl session).handedIn run packets = windows 512 r.data ∧
      (VadIterator.new (VadConfig.new 16000 32) session).process run r.data
        = ((Session.silero id hdl session).iteratorAfter run packets).closeOpen r.data.length := by
  have hformat : sampleFormat (f.fmtField 14 2) (f.fmtField 0 2) = some (2, pcmSample) := by
    rw [hbits]
    rfl
  have hopen := f.openFile_reader memory hrounds hformat (by rw [hchannels]; decide) hsize hlt hrest
  have hpaired : pairedStream packets = f.audio :=
    (Session.pairedStream_of_even heven).trans hstream
  have hhanded : (Session.silero id hdl session).handedIn run packets
      = windows 512 (toFloatAudio f.audio) := by
    rw [Session.handedIn_silero, hpaired]
    exact (windows_toFloatAudio (by decide : 0 < 512) f.audio).symm
  have hlen : ((toFloatAudio f.audio).length : ℤ) < 2 ^ 31 := by
    have haudio := f.length_audio_lt hsize hlt hrest
    rw [length_toFloatAudio]
    omega
  rw [map_pcmSample] at hopen
  refine ⟨_, hopen, hhanded, ?_⟩
  have hwindow : 0 < (VadIterator.new (VadConfig.new 16000 32) session).cfg.windowSizeSamples :=
    (by decide : (0 : ℤ) < 512)
  rw [VadIterator.process_eq run _ hwindow hlen, VadIterator.processRun, resetStates_new,
    Session.iteratorAfter_silero, hhanded]
  rfl

/-- A file of 16-bit samples in one channel that does not declare the size of its data. -/
def streamedFile : WavFile :=
  { listFile with
    fmt := [1, 0, 1, 0, 128, 62, 0, 0, 0, 125, 0, 0, 2, 0, 16, 0]
    dataSize := 0
    tail := [0, 64, 0, 128]
    length_fmt := rfl
    dataSize_lt := by decide }

/-- The same with thirteen windows of samples. -/
def segmentFile : WavFile := { streamedFile with tail := List.replicate 13312 64 }

/-- A segment of speech, streamed in packets of half a window. -/
theorem session_hears_file_streamed :
    let script := Session.speechThenSilence
    let packets := List.replicate 26 (Session.constPacket 64 512)
    ∃ r, openFile zeroMemory 2 (some segmentFile.bytes) = some (.reader r) ∧
      (Session.silero "" () script).handedIn VadIterator.scripted packets = windows 512 r.data ∧
      (VadIterator.new (VadConfig.new 16000 32) script).process VadIterator.scripted r.data
        = ((Session.silero "" () script).iteratorAfter VadIterator.scripted packets).closeOpen
            r.data.length := by
  intro script packets
  have heven : ∀ p ∈ packets, Even p.1.length := by
    intro p hp
    rw [List.eq_of_mem_replicate hp, Session.length_constPacket]
    decide
  have hstream : Session.streamBytes packets = segmentFile.audio := by
    calc Session.streamBytes packets
        = (List.replicate 26 (List.replicate 512 64)).flatten := by
          rw [Session.streamBytes, List.map_replicate, Session.constPacket]
      _ = List.replicate (26 * 512) 64 := List.flatten_replicate_replicate
      _ = segmentFile.audio := rfl
  exact session_hears_file VadIterator.scripted segmentFile zeroMemory (by decide : 1 < 2)
    (by decide +kernel) (by decide +kernel) (Nat.zero_le _) (by decide) (by decide +kernel) "" ()
    script packets heven hstream

end Wav

end VadService
