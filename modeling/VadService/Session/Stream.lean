import VadService.Session.Pcm
import VadService.Engine.Stream

set_option autoImplicit false

/-! # The byte stream of a session

The windows a session predicts are the groups of 1024 bytes of the stream that is left when
every odd message has lost its last byte (`handedIn_silero`). So two ways of cutting a stream
into messages agree exactly when these groups do (`sameWindows_iff`); cuts at even positions
always do (`sameWindows_of_even`).
-/

namespace VadService

open Machine Window SileroVadEngine

/-- The bytes of a sequence of messages that form samples. -/
def pairedStream (packets : List (List UInt8 × ℕ)) : List UInt8 :=
  (packets.map fun p => pairedBytes p.1).flatten

namespace Session

variable {E H σ : Type}

/-- The engine of a session sees the samples of the messages. -/
theorem final_vadEngine (V : IVadEngine E) (s : Session E H) (packets : List (List UInt8 × ℕ)) :
    (final (audioStep V) s packets).vadEngine
      = final V.processFrame s.vadEngine (packets.map fun p => toFloatAudio p.1) := by
  induction packets generalizing s with
  | nil => rfl
  | cons packet packets ih =>
      have hengine : (audioStep V s packet).2.vadEngine
          = (V.processFrame s.vadEngine (toFloatAudio packet.1)).2 :=
        audioStep_vadEngine V s packet
      rw [final_cons, ih, List.map_cons, final_cons, hengine]

/-- `process_audio`, answering with the windows the engine hands to `predict`. -/
def handedStep (run : OrtRun σ) (s : Session (SileroVadEngine σ) H) (packet : List UInt8 × ℕ) :
    List (List F32) × Session (SileroVadEngine σ) H :=
  (s.vadEngine.handed run (toFloatAudio packet.1), (audioStep (engine run) s packet).2)

/-- The windows handed to `predict` while a session processes a sequence of messages. -/
def handedIn (run : OrtRun σ) (s : Session (SileroVadEngine σ) H)
    (packets : List (List UInt8 × ℕ)) : List (List F32) :=
  (outputs (handedStep run) s packets).flatten

/-- The iterator left by a sequence of messages. -/
def iteratorAfter (run : OrtRun σ) (s : Session (SileroVadEngine σ) H)
    (packets : List (List UInt8 × ℕ)) : VadIterator σ :=
  (final (audioStep (engine run)) s packets).vadEngine.vadIterator

variable {run : OrtRun σ}

theorem outputs_handedStep (s : Session (SileroVadEngine σ) H)
    (packets : List (List UInt8 × ℕ)) :
    outputs (handedStep run) s packets
      = outputs (SileroVadEngine.handedStep run) s.vadEngine
          (packets.map fun p => toFloatAudio p.1) := by
  induction packets generalizing s with
  | nil => rfl
  | cons packet packets ih =>
      have hengine : (handedStep run s packet).2.vadEngine
          = (SileroVadEngine.handedStep run s.vadEngine (toFloatAudio packet.1)).2 :=
        audioStep_vadEngine (engine run) s packet
      rw [outputs_cons, ih, List.map_cons, outputs_cons, hengine]
      rfl

/-- The samples of a sequence of messages are those of the paired stream. -/
theorem flatten_toFloatAudio (packets : List (List UInt8 × ℕ)) :
    (packets.map fun p => toFloatAudio p.1).flatten = toFloatAudio (pairedStream packets) := by
  have heven : ∀ w ∈ packets.map fun p => pairedBytes p.1, Even w.length := by
    intro w hw
    obtain ⟨p, -, rfl⟩ := List.mem_map.mp hw
    exact even_pairedBytes p.1
  calc (packets.map fun p => toFloatAudio p.1).flatten
      = (packets.map fun p => toFloatAudio (pairedBytes p.1)).flatten := by
        simp only [toFloatAudio_pairedBytes]
    _ = ((packets.map fun p => pairedBytes p.1).map toFloatAudio).flatten := by
        rw [List.map_map]
        rfl
    _ = toFloatAudio (pairedStream packets) := by
        rw [pairedStream, toFloatAudio_flatten heven]

/-- **The windows of a session are the groups of 1024 bytes of its paired stream.** -/
theorem handedIn_silero (id : String) (hdl : H) (session : σ)
    (packets : List (List UInt8 × ℕ)) :
    (silero id hdl session).handedIn run packets
      = (windows 1024 (pairedStream packets)).map toFloatAudio := by
  have hstream := @handed_stream σ run (SileroVadEngine.new session 16000 32 (by decide))
    (settled_new session 16000 32 (by decide)) (packets.map fun p => toFloatAudio p.1)
  calc (silero id hdl session).handedIn run packets
      = windows 512 (packets.map fun p => toFloatAudio p.1).flatten := by
        rw [handedIn, outputs_handedStep]
        exact hstream
    _ = windows 512 (toFloatAudio (pairedStream packets)) := by rw [flatten_toFloatAudio]
    _ = (windows 1024 (pairedStream packets)).map toFloatAudio :=
        windows_toFloatAudio (by decide) _

/-- The iterator of a session has run over the windows handed to it. -/
theorem iteratorAfter_silero (id : String) (hdl : H) (session : σ)
    (packets : List (List UInt8 × ℕ)) :
    (silero id hdl session).iteratorAfter run packets
      = final (VadIterator.predictStep run)
          (VadIterator.new (VadConfig.new 16000 32) session)
          ((silero id hdl session).handedIn run packets) := by
  have hframes := @stream_new σ run session 16000 32 (by decide)
    (packets.map fun p => toFloatAudio p.1)
  have hwindows : windows 512 (packets.map fun p => toFloatAudio p.1).flatten
      = (silero id hdl session).handedIn run packets := by
    rw [handedIn_silero, flatten_toFloatAudio]
    exact windows_toFloatAudio (by decide) _
  calc (silero id hdl session).iteratorAfter run packets
      = final (VadIterator.predictStep run)
          (VadIterator.new (VadConfig.new 16000 32) session)
          (windows 512 (packets.map fun p => toFloatAudio p.1).flatten) := by
        rw [iteratorAfter, final_vadEngine]
        exact hframes
    _ = _ := by rw [hwindows]

/-! ## Two ways of cutting a stream -/

/-- Two sequences of messages are the same to the iterator: while they are processed, the
windows handed over so far agree up to the shorter of the two, and at the end they are the
same windows and have left the same state. -/
structure SameWindows (run : OrtRun σ) (s : Session (SileroVadEngine σ) H)
    (packets packets' : List (List UInt8 × ℕ)) : Prop where
  sofar : ∀ before before', before <+: packets → before' <+: packets' →
    s.handedIn run before <+: s.handedIn run before' ∨
      s.handedIn run before' <+: s.handedIn run before
  windows : s.handedIn run packets = s.handedIn run packets'
  iterator : s.iteratorAfter run packets = s.iteratorAfter run packets'

/-- More messages hand over more windows. -/
theorem handedIn_mono (s : Session (SileroVadEngine σ) H) {before packets : List (List UInt8 × ℕ)}
    (h : before <+: packets) : s.handedIn run before <+: s.handedIn run packets := by
  obtain ⟨rest, rfl⟩ := h
  rw [handedIn, handedIn, outputs_append, List.flatten_append]
  exact List.prefix_append _ _

/-- The windows of two sequences of messages agree exactly when their paired streams have
the same groups of 1024 bytes. -/
theorem handedIn_eq_iff (id : String) (hdl : H) (session : σ)
    (packets packets' : List (List UInt8 × ℕ)) :
    (silero id hdl session).handedIn run packets = (silero id hdl session).handedIn run packets' ↔
      windows 1024 (pairedStream packets) = windows 1024 (pairedStream packets') := by
  rw [handedIn_silero, handedIn_silero]
  constructor
  · intro h
    have heven : ∀ l : List UInt8, ∀ w ∈ windows 1024 l, Even w.length := by
      intro l w hw
      rw [length_of_mem_windows hw]
      decide
    have hflat : ∀ l : List UInt8, Even (windows 1024 l).flatten.length := by
      intro l
      rw [flatten_windows (by decide), List.length_take]
      exact ⟨l.length / 1024 * 512, by omega⟩
    -- the same windows are made of the same samples, and these of the same bytes
    have hbytes : (windows 1024 (pairedStream packets)).flatten
        = (windows 1024 (pairedStream packets')).flatten := by
      apply toFloatAudio_injOn (hflat _) (hflat _)
      rw [toFloatAudio_flatten (heven _), toFloatAudio_flatten (heven _), h]
    have hfull : ∀ l : List UInt8, windows 1024 (windows 1024 l).flatten = windows 1024 l :=
      fun l => windows_flatten (by decide) fun w hw => length_of_mem_windows hw
    calc windows 1024 (pairedStream packets)
        = windows 1024 (windows 1024 (pairedStream packets)).flatten := (hfull _).symm
      _ = windows 1024 (windows 1024 (pairedStream packets')).flatten := by rw [hbytes]
      _ = windows 1024 (pairedStream packets') := hfull _
  · intro h
    rw [h]

/-- The same groups of 1024 bytes make the same windows, all the way. -/
theorem sameWindows_of_windows (id : String) (hdl : H) (session : σ)
    {packets packets' : List (List UInt8 × ℕ)}
    (h : windows 1024 (pairedStream packets) = windows 1024 (pairedStream packets')) :
    SameWindows run (silero id hdl session) packets packets' := by
  have heq : (silero id hdl session).handedIn run packets
      = (silero id hdl session).handedIn run packets' :=
    (handedIn_eq_iff id hdl session packets packets').mpr h
  refine ⟨?_, heq, ?_⟩
  · intro before before' hb hb'
    exact List.prefix_or_prefix_of_prefix (handedIn_mono _ hb) (heq ▸ handedIn_mono _ hb')
  · rw [iteratorAfter_silero, iteratorAfter_silero, heq]

/-- **When the way of cutting does not matter.** Two sequences of messages are the same to
the iterator exactly when they leave the same groups of 1024 bytes, once every odd message
has lost its last byte. -/
theorem sameWindows_iff (run : OrtRun σ) (id : String) (hdl : H) (session : σ)
    (packets packets' : List (List UInt8 × ℕ)) :
    SameWindows run (silero id hdl session) packets packets' ↔
      windows 1024 (pairedStream packets) = windows 1024 (pairedStream packets') := by
  constructor
  · intro h
    exact (handedIn_eq_iff id hdl session packets packets').mp h.windows
  · exact sameWindows_of_windows id hdl session

theorem pairedStream_of_even {packets : List (List UInt8 × ℕ)}
    (h : ∀ p ∈ packets, Even p.1.length) :
    pairedStream packets = (packets.map Prod.fst).flatten := by
  rw [pairedStream]
  congr 1
  exact List.map_congr_left fun p hp => pairedBytes_of_even (h p hp)

/-- Cuts at even positions lose nothing. -/
theorem sameWindows_of_even (id : String) (hdl : H) (session : σ)
    {packets packets' : List (List UInt8 × ℕ)} (heven : ∀ p ∈ packets, Even p.1.length)
    (heven' : ∀ p ∈ packets', Even p.1.length)
    (h : (packets.map Prod.fst).flatten = (packets'.map Prod.fst).flatten) :
    SameWindows run (silero id hdl session) packets packets' := by
  apply sameWindows_of_windows
  rw [pairedStream_of_even heven, pairedStream_of_even heven', h]

/-- A message of one byte is lost, and shifts the bytes after it. -/
theorem odd_cut_differs :
    ¬ ∀ packets packets' : List (List UInt8 × ℕ),
      (packets.map Prod.fst).flatten = (packets'.map Prod.fst).flatten →
      SameWindows VadIterator.scripted (silero "" () []) packets packets' := by
  intro h
  have hsplit : List.replicate 1024 (0 : UInt8) = [0] ++ List.replicate 1023 0 := rfl
  have hsame := (h [(List.replicate 1024 0, 0)] [([0], 0), (List.replicate 1023 0, 0)]
    (by rw [hsplit]; rfl)).windows
  rw [handedIn_eq_iff] at hsame
  have hcount := congrArg List.length hsame
  rw [length_windows, length_windows] at hcount
  have hwhole : (pairedStream [(List.replicate 1024 0, 0)]).length = 1024 := by
    show (pairedBytes (List.replicate 1024 0) ++ []).length = 1024
    rw [List.append_nil, length_pairedBytes, List.length_replicate]
  have hcut : (pairedStream [([0], 0), (List.replicate 1023 0, 0)]).length = 1022 := by
    show (pairedBytes [0] ++ (pairedBytes (List.replicate 1023 0) ++ [])).length = 1022
    rw [List.append_nil, List.length_append, length_pairedBytes, length_pairedBytes,
      List.length_replicate, List.length_singleton]
  rw [hwhole, hcut] at hcount
  exact absurd hcount (by decide)

end Session

end VadService
