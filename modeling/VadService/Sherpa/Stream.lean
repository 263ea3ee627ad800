import VadService.Sherpa.Blocks

set_option autoImplicit false

/-! # The detector over a stream of packets

`process_frame` keeps the samples of an incomplete frame for the next call, so the detector sees
the frames of the stream, wherever it is cut into packets (`packets_stream`). Only the results
know of the packets: each is merged from the results of the frames its packet completes.
-/

namespace VadService

open Machine Window

namespace SherpaVadDetector

variable {σ : Type} (run : OrtRun σ)

/-- Fewer samples wait than make a frame. -/
def Settled (d : SherpaVadDetector σ) : Prop := d.marginBuffer.length < d.frameSizeSamples

/-- The results of the frames of a call. -/
def frameResults (d : SherpaVadDetector σ) (audioFrame : List F32) : List VadResult :=
  outputs (processInternal run) d (d.handed audioFrame)

/-- The results of the frames, call by call. -/
def callResults : SherpaVadDetector σ → List (List F32) → List (List VadResult)
  | _, [] => []
  | d, packet :: packets =>
      d.frameResults run packet :: callResults (d.processFrame run packet).2 packets

/-- What a call returns is merged from the results of its frames. -/
theorem processFrame_state (d : SherpaVadDetector σ) (audioFrame : List F32) :
    (d.processFrame run audioFrame).1.state
      = ((d.frameResults run audioFrame).foldl merge (nothingYet, false)).1.state := by
  by_cases hframe : 0 < d.blocks audioFrame
  · rw [processFrame_result run hframe, frameResults]
  · have hzero : (d.blocks audioFrame).toNat = 0 := by omega
    rw [processFrame_loop, if_pos (not_lt.mp hframe), frameResults, handed, hzero, List.take_zero,
      outputs_nil, List.foldl_nil]
    rfl

/-- The states returned for the packets. -/
theorem outputs_processFrame_state (d : SherpaVadDetector σ) (packets : List (List F32)) :
    (outputs (processFrame run) d packets).map VadResult.state
      = (callResults run d packets).map fun results =>
          (results.foldl merge (nothingYet, false)).1.state := by
  induction packets generalizing d with
  | nil => rfl
  | cons packet packets ih =>
      rw [outputs_cons, List.map_cons, ih, processFrame_state, callResults, List.map_cons]

/-- The call takes all frames, unless their number wraps. -/
theorem handed_eq_windows {d : SherpaVadDetector σ} {audioFrame : List F32}
    (h : (d.marginBuffer.length + audioFrame.length) / d.frameSizeSamples < 2 ^ 31) :
    d.handed audioFrame = windows d.frameSizeSamples (d.marginBuffer ++ audioFrame) ∧
      (d.processFrame run audioFrame).2
        = (final (processInternal run) d
            (windows d.frameSizeSamples (d.marginBuffer ++ audioFrame))).withMargin
            (leftover d.frameSizeSamples (d.marginBuffer ++ audioFrame)) := by
  have hlen : (d.marginBuffer ++ audioFrame).length
      = d.marginBuffer.length + audioFrame.length := List.length_append
  have hblocks : (d.blocks audioFrame).toNat
      = (d.marginBuffer ++ audioFrame).length / d.frameSizeSamples := by
    rw [hlen, blocks]
    generalize (d.marginBuffer.length + audioFrame.length) / d.frameSizeSamples = n at h ⊢
    have hexact : WordArith.bits32.toSigned (n : ℤ) = n :=
      WordArith.bits32_exactBelow.toSigned n (by omega) (by omega)
    rw [hexact, Int.toNat_natCast]
  have hall : d.handed audioFrame
      = windows d.frameSizeSamples (d.marginBuffer ++ audioFrame) := by
    rw [handed, hblocks, ← length_windows, List.take_length]
  refine ⟨hall, ?_⟩
  rw [processFrame_detector, hall, hblocks, leftover]

theorem settled_processFrame {d : SherpaVadDetector σ} {audioFrame : List F32}
    (h : (d.marginBuffer.length + audioFrame.length) / d.frameSizeSamples < 2 ^ 31) :
    (d.processFrame run audioFrame).2.Settled := by
  have hsize := (processFrame_sizes run d audioFrame).frameSize
  have hmargin := congrArg marginBuffer (handed_eq_windows run h).2
  rw [Settled, hsize, hmargin, withMargin_margin]
  exact length_leftover_lt d.frameSize_pos _

/-- The frames of the calls are those of the stream, and so is the detector after them. -/
theorem callResults_stream {d : SherpaVadDetector σ} (hd : d.Settled)
    (packets : List (List F32))
    (h : (d.marginBuffer.length + packets.flatten.length) / d.frameSizeSamples < 2 ^ 31) :
    (callResults run d packets).flatten
        = outputs (processInternal run) d
            (windows d.frameSizeSamples (d.marginBuffer ++ packets.flatten)) ∧
      final (processFrame run) d packets
        = (final (processInternal run) d
            (windows d.frameSizeSamples (d.marginBuffer ++ packets.flatten))).withMargin
            (leftover d.frameSizeSamples (d.marginBuffer ++ packets.flatten)) := by
  induction packets generalizing d with
  | nil =>
      rw [List.flatten_nil, List.append_nil, windows_of_lt hd, leftover_of_lt hd]
      exact ⟨rfl, rfl⟩
  | cons packet packets ih =>
      have hF := d.frameSize_pos
      have hfirst : (d.marginBuffer.length + packet.length) / d.frameSizeSamples < 2 ^ 31 := by
        refine lt_of_le_of_lt (Nat.div_le_div_right ?_) h
        rw [List.flatten_cons, List.length_append]
        omega
      obtain ⟨hhanded, hnext⟩ := handed_eq_windows run hfirst
      have hsettled := settled_processFrame run hfirst
      have hsize := (processFrame_sizes run d packet).frameSize
      have hmargin := congrArg marginBuffer hnext
      rw [withMargin_margin] at hmargin
      -- the leftover of the packet goes in front of the next one
      have hrest := ih hsettled (by
        rw [hsize, hmargin, length_leftover]
        refine lt_of_le_of_lt (Nat.div_le_div_right ?_) h
        have hmod := Nat.mod_le (d.marginBuffer ++ packet).length d.frameSizeSamples
        rw [List.length_append] at hmod ⊢
        rw [List.flatten_cons, List.length_append]
        omega)
      rw [hsize, hmargin] at hrest
      have hwindows := windows_append hF (d.marginBuffer ++ packet) packets.flatten
      have hleftover := leftover_append hF (d.marginBuffer ++ packet) packets.flatten
      rw [List.append_assoc, ← List.flatten_cons] at hwindows hleftover
      rw [hwindows, hleftover, outputs_append, final_append]
      obtain ⟨hresults, hfinal⟩ := hrest
      constructor
      · rw [callResults, List.flatten_cons, hresults, hnext, outputs_withMargin, frameResults,
          hhanded]
      · rw [final_cons, hfinal, hnext, final_withMargin, withMargin_withMargin]

/-- **The detector sees the frames of the stream.** However a stream of less than `2^31` frames
is cut into packets, the frames of all calls are the frames of the stream, with the results they
have when the stream comes frame by frame; each call returns a state merged from those of its
own frames; and the detector is left as it is then, with the samples of the incomplete frame. -/
theorem packets_stream {d : SherpaVadDetector σ} (hd : d.Settled) (packets : List (List F32))
    (h : (d.marginBuffer.length + packets.flatten.length) / d.frameSizeSamples < 2 ^ 31) :
    (callResults run d packets).flatten
        = outputs (processInternal run) d
            (windows d.frameSizeSamples (d.marginBuffer ++ packets.flatten)) ∧
      (outputs (processFrame run) d packets).map VadResult.state
        = (callResults run d packets).map (fun results =>
            (results.foldl merge (nothingYet, false)).1.state) ∧
      final (processFrame run) d packets
        = (final (processInternal run) d
            (windows d.frameSizeSamples (d.marginBuffer ++ packets.flatten))).withMargin
            (leftover d.frameSizeSamples (d.marginBuffer ++ packets.flatten)) := by
  refine ⟨?_, outputs_processFrame_state run d packets, ?_⟩
  · exact (callResults_stream run hd packets h).1
  · exact (callResults_stream run hd packets h).2

/-- Thirty packets of 200 samples, in the course of which an utterance begins. -/
theorem packets_stream_packets :
    let d := SherpaVadDetector.new (List.replicate 14 (F32.ofInt 1)) frameThreshold 16000
      frameSize_default
    let packets := List.replicate 30 (List.replicate 200 F32.zero)
    (callResults VadIterator.scripted d packets).flatten
      = outputs (processInternal VadIterator.scripted) d
          (windows d.frameSizeSamples (d.marginBuffer ++ packets.flatten)) := by
  intro d packets
  refine (packets_stream VadIterator.scripted (d := d) d.frameSize_pos packets ?_).1
  decide +kernel

end SherpaVadDetector

end VadService
