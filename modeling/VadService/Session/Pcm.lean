import VadService.Session.Basic
import VadService.Lib.Window

set_option autoImplicit false

/-! # Bytes and samples

`process_audio` pairs the bytes of a message for itself, so an odd message loses its last
byte (`pairedBytes`). Pairing commutes with cutting into windows, and the samples determine
the bytes they were made of.
-/

namespace VadService

open Window

/-! ## Pairing -/

/-- An even list of fewer than two bytes is empty. -/
theorem eq_nil_of_short {a : List UInt8} (h : Even a.length)
    (hshort : ∀ (lo hi : UInt8) (l : List UInt8), a = lo :: hi :: l → False) : a = [] := by
  rcases a with _ | ⟨lo, _ | ⟨hi, l⟩⟩
  · rfl
  · simp at h
  · exact absurd rfl (hshort lo hi l)

theorem toFloatAudio_append {a : List UInt8} (h : Even a.length) (b : List UInt8) :
    toFloatAudio (a ++ b) = toFloatAudio a ++ toFloatAudio b := by
  induction a using toFloatAudio.induct with
  | case1 lo hi a ih =>
      have ha : Even a.length := by simpa [Nat.even_add_one] using h
      rw [List.cons_append, List.cons_append, toFloatAudio, toFloatAudio, ih ha, List.cons_append]
  | case2 a hshort =>
      rw [eq_nil_of_short h hshort]
      rfl

/-- The bytes of a message that form samples. -/
def pairedBytes (rawData : List UInt8) : List UInt8 := rawData.take (rawData.length / 2 * 2)

theorem length_pairedBytes (rawData : List UInt8) :
    (pairedBytes rawData).length = rawData.length / 2 * 2 := by
  rw [pairedBytes, List.length_take]
  omega

theorem even_pairedBytes (rawData : List UInt8) : Even (pairedBytes rawData).length := by
  rw [length_pairedBytes]
  exact ⟨rawData.length / 2, by omega⟩

theorem pairedBytes_of_even {rawData : List UInt8} (h : Even rawData.length) :
    pairedBytes rawData = rawData := by
  obtain ⟨k, hk⟩ := h
  exact List.take_of_length_le (by omega)

theorem toFloatAudio_pairedBytes (rawData : List UInt8) :
    toFloatAudio (pairedBytes rawData) = toFloatAudio rawData := by
  have hrest : (rawData.drop (rawData.length / 2 * 2)).length < 2 := by
    rw [List.length_drop]
    omega
  have hnil : toFloatAudio (rawData.drop (rawData.length / 2 * 2)) = [] := by
    apply List.eq_nil_of_length_eq_zero
    rw [length_toFloatAudio]
    omega
  calc toFloatAudio (pairedBytes rawData)
      = toFloatAudio (pairedBytes rawData ++ rawData.drop (rawData.length / 2 * 2)) := by
        rw [toFloatAudio_append (even_pairedBytes rawData), hnil, List.append_nil]
    _ = toFloatAudio rawData := by rw [pairedBytes, List.take_append_drop]

theorem toFloatAudio_flatten {ws : List (List UInt8)} (h : ∀ w ∈ ws, Even w.length) :
    toFloatAudio ws.flatten = (ws.map toFloatAudio).flatten := by
  induction ws with
  | nil => rfl
  | cons w ws ih =>
      calc toFloatAudio (w :: ws).flatten = toFloatAudio w ++ toFloatAudio ws.flatten := by
            rw [List.flatten_cons, toFloatAudio_append (h w List.mem_cons_self)]
        _ = toFloatAudio w ++ (ws.map toFloatAudio).flatten := by
            rw [ih fun v hv => h v (List.mem_cons_of_mem w hv)]
        _ = ((w :: ws).map toFloatAudio).flatten := by rw [List.map_cons, List.flatten_cons]

/-- The windows of the samples are the samples of the windows of the bytes. -/
theorem windows_toFloatAudio {W : ℕ} (hW : 0 < W) (l : List UInt8) :
    windows W (toFloatAudio l) = (windows (2 * W) l).map toFloatAudio := by
  have hW2 : 0 < 2 * W := by omega
  induction l using Window.induction hW2 with
  | short l h =>
      have hlen : (toFloatAudio l).length < W := by
        rw [length_toFloatAudio]
        omega
      rw [windows_of_lt h, windows_of_lt hlen, List.map_nil]
  | step l h ih =>
      have htake : (l.take (2 * W)).length = 2 * W := by
        rw [List.length_take]
        omega
      have hsplit : toFloatAudio l
          = toFloatAudio (l.take (2 * W)) ++ toFloatAudio (l.drop (2 * W)) := by
        rw [← toFloatAudio_append (by rw [htake]; exact even_two_mul W), List.take_append_drop]
      have hfirst : (toFloatAudio (l.take (2 * W))).length = W := by
        rw [length_toFloatAudio, htake]
        omega
      -- the first window of the bytes is the first window of the samples, and nothing is left over
      have hleft : leftover W (toFloatAudio (l.take (2 * W))) = [] := by
        apply List.eq_nil_of_length_eq_zero
        rw [length_leftover, hfirst, Nat.mod_self]
      calc windows W (toFloatAudio l)
          = windows W (toFloatAudio (l.take (2 * W)) ++ toFloatAudio (l.drop (2 * W))) := by
            rw [hsplit]
        _ = toFloatAudio (l.take (2 * W)) :: windows W (toFloatAudio (l.drop (2 * W))) := by
            rw [windows_append hW, windows_singleton hW hfirst, hleft, List.nil_append,
              List.singleton_append]
        _ = toFloatAudio (l.take (2 * W))
              :: (windows (2 * W) (l.drop (2 * W))).map toFloatAudio := by rw [ih]
        _ = (windows (2 * W) l).map toFloatAudio := by rw [windows_cons hW2 h, List.map_cons]

/-! ## Samples determine their bytes -/

/-- A 16-bit sample over `32768` is a `float`. -/
theorem representable_sample {n : ℤ} (h : |n| < 2 ^ 24) :
    binary32.Representable ((n : ℚ) / 32768) := by
  refine ⟨⟨n, -15, ?_, h, by decide⟩, ?_⟩
  · rw [zpow_neg]
    norm_num
    ring
  · have h' : |(n : ℚ)| < 2 ^ 24 := by exact_mod_cast h
    rw [abs_div, div_lt_iff₀ (by norm_num)]
    exact h'.trans (by norm_num [binary32])

theorem toInt16_bounds (n : ℤ) : -2 ^ 15 ≤ toInt16 n ∧ toInt16 n < 2 ^ 15 := by
  unfold toInt16
  omega

/-- The value of a sample. -/
theorem sampleOf_eq (lo hi : UInt8) : ∃ h, sampleOf lo hi
    = .fin ((toInt16 (lo.toNat ||| hi.toNat <<< 8 : ℕ) : ℚ) / 32768) h := by
  obtain ⟨h1, h2⟩ := toInt16_bounds (lo.toNat ||| hi.toNat <<< 8 : ℕ)
  have hlt : |toInt16 (lo.toNat ||| hi.toNat <<< 8 : ℕ)| < 2 ^ 24 := by
    rw [abs_lt]
    constructor <;> omega
  refine ⟨representable_sample hlt, ?_⟩
  rw [sampleOf, F32.ofInt_eq hlt]
  exact FloatFormat.Value.round_representable _

/-- The two bytes of a sample, as a number. -/
theorem or_shift (lo hi : UInt8) : lo.toNat ||| hi.toNat <<< 8 = hi.toNat * 256 + lo.toNat := by
  rw [Nat.or_comm, ← Nat.shiftLeft_add_eq_or_of_lt (by exact lo.toNat_lt), Nat.shiftLeft_eq]

/-- **Different bytes give different samples.** -/
theorem sampleOf_injective {lo hi lo' hi' : UInt8} (h : sampleOf lo hi = sampleOf lo' hi') :
    lo = lo' ∧ hi = hi' := by
  obtain ⟨h1, e1⟩ := sampleOf_eq lo hi
  obtain ⟨h2, e2⟩ := sampleOf_eq lo' hi'
  rw [e1, e2] at h
  have hq : toInt16 (lo.toNat ||| hi.toNat <<< 8 : ℕ)
      = toInt16 (lo'.toNat ||| hi'.toNat <<< 8 : ℕ) := by
    have := FloatFormat.Value.fin.inj h
    rw [div_left_inj' (by norm_num)] at this
    exact_mod_cast this
  rw [or_shift, or_shift] at hq
  have b1 := lo.toNat_lt
  have b2 := hi.toNat_lt
  have b3 := lo'.toNat_lt
  have b4 := hi'.toNat_lt
  -- the two numbers are below `2^16` and agree modulo `2^16`
  unfold toInt16 at hq
  push_cast at hq
  constructor
  · apply UInt8.toNat_inj.mp
    omega
  · apply UInt8.toNat_inj.mp
    omega

theorem toFloatAudio_injOn {a b : List UInt8} (ha : Even a.length) (hb : Even b.length)
    (h : toFloatAudio a = toFloatAudio b) : a = b := by
  induction a using toFloatAudio.induct generalizing b with
  | case1 lo hi a ih =>
      rcases b with _ | ⟨lo', _ | ⟨hi', b⟩⟩
      · simp [toFloatAudio] at h
      · simp at hb
      · rw [toFloatAudio, toFloatAudio, List.cons.injEq] at h
        obtain ⟨rfl, rfl⟩ := sampleOf_injective h.1
        have htail := ih (by simpa [Nat.even_add_one] using ha)
          (by simpa [Nat.even_add_one] using hb) h.2
        rw [htail]
  | case2 a hshort =>
      rw [eq_nil_of_short ha hshort] at h ⊢
      refine (eq_nil_of_short hb ?_).symm
      rintro lo hi l rfl
      simp [toFloatAudio] at h

end VadService
