import Zub1cg.Model.Orbflow
import Zub1cg.Library.Cobs

/-!
# Framing and unframing on the host

The loop of `cobs_encode` keeps the runs of the input with an open code byte, so it computes
the encoding of the COBS library; the loop of `cobs_decode` takes one run per turn and
gives the input back.

## Main results

- `cobsEncode_eq` — the encoder is the COBS encoding
- `cobsDecode_encode` — decoding gives the input back
- `orbflowFrame_ok`, `orbflowUnframe_encoded` — one frame and back
- `orbflowFrame_mapM` — frames made one after the other
-/

namespace Model

open Cobs (Runs)

/-! ### The encoder -/

/-- The loop variables for the runs seen so far: the code byte of the growing run is open. -/
def CobsWriter.ofRuns (r : Runs) : CobsWriter where
  out := Cobs.pack r.closed ++ 0 :: r.current
  codeIndex := (Cobs.pack r.closed).length
  code := UInt8.ofNat (r.current.length + 1)

/-- Filling in the open code byte. -/
theorem set_code (xs ys : List UInt8) (code : UInt8) :
    (xs ++ 0 :: ys).set xs.length code = xs ++ code :: ys := by
  rw [List.set_append_right _ _ (Nat.le_refl _), Nat.sub_self]
  rfl

theorem ofNat_succ_eq_full {n : ℕ} (h : n < 254) :
    UInt8.ofNat (n + 1) + 1 = 0xff ↔ n = 253 := by
  rw [← UInt8.toNat_inj, UInt8.toNat_add, UInt8.toNat_ofNat_of_lt' (by
    simp only [UInt8.size]; omega)]
  change (n + 1 + 1) % 256 = 255 ↔ n = 253
  omega

/-- One turn of the loop is one byte more in the runs. -/
theorem CobsWriter.push_ofRuns (r : Runs) (byte : UInt8) :
    (CobsWriter.ofRuns r).push byte = CobsWriter.ofRuns (r.push byte) := by
  rw [CobsWriter.push]
  by_cases hzero : byte = 0
  · subst hzero
    obtain ⟨hclosed, hcurrent⟩ := r.push_zero
    rw [if_pos rfl]
    unfold CobsWriter.ofRuns
    rw [set_code, hclosed, hcurrent, Cobs.pack_append]
    simp [Cobs.code]
  · rw [if_neg hzero]
    by_cases hfull : r.current.length = 253
    · obtain ⟨hclosed, hcurrent⟩ := Runs.push_full hzero hfull
      have hcode : (CobsWriter.ofRuns r).code + 1 = 0xff :=
        (ofNat_succ_eq_full r.current_short).mpr hfull
      dsimp only
      rw [if_pos hcode, hcode]
      unfold CobsWriter.ofRuns
      rw [List.append_assoc, List.cons_append, set_code, hclosed, hcurrent, Cobs.pack_append]
      simp [Cobs.code, hfull]
    · obtain ⟨hclosed, hcurrent⟩ := Runs.push_grow hzero hfull
      have hcode : (CobsWriter.ofRuns r).code + 1 ≠ 0xff :=
        fun h => hfull ((ofNat_succ_eq_full r.current_short).mp h)
      dsimp only
      rw [if_neg hcode]
      unfold CobsWriter.ofRuns
      rw [hclosed, hcurrent]
      simp

/-- **The encoder is the COBS encoding.** -/
theorem cobsEncode_eq (input : List UInt8) : cobsEncode input = Cobs.encode input := by
  have hloop : input.foldl CobsWriter.push { out := [0], codeIndex := 0, code := 1 } =
      CobsWriter.ofRuns (Cobs.runs input) := by
    induction input using List.reverseRecOn with
    | nil => rfl
    | append_singleton input byte ih =>
      rw [List.foldl_append, ih, Cobs.runs_concat, ← CobsWriter.push_ofRuns]
      rfl
  have hlast : (Cobs.runs input).all = (Cobs.runs input).closed ++ [(Cobs.runs input).current] := rfl
  rw [cobsEncode]
  rw [hloop, Cobs.encode, hlast, Cobs.pack_append]
  rw [CobsWriter.ofRuns]
  rw [set_code]
  simp [Cobs.code]

/-! ### The decoder -/

theorem copyRun_append (g rest out : List UInt8) :
    copyRun g.length (g ++ rest) out = .ok (rest, out ++ g) := by
  induction g generalizing out with
  | nil => simp [copyRun]
  | cons byte g ih =>
    rw [List.length_cons, List.cons_append, copyRun, ih, List.append_assoc]
    rfl

/-- The decoder takes the runs one after the other; whether their bytes are zero is nothing to
it. -/
theorem cobsDecodeFrom_pack {gs : List (List UInt8)} (hruns : ∀ g ∈ gs, g.length ≤ 254)
    (out : List UInt8) : cobsDecodeFrom (Cobs.pack gs) out = .ok (out ++ Cobs.expand gs) := by
  induction gs generalizing out with
  | nil => simp [cobsDecodeFrom, Cobs.expand]
  | cons g gs ih =>
    have hg := hruns g List.mem_cons_self
    have hcode := Cobs.code_toNat hg
    have hrest := ih fun h hh => hruns h (List.mem_cons_of_mem _ hh)
    have hcopy : copyRun ((Cobs.code g).toNat - 1) (g ++ Cobs.pack gs) out =
        .ok (Cobs.pack gs, out ++ g) := by
      rw [hcode, Nat.add_sub_cancel, copyRun_append]
    rw [Cobs.pack_cons, cobsDecodeFrom]
    rw [if_neg (by rw [hcode]; simp only [List.length_cons, List.length_append]; omega)]
    split
    · next e herror =>
      rw [hcopy] at herror
      cases herror
    · next rest' out' hrun =>
      rw [hcopy] at hrun
      cases hrun
      cases gs with
      | nil => simp [cobsDecodeFrom, Cobs.expand]
      | cons h gs =>
        have hne : Cobs.pack (h :: gs) ≠ [] := by simp
        have hfull : Cobs.code g ≠ 0xff ↔ g.length ≠ 254 := by
          rw [ne_eq, ← UInt8.toNat_inj, hcode]
          change ¬ g.length + 1 = 255 ↔ _
          omega
        rw [Cobs.expand, Cobs.terminated]
        split
        · next hshort =>
          rw [if_neg (hfull.mp hshort.1), hrest]
          simp
        · next hlong =>
          have hlen : g.length = 254 := by
            by_contra hlen
            exact hlong ⟨hfull.mpr hlen, hne⟩
          rw [if_pos hlen, hrest, List.append_assoc]

/-- **Decoding gives the input back.** -/
theorem cobsDecode_encode (input : List UInt8) : cobsDecode (Cobs.encode input) = .ok input := by
  have hshort : ∀ g ∈ (Cobs.runs input).all, g.length ≤ 254 := fun g hg =>
    ((Cobs.runs input).all_run g hg).2
  rw [cobsDecode, Cobs.encode, cobsDecodeFrom_pack hshort, Cobs.expand_runs, List.nil_append]

/-! ### One frame -/

theorem byteSum_concat (packet : List UInt8) (byte : UInt8) :
    byteSum (packet ++ [byte]) = byteSum packet + byte := by
  rw [byteSum, List.foldl_append]
  rfl

theorem byteSum_appendChecksum (packet : List UInt8) : byteSum (appendChecksum packet) = 0 := by
  rw [appendChecksum, byteSum_concat]
  grind

/-- The bytes of a frame in front of its delimiter. -/
def encoded (channel : UInt8) (payload : List UInt8) : List UInt8 :=
  Cobs.encode (appendChecksum (channel :: payload))

theorem encoded_ne_zero (channel : UInt8) (payload : List UInt8) :
    ∀ b ∈ encoded channel payload, b ≠ 0 :=
  Cobs.encode_ne_zero _

theorem encoded_ne_nil (channel : UInt8) (payload : List UInt8) : encoded channel payload ≠ [] := by
  rw [encoded, Cobs.encode, Runs.all]
  rw [Cobs.pack_append]
  simp

theorem orbflowFrame_ok {channel : UInt8} (h : channel ≤ 0x7f) (payload : List UInt8) :
    orbflowFrame channel payload = .ok (encoded channel payload ++ [0]) := by
  rw [orbflowFrame, if_neg (UInt8.not_lt.mpr h), cobsEncode_eq]
  rfl

/-- **Unframing gives channel and payload back.** -/
theorem orbflowUnframe_encoded (channel : UInt8) (payload : List UInt8) :
    orbflowUnframe (encoded channel payload) = .ok (channel, payload) := by
  have hstrip : (encoded channel payload).getLast? ≠ some 0 := by
    intro hlast
    exact encoded_ne_zero channel payload 0 (List.mem_of_getLast? hlast) rfl
  obtain ⟨sum, hraw⟩ : ∃ sum, appendChecksum (channel :: payload) = channel :: (payload ++ [sum]) :=
    ⟨_, rfl⟩
  have hdecode : cobsDecode (encoded channel payload) = .ok (channel :: (payload ++ [sum])) := by
    rw [encoded, cobsDecode_encode, hraw]
  have hsum : byteSum (channel :: (payload ++ [sum])) = 0 := by
    rw [← hraw, byteSum_appendChecksum]
  have hverify : verifyChecksum (channel :: (payload ++ [sum])) = true := by
    simp [verifyChecksum, hsum]
  rw [orbflowUnframe]
  simp only [if_neg hstrip, hdecode]
  change (if _ then _ else _) = _
  rw [if_neg (by simp [hverify])]
  simp [byteAt, slice]

/-- Frames made one after the other. -/
theorem orbflowFrame_mapM {packets : List (UInt8 × List UInt8)}
    (h : ∀ p ∈ packets, p.1 ≤ 0x7f) :
    packets.mapM (fun p => orbflowFrame p.1 p.2) =
      .ok (packets.map fun p => encoded p.1 p.2 ++ [0]) := by
  induction packets with
  | nil => rfl
  | cons p packets ih =>
    have hp := h p List.mem_cons_self
    have hrest := ih fun q hq => h q (List.mem_cons_of_mem _ hq)
    rw [List.mapM_cons, orbflowFrame_ok hp, hrest]
    rfl

end Model
