import Zub1cg.Model.Orbflow.RoundTrip
import Zub1cg.Library.Cobs.Blocks

/-!
# What the frame decoder accepts

The loop of `cobs_decode` succeeds exactly on whole blocks, and the data of a block may be zero. So
it undoes `cobs_encode`, and a string without zero bytes that it accepts is an encoding but for
an empty block at the end. `orbflow_unframe` does not look at the channel.

## Main results

- `cobs_round_trip` — encoding and back, without zero bytes, within the bound
- `cobsDecode_canonical` — the strings that are accepted, and those that are not
- `orbflowUnframe_canonical` — when an accepted frame is one that can be made
- `corruption_detected` — one data byte replaced
-/

namespace Model

open Cobs (CodeAt IsRun)

/-- **The round trip.** Decoding gives the input back; the encoding has no zero byte, and one byte
more than the input and one for each 254 bytes of it at most. -/
theorem cobs_round_trip (x : List UInt8) :
    cobsDecode (cobsEncode x) = .ok x ∧ (∀ b ∈ cobsEncode x, b ≠ 0) ∧
      (cobsEncode x).length ≤ x.length + x.length / 254 + 1 := by
  rw [cobsEncode_eq]
  exact ⟨cobsDecode_encode x, Cobs.encode_ne_zero x, Cobs.length_encode_le x⟩

/-! ### The strings that are accepted -/

theorem copyRun_eq_ok {n : ℕ} {rest out rest' out' : List UInt8}
    (h : copyRun n rest out = .ok (rest', out')) :
    ∃ g, g.length = n ∧ rest = g ++ rest' ∧ out' = out ++ g := by
  induction n generalizing rest out with
  | zero =>
    cases h
    exact ⟨[], rfl, rfl, (List.append_nil _).symm⟩
  | succ n ih =>
    cases rest with
    | nil => cases h
    | cons byte rest =>
      obtain ⟨g, hlength, rfl, rfl⟩ := ih h
      exact ⟨byte :: g, by rw [List.length_cons, hlength], rfl, by rw [List.append_assoc]; rfl⟩

/-- A block in front of whole blocks is one more. -/
theorem pack_of_copyRun {code : UInt8} {tail out rest out' : List UInt8} {gs : List (List UInt8)}
    (hcode : ¬ (code.toNat = 0 ∨ code.toNat > (code :: tail).length + 1))
    (hrun : copyRun (code.toNat - 1) tail out = .ok (rest, out')) (hrest : rest = Cobs.pack gs)
    (hgs : ∀ g ∈ gs, g.length ≤ 254) :
    ∃ gs, (∀ g ∈ gs, g.length ≤ 254) ∧ code :: tail = Cobs.pack gs := by
  obtain ⟨g, hlength, rfl, -⟩ := copyRun_eq_ok hrun
  have hbyte := code.toNat_lt
  have hg : g.length ≤ 254 := by omega
  refine ⟨g :: gs, ?_, ?_⟩
  · intro h hh
    obtain rfl | hh := List.mem_cons.mp hh
    · exact hg
    · exact hgs h hh
  · have hsame : code = Cobs.code g := by
      rw [← UInt8.toNat_inj, Cobs.code_toNat hg]
      omega
    rw [Cobs.pack_cons, hrest, hsame]

/-- What is accepted are whole blocks. -/
theorem cobsDecodeFrom_eq_ok {rest out x : List UInt8} (h : cobsDecodeFrom rest out = .ok x) :
    ∃ gs, (∀ g ∈ gs, g.length ≤ 254) ∧ rest = Cobs.pack gs := by
  induction rest, out using cobsDecodeFrom.induct with
  | case1 out => exact ⟨[], by simp, rfl⟩
  | case2 out code tail hbad =>
    rw [cobsDecodeFrom, if_pos hbad] at h
    cases h
  | case3 out code tail hgood e hrun =>
    rw [cobsDecodeFrom, if_neg hgood] at h
    split at h
    · cases h
    · next hrun' =>
      rw [hrun] at hrun'
      cases hrun'
  | case4 out code tail hgood rest' out' hrun hcond ih =>
    rw [cobsDecodeFrom, if_neg hgood] at h
    split at h
    · cases h
    · next hrun' =>
      rw [hrun] at hrun'
      cases hrun'
      rw [if_pos hcond] at h
      obtain ⟨gs, hgs, hrest⟩ := ih h
      exact pack_of_copyRun hgood hrun hrest hgs
  | case5 out code tail hgood rest' out' hrun hcond ih =>
    rw [cobsDecodeFrom, if_neg hgood] at h
    split at h
    · cases h
    · next hrun' =>
      rw [hrun] at hrun'
      cases hrun'
      rw [if_neg hcond] at h
      obtain ⟨gs, hgs, hrest⟩ := ih h
      exact pack_of_copyRun hgood hrun hrest hgs

theorem cobsDecode_pack {gs : List (List UInt8)} (hgs : ∀ g ∈ gs, g.length ≤ 254) :
    cobsDecode (Cobs.pack gs) = .ok (Cobs.expand gs) := by
  rw [cobsDecode, cobsDecodeFrom_pack hgs, List.nil_append]

/-- A string without zero bytes that is accepted, as runs. -/
theorem exists_runs {w x : List UInt8} (hw : ∀ b ∈ w, b ≠ 0) (h : cobsDecode w = .ok x) :
    ∃ gs, (∀ g ∈ gs, IsRun g) ∧ w = Cobs.pack gs ∧ x = Cobs.expand gs := by
  obtain ⟨gs, hgs, rfl⟩ := cobsDecodeFrom_eq_ok h
  rw [cobsDecode_pack hgs, Except.ok.injEq] at h
  refine ⟨gs, fun g hg => ⟨fun b hb => hw b ?_, hgs g hg⟩, rfl, h.symm⟩
  exact List.mem_flatMap.mpr ⟨g, hg, List.mem_cons_of_mem _ hb⟩

/-- **What the decoder accepts.** A string without zero bytes that is accepted is the encoding of
what it is decoded to, or lacks the empty block at its end; and a string is refused just when a
code byte points past its end. -/
theorem cobsDecode_canonical {w : List UInt8} (hw : ∀ b ∈ w, b ≠ 0) :
    (∀ x, cobsDecode w = .ok x →
      cobsEncode x = w ∨
        cobsEncode x = w ++ [0x01] ∧
          (w = [] ∨ ∃ p, CodeAt w p ∧ w[p]? = some 0xff ∧ p + 255 = w.length)) ∧
    ((∃ e, cobsDecode w = .error e) ↔
      ∃ p c, CodeAt w p ∧ w[p]? = some c ∧ w.length < p + c.toNat) := by
  constructor
  · intro x hx
    obtain ⟨gs, hgs, rfl, rfl⟩ := exists_runs hw hx
    rw [cobsEncode_eq]
    obtain hsame | ⟨hmore, rfl | ⟨front, g, rfl, hfull⟩⟩ := Cobs.encode_expand hgs
    · exact .inl hsame
    · exact .inr ⟨hmore, .inl rfl⟩
    · refine .inr ⟨hmore, .inr ⟨(Cobs.pack front).length, ?_, ?_, ?_⟩⟩
      · exact Cobs.codeAt_front (fun h hh => (hgs h (List.mem_append_left _ hh)).2) g []
      · rw [Cobs.pack_append, List.getElem?_append_right (Nat.le_refl _), Nat.sub_self,
          Cobs.pack_cons, List.getElem?_cons_zero, Cobs.code, hfull]
        rfl
      · rw [Cobs.pack_append, List.length_append, Cobs.pack_cons, List.length_cons,
          List.length_append, hfull, Cobs.pack_nil]
        rfl
  · constructor
    · rintro ⟨e, herror⟩
      obtain ⟨gs, hgs, rfl⟩ | hpast := Cobs.exists_pack_or_overrun w hw
      · rw [cobsDecode_pack fun g hg => (hgs g hg).2] at herror
        cases herror
      · exact hpast
    · rintro ⟨p, c, hat, hc, hpast⟩
      cases hx : cobsDecode w with
      | error e => exact ⟨e, rfl⟩
      | ok x =>
        obtain ⟨gs, hgs, rfl⟩ := cobsDecodeFrom_eq_ok hx
        have hinside := Cobs.pack_inside hgs hat hc
        omega

/-- The only block announces two bytes and has one. -/
theorem cobsDecode_canonical_overrun : ∃ e, cobsDecode [0x03, 0x05] = .error e :=
  (cobsDecode_canonical (by simp)).2.mpr ⟨0, 0x03, .first (by decide), rfl, by decide⟩

/-! ### The frames that are accepted -/

/-- `frame.strip_suffix(&[0]).unwrap_or(frame)` -/
def stripped (f : List UInt8) : List UInt8 := if f.getLast? = some 0 then f.dropLast else f

/-- What is accepted is the decoded string without its checksum. -/
theorem orbflowUnframe_eq_ok {f payload : List UInt8} {channel : UInt8}
    (h : orbflowUnframe f = .ok (channel, payload)) :
    cobsDecode (stripped f) = .ok (appendChecksum (channel :: payload)) := by
  rw [orbflowUnframe] at h
  change (cobsDecode (stripped f) >>= _) = _ at h
  cases hraw : cobsDecode (stripped f) with
  | error e =>
    rw [hraw] at h
    cases h
  | ok raw =>
    rw [hraw] at h
    change (if _ then _ else _) = _ at h
    split at h
    · cases h
    · next hvalid =>
      rw [not_or, Nat.not_lt, Bool.not_eq_false] at hvalid
      obtain ⟨hlength, hverify⟩ := hvalid
      obtain ⟨first, middle, last, rfl⟩ : ∃ first middle last, raw = first :: (middle ++ [last]) := by
        obtain ⟨first, rest, rfl⟩ := List.exists_cons_of_length_pos (by omega : 0 < raw.length)
        rw [List.length_cons] at hlength
        have hne : rest ≠ [] := fun hnil => by
          rw [hnil] at hlength
          contradiction
        exact ⟨first, rest.dropLast, rest.getLast hne, by rw [List.dropLast_concat_getLast]⟩
      simp only [byteAt, slice, Except.ok.injEq, Prod.mk.injEq] at h
      have hpayload : middle = payload := by simpa using h.2
      have hchannel : first = channel := by simpa using h.1
      subst hpayload hchannel
      simp only [verifyChecksum, Bool.and_eq_true, beq_iff_eq] at hverify
      have hsum := hverify.2
      rw [← List.cons_append, byteSum_concat] at hsum
      have hlast : last = 0 - byteSum (first :: middle) := by grind
      rw [appendChecksum, ← hlast]
      rfl

/-- The first decoded byte is zero if the first block is empty, else the block's first byte. -/
theorem first_le_iff {w rest : List UInt8} {first : UInt8}
    (h : cobsDecode w = .ok (first :: rest)) :
    first ≤ 0x7f ↔ byteAt w 0 = 0x01 ∨ byteAt w 1 ≤ 0x7f := by
  obtain ⟨gs, hgs, rfl⟩ := cobsDecodeFrom_eq_ok h
  rw [cobsDecode_pack hgs, Except.ok.injEq] at h
  cases gs with
  | nil => contradiction
  | cons g gs =>
    rw [Cobs.expand_cons] at h
    cases g with
    | nil =>
      cases gs with
      | nil => contradiction
      | cons g' gs =>
        obtain ⟨rfl, -⟩ := List.cons.inj h
        exact iff_of_true (by decide) (.inl rfl)
    | cons b g =>
      obtain ⟨rfl, -⟩ := List.cons.inj h
      have hcode : byteAt (Cobs.pack ((b :: g) :: gs)) 0 ≠ 0x01 := by
        change Cobs.code (b :: g) ≠ 0x01
        rw [Ne, ← UInt8.toNat_inj, Cobs.code_toNat (hgs _ List.mem_cons_self), List.length_cons]
        change ¬ g.length + 1 + 1 = 1
        omega
      exact (or_iff_right hcode).symm

theorem append_stripped (f : List UInt8) : f = stripped f ∨ f = stripped f ++ [0] := by
  rw [stripped]
  split
  · next hlast =>
    right
    obtain ⟨front, rfl⟩ := List.getLast?_eq_some_iff.mp hlast
    rw [List.dropLast_concat]
  · exact .inl rfl

theorem byteAt_stripped (f : List UInt8) (k : ℕ) : byteAt (stripped f) k = byteAt f k := by
  obtain h | h := append_stripped f
  · rw [← h]
  · conv_rhs => rw [h]
    rw [byteAt, byteAt, List.getD_eq_getElem?_getD, List.getD_eq_getElem?_getD]
    by_cases hk : k < (stripped f).length
    · rw [List.getElem?_append_left hk]
    · rw [List.getElem?_eq_none (Nat.le_of_not_lt hk),
        List.getElem?_append_right (Nat.le_of_not_lt hk)]
      cases k - (stripped f).length <;> rfl

/-- **When an accepted frame is one that can be made.** An accepted frame without zero bytes in
front of its last byte has a channel that can be framed, and framing what it was unframed to gives
it back but for an empty block at the end, just when its first block is empty or its second byte is
at most `0x7f`. -/
theorem orbflowUnframe_canonical {f : List UInt8} (hf : ∀ b ∈ f.dropLast, b ≠ 0)
    {channel : UInt8} {payload : List UInt8} (h : orbflowUnframe f = .ok (channel, payload)) :
    (channel ≤ 0x7f ∧ ∃ g, orbflowFrame channel payload = .ok g ∧
      (g = stripped f ++ [0] ∨ g = stripped f ++ [0x01, 0])) ↔
    (byteAt f 0 = 0x01 ∨ byteAt f 1 ≤ 0x7f) := by
  have hdecode := orbflowUnframe_eq_ok h
  rw [← byteAt_stripped f 0, ← byteAt_stripped f 1, ← first_le_iff hdecode]
  refine ⟨And.left, fun hchannel => ⟨hchannel, _, orbflowFrame_ok hchannel payload, ?_⟩⟩
  have hzero : ∀ b ∈ stripped f, b ≠ 0 := by
    intro b hb
    rw [stripped] at hb
    split at hb
    · exact hf b hb
    · next hlast =>
      obtain rfl | ⟨front, last, rfl⟩ := f.eq_nil_or_concat
      · exact absurd hb List.not_mem_nil
      · rw [List.concat_eq_append, List.getLast?_concat, Option.some.injEq] at hlast
        rw [List.concat_eq_append, List.mem_append, List.mem_singleton] at hb
        rw [List.concat_eq_append, List.dropLast_concat] at hf
        obtain hb | rfl := hb
        · exact hf b hb
        · exact hlast
  rw [encoded, ← cobsEncode_eq]
  obtain hsame | ⟨hmore, -⟩ := (cobsDecode_canonical hzero).1 _ hdecode
  · rw [hsame]
    exact .inl rfl
  · rw [hmore, List.append_assoc]
    exact .inr rfl

/-- A frame on channel 1 without payload. -/
theorem orbflowUnframe_canonical_empty :
    (0x01 : UInt8) ≤ 0x7f ∧ ∃ g, orbflowFrame 0x01 [] = .ok g ∧
      (g = stripped (encoded 0x01 []) ++ [0] ∨ g = stripped (encoded 0x01 []) ++ [0x01, 0]) :=
  (orbflowUnframe_canonical
    (fun b hb => encoded_ne_zero 0x01 [] b (List.dropLast_subset _ hb))
    (orbflowUnframe_encoded 0x01 [])).mpr (by decide)

/-- A frame on channel 128 is accepted, although none can be made. -/
theorem accepts_channel_128 :
    ¬ ∀ f : List UInt8, (∀ b ∈ f.dropLast, b ≠ 0) → ∀ channel payload,
      orbflowUnframe f = .ok (channel, payload) →
        channel ≤ 0x7f ∧ ∃ g, orbflowFrame channel payload = .ok g ∧
          (g = stripped f ++ [0] ∨ g = stripped f ++ [0x01, 0]) := by
  intro h
  have haccepted : orbflowUnframe [0x03, 0x80, 0x80, 0x00] = .ok (0x80, []) := by
    have hdecode : cobsDecode (Cobs.pack [[0x80, 0x80]]) = .ok [0x80, 0x80] :=
      cobsDecode_pack (by decide)
    rw [orbflowUnframe]
    change (cobsDecode (Cobs.pack [[0x80, 0x80]]) >>= _) = _
    rw [hdecode]
    rfl
  exact absurd (h [0x03, 0x80, 0x80, 0x00] (by simp) _ _ haccepted).1 (by decide)

/-! ### A byte replaced -/

theorem byteSum_append (xs ys : List UInt8) : byteSum (xs ++ ys) = byteSum xs + byteSum ys := by
  induction ys using List.reverseRecOn with
  | nil => simp [byteSum]
  | append_singleton ys b ih =>
    rw [← List.append_assoc, byteSum_concat, byteSum_concat, ih]
    grind

theorem byteSum_cons (b : UInt8) (xs : List UInt8) : byteSum (b :: xs) = b + byteSum xs := by
  rw [← List.singleton_append, byteSum_append]
  simp [byteSum]

/-- Another byte, another sum. -/
theorem byteSum_set_ne {xs : List UInt8} {j : ℕ} (hj : j < xs.length) {b : UInt8}
    (hb : xs[j]? ≠ some b) : byteSum (xs.set j b) ≠ byteSum xs := by
  induction xs generalizing j with
  | nil => exact absurd hj (Nat.not_lt_zero j)
  | cons x xs ih =>
    cases j with
    | zero =>
      rw [List.set_cons_zero, byteSum_cons, byteSum_cons]
      intro hsame
      rw [List.getElem?_cons_zero] at hb
      exact hb (congrArg some (by grind))
    | succ j =>
      rw [List.set_cons_succ, byteSum_cons, byteSum_cons]
      intro hsame
      exact ih (Nat.lt_of_succ_lt_succ hj) hb (by grind)

/-- A decoded string with a wrong sum is refused. -/
theorem orbflowUnframe_badChecksum {w raw : List UInt8} (hdecode : cobsDecode w = .ok raw)
    (hsum : byteSum raw ≠ 0) : orbflowUnframe (w ++ [0]) = .error .BadChecksum := by
  have hverify : verifyChecksum raw = false := by
    rw [verifyChecksum, beq_false_of_ne hsum, Bool.and_false]
  rw [orbflowUnframe, List.getLast?_concat]
  simp only [if_true, List.dropLast_concat, hdecode]
  exact if_pos (.inr hverify)

/-- **One data byte replaced.** When a byte of a frame that is neither a code byte nor the
delimiter is replaced by another one, zero or not, the frame is refused for its checksum. -/
theorem corruption_detected {channel : UInt8} {payload f : List UInt8}
    (hframe : orbflowFrame channel payload = .ok f) {k : ℕ} (hk : k + 1 < f.length)
    (hdata : ¬ CodeAt f.dropLast k) {b : UInt8} (hb : f[k]? ≠ some b) :
    orbflowUnframe (f.set k b) = .error .BadChecksum := by
  obtain rfl : f = encoded channel payload ++ [0] := by
    rw [orbflowFrame] at hframe
    split at hframe
    · cases hframe
    · cases hframe
      rw [cobsEncode_eq]
      rfl
  rw [List.length_append, List.length_singleton] at hk
  have hinside : k < (encoded channel payload).length := by omega
  rw [List.dropLast_concat] at hdata
  rw [List.getElem?_append_left hinside] at hb
  rw [List.set_append_left _ _ hinside]
  -- the byte lies in one of the runs
  have hruns := (Cobs.runs (appendChecksum (channel :: payload))).all_run
  have hraw := Cobs.expand_runs (appendChecksum (channel :: payload))
  unfold encoded Cobs.encode at *
  generalize (Cobs.runs (appendChecksum (channel :: payload))).all = gs at *
  have hshort : ∀ g ∈ gs, g.length ≤ 254 := fun g hg => (hruns g hg).2
  obtain ⟨front, g, back, j, rfl, hj, hsame, hset⟩ := Cobs.exists_pack_set hshort hinside hdata
  rw [hset]
  have hlength : (g.set j b).length = g.length := List.length_set
  have hshort' : ∀ h ∈ front ++ g.set j b :: back, h.length ≤ 254 := by
    intro h hh
    rw [List.mem_append, List.mem_cons] at hh
    obtain hh | rfl | hh := hh
    · exact hshort h (List.mem_append_left _ hh)
    · rw [hlength]
      exact hshort g (List.mem_append_right _ List.mem_cons_self)
    · exact hshort h (List.mem_append_right _ (List.mem_cons_of_mem _ hh))
  refine orbflowUnframe_badChecksum (cobsDecode_pack hshort') ?_
  rw [Cobs.expand_middle] at hraw ⊢
  rw [Cobs.after_of_length hlength, byteSum_append, byteSum_append]
  have hzero := byteSum_appendChecksum (channel :: payload)
  rw [← hraw, byteSum_append, byteSum_append] at hzero
  have hdiffer := byteSum_set_ne hj (hsame ▸ hb)
  intro hsum
  exact hdiffer (by grind)

/-- The checksum of an empty frame on channel 1 becomes a zero byte. -/
theorem corruption_detected_checksum :
    orbflowUnframe [0x03, 0x01, 0x00, 0x00] = .error .BadChecksum := by
  have honly : ∀ k, CodeAt [0x03, 0x01, 0xff] k → k = 0 := by
    intro k h
    induction h with
    | first => rfl
    | next code here inside ih =>
      subst ih
      obtain rfl := Option.some.inj here
      exact absurd inside (by decide)
  have hframe : orbflowFrame 0x01 [] = .ok [0x03, 0x01, 0xff, 0x00] := rfl
  exact corruption_detected hframe (by decide : 2 + 1 < 4)
    (fun h => absurd (honly 2 h) (by decide)) (by decide)

end Model
