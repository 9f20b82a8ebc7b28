import Mathlib.Data.List.Basic
import Mathlib.Data.Nat.Notation
import Mathlib.Tactic.IntervalCases

/-!
# SWO words (`model/src/lib.rs`)

The reference decoders for one 8-N-1 word on the SWO line: a level for each bit, or a transition
in the middle of each bit. The samples of a word are given as a list, and nothing is said about
the clock that they come from.

## Main definitions

- `decodeSwoNrz`, `decodeSwoManchester` — the word in some samples

## Main results

- `getLsbD_packBits` — the bits of the byte that both put together
- `decodeSwoNrz_toOption`, `decodeSwoManchester_toOption` — which samples are a word, and which one
-/

namespace Model

inductive SwoError where
  | BadStart
  | BadStop
  | BadManchester
  deriving DecidableEq, Repr

/-- `value |= (bit as u8) << index`, for the eight data bits. -/
def packBits (bit : ℕ → Bool) : UInt8 :=
  (List.range 8).foldl (fun value index => value ||| ((bit index).toUInt8 <<< UInt8.ofNat index)) 0

/-- `sample` -/
def nrzSample (samples : List Bool) (samplesPerBit bit : ℕ) : Bool :=
  samples.getD (bit * samplesPerBit + samplesPerBit / 2) false

/-- Samples are centered by the caller. -/
def decodeSwoNrz (samples : List Bool) (samplesPerBit : ℕ) : Except SwoError UInt8 :=
  if samplesPerBit = 0 ∨ samples.length < samplesPerBit * 10 then .error .BadStop
  else if nrzSample samples samplesPerBit 0 then .error .BadStart
  else if !nrzSample samples samplesPerBit 9 then .error .BadStop
  else .ok (packBits fun bit => nrzSample samples samplesPerBit (bit + 1))

/-- One bit of two half-bit samples: low and high is zero, high and low is one. -/
def manchesterBit (halfBits : List Bool) (index : ℕ) : Except SwoError Bool :=
  let first := halfBits.getD (index * 2) false
  let second := halfBits.getD (index * 2 + 1) false
  if first = second then .error .BadManchester else .ok first

def decodeSwoManchester (halfBits : List Bool) : Except SwoError UInt8 :=
  if halfBits.length < 20 then .error .BadStop
  else do
    let start ← manchesterBit halfBits 0
    if start then .error .BadStart
    else
      let stop ← manchesterBit halfBits 9
      if !stop then .error .BadStop
      else
        (List.range 8).foldlM (fun value index => do
          let bit ← manchesterBit halfBits (index + 1)
          return value ||| (bit.toUInt8 <<< UInt8.ofNat index)) 0

/-! ### The byte -/

/-- One more bit above those that are there. -/
theorem getLsbD_or_shift (value : UInt8) (bit : Bool) {n : ℕ} (hn : n < 8) (k : ℕ) :
    (value ||| (bit.toUInt8 <<< UInt8.ofNat n)).toBitVec.getLsbD k =
      (value.toBitVec.getLsbD k || (decide (k = n) && bit)) := by
  have hshift : (bit.toUInt8 <<< UInt8.ofNat n).toBitVec =
      if bit then BitVec.twoPow 8 n else 0 := by
    interval_cases n <;> cases bit <;> rfl
  rw [UInt8.toBitVec_or, BitVec.getLsbD_or, hshift]
  cases bit with
  | true =>
    rw [if_pos rfl, BitVec.getLsbD_twoPow, Bool.and_true, decide_eq_true hn, Bool.true_and]
    congr 2
    rw [eq_iff_iff]
    exact eq_comm
  | false => simp

theorem getLsbD_packBits (bit : ℕ → Bool) {k : ℕ} (hk : k < 8) :
    (packBits bit).toBitVec.getLsbD k = bit k := by
  have hfold : ∀ n ≤ 8, ((List.range n).foldl (fun value index =>
      value ||| ((bit index).toUInt8 <<< UInt8.ofNat index)) 0).toBitVec.getLsbD k =
        (decide (k < n) && bit k) := by
    intro n hn
    induction n with
    | zero => simp
    | succ n ih =>
      rw [List.range_succ, List.foldl_append, List.foldl_cons, List.foldl_nil,
        getLsbD_or_shift _ _ (by omega), ih (by omega)]
      by_cases hthis : k = n
      · rw [hthis]
        simp
      · have hsame : (k < n + 1) = (k < n) := by
          rw [eq_iff_iff]
          omega
        simp [hthis, hsame]
  rw [packBits, hfold 8 (Nat.le_refl 8), decide_eq_true hk, Bool.true_and]

/-! ### Which samples are a word -/

/-- Samples are a word when the start and the stop bit are right. -/
theorem decodeSwoNrz_toOption {samples : List Bool} (h : 40 ≤ samples.length) :
    (decodeSwoNrz samples 4).toOption =
      if nrzSample samples 4 0 = false ∧ nrzSample samples 4 9 = true then
        some (packBits fun bit => nrzSample samples 4 (bit + 1))
      else none := by
  have hlong : ¬ (4 = 0 ∨ samples.length < 4 * 10) := by omega
  rw [decodeSwoNrz, if_neg hlong]
  cases nrzSample samples 4 0 <;> cases nrzSample samples 4 9 <;> rfl

/-- A bit has a transition in its middle. -/
def Toggles (halfBits : List Bool) (index : ℕ) : Prop :=
  halfBits.getD (index * 2) false ≠ halfBits.getD (index * 2 + 1) false

instance (halfBits : List Bool) (index : ℕ) : Decidable (Toggles halfBits index) :=
  inferInstanceAs (Decidable (_ ≠ _))

/-- The level of a bit is that of its first half. -/
def firstHalf (halfBits : List Bool) (index : ℕ) : Bool := halfBits.getD (index * 2) false

theorem manchesterBit_eq (halfBits : List Bool) (index : ℕ) :
    manchesterBit halfBits index =
      if Toggles halfBits index then .ok (firstHalf halfBits index) else .error .BadManchester := by
  rw [manchesterBit]
  by_cases hsame : halfBits.getD (index * 2) false = halfBits.getD (index * 2 + 1) false
  · rw [if_pos hsame, if_neg (show ¬ Toggles halfBits index from not_not_intro hsame)]
  · rw [if_neg hsame, if_pos (show Toggles halfBits index from hsame)]
    rfl

/-- The loop over the data bits goes on as long as they have transitions. -/
theorem manchesterData_toOption (halfBits : List Bool) (indices : List ℕ) (value : UInt8) :
    Except.toOption (indices.foldlM (fun value index => do
      let bit ← manchesterBit halfBits (index + 1)
      return value ||| (bit.toUInt8 <<< UInt8.ofNat index)) value) =
      if ∀ index ∈ indices, Toggles halfBits (index + 1) then
        some (indices.foldl (fun value index =>
          value ||| ((firstHalf halfBits (index + 1)).toUInt8 <<< UInt8.ofNat index)) value)
      else none := by
  induction indices generalizing value with
  | nil => rfl
  | cons index indices ih =>
    rw [List.foldlM_cons, manchesterBit_eq]
    by_cases htoggles : Toggles halfBits (index + 1)
    · rw [if_pos htoggles, List.foldl_cons]
      simp only [List.forall_mem_cons, htoggles, true_and]
      exact ih _
    · rw [if_neg htoggles, if_neg fun hall => htoggles (hall index List.mem_cons_self)]
      rfl

/-- All ten bits have transitions, and the start and the stop bit are right. -/
def IsWord (halfBits : List Bool) : Prop :=
  (∀ index < 10, Toggles halfBits index) ∧ firstHalf halfBits 0 = false ∧
    firstHalf halfBits 9 = true

instance (halfBits : List Bool) : Decidable (IsWord halfBits) :=
  inferInstanceAs (Decidable (_ ∧ _))

/-- Other samples are rejected. -/
theorem decodeSwoManchester_toOption {halfBits : List Bool} (h : 20 ≤ halfBits.length) :
    (decodeSwoManchester halfBits).toOption =
      if IsWord halfBits then some (packBits fun index => firstHalf halfBits (index + 1))
      else none := by
  have hlong : ¬ halfBits.length < 20 := by omega
  rw [decodeSwoManchester, if_neg hlong, manchesterBit_eq, manchesterBit_eq]
  by_cases hfirst : Toggles halfBits 0
  · rw [if_pos hfirst]
    by_cases hlast : Toggles halfBits 9
    · rw [if_pos hlast]
      cases hstart : firstHalf halfBits 0 with
      | true =>
        have hno : ¬ IsWord halfBits := fun hword =>
          Bool.false_ne_true (hword.2.1.symm.trans hstart)
        rw [if_neg hno]
        rfl
      | false =>
        cases hstop : firstHalf halfBits 9 with
        | false =>
          have hno : ¬ IsWord halfBits := fun hword =>
            Bool.false_ne_true (hstop.symm.trans hword.2.2)
          rw [if_neg hno]
          rfl
        | true =>
          refine (manchesterData_toOption halfBits (List.range 8) 0).trans ?_
          by_cases hdata : ∀ index ∈ List.range 8, Toggles halfBits (index + 1)
          · have hword : IsWord halfBits := by
              refine ⟨fun index hindex => ?_, hstart, hstop⟩
              obtain rfl | rfl | ⟨hlow, hhigh⟩ :
                  index = 0 ∨ index = 9 ∨ 0 < index ∧ index < 9 := by
                omega
              · exact hfirst
              · exact hlast
              · have hbit := hdata (index - 1) (List.mem_range.mpr (by omega))
                rwa [Nat.sub_add_cancel hlow] at hbit
            rw [if_pos hdata, if_pos hword]
            rfl
          · have hno : ¬ IsWord halfBits := fun hword => hdata fun index hindex =>
              hword.1 (index + 1) (by have hlt := List.mem_range.mp hindex; omega)
            rw [if_neg hdata, if_neg hno]
    · have hno : ¬ IsWord halfBits := fun hword => hlast (hword.1 9 (by decide))
      rw [if_neg hlast, if_neg hno]
      cases firstHalf halfBits 0 <;> rfl
  · have hno : ¬ IsWord halfBits := fun hword => hfirst (hword.1 0 (by decide))
    rw [if_neg hfirst, if_neg hno]
    rfl

end Model
