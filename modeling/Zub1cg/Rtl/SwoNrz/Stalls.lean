import Zub1cg.Rtl.SwoNrz.Reception

/-!
# Stalls of the NRZ receiver

While a byte waits for `output_ready` the receiver does not look at the line. It begins a
character at a low level, not at a falling edge. After a stall it may therefore begin in the
middle of a character, and characters that have passed in the stall are not counted.

## Main definitions

- `Accounted` — every character is delivered, counted as malformed or in progress

## Main results

- `accounted_of_seen` — no start bit is missed, so nothing is lost
- `stall_unaccounted` — two characters are lost, and a byte that was not sent is delivered
-/

namespace SwoNrz

open Clocked (Run)
open Swo (duration begun begun_le_length ended atStarts)

/-- At every clock, what has been delivered is a subsequence of what has been sent, and of the
characters sent at most one is neither delivered nor counted as malformed. The character that
is on the line may be taken as sent. The line passes two registers. -/
def Accounted (period : ℕ) (chars : List (ℕ × UInt8)) (r : Run Input State) : Prop :=
  ∀ t, ∃ sent, ended (duration period) chars t ≤ sent ∧ sent ≤ begun (duration period) chars t ∧
    (r.record delivered (2 + t)).Sublist ((chars.map Prod.snd).take sent) ∧
    ∃ progress ≤ 1, sent = (r.record delivered (2 + t)).length +
      (r.state (2 + t)).malformedCount.toNat + progress

theorem inProgress_le_one (s : State) : inProgress s ≤ 1 := by
  rw [inProgress]
  split_ifs <;> omega

/-- If in every start bit the receiver waits for nothing while two ticks are still to come, every
character is accounted for. -/
theorem accounted_of_seen {period phase : ℕ} (hperiod : 0 < period) {chars : List (ℕ × UInt8)}
    {ready : ℕ → Bool}
    (hseen : atStarts (duration period)
      (fun S => ∃ A, SeenAt period phase (onLine period phase chars ready) S A) 2 chars) :
    Accounted period chars (onLine period phase chars ready) := by
  intro t
  obtain ⟨sent, hended, hbegun, hcount, hsublist, hlength⟩ :=
    (onLine_settled hperiod (fun _ _ _ h => h) hseen).2 t
  refine ⟨sent, hended, hbegun, hsublist.sublist,
    inProgress ((onLine period phase chars ready).state (2 + t)), inProgress_le_one _, ?_⟩
  have hall : sent ≤ (chars.map Prod.snd).length := by
    rw [List.length_map]
    exact hbegun.trans (begun_le_length _ _ _)
  rw [List.length_take_of_le hall] at hlength
  rw [hcount, hlength]
  rfl

/-- Two characters without a gap. The first byte waits until the second character begins. -/
theorem accounted_of_seen_two :
    0 < 1 ∧ Accounted 1 [(0, 0xA6), (0, 0x5A)]
      (onLine 1 0 [(0, 0xA6), (0, 0x5A)] fun t => decide (42 ≤ t)) := by
  refine ⟨by decide, accounted_of_seen (by decide) ⟨⟨2, ?_⟩, ⟨43, ?_⟩, trivial⟩⟩
  · exact ⟨by decide, by decide, by decide +kernel⟩
  · exact ⟨by decide, by decide, by decide +kernel⟩

/-- Three characters, the first of which waits until the last one has ended. -/
def longStall : Run Input State :=
  onLine 1 0 [(0, 0x55), (0, 0xFF), (0, 0x55)] fun t => decide (125 ≤ t)

/-- The stall ends in the middle of the second character. -/
def lateStart : Run Input State := onLine 1 0 [(0, 0x00), (0, 0x0F)] fun t => decide (60 ≤ t)

/-- Of three characters one is delivered, and none is counted as malformed. The byte `0xF8` is
made of the end of one that was sent. -/
theorem stall_unaccounted :
    ¬ Accounted 1 [(0, 0x55), (0, 0xFF), (0, 0x55)] longStall ∧
      ¬ Accounted 1 [(0, 0x00), (0, 0x0F)] lateStart := by
  constructor
  · intro h
    obtain ⟨sent, hended, -, -, progress, hle, hsum⟩ := h 130
    have hdelivered : longStall.record delivered (2 + 130) = [0x55] := by decide +kernel
    have hcount : (longStall.state (2 + 130)).malformedCount.toNat = 0 := by decide +kernel
    have hthree : ended (duration 1) [(0, 0x55), (0, 0xFF), (0, 0x55)] 130 = 3 := by decide
    rw [hthree] at hended
    rw [hdelivered, hcount, List.length_singleton] at hsum
    omega
  · intro h
    obtain ⟨sent, -, -, hsublist, -⟩ := h 100
    have hdelivered : lateStart.record delivered (2 + 100) = [0x00, 0xF8] := by decide +kernel
    rw [hdelivered] at hsublist
    have hsent : 0xF8 ∈ [(0x00 : UInt8), 0x0F] :=
      List.mem_of_mem_take (hsublist.subset (List.mem_cons_of_mem _ (List.mem_singleton_self _)))
    exact absurd hsent (by decide)

end SwoNrz
