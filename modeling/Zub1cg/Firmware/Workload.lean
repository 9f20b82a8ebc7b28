import Zub1cg.Library.Generator
import Mathlib.Data.UInt
import Mathlib.Tactic.IntervalCases

/-!
# The deterministic workloads and their C ports

Two Rust crates describe what the firmware of the Cortex-M3 and of the R5 does to be traced:
`firmware/m3` the events it reports, `firmware/rpu` the branch targets it visits. The images that
run on the cores are C, written after the crates by hand: `m3_app` writes the events to the
stimulus ports of the ITM, `orbtrace_workload` calls a function for each action.

## Main definitions

- `M3.Workload.next`, `Rpu.Workload.next` — the Rust models
- `M3App.emitNext`, `OrbtraceWorkload.emitNext` — the C ports

## Main results

- `M3App.emitNext_refines` — the M3 makes the stimulus writes of the model, forever
- `OrbtraceWorkload.emitNext_refines` — the R5 takes the actions of the model, forever
-/

/-! ### The M3's model (`firmware/m3/src/lib.rs`) -/

namespace M3

inductive Event where
  | Itm (channel : UInt8) (value : UInt32) (width : UInt8)
  | Timestamp (value : UInt32)
  | Idle (value : UInt32)
  | Malformed (value : UInt8)
  | Fault (value : UInt32)
  deriving DecidableEq, Repr

structure Workload where
  state : UInt32
  sequence : UInt32
  deriving DecidableEq, Repr

def Workload.new (seed : UInt32) : Workload := { state := seed, sequence := 0 }

def Workload.next (self : Workload) : Event × Workload :=
  let state := self.state ^^^ (self.state <<< 13)
  let state := state ^^^ (state >>> 17)
  let state := state ^^^ (state <<< 5)
  let sequence := self.sequence + 1
  let event :=
    match (sequence &&& 15).toNat with
    | 0 => Event.Timestamp sequence
    | 1 => Event.Idle ((state &&& 0x3ff) + 1)
    | 2 => Event.Malformed state.toUInt8
    | 3 => Event.Fault (0xf0010000 ||| sequence)
    | n =>
      Event.Itm (UInt8.ofNat (n % 7) + 1) state
        ([1, 2, 4].get ⟨n % 3, Nat.mod_lt n (by decide)⟩)
  (event, { state := state, sequence := sequence })

end M3

/-! ### Stimulus writes (`sdk/bsp/m3/itm.h`) -/

/-- A write to a stimulus port; its width is that of the register it is made to. -/
inductive StimWrite where
  | stim8 (port : UInt32) (value : UInt8)
  | stim16 (port : UInt32) (value : UInt16)
  | stim (port : UInt32) (value : UInt32)
  deriving DecidableEq, Repr

/-- A stimulus write in numbers: the port, the width in bytes and the value. -/
structure Stimulus where
  port : ℕ
  width : ℕ
  value : ℕ
  deriving DecidableEq, Repr

def StimWrite.stimulus : StimWrite → Stimulus
  | stim8 port value => ⟨port.toNat, 1, value.toNat⟩
  | stim16 port value => ⟨port.toNat, 2, value.toNat⟩
  | stim port value => ⟨port.toNat, 4, value.toNat⟩

/-- `m3_itm_write`, once the port is ready. -/
def m3ItmWrite (port value : UInt32) : StimWrite := .stim port value

/-- `m3_itm_write_width`, once the port is ready. -/
def m3ItmWriteWidth (port value : UInt32) (width : UInt8) : StimWrite :=
  if width = 1 then .stim8 port value.toUInt8
  else if width = 2 then .stim16 port value.toUInt16
  else .stim port value

/-- The write that stands for an event: the events without a channel go to port 0. -/
def M3.Event.stimulus : M3.Event → Stimulus
  | Itm channel value width => ⟨channel.toNat, width.toNat, value.toNat % 256 ^ width.toNat⟩
  | Timestamp value => ⟨0, 4, value.toNat⟩
  | Idle value => ⟨0, 4, value.toNat⟩
  | Malformed value => ⟨0, 1, value.toNat⟩
  | Fault value => ⟨0, 4, value.toNat⟩

/-! ### The M3's port (`firmware/m3_app/src/main.c`) -/

namespace M3App

/-- The two static variables. -/
structure State where
  state : UInt32
  sequence : UInt32
  deriving DecidableEq, Repr

def initial : State := { state := 7, sequence := 0 }

def widths : List UInt8 := [1, 2, 4]

theorem width_index (n : UInt32) : (n % 3).toNat < widths.length := by
  rw [UInt32.toNat_mod]
  exact Nat.mod_lt _ (by decide)

/-- `emit_next` and the write it makes. -/
def emitNext (s : State) : StimWrite × State :=
  let state := s.state ^^^ (s.state <<< 13)
  let state := state ^^^ (state >>> 17)
  let state := state ^^^ (state <<< 5)
  let sequence := s.sequence + 1
  let n := sequence &&& 15
  let write :=
    match n.toNat with
    | 0 => m3ItmWrite 0 sequence
    | 1 => m3ItmWrite 0 ((state &&& 0x3ff) + 1)
    | 2 => m3ItmWriteWidth 0 (state &&& 0xff) 1
    | 3 => m3ItmWrite 0 (0xf0010000 ||| sequence)
    | _ =>
      let channel := n % 7 + 1
      m3ItmWriteWidth channel state (widths.get ⟨(n % 3).toNat, width_index n⟩)
  (write, { state := state, sequence := sequence })

/-- The port and its model are in the same state. -/
def Same (s : State) (w : M3.Workload) : Prop := s.state = w.state ∧ s.sequence = w.sequence

/-- A write of a width that is one of the array takes the value's low bytes. -/
theorem stimulus_writeWidth {width : UInt8} (h : width ∈ widths) (port value : UInt32) :
    (m3ItmWriteWidth port value width).stimulus =
      ⟨port.toNat, width.toNat, value.toNat % 256 ^ width.toNat⟩ := by
  have hvalue : value.toNat < 256 ^ 4 := value.toNat_lt
  simp only [widths, List.mem_cons, List.not_mem_nil, or_false] at h
  obtain rfl | rfl | rfl := h
  · rfl
  · rfl
  · change (⟨port.toNat, 4, value.toNat⟩ : Stimulus) = ⟨port.toNat, 4, value.toNat % 256 ^ 4⟩
    rw [Nat.mod_eq_of_lt hvalue]

/-- One call of each: the same write, and again the same state. -/
theorem emitNext_step (s : State) (w : M3.Workload) (h : Same s w) :
    (emitNext s).1.stimulus = w.next.1.stimulus ∧ Same (emitNext s).2 w.next.2 := by
  obtain ⟨hstate, hsequence⟩ := h
  refine ⟨?_, ?_⟩
  · rw [emitNext, M3.Workload.next, hstate, hsequence]
    generalize w.state ^^^ (w.state <<< 13) = a
    generalize a ^^^ (a >>> 17) = b
    generalize b ^^^ (b <<< 5) = state
    generalize (w.sequence + 1) &&& 15 = n
    dsimp only
    split
    · rfl
    · rfl
    · -- the mask does not take away anything of the low byte
      rw [stimulus_writeWidth (by decide), M3.Event.stimulus, UInt32.toNat_and]
      change (⟨0, 1, (state.toNat &&& 2 ^ 8 - 1) % 2 ^ 8⟩ : Stimulus) = ⟨0, 1, state.toNat % 2 ^ 8⟩
      rw [Nat.and_two_pow_sub_one_eq_mod, Nat.mod_mod]
    · rfl
    · -- the channel and the width are computed with different types
      rw [stimulus_writeWidth (List.get_mem _ _), M3.Event.stimulus]
      have hchannel : (n % 7 + 1).toNat = (UInt8.ofNat (n.toNat % 7) + 1).toNat := by
        rw [UInt32.toNat_add, UInt32.toNat_mod, UInt8.toNat_add, UInt8.toNat_ofNat']
        change (n.toNat % 7 + 1) % 2 ^ 32 = (n.toNat % 7 % 2 ^ 8 + 1) % 2 ^ 8
        omega
      rw [hchannel]
      rfl
  · rw [emitNext, M3.Workload.next, hstate, hsequence]
    exact ⟨rfl, rfl⟩

/-- **The M3 makes the writes of its model**, as many as it makes: the write after `n` others is
the model's event after `n` others, with the seed the firmware starts from. -/
theorem emitNext_refines (n : ℕ) :
    (Generator.nth emitNext initial n).stimulus =
      (Generator.nth M3.Workload.next (M3.Workload.new 7) n).stimulus :=
  Generator.nth_simulation (R := Same) ⟨rfl, rfl⟩ emitNext_step n

end M3App

/-! ### The R5's model (`firmware/rpu/src/lib.rs`) -/

namespace Rpu

inductive Action where
  | Marker (value : UInt32)
  | Spin (value : UInt32)
  | Branch (taken : Bool)
  | Fault (value : UInt32)
  | Call (target : UInt8)
  deriving DecidableEq, Repr

structure Workload where
  state : UInt32
  sequence : UInt32
  deriving DecidableEq, Repr

def Workload.new (seed : UInt32) : Workload := { state := seed, sequence := 0 }

def Workload.next (self : Workload) : Action × Workload :=
  let state := self.state ^^^ (self.state <<< 13)
  let state := state ^^^ (state >>> 17)
  let state := state ^^^ (state <<< 5)
  let sequence := self.sequence + 1
  let action :=
    match (sequence &&& 15).toNat with
    | 0 => Action.Marker sequence
    | 1 => Action.Spin ((state &&& 0x3ff) + 1)
    | 2 => Action.Branch (state &&& 1 == 0)
    | 3 => Action.Fault (0xf0010000 ||| sequence)
    | n => Action.Call (UInt8.ofNat (n % 7))
  (action, { state := state, sequence := sequence })

end Rpu

/-! ### The R5's port (`rpu/orbtrace_workload/main.c`) -/

namespace OrbtraceWorkload

/-- The functions that an action calls, with their arguments, and the loop of a spin. -/
inductive Call where
  | marker (seq : UInt32)
  | spin (spins : UInt32)
  | branchTrue
  | branchFalse
  | fault (code : UInt32)
  | call0 (v : UInt32)
  | call1 (v : UInt32)
  | call2 (v : UInt32)
  | call3 (v : UInt32)
  | call4 (v : UInt32)
  | call5 (v : UInt32)
  | call6 (v : UInt32)
  deriving DecidableEq, Repr

/-- What the called function adds to `g_heartbeat`. -/
def Call.heartbeat : Call → UInt32
  | marker seq => seq &&& 0xff
  | spin _ => 0
  | branchTrue => 101
  | branchFalse => 103
  | fault code => code &&& 0xff
  | call0 v => (v &&& 0xff) + 1
  | call1 v => (v &&& 0xff) + 2
  | call2 v => (v &&& 0xff) + 3
  | call3 v => (v &&& 0xff) + 4
  | call4 v => (v &&& 0xff) + 5
  | call5 v => (v &&& 0xff) + 6
  | call6 v => (v &&& 0xff) + 7

/-- The action that the called function stands for. -/
def Call.action : Call → Rpu.Action
  | marker seq => .Marker seq
  | spin spins => .Spin spins
  | branchTrue => .Branch true
  | branchFalse => .Branch false
  | fault code => .Fault code
  | call0 _ => .Call 0
  | call1 _ => .Call 1
  | call2 _ => .Call 2
  | call3 _ => .Call 3
  | call4 _ => .Call 4
  | call5 _ => .Call 5
  | call6 _ => .Call 6

/-- The static variables. -/
structure State where
  state : UInt32
  sequence : UInt32
  gHeartbeat : UInt32
  deriving DecidableEq, Repr

def initial : State := { state := 7, sequence := 0, gHeartbeat := 0 }

/-- `emit_next` and the call it makes. -/
def emitNext (s : State) : Call × State :=
  let state := s.state ^^^ (s.state <<< 13)
  let state := state ^^^ (state >>> 17)
  let state := state ^^^ (state <<< 5)
  let sequence := s.sequence + 1
  let n := sequence &&& 15
  let call :=
    match n.toNat with
    | 0 => Call.marker sequence
    | 1 => Call.spin ((state &&& 0x3ff) + 1)
    | 2 => if state &&& 1 = 0 then Call.branchTrue else Call.branchFalse
    | 3 => Call.fault (0xf0010000 ||| sequence)
    | _ =>
      let target := n % 7
      match target.toNat with
      | 0 => Call.call0 state
      | 1 => Call.call1 state
      | 2 => Call.call2 state
      | 3 => Call.call3 state
      | 4 => Call.call4 state
      | 5 => Call.call5 state
      | _ => Call.call6 state
  (call,
    { state := state, sequence := sequence, gHeartbeat := s.gHeartbeat + call.heartbeat })

def Same (s : State) (w : Rpu.Workload) : Prop := s.state = w.state ∧ s.sequence = w.sequence

/-- One call of each: the same action, and again the same state. -/
theorem emitNext_step (s : State) (w : Rpu.Workload) (h : Same s w) :
    (emitNext s).1.action = w.next.1 ∧ Same (emitNext s).2 w.next.2 := by
  obtain ⟨hstate, hsequence⟩ := h
  refine ⟨?_, ?_⟩
  · rw [emitNext, Rpu.Workload.next, hstate, hsequence]
    generalize w.state ^^^ (w.state <<< 13) = a
    generalize a ^^^ (a >>> 17) = b
    generalize b ^^^ (b <<< 5) = state
    generalize (w.sequence + 1) &&& 15 = n
    dsimp only
    split
    · rfl
    · rfl
    · rw [beq_eq_decide]
      split
      · next htaken => rw [decide_eq_true htaken]; rfl
      · next htaken => rw [decide_eq_false htaken]; rfl
    · rfl
    · -- the last function is for all the targets that are left, and that is one
      have htarget : (n % 7).toNat = n.toNat % 7 := UInt32.toNat_mod n 7
      have hlt : n.toNat % 7 < 7 := Nat.mod_lt _ (by decide)
      rw [htarget]
      generalize n.toNat % 7 = target at hlt
      interval_cases target <;> rfl
  · rw [emitNext, Rpu.Workload.next, hstate, hsequence]
    exact ⟨rfl, rfl⟩

/-- **The R5 takes the actions of its model**, as many as it takes. -/
theorem emitNext_refines (n : ℕ) :
    (Generator.nth emitNext initial n).action =
      Generator.nth Rpu.Workload.next (Rpu.Workload.new 7) n :=
  Generator.nth_simulation (f := Call.action) (g := id) (R := Same) ⟨rfl, rfl⟩ emitNext_step n

end OrbtraceWorkload

/-- **The ports do what their models do**: the M3's stimulus writes are those of its model's
events, and the R5's actions are its model's, however long they run. -/
theorem ports_refine_models (n : ℕ) :
    (Generator.nth M3App.emitNext M3App.initial n).stimulus =
      (Generator.nth M3.Workload.next (M3.Workload.new 7) n).stimulus ∧
    (Generator.nth OrbtraceWorkload.emitNext OrbtraceWorkload.initial n).action =
      Generator.nth Rpu.Workload.next (Rpu.Workload.new 7) n :=
  ⟨M3App.emitNext_refines n, OrbtraceWorkload.emitNext_refines n⟩
