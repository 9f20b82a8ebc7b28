import Zub1cg.Rtl.AxiRegs.Writes
import Zub1cg.Rtl.DapEngine.Latency
import Zub1cg.System.Mailbox.Exchange

/-!
# A DAP exchange returns the reaction of the engine

The accesses of an exchange leave the error injection and the choice of the target alone, so the
engine reacts to the request as it would on its own. It has its response ready within a bounded
number of cycles, and each poll takes some of them: with enough polls the exchange ends with the
whole response, or because it does not fit the buffer.

## Main definitions

- `Board.Leads` — cycles that write no register but `DAP_COMMAND`
- `Board.Exchanging` — the board from the first cycle of an exchange on
- `Board.wait` — the cycles until the next response byte is held, at most

## Main results

- `Board.Exchanging.leads` — whatever the accesses are
- `Board.Answering.waitStatus_succeeds` — a poll loop that does not give up
- `dapExchange_reacts` — one call of `dap_exchange`
-/

namespace System

open AxiRegs (Configuration configuration)
open Pl (Bus)
open Packets (markLast Unfinished Finished)
open DapEngine (Reacting reaction drive level)
open Firmware (RegisterIo REG_DAP_STATUS REG_DAP_COMMAND REG_DAP_RESPONSE overwrite)
open Firmware.Controller (DapError waitStatus sendRequest receiveResponse)

/-- What the engine is told about the target by a configuration. -/
def targetFlags (c : Configuration) : DapEngine.Flags where
  forceWait := c.dapForceWait
  forceFault := c.dapForceFault
  forceParityError := c.dapForceParityError
  useRealTarget := c.m3DapReal

namespace Board

/-! ### Cycles that keep the configuration -/

/-- At this edge no register but `DAP_COMMAND` is written. -/
def Keeps (u : Bus) (b : Board) : Prop :=
  AxiRegs.writeFire (b.ports u) b.pl.regs = true →
    AxiRegs.writeAddress (b.ports u) b.pl.regs = Regs.DAP_COMMAND

theorem Silent.keeps {u : Bus} {b : Board} (h : b.Silent u) : b.Keeps u := by
  intro hfire
  rw [h.1] at hfire
  cases hfire

theorem Reads.keeps {address : BitVec 16} {word : BitVec 32} {u : Bus} {b : Board}
    (h : b.Reads address word u) : b.Keeps u := by
  intro hfire
  rw [h.2.2.2] at hfire
  cases hfire

theorem Writes.keeps {data : BitVec 32} {u : Bus} {b : Board}
    (h : b.Writes Regs.DAP_COMMAND data u) : b.Keeps u := fun _ => h.2.1

/-- A number of such cycles. -/
def Leads : Board → Board → Prop :=
  Relation.ReflTransGen fun b b' => ∃ u, b.Keeps u ∧ b' = b.tick u

theorem Leads.trans {b b' b'' : Board} (h : b.Leads b') (h' : b'.Leads b'') : b.Leads b'' :=
  Relation.ReflTransGen.trans h h'

theorem Waits.leads {b b' : Board} (h : b.Waits b') : b.Leads b' :=
  h.invariant (P := b.Leads) (fun u _ hu hb => Relation.ReflTransGen.tail hb ⟨u, hu.keeps, rfl⟩)
    Relation.ReflTransGen.refl

theorem Access.leads {Fires : Bus → Board → Prop} (hfires : ∀ u b, Fires u b → b.Keeps u)
    {b b' : Board} (h : Access Fires b b') : b.Leads b' := by
  obtain ⟨b₁, b₂, u, v, hbefore, hfire, hafter, hlast⟩ := h
  have hnow : b₁.Leads (b₁.tick u) := Relation.ReflTransGen.single ⟨u, hfires u b₁ hfire, rfl⟩
  have hend : b₂.Leads (b₂.tick v) := Relation.ReflTransGen.single ⟨v, hlast.keeps, rfl⟩
  exact ((hbefore.leads.trans hnow).trans hafter.leads).trans hend

theorem tick_configuration (u : Bus) (b : Board) :
    configuration (b.tick u).pl.regs =
      (AxiRegs.decoded (b.ports u) b.pl.regs).foldl Configuration.write
        (configuration b.pl.regs) :=
  AxiRegs.step_configuration rfl _

theorem Keeps.configuration {u : Bus} {b : Board} (h : b.Keeps u) :
    configuration (b.tick u).pl.regs = configuration b.pl.regs := by
  rw [tick_configuration, AxiRegs.decoded]
  split
  · next hfire =>
    rw [h hfire]
    rfl
  · rfl

theorem Leads.configuration {b b' : Board} (h : b.Leads b') :
    configuration b'.pl.regs = configuration b.pl.regs := by
  induction h with
  | refl => rfl
  | tail _ hlast ih =>
    obtain ⟨u, hkeeps, rfl⟩ := hlast
    exact hkeeps.configuration.trans ih

/-- What the engine is told about the target. -/
def flags (b : Board) : DapEngine.Flags := DapEngine.flags (Pl.dapInput (b.env b.cycle) b.pl)

theorem flags_eq (b : Board) : b.flags = targetFlags (configuration b.pl.regs) := rfl

theorem tick_flags {u : Bus} {b : Board} (h : b.Keeps u) : (b.tick u).flags = b.flags := by
  rw [flags_eq, flags_eq, h.configuration]

/-! ### The engine during an exchange -/

/-- The levels that TDO has had between two states of the board. -/
def tdoBetween (start b : Board) (tdo : Bool) : Prop :=
  ∃ n, start.cycle ≤ n ∧ n < b.cycle ∧ (start.env n).jtagTdo = tdo

/-- Since `start` the engine has taken bytes of `request` only, and reacts to it. -/
structure Exchanging (start : Board) (request : List UInt8) (b : Board) : Prop where
  env : b.env = start.env
  cycle : start.cycle ≤ b.cycle
  flags : b.flags = start.flags
  reacting : ∃ c r p, b.commands = start.commands ++ c ∧ b.responses = start.responses ++ r ∧
    Reacting start.pl.dap request start.flags (tdoBetween start b) c r p b.pl.dap

theorem Exchanging.tick {start : Board} {request : List UInt8} {b : Board} {u : Bus}
    (h : Exchanging start request b) (hu : b.Keeps u)
    (hfront : (b.tick u).commands <+: start.commands ++ markLast request) :
    Exchanging start request (b.tick u) := by
  obtain ⟨c, r, p, hcommands, hresponses, hreacting⟩ := h.reacting
  let i := Pl.dapInput (b.env b.cycle) b.pl
  have htaken : (b.tick u).commands = start.commands ++ (c ++ DapEngine.taken i b.pl.dap) := by
    change b.commands ++ Pl.commandByte (b.env b.cycle) b.pl = _
    rw [hcommands, List.append_assoc]
    rfl
  have hhanded : (b.tick u).responses =
      start.responses ++ (r ++ DapEngine.handedOver i b.pl.dap) := by
    change b.responses ++ Pl.responseByte (b.env b.cycle) b.pl = _
    rw [hresponses, List.append_assoc]
    rfl
  rw [htaken, List.prefix_append_right_inj] at hfront
  refine ⟨h.env, Nat.le_succ_of_le h.cycle, (tick_flags hu).trans h.flags, _, _, _, htaken, hhanded,
    hreacting.step rfl (fun _ => h.flags) ?_ ?_ hfront⟩
  · rintro tdo ⟨n, hstart, hn, htdo⟩
    exact ⟨n, hstart, Nat.lt_succ_of_lt hn, htdo⟩
  · exact ⟨b.cycle, h.cycle, Nat.lt_succ_self _, by rw [← h.env]; rfl⟩

/-- The bytes taken only become more. -/
theorem Leads.commands {b b' : Board} (h : b.Leads b') : b.commands <+: b'.commands := by
  induction h with
  | refl => exact List.prefix_rfl
  | tail _ hlast ih =>
    obtain ⟨u, -, rfl⟩ := hlast
    exact ih.trans (List.prefix_append _ _)

/-- **Whatever the accesses are**, the engine reacts to the request alone. -/
theorem Exchanging.leads {start : Board} {request : List UInt8} {b b' : Board}
    (h : Exchanging start request b) (hleads : b.Leads b')
    (hfront : b'.commands <+: start.commands ++ markLast request) :
    Exchanging start request b' := by
  induction hleads with
  | refl => exact h
  | tail hbefore hlast ih =>
    obtain ⟨u, hu, rfl⟩ := hlast
    exact (ih ((List.prefix_append _ _).trans hfront)).tick hu hfront

theorem exchanging_start {b : Board} (h : DapEngine.Idle b.pl.dap) {request : List UInt8}
    (hrequest : request ≠ []) : Exchanging b request b where
  env := rfl
  cycle := Nat.le_refl _
  flags := rfl
  reacting := ⟨[], [], [], (List.append_nil _).symm, (List.append_nil _).symm,
    h.reacting hrequest⟩

end Board

/-! ### What the accesses of an exchange keep -/

section

variable {Io : Type} [RegisterIo Io] {P : Io → Prop}
  (hread : ∀ offset io, P io → P (RegisterIo.read offset io).2)

include hread

theorem waitStatus_invariant (mask : UInt32) (budget : ℕ) {io : Io} (h : P io) :
    P (waitStatus mask budget io).2 := by
  induction budget generalizing io with
  | zero =>
    rw [waitStatus]
    dsimp only
    split <;> exact hread _ _ h
  | succ budget ih =>
    rw [waitStatus]
    dsimp only
    split
    · exact ih (hread _ _ h)
    · exact hread _ _ h

theorem receiveResponse_invariant (budget : UInt32) (room length : ℕ) (response : List UInt8)
    {io : Io} (h : P io) : P (receiveResponse budget room length response io).2.1 := by
  induction room generalizing length response io with
  | zero =>
    have hpolled := waitStatus_invariant hread 2 budget.toNat h
    rw [receiveResponse]
    generalize waitStatus 2 budget.toNat io = polled at hpolled
    obtain ⟨_ | _, io'⟩ := polled
    · exact hpolled
    · exact hread _ _ hpolled
  | succ room ih =>
    have hpolled := waitStatus_invariant hread 2 budget.toNat h
    rw [receiveResponse]
    generalize waitStatus 2 budget.toNat io = polled at hpolled
    obtain ⟨_ | _, io'⟩ := polled
    · exact hpolled
    · dsimp only
      split
      · exact hread _ _ hpolled
      · exact ih _ _ (hread _ _ hpolled)

variable (hwrite : ∀ value io, P io → P (RegisterIo.write REG_DAP_COMMAND value io))

include hwrite

theorem sendRequest_invariant (budget : UInt32) (request : List UInt8) {io : Io} (h : P io) :
    P (sendRequest budget request io).2 := by
  induction request generalizing io with
  | nil => exact h
  | cons byte rest ih =>
    have hpolled := waitStatus_invariant hread 1 budget.toNat h
    rw [sendRequest]
    generalize waitStatus 1 budget.toNat io = polled at hpolled
    obtain ⟨_ | _, io'⟩ := polled
    · exact hpolled
    · exact ih (hwrite _ _ hpolled)

/-- `dap_exchange` reads registers, and writes `DAP_COMMAND`. -/
theorem dapExchange_invariant (request response : List UInt8) (budget : UInt32) {io : Io}
    (h : P io) : P ((Firmware.Controller.mk io).dapExchange request response budget).2.1.io := by
  rw [Firmware.Controller.dapExchange]
  split
  · exact h
  · have hsent := sendRequest_invariant hread hwrite budget request h
    generalize sendRequest budget request io = sent at hsent
    obtain ⟨_ | _, io'⟩ := sent
    · exact hsent
    · exact receiveResponse_invariant hread budget response.length 0 response hsent

end

namespace Board

/-- The accesses of an exchange are cycles that keep the configuration. -/
theorem dapExchange_leads {b : Board} (hrest : b.AtRest) (request response : List UInt8)
    (budget : UInt32) :
    b.Leads ((Firmware.Controller.mk b).dapExchange request response budget).2.1.io := by
  refine (dapExchange_invariant (P := fun b' => b.Leads b' ∧ b'.AtRest) ?_ ?_ request response
    budget ⟨Relation.ReflTransGen.refl, hrest⟩).1
  · rintro offset b' ⟨hleads, hrest'⟩
    obtain ⟨haccess, hend⟩ := read_cycles hrest' (BitVec.ofNat 16 offset)
    exact ⟨hleads.trans (haccess.leads fun _ _ hu => hu.keeps), hend⟩
  · rintro value b' ⟨hleads, hrest'⟩
    obtain ⟨haccess, hend⟩ := write_cycles hrest' Regs.DAP_COMMAND value.toBitVec
    exact ⟨hleads.trans (haccess.leads fun _ _ hu => hu.keeps), hend⟩

/-! ### Waiting for the response -/

/-- The cycles until a response byte is held, at most. -/
def wait (b : Board) : ℕ :=
  if b.pl.regs.dapResponseHoldValid then 0 else DapEngine.latency b.pl.dap + 1

theorem wait_le (b : Board) : b.wait ≤ DapEngine.MAX_LATENCY + 1 := by
  rw [wait]
  split
  · exact Nat.zero_le _
  · exact Nat.succ_le_succ (DapEngine.latency_le _)

section

variable {c r taken : List (UInt8 × Bool)} {b : Board}

/-- An engine that has not handed over the byte marked last is at work or responding. -/
theorem Answering.busy (h : b.Answering c r taken) (hempty : b.pl.regs.dapResponseHoldValid = false) :
    b.pl.dap.state ≠ .CAPTURE := by
  intro hs
  have hrest := h.rest
  have hheld : b.held = [] := by rw [held, hempty]; rfl
  rw [if_pos hs, hheld, List.append_nil] at hrest
  exact hrest.not_unfinished h.unmarked

theorem Answering.tick_wait (h : b.Answering c r taken) {u : Bus} (hu : b.Undisturbed u) :
    (b.tick u).wait ≤ b.wait - 1 := by
  have hvalid := tick_responseValid u b
  rw [hu.2, Bool.not_false, Bool.and_true] at hvalid
  rw [wait, wait, hvalid]
  cases hfull : b.pl.regs.dapResponseHoldValid with
  | true => exact Nat.zero_le _
  | false =>
    rw [Bool.false_or]
    have hbusy := h.busy hfull
    by_cases hs : b.pl.dap.state = .RESPOND
    · rw [DapEngine.responseValid, hs]
      exact Nat.zero_le _
    · have hless : DapEngine.latency (b.tick u).pl.dap < DapEngine.latency b.pl.dap :=
        DapEngine.step_latency (i := Pl.dapInput (b.env b.cycle) b.pl) rfl hbusy hs
      split
      · exact Nat.zero_le _
      · rw [if_neg Bool.false_ne_true]
        omega

/-- A poll sees the byte, or two cycles of the wait are over. -/
theorem Answering.poll (h : b.Answering c r taken) (hrest : b.AtRest) {n : ℕ} (hn : b.wait ≤ n) :
    (RegisterIo.read REG_DAP_STATUS b).1 &&& 2 ≠ 0 ∨
      0 < n ∧ (RegisterIo.read REG_DAP_STATUS b).2.wait ≤ n - 2 := by
  obtain ⟨haccess, -⟩ := read_cycles hrest Regs.DAP_STATUS
  let Seen : Prop := UInt32.ofBitVec (b.read Regs.DAP_STATUS).1 &&& 2 ≠ 0
  refine (haccess.rule (P := fun b' => b'.Answering c r taken ∧ b'.wait ≤ n)
    (Q := fun b' => b'.Answering c r taken ∧ (Seen ∨ 0 < n ∧ b'.wait ≤ n - 1))
    (R := fun b' => b'.Answering c r taken ∧ (Seen ∨ 0 < n ∧ b'.wait ≤ n - 2))
    ?_ ?_ ?_ ?_ ⟨h, hn⟩).2
  · rintro u b' hu ⟨hb', hwait⟩
    have hless := hb'.tick_wait hu.undisturbed
    exact ⟨hb'.tick hu.undisturbed, by omega⟩
  · rintro u b' hu ⟨hb', hwait⟩
    have hundisturbed := hu.undisturbed (by decide)
    refine ⟨hb'.tick hundisturbed, ?_⟩
    cases hfull : b'.pl.regs.dapResponseHoldValid with
    | true =>
      left
      change UInt32.ofBitVec (b.read Regs.DAP_STATUS).1 &&& 2 ≠ 0
      rw [← hu.2.2.1]
      change UInt32.ofBitVec (statusWord b'.pl.regs.dapResponseHoldValid _) &&& 2 ≠ 0
      rw [ne_eq, statusWord_held, hfull]
      decide
    | false =>
      right
      have hpositive : 0 < b'.wait := by
        rw [wait, hfull]
        exact Nat.succ_pos _
      have hless := hb'.tick_wait hundisturbed
      omega
  · rintro u b' hu ⟨hb', hseen | ⟨hpositive, hwait⟩⟩
    · exact ⟨hb'.tick hu.undisturbed, .inl hseen⟩
    · have hless := hb'.tick_wait hu.undisturbed
      exact ⟨hb'.tick hu.undisturbed, .inr ⟨hpositive, by omega⟩⟩
  · rintro u b' hu ⟨hb', hseen | ⟨hpositive, hwait⟩⟩
    · exact ⟨hb'.tick hu.undisturbed, .inl hseen⟩
    · have hless := hb'.tick_wait hu.undisturbed
      exact ⟨hb'.tick hu.undisturbed, .inr ⟨hpositive, by omega⟩⟩

/-- **Enough polls find a response byte.** -/
theorem Answering.waitStatus_succeeds (budget : ℕ) (h : b.Answering c r taken) (hrest : b.AtRest)
    (hwait : b.wait ≤ 2 * budget) : (Firmware.Controller.waitStatus 2 budget b).1 = true := by
  induction budget generalizing b with
  | zero =>
    obtain hseen | ⟨hpositive, -⟩ := h.poll hrest hwait
    · rw [Firmware.Controller.waitStatus]
      dsimp only
      rw [if_neg hseen]
    · exact absurd hpositive (Nat.lt_irrefl 0)
  | succ budget ih =>
    obtain ⟨-, hanswering, hend⟩ := h.read_status hrest
    rw [Firmware.Controller.waitStatus]
    dsimp only
    split
    · next hnone =>
      obtain hseen | ⟨-, hless⟩ := h.poll hrest hwait
      · exact absurd hnone hseen
      · exact ih hanswering hend (by omega)
    · rfl

end

/-- The polls after which a response byte is always there. -/
def ENOUGH_POLLS : ℕ := DapEngine.MAX_LATENCY / 2 + 1

theorem wait_le_polls (b : Board) {budget : UInt32} (hbudget : ENOUGH_POLLS ≤ budget.toNat) :
    b.wait ≤ 2 * budget.toNat := by
  have hwait := b.wait_le
  rw [ENOUGH_POLLS, DapEngine.MAX_LATENCY] at hbudget
  rw [DapEngine.MAX_LATENCY] at hwait
  omega

/-- With enough polls the response is received, or one byte more of it than fits. -/
theorem receiveResponse_ends {budget : UInt32} (hbudget : ENOUGH_POLLS ≤ budget.toNat) (room : ℕ)
    {c r : List (UInt8 × Bool)} {b : Board} (written response : List UInt8)
    (h : b.Answering c r (written.map fun byte => (byte, false))) (hrest : b.AtRest) :
    let out := receiveResponse budget room written.length response b
    ∀ e, out.1 = .error e → e = .ResponseTooLarge ∧
      ∃ sent, out.2.1.responses = r ++ sent ∧ written.length + room < sent.length := by
  induction room generalizing b written response with
  | zero =>
    obtain ⟨hfull, hanswering, hend⟩ := h.waitStatus budget.toNat hrest
    have hsucceeds := h.waitStatus_succeeds budget.toNat hrest (b.wait_le_polls hbudget)
    rw [receiveResponse]
    generalize waitStatus 2 budget.toNat b = polled at hfull hanswering hend hsucceeds
    obtain ⟨_ | _, b'⟩ := polled
    · cases hsucceeds
    · obtain ⟨byte, last, -, -, hphase, -⟩ := hanswering.read_response hend (hfull rfl)
      dsimp only
      rintro e ⟨⟩
      have hresponses : ∃ more, (RegisterIo.read REG_DAP_RESPONSE b').2.responses =
          r ++ ((written.map fun byte => (byte, false)) ++ ((byte, last) :: more)) := by
        cases last with
        | true => exact ⟨[], hphase.responses⟩
        | false => exact ⟨_, by rw [hphase.responses, List.append_assoc]; rfl⟩
      obtain ⟨more, hmore⟩ := hresponses
      refine ⟨rfl, _, hmore, ?_⟩
      rw [List.length_append, List.length_map, List.length_cons]
      omega
  | succ room ih =>
    obtain ⟨hfull, hanswering, hend⟩ := h.waitStatus budget.toNat hrest
    have hsucceeds := h.waitStatus_succeeds budget.toNat hrest (b.wait_le_polls hbudget)
    rw [receiveResponse]
    generalize waitStatus 2 budget.toNat b = polled at hfull hanswering hend hsucceeds
    obtain ⟨_ | _, b'⟩ := polled
    · cases hsucceeds
    · obtain ⟨byte, last, hbyte, hflag, hphase, hend'⟩ :=
        hanswering.read_response hend (hfull rfl)
      dsimp only
      split
      · rintro e ⟨⟩
      · next hclear =>
        have hlast : last = false := hflag.mp (not_not.mp hclear)
        rw [hlast, if_neg Bool.false_ne_true] at hphase
        have hnext := ih (written ++ [byte])
          (response.set written.length (RegisterIo.read REG_DAP_RESPONSE b').1.toUInt8)
          (by rw [List.map_append]; exact hphase) hend'
        rw [List.length_append, List.length_singleton, Nat.add_assoc, Nat.add_comm 1] at hnext
        exact hnext

end Board

/-- The cycles of an exchange take time. -/
theorem Board.Leads.cycle {b b' : Board} (h : b.Leads b') : b = b' ∨ b.cycle < b'.cycle := by
  induction h with
  | refl => exact .inl rfl
  | tail _ hlast ih =>
    obtain ⟨u, -, rfl⟩ := hlast
    obtain rfl | hless := ih
    · exact .inr (Nat.lt_succ_self _)
    · exact .inr (Nat.lt_succ_of_lt hless)

section

variable {b : Board} (hidle : Idle b) {request : List UInt8} (hpos : 1 ≤ request.length)
  (hlen : request.length ≤ Firmware.MAX_DAP_PACKET)

include hidle hpos hlen

/-- With enough polls an exchange fails only if the response does not fit. -/
theorem dapExchange_ends {budget : UInt32} (hbudget : Board.ENOUGH_POLLS ≤ budget.toNat)
    (response : List UInt8) :
    let out := (Firmware.Controller.mk b).dapExchange request response budget
    ∀ e, out.1 = .error e → e = .ResponseTooLarge ∧
      ∃ sent, out.2.1.io.responses = b.responses ++ sent ∧ response.length < sent.length := by
  have hne : request ≠ [] := List.ne_nil_of_length_pos hpos
  have hwaiting : b.Waiting 0 b.commands b.responses :=
    ⟨hidle.state, hidle.pos, hidle.command, hidle.response, rfl, rfl⟩
  obtain ⟨b', hsend, hanswering, hrest⟩ := Board.sendRequest_mailbox budget request hne
    (k := 0) (by rw [Nat.zero_add]; exact hlen) hwaiting hidle.bus
  have hends := Board.receiveResponse_ends hbudget response.length [] response hanswering hrest
  rw [List.length_nil, Nat.zero_add] at hends
  rw [Firmware.Controller.dapExchange, List.isEmpty_eq_false_iff.mpr hne, if_neg Bool.false_ne_true,
    hsend]
  exact hends

/-- An exchange takes the request, and no other register is written. -/
theorem dapExchange_exchanging (response : List UInt8) (budget : UInt32) :
    let after := ((Firmware.Controller.mk b).dapExchange request response budget).2.1.io
    Board.Exchanging b request after ∧ after.commands = b.commands ++ markLast request ∧
      ∃ tdo, Board.tdoBetween b after tdo := by
  have hne : request ≠ [] := List.ne_nil_of_length_pos hpos
  obtain ⟨-, hphase⟩ := dapExchange_mailbox b hidle request response hpos hlen budget
  have hleads := Board.dapExchange_leads hidle.bus request response budget
  generalize (Firmware.Controller.mk b).dapExchange request response budget = out at hphase hleads
  obtain ⟨result, after, buffer⟩ := out
  have hcommands : after.io.commands = b.commands ++ markLast request := by
    cases result with
    | error e =>
      obtain ⟨taken, hanswering⟩ | ⟨packet, -, hwaiting⟩ := hphase
      · exact hanswering.commands
      · exact hwaiting.commands
    | ok n => exact hphase.2.2.commands
  refine ⟨(Board.exchanging_start ⟨hidle.state, hidle.pos⟩ hne).leads hleads
    (hcommands ▸ List.prefix_rfl), hcommands, (b.env b.cycle).jtagTdo, b.cycle, Nat.le_refl _, ?_,
    rfl⟩
  obtain hsame | hless := hleads.cycle
  · -- the request is not empty
    have hnone : markLast request = [] := by
      have hgrown := hcommands
      rw [← hsame] at hgrown
      exact List.self_eq_append_right.mp hgrown
    have hlength := Packets.markLast_length request
    rw [hnone, List.length_nil] at hlength
    omega
  · exact hless

/-- The engine reacts to the request of a call, and the call returns its response. -/
theorem dapExchange_reacts {budget : UInt32} (hbudget : Board.ENOUGH_POLLS ≤ budget.toNat)
    (response : List UInt8) :
    let out := (Firmware.Controller.mk b).dapExchange request response budget
    let after := out.2.1.io
    ∃ tdo, Board.tdoBetween b after tdo ∧
      let o := reaction b.pl.dap request b.flags tdo
      if o.reply.length ≤ response.length then
        (∃ rest, out.2.2 = o.reply ++ rest) ∧ out.1 = .ok o.reply.length ∧ Idle after ∧
          after.flags = b.flags ∧ after.pl.dap.transferCount = o.transferCount ∧
          after.pl.dap.abortCount = o.abortCount ∧
          level after.pl.dap = drive (level b.pl.dap) o.pins
      else out.1 = .error .ResponseTooLarge := by
  obtain ⟨hrest, hphase⟩ := dapExchange_mailbox b hidle request response hpos hlen budget
  obtain ⟨hexchanging, hcommands, hsome⟩ := dapExchange_exchanging hidle hpos hlen response budget
  have hends := dapExchange_ends hidle hpos hlen hbudget response
  obtain ⟨result, bytes, c, -, hwrites⟩ := Firmware.Controller.dapExchange_writes
    (Firmware.Controller.mk b) request response.length budget
  have hbytes := hwrites response rfl
  generalize (Firmware.Controller.mk b).dapExchange request response budget = out
    at hrest hphase hexchanging hcommands hsome hends hbytes
  obtain ⟨outcome, ⟨after⟩, buffer⟩ := out
  dsimp only at hrest hphase hexchanging hcommands hsome hends ⊢
  obtain ⟨c', r, p, hc, hr, hreacting⟩ := hexchanging.reacting
  have hwhole : c' = markLast request := by
    rw [hcommands] at hc
    exact (List.append_cancel_left hc).symm
  rw [hwhole] at hreacting
  cases outcome with
  | error e =>
    obtain ⟨rfl, sent, hsent, hmore⟩ := hends e rfl
    obtain ⟨tdo, htdo, hlength⟩ := hreacting.length_le hsome
    refine ⟨tdo, htdo, ?_⟩
    have hsame : r = sent := by
      rw [hsent] at hr
      exact (List.append_cancel_left hr).symm
    rw [hsame] at hlength
    rw [if_neg (by omega)]
  | ok n =>
    obtain ⟨hn0, hn1, hwaiting⟩ := hphase
    obtain ⟨tdo, htdo, hreply, hdone, hlevel⟩ := hreacting.over hsome hwaiting.state
    have hresponses := hwaiting.responses
    rw [hr] at hresponses
    have htake : buffer.take n = (reaction b.pl.dap request b.flags tdo).reply := by
      have hmarked := hreply.symm.trans (List.append_cancel_left hresponses)
      have hfst := congrArg (List.map Prod.fst) hmarked
      rw [Packets.markLast_map_fst, Packets.markLast_map_fst] at hfst
      exact hfst.symm
    cases result with
    | error e => cases hbytes
    | ok _ =>
      simp only [Except.map, Prod.mk.injEq, Except.ok.injEq] at hbytes
      obtain ⟨rfl, -, rfl⟩ := hbytes
      rw [Firmware.overwrite, List.take_left] at htake
      refine ⟨tdo, htdo, ?_⟩
      rw [← htake, if_pos hn1]
      exact ⟨⟨_, rfl⟩, rfl,
        ⟨hwaiting.state, hwaiting.pos, hwaiting.command, hwaiting.response, hrest⟩,
        hexchanging.flags, hdone.counts.1, hdone.counts.2, hlevel⟩

end

end System
