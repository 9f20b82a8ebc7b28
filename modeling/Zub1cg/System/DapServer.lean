import Zub1cg.Firmware.Service.Fragmentation
import Zub1cg.System.Mailbox.Answer
import Zub1cg.System.Mailbox.Recovery

/-!
# The CMSIS-DAP server on the board

From the bytes a client sends to TCP 3240 to the bytes it gets back: the pump and the frame
decoder, the controller's polls, the register block and the packet engine. However the requests are
cut into fragments and whatever the bus and the surroundings do, the client sees what the
reference sees.

## Main definitions

- `DapEngine.Conforming` — the requests that the engine and the reference answer alike
- `SyntheticDap.executeAll` — the reference on a sequence of requests
- `Ready` — the board between two requests, and the reference there

## Main results

- `exchanges_answer` — a run of calls, for any target
- `dap_server_refines` — a connection, without a target
-/

/-! ### The reference -/

namespace Model.SyntheticDap

/-- The requests one after the other. -/
def executeAll : List (List UInt8) → SyntheticDap →
    List (Except ProtocolError (List UInt8)) × SyntheticDap
  | [], d => ([], d)
  | request :: rest, d =>
    let (reply, d) := d.execute request
    let (replies, d) := executeAll rest d
    (reply :: replies, d)

/-- The loop counts transfers from wherever it starts. -/
theorem transferLoop_shift (request : List UInt8) (count : ℕ) (l : TransferLoop) (k : UInt64) :
    transferLoop request count { l with transfers := k + l.transfers } =
      ((transferLoop request count l).1, k + (transferLoop request count l).2) := by
  induction count generalizing l with
  | zero => rfl
  | succ count ih =>
    rw [transferLoop, transferLoop]
    dsimp only
    cases request[l.requestPos]? with
    | none => rfl
    | some transfer =>
      dsimp only
      rw [UInt64.add_assoc]
      split
      · exact ih { l with
          requestPos := l.requestPos + 1
          transfers := l.transfers + 1
          out := l.out ++ u32ToLe (0xa5a50000 ||| transfer.toUInt32)
          completed := l.completed + 1 }
      · split
        · exact ih { l with
            requestPos := l.requestPos + 1 + 4
            transfers := l.transfers + 1
            completed := l.completed + 1 }
        · rfl

/-- A transfer adds a word at most. -/
theorem transferLoop_length_le (request : List UInt8) (count : ℕ) (l : TransferLoop) :
    (transferLoop request count l).1.length ≤ l.out.length + 4 * count := by
  have hcut : l.cutShort.length = l.out.length := by
    rw [TransferLoop.cutShort, List.length_set, List.length_set]
  induction count generalizing l with
  | zero => exact Nat.le_of_eq List.length_set
  | succ count ih =>
    rw [transferLoop]
    cases request[l.requestPos]? with
    | none =>
      change l.cutShort.length ≤ _
      omega
    | some transfer =>
      dsimp only
      split
      · refine (ih _ (by rw [TransferLoop.cutShort, List.length_set, List.length_set])).trans ?_
        rw [List.length_append, u32ToLe_length]
        omega
      · split
        · refine (ih _ (by rw [TransferLoop.cutShort, List.length_set, List.length_set])).trans ?_
          dsimp only
          omega
        · change l.cutShort.length ≤ _
          omega

end Model.SyntheticDap

namespace DapEngine

open Model (SyntheticDap)
open Model.SyntheticDap (transferLoop)

/-- The longest response: the header and a word for each transfer. -/
def MAX_REPLY : ℕ := 3 + 4 * MAX_TRANSFERS

theorem headerReply_length_le (length : ℕ) (command argument data : UInt8) :
    (headerReply length command argument data).length ≤ MAX_REPLY := by
  rw [headerReply]
  split
  · split <;> exact show _ ≤ 131 by simp [SyntheticDap.ORBCODE]
  all_goals exact show _ ≤ 131 by simp

theorem reply_length_le (s₀ : State) (request : List UInt8) (f : Flags) (tdo : Bool) :
    (reaction s₀ request f tdo).reply.length ≤ MAX_REPLY := by
  rw [reaction]
  split
  · split
    · exact show 3 ≤ 131 by decide
    · next hrefused =>
      have hcount : (byteAt request 2).toNat ≤ MAX_TRANSFERS := by
        rw [Bool.not_eq_true, refused, malformed, Bool.or_eq_false_iff, Bool.or_eq_false_iff,
          Bool.or_eq_false_iff, decide_eq_false_iff_not, decide_eq_false_iff_not] at hrefused
        exact Nat.le_of_not_lt hrefused.1.1.2
      refine (SyntheticDap.transferLoop_length_le _ _ _).trans ?_
      change 3 + 4 * _ ≤ 3 + 4 * MAX_TRANSFERS
      omega
  · split
    · exact show 3 ≤ 131 by decide
    · exact headerReply_length_le _ _ _ _

/-- The requests that the engine answers like the reference. -/
structure Conforming (request : List UInt8) : Prop where
  nonempty : request ≠ []
  fits : request.length ≤ MAX_PACKET
  transfer : byteAt request 0 = 0x05 →
    3 ≤ request.length ∧ ((byteAt request 2).toNat ≤ MAX_TRANSFERS ∨ request.length = 3)
  plain : ¬ Differs request

/-- No error is injected into the reference. -/
structure Sane (d : SyntheticDap) : Prop where
  waitOnce : d.waitOnce = false
  faultOnce : d.faultOnce = false
  parityErrorOnce : d.parityErrorOnce = false

/-- The reference finds no transfer where the engine refuses to look for so many. -/
theorem transferLoop_none {request : List UInt8} (hcount : 0 < (byteAt request 2).toNat)
    (hlength : request.length = 3) (first : UInt64) :
    transferLoop request (byteAt request 2).toNat (firstLoop false first) =
      ([0x05, 0, 0x04], first) := by
  obtain ⟨count, hcount⟩ := Nat.exists_eq_add_of_lt hcount
  have hend : request[(firstLoop false first).requestPos]? = none :=
    List.getElem?_eq_none hlength.le
  rw [hcount, Nat.zero_add, transferLoop, hend]
  rfl

/-- The reference answers there as the engine refuses. -/
theorem Sane.execute_none {request : List UInt8} {d : SyntheticDap} (hd : Sane d)
    (hcommand : byteAt request 0 = 0x05) (hmany : MAX_TRANSFERS < (byteAt request 2).toNat)
    (hlength : request.length = 3) (s₀ : State) (tdo : Bool) :
    reaction s₀ request noFlags tdo = refusal s₀ request noFlags ∧
      d.execute request =
        (.ok (refusal s₀ request noFlags).reply, { d with parityErrorOnce := false }) := by
  have hmalformed : malformed request = true := by
    rw [malformed, decide_eq_true hmany, Bool.or_true]
  have hexecute := execute_transfer hcommand hlength.ge (hlength.le.trans (by decide)) hd.waitOnce
    hd.faultOnce
  rw [hd.parityErrorOnce, transferLoop_none (Nat.zero_lt_of_lt hmany) hlength] at hexecute
  refine ⟨?_, hexecute.trans ?_⟩
  · rw [reaction, if_pos hcommand, refused, hmalformed, Bool.true_or, Bool.true_or, if_pos rfl]
  · rw [refusal, if_pos hmalformed]

/-- **The reference executes a conforming request as the engine reacts to it**, and counts the
same. -/
theorem Conforming.execute {request : List UInt8} (h : Conforming request) {d : SyntheticDap}
    (hd : Sane d) {s₀ : State} (htransfers : s₀.transferCount = d.transfers.toBitVec)
    (haborts : s₀.abortCount = d.aborts.toBitVec) (tdo : Bool) :
    ∃ d', d.execute request = (.ok (reaction s₀ request noFlags tdo).reply, d') ∧ Sane d' ∧
      (reaction s₀ request noFlags tdo).transferCount = d'.transfers.toBitVec ∧
      (reaction s₀ request noFlags tdo).abortCount = d'.aborts.toBitVec := by
  by_cases hcommand : byteAt request 0 = 0x05
  · obtain ⟨hlength, hcount⟩ := h.transfer hcommand
    by_cases hmany : MAX_TRANSFERS < (byteAt request 2).toNat
    · obtain ⟨hreaction, hexecute⟩ :=
        hd.execute_none hcommand hmany (hcount.resolve_left (Nat.not_le.mpr hmany)) s₀ tdo
      rw [hreaction]
      exact ⟨_, hexecute, ⟨hd.waitOnce, hd.faultOnce, rfl⟩, htransfers, haborts⟩
    have haccepted : refused request noFlags = false := by
      rw [refused, malformed, Bool.or_eq_false_iff, Bool.or_eq_false_iff, Bool.or_eq_false_iff,
        decide_eq_false_iff_not, decide_eq_false_iff_not]
      exact ⟨⟨⟨Nat.not_lt.mpr hlength, hmany⟩, rfl⟩, rfl⟩
    have hshift := SyntheticDap.transferLoop_shift request (byteAt request 2).toNat
      (firstLoop false 0) d.transfers
    have hfirst :
        { firstLoop false 0 with transfers := d.transfers + (firstLoop false 0).transfers } =
          firstLoop false d.transfers := by
      rw [firstLoop, UInt64.add_zero]
      rfl
    rw [hfirst] at hshift
    have hexecute := execute_transfer hcommand hlength h.fits hd.waitOnce hd.faultOnce
    rw [hd.parityErrorOnce, hshift] at hexecute
    rw [reaction, if_pos hcommand, haccepted, if_neg Bool.false_ne_true]
    refine ⟨_, hexecute, ⟨hd.waitOnce, hd.faultOnce, rfl⟩, ?_, haborts⟩
    change s₀.transferCount + (_ - 0 : UInt64).toBitVec = (d.transfers + _).toBitVec
    rw [UInt64.sub_zero, UInt64.toBitVec_add, htransfers]
    rfl
  · rw [reaction, if_neg hcommand, if_neg fun hclock => Bool.false_ne_true hclock.2]
    have hexecute := execute_plain d h.nonempty h.fits hcommand
    rw [(replies_equal_iff hcommand).mpr h.plain] at hexecute
    refine ⟨_, hexecute, ⟨hd.waitOnce, hd.faultOnce, hd.parityErrorOnce⟩, htransfers, ?_⟩
    change (if _ then s₀.abortCount + 1 else s₀.abortCount) = _
    rw [haborts]
    split <;> rfl

end DapEngine

namespace System

open DapEngine (Conforming Sane reaction drive level noFlags)
open Firmware (Handler service dapService dapHandler DapThread serveConnection serveDap)
open Firmware.FrameDecoder (framed)
open Framing (Session)
open Model (SyntheticDap)
open Model.SyntheticDap (executeAll)

/-! ### A run of calls -/

/-- A call with enough polls, and with room for every response. -/
structure DapCall.Fits (call : DapCall) : Prop where
  request : 1 ≤ call.request.length
  packet : call.request.length ≤ Firmware.MAX_DAP_PACKET
  room : DapEngine.MAX_REPLY ≤ call.response.length
  polls : Board.ENOUGH_POLLS ≤ call.pollBudget.toNat

/-- What the call returned is the reaction to its request, to which the engine was left. `tdo` is
a level of TDO during the call. -/
def Exchange.Reacts (x : Exchange) (f : DapEngine.Flags) : Prop :=
  ∃ tdo, Board.tdoBetween x.before x.after tdo ∧
    let o := reaction x.before.pl.dap x.call.request f tdo
    x.result = .ok o.reply.length ∧ (∃ rest, x.response = o.reply ++ rest) ∧
      x.after.pl.dap.transferCount = o.transferCount ∧ x.after.pl.dap.abortCount = o.abortCount ∧
      level x.after.pl.dap = drive (level x.before.pl.dap) o.pins

/-- A call that fits from an idle mailbox. -/
theorem exchange_reacts {b : Board} (h : Idle b) {call : DapCall} (hcall : call.Fits) :
    (exchange call b).Reacts b.flags ∧ Idle (exchange call b).after ∧
      (exchange call b).after.flags = b.flags := by
  obtain ⟨tdo, htdo, hreacts⟩ :=
    dapExchange_reacts h hcall.request hcall.packet hcall.polls call.response
  have hroom := (DapEngine.reply_length_le b.pl.dap call.request b.flags tdo).trans hcall.room
  rw [if_pos hroom] at hreacts
  obtain ⟨hresponse, hresult, hidle, hflags, htransfers, haborts, hlevel⟩ := hreacts
  exact ⟨⟨tdo, htdo, hresult, hresponse, htransfers, haborts, hlevel⟩, hidle, hflags⟩

/-- **A run of calls.** Whatever the surroundings do and whenever the accesses come, every call
returns the whole reaction of the engine to its request. -/
theorem exchanges_answer {b : Board} (h : Idle b) (calls : List DapCall)
    (hcalls : ∀ call ∈ calls, call.Fits) :
    (exchanges calls b).length = calls.length ∧
      ∀ x ∈ exchanges calls b, Idle x.before ∧ x.before.flags = b.flags ∧ x.Reacts b.flags := by
  have hall : ∀ (b : Board), Idle b → ∀ f, b.flags = f →
      ∀ x ∈ exchanges calls b, Idle x.before ∧ x.before.flags = f ∧ x.Reacts f := by
    induction calls with
    | nil => exact fun b _ f _ x hx => absurd hx List.not_mem_nil
    | cons call calls ih =>
      rintro b hidle f rfl x hx
      obtain ⟨hreacts, hidle', hflags⟩ := exchange_reacts hidle (hcalls call List.mem_cons_self)
      obtain rfl | hx := List.mem_cons.mp hx
      · exact ⟨hidle, rfl, hreacts⟩
      · exact ih (fun call hcall => hcalls call (List.mem_cons_of_mem _ hcall)) _ hidle' _ hflags x
          hx
  refine ⟨?_, hall b h b.flags rfl⟩
  clear hall hcalls h
  induction calls generalizing b with
  | nil => rfl
  | cons call calls ih => exact congrArg (· + 1) ih

/-- A `DAP_Info` request with a response buffer of the size the server has. -/
theorem exchanges_answer_info :
    (exchange ⟨[0x00, 0x01], List.replicate 1024 0, 1000⟩ bootBoard).Reacts noFlags := by
  have hfits : ∀ call ∈ [(⟨[0x00, 0x01], List.replicate 1024 0, 1000⟩ : DapCall)], call.Fits := by
    intro call hcall
    obtain rfl := List.mem_singleton.mp hcall
    refine ⟨by decide, by decide, ?_, by decide⟩
    rw [List.length_replicate]
    decide
  have hanswer := exchanges_answer (settled_reset bootBoard.env bootBoard.timing).idle _ hfits
  exact (hanswer.2 _ List.mem_cons_self).2.2

/-! ### A connection -/

/-- The mailbox is idle, no error is injected, there is no target, and the engine has counted as
much as the reference. -/
structure Ready (d : SyntheticDap) (b : Board) : Prop where
  idle : Idle b
  flags : b.flags = noFlags
  sane : Sane d
  transfers : b.pl.dap.transferCount = d.transfers.toBitVec
  aborts : b.pl.dap.abortCount = d.aborts.toBitVec

/-- Out of reset, with arbitrary surroundings and timing. -/
theorem ready_reset (env : ℕ → Pl.Env) (timing : ℕ → AccessTiming) :
    Ready SyntheticDap.default (resetBoard env timing) where
  idle := (settled_reset env timing).idle
  flags := rfl
  sane := ⟨rfl, rfl, rfl⟩
  transfers := rfl
  aborts := rfl

/-- One conforming request to the server's handler. -/
theorem Ready.handle {d : SyntheticDap} {b : Board} (h : Ready d b) {request : List UInt8}
    (hconf : Conforming request) :
    ∃ reply d' b', d.execute request = (.ok reply, d') ∧ Ready d' b' ∧
      (dapService Firmware.DAP_POLL_BUDGET).answer request ⟨b⟩ = (some (framed reply), ⟨b'⟩) := by
  let body := List.replicate (Firmware.DAP_RESPONSE_CAP - 4) (0 : UInt8)
  obtain ⟨tdo, -, hreacts⟩ := dapExchange_reacts h.idle (List.length_pos_of_ne_nil hconf.nonempty)
    hconf.fits (show Board.ENOUGH_POLLS ≤ Firmware.DAP_POLL_BUDGET.toNat by decide) body
  rw [h.flags] at hreacts
  have hroom : (reaction b.pl.dap request noFlags tdo).reply.length ≤ body.length := by
    refine (DapEngine.reply_length_le _ _ _ _).trans ?_
    rw [List.length_replicate]
    decide
  rw [if_pos hroom] at hreacts
  obtain ⟨⟨rest, hresponse⟩, hresult, hidle, hflags, htransfers, haborts, -⟩ := hreacts
  obtain ⟨d', hexecute, hsane, htransfers', haborts'⟩ :=
    hconf.execute h.sane h.transfers h.aborts tdo
  have hanswer : (dapHandler Firmware.DAP_POLL_BUDGET : Handler Board) request ⟨b⟩ body =
      (.ok (reaction b.pl.dap request noFlags tdo).reply.length,
        ((Firmware.Controller.mk b).dapExchange request body Firmware.DAP_POLL_BUDGET).2.1,
        Firmware.overwrite (reaction b.pl.dap request noFlags tdo).reply
          ((reaction b.pl.dap request noFlags tdo).reply ++ rest)) := by
    have hout : (Firmware.Controller.mk b).dapExchange request body Firmware.DAP_POLL_BUDGET =
        (.ok (reaction b.pl.dap request noFlags tdo).reply.length,
          ((Firmware.Controller.mk b).dapExchange request body Firmware.DAP_POLL_BUDGET).2.1,
          (reaction b.pl.dap request noFlags tdo).reply ++ rest) :=
      Prod.ext hresult (Prod.ext rfl hresponse)
    rw [dapHandler, hout, Firmware.overwrite, List.drop_left]
    rfl
  refine ⟨_, d', _, hexecute, ⟨hidle, hflags, hsane, ?_, ?_⟩, Handler.answer_of_ok hanswer⟩
  · exact htransfers.trans htransfers'
  · exact haborts.trans haborts'

section

variable {Io : Type} {N room : ℕ} {handle : Handler Io}

/-- A frame that is answered, in an idle session. -/
theorem session_answered {request : List UInt8} (hsize : request.length ≤ N) (hN : N < 2 ^ 32)
    {x : Session UInt8 (Firmware.Controller Io)} (hx : x.pending = []) {reply : List UInt8}
    {c : Firmware.Controller Io}
    (hanswer : (service N handle room).answer request x.world = (some reply, c)) :
    (service N handle room).repliesOf (framed request) x = [reply] ∧
      (service N handle room).after (framed request) x = ⟨[], c⟩ ∧
      ∀ i, ¬ (service N handle room).RefusedAt (framed request) x i := by
  obtain ⟨bytes, b, hsplit, -⟩ := Firmware.framed_split request
  have hframe : (service N handle room).Quiet bytes x ∧
      (service N handle room).step b ((service N handle room).after bytes x) =
        (service N handle room).conclude request x.world := by
    refine (service N handle room).frame_step (fun k _ hk => ?_) ?_
    · rw [hx, List.nil_append]
      have hlt : k < (framed request).length := by
        rw [hsplit, List.length_append, List.length_singleton]
        omega
      have hmore := Firmware.FrameDecoder.judge_take_framed hsize hN hlt
      rwa [hsplit, List.take_append_of_le_length hk] at hmore
    · rw [hx, List.nil_append, ← hsplit]
      exact Firmware.FrameDecoder.judge_framed hsize hN
  obtain ⟨hquiet, hstep⟩ := hframe
  rw [(service N handle room).conclude_answered hanswer] at hstep
  refine ⟨?_, ?_, ?_⟩
  · rw [hsplit, Framing.Service.repliesOf_append, Framing.Service.repliesOf_quiet _ hquiet,
      Framing.Service.repliesOf, Framing.Service.outcomes, hstep]
    rfl
  · rw [hsplit, Framing.Service.after_append, Framing.Service.after_cons, hstep]
    rfl
  · intro i hi
    rw [hsplit, Framing.Service.refusedAt_append] at hi
    rcases hi with hi | ⟨j, -, hi⟩
    · exact (service N handle room).not_refusedAt_quiet hquiet hi
    · rw [Framing.Service.refusedAt_singleton, hstep] at hi
      exact absurd hi.2 Bool.false_ne_true

end

/-- Feeding conforming requests to an idle session, byte by byte. -/
theorem session_conforming {d : SyntheticDap} {b : Board} (h : Ready d b)
    {requests : List (List UInt8)} (hconf : ∀ request ∈ requests, Conforming request) :
    ∃ (replies : List (List UInt8)) (d' : SyntheticDap) (b' : Board),
      executeAll requests d = (replies.map .ok, d') ∧ Ready d' b' ∧
      (dapService Firmware.DAP_POLL_BUDGET).repliesOf (requests.flatMap framed) ⟨[], ⟨b⟩⟩ =
        replies.map framed ∧
      (dapService Firmware.DAP_POLL_BUDGET).after (requests.flatMap framed) ⟨[], ⟨b⟩⟩ = ⟨[], ⟨b'⟩⟩ ∧
      ∀ i, ¬ (dapService Firmware.DAP_POLL_BUDGET).RefusedAt (requests.flatMap framed)
        (⟨[], ⟨b⟩⟩ : Session UInt8 (Firmware.Controller Board)) i := by
  induction requests generalizing d b with
  | nil =>
    refine ⟨[], d, b, rfl, h, rfl, rfl, fun i hi => ?_⟩
    exact absurd hi (Framing.Service.not_refusedAt_quiet _ (fun o ho => absurd ho List.not_mem_nil))
  | cons request rest ih =>
    have hrequest := hconf request List.mem_cons_self
    obtain ⟨reply, d₁, b₁, hexecute, hready, hanswer⟩ := h.handle hrequest
    obtain ⟨hreplies, hafter, hnone⟩ :
        (dapService Firmware.DAP_POLL_BUDGET).repliesOf (framed request) ⟨[], ⟨b⟩⟩ =
            [framed reply] ∧
          (dapService Firmware.DAP_POLL_BUDGET).after (framed request) ⟨[], ⟨b⟩⟩ = ⟨[], ⟨b₁⟩⟩ ∧
          ∀ i, ¬ (dapService Firmware.DAP_POLL_BUDGET).RefusedAt (framed request)
            (⟨[], ⟨b⟩⟩ : Session UInt8 (Firmware.Controller Board)) i :=
      session_answered hrequest.fits (by decide) rfl hanswer
    obtain ⟨replies, d', b', hlater, hready', hreplies', hafter', hnone'⟩ :=
      ih hready fun request hmem => hconf request (List.mem_cons_of_mem _ hmem)
    refine ⟨reply :: replies, d', b', ?_, hready', ?_, ?_, fun i hi => ?_⟩
    · rw [executeAll, hexecute]
      dsimp only
      rw [hlater]
      rfl
    · rw [List.flatMap_cons, Framing.Service.repliesOf_append, hreplies, hafter, hreplies']
      rfl
    · rw [List.flatMap_cons, Framing.Service.after_append, hafter, hafter']
    · rw [List.flatMap_cons, Framing.Service.refusedAt_append, hafter] at hi
      obtain hi | ⟨j, -, hi⟩ := hi
      · exact hnone i hi
      · exact hnone' _ hi

/-- **The DAP server refines the reference.** The bytes of a connection are the frames of conforming
requests, cut into packets and fragments in any way. Whatever the surroundings of the PL do and
whenever the accesses to it come, the server pushes every byte once and sends the frames of the
reference's responses, and the board is then ready for the next connection. -/
theorem dap_server_refines {d : SyntheticDap} {t : DapThread Board} (h : Ready d t.controller.io)
    (hidle : t.connection.decoder.Holds []) {requests : List (List UInt8)}
    (hconf : ∀ request ∈ requests, Conforming request) {packets : List (List (List UInt8))}
    (hpackets : packets.flatten.flatten = requests.flatMap framed) :
    let served := serveConnection serveDap packets t
    ∃ (replies : List (List UInt8)) (d' : SyntheticDap),
      executeAll requests d = (replies.map .ok, d') ∧
      Framing.replies served.1 = replies.map framed ∧
      Framing.pushed served.1 = requests.flatMap framed ∧
      Ready d' served.2.controller.io ∧ served.2.connection.decoder.Holds [] := by
  obtain ⟨replies, d', b', hexecute, hready, hreplies, hafter, hnone⟩ := session_conforming h hconf
  obtain ⟨hcalls, hholds, hworld⟩ :=
    Firmware.serveDap_refines packets (t := t) (x := ⟨[], t.controller⟩) ⟨hidle, rfl⟩
  have hcut : ∀ i, (dapService Firmware.DAP_POLL_BUDGET).RefusedAt packets.flatten.flatten
      (⟨[], t.controller⟩ : Session UInt8 (Firmware.Controller Board)) i →
      Framing.Service.FragmentAt packets.flatten i := by
    intro i hi
    rw [hpackets] at hi
    exact absurd hi (hnone i)
  have hexact := (dapService Firmware.DAP_POLL_BUDGET).pumpAll_exact_of_fragmentAt hcut
  have hsession : _ = (⟨[], ⟨b'⟩⟩ : Session UInt8 (Firmware.Controller Board)) :=
    (hexact.session.trans (by rw [hpackets])).trans hafter
  rw [hpackets] at hexact
  refine ⟨replies, d', hexecute, ?_, ?_, ?_, ?_⟩
  · rw [hcalls, hexact.replies]
    exact hreplies
  · rw [hcalls, hexact.pushed]
  · rw [hworld, hsession]
    exact hready
  · rw [hsession] at hholds
    exact hholds

/-- A `DAP_Connect`, a `DAP_Transfer` of a read and a write, and one of too many without any, in two
packets of two fragments. -/
theorem dap_server_refines_connect :
    Framing.replies (serveConnection serveDap [[[2, 0, 0], [0, 2]], [[1, 9, 0, 0, 0, 5, 0, 2],
        [2, 0, 1, 2, 3, 4, 3, 0, 0, 0, 5, 0, 33]]] ⟨Firmware.DapConnection.new, ⟨bootBoard⟩,
          fun _ => Vector.replicate _ 0⟩).1 =
      [[2, 0, 0, 0, 2, 1], [7, 0, 0, 0, 5, 2, 1, 2, 0, 0xa5, 0xa5], [3, 0, 0, 0, 5, 0, 4]] := by
  have hconf : ∀ request ∈ [[2, 1], [5, 0, 2, 2, 0, 1, 2, 3, 4], [5, 0, 33]],
      Conforming request := by
    intro request hrequest
    simp only [List.mem_cons, List.not_mem_nil, or_false] at hrequest
    obtain rfl | rfl | rfl := hrequest
    · exact ⟨by decide, by decide, by decide, by rw [DapEngine.Differs]; decide⟩
    · exact ⟨by decide, by decide, by decide, by rw [DapEngine.Differs]; decide⟩
    · exact ⟨by decide, by decide, by decide, by rw [DapEngine.Differs]; decide⟩
  have hpackets : List.flatten (List.flatten [[[2, 0, 0], [0, 2]],
      [[1, 9, 0, 0, 0, 5, 0, 2], [2, 0, 1, 2, 3, 4, 3, 0, 0, 0, 5, 0, 33]]]) =
        [[2, 1], [5, 0, 2, 2, 0, 1, 2, 3, 4], [5, 0, 33]].flatMap framed := by decide
  obtain ⟨replies, d', hexecute, hreplies, -⟩ := dap_server_refines
    (t := ⟨Firmware.DapConnection.new, ⟨bootBoard⟩, fun _ => Vector.replicate _ 0⟩)
    (ready_reset bootBoard.env bootBoard.timing) Firmware.FrameDecoder.new_holds hconf hpackets
  rw [hreplies]
  have hall : ([[2, 1], [5, 2, 1, 2, 0, 0xa5, 0xa5], [5, 0, 4]] : List (List UInt8)).map .ok =
      replies.map (Except.ok (ε := Model.ProtocolError)) := congrArg Prod.fst hexecute
  rw [← List.map_injective_iff.mpr (fun _ _ => Except.ok.inj) hall]
  rfl

end System
