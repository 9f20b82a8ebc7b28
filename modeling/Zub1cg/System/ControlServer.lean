import Zub1cg.Firmware.Service.Fragmentation
import Zub1cg.Model.Wire.RoundTrip
import Zub1cg.System.Calls

/-!
# The control server on the board

The host encodes commands, frames them and sends them over TCP, which cuts the stream anywhere. The
server runs on the registers of the PL. Every command gets its one reply, and the PL is left
configured as the commands say.

## Main definitions

- `commanded` — what a command of the host makes of the configuration
- `Answers` — the reply to a command

## Main results

- `command_answers` — one command
- `control_server_configures` — a connection
-/

namespace System

open AxiRegs (Configuration configuration)
open Firmware (Accepts Controller ControlThread InBounds runCommands serveConnection serveControl)
open Firmware.FrameDecoder (framed)

/-- What a command of the host makes of the configuration. -/
def commanded (c : Configuration) : Model.Command → Configuration
  | .Configure source format swoBaud =>
    { c with
      sourceSelect := source.toByte.toBitVec.extractLsb' 0 2
      traceFormat := format.toByte.toBitVec.extractLsb' 0 3
      swoBaud := swoBaud.toBitVec }
  | .M3Control bits =>
    { c with m3Release := bits.toBitVec.getLsbD 0, m3DapReal := bits.toBitVec.getLsbD 1 }
  | _ => c

/-- The reply to a command: the text, the counters, the bytes asked for, or one zero. -/
def Answers : Model.Command → List UInt8 → Prop
  | .GetInfo, reply => reply = Firmware.info
  | .GetStats, reply => reply.length = 36
  | .ReadM3Bram _ length, reply => reply.length = length.toNat
  | _, reply => reply = [0]

/-! ### One command -/

theorem accepts_encode {command : Model.Command} (hbounds : InBounds command) :
    Accepts command.encode 4096 :=
  Controller.accepts_of_decode (Model.Command.decode_encode command) hbounds

theorem take_set_zero {response : List UInt8} (hroom : response.length = 4096) :
    (response.set 0 0).take 1 = [0] := by
  cases response with
  | nil => cases hroom
  | cons byte rest => rfl

theorem take_overwrite (bytes response : List UInt8) :
    (Firmware.overwrite bytes response).take bytes.length = bytes := by
  rw [Firmware.overwrite, List.take_left]

/-- **One command** is carried out and answered. -/
theorem command_answers {Io : Type} [Firmware.RegisterIo Io] {command : Model.Command}
    (hbounds : InBounds command) (self : Controller Io) {response : List UInt8}
    (hroom : response.length = 4096) :
    ∃ length self' response',
      self.command command.encode response = (.ok length, self', response') ∧
        Answers command (response'.take length) := by
  have haccepts : Accepts command.encode response.length := hroom ▸ accepts_encode hbounds
  have hguard := haccepts.guard
  have hsmall : Firmware.M3_BRAM_SIZE < 2 ^ 64 := by decide
  cases command with
  | GetInfo =>
    have hop : (byteAt Model.Command.GetInfo.encode 2).toNat = 1 := rfl
    have hinfo : Firmware.info.length ≤ 4096 := by decide
    simp only [Controller.command, hop]
    rw [if_neg hguard, if_neg (by omega)]
    refine ⟨_, _, _, rfl, ?_⟩
    rw [Firmware.copyFromSlice_zero, take_overwrite]
    rfl
  | Configure source format swoBaud =>
    have hop : (byteAt (Model.Command.Configure source format swoBaud).encode 2).toNat = 2 := rfl
    have hnine : (Model.Command.Configure source format swoBaud).encode.length = 9 := rfl
    simp only [Controller.command, hop]
    rw [if_neg hguard, if_pos hnine]
    exact ⟨_, _, _, rfl, take_set_zero hroom⟩
  | GetStats =>
    rw [Controller.command_getStats haccepts rfl]
    refine ⟨_, _, _, rfl, ?_⟩
    have hstats := Controller.length_readStats Firmware.statsOffsets self
    rw [show 36 = 4 * Firmware.statsOffsets.length from rfl, ← hstats, take_overwrite]
    exact hstats
  | LoadM3Chunk offset data =>
    have hop : (byteAt (Model.Command.LoadM3Chunk offset data).encode 2).toNat = 7 := rfl
    have hoffset :
        u32FromLe (slice (Model.Command.LoadM3Chunk offset data).encode 3 7) = offset :=
      u32FromLe_u32ToLe offset
    have hdata : (Model.Command.LoadM3Chunk offset data).encode.drop 7 = data := rfl
    have hlength : (Model.Command.LoadM3Chunk offset data).encode.length = data.length + 7 := rfl
    have hin : offset.toNat + data.length ≤ Firmware.M3_BRAM_SIZE := hbounds
    simp only [Controller.command, hop, hoffset, hdata]
    rw [if_neg hguard, if_pos (by omega), if_neg (by omega), if_neg (by omega)]
    exact ⟨_, _, _, rfl, take_set_zero hroom⟩
  | ReadM3Bram offset length =>
    have hop : (byteAt (Model.Command.ReadM3Bram offset length).encode 2).toNat = 8 := rfl
    have hoffset :
        u32FromLe (slice (Model.Command.ReadM3Bram offset length).encode 3 7) = offset :=
      u32FromLe_u32ToLe offset
    have hlength :
        u16FromLe (slice (Model.Command.ReadM3Bram offset length).encode 7 9) = length :=
      u16FromLe_ofNat length
    have hin : offset.toNat + length.toNat ≤ Firmware.M3_BRAM_SIZE := hbounds.1
    have hfits : length.toNat ≤ 4096 := hbounds.2
    have hnine : (Model.Command.ReadM3Bram offset length).encode.length = 9 := rfl
    simp only [Controller.command, hop, hoffset, hlength]
    rw [if_neg hguard, if_pos hnine, if_neg (by omega), if_neg (by omega)]
    refine ⟨_, _, _, rfl, ?_⟩
    rw [Answers, Firmware.copyFromSlice_zero, Firmware.overwrite, List.take_append_of_le_length]
    all_goals simp [hlength]
  | M3Control bits =>
    have hop : (byteAt (Model.Command.M3Control bits).encode 2).toNat = 9 := rfl
    have hfour : (Model.Command.M3Control bits).encode.length = 4 := rfl
    simp only [Controller.command, hop]
    rw [if_neg hguard, if_pos hfour]
    exact ⟨_, _, _, rfl, take_set_zero hroom⟩
  | Start =>
    have hop : (byteAt Model.Command.Start.encode 2).toNat = 3 := rfl
    simp only [Controller.command, hop]
    rw [if_neg hguard]
    exact ⟨_, _, _, rfl, take_set_zero hroom⟩
  | Stop =>
    have hop : (byteAt Model.Command.Stop.encode 2).toNat = 4 := rfl
    simp only [Controller.command, hop]
    rw [if_neg hguard]
    exact ⟨_, _, _, rfl, take_set_zero hroom⟩
  | Reset =>
    have hop : (byteAt Model.Command.Reset.encode 2).toNat = 5 := rfl
    simp only [Controller.command, hop]
    rw [if_neg hguard]
    exact ⟨_, _, _, rfl, take_set_zero hroom⟩

/-- The bytes of a command say what the command does. -/
theorem set_encode (c : Configuration) {command : Model.Command} (hbounds : InBounds command)
    {response : List UInt8} (hroom : response.length = 4096) :
    Call.set c (.command command.encode response) = commanded c command := by
  rw [Call.set, if_pos (hroom ▸ accepts_encode hbounds)]
  cases command with
  | Configure source format swoBaud =>
    have hbaud : u32FromLe (slice (Model.Command.Configure source format swoBaud).encode 5 9) =
        swoBaud := u32FromLe_u32ToLe swoBaud
    rw [commanded]
    simp only [hbaud]
    rfl
  | _ => rfl

/-! ### A connection -/

/-- Commands run one after the other. -/
theorem runCommands_configures {b : Board} (h : Idle b) {commands : List Model.Command}
    (hbounds : ∀ command ∈ commands, InBounds command) (buffer : Vector UInt8 4096) :
    let run := runCommands buffer (commands.map Model.Command.encode) (Controller.mk b)
    List.Forall₂ Answers commands run.1 ∧ Idle run.2.io ∧
      configuration run.2.io.pl.regs = commands.foldl commanded (configuration b.pl.regs) := by
  induction commands generalizing b with
  | nil => exact ⟨.nil, h, rfl⟩
  | cons command commands ih =>
    have hbound := hbounds command List.mem_cons_self
    obtain ⟨length, ⟨b'⟩, response, hcommand, hanswers⟩ :=
      command_answers hbound (Controller.mk b) buffer.length_toList
    obtain ⟨hidle, hset⟩ := command_served h command.encode buffer.toList
    rw [set_encode _ hbound buffer.length_toList] at hset
    rw [Call.after, hcommand] at hidle hset
    obtain ⟨hlater, hidle', hset'⟩ :=
      ih hidle fun command hcommand => hbounds command (List.mem_cons_of_mem _ hcommand)
    rw [List.map_cons, runCommands, hcommand, List.foldl_cons, ← hset]
    exact ⟨.cons hanswers hlater, hidle', hset'⟩

/-- **The control server configures the board.** The host encodes commands that stay in bounds,
frames them, and the stream is cut into packets and fragments in any way. Whatever the surroundings
of the PL do and whenever the accesses to it come, the server pushes every byte once, sends one
reply for every command, in order, and leaves the configuration that the commands make, in order, of
the one at the start. The mailbox and the decoder are then idle, ready for the next connection. -/
theorem control_server_configures {t : ControlThread Board} (h : Idle t.controller.io)
    (hidle : t.connection.decoder.Holds []) {commands : List Model.Command}
    (hbounds : ∀ command ∈ commands, InBounds command) {frames : List (List UInt8)}
    (hframes : (commands.map Model.Command.encode).mapM
      (Model.lengthFrame · Firmware.MAX_CONTROL_PAYLOAD) = .ok frames)
    {packets : List (List (List UInt8))} (hpackets : packets.flatten.flatten = frames.flatten) :
    let after := serveConnection serveControl packets t
    (∃ replies, Framing.replies after.1 = replies.map framed ∧
        List.Forall₂ Answers commands replies) ∧
      Framing.pushed after.1 = frames.flatten ∧
      configuration after.2.controller.io.pl.regs =
        commands.foldl commanded (configuration t.controller.io.pl.regs) ∧
      Idle after.2.controller.io ∧ after.2.connection.decoder.Holds [] := by
  obtain ⟨hsize, rfl⟩ := Firmware.mapM_lengthFrame.mp hframes
  rw [← List.flatMap_def] at hpackets ⊢
  have hcut : ∀ i, Firmware.controlService.RefusedAt
      ((commands.map Model.Command.encode).flatMap framed) ⟨[], t.controller⟩ i →
      Framing.Service.FragmentAt packets.flatten i := by
    intro i hi
    obtain ⟨j, request, hj, hrejects, -⟩ := (Firmware.refusedAt_requests hsize rfl i).mp hi
    obtain ⟨command, hcommand, rfl⟩ := List.mem_map.mp (List.mem_of_getElem? hj)
    exact absurd (accepts_encode (hbounds command hcommand)) hrejects
  obtain ⟨hpushed, hreplies, hcontroller, hholds⟩ :=
    Firmware.connection_exact (Vector.replicate 4096 0) hsize hidle hpackets hcut
  obtain ⟨hanswers, hlast, hset⟩ :=
    runCommands_configures h hbounds (Vector.replicate 4096 0)
  refine ⟨⟨_, hreplies, hanswers⟩, hpushed, ?_, ?_, hholds⟩
  · rw [hcontroller]
    exact hset
  · rw [hcontroller]
    exact hlast

/-- The M3 is released and made the target, a trace is configured and started, in five fragments. -/
theorem control_server_configures_started :
    configuration (serveConnection serveControl [[[4, 0, 0], [0, 1, 0, 9, 3, 9]],
        [[0, 0, 0, 1, 0, 2, 2, 4, 0x00], [0xc2, 0x01, 0x00, 3], [0, 0, 0, 1, 0, 3]]]
      (ControlThread.boot bootBoard)).2.controller.io.pl.regs =
        { configuration bootBoard.pl.regs with
          sourceSelect := 2
          traceFormat := 4
          swoBaud := 115200
          m3Release := true
          m3DapReal := true } := by
  have hidle : Idle bootBoard := (settled_reset bootBoard.env bootBoard.timing).idle
  have hbounds : ∀ command ∈ ([.M3Control 3, .Configure .A53 .SwoManchester 115200, .Start] :
      List Model.Command), InBounds command := by
    intro command hcommand
    simp only [List.mem_cons, List.not_mem_nil, or_false] at hcommand
    obtain rfl | rfl | rfl := hcommand <;> trivial
  have hframes : (([.M3Control 3, .Configure .A53 .SwoManchester 115200, .Start] :
      List Model.Command).map Model.Command.encode).mapM
        (Model.lengthFrame · Firmware.MAX_CONTROL_PAYLOAD) =
      .ok [[4, 0, 0, 0, 1, 0, 9, 3], [9, 0, 0, 0, 1, 0, 2, 2, 4, 0x00, 0xc2, 0x01, 0x00],
        [3, 0, 0, 0, 1, 0, 3]] := by decide
  exact (control_server_configures (t := ControlThread.boot bootBoard) hidle
    Firmware.FrameDecoder.new_holds hbounds hframes rfl).2.2.1

end System
