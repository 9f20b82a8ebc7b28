import Zub1cg.Firmware.M3Bram
import Zub1cg.Firmware.Service.Fragmentation
import Zub1cg.Model.LoadM3

/-!
# Loading the M3 over the network

`load_m3` talks to the control thread of the board. Each of its commands goes over a
connection of its own, and the network cuts the bytes into packets and fragments at will.

## Main definitions

- `Network`, `controlPort` — the board at the other end of the host's connections
- `lastWritten` — the byte that commands have left in the block RAM

## Main results

- `transact_accepted` — an accepted command over a connection of its own
- `load_exact` — the image arrives, and what is read is what was written last
-/

namespace System

open Firmware
open FrameDecoder (framed)
open MemoryRegion (overlay)
open Model (Command Peer transact chunks sendChunks loadM3)

/-- How the bytes of each connection are cut into packets and fragments. -/
structure Network where
  packets : ℕ → List UInt8 → List (List (List UInt8))
  whole : ∀ n bytes, (packets n bytes).flatten.flatten = bytes

/-- The control thread of a board, and the connections it has had. -/
structure Port (Io : Type) where
  connections : ℕ
  thread : ControlThread (Recorded (Mmio Io))

variable {Io : Type} [RegisterIo Io]

/-- The bytes of one connection, and the replies to them. -/
def controlPort (net : Network) : Peer (Port Io) := fun bytes port =>
  let served := serveConnection serveControl (net.packets port.connections bytes) port.thread
  (some (Framing.replies served.1).flatten, ⟨port.connections + 1, served.2⟩)

/-! ### One command -/

/-- The thread waits for a frame. -/
def Port.Idle (port : Port Io) : Prop := port.thread.connection.decoder.Holds []

/-- The device behind the thread. -/
def Port.io (port : Port Io) : Recorded (Mmio Io) := port.thread.controller.io

theorem readFrame_framed {payload : List UInt8} {maximum : ℕ} (h : payload.length ≤ maximum)
    (hmaximum : maximum < 2 ^ 32) : Model.readFrame (framed payload) maximum = (.ok payload, []) := by
  have hlength := FrameDecoder.length_framed payload
  have hfirst : slice (framed payload) 0 4 = (framed payload).take 4 := rfl
  have hsize : (u32FromLe (slice (framed payload) 0 4)).toNat = payload.length := by
    rw [hfirst, u32FromLe_toNat (by rw [List.length_take]; omega),
      FrameDecoder.toNat_framed (by omega)]
  have hpayload : slice (framed payload) 4 (4 + payload.length) = payload := by
    rw [slice, List.take_of_length_le (by omega), framed, List.drop_left' (u32ToLe_length _)]
  rw [Model.readFrame, if_neg (by omega)]
  simp only [hsize]
  rw [if_neg (by omega), if_neg (by omega), hpayload, List.drop_eq_nil_of_le (by omega)]

/-- An accepted command over a connection of its own. -/
theorem transact_accepted (net : Network) {port : Port Io} (hidle : port.Idle) {command : Command}
    (hsize : command.encode.length ≤ MAX_CONTROL_PAYLOAD) (haccepts : Accepts command.encode 4096)
    (buffer : Vector UInt8 4096) :
    ∃ bytes c port', port.thread.controller.command command.encode buffer.toList =
        (.ok bytes.length, c, overwrite bytes buffer.toList) ∧
      transact (controlPort net) command port = (.ok bytes, port') ∧ port'.Idle ∧
      port'.thread.controller = c := by
  obtain ⟨bytes, c, hlength, hcommand, hreplies, hafter, hrefused⟩ :=
    session_accepted hsize haccepts (x := ⟨[], port.thread.controller⟩) rfl buffer
  have hwhole := net.whole port.connections (framed command.encode)
  obtain ⟨hcalls, hholds, hcontroller⟩ :=
    serveControl_refines (net.packets port.connections (framed command.encode))
      (x := ⟨[], port.thread.controller⟩) ⟨hidle, rfl⟩
  have hexact := @Framing.Service.pumpAll_exact_of_fragmentAt _ _ _ _ controlService
    (net.packets port.connections (framed command.encode)).flatten ⟨[], port.thread.controller⟩
    fun i hi => absurd (hwhole ▸ hi) (hrefused i)
  rw [hexact.session, hwhole, hafter] at hholds hcontroller
  have hreply := hexact.replies
  rw [hwhole, hreplies, ← hcalls] at hreply
  refine ⟨bytes, c, ⟨port.connections + 1, (serveConnection serveControl
    (net.packets port.connections (framed command.encode)) port.thread).2⟩, hcommand, ?_, hholds,
    hcontroller⟩
  have hframe : Model.lengthFrame command.encode Model.MAX_CONTROL_PAYLOAD =
      .ok (framed command.encode) := FrameDecoder.lengthFrame_eq_ok hsize
  have hread : Model.readFrame (framed bytes) Model.MAX_CONTROL_PAYLOAD = (.ok bytes, []) :=
    readFrame_framed hlength (by decide)
  simp only [transact, Model.transactFrame, hframe, controlPort, hreply, List.nil_append,
    List.flatten_singleton, hread]

/-- The bytes behind the window of the block RAM. -/
def Port.memory (port : Port Io) : ℕ → UInt8 := port.io.io.memory

theorem overwrite_inj {bytes bytes' buffer : List UInt8} (hlength : bytes.length = bytes'.length)
    (h : overwrite bytes buffer = overwrite bytes' buffer) : bytes = bytes' :=
  (List.append_inj h hlength).1

/-- A command whose effect and answer are known, over a connection of its own. -/
theorem transact_command (net : Network) {port : Port Io} (hidle : port.Idle) (command : Command)
    (answer : List UInt8) (c : Controller (Recorded (Mmio Io)))
    (hsize : command.encode.length ≤ MAX_CONTROL_PAYLOAD)
    (hcommand : ∀ buffer : Vector UInt8 4096,
      port.thread.controller.command command.encode buffer.toList =
        (.ok answer.length, c, overwrite answer buffer.toList)) :
    ∃ port', transact (controlPort net) command port = (.ok answer, port') ∧ port'.Idle ∧
      port'.thread.controller = c := by
  let buffer : Vector UInt8 4096 := Vector.replicate 4096 0
  have haccepts : Accepts command.encode 4096 := by
    have hok : (port.thread.controller.command command.encode buffer.toList).1.isOk = true := by
      rw [hcommand buffer]
      rfl
    have hbuffer := (Controller.command_isOk_iff _ _ _).mp hok
    rwa [Vector.length_toList] at hbuffer
  obtain ⟨bytes, c', port', hbytes, htransact, hidle', hcontroller⟩ :=
    transact_accepted net hidle hsize haccepts buffer
  rw [hcommand buffer, Prod.mk.injEq, Prod.mk.injEq, Except.ok.injEq] at hbytes
  obtain ⟨hlength, rfl, hwritten⟩ := hbytes
  obtain rfl := overwrite_inj hlength hwritten
  exact ⟨port', htransact, hidle', hcontroller⟩

/-- A load writes its bytes. -/
theorem transact_load (net : Network) {port : Port Io} (hidle : port.Idle) (offset : UInt32)
    (data : List UInt8) (hsize : data.length + 7 ≤ MAX_CONTROL_PAYLOAD)
    (hfits : offset.toNat + data.length ≤ M3_BRAM_SIZE) :
    ∃ port', transact (controlPort net) (.LoadM3Chunk offset data) port = (.ok [0], port') ∧
      port'.Idle ∧ port'.io.ops = port.io.ops ++ [.writeM3Bram offset.toNat data] ∧
      port'.memory = overlay port.memory (M3_BRAM_BASE + offset.toNat) data := by
  have hlength : (Command.LoadM3Chunk offset data).encode.length = data.length + 7 := by
    simp [Command.encode, u32ToLe_length]
    omega
  have hcommand (buffer : Vector UInt8 4096) :
      port.thread.controller.command (Command.LoadM3Chunk offset data).encode buffer.toList =
        (.ok [0].length, ⟨RegisterIo.writeM3Bram offset.toNat data port.io⟩,
          overwrite [0] buffer.toList) := by
    have hroom : 0 < buffer.toList.length := by
      rw [Vector.length_toList]
      decide
    rw [Controller.command_load _ hroom hfits, Controller.set_zero_overwrite hroom rfl]
    rfl
  obtain ⟨port', htransact, hidle', hcontroller⟩ :=
    transact_command net hidle (.LoadM3Chunk offset data) [0] _ (hlength ▸ hsize) hcommand
  refine ⟨port', htransact, hidle', ?_, ?_⟩
  · rw [Port.io, hcontroller]
    rfl
  · rw [Port.memory, Port.io, hcontroller]
    exact Mmio.writeM3Bram_eq _ _ _

/-- A read returns what is there. -/
theorem transact_read (net : Network) {port : Port Io} (hidle : port.Idle) (offset : UInt32)
    (length : UInt16) (hroom : length.toNat ≤ 4096)
    (hfits : offset.toNat + length.toNat ≤ M3_BRAM_SIZE) :
    ∃ port', transact (controlPort net) (.ReadM3Bram offset length) port =
        (.ok ((List.range length.toNat).map fun k =>
          port.memory (M3_BRAM_BASE + offset.toNat + k)), port') ∧
      port'.Idle ∧ port'.io.ops = port.io.ops ++ [.readM3Bram offset.toNat length.toNat] ∧
      port'.memory = port.memory := by
  have hcommand (buffer : Vector UInt8 4096) :
      port.thread.controller.command (Command.ReadM3Bram offset length).encode buffer.toList =
        (.ok ((List.range length.toNat).map fun k =>
            port.memory (M3_BRAM_BASE + offset.toNat + k)).length,
          ⟨(RegisterIo.readM3Bram offset.toNat length.toNat port.io).2⟩,
          overwrite ((List.range length.toNat).map fun k =>
            port.memory (M3_BRAM_BASE + offset.toNat + k)) buffer.toList) := by
    have hlength := buffer.length_toList
    rw [Controller.command_read _ (by omega) (by omega) hfits, List.length_map, List.length_range]
    show (_, _, copyFromSlice buffer.toList 0
      (Mmio.readM3Bram port.memory (M3_BRAM_BASE + offset.toNat) length.toNat)) = _
    rw [copyFromSlice_zero, Mmio.readM3Bram_eq]
    rfl
  obtain ⟨port', htransact, hidle', hcontroller⟩ :=
    transact_command net hidle (.ReadM3Bram offset length) _ _
      (show 9 ≤ MAX_CONTROL_PAYLOAD by decide) hcommand
  refine ⟨port', htransact, hidle', ?_, ?_⟩
  · rw [Port.io, hcontroller]
    rfl
  · rw [Port.memory, Port.io, hcontroller]
    rfl

/-- A write to the control register of the M3. -/
theorem transact_control (net : Network) {port : Port Io} (hidle : port.Idle) (bits : UInt8) :
    ∃ port', transact (controlPort net) (.M3Control bits) port = (.ok [0], port') ∧ port'.Idle ∧
      port'.io.ops = port.io.ops ++ [.write REG_M3_CONTROL bits.toUInt32] ∧
      port'.memory = port.memory := by
  have hcommand (buffer : Vector UInt8 4096) :
      port.thread.controller.command (Command.M3Control bits).encode buffer.toList =
        (.ok [0].length, port.thread.controller.write REG_M3_CONTROL bits.toUInt32,
          overwrite [0] buffer.toList) := by
    have hroom : 0 < buffer.toList.length := by
      rw [Vector.length_toList]
      decide
    rw [Controller.command_control _ _ hroom, Controller.set_zero_overwrite hroom rfl]
    rfl
  obtain ⟨port', htransact, hidle', hcontroller⟩ :=
    transact_command net hidle (.M3Control bits) [0] _ (show 4 ≤ MAX_CONTROL_PAYLOAD by decide)
      hcommand
  refine ⟨port', htransact, hidle', ?_, ?_⟩
  · rw [Port.io, hcontroller]
    rfl
  · rw [Port.memory, Port.io, hcontroller]
    rfl

/-! ### The image -/

/-- Chunk `k` of an image. -/
def chunk (image : List UInt8) (k : ℕ) : List UInt8 :=
  (image.drop (k * Model.M3_BRAM_CHUNK)).take Model.M3_BRAM_CHUNK

/-- The number of chunks. -/
def chunkCount (image : List UInt8) : ℕ :=
  (image.length + Model.M3_BRAM_CHUNK - 1) / Model.M3_BRAM_CHUNK

theorem chunks_zipIdx (image : List UInt8) :
    (chunks Model.M3_BRAM_CHUNK image).zipIdx =
      (List.range' 0 (chunkCount image)).map fun k => (chunk image k, k) := by
  apply List.ext_getElem
  · simp [chunks, chunkCount]
  · intro k hk hk'
    simp [chunks, chunk]

/-- The chunks from `first` on, behind those that have arrived. -/
theorem sendChunks_exact (net : Network) {image : List UInt8} (hfits : image.length ≤ M3_BRAM_SIZE)
    (memory : ℕ → UInt8) (m first : ℕ) (hcount : first + m ≤ chunkCount image) {port : Port Io}
    (hidle : port.Idle) (hmemory : port.memory =
      overlay memory M3_BRAM_BASE (image.take (first * Model.M3_BRAM_CHUNK))) :
    ∃ port', sendChunks (controlPort net)
        ((List.range' first m).map fun k => (chunk image k, k)) port = (.ok (), port') ∧
      port'.Idle ∧
      port'.io.ops = port.io.ops ++ (List.range' first m).map (fun k =>
        .writeM3Bram (k * Model.M3_BRAM_CHUNK) (chunk image k)) ∧
      port'.memory =
        overlay memory M3_BRAM_BASE (image.take ((first + m) * Model.M3_BRAM_CHUNK)) := by
  induction m generalizing first port with
  | zero => exact ⟨port, rfl, hidle, (List.append_nil _).symm, hmemory⟩
  | succ m ih =>
    have hsize : M3_BRAM_SIZE = 0x10000 := rfl
    have hchunk : Model.M3_BRAM_CHUNK = 2048 := rfl
    rw [chunkCount] at hcount
    have hbegins : first * Model.M3_BRAM_CHUNK < image.length := by
      rw [hchunk] at hcount ⊢
      omega
    have hoffset : (UInt32.ofNat (first * Model.M3_BRAM_CHUNK)).toNat = first * Model.M3_BRAM_CHUNK :=
      UInt32.toNat_ofNat_of_lt' (by rw [UInt32.size]; omega)
    have hlength : (chunk image first).length ≤ Model.M3_BRAM_CHUNK ∧
        first * Model.M3_BRAM_CHUNK + (chunk image first).length ≤ image.length := by
      rw [chunk, List.length_take, List.length_drop]
      omega
    obtain ⟨port₁, htransact, hidle₁, hops₁, hmemory₁⟩ :=
      transact_load net hidle (UInt32.ofNat (first * Model.M3_BRAM_CHUNK)) (chunk image first)
        (by rw [show MAX_CONTROL_PAYLOAD = 4096 from rfl]; omega) (by omega)
    rw [hoffset] at hops₁ hmemory₁
    have htake : image.take ((first + 1) * Model.M3_BRAM_CHUNK) =
        image.take (first * Model.M3_BRAM_CHUNK) ++ chunk image first := by
      rw [Nat.add_mul, Nat.one_mul, List.take_add, chunk]
    have hstart : (image.take (first * Model.M3_BRAM_CHUNK)).length =
        first * Model.M3_BRAM_CHUNK := by
      rw [List.length_take]
      omega
    obtain ⟨port', hsend, hidle', hops', hmemory'⟩ :=
      ih (first + 1) (by rw [chunkCount]; omega) hidle₁ (by
        rw [hmemory₁, hmemory, htake, MemoryRegion.overlay_append, hstart])
    refine ⟨port', ?_, hidle', ?_, ?_⟩
    · simp only [List.range'_succ, List.map_cons, sendChunks, htransact]
      exact hsend
    · rw [hops', hops₁, List.range'_succ, List.map_cons, List.append_assoc, List.singleton_append]
    · rw [hmemory', Nat.add_right_comm, Nat.add_assoc]

/-- What is read back of an image that has arrived. -/
theorem readback_image {memory : ℕ → UInt8} {image : List UInt8} {n : ℕ} (hn : n ≤ image.length) :
    ((List.range n).map fun k => overlay memory M3_BRAM_BASE image (M3_BRAM_BASE + k)) =
      image.take n := by
  apply List.ext_getElem
  · rw [List.length_map, List.length_range, List.length_take]
    omega
  · intro k hk hk'
    rw [List.length_take] at hk'
    rw [List.getElem_map, List.getElem_range, List.getElem_take]
    exact MemoryRegion.overlay_inside (by omega)

/-- The operations of a load, in their order. -/
def loadOps (image : List UInt8) : List IoOp :=
  [.write REG_M3_CONTROL 0] ++
    (chunks Model.M3_BRAM_CHUNK image).zipIdx.map (fun entry =>
      .writeM3Bram (entry.2 * Model.M3_BRAM_CHUNK) entry.1) ++
    [.readM3Bram 0 (min image.length 16), .write REG_M3_CONTROL Model.M3_CONTROL_RELEASE]

/-- A load of an image that fits. -/
theorem loadM3_exact (net : Network) {image : List UInt8} (hvector : 8 ≤ image.length)
    (hfits : image.length ≤ M3_BRAM_SIZE) {port : Port Io} (hidle : port.Idle) :
    ∃ port', loadM3 (controlPort net) image port = (.ok (), port') ∧ port'.Idle ∧
      port'.io.ops = port.io.ops ++ loadOps image ∧
      port'.memory = overlay port.memory M3_BRAM_BASE image := by
  have hsize : M3_BRAM_SIZE = 0x10000 := rfl
  obtain ⟨port₁, hhold, hidle₁, hops₁, hmemory₁⟩ := transact_control net hidle 0
  obtain ⟨port₂, hsend, hidle₂, hops₂, hmemory₂⟩ :=
    sendChunks_exact net hfits port.memory (chunkCount image) 0 (Nat.zero_add _).le hidle₁
      (by rw [Nat.zero_mul, List.take_zero, MemoryRegion.overlay_nil, hmemory₁])
  have hall : image.take ((0 + chunkCount image) * Model.M3_BRAM_CHUNK) = image := by
    apply List.take_of_length_le
    rw [chunkCount, show Model.M3_BRAM_CHUNK = 2048 from rfl]
    omega
  rw [hall] at hmemory₂
  have hcheck : (UInt16.ofNat (min image.length 16)).toNat = min image.length 16 :=
    UInt16.toNat_ofNat_of_lt' (by rw [UInt16.size]; omega)
  obtain ⟨port₃, hread, hidle₃, hops₃, hmemory₃⟩ :=
    transact_read net hidle₂ 0 (UInt16.ofNat (min image.length 16)) (by omega)
      (by rw [UInt32.toNat_zero]; omega)
  obtain ⟨port₄, hrelease, hidle₄, hops₄, hmemory₄⟩ :=
    transact_control net hidle₃ Model.M3_CONTROL_RELEASE.toUInt8
  have hreadback : ((List.range (UInt16.ofNat (min image.length 16)).toNat).map fun k =>
      port₂.memory (M3_BRAM_BASE + (0 : UInt32).toNat + k)) =
      image.take (UInt16.ofNat (min image.length 16)).toNat := by
    rw [hmemory₂, hcheck]
    exact readback_image (Nat.min_le_left _ _)
  refine ⟨port₄, ?_, hidle₄, ?_, by rw [hmemory₄, hmemory₃, hmemory₂]⟩
  · rw [hreadback] at hread
    have hnot : ¬ image.length > Model.M3_BRAM_SIZE := Nat.not_lt_of_le hfits
    rw [loadM3, if_neg (by omega), if_neg hnot]
    simp only [hhold, chunks_zipIdx, hsend, hread, hrelease, ne_eq, not_true_eq_false, if_false]
  · rw [hops₄, hops₃, hops₂, hops₁, hcheck, loadOps, chunks_zipIdx, List.map_map]
    simp only [List.append_assoc]
    rfl

/-! ### Reads -/

/-- The byte at `k` of the block RAM after some commands, the newest first: what the newest
load that covers it has written. -/
def lastWritten (initial : ℕ → UInt8) (k : ℕ) : List Command → UInt8
  | [] => initial k
  | .LoadM3Chunk offset data :: earlier =>
    if offset.toNat ≤ k ∧ k < offset.toNat + data.length then byteAt data (k - offset.toNat)
    else lastWritten initial k earlier
  | _ :: earlier => lastWritten initial k earlier

/-- A load or a read at a word boundary. -/
def Aligned : Command → Prop
  | .LoadM3Chunk offset _ => 4 ∣ offset.toNat
  | .ReadM3Bram offset _ => 4 ∣ offset.toNat
  | _ => False

/-- The commands one after the other, each over a connection of its own. -/
def transactAll {σ : Type} (peer : Peer σ) :
    List Command → σ → List (Except Model.HostError (List UInt8)) × σ
  | [], s => ([], s)
  | command :: rest, s =>
    let here := transact peer command s
    let later := transactAll peer rest here.2
    (here.1 :: later.1, later.2)

/-- The bounds that make the controller accept a load. -/
theorem load_bounds {offset : UInt32} {data : List UInt8}
    (h : Accepts (Command.LoadM3Chunk offset data).encode 4096) :
    offset.toNat + data.length ≤ M3_BRAM_SIZE := by
  obtain ⟨-, -, -, hfit⟩ := h
  have hboth : (7 ≤ (Command.LoadM3Chunk offset data).encode.length &&
      (u32FromLe (u32ToLe offset)).toNat + data.length ≤ M3_BRAM_SIZE) = true := hfit
  rw [u32FromLe_u32ToLe] at hboth
  exact of_decide_eq_true (Bool.and_eq_true_iff.mp hboth).2

theorem read_bounds {offset : UInt32} {length : UInt16}
    (h : Accepts (Command.ReadM3Bram offset length).encode 4096) :
    offset.toNat + length.toNat ≤ M3_BRAM_SIZE ∧ length.toNat ≤ 4096 := by
  obtain ⟨-, -, -, hfit⟩ := h
  have hboth : (true && decide ((u32FromLe (u32ToLe offset)).toNat +
      (u16FromLe (LittleEndian.ofNat 2 length.toNat)).toNat ≤ M3_BRAM_SIZE) &&
      decide ((u16FromLe (LittleEndian.ofNat 2 length.toNat)).toNat ≤ 4096)) = true := hfit
  rw [u32FromLe_u32ToLe, u16FromLe_ofNat, Bool.true_and] at hboth
  obtain ⟨hfits, hroom⟩ := Bool.and_eq_true_iff.mp hboth
  exact ⟨of_decide_eq_true hfits, of_decide_eq_true hroom⟩

/-- A load covers what it writes, and leaves the rest. -/
theorem lastWritten_load {memory initial : ℕ → UInt8} {done : List Command}
    (h : ∀ k, memory (M3_BRAM_BASE + k) = lastWritten initial k done) (offset : UInt32)
    (data : List UInt8) (k : ℕ) :
    overlay memory (M3_BRAM_BASE + offset.toNat) data (M3_BRAM_BASE + k) =
      lastWritten initial k (.LoadM3Chunk offset data :: done) := by
  rw [lastWritten]
  by_cases hinside : offset.toNat ≤ k ∧ k < offset.toNat + data.length
  · obtain ⟨j, rfl⟩ := Nat.exists_eq_add_of_le hinside.1
    have hj : j < data.length := by omega
    rw [if_pos hinside, ← Nat.add_assoc, MemoryRegion.overlay_inside hj, Nat.add_sub_cancel_left,
      byteAt, List.getD_eq_getElem?_getD, List.getElem?_eq_getElem hj]
    rfl
  · rw [if_neg hinside, MemoryRegion.overlay_outside (by omega), h]

/-- What the block RAM holds for the port is what has been written last. -/
def Port.Holds (port : Port Io) (initial : ℕ → UInt8) (done : List Command) : Prop :=
  port.Idle ∧ ∀ k, port.memory (M3_BRAM_BASE + k) = lastWritten initial k done

/-- The commands that the control thread accepts. -/
def Legal (command : Command) : Prop :=
  Aligned command ∧ command.encode.length ≤ MAX_CONTROL_PAYLOAD ∧ Accepts command.encode 4096

/-- One load or read. -/
theorem Port.Holds.transact {net : Network} {port : Port Io} {initial : ℕ → UInt8}
    {done : List Command} (h : port.Holds initial done) {command : Command} (hlegal : Legal command) :
    ∃ answer port', Model.transact (controlPort net) command port = (.ok answer, port') ∧
      port'.Holds initial (command :: done) ∧
      ∀ offset length, command = .ReadM3Bram offset length →
        answer = (List.range length.toNat).map fun k =>
          lastWritten initial (offset.toNat + k) done := by
  obtain ⟨haligned, hsize, haccepts⟩ := hlegal
  cases command with
  | LoadM3Chunk offset data =>
    have hlength : (Command.LoadM3Chunk offset data).encode.length = data.length + 7 := by
      simp [Command.encode, u32ToLe_length]
      omega
    obtain ⟨port', htransact, hidle, -, hmemory⟩ :=
      transact_load net h.1 offset data (hlength ▸ hsize) (load_bounds haccepts)
    refine ⟨_, port', htransact, ⟨hidle, fun k => ?_⟩, fun offset length heq => by cases heq⟩
    rw [hmemory]
    exact lastWritten_load h.2 offset data k
  | ReadM3Bram offset length =>
    obtain ⟨hfits, hroom⟩ := read_bounds haccepts
    obtain ⟨port', htransact, hidle, -, hmemory⟩ := transact_read net h.1 offset length hroom hfits
    refine ⟨_, port', htransact, ⟨hidle, fun k => ?_⟩, ?_⟩
    · rw [hmemory]
      exact h.2 k
    · rintro offset length ⟨⟩
      exact List.map_congr_left fun k _ => by rw [Nat.add_assoc, h.2]
  | GetInfo => exact haligned.elim
  | Configure source format swoBaud => exact haligned.elim
  | Start => exact haligned.elim
  | Stop => exact haligned.elim
  | Reset => exact haligned.elim
  | GetStats => exact haligned.elim
  | M3Control bits => exact haligned.elim

/-- A sequence of loads and reads. -/
theorem Port.Holds.transactAll (net : Network) {port : Port Io} {initial : ℕ → UInt8}
    {done commands : List Command} (h : port.Holds initial done)
    (hlegal : ∀ command ∈ commands, Legal command) :
    (∀ result ∈ (System.transactAll (controlPort net) commands port).1, result.isOk = true) ∧
    ∀ before offset length after, commands = before ++ .ReadM3Bram offset length :: after →
      (System.transactAll (controlPort net) commands port).1[before.length]? =
        some (.ok ((List.range length.toNat).map fun k =>
          lastWritten initial (offset.toNat + k) (before.reverse ++ done))) := by
  induction commands generalizing port done with
  | nil => simp [System.transactAll]
  | cons command rest ih =>
    obtain ⟨answer, port', htransact, hnext, hanswer⟩ :=
      @Port.Holds.transact _ _ net _ _ _ h _ (hlegal command List.mem_cons_self)
    obtain ⟨hok, hreads⟩ := ih hnext fun c hc => hlegal c (List.mem_cons_of_mem _ hc)
    simp only [System.transactAll, htransact]
    refine ⟨fun result hresult => ?_, fun before offset length after hsplit => ?_⟩
    · obtain rfl | hlater := List.mem_cons.mp hresult
      · rfl
      · exact hok result hlater
    · cases before with
      | nil =>
        obtain ⟨hcommand, -⟩ := List.cons.inj hsplit
        rw [hanswer offset length hcommand]
        rfl
      | cons first before =>
        obtain ⟨rfl, hrest⟩ := List.cons.inj hsplit
        rw [List.length_cons, List.getElem?_cons_succ, hreads before offset length after hrest,
          List.reverse_cons, List.append_assoc]
        rfl

/-- **Loading the M3 is exact.** Whatever the network does and whatever the block RAM held: the
image arrives and nothing else changes, the core is held before the first chunk and released
after the last. Reads return what was written last. -/
theorem load_exact (net : Network) (port : Port Io) (hidle : port.Idle) :
    (∀ image : List UInt8, 8 ≤ image.length → image.length ≤ M3_BRAM_SIZE →
      ∃ port', loadM3 (controlPort net) image port = (.ok (), port') ∧
        (∀ k, (hk : k < image.length) → port'.memory (M3_BRAM_BASE + k) = image[k]) ∧
        (∀ address, address < M3_BRAM_BASE ∨ M3_BRAM_BASE + image.length ≤ address →
          port'.memory address = port.memory address) ∧
        port'.io.ops = port.io.ops ++ loadOps image) ∧
    ∀ commands : List Command, (∀ command ∈ commands, Legal command) →
      (∀ result ∈ (transactAll (controlPort net) commands port).1, result.isOk = true) ∧
      ∀ before offset length after, commands = before ++ .ReadM3Bram offset length :: after →
        (transactAll (controlPort net) commands port).1[before.length]? =
          some (.ok ((List.range length.toNat).map fun k =>
            lastWritten (fun k => port.memory (M3_BRAM_BASE + k)) (offset.toNat + k)
              before.reverse)) := by
  refine ⟨fun image hvector hfits => ?_, fun commands hlegal => ?_⟩
  · obtain ⟨port', hload, -, hops, hmemory⟩ := loadM3_exact net hvector hfits hidle
    refine ⟨port', hload, fun k hk => ?_, fun address haddress => ?_, hops⟩
    · rw [hmemory]
      exact MemoryRegion.overlay_inside hk
    · rw [hmemory]
      exact MemoryRegion.overlay_outside haddress
  · have hstart : port.Holds (fun k => port.memory (M3_BRAM_BASE + k)) [] := ⟨hidle, fun _ => rfl⟩
    simpa using hstart.transactAll net hlegal

/-- A network that delivers each connection in one fragment, and a board after boot. -/
def quietNetwork : Network where
  packets _ bytes := [[bytes]]
  whole _ bytes := by simp

def bootPort : Port Blank where
  connections := 0
  thread := ControlThread.boot ⟨⟨Blank.mk, fun _ => 0⟩, []⟩

/-- An image with a byte behind its last word. -/
theorem load_exact_nine :
    ∃ port', loadM3 (controlPort quietNetwork) [1, 2, 3, 4, 5, 6, 7, 8, 9] bootPort =
        (.ok (), port') ∧
      port'.memory (M3_BRAM_BASE + 8) = 9 ∧ port'.io.ops = loadOps [1, 2, 3, 4, 5, 6, 7, 8, 9] := by
  obtain ⟨port', hload, himage, -, hops⟩ :=
    (load_exact quietNetwork bootPort FrameDecoder.new_holds).1 [1, 2, 3, 4, 5, 6, 7, 8, 9]
      (by decide) (by decide)
  exact ⟨port', hload, himage 8 (by decide), hops⟩

end System
