import Zub1cg.Firmware.Controller.Language
import Zub1cg.Library.MemoryRegion

/-!
# The block RAM of the M3 (`firmware/a53/src/ffi.rs`)

`Mmio` reaches the block RAM through a window in its address space: whole words first, and
then the bytes that are left. The memory is a function of the physical address to bytes, and
a 32-bit access moves four of them, least significant first.

## Main definitions

- `Mmio` — the device of the controller, with the memory behind the window
- `Mmio.writeM3Bram`, `Mmio.readM3Bram` — the two copies

## Main results

- `Mmio.writeM3Bram_eq`, `Mmio.readM3Bram_eq` — they copy bytes
- `Controller.command_load`, `Controller.command_read` — and so do the requests
-/

namespace Firmware

open MemoryRegion (overlay)
open Model (Command)

def M3_BRAM_BASE : ℕ := 0xa0020000

/-- The registers and the CoreSight components are those of `device`. -/
structure Mmio (Io : Type) where
  device : Io
  memory : ℕ → UInt8

namespace Mmio

/-! ### Accesses -/

/-- `write_volatile` of a `u32` -/
def store32 (address : ℕ) (word : UInt32) (memory : ℕ → UInt8) : ℕ → UInt8 :=
  overlay memory address (u32ToLe word)

/-- `write_volatile` of a `u8` -/
def store8 (address : ℕ) (byte : UInt8) (memory : ℕ → UInt8) : ℕ → UInt8 :=
  Function.update memory address byte

/-- `read_volatile` of a `u32` -/
def load32 (memory : ℕ → UInt8) (address : ℕ) : UInt32 :=
  u32FromLe [memory address, memory (address + 1), memory (address + 2), memory (address + 3)]

/-- `chunks_exact(4)` and its remainder, from `address` on. -/
def writeM3Bram : (address : ℕ) → List UInt8 → (ℕ → UInt8) → ℕ → UInt8
  | address, b0 :: b1 :: b2 :: b3 :: rest, memory =>
    writeM3Bram (address + 4) rest (store32 address (u32FromLe [b0, b1, b2, b3]) memory)
  | address, remainder, memory =>
    remainder.zipIdx.foldl (fun memory entry => store8 (address + entry.2) entry.1 memory) memory

/-- `chunks_exact_mut(4)` and its remainder, from `address` on. -/
def readM3Bram (memory : ℕ → UInt8) : (address length : ℕ) → List UInt8
  | address, length + 4 =>
    u32ToLe (load32 memory address) ++ readM3Bram memory (address + 4) length
  | address, remainder => (List.range remainder).map fun index => memory (address + index)

/-- The bytes that are left are copied one by one. -/
theorem store8_all (address : ℕ) (remainder : List UInt8) (memory : ℕ → UInt8) :
    remainder.zipIdx.foldl (fun memory entry => store8 (address + entry.2) entry.1 memory) memory =
      overlay memory address remainder := by
  induction remainder using List.reverseRecOn with
  | nil => exact (MemoryRegion.overlay_nil address).symm
  | append_singleton remainder byte ih =>
    rw [List.zipIdx_append, List.foldl_append, ih, MemoryRegion.overlay_append,
      MemoryRegion.overlay_singleton, Nat.zero_add]
    rfl

theorem writeM3Bram_eq (address : ℕ) (data : List UInt8) (memory : ℕ → UInt8) :
    writeM3Bram address data memory = overlay memory address data := by
  induction address, data, memory using writeM3Bram.induct with
  | case1 address b0 b1 b2 b3 rest memory ih =>
    rw [writeM3Bram, ih, store32, u32ToLe_u32FromLe rfl]
    exact (MemoryRegion.overlay_append address [b0, b1, b2, b3] rest).symm
  | case2 address remainder memory hshort =>
    rw [writeM3Bram.eq_2 _ _ _ hshort]
    exact store8_all address remainder memory

/-- The bytes are copied. -/
theorem readM3Bram_eq (memory : ℕ → UInt8) (address length : ℕ) :
    readM3Bram memory address length =
      (List.range length).map fun index => memory (address + index) := by
  induction address, length using readM3Bram.induct with
  | case1 address length ih =>
    rw [readM3Bram, ih, load32, u32ToLe_u32FromLe rfl]
    show _ = (List.range (length + 4)).map _
    rw [Nat.add_comm length, List.range_add, List.map_append, List.map_map]
    refine congrArg _ (List.map_congr_left fun index _ => ?_)
    show memory (address + 4 + index) = memory (address + (4 + index))
    rw [Nat.add_assoc]
  | case2 address remainder hshort =>
    rw [readM3Bram.eq_2 _ _ _ hshort]

theorem length_readM3Bram (memory : ℕ → UInt8) (address length : ℕ) :
    (readM3Bram memory address length).length = length := by
  rw [readM3Bram_eq, List.length_map, List.length_range]

end Mmio

instance {Io : Type} [RegisterIo Io] : RegisterIo (Mmio Io) where
  read offset d :=
    ((RegisterIo.read offset d.device).1, { d with device := (RegisterIo.read offset d.device).2 })
  write offset value d := { d with device := RegisterIo.write offset value d.device }
  writeM3Bram offset data d :=
    { d with memory := Mmio.writeM3Bram (M3_BRAM_BASE + offset) data d.memory }
  readM3Bram offset length d :=
    (⟨(Mmio.readM3Bram d.memory (M3_BRAM_BASE + offset) length).toArray,
      Mmio.length_readM3Bram d.memory _ length⟩, d)
  selectCoresightSource a53 d :=
    { d with device := RegisterIo.selectCoresightSource a53 d.device }
  enableCoresightTrace a53 d :=
    { d with device := RegisterIo.enableCoresightTrace a53 d.device }

/-! ### The three requests -/

namespace Controller

variable {Io : Type} [RegisterIo Io]

/-- The guards of `command` hold of what the host encodes. -/
theorem encode_guard (c : Command) {response : List UInt8} (hroom : 0 < response.length) :
    ¬ (c.encode.length < 3 ∨ response.length = 0 ∨
      u16FromLe (slice c.encode 0 2) ≠ PROTOCOL_VERSION) := by
  have hversion : u16FromLe (slice c.encode 0 2) = PROTOCOL_VERSION := by
    cases c <;> rfl
  have hlength : 3 ≤ c.encode.length := by
    unfold Command.encode
    rw [List.length_append, LittleEndian.length_ofNat]
    cases c <;> simp
    all_goals omega
  rintro (h | h | h)
  · omega
  · omega
  · exact h hversion

theorem command_load (self : Controller Io) {offset : UInt32} {data response : List UInt8}
    (hroom : 0 < response.length) (hfits : offset.toNat + data.length ≤ M3_BRAM_SIZE) :
    self.command (Command.LoadM3Chunk offset data).encode response =
      (.ok 1, ⟨RegisterIo.writeM3Bram offset.toNat data self.io⟩, response.set 0 0) := by
  have hsmall : M3_BRAM_SIZE < 2 ^ 64 := by decide
  have hlength : 7 ≤ (Command.LoadM3Chunk offset data).encode.length := by
    simp [Command.encode, u32ToLe_length]
    omega
  have hoperation : (byteAt (Command.LoadM3Chunk offset data).encode 2).toNat = 7 := rfl
  have hoffset : u32FromLe (slice (Command.LoadM3Chunk offset data).encode 3 7) = offset :=
    u32FromLe_u32ToLe offset
  have hdata : (Command.LoadM3Chunk offset data).encode.drop 7 = data := rfl
  rw [command, if_neg (encode_guard _ hroom)]
  simp only [hoperation, hoffset, hdata]
  rw [if_pos hlength, if_neg (by omega), if_neg (by omega)]

theorem command_read (self : Controller Io) {offset : UInt32} {length : UInt16}
    {response : List UInt8} (hroom : length.toNat ≤ response.length) (hpos : 0 < response.length)
    (hfits : offset.toNat + length.toNat ≤ M3_BRAM_SIZE) :
    self.command (Command.ReadM3Bram offset length).encode response =
      let (data, io) := RegisterIo.readM3Bram offset.toNat length.toNat self.io
      (.ok length.toNat, ⟨io⟩, copyFromSlice response 0 data.toList) := by
  have hsmall : M3_BRAM_SIZE < 2 ^ 64 := by decide
  have hoperation : (byteAt (Command.ReadM3Bram offset length).encode 2).toNat = 8 := rfl
  have hoffset : u32FromLe (slice (Command.ReadM3Bram offset length).encode 3 7) = offset :=
    u32FromLe_u32ToLe offset
  have hnumber : u16FromLe (slice (Command.ReadM3Bram offset length).encode 7 9) = length :=
    u16FromLe_ofNat length
  have hnine : (Command.ReadM3Bram offset length).encode.length = 9 := rfl
  rw [command, if_neg (encode_guard _ hpos)]
  simp only [hoperation, hoffset, hnumber]
  rw [if_pos hnine, if_neg (by omega), if_neg (by omega), hnumber]

theorem command_control (self : Controller Io) (bits : UInt8) {response : List UInt8}
    (hroom : 0 < response.length) :
    self.command (Command.M3Control bits).encode response =
      (.ok 1, self.write REG_M3_CONTROL bits.toUInt32, response.set 0 0) := by
  rw [command, if_neg (encode_guard _ hroom)]
  rfl

end Controller

end Firmware
