import Zub1cg.Library.LittleEndian

/-!
# The host's wire model (`model/src/lib.rs`)

The control language of TCP 3401: the command codec, the length framing shared with
TCP 3240, and the decoding of the statistics reply.

## Main definitions

- `Command`, `Command.encode`, `Command.decode` — one control request
- `lengthFrame`, `lengthUnframe` — the little-endian length prefix
- `Stats`, `statsFromLe` — the 36-byte statistics reply
-/

namespace Model

def PROTOCOL_VERSION : UInt16 := 1
def MAX_CONTROL_PAYLOAD : ℕ := 4096
def MAX_DAP_PACKET : ℕ := 1024
def M3_BRAM_SIZE : ℕ := 0x10000

inductive Source where
  | CortexM3
  | R5
  | A53
  | Test
  deriving DecidableEq, Repr

inductive TraceFormat where
  | Tpiu1
  | Tpiu2
  | Tpiu4
  | SwoNrz
  | SwoManchester
  deriving DecidableEq, Repr

inductive ProtocolError where
  | Short
  | BadVersion (version : UInt16)
  | UnknownCommand (opcode : UInt8)
  | InvalidValue (what : String)
  | TooLarge (length : ℕ)
  | BadCobs
  | BadChecksum
  deriving DecidableEq, Repr

/-- `*source as u8` -/
def Source.toByte : Source → UInt8
  | CortexM3 => 0
  | R5 => 1
  | A53 => 2
  | Test => 3

/-- `TryFrom<u8> for Source` -/
def Source.tryFrom (value : UInt8) : Except ProtocolError Source :=
  match value.toNat with
  | 0 => .ok CortexM3
  | 1 => .ok R5
  | 2 => .ok A53
  | 3 => .ok Test
  | _ => .error (.InvalidValue "source")

/-- `*format as u8` -/
def TraceFormat.toByte : TraceFormat → UInt8
  | Tpiu1 => 0
  | Tpiu2 => 1
  | Tpiu4 => 2
  | SwoNrz => 3
  | SwoManchester => 4

/-- `TryFrom<u8> for TraceFormat` -/
def TraceFormat.tryFrom (value : UInt8) : Except ProtocolError TraceFormat :=
  match value.toNat with
  | 0 => .ok Tpiu1
  | 1 => .ok Tpiu2
  | 2 => .ok Tpiu4
  | 3 => .ok SwoNrz
  | 4 => .ok SwoManchester
  | _ => .error (.InvalidValue "format")

/-- One control request. -/
inductive Command where
  | GetInfo
  | Configure (source : Source) (format : TraceFormat) (swoBaud : UInt32)
  | Start
  | Stop
  | Reset
  | GetStats
  | LoadM3Chunk (offset : UInt32) (data : List UInt8)
  | ReadM3Bram (offset : UInt32) (length : UInt16)
  | M3Control (bits : UInt8)
  deriving DecidableEq, Repr

def Command.encode (self : Command) : List UInt8 :=
  LittleEndian.ofNat 2 PROTOCOL_VERSION.toNat ++
    match self with
    | GetInfo => [1]
    | Configure source format swoBaud => [2, source.toByte, format.toByte] ++ u32ToLe swoBaud
    | Start => [3]
    | Stop => [4]
    | Reset => [5]
    | GetStats => [6]
    | LoadM3Chunk offset data => [7] ++ u32ToLe offset ++ data
    | ReadM3Bram offset length => [8] ++ u32ToLe offset ++ LittleEndian.ofNat 2 length.toNat
    | M3Control bits => [9, bits]

def Command.decode (bytes : List UInt8) : Except ProtocolError Command :=
  if bytes.length < 3 then .error .Short
  else
    let version := u16FromLe (slice bytes 0 2)
    if version ≠ PROTOCOL_VERSION then .error (.BadVersion version)
    else
      match (byteAt bytes 2).toNat with
      | 1 => .ok GetInfo
      | 2 =>
        if bytes.length = 9 then do
          let source ← Source.tryFrom (byteAt bytes 3)
          let format ← TraceFormat.tryFrom (byteAt bytes 4)
          .ok (Configure source format (u32FromLe (slice bytes 5 9)))
        else .error .Short
      | 3 => .ok Start
      | 4 => .ok Stop
      | 5 => .ok Reset
      | 6 => .ok GetStats
      | 7 =>
        if 7 ≤ bytes.length then
          .ok (LoadM3Chunk (u32FromLe (slice bytes 3 7)) (bytes.drop 7))
        else .error .Short
      | 8 =>
        if bytes.length = 9 then
          .ok (ReadM3Bram (u32FromLe (slice bytes 3 7)) (u16FromLe (slice bytes 7 9)))
        else .error .Short
      | 9 => if bytes.length = 4 then .ok (M3Control (byteAt bytes 3)) else .error .Short
      | _ => .error (.UnknownCommand (byteAt bytes 2))

/-- Prefix a control or CMSIS-DAP payload with its little-endian length. -/
def lengthFrame (payload : List UInt8) (maximum : ℕ) : Except ProtocolError (List UInt8) :=
  if payload.length > maximum then .error (.TooLarge payload.length)
  else .ok (u32ToLe (UInt32.ofNat payload.length) ++ payload)

/-- Decode one length-prefixed item, returning it and the number of bytes used. -/
def lengthUnframe (bytes : List UInt8) (maximum : ℕ) : Except ProtocolError (List UInt8 × ℕ) :=
  if bytes.length < 4 then .error .Short
  else
    let len := (u32FromLe (slice bytes 0 4)).toNat
    if len > maximum then .error (.TooLarge len)
    else if bytes.length < len + 4 then .error .Short
    else .ok (slice bytes 4 (4 + len), len + 4)

/-- The counters of the statistics reply. -/
structure Stats where
  rxBytes : UInt64
  droppedBytes : UInt64
  syncLoss : UInt64
  fifoHighWater : UInt32
  dmaFaults : UInt64
  deriving DecidableEq, Repr

def statsFromLe (bytes : List UInt8) : Except ProtocolError Stats :=
  if bytes.length < 36 then .error .Short
  else .ok
    { rxBytes := u64FromLe (slice bytes 0 8)
      droppedBytes := u64FromLe (slice bytes 8 16)
      syncLoss := u64FromLe (slice bytes 16 24)
      fifoHighWater := u32FromLe (slice bytes 24 28)
      dmaFaults := u64FromLe (slice bytes 28 36) }

/-! ### Enumeration bytes -/

theorem Source.tryFrom_eq_ok_iff {value : UInt8} {source : Source} :
    Source.tryFrom value = .ok source ↔ value = source.toByte := by
  constructor
  · intro h
    unfold tryFrom at h
    split at h <;> cases h <;> exact UInt8.toNat_inj.mp (by assumption)
  · rintro rfl
    cases source <;> rfl

theorem Source.exists_tryFrom_iff {value : UInt8} :
    (∃ source, Source.tryFrom value = .ok source) ↔ value.toNat ≤ 3 := by
  constructor
  · rintro ⟨source, h⟩
    rw [tryFrom_eq_ok_iff.mp h]
    cases source <;> decide
  · intro h
    obtain hv | hv | hv | hv : value.toNat = 0 ∨ value.toNat = 1 ∨ value.toNat = 2 ∨
        value.toNat = 3 := by omega
    · exact ⟨.CortexM3, by simp [tryFrom, hv]⟩
    · exact ⟨.R5, by simp [tryFrom, hv]⟩
    · exact ⟨.A53, by simp [tryFrom, hv]⟩
    · exact ⟨.Test, by simp [tryFrom, hv]⟩

theorem TraceFormat.tryFrom_eq_ok_iff {value : UInt8} {format : TraceFormat} :
    TraceFormat.tryFrom value = .ok format ↔ value = format.toByte := by
  constructor
  · intro h
    unfold tryFrom at h
    split at h <;> cases h <;> exact UInt8.toNat_inj.mp (by assumption)
  · rintro rfl
    cases format <;> rfl

theorem TraceFormat.exists_tryFrom_iff {value : UInt8} :
    (∃ format, TraceFormat.tryFrom value = .ok format) ↔ value.toNat ≤ 4 := by
  constructor
  · rintro ⟨format, h⟩
    rw [tryFrom_eq_ok_iff.mp h]
    cases format <;> decide
  · intro h
    obtain hv | hv | hv | hv | hv : value.toNat = 0 ∨ value.toNat = 1 ∨ value.toNat = 2 ∨
        value.toNat = 3 ∨ value.toNat = 4 := by omega
    · exact ⟨.Tpiu1, by simp [tryFrom, hv]⟩
    · exact ⟨.Tpiu2, by simp [tryFrom, hv]⟩
    · exact ⟨.Tpiu4, by simp [tryFrom, hv]⟩
    · exact ⟨.SwoNrz, by simp [tryFrom, hv]⟩
    · exact ⟨.SwoManchester, by simp [tryFrom, hv]⟩

/-! ### Framing -/

/-- The prefix of `lengthFrame` reads back as the payload's length. -/
theorem lengthFrame_eq_ok_iff {payload framed : List UInt8} {maximum : ℕ} :
    lengthFrame payload maximum = .ok framed ↔
      payload.length ≤ maximum ∧ framed = u32ToLe (UInt32.ofNat payload.length) ++ payload := by
  rw [lengthFrame]
  split
  · simp; omega
  · simp only [Except.ok.injEq]
    exact ⟨fun h => ⟨by omega, h.symm⟩, fun h => h.2.symm⟩

end Model
