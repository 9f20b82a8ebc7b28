import Zub1cg.Library.LittleEndian
import Mathlib.Data.List.Basic
import Mathlib.Data.UInt
import Mathlib.Tactic.Ring

/-!
# ITM packets and their picture (`model/src/lib.rs`)

The host decodes the M3's trace into ITM packets, tells by its shape what a packet on port 0
stands for, and draws the packets on tracks; on one more track it counts where the sequence
numbers have a gap.

## Main definitions

- `encodeSwit`, `decodeItmStream` — packets as bytes
- `classifyPort0` — the meaning of a packet on port 0
- `buildPerfettoTrace` — the tracks

## Main results

- `decodeItmStream_swit` — a packet is decoded as it was encoded
- `Builder.step_timestamp` — what one packet does to the gaps
-/

namespace Model

/-- One decoded packet. -/
inductive ItmPacket where
  | Swit (port : UInt8) (value : UInt32) (width : UInt8)
  | Unrecognized (header : UInt8)
  deriving DecidableEq, Repr

/-! ### Packets as bytes -/

/-- `size_code`; there is none for any other width. -/
def sizeCode (width : UInt8) : Option UInt8 :=
  match width.toNat with
  | 1 => some 1
  | 2 => some 2
  | 4 => some 3
  | _ => none

def encodeSwit (port : UInt8) (value : UInt32) (width : UInt8) : Option (List UInt8) :=
  (sizeCode width).map fun code =>
    ((port <<< 3) ||| code) :: slice (u32ToLe value) 0 width.toNat

/-- The payload's width, if the header is that of a SWIT packet. -/
def headerWidth (header : UInt8) : Option ℕ :=
  match (header &&& 0x7).toNat with
  | 1 => some 1
  | 2 => some 2
  | 3 => some 4
  | _ => none

/-- `value |= (*byte as u32) << (8 * index)` for each byte of the payload. -/
def payloadValue (payload : List UInt8) : UInt32 :=
  payload.zipIdx.foldl
    (fun value item => value ||| (item.1.toUInt32 <<< UInt32.ofNat (8 * item.2))) 0

/-- `decode_itm_stream`, on the bytes from `pos` on. -/
def decodeItmStream : List UInt8 → List ItmPacket
  | [] => []
  | header :: bytes =>
    match headerWidth header with
    | none => .Unrecognized header :: decodeItmStream bytes
    | some width =>
      if bytes.length < width then .Unrecognized header :: decodeItmStream bytes
      else
        .Swit (header >>> 3) (payloadValue (bytes.take width)) (UInt8.ofNat width) ::
          decodeItmStream (bytes.drop width)
termination_by bytes => bytes.length
decreasing_by all_goals (simp only [List.length_cons, List.length_drop]; omega)

/-! ### The tracks -/

/-- What a packet on port 0 stands for. -/
inductive Port0Event where
  | Timestamp (value : UInt32)
  | Idle (value : UInt32)
  | Malformed (value : UInt8)
  | Fault (value : UInt32)
  | Unknown (value : UInt32)
  deriving DecidableEq, Repr

def classifyPort0 (value : UInt32) (width : UInt8) : Port0Event :=
  if width = 1 then .Malformed value.toUInt8
  else if width = 4 ∧ value &&& 0xffff0000 = 0xf0010000 then .Fault value
  else if width = 4 ∧ value ≠ 0 ∧ value % 16 = 0 then .Timestamp value
  else if width = 4 ∧ 1 ≤ value ∧ value ≤ 1024 then .Idle value
  else .Unknown value

/-- `{:#x}`, with zeros up to `digits` digits. -/
def hexString (digits : ℕ) (value : ℕ) : String :=
  let text := Nat.toDigits 16 value
  "0x" ++ String.ofList (List.replicate (digits - text.length) '0' ++ text)

def eventName (port : UInt8) (value : UInt32) (width : UInt8) : String :=
  if port = 0 then
    match classifyPort0 value width with
    | .Timestamp v => "Timestamp(" ++ toString v ++ ")"
    | .Idle v => "Idle(" ++ toString v ++ ")"
    | .Malformed v => "Malformed(" ++ hexString 2 v.toNat ++ ")"
    | .Fault v => "Fault(" ++ hexString 8 v.toNat ++ ")"
    | .Unknown v => "Unknown(" ++ hexString 1 v.toNat ++ ")"
  else "port " ++ toString port ++ " = " ++ hexString 1 value.toNat

/-- An instant on the track of a port. -/
structure PerfettoEvent where
  port : UInt8
  ts : ℕ
  name : String
  value : UInt32
  width : UInt8
  deriving DecidableEq, Repr

/-- The instants, and the samples of the counter track: when, and how many gaps so far. -/
structure PerfettoTrace where
  events : List PerfettoEvent
  sequenceGaps : List (ℕ × ℕ)
  deriving DecidableEq, Repr

/-- The variables of `build_perfetto_trace`. -/
structure Builder where
  trace : PerfettoTrace
  lastTimestamp : Option UInt32
  gapCount : ℕ
  ts : ℕ
  deriving DecidableEq, Repr

def Builder.initial : Builder :=
  { trace := { events := [], sequenceGaps := [] }, lastTimestamp := none, gapCount := 0, ts := 0 }

/-- A timestamp is held against the one before it. -/
def Builder.timestamp (b : Builder) (v : UInt32) : Builder :=
  let b :=
    match b.lastTimestamp with
    | some previous =>
      if v ≠ previous + 16 then
        { b with
          gapCount := b.gapCount + 1
          trace :=
            { b.trace with sequenceGaps := b.trace.sequenceGaps ++ [(b.ts, b.gapCount + 1)] } }
      else b
    | none => b
  { b with lastTimestamp := some v }

/-- One turn of the loop. -/
def Builder.step (b : Builder) : ItmPacket → Builder
  | .Unrecognized _ => b
  | .Swit port value width =>
    let b :=
      if port = 0 then
        match classifyPort0 value width with
        | .Timestamp v => b.timestamp v
        | _ => b
      else b
    { b with
      trace :=
        { b.trace with
          events := b.trace.events ++
            [{ port := port, ts := b.ts, name := eventName port value width, value := value,
               width := width }] }
      ts := b.ts + 1 }

def buildPerfettoTrace (packets : List ItmPacket) : PerfettoTrace :=
  (packets.foldl Builder.step Builder.initial).trace

/-! ### Round trip -/

/-- A byte goes above the bytes that are there already. -/
theorem or_shift_toNat {value : UInt32} {k : ℕ} (hvalue : value.toNat < 2 ^ (8 * k)) (hk : k < 4)
    (byte : UInt8) :
    (value ||| (byte.toUInt32 <<< UInt32.ofNat (8 * k))).toNat =
      value.toNat + byte.toNat * 2 ^ (8 * k) := by
  have hbyte : byte.toNat < 2 ^ 8 := byte.toNat_lt
  have hshift : (UInt32.ofNat (8 * k)).toNat % 32 = 8 * k := by
    rw [UInt32.toNat_ofNat']
    omega
  have hfit : byte.toNat * 2 ^ (8 * k) < 2 ^ 32 := by
    have hpow : 2 ^ (8 * k) ≤ 2 ^ 24 := Nat.pow_le_pow_right (by decide) (by omega)
    exact lt_of_le_of_lt (Nat.mul_le_mul_left _ hpow) (by omega)
  rw [UInt32.toNat_or, UInt32.toNat_shiftLeft, UInt8.toNat_toUInt32, hshift, Nat.shiftLeft_eq,
    Nat.mod_eq_of_lt hfit, Nat.or_comm, Nat.mul_comm, ← Nat.two_pow_add_eq_or_of_lt hvalue]
  omega

/-- The loop over the payload, with `k` bytes behind it. -/
theorem payload_loop (payload : List UInt8) (k : ℕ) (value : UInt32)
    (hvalue : value.toNat < 2 ^ (8 * k)) (hlength : k + payload.length ≤ 4) :
    ((payload.zipIdx k).foldl
      (fun value item => value ||| (item.1.toUInt32 <<< UInt32.ofNat (8 * item.2))) value).toNat =
      value.toNat + LittleEndian.toNat payload * 2 ^ (8 * k) := by
  induction payload generalizing k value with
  | nil => rw [List.zipIdx_nil, List.foldl_nil, LittleEndian.toNat_nil]; omega
  | cons byte payload ih =>
    rw [List.length_cons] at hlength
    have hstep := or_shift_toNat hvalue (by omega) byte
    have hbyte : byte.toNat < 2 ^ 8 := byte.toNat_lt
    have hpow : 2 ^ (8 * (k + 1)) = 2 ^ (8 * k) * 2 ^ 8 := by rw [← pow_add]; rfl
    have hnext :
        (value ||| (byte.toUInt32 <<< UInt32.ofNat (8 * k))).toNat < 2 ^ (8 * (k + 1)) := by
      rw [hstep, hpow]
      have hle : byte.toNat * 2 ^ (8 * k) ≤ (2 ^ 8 - 1) * 2 ^ (8 * k) :=
        Nat.mul_le_mul_right _ (by omega)
      omega
    rw [List.zipIdx_cons, List.foldl_cons, ih (k + 1) _ hnext (by omega), hstep,
      LittleEndian.toNat_cons, hpow]
    ring

/-- The payload is read as a little-endian number. -/
theorem payloadValue_le {payload : List UInt8} (h : payload.length ≤ 4) :
    (payloadValue payload).toNat = LittleEndian.toNat payload := by
  have hloop := payload_loop payload 0 0 (by decide) (by omega)
  rw [payloadValue, hloop]
  change 0 + LittleEndian.toNat payload * 2 ^ 0 = _
  omega

/-- The header gives back the port and the width. -/
theorem swit_header {port width code : UInt8} (hport : port.toNat < 32)
    (hcode : sizeCode width = some code) :
    ((port <<< 3) ||| code) >>> 3 = port ∧
      headerWidth ((port <<< 3) ||| code) = some width.toNat := by
  have hall : ∀ n < 32, ∀ code ∈ [(1 : UInt8), 2, 3],
      ((UInt8.ofNat n <<< 3) ||| code) >>> 3 = UInt8.ofNat n ∧
        ((UInt8.ofNat n <<< 3) ||| code) &&& 0x7 = code := by decide +kernel
  unfold sizeCode at hcode
  have hcase : (width.toNat = 1 ∧ code = 1) ∨ (width.toNat = 2 ∧ code = 2) ∨
      (width.toNat = 4 ∧ code = 3) := by
    split at hcode <;> simp_all
  have hheader := hall port.toNat hport code (by obtain h | h | h := hcase <;> simp [h.2])
  rw [UInt8.ofNat_toNat] at hheader
  refine ⟨hheader.1, ?_⟩
  rw [headerWidth, hheader.2]
  obtain ⟨hwidth, rfl⟩ | ⟨hwidth, rfl⟩ | ⟨hwidth, rfl⟩ := hcase
  all_goals rw [hwidth]; rfl

/-- **A packet is decoded as it was encoded**, whatever follows it: of the value there is what the
width has room for. -/
theorem decodeItmStream_swit {port width : UInt8} {value : UInt32} {bytes : List UInt8}
    (hport : port.toNat < 32) (h : encodeSwit port value width = some bytes)
    (rest : List UInt8) :
    decodeItmStream (bytes ++ rest) =
      .Swit port (UInt32.ofNat (value.toNat % 256 ^ width.toNat)) width ::
        decodeItmStream rest := by
  rw [encodeSwit, Option.map_eq_some_iff] at h
  obtain ⟨code, hcode, rfl⟩ := h
  obtain ⟨hback, hheader⟩ := swit_header hport hcode
  have hwidth : width.toNat ≤ 4 := by
    unfold sizeCode at hcode
    split at hcode <;> simp_all
  have hlength : (slice (u32ToLe value) 0 width.toNat).length = width.toNat := by
    rw [slice, List.drop_zero, List.length_take, u32ToLe_length]
    omega
  have hvalue : payloadValue (slice (u32ToLe value) 0 width.toNat) =
      UInt32.ofNat (value.toNat % 256 ^ width.toNat) := by
    apply UInt32.toNat_inj.mp
    have hfit : value.toNat % 256 ^ width.toNat < 2 ^ 32 :=
      lt_of_le_of_lt (Nat.mod_le _ _) value.toNat_lt
    rw [payloadValue_le (by rw [hlength]; exact hwidth), slice, List.drop_zero, u32ToLe,
      LittleEndian.take_ofNat hwidth, LittleEndian.toNat_ofNat, UInt32.toNat_ofNat_of_lt' hfit]
  rw [List.cons_append, decodeItmStream, hheader]
  dsimp only
  rw [if_neg (by rw [List.length_append, hlength]; omega), List.take_left' hlength,
    List.drop_left' hlength, hback, hvalue, UInt8.ofNat_toNat]

/-! ### Gaps -/

/-- The timestamp that a packet is taken for. -/
def ItmPacket.timestamp : ItmPacket → Option UInt32
  | Unrecognized _ => none
  | Swit port value width =>
    if port = 0 then
      match classifyPort0 value width with
      | .Timestamp v => some v
      | _ => none
    else none

/-- One packet adds a gap if it is taken for a timestamp that does not follow the one before it,
and only then. -/
theorem Builder.step_timestamp (b : Builder) (packet : ItmPacket) :
    (b.step packet).lastTimestamp = packet.timestamp.or b.lastTimestamp ∧
    b.trace.sequenceGaps <+: (b.step packet).trace.sequenceGaps ∧
    ((b.step packet).trace.sequenceGaps = [] ↔ b.trace.sequenceGaps = [] ∧
      ∀ v previous, packet.timestamp = some v → b.lastTimestamp = some previous →
        v = previous + 16) := by
  cases packet with
  | Unrecognized header => simp [Builder.step, ItmPacket.timestamp]
  | Swit port value width =>
    rw [Builder.step, ItmPacket.timestamp]
    by_cases hport : port = 0
    · rw [if_pos hport, if_pos hport]
      cases classifyPort0 value width with
      | Timestamp v =>
        cases hlast : b.lastTimestamp with
        | none => simp [Builder.timestamp, hlast]
        | some previous =>
          by_cases hgap : v = previous + 16
          · simp [Builder.timestamp, hlast, hgap]
          · simp [Builder.timestamp, hlast, hgap]
      | _ => simp
    · simp [hport]

end Model
