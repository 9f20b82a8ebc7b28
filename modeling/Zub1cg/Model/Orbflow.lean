import Zub1cg.Model.Wire
import Mathlib.Data.List.Sort

/-!
# Orbflow frames on the host (`model/src/lib.rs`)

A frame is a channel byte, a payload and a checksum, COBS encoded and ended by a zero byte.
The encoder leaves room for a code byte and fills it in once the run behind it is known;
the decoder walks over the code bytes.

## Main definitions

- `cobsEncode`, `cobsDecode` — the byte stuffing
- `orbflowFrame`, `orbflowUnframe` — one frame
- `reconstructChannelStream` — one channel of a whole capture
- `channelHistogram` — the number of valid frames on each channel
-/

namespace Model

/-- The variables of the loop in `cobs_encode`. -/
structure CobsWriter where
  out : List UInt8
  codeIndex : ℕ
  code : UInt8

/-- One turn of the loop in `cobs_encode`. -/
def CobsWriter.push (w : CobsWriter) (byte : UInt8) : CobsWriter :=
  if byte = 0 then
    { out := w.out.set w.codeIndex w.code ++ [0], codeIndex := w.out.length, code := 1 }
  else
    let out := w.out ++ [byte]
    let code := w.code + 1
    if code = 0xff then
      { out := out.set w.codeIndex code ++ [0], codeIndex := out.length, code := 1 }
    else { out := out, codeIndex := w.codeIndex, code := code }

/-- Standard Consistent Overhead Byte Stuffing, without delimiter. -/
def cobsEncode (input : List UInt8) : List UInt8 :=
  let w := input.foldl CobsWriter.push { out := [0], codeIndex := 0, code := 1 }
  w.out.set w.codeIndex w.code

/-- The inner loop of `cobs_decode`: move `n` bytes from the input to the output. -/
def copyRun : ℕ → List UInt8 → List UInt8 → Except ProtocolError (List UInt8 × List UInt8)
  | 0, rest, out => .ok (rest, out)
  | _ + 1, [], _ => .error .BadCobs
  | n + 1, byte :: rest, out => copyRun n rest (out ++ [byte])

theorem copyRun_length {n : ℕ} {rest out rest' out' : List UInt8}
    (h : copyRun n rest out = .ok (rest', out')) : rest'.length ≤ rest.length := by
  induction n generalizing rest out with
  | zero =>
    cases h
    exact Nat.le_refl _
  | succ n ih =>
    cases rest with
    | nil => cases h
    | cons byte rest => exact (ih h).trans (Nat.le_succ _)

/-- The outer loop of `cobs_decode`, on what is left of the input. -/
def cobsDecodeFrom (rest out : List UInt8) : Except ProtocolError (List UInt8) :=
  match rest with
  | [] => .ok out
  | code :: tail =>
    -- `pos + code > input.len() + 1`
    if code.toNat = 0 ∨ code.toNat > (code :: tail).length + 1 then .error .BadCobs
    else
      match _hrun : copyRun (code.toNat - 1) tail out with
      | .error e => .error e
      | .ok (rest, out) =>
        if code ≠ 0xff ∧ rest ≠ [] then cobsDecodeFrom rest (out ++ [0])
        else cobsDecodeFrom rest out
termination_by rest.length
decreasing_by
  all_goals
    have := copyRun_length _hrun
    simp only [List.length_cons]
    omega

def cobsDecode (input : List UInt8) : Except ProtocolError (List UInt8) := cobsDecodeFrom input []

/-- `packet.iter().fold(0u8, |sum, byte| sum.wrapping_add(*byte))` -/
def byteSum (packet : List UInt8) : UInt8 := packet.foldl (· + ·) 0

/-- Append the wrapping two's complement of the sum of all bytes. -/
def appendChecksum (packet : List UInt8) : List UInt8 := packet ++ [0 - byteSum packet]

def verifyChecksum (packet : List UInt8) : Bool := !packet.isEmpty && byteSum packet == 0

/-- Channel byte, payload and checksum, COBS encoded, then zero delimited. -/
def orbflowFrame (channel : UInt8) (payload : List UInt8) : Except ProtocolError (List UInt8) :=
  if channel > 0x7f then .error (.InvalidValue "channel")
  else .ok (cobsEncode (appendChecksum (channel :: payload)) ++ [0])

def orbflowUnframe (frame : List UInt8) : Except ProtocolError (UInt8 × List UInt8) := do
  -- `frame.strip_suffix(&[0]).unwrap_or(frame)`
  let encoded := if frame.getLast? = some 0 then frame.dropLast else frame
  let raw ← cobsDecode encoded
  if raw.length < 2 ∨ verifyChecksum raw = false then .error .BadChecksum
  else .ok (byteAt raw 0, slice raw 1 (raw.length - 1))

/-- One turn of the loop in `reconstruct_channel_stream`. -/
def reconstructFrame (channel : UInt8) (stream frame : List UInt8) : List UInt8 :=
  if frame.isEmpty then stream
  else
    match orbflowUnframe frame with
    | .ok (frameChannel, payload) => if frameChannel = channel then stream ++ payload else stream
    | .error _ => stream

/-- Recover one channel's byte stream from a capture. -/
def reconstructChannelStream (capture : List UInt8) (channel : UInt8) : List UInt8 :=
  (capture.splitOn 0).foldl (reconstructFrame channel) []

/-- One turn of the loop in `channel_histogram`. -/
def countFrame (counts : Std.TreeMap UInt8 ℕ) (frame : List UInt8) : Std.TreeMap UInt8 ℕ :=
  if frame.isEmpty then counts
  else
    match orbflowUnframe frame with
    | .ok (channel, _) => counts.insert channel (counts.getD channel 0 + 1)
    | .error _ => counts

/-- `entries.sort_by(|a, b| b.1.cmp(&a.1).then(a.0.cmp(&b.0)))` -/
def mostFrequentFirst (a b : UInt8 × ℕ) : Bool :=
  ((compare b.2 a.2).then (compare a.1 b.1)).isLE

/-- How many valid frames were seen per channel, most frequent first. -/
def channelHistogram (capture : List UInt8) : List (UInt8 × ℕ) :=
  ((capture.splitOn 0).foldl countFrame ∅).toList.mergeSort mostFrequentFirst

end Model
