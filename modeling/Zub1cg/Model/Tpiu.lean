import Zub1cg.Library.LittleEndian

/-!
# The TPIU decoder on the host (`model/src/lib.rs`)

`TpiuDecoder` searches a byte stream for a sync packet and from there on takes it apart into
formatter frames of 16 bytes. The sync packet it looks for is a parameter of `pushAt`; `push`
is the source's.

## Main definitions

- `TpiuDecoder.push`, `TpiuDecoder.resetSync` — one byte, and the loss of synchronisation
- `formatterByte` — one position of a formatter frame
- `TpiuDecoder.feed` — a whole stream
-/

namespace Model

structure MuxedByte where
  channel : UInt8
  data : UInt8
  deriving DecidableEq, Repr

/-- The variables of the loop over a frame. -/
structure FrameLoop where
  channel : UInt8
  delayedChannel : Option UInt8
  out : List MuxedByte

/-- One turn of the loop over a frame. -/
def formatterByte (raw : List UInt8) (s : FrameLoop) (index : ℕ) : FrameLoop :=
  let isId := index % 2 = 0 ∧ byteAt raw index &&& 1 ≠ 0
  let data :=
    if index % 2 = 0 then
      byteAt raw index &&& 0xfe ||| byteAt raw 15 >>> UInt8.ofNat (index / 2) &&& 1
    else byteAt raw index
  if isId then
    let id := data >>> 1
    if data &&& 1 ≠ 0 then { s with delayedChannel := some id } else { s with channel := id }
  else
    let s := if s.channel ≠ 0 then { s with out := s.out ++ [⟨s.channel, data⟩] } else s
    match s.delayedChannel with
    | some next => { s with delayedChannel := none, channel := next }
    | none => s

structure TpiuDecoder where
  syncWindow : UInt32
  synced : Bool
  frame : List UInt8
  channel : UInt8
  delayedChannel : Option UInt8
  syncLosses : UInt64

namespace TpiuDecoder

/-- `TpiuDecoder::default()` -/
def initial : TpiuDecoder where
  syncWindow := 0
  synced := false
  frame := []
  channel := 0
  delayedChannel := none
  syncLosses := 0

def resetSync (d : TpiuDecoder) : TpiuDecoder :=
  { d with
    syncLosses := if d.synced then d.syncLosses + 1 else d.syncLosses
    synced := false
    frame := [] }

/-- `(self.sync_window >> 8) | ((byte as u32) << 24)` -/
def shiftIn (window : UInt32) (byte : UInt8) : UInt32 := window >>> 8 ||| byte.toUInt32 <<< 24

/-- One byte, for a decoder that locks when its window holds `sync`. -/
def pushAt (sync : UInt32) (d : TpiuDecoder) (byte : UInt8) : TpiuDecoder × List MuxedByte :=
  let d := { d with syncWindow := shiftIn d.syncWindow byte }
  if !d.synced then
    if d.syncWindow = sync then ({ d with synced := true, frame := [] }, []) else (d, [])
  else
    let frame := d.frame ++ [byte]
    if frame.length ≠ 16 then ({ d with frame := frame }, [])
    else
      let s := (List.range 15).foldl (formatterByte frame) ⟨d.channel, d.delayedChannel, []⟩
      ({ d with frame := [], channel := s.channel, delayedChannel := s.delayedChannel }, s.out)

/-- `TpiuDecoder::push` -/
def push (d : TpiuDecoder) (byte : UInt8) : TpiuDecoder × List MuxedByte := pushAt 0xffffff7f d byte

/-- The decoder and everything it has returned after a stream. -/
def feed (sync : UInt32) (d : TpiuDecoder) (bytes : List UInt8) : TpiuDecoder × List MuxedByte :=
  bytes.foldl (fun acc byte =>
    let (d, out) := pushAt sync acc.1 byte
    (d, acc.2 ++ out)) (d, [])

/-- The stream of the source's `push`. -/
def decode (d : TpiuDecoder) (bytes : List UInt8) : TpiuDecoder × List MuxedByte :=
  bytes.foldl (fun acc byte =>
    let (d, out) := acc.1.push byte
    (d, acc.2 ++ out)) (d, [])

end TpiuDecoder

end Model
