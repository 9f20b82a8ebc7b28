import Zub1cg.Model.Wire

/-!
# The host's side of a connection (`model/src/main.rs`)

The host writes one frame and reads one frame back. What the other end sends in reaction
is a parameter; the bytes that have arrived and are not read yet are kept in an inbox. A
read that finds too few bytes there runs into the end of the stream or the timeout.

## Main definitions

- `HostError` — the errors the program reports
- `Peer` — the other end of a stream
- `readFrame`, `transactFrame` — reading a frame, and one exchange of frames
-/

namespace Model

/-- The errors of the program, by the text it gives them. -/
inductive HostError where
  /-- an operation on a socket fails -/
  | Socket
  /-- "frame too large" -/
  | FrameTooLarge
  /-- the text of an error of the wire model -/
  | Protocol (e : ProtocolError)
  /-- "CMSIS-DAP JTAG sequence failed" -/
  | SequenceFailed
  /-- "unknown remote-bitbang byte" with the byte -/
  | UnknownByte (byte : UInt8)
  /-- "M3 image is too short to hold a reset vector" -/
  | ImageTooShort
  /-- "M3 image is ... bytes; BRAM holds at most ..." -/
  | ImageTooLong (length : ℕ)
  /-- "readback mismatch: M3 BRAM does not contain the uploaded image" -/
  | ReadbackMismatch
  deriving DecidableEq, Repr

/-- The other end of a stream: what it sends when the given bytes are written, or `none` when
the write fails. -/
abbrev Peer (σ : Type) := List UInt8 → σ → Option (List UInt8) × σ

/-- Read one frame out of the bytes that have arrived. -/
def readFrame (inbox : List UInt8) (maximum : ℕ) : Except HostError (List UInt8) × List UInt8 :=
  if inbox.length < 4 then (.error .Socket, [])
  else
    let size := (u32FromLe (slice inbox 0 4)).toNat
    if size > maximum then (.error .FrameTooLarge, inbox.drop 4)
    else if inbox.length < 4 + size then (.error .Socket, [])
    else (.ok (slice inbox 4 (4 + size)), inbox.drop (4 + size))

/-- Write one frame and read one: the result, the other end and the inbox after it. -/
def transactFrame {σ : Type} (peer : Peer σ) (maximum : ℕ) (payload : List UInt8) (s : σ)
    (inbox : List UInt8) : Except HostError (List UInt8) × σ × List UInt8 :=
  match lengthFrame payload maximum with
  | .error e => (.error (.Protocol e), s, inbox)
  | .ok framed =>
    match peer framed s with
    | (none, s) => (.error .Socket, s, inbox)
    | (some sent, s) =>
      let (result, inbox) := readFrame (inbox ++ sent) maximum
      (result, s, inbox)

end Model
