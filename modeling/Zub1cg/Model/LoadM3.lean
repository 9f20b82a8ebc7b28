import Zub1cg.Model.Host

/-!
# Loading the M3 (`load_m3` in `model/src/main.rs`)

The host holds the M3 in reset, sends its image in chunks, reads the reset vector back and
releases the reset. Every command goes over a connection of its own.

## Main definitions

- `transact` — one command
- `loadM3` — the whole load
-/

namespace Model

def M3_BRAM_CHUNK : ℕ := 2048
def M3_CONTROL_RELEASE : UInt32 := (1 : UInt32) <<< 0

variable {σ : Type}

/-- One command and the answer to it. -/
def transact (peer : Peer σ) (command : Command) (s : σ) : Except HostError (List UInt8) × σ :=
  let (result, s, _) := transactFrame peer MAX_CONTROL_PAYLOAD command.encode s []
  (result, s)

/-- `xs.chunks(size)` -/
def chunks {α : Type*} (size : ℕ) (xs : List α) : List (List α) :=
  (List.range ((xs.length + size - 1) / size)).map fun k => (xs.drop (k * size)).take size

/-- The loop over the chunks. -/
def sendChunks (peer : Peer σ) : List (List UInt8 × ℕ) → σ → Except HostError Unit × σ
  | [], s => (.ok (), s)
  | (chunk, chunkIndex) :: rest, s =>
    let offset := UInt32.ofNat (chunkIndex * M3_BRAM_CHUNK)
    match transact peer (.LoadM3Chunk offset chunk) s with
    | (.error e, s) => (.error e, s)
    | (.ok _, s) => sendChunks peer rest s

def loadM3 (peer : Peer σ) (image : List UInt8) (s : σ) : Except HostError Unit × σ :=
  if image.length < 8 then (.error .ImageTooShort, s)
  else if image.length > M3_BRAM_SIZE then (.error (.ImageTooLong image.length), s)
  else
    match transact peer (.M3Control 0) s with
    | (.error e, s) => (.error e, s)
    | (.ok _, s) =>
      match sendChunks peer (chunks M3_BRAM_CHUNK image).zipIdx s with
      | (.error e, s) => (.error e, s)
      | (.ok _, s) =>
        let checkLen := UInt16.ofNat (min image.length 16)
        match transact peer (.ReadM3Bram 0 checkLen) s with
        | (.error e, s) => (.error e, s)
        | (.ok readback, s) =>
          if readback ≠ image.take checkLen.toNat then (.error .ReadbackMismatch, s)
          else
            match transact peer (.M3Control M3_CONTROL_RELEASE.toUInt8) s with
            | (.error e, s) => (.error e, s)
            | (.ok _, s) => (.ok (), s)

end Model
