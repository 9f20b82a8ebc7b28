import Zub1cg.Model.Host

/-!
# The remote-bitbang bridge (`model/src/main.rs`)

The bridge reads the characters of an OpenOCD client one by one and turns them into
CMSIS-DAP packets. A pin character carries the levels of TCK, TMS and TDI.

## Main definitions

- `RemoteBitbang.handle`, `RemoteBitbang.run` — one character, and the whole loop
- `RemoteBitbang.risingEdges` — where a stream of characters raises TCK

## Main results

- `RemoteBitbang.run_clocks` — the bridge clocks the target for every character with TCK high
- `RemoteBitbang.clocks_iff` — when that is once for each rising edge
-/

namespace Model.RemoteBitbang

variable {σ : Type}

/-! ### The bridge -/

/-- The two sockets: the CMSIS-DAP stream, and whether the client takes a byte. -/
structure World (σ : Type) where
  dap : Peer σ
  client : UInt8 → σ → Bool × σ

/-- The variables of the loop, with the packets sent and the bytes written to the client. -/
structure Bridge (σ : Type) where
  world : σ
  inbox : List UInt8
  lastTdo : Bool
  packets : List (List UInt8)
  written : List UInt8

def start (world : σ) : Bridge σ where
  world := world
  inbox := []
  lastTdo := false
  packets := []
  written := []

def dapTransaction (w : World σ) (packet : List UInt8) (s : Bridge σ) :
    Except HostError (List UInt8) × Bridge σ :=
  let (result, world, inbox) := transactFrame w.dap MAX_DAP_PACKET packet s.world s.inbox
  (result, { s with world := world, inbox := inbox, packets := s.packets ++ [packet] })

/-- `b'0'..=b'7'` -/
def isPins (byte : UInt8) : Bool := 0x30 ≤ byte && byte ≤ 0x37

/-- Remote-bitbang bits are TCK:TMS:TDI. -/
def tck (byte : UInt8) : Bool := (byte - 0x30) &&& 4 != 0

def tms (byte : UInt8) : Bool := (byte - 0x30) &&& 2 != 0

def tdi (byte : UInt8) : UInt8 := (byte - 0x30) &&& 1

/-- The CMSIS-DAP sequence of one clock. -/
def clockPacket (byte : UInt8) : List UInt8 :=
  [0x14, 1, 1 ||| (if tms byte then 0x80 else 0), tdi byte]

/-- The pin levels of a reset character. -/
def resetValue (byte : UInt8) : UInt8 :=
  match byte.toNat with
  | 0x72 => 0xa0
  | 0x73 => 0x20
  | 0x74 => 0x80
  | _ => 0

/-- `if last_tdo { b"1" } else { b"0" }` -/
def answer (s : Bridge σ) : UInt8 := if s.lastTdo then 0x31 else 0x30

/-- One character of the client; `none` keeps the loop going. -/
def handle (w : World σ) (byte : UInt8) (s : Bridge σ) :
    Option (Except HostError Unit) × Bridge σ :=
  if isPins byte then
    if tck byte then
      match dapTransaction w (clockPacket byte) s with
      | (.error e, s) => (some (.error e), s)
      | (.ok response, s) =>
        if response[0]? ≠ some 0x14 ∨ response[1]? ≠ some 0 then
          (some (.error .SequenceFailed), s)
        else (none, { s with lastTdo := (response[2]?).getD 0 &&& 1 != 0 })
    else (none, s)
  else if byte = 0x52 then -- 'R'
    match w.client (answer s) s.world with
    | (true, world) => (none, { s with world := world, written := s.written ++ [answer s] })
    | (false, world) => (some (.error .Socket), { s with world := world })
  else if 0x72 ≤ byte ∧ byte ≤ 0x75 then -- 'r'..='u'
    match dapTransaction w [0x10, resetValue byte, 0xa0, 0, 0, 0, 0] s with
    | (.error e, s) => (some (.error e), s)
    | (.ok _, s) => (none, s)
  else if byte = 0x51 then (some (.ok ()), s) -- 'Q'
  else if byte = 0x42 ∨ byte = 0x62 then (none, s) -- 'B' and 'b'
  else (some (.error (.UnknownByte byte)), s)

/-- The loop over the client's characters, up to the one that ends it or the end of the
stream: the result, the bridge after it, and the characters that were read. -/
def run (w : World σ) : List UInt8 → Bridge σ → Except HostError Unit × Bridge σ × List UInt8
  | [], s => (.ok (), s, [])
  | byte :: rest, s =>
    match handle w byte s with
    | (some result, s) => (result, s, [byte])
    | (none, s) =>
      let (result, s, read) := run w rest s
      (result, s, byte :: read)

/-! ### Clocks and edges -/

/-- The JTAG clock transactions among the packets sent. -/
def clocks (s : Bridge σ) : List (List UInt8) := s.packets.filter fun packet => packet[0]? == some 0x14

/-- The characters of a stream that raise TCK, which is at `level` in front of it. -/
def risingEdges (level : Bool) : List UInt8 → List UInt8
  | [] => []
  | byte :: rest =>
    if isPins byte then
      (if tck byte && !level then [byte] else []) ++ risingEdges (tck byte) rest
    else risingEdges level rest

/-- Some pin character leaves TCK high where it already is. -/
def staysHigh (level : Bool) : List UInt8 → Bool
  | [] => false
  | byte :: rest =>
    if isPins byte then (tck byte && level) || staysHigh (tck byte) rest
    else staysHigh level rest

/-- The pin characters with TCK high. -/
def highs (stream : List UInt8) : List UInt8 := stream.filter fun byte => isPins byte && tck byte

/-- A stream up to its first `Q`. -/
def untilQuit : List UInt8 → List UInt8
  | [] => []
  | byte :: rest => if byte = 0x51 then [byte] else byte :: untilQuit rest

/-! ### What one character issues -/

theorem dapTransaction_packets (w : World σ) (packet : List UInt8) (s : Bridge σ) :
    (dapTransaction w packet s).2.packets = s.packets ++ [packet] := rfl

theorem clocks_concat {s s' : Bridge σ} {packet : List UInt8}
    (h : s'.packets = s.packets ++ [packet]) :
    clocks s' = clocks s ++ if packet[0]? == some 0x14 then [packet] else [] := by
  rw [clocks, clocks, h, List.filter_append]
  cases hkind : packet[0]? == some 0x14 <;> simp [hkind]

theorem highs_singleton (byte : UInt8) :
    highs [byte] = if isPins byte && tck byte then [byte] else [] := by
  cases h : isPins byte && tck byte <;> simp [highs, h]

/-- **One character.** A pin character with TCK high issues its clock, whatever comes of it;
no other character issues one. -/
theorem handle_clocks (w : World σ) (byte : UInt8) (s : Bridge σ) :
    clocks (handle w byte s).2 = clocks s ++ (highs [byte]).map clockPacket := by
  rw [highs_singleton, handle]
  cases hpins : isPins byte with
  | true =>
    cases htck : tck byte with
    | true =>
      have hissued := clocks_concat (dapTransaction_packets w (clockPacket byte) s)
      simp only [if_true]
      split
      · next hresult =>
        rw [hresult] at hissued
        exact hissued
      · next hresult =>
        rw [hresult] at hissued
        split <;> exact hissued
    | false => exact (List.append_nil _).symm
  | false =>
    show _ = clocks s ++ []
    rw [List.append_nil]
    have hreset := clocks_concat
      (dapTransaction_packets w [0x10, resetValue byte, 0xa0, 0, 0, 0, 0] s)
    simp only [Bool.false_eq_true, if_false]
    split
    · split <;> rfl
    · split
      · split
        · next hresult =>
          rw [hresult] at hreset
          simpa using hreset
        · next hresult =>
          rw [hresult] at hreset
          simpa using hreset
      · split
        · rfl
        · split <;> rfl

/-- Only a `Q` ends the loop without an error. -/
theorem handle_ok {w : World σ} {byte : UInt8} {s : Bridge σ}
    (h : (handle w byte s).1 = some (.ok ())) : byte = 0x51 := by
  rw [handle] at h
  split at h
  · split at h
    · split at h
      · cases h
      · split at h <;> cases h
    · cases h
  · split at h
    · split at h <;> cases h
    · split at h
      · split at h <;> cases h
      · split at h
        · assumption
        · split at h <;> cases h

/-- A `Q` ends the loop. -/
theorem handle_quit (w : World σ) (s : Bridge σ) : handle w 0x51 s = (some (.ok ()), s) := rfl

/-- **The whole loop.** The clocks issued are those of the characters with TCK high, of all
that have been read. -/
theorem run_clocks (w : World σ) (stream : List UInt8) (s : Bridge σ) :
    clocks (run w stream s).2.1 = clocks s ++ (highs (run w stream s).2.2).map clockPacket := by
  induction stream generalizing s with
  | nil => simp [run, highs]
  | cons byte rest ih =>
    have hone := handle_clocks w byte s
    rw [run]
    split
    · next hhandle =>
      rw [hhandle] at hone
      exact hone
    · next s' hhandle =>
      rw [hhandle] at hone
      have hread : highs (byte :: (run w rest s').2.2) =
          highs [byte] ++ highs (run w rest s').2.2 := by
        rw [highs, highs, highs, ← List.filter_append]
        rfl
      show clocks (run w rest s').2.1 = _
      rw [ih s', hone, hread, List.map_append, List.append_assoc]

/-! ### Edges among the characters -/

/-- The characters that raise TCK are among those with TCK high. -/
theorem risingEdges_sublist (level : Bool) (stream : List UInt8) :
    (risingEdges level stream).Sublist (highs stream) := by
  induction stream generalizing level with
  | nil => exact List.Sublist.refl _
  | cons byte rest ih =>
    rw [risingEdges, highs, List.filter_cons]
    cases isPins byte with
    | false => exact ih level
    | true =>
      cases tck byte with
      | false => exact ih false
      | true =>
        cases level with
        | false => exact (ih true).cons_cons byte
        | true => exact (ih true).cons byte

/-- They are all of them unless some character leaves TCK high. -/
theorem risingEdges_eq_iff (level : Bool) (stream : List UInt8) :
    (risingEdges level stream).length = (highs stream).length ↔ staysHigh level stream = false := by
  induction stream generalizing level with
  | nil => simp [risingEdges, highs, staysHigh]
  | cons byte rest ih =>
    rw [risingEdges, highs, List.filter_cons, staysHigh]
    cases isPins byte with
    | false => exact ih level
    | true =>
      cases tck byte with
      | false => exact ih false
      | true =>
        cases level with
        | false =>
          rw [← highs]
          simpa using ih true
        | true =>
          -- this character issues a clock and raises nothing
          have hless := (risingEdges_sublist true rest).length_le
          rw [← highs]
          simp only [Bool.not_true, Bool.and_false, Bool.false_eq_true, if_false, List.nil_append,
            Bool.and_true, if_true, List.length_cons, Bool.true_or, Bool.true_eq_false, iff_false]
          omega

/-- A loop that ends without an error has read the stream up to its first `Q`. -/
theorem run_read (w : World σ) (stream : List UInt8) (s : Bridge σ) :
    (run w stream s).2.2 <+: stream ∧
      ((run w stream s).1 = .ok () → (run w stream s).2.2 = untilQuit stream) := by
  induction stream generalizing s with
  | nil => exact ⟨List.prefix_rfl, fun _ => rfl⟩
  | cons byte rest ih =>
    rw [run, untilQuit]
    split
    · next result s' hhandle =>
      refine ⟨⟨rest, rfl⟩, fun hok => ?_⟩
      have hquit : byte = 0x51 := by
        apply handle_ok (w := w) (s := s)
        rw [hhandle]
        exact congrArg some hok
      exact (if_pos hquit).symm
    · next s' hhandle =>
      have hmore : byte ≠ 0x51 := by
        rintro rfl
        rw [handle_quit] at hhandle
        cases hhandle
      obtain ⟨hfront, hread⟩ := ih s'
      refine ⟨(List.cons_prefix_cons).mpr ⟨rfl, hfront⟩, fun hok => ?_⟩
      rw [if_neg hmore]
      exact congrArg _ (hread hok)

/-! ### Clocks of a whole session -/

/-- The target is clocked once for each rising edge of TCK in what has been read, with the
TMS and TDI levels of the character that raises it. -/
def ClocksPerEdge (s : Bridge σ) (read : List UInt8) : Prop :=
  clocks s = (risingEdges false read).map clockPacket

/-- **One clock per rising edge, when TCK never stays high.** For every stream and whatever
the other ends do: the bridge clocks the target once for each rising edge exactly if no pin
character it reads leaves TCK high where it already is. Without an error it reads the stream
up to its `Q`. -/
theorem clocks_iff (w : World σ) (stream : List UInt8) (world : σ) :
    let r := run w stream (start world)
    (ClocksPerEdge r.2.1 r.2.2 ↔ staysHigh false r.2.2 = false) ∧
      r.2.2 <+: stream ∧ (r.1 = .ok () → r.2.2 = untilQuit stream) := by
  intro r
  have hclocks : clocks r.2.1 = (highs r.2.2).map clockPacket := run_clocks w stream (start world)
  refine ⟨?_, run_read w stream (start world)⟩
  rw [ClocksPerEdge, hclocks, ← risingEdges_eq_iff]
  constructor
  · intro hsame
    simpa using (congrArg List.length hsame).symm
  · intro hlength
    rw [(risingEdges_sublist false r.2.2).eq_of_length hlength]

/-- A packet engine that answers every packet with a sequence of TDO low, and a client that
takes every byte. -/
def quiet : World Unit where
  dap := fun _ s => (some [3, 0, 0, 0, 0x14, 0, 0], s)
  client := fun _ s => (true, s)

/-- TMS changes while TCK stays high: one rising edge, two clocks. -/
theorem second_clock_issued :
    let r := run quiet [0x34, 0x36, 0x51] (start ())
    r.1 = .ok () ∧ r.2.2 = [0x34, 0x36, 0x51] ∧
      clocks r.2.1 = [[0x14, 1, 0x01, 0], [0x14, 1, 0x81, 0]] ∧
      (risingEdges false r.2.2).map clockPacket = [[0x14, 1, 0x01, 0]] ∧
      ¬ ClocksPerEdge r.2.1 r.2.2 := by
  intro r
  have hclocks : clocks r.2.1 = [[0x14, 1, 0x01, 0], [0x14, 1, 0x81, 0]] := by decide
  have hedges : (risingEdges false r.2.2).map clockPacket = [[0x14, 1, 0x01, 0]] := by decide
  refine ⟨rfl, rfl, hclocks, hedges, ?_⟩
  rw [ClocksPerEdge, hclocks, hedges]
  decide

end Model.RemoteBitbang
