import Zub1cg.Firmware.Service.Refinement

/-!
# Isolation of connections

The decoder of a service is a static that no connection resets, so a connection that closes
in the middle of a frame leaves its bytes to the next one. A connection shows what a fresh
one would, whatever it sends, exactly when the decoder is idle at its accept.
-/

namespace Firmware

open Framing (Session)

variable {Io : Type} {N : ℕ}

/-- Served next, the connection shows the frames and replies it would show with the
connection state of `fresh`. -/
def Isolated {τ : Type} (serve : List (List UInt8) → τ → List FeedCall × τ) (fresh : τ → τ)
    (t : τ) (packets : List (List (List UInt8))) : Prop :=
  Framing.frames (serveConnection serve packets t).1 =
      Framing.frames (serveConnection serve packets (fresh t)).1 ∧
    Framing.replies (serveConnection serve packets t).1 =
      Framing.replies (serveConnection serve packets (fresh t)).1

/-- The thread with the connection state a new connection ought to find. -/
def freshControl (t : ControlThread Io) : ControlThread Io :=
  { t with connection := ControlConnection.new }

def freshDap (t : DapThread Io) : DapThread Io := { t with connection := DapConnection.new }

/-! ### Left-over bytes show -/

/-- No frame decoded is longer than the bytes it came from. -/
theorem framesOf_length {handle : Handler Io} {room : ℕ} {data f : List UInt8}
    {x : Session UInt8 (Controller Io)} (hf : f ∈ (service N handle room).framesOf data x) :
    f.length + 4 ≤ x.pending.length + data.length :=
  (service N handle room).framesOf_size (fun _ _ h => (FrameDecoder.judge_eq_frame h).2) hf

/-- Bytes that complete the frame pending decode to a frame longer than any they could
encode by themselves. -/
theorem completion_visible {handle : Handler Io} {room : ℕ} {pending bytes f : List UInt8}
    {b : UInt8} (hpending : pending ≠ [])
    (hmore : ∀ k ≤ bytes.length, FrameDecoder.judge N (pending ++ bytes.take k) = .more)
    (hframe : FrameDecoder.judge N (pending ++ (bytes ++ [b])) = .frame f) (c : Controller Io) :
    (service N handle room).framesOf (bytes ++ [b]) ⟨pending, c⟩ ≠
      (service N handle room).framesOf (bytes ++ [b]) ⟨[], c⟩ := by
  intro heq
  have hwhole : FrameDecoder.judge N (pending ++ bytes ++ [b]) = .frame f := by
    rw [List.append_assoc]; exact hframe
  have hlast : FrameDecoder.judge N (pending ++ bytes) = .more := by
    simpa using hmore bytes.length (Nat.le_refl _)
  have hlen := FrameDecoder.length_of_completed hlast hwhole
  rw [((service N handle room).framesOf_frame (x := ⟨pending, c⟩)
    (fun k _ hk => hmore k hk) hframe).1] at heq
  have hmem : f ∈ (service N handle room).framesOf (bytes ++ [b]) ⟨[], c⟩ := by
    rw [← heq]; exact List.mem_singleton_self f
  have hshort := framesOf_length hmem
  have hpos := List.length_pos_iff.mpr hpending
  simp only [List.length_append, List.length_singleton, List.length_nil] at hlen hshort
  omega

/-- Zeros complete a frame whose length prefix is known. -/
theorem zeros_complete {pending : List UInt8} (hlong : 4 ≤ pending.length)
    (hmore : FrameDecoder.judge N pending = .more) :
    ∃ bytes f, (∀ k ≤ bytes.length, FrameDecoder.judge N (pending ++ bytes.take k) = .more) ∧
      FrameDecoder.judge N (pending ++ (bytes ++ [0])) = .frame f := by
  rw [FrameDecoder.judge_long hlong] at hmore
  split at hmore
  · cases hmore
  next hfits =>
  split at hmore
  · next hopen =>
    have hjudge : ∀ n, FrameDecoder.judge N (pending ++ List.replicate n 0) =
        if (pending ++ List.replicate n 0).length < LittleEndian.toNat (pending.take 4) + 4 then .more
        else .frame (slice (pending ++ List.replicate n 0) 4
          (4 + LittleEndian.toNat (pending.take 4))) := by
      intro n
      rw [FrameDecoder.judge_long (by rw [List.length_append]; omega),
        List.take_append_of_le_length hlong, if_neg hfits]
    obtain ⟨n, hn⟩ : ∃ n, pending.length + n = LittleEndian.toNat (pending.take 4) + 3 :=
      ⟨LittleEndian.toNat (pending.take 4) + 3 - pending.length, by omega⟩
    refine ⟨List.replicate n 0, slice (pending ++ List.replicate (n + 1) 0) 4
      (4 + LittleEndian.toNat (pending.take 4)), ?_, ?_⟩
    · intro k hk
      rw [List.length_replicate] at hk
      rw [List.take_replicate, Nat.min_eq_left hk, hjudge, if_pos]
      rw [List.length_append, List.length_replicate]
      omega
    · rw [← List.replicate_succ', hjudge, if_neg]
      rw [List.length_append, List.length_replicate]
      omega
  · cases hmore

/-- A whole frame sent to an idle session is decoded. -/
theorem framesOf_framed (handle : Handler Io) (room : ℕ) {payload : List UInt8}
    (h : payload.length ≤ N) (hN : N < 2 ^ 32) (c : Controller Io) :
    (service N handle room).framesOf (FrameDecoder.framed payload) ⟨[], c⟩ = [payload] ∧
      ((service N handle room).after (FrameDecoder.framed payload) ⟨[], c⟩).pending = [] := by
  have hne : FrameDecoder.framed payload ≠ [] := by
    rw [← List.length_pos_iff, FrameDecoder.length_framed]; omega
  obtain ⟨bytes, b, hsplit⟩ : ∃ bytes b, FrameDecoder.framed payload = bytes ++ [b] :=
    ⟨_, _, (List.dropLast_append_getLast hne).symm⟩
  rw [hsplit]
  refine (service N handle room).framesOf_frame (fun k _ hk => ?_) ?_
  · have hlt : k < (FrameDecoder.framed payload).length := by rw [hsplit]; simp; omega
    have hmore := FrameDecoder.judge_take_framed h hN hlt
    rwa [hsplit, List.take_append_of_le_length hk] at hmore
  · have hframe := FrameDecoder.judge_framed h hN
    rwa [hsplit] at hframe

/-- Bytes left over from an unfinished frame can be made to show in the frames decoded. -/
theorem pending_visible (handle : Handler Io) (room : ℕ) {pending : List UInt8}
    (hone : 1 ≤ N) (hN : N < 2 ^ 32) (hpending : pending ≠ [])
    (hmore : FrameDecoder.judge N pending = .more) (c : Controller Io) :
    ∃ data, (service N handle room).framesOf data ⟨pending, c⟩ ≠
      (service N handle room).framesOf data ⟨[], c⟩ := by
  by_cases hlong : 4 ≤ pending.length
  · obtain ⟨bytes, f, hwait, hframe⟩ := zeros_complete hlong hmore
    exact ⟨bytes ++ [0], completion_visible hpending hwait hframe c⟩
  -- complete the length prefix with a one and zeros, and see what it amounts to
  have hpos := List.length_pos_iff.mpr hpending
  obtain ⟨bytes, b, hsplit, hlen⟩ : ∃ bytes b,
      1 :: List.replicate (3 - pending.length) (0 : UInt8) = bytes ++ [b] ∧
        pending.length + bytes.length = 3 := by
    refine ⟨_, _, (List.dropLast_append_getLast (List.cons_ne_nil _ _)).symm, ?_⟩
    simp
    omega
  have hwait : ∀ k ≤ bytes.length, FrameDecoder.judge N (pending ++ bytes.take k) = .more := by
    intro k _
    apply FrameDecoder.judge_short
    rw [List.length_append, List.length_take]
    omega
  cases hjudge : FrameDecoder.judge N (pending ++ (bytes ++ [b])) with
  | frame f => exact ⟨bytes ++ [b], completion_visible hpending hwait hjudge c⟩
  | more =>
    have hfour : 4 ≤ (pending ++ (bytes ++ [b])).length := by simp; omega
    obtain ⟨more, f, hmore', hframe⟩ := zeros_complete hfour hjudge
    refine ⟨((bytes ++ [b]) ++ more) ++ [0], completion_visible (f := f) hpending ?_ ?_ c⟩
    · intro k hk
      by_cases hshort : k ≤ bytes.length
      · rw [List.append_assoc, List.take_append_of_le_length hshort]
        exact hwait k hshort
      · have hle : (bytes ++ [b]).length ≤ k := by simp; omega
        rw [List.take_append, List.take_of_length_le hle, ← List.append_assoc]
        refine hmore' _ ?_
        rw [List.length_append] at hk
        omega
    · rw [List.append_assoc, ← List.append_assoc pending]
      exact hframe
  | invalid =>
    refine ⟨(bytes ++ [b]) ++ FrameDecoder.framed [], ?_⟩
    obtain ⟨hnone, hidle⟩ := (service N handle room).framesOf_invalid (x := ⟨pending, c⟩)
      (fun k _ hk => hwait k hk) hjudge
    have hstale : (service N handle room).framesOf ((bytes ++ [b]) ++ FrameDecoder.framed [])
        ⟨pending, c⟩ = [[]] := by
      rw [Framing.Service.framesOf_append, hnone, hidle,
        (framesOf_framed handle room (Nat.zero_le _) hN c).1]
      rfl
    have hdata : (bytes ++ [b]) ++ FrameDecoder.framed [] =
        FrameDecoder.framed [0] ++ List.replicate (3 - pending.length) 0 := by
      rw [← hsplit]
      obtain h | h | h : 3 - pending.length = 0 ∨ 3 - pending.length = 1 ∨
          3 - pending.length = 2 := by omega
      all_goals rw [h]; decide
    rw [hstale, hdata, Framing.Service.framesOf_append,
      (framesOf_framed handle room (show [(0 : UInt8)].length ≤ N from hone) hN c).1]
    intro heq
    exact absurd (List.cons.inj heq).1 (List.cons_ne_nil _ _).symm

/-! ### Histories of connections -/

/-- After any history of connections, the next one is isolated whatever it sends exactly when
no unfinished frame is pending. The thread refines the session `x`, and `fresh` empties its
connection state. -/
theorem isolated_iff {τ : Type} {serve : List (List UInt8) → τ → List FeedCall × τ}
    {fresh : τ → τ} {handle : Handler Io} {room : ℕ}
    {R : τ → Session UInt8 (Controller Io) → Prop}
    (hserve : ∀ packets t x, R t x →
      (serveConnection serve packets t).1 =
        (Framing.pumpAll (service N handle room).feed packets.flatten x).1)
    (hfresh : ∀ t x, R t x → R (fresh t) ⟨[], x.world⟩)
    (hone : 1 ≤ N) (hN : N < 2 ^ 32) {t : τ} {x : Session UInt8 (Controller Io)} (hx : R t x)
    (hmore : FrameDecoder.judge N x.pending = .more) :
    (∀ packets, Isolated serve fresh t packets) ↔ x.pending = [] := by
  obtain ⟨pending, c⟩ := x
  constructor
  · intro hisolated
    by_contra hpending
    obtain ⟨data, hdiffer⟩ := pending_visible handle room hone hN hpending hmore c
    obtain ⟨hframes, -⟩ := hisolated [data.map fun b => [b]]
    rw [hserve _ _ _ hx, hserve _ _ _ (hfresh _ _ hx)] at hframes
    have hflatten : [data.map fun b => [b]].flatten = data.map fun b => [b] := by simp
    rw [hflatten, ((service N handle room).pumpAll_singletons data _).frames,
      ((service N handle room).pumpAll_singletons data _).frames] at hframes
    exact hdiffer hframes
  · rintro rfl packets
    have hcalls : (serveConnection serve packets t).1 =
        (serveConnection serve packets (fresh t)).1 := by
      rw [hserve _ _ _ hx, hserve _ _ _ (hfresh _ _ hx)]
    exact ⟨by rw [hcalls], by rw [hcalls]⟩

theorem FrameDecoder.Holds.judge_more {d : FrameDecoder N} {pending : List UInt8}
    (h : d.Holds pending) : FrameDecoder.judge N pending = .more := by
  by_cases hlong : 4 ≤ pending.length
  · obtain ⟨hfits, hopen⟩ := h.unfinished hlong
    rw [FrameDecoder.judge_long hlong, if_neg (by omega), if_pos hopen]
  · exact FrameDecoder.judge_short (by omega)

theorem FrameDecoder.Holds.idle_iff {d : FrameDecoder N} {pending : List UInt8}
    (h : d.Holds pending) : pending = [] ↔ d.lengthUsed = 0 := by
  rw [h.lengthUsed, ← List.length_eq_zero_iff]
  omega

variable [RegisterIo Io]

theorem serveConnections_refines (connections : List (List (List (List UInt8))))
    {t : ControlThread Io} {x : Session UInt8 (Controller Io)} (h : ControlRefines t x) :
    ∃ y, ControlRefines (serveConnections serveControl connections t) y := by
  induction connections generalizing t x with
  | nil => exact ⟨x, h⟩
  | cons packets rest ih => exact ih (serveControl_refines packets h).2

theorem serveConnections_dap_refines (connections : List (List (List (List UInt8))))
    {t : DapThread Io} {x : Session UInt8 (Controller Io)} (h : DapRefines t x) :
    ∃ y, DapRefines (serveConnections serveDap connections t) y := by
  induction connections generalizing t x with
  | nil => exact ⟨x, h⟩
  | cons packets rest ih => exact ih (serveDap_refines packets h).2

/-- **When connections are isolated.** Start either service with a fresh connection state, let
any number of connections come and go, each delivering any bytes in any fragments and closing
anywhere. The next connection shows the frames and replies of a fresh one, whatever it sends,
exactly when its accept finds no byte of an unfinished frame in the decoder. -/
theorem connections_isolated_iff (connections : List (List (List (List UInt8))))
    (controller : Controller Io) (controlStack : ℕ → Vector UInt8 CONTROL_RESPONSE_CAP)
    (dapStack : ℕ → Vector UInt8 DAP_RESPONSE_CAP) :
    ((∀ packets, Isolated serveControl freshControl
        (serveConnections serveControl connections
          ⟨ControlConnection.new, controller, controlStack⟩) packets) ↔
      (serveConnections serveControl connections
        ⟨ControlConnection.new, controller, controlStack⟩).connection.decoder.lengthUsed = 0) ∧
    ((∀ packets, Isolated serveDap freshDap
        (serveConnections serveDap connections ⟨DapConnection.new, controller, dapStack⟩) packets) ↔
      (serveConnections serveDap connections
        ⟨DapConnection.new, controller, dapStack⟩).connection.decoder.lengthUsed = 0) := by
  constructor
  · obtain ⟨x, hx⟩ := serveConnections_refines connections (x := ⟨[], controller⟩)
      (t := ⟨ControlConnection.new, controller, controlStack⟩) ⟨FrameDecoder.new_holds, rfl⟩
    rw [← hx.1.idle_iff]
    have hserve : ∀ packets t x, ControlRefines t x → (serveConnection serveControl packets t).1 =
        (Framing.pumpAll (service MAX_CONTROL_PAYLOAD (controlHandler : Handler Io)
          (CONTROL_RESPONSE_CAP - 4)).feed packets.flatten x).1 :=
      fun packets t x h => (serveControl_refines packets h).1
    have hfresh : ∀ (t : ControlThread Io) x, ControlRefines t x →
        ControlRefines (freshControl t) ⟨[], x.world⟩ :=
      fun t x h => ⟨FrameDecoder.new_holds, h.2⟩
    exact isolated_iff hserve hfresh (by decide) (by decide) hx hx.1.judge_more
  · obtain ⟨x, hx⟩ := serveConnections_dap_refines connections (x := ⟨[], controller⟩)
      (t := ⟨DapConnection.new, controller, dapStack⟩) ⟨FrameDecoder.new_holds, rfl⟩
    rw [← hx.1.idle_iff]
    have hserve : ∀ packets t x, DapRefines t x → (serveConnection serveDap packets t).1 =
        (Framing.pumpAll (service MAX_DAP_PACKET (dapHandler DAP_POLL_BUDGET : Handler Io)
          (DAP_RESPONSE_CAP - 4)).feed packets.flatten x).1 :=
      fun packets t x h => (serveDap_refines packets h).1
    have hfresh : ∀ (t : DapThread Io) x, DapRefines t x →
        DapRefines (freshDap t) ⟨[], x.world⟩ :=
      fun t x h => ⟨FrameDecoder.new_holds, h.2⟩
    exact isolated_iff hserve hfresh (by decide) (by decide) hx hx.1.judge_more

/-- The first connection sends one byte of a length prefix and closes; the `GetInfo` request of
the second one is not decoded. -/
theorem leftover_byte_swallows_request :
    Framing.frames (serveConnection serveControl [[[3, 0, 0, 0, 1, 0, 1]]]
        (serveConnections serveControl [[[[3]]]] (ControlThread.boot Blank.mk))).1 = [] ∧
      Framing.frames (serveConnection serveControl [[[3, 0, 0, 0, 1, 0, 1]]]
        (freshControl
          (serveConnections serveControl [[[[3]]]] (ControlThread.boot Blank.mk)))).1 = [[1, 0, 1]] ∧
      ¬ Isolated serveControl freshControl
        (serveConnections serveControl [[[[3]]]] (ControlThread.boot Blank.mk))
        [[[3, 0, 0, 0, 1, 0, 1]]] := by
  obtain ⟨-, hboot⟩ := serveControl_refines [[[3]]] (t := ControlThread.boot Blank.mk)
    (x := ⟨[], ⟨Blank.mk⟩⟩) ⟨FrameDecoder.new_holds, rfl⟩
  have hfresh : ControlRefines (freshControl
      (serveConnections serveControl [[[[3]]]] (ControlThread.boot Blank.mk))) ⟨[], ⟨Blank.mk⟩⟩ :=
    ⟨FrameDecoder.new_holds, rfl⟩
  have hstale : Framing.frames (serveConnection serveControl [[[3, 0, 0, 0, 1, 0, 1]]]
      (serveConnections serveControl [[[[3]]]] (ControlThread.boot Blank.mk))).1 = [] := by
    rw [serveConnections, List.foldl_cons, List.foldl_nil, (serveControl_refines _ hboot).1]
    decide
  have halone : Framing.frames (serveConnection serveControl [[[3, 0, 0, 0, 1, 0, 1]]]
      (freshControl
        (serveConnections serveControl [[[[3]]]] (ControlThread.boot Blank.mk)))).1 = [[1, 0, 1]] := by
    rw [(serveControl_refines _ hfresh).1]
    decide +kernel
  refine ⟨hstale, halone, fun h => ?_⟩
  have hframes := h.1
  rw [hstale, halone] at hframes
  exact absurd hframes (List.cons_ne_nil _ _).symm

end Firmware
