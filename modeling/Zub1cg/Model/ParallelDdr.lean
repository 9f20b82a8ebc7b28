import Zub1cg.Model.Wire
import Mathlib.Data.Nat.Digits.Lemmas
import Mathlib.Data.List.Induction

/-!
# DDR samples to bytes (`model/src/lib.rs`)

The samples of 1, 2 or 4 trace lanes, in the order of the clock's edges, fill up bytes from the
low bits on. Edges that do not fill a byte are left out.

## Main definitions

- `decodeParallelDdr` — the bytes of the samples

## Main results

- `packEdges_toNat` — a byte as a number in base `2 ^ width`
- `decodeParallelDdr_chunks` — the bytes of samples that are cut into chunks
-/

namespace Model

variable {α : Type*}

/-- `xs.chunks_exact(size)` -/
def chunksExact (size : ℕ) (xs : List α) : List (List α) :=
  (List.range (xs.length / size)).map fun k => (xs.drop (k * size)).take size

/-- The inner loop: the byte of one chunk of edges. -/
def packEdges (width : UInt8) (edges : List UInt8) : UInt8 :=
  let mask := (1 <<< width) - 1
  edges.zipIdx.foldl
    (fun byte (sample, index) =>
      byte ||| ((sample &&& mask) <<< UInt8.ofNat (index * width.toNat)))
    0

def decodeParallelDdr (samples : List UInt8) (width : UInt8) :
    Except ProtocolError (List UInt8) :=
  if width = 1 ∨ width = 2 ∨ width = 4 then
    .ok ((chunksExact (8 / width.toNat) samples).map (packEdges width))
  else .error (.InvalidValue "trace width")

/-- Chunks of one size, and too few items for another one. -/
theorem chunksExact_flatten {size : ℕ} {chunks : List (List α)} {rest : List α}
    (hchunks : ∀ c ∈ chunks, c.length = size) (hrest : rest.length < size) :
    chunksExact size (chunks.flatten ++ rest) = chunks := by
  have hsize : 0 < size := Nat.zero_lt_of_lt hrest
  induction chunks with
  | nil =>
    rw [chunksExact, List.flatten_nil, List.nil_append, Nat.div_eq_of_lt hrest]
    rfl
  | cons c chunks ih =>
    have hc := hchunks c List.mem_cons_self
    have hcount : (c ++ (chunks.flatten ++ rest)).length / size =
        (chunks.flatten ++ rest).length / size + 1 := by
      rw [List.length_append, hc, Nat.add_div_left _ hsize]
    have hlater := ih fun other hother => hchunks other (List.mem_cons_of_mem c hother)
    rw [chunksExact] at hlater
    rw [chunksExact, List.flatten_cons, List.append_assoc, hcount, List.range_succ_eq_map,
      List.map_cons, List.map_map]
    congr 1
    · rw [Nat.zero_mul, List.drop_zero, ← hc, List.take_left]
    · refine (List.map_congr_left fun k _ => ?_).trans hlater
      change ((c ++ (chunks.flatten ++ rest)).drop ((k + 1) * size)).take size = _
      rw [Nat.add_one_mul, Nat.add_comm, ← List.drop_drop, ← hc, List.drop_left]

theorem mask_toNat {width : UInt8} (hwidth : width = 1 ∨ width = 2 ∨ width = 4) :
    0 < width.toNat ∧ ((1 <<< width) - 1 : UInt8).toNat = 2 ^ width.toNat - 1 := by
  obtain rfl | rfl | rfl := hwidth <;> decide

/-- The edges of a byte are its digits in base `2 ^ width`, the first one the lowest. -/
theorem packEdges_toNat {width : UInt8} (hwidth : width = 1 ∨ width = 2 ∨ width = 4)
    {edges : List UInt8} (hlength : edges.length * width.toNat ≤ 8) :
    (packEdges width edges).toNat =
      Nat.ofDigits (2 ^ width.toNat) (edges.map fun x => x.toNat % 2 ^ width.toNat) := by
  obtain ⟨hpos, hmask⟩ := mask_toNat hwidth
  induction edges using List.reverseRecOn with
  | nil => rfl
  | append_singleton edges x ih =>
    rw [List.length_append, List.length_singleton, Nat.add_one_mul] at hlength
    have hbefore := ih (by omega)
    have hlow : (packEdges width edges).toNat < 2 ^ (edges.length * width.toNat) := by
      rw [hbefore, Nat.mul_comm, Nat.pow_mul]
      refine (Nat.ofDigits_lt_base_pow_length (Nat.one_lt_two_pow hpos.ne') ?_).trans_eq ?_
      · intro d hd
        obtain ⟨y, -, rfl⟩ := List.mem_map.mp hd
        exact Nat.mod_lt _ (Nat.two_pow_pos _)
      · rw [List.length_map]
    have hlane : x.toNat % 2 ^ width.toNat * 2 ^ (edges.length * width.toNat) < 2 ^ 8 := by
      calc x.toNat % 2 ^ width.toNat * 2 ^ (edges.length * width.toNat)
          < 2 ^ width.toNat * 2 ^ (edges.length * width.toNat) :=
            Nat.mul_lt_mul_of_pos_right (Nat.mod_lt _ (Nat.two_pow_pos _)) (Nat.two_pow_pos _)
        _ = 2 ^ (edges.length * width.toNat + width.toNat) := by rw [Nat.add_comm, Nat.pow_add]
        _ ≤ 2 ^ 8 := Nat.pow_le_pow_right (by decide) hlength
    have hshift : (UInt8.ofNat (edges.length * width.toNat)).toNat % 8 =
        edges.length * width.toNat := by
      rw [UInt8.toNat_ofNat']
      omega
    have hlast : packEdges width (edges ++ [x]) = packEdges width edges |||
        ((x &&& ((1 <<< width) - 1)) <<< UInt8.ofNat (edges.length * width.toNat)) := by
      rw [packEdges, List.zipIdx_append, List.foldl_append, Nat.zero_add]
      rfl
    -- the bits of the new edge lie above all others
    rw [hlast, UInt8.toNat_or, UInt8.toNat_shiftLeft, hshift, UInt8.toNat_and, hmask,
      Nat.and_two_pow_sub_one_eq_mod, Nat.shiftLeft_eq, Nat.mod_eq_of_lt hlane, Nat.or_comm,
      Nat.mul_comm, ← Nat.two_pow_add_eq_or_of_lt hlow, hbefore, List.map_append,
      Nat.ofDigits_append, List.map_singleton, Nat.ofDigits_singleton, List.length_map,
      ← Nat.pow_mul, Nat.mul_comm width.toNat]
    exact Nat.add_comm _ _

/-- The bytes of samples that are cut into chunks. -/
theorem decodeParallelDdr_chunks {width : UInt8} (hwidth : width = 1 ∨ width = 2 ∨ width = 4)
    {chunks : List (List UInt8)} {rest : List UInt8}
    (hchunks : ∀ c ∈ chunks, c.length * width.toNat = 8) (hrest : rest.length * width.toNat < 8) :
    decodeParallelDdr (chunks.flatten ++ rest) width = .ok (chunks.map (packEdges width)) := by
  have hpos := (mask_toNat hwidth).1
  have hlength : ∀ c ∈ chunks, c.length = 8 / width.toNat := by
    intro c hc
    rw [← hchunks c hc, Nat.mul_div_cancel _ hpos]
  have hshort : rest.length < 8 / width.toNat := by
    obtain rfl | rfl | rfl := hwidth
    · exact Nat.lt_of_mul_lt_mul_right hrest
    · exact Nat.lt_of_mul_lt_mul_right (a := 2) hrest
    · exact Nat.lt_of_mul_lt_mul_right (a := 4) hrest
  rw [decodeParallelDdr, if_pos hwidth, chunksExact_flatten hlength hshort]

end Model
