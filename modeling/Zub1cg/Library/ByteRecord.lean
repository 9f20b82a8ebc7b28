import Zub1cg.Library.LittleEndian

/-!
# Records in byte strings

A record is a list of little-endian fields side by side, each with its width. Where a record is in a
byte string, its fields are at their distances.

## Main definitions

- `At` — a byte string is part of another one, at an offset
- `encode`, `distance`, `Fits` — the bytes of fields, where a field begins, and the range of values

## Main results

- `At.slice_eq` — what is read where a byte string is
- `At.field` — a field of a record that is there
-/

namespace ByteRecord

/-! ### Parts of byte strings -/

/-- `part` is in `bytes` at `offset`. -/
def At (bytes : List UInt8) (offset : ℕ) (part : List UInt8) : Prop :=
  ∃ before after, bytes = before ++ part ++ after ∧ before.length = offset

section

variable {bytes part xs ys : List UInt8} {offset : ℕ}

theorem At.le (h : At bytes offset part) : offset + part.length ≤ bytes.length := by
  obtain ⟨before, after, rfl, rfl⟩ := h
  simp only [List.length_append]
  omega

/-- What is read where a byte string is -/
theorem At.slice_eq (h : At bytes offset part) :
    slice bytes offset (offset + part.length) = part := by
  obtain ⟨before, after, rfl, rfl⟩ := h
  rw [slice, ← List.length_append, List.take_left, List.drop_left]

theorem At.left (h : At bytes offset (xs ++ ys)) : At bytes offset xs := by
  obtain ⟨before, after, rfl, rfl⟩ := h
  exact ⟨before, ys ++ after, by simp, rfl⟩

theorem At.right (h : At bytes offset (xs ++ ys)) : At bytes (offset + xs.length) ys := by
  obtain ⟨before, after, rfl, rfl⟩ := h
  exact ⟨before ++ xs, after, by simp, by simp⟩

/-- What is read there says whether a byte string is there. -/
theorem at_iff : At bytes offset part ↔
    offset + part.length ≤ bytes.length ∧ slice bytes offset (offset + part.length) = part := by
  refine ⟨fun h => ⟨h.le, h.slice_eq⟩, fun ⟨hle, hslice⟩ => ?_⟩
  refine ⟨bytes.take offset, bytes.drop (offset + part.length), ?_, by simp; omega⟩
  have htake : bytes.take offset ++ part = bytes.take (offset + part.length) := by
    conv_lhs => rw [← hslice]
    have hprefix : bytes.take offset = (bytes.take (offset + part.length)).take offset := by
      rw [List.take_take, min_eq_left (Nat.le_add_right _ _)]
    rw [slice, hprefix, List.take_append_drop]
  rw [htake, List.take_append_drop]

instance : Decidable (At bytes offset part) := decidable_of_iff' _ at_iff

/-- A part of a slice -/
theorem At.in_slice {start stop d : ℕ} (h : At bytes (start + d) part)
    (hstop : start + d + part.length ≤ stop) : At (slice bytes start stop) d part := by
  obtain ⟨before, after, rfl, hbefore⟩ := h
  refine ⟨before.drop start, after.take (stop - (before ++ part).length), ?_, by simp; omega⟩
  have htake : List.take stop (before ++ part ++ after) =
      before ++ part ++ after.take (stop - (before ++ part).length) := by
    rw [List.take_append, List.take_of_length_le (by simp; omega)]
  rw [slice, htake, List.append_assoc, List.drop_append_of_le_length (by omega),
    List.append_assoc]

end

/-! ### Fields -/

/-- The bytes of fields, which are widths and values -/
def encode (fields : List (ℕ × ℕ)) : List UInt8 :=
  fields.flatMap fun field => LittleEndian.ofNat field.1 field.2

/-- Every value fits its width. -/
def Fits (fields : List (ℕ × ℕ)) : Prop := ∀ field ∈ fields, field.2 < 256 ^ field.1

instance (fields : List (ℕ × ℕ)) : Decidable (Fits fields) :=
  inferInstanceAs (Decidable (∀ field ∈ fields, _))

/-- Where field `i` begins -/
def distance (fields : List (ℕ × ℕ)) (i : ℕ) : ℕ := ((fields.take i).map Prod.fst).sum

theorem length_encode (fields : List (ℕ × ℕ)) :
    (encode fields).length = (fields.map Prod.fst).sum := by
  simp [encode, List.length_flatMap]

/-- **A field of a record that is there** -/
theorem At.field {bytes : List UInt8} {offset : ℕ} {fields : List (ℕ × ℕ)}
    (h : At bytes offset (encode fields)) (hfits : Fits fields) (i : ℕ) {width value : ℕ}
    (hi : fields[i]? = some (width, value)) :
    offset + distance fields i + width ≤ bytes.length ∧
      LittleEndian.toNat (slice bytes (offset + distance fields i)
        (offset + distance fields i + width)) = value := by
  obtain ⟨hlt, hget⟩ := List.getElem?_eq_some_iff.1 hi
  have hsplit : fields = fields.take i ++ ((width, value) :: fields.drop (i + 1)) := by
    rw [← hget, ← List.drop_eq_getElem_cons hlt, List.take_append_drop]
  have hencode : encode fields = encode (fields.take i) ++
      (LittleEndian.ofNat width value ++ encode (fields.drop (i + 1))) := by
    conv_lhs => rw [hsplit]
    simp [encode]
  have hat : At bytes (offset + distance fields i) (LittleEndian.ofNat width value) := by
    rw [hencode] at h
    have hright := h.right.left
    rwa [length_encode] at hright
  have hle := hat.le
  have hslice := hat.slice_eq
  rw [LittleEndian.length_ofNat] at hle hslice
  refine ⟨hle, ?_⟩
  rw [hslice]
  exact LittleEndian.toNat_ofNat_of_lt (hfits _ (List.mem_of_getElem? hi))

end ByteRecord
