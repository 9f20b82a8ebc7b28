import Zub1cg.Model.Wire

/-!
# The codec of the control requests

Every request is decoded as it was encoded. The other way round the decoder takes nothing but
encodings, except that a command without arguments may have any bytes behind it.

## Main definitions

- `Command.bare` — a command without arguments

## Main results

- `Command.decode_encode`, `Command.encode_of_decode` — the two directions
- `command_codec` — both of them
-/

namespace Model

namespace Command

/-- The command has no arguments. -/
def bare : Command → Bool
  | GetInfo | Start | Stop | Reset | GetStats => true
  | _ => false

/-! ### Decoding what was encoded -/

/-- A command without arguments is its three bytes. -/
theorem decode_bare {c : Command} (h : c.bare = true) (rest : List UInt8) :
    decode (c.encode ++ rest) = .ok c := by
  have hlong (opcode : UInt8) : ¬ (1 :: 0 :: opcode :: rest).length < 3 := by
    simp only [List.length_cons]
    omega
  cases c with
  | GetInfo => exact if_neg (hlong 1)
  | Start => exact if_neg (hlong 3)
  | Stop => exact if_neg (hlong 4)
  | Reset => exact if_neg (hlong 5)
  | GetStats => exact if_neg (hlong 6)
  | _ => contradiction

theorem decode_configure (source : Source) (format : TraceFormat) (swoBaud : UInt32) :
    decode (Configure source format swoBaud).encode = .ok (Configure source format swoBaud) := by
  have hsource : Source.tryFrom source.toByte = .ok source := Source.tryFrom_eq_ok_iff.mpr rfl
  have hformat : TraceFormat.tryFrom format.toByte = .ok format :=
    TraceFormat.tryFrom_eq_ok_iff.mpr rfl
  change (Source.tryFrom source.toByte >>= fun source =>
    TraceFormat.tryFrom format.toByte >>= fun format =>
      .ok (Configure source format (u32FromLe (u32ToLe swoBaud)))) = _
  rw [hsource, hformat, u32FromLe_u32ToLe]
  rfl

theorem decode_loadM3Chunk (offset : UInt32) (data : List UInt8) :
    decode (LoadM3Chunk offset data).encode = .ok (LoadM3Chunk offset data) := by
  have hlength : (LoadM3Chunk offset data).encode.length = data.length + 7 := rfl
  have hversion : u16FromLe (slice (LoadM3Chunk offset data).encode 0 2) = PROTOCOL_VERSION := rfl
  have hopcode : (byteAt (LoadM3Chunk offset data).encode 2).toNat = 7 := rfl
  rw [decode, if_neg (by omega), hversion, if_neg (not_not_intro rfl), hopcode]
  change (if 7 ≤ (LoadM3Chunk offset data).encode.length then
    Except.ok (LoadM3Chunk (u32FromLe (u32ToLe offset)) data) else _) = _
  rw [if_pos (by omega), u32FromLe_u32ToLe]

theorem decode_readM3Bram (offset : UInt32) (length : UInt16) :
    decode (ReadM3Bram offset length).encode = .ok (ReadM3Bram offset length) := by
  change Except.ok (ReadM3Bram (u32FromLe (u32ToLe offset))
    (u16FromLe (LittleEndian.ofNat 2 length.toNat))) = _
  rw [u32FromLe_u32ToLe, u16FromLe_ofNat]

/-- A request is decoded as it was encoded. -/
theorem decode_encode (c : Command) : decode c.encode = .ok c := by
  cases c with
  | Configure source format swoBaud => exact decode_configure source format swoBaud
  | LoadM3Chunk offset data => exact decode_loadM3Chunk offset data
  | ReadM3Bram offset length => exact decode_readM3Bram offset length
  | M3Control bits => rfl
  | _ => rfl

/-! ### Encoding what was decoded -/

/-- What is decoded begins with the version and an opcode. -/
theorem header_of_decode {bytes : List UInt8} {c : Command} (h : decode bytes = .ok c) :
    ∃ opcode args, bytes = 1 :: 0 :: opcode :: args := by
  match bytes with
  | [] | [_] | [_, _] => cases h
  | lo :: hi :: opcode :: args =>
    rw [decode, if_neg (by simp only [List.length_cons]; omega)] at h
    dsimp only at h
    split at h
    · cases h
    · next hversion =>
      have hbytes : LittleEndian.ofNat 2 (u16FromLe [lo, hi]).toNat = [lo, hi] :=
        ofNat_u16FromLe rfl
      have hsame : u16FromLe [lo, hi] = PROTOCOL_VERSION := not_not.mp hversion
      rw [hsame] at hbytes
      have hlo : (1 : UInt8) = lo := (List.cons.inj hbytes).1
      have hhi : (0 : UInt8) = hi := (List.cons.inj (List.cons.inj hbytes).2).1
      exact ⟨opcode, args, by rw [hlo, hhi]⟩

/-- The arguments of `Configure`. -/
theorem encode_configure {args : List UInt8} {c : Command} (hlength : args.length = 6)
    (h : (do
      let source ← Source.tryFrom (byteAt args 0)
      let format ← TraceFormat.tryFrom (byteAt args 1)
      .ok (Configure source format (u32FromLe (slice args 2 6)))) = .ok c) :
    c.bare = false ∧ c.encode = 1 :: 0 :: 2 :: args := by
  match args with
  | [source, format, b0, b1, b2, b3] =>
    cases hsource : Source.tryFrom source with
    | error e =>
      rw [byteAt, List.getD_cons_zero, hsource] at h
      cases h
    | ok source' =>
      cases hformat : TraceFormat.tryFrom format with
      | error e =>
        rw [byteAt, byteAt, List.getD_cons_zero, List.getD_cons_succ, List.getD_cons_zero, hsource,
          hformat] at h
        cases h
      | ok format' =>
        rw [byteAt, byteAt, List.getD_cons_zero, List.getD_cons_succ, List.getD_cons_zero, hsource,
          hformat] at h
        cases h
        have hbaud : u32ToLe (u32FromLe [b0, b1, b2, b3]) = [b0, b1, b2, b3] :=
          u32ToLe_u32FromLe rfl
        refine ⟨rfl, ?_⟩
        rw [Source.tryFrom_eq_ok_iff.mp hsource, TraceFormat.tryFrom_eq_ok_iff.mp hformat]
        exact congrArg (fun baud => 1 :: 0 :: 2 :: source'.toByte :: format'.toByte :: baud) hbaud

/-- The offset and the data of a chunk. -/
theorem encode_loadM3Chunk {args : List UInt8} (hlength : 4 ≤ args.length) :
    (LoadM3Chunk (u32FromLe (slice args 0 4)) (args.drop 4)).encode = 1 :: 0 :: 7 :: args := by
  have hoffset : u32ToLe (u32FromLe (slice args 0 4)) = args.take 4 :=
    u32ToLe_u32FromLe (List.length_take_of_le hlength)
  have hwhole : args.take 4 ++ args.drop 4 = args := List.take_append_drop 4 args
  rw [← hoffset] at hwhole
  exact congrArg (1 :: 0 :: 7 :: ·) hwhole

/-- The offset and the length of a read. -/
theorem encode_readM3Bram {args : List UInt8} (hlength : args.length = 6) :
    (ReadM3Bram (u32FromLe (slice args 0 4)) (u16FromLe (slice args 4 6))).encode =
      1 :: 0 :: 8 :: args := by
  match args with
  | [b0, b1, b2, b3, b4, b5] =>
    have hoffset : u32ToLe (u32FromLe [b0, b1, b2, b3]) = [b0, b1, b2, b3] :=
      u32ToLe_u32FromLe rfl
    have hcount : LittleEndian.ofNat 2 (u16FromLe [b4, b5]).toNat = [b4, b5] := ofNat_u16FromLe rfl
    change 1 :: 0 :: 8 :: (u32ToLe (u32FromLe [b0, b1, b2, b3]) ++
      LittleEndian.ofNat 2 (u16FromLe [b4, b5]).toNat) = _
    rw [hoffset, hcount]
    rfl

/-- The arguments behind an opcode. -/
theorem encode_of_decode_args {opcode : UInt8} {args : List UInt8} {c : Command}
    (h : decode (1 :: 0 :: opcode :: args) = .ok c) :
    c.bare = true ∧ c.encode = [1, 0, opcode] ∨
      c.bare = false ∧ c.encode = 1 :: 0 :: opcode :: args := by
  have hopcode {k : ℕ} (hk : (byteAt (1 :: 0 :: opcode :: args) 2).toNat = k) :
      opcode = UInt8.ofNat k := by
    rw [← hk]
    exact UInt8.ofNat_toNat.symm
  have hbare {k : ℕ} {c : Command} (hk : (byteAt (1 :: 0 :: opcode :: args) 2).toNat = k)
      (hnone : c.bare = true) (hencode : c.encode = [1, 0, UInt8.ofNat k]) :
      c.bare = true ∧ c.encode = [1, 0, opcode] := ⟨hnone, by rw [hopcode hk, hencode]⟩
  have hversion : u16FromLe (slice (1 :: 0 :: opcode :: args) 0 2) = PROTOCOL_VERSION := rfl
  have hlength : (1 :: 0 :: opcode :: args).length = args.length + 3 := rfl
  rw [decode, if_neg (by omega), hversion, if_neg (not_not_intro rfl), hlength] at h
  split at h
  · next hk =>
    cases h
    exact .inl (hbare hk rfl rfl)
  · next hk =>
    rw [hopcode hk]
    split at h
    · exact .inr (encode_configure (by omega) h)
    · cases h
  · next hk =>
    cases h
    exact .inl (hbare hk rfl rfl)
  · next hk =>
    cases h
    exact .inl (hbare hk rfl rfl)
  · next hk =>
    cases h
    exact .inl (hbare hk rfl rfl)
  · next hk =>
    cases h
    exact .inl (hbare hk rfl rfl)
  · next hk =>
    rw [hopcode hk]
    split at h
    · cases h
      exact .inr ⟨rfl, encode_loadM3Chunk (by omega)⟩
    · cases h
  · next hk =>
    rw [hopcode hk]
    split at h
    · cases h
      exact .inr ⟨rfl, encode_readM3Bram (by omega)⟩
    · cases h
  · next hk =>
    rw [hopcode hk]
    split at h
    · cases h
      obtain ⟨bits, rfl⟩ := List.length_eq_one_iff.mp (by omega : args.length = 1)
      exact .inr ⟨rfl, rfl⟩
    · cases h
  · cases h

/-- What is decoded is an encoding, with bytes behind it only if the command has no arguments. -/
theorem encode_of_decode {bytes : List UInt8} {c : Command} (h : decode bytes = .ok c) :
    c.encode <+: bytes ∧ (c.bare = false → c.encode = bytes) := by
  obtain ⟨opcode, args, rfl⟩ := header_of_decode h
  obtain ⟨hbare, hencode⟩ | ⟨hbare, hencode⟩ := encode_of_decode_args h
  · refine ⟨⟨args, by rw [hencode]; rfl⟩, fun hargs => ?_⟩
    rw [hbare] at hargs
    cases hargs
  · exact ⟨⟨[], by rw [hencode, List.append_nil]⟩, fun _ => hencode⟩

end Command

/-- **The codec of the control requests.** Every command is decoded as it was encoded. Of the bytes
that are decoded the encoding is a prefix, and it is all of them unless the command has no
arguments; such a command may have any bytes behind it. -/
theorem command_codec :
    (∀ c : Command, Command.decode c.encode = .ok c) ∧
    (∀ (bytes : List UInt8) (c : Command), Command.decode bytes = .ok c →
      c.encode <+: bytes ∧ (c.bare = false → c.encode = bytes)) ∧
    ∀ c : Command, c.bare = true → ∀ rest, Command.decode (c.encode ++ rest) = .ok c :=
  ⟨Command.decode_encode, fun _ _ => Command.encode_of_decode,
    fun _ hbare => Command.decode_bare hbare⟩

/-- A chunk, and a start with a byte too many. -/
theorem command_codec_chunk :
    (Command.LoadM3Chunk 0x800 [1, 2, 3]).encode = [1, 0, 7, 0, 8, 0, 0, 1, 2, 3] ∧
      Command.Start.encode <+: [1, 0, 3, 9] := by
  have hchunk : Command.decode [1, 0, 7, 0, 8, 0, 0, 1, 2, 3] =
      .ok (Command.LoadM3Chunk 0x800 [1, 2, 3]) := by decide
  have hstart : Command.decode [1, 0, 3, 9] = .ok Command.Start := by decide
  exact ⟨(command_codec.2.1 _ _ hchunk).2 rfl, (command_codec.2.1 _ _ hstart).1⟩

end Model
