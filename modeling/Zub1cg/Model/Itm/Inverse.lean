import Zub1cg.Model.Itm

/-!
# The packet decoder and its inverse

A packet has at most one encoding, and the decoder is its inverse on both sides: on every byte
string, because a byte that begins no packet stands for itself, and on all packets that can be
encoded, whatever stands between them that begins none.

## Main definitions

- `ItmPacket.encode`, `encodeItmStream` — packets as bytes, those that are not recognized too
- `ItmPacket.WellFormed`, `ItmPacket.BeginsNone` — the packets that there are

## Main results

- `encodeItmStream_decodeItmStream`, `decodeItmStream_encodeItmStream` — the two directions
- `itm_codec_inverse` — both of them
-/

namespace Model

/-- A header that was not recognized is encoded as itself. -/
def ItmPacket.encode : ItmPacket → Option (List UInt8)
  | Swit port value width => encodeSwit port value width
  | Unrecognized header => some [header]

/-- The encodings of the packets, one after the other. -/
def encodeItmStream : List ItmPacket → Option (List UInt8)
  | [] => some []
  | packet :: packets => do
    let bytes ← packet.encode
    let rest ← encodeItmStream packets
    some (bytes ++ rest)

/-- Port, width and value of a SWIT packet. -/
def ItmPacket.WellFormed : ItmPacket → Prop
  | Swit port value width =>
    (width = 1 ∨ width = 2 ∨ width = 4) ∧ port.toNat < 32 ∧ value.toNat < 2 ^ (8 * width.toNat)
  | Unrecognized _ => True

/-- The low bits of a header that was not recognized are not those of a SWIT packet. -/
def ItmPacket.BeginsNone : ItmPacket → Prop
  | Swit _ _ _ => True
  | Unrecognized header => (header &&& 0x7).toNat ∈ [0, 4, 5, 6, 7]

/-! ### From bytes to packets -/

/-- A header with a width is put together again from its two parts. -/
theorem header_parts {header : UInt8} {width : ℕ} (h : headerWidth header = some width) :
    sizeCode (UInt8.ofNat width) = some (header &&& 0x7) ∧
      ((header >>> 3) <<< 3) ||| (header &&& 0x7) = header ∧ (header >>> 3).toNat < 32 ∧
      (width = 1 ∨ width = 2 ∨ width = 4) := by
  have hparts : ∀ n < 256,
      ((UInt8.ofNat n >>> 3) <<< 3) ||| (UInt8.ofNat n &&& 0x7) = UInt8.ofNat n ∧
        (UInt8.ofNat n >>> 3).toNat < 32 := by decide +kernel
  obtain ⟨hwhole, hport⟩ := hparts header.toNat header.toNat_lt
  rw [UInt8.ofNat_toNat] at hwhole hport
  refine ⟨?_, hwhole, hport, ?_⟩
  · rw [headerWidth] at h
    split at h <;> cases h <;> exact congrArg some (UInt8.toNat_inj.mp (Eq.symm (by assumption)))
  · rw [headerWidth] at h
    split at h <;> cases h <;> decide

/-- The payload is written again as it was read. -/
theorem slice_payloadValue {payload : List UInt8} (h : payload.length ≤ 4) :
    slice (u32ToLe (payloadValue payload)) 0 payload.length = payload := by
  rw [slice, List.drop_zero, u32ToLe, LittleEndian.take_ofNat h, payloadValue_le h,
    LittleEndian.ofNat_toNat]

/-- A SWIT packet that has been decoded. -/
theorem encodeSwit_decoded {header : UInt8} {width : ℕ} {payload : List UInt8}
    (h : headerWidth header = some width) (hpayload : payload.length = width) :
    encodeSwit (header >>> 3) (payloadValue payload) (UInt8.ofNat width) =
        some (header :: payload) ∧
      (ItmPacket.Swit (header >>> 3) (payloadValue payload) (UInt8.ofNat width)).WellFormed := by
  obtain ⟨hcode, hwhole, hport, hwidth⟩ := header_parts h
  have hshort : payload.length ≤ 4 := by omega
  have hnat : (UInt8.ofNat width).toNat = width :=
    UInt8.toNat_ofNat_of_lt' (by simp only [UInt8.size]; omega)
  refine ⟨?_, ?_, hport, ?_⟩
  · rw [encodeSwit, hcode, Option.map_some, hwhole, hnat, ← hpayload, slice_payloadValue hshort]
  · obtain rfl | rfl | rfl := hwidth
    · exact .inl rfl
    · exact .inr (.inl rfl)
    · exact .inr (.inr rfl)
  · rw [hnat, payloadValue_le hshort, ← hpayload, pow_mul]
    exact LittleEndian.toNat_lt payload

theorem encodeItmStream_cons {packet : ItmPacket} {packets : List ItmPacket}
    {bytes rest : List UInt8} (hpacket : packet.encode = some bytes)
    (hpackets : encodeItmStream packets = some rest) :
    encodeItmStream (packet :: packets) = some (bytes ++ rest) := by
  rw [encodeItmStream, hpacket, hpackets]
  rfl

/-- A packet and its bytes before a stream that has been put together again. -/
theorem reencoded_cons {packet : ItmPacket} {packets : List ItmPacket} {bytes rest : List UInt8}
    (hpacket : packet.encode = some bytes) (hwell : packet.WellFormed)
    (hrest : encodeItmStream packets = some rest ∧ ∀ p ∈ packets, p.WellFormed) :
    encodeItmStream (packet :: packets) = some (bytes ++ rest) ∧
      ∀ p ∈ packet :: packets, p.WellFormed :=
  ⟨encodeItmStream_cons hpacket hrest.1, List.forall_mem_cons.mpr ⟨hwell, hrest.2⟩⟩

/-- No byte is skipped and none is read twice. -/
theorem encodeItmStream_decodeItmStream (bytes : List UInt8) :
    encodeItmStream (decodeItmStream bytes) = some bytes ∧
      ∀ packet ∈ decodeItmStream bytes, packet.WellFormed := by
  induction bytes using decodeItmStream.induct with
  | case1 =>
    rw [decodeItmStream]
    exact ⟨rfl, fun packet hpacket => absurd hpacket List.not_mem_nil⟩
  | case2 header bytes hnone ih =>
    have hpacket : (ItmPacket.Unrecognized header).encode = some [header] := rfl
    rw [decodeItmStream, hnone]
    exact reencoded_cons hpacket trivial ih
  | case3 header bytes width hsome hshort ih =>
    have hpacket : (ItmPacket.Unrecognized header).encode = some [header] := rfl
    rw [decodeItmStream, hsome]
    dsimp only
    rw [if_pos hshort]
    exact reencoded_cons hpacket trivial ih
  | case4 header bytes width hsome hlong ih =>
    obtain ⟨hencode, hwell⟩ :=
      encodeSwit_decoded hsome (List.length_take_of_le (Nat.le_of_not_lt hlong))
    have hpacket : (ItmPacket.Swit (header >>> 3) (payloadValue (bytes.take width))
        (UInt8.ofNat width)).encode = some (header :: bytes.take width) := hencode
    rw [decodeItmStream, hsome]
    dsimp only
    rw [if_neg hlong]
    have hboth := reencoded_cons hpacket hwell ih
    rwa [List.cons_append, List.take_append_drop] at hboth

/-! ### From packets to bytes -/

theorem headerWidth_eq_none {header : UInt8} (h : (header &&& 0x7).toNat ∈ [0, 4, 5, 6, 7]) :
    headerWidth header = none := by
  rw [headerWidth]
  generalize (header &&& 0x7).toNat = low at h
  simp only [List.mem_cons, List.not_mem_nil, or_false] at h
  obtain rfl | rfl | rfl | rfl | rfl := h <;> rfl

/-- One packet in front of a stream. -/
theorem decodeItmStream_encode {packet : ItmPacket} (hwell : packet.WellFormed)
    (hnone : packet.BeginsNone) :
    ∃ bytes, packet.encode = some bytes ∧
      ∀ rest, decodeItmStream (bytes ++ rest) = packet :: decodeItmStream rest := by
  cases packet with
  | Unrecognized header =>
    refine ⟨[header], rfl, fun rest => ?_⟩
    rw [List.singleton_append, decodeItmStream, headerWidth_eq_none hnone]
  | Swit port value width =>
    obtain ⟨hwidth, hport, hvalue⟩ := hwell
    obtain ⟨code, hcode⟩ : ∃ code, sizeCode width = some code := by
      obtain rfl | rfl | rfl := hwidth
      · exact ⟨1, rfl⟩
      · exact ⟨2, rfl⟩
      · exact ⟨3, rfl⟩
    have hencode : encodeSwit port value width =
        some (((port <<< 3) ||| code) :: slice (u32ToLe value) 0 width.toNat) := by
      rw [encodeSwit, hcode, Option.map_some]
    rw [pow_mul] at hvalue
    refine ⟨_, hencode, fun rest => ?_⟩
    rw [decodeItmStream_swit hport hencode rest]
    change 256 ^ width.toNat > value.toNat at hvalue
    rw [Nat.mod_eq_of_lt hvalue, UInt32.ofNat_toNat]

/-- Packets are found again whatever stands between them. -/
theorem decodeItmStream_encodeItmStream (packets : List ItmPacket)
    (hwell : ∀ packet ∈ packets, packet.WellFormed ∧ packet.BeginsNone) :
    ∃ bytes, encodeItmStream packets = some bytes ∧ decodeItmStream bytes = packets := by
  induction packets with
  | nil => exact ⟨[], rfl, by rw [decodeItmStream]⟩
  | cons packet packets ih =>
    obtain ⟨hpacket, hnone⟩ := hwell packet List.mem_cons_self
    obtain ⟨bytes, hencode, hdecode⟩ := decodeItmStream_encode hpacket hnone
    obtain ⟨rest, hrest, hpackets⟩ := ih fun other hother =>
      hwell other (List.mem_cons_of_mem packet hother)
    exact ⟨bytes ++ rest, encodeItmStream_cons hencode hrest, by rw [hdecode, hpackets]⟩

/-- **The codec is an exact inverse both ways.** The packets decoded from any bytes are well formed
and are encoded as these bytes; and well-formed packets, with any bytes between them that begin
none, are decoded from their encodings. -/
theorem itm_codec_inverse :
    (∀ bytes : List UInt8, encodeItmStream (decodeItmStream bytes) = some bytes ∧
      ∀ packet ∈ decodeItmStream bytes, packet.WellFormed) ∧
    ∀ packets : List ItmPacket,
      (∀ packet ∈ packets, packet.WellFormed ∧ packet.BeginsNone) →
        ∃ bytes, encodeItmStream packets = some bytes ∧ decodeItmStream bytes = packets :=
  ⟨encodeItmStream_decodeItmStream, decodeItmStream_encodeItmStream⟩

/-- A packet between two bytes that begin none. -/
theorem itm_codec_inverse_interleaved :
    ∃ bytes, encodeItmStream [.Unrecognized 0, .Swit 5 0x1234 2, .Unrecognized 6] = some bytes ∧
      decodeItmStream bytes = [.Unrecognized 0, .Swit 5 0x1234 2, .Unrecognized 6] := by
  apply itm_codec_inverse.2
  simp [ItmPacket.WellFormed, ItmPacket.BeginsNone]

end Model
