import Zub1cg.Firmware.M3Bram

/-!
# The accesses to the block RAM of the M3

The two copies of `Mmio` as the sequences of volatile accesses that they are. The controller has
checked that a copy lies in the window; nothing has checked that it begins at a word.

## Main definitions

- `Access`, `Mmio.stores`, `Mmio.loads` — the accesses of the two copies
- `Bus` — a device that notes down the accesses made to the window
- `Placed` — the accesses are where the window allows them

## Main results

- `Mmio.writeM3Bram_eq_stores`, `Mmio.readM3Bram_eq_loads` — the copies make these accesses
- `Controller.command_accesses` — the accesses of a control request
- `placed_iff` — the requests whose accesses are all where they may be
-/

namespace Firmware

/-! ### Copies as accesses -/

/-- A volatile access, at a physical address. -/
inductive Access where
  | store32 (address : ℕ) (word : UInt32)
  | store8 (address : ℕ) (byte : UInt8)
  | load32 (address : ℕ)
  | load8 (address : ℕ)
  deriving DecidableEq, Repr

namespace Access

def address : Access → ℕ
  | store32 address _ | store8 address _ | load32 address | load8 address => address

/-- The bytes accessed. -/
def width : Access → ℕ
  | store32 _ _ | load32 _ => 4
  | store8 _ _ | load8 _ => 1

/-- What an access does to the memory. -/
def perform (memory : ℕ → UInt8) : Access → ℕ → UInt8
  | store32 address word => Mmio.store32 address word memory
  | store8 address byte => Mmio.store8 address byte memory
  | load32 _ | load8 _ => memory

/-- What an access gets from the memory. -/
def value (memory : ℕ → UInt8) : Access → List UInt8
  | store32 _ _ | store8 _ _ => []
  | load32 address => u32ToLe (Mmio.load32 memory address)
  | load8 address => [memory address]

end Access

namespace Mmio

/-- The accesses of `write_m3_bram`. -/
def stores : (address : ℕ) → List UInt8 → List Access
  | address, b0 :: b1 :: b2 :: b3 :: rest =>
    .store32 address (u32FromLe [b0, b1, b2, b3]) :: stores (address + 4) rest
  | address, remainder => remainder.zipIdx.map fun entry => .store8 (address + entry.2) entry.1

/-- The accesses of `read_m3_bram`. -/
def loads : (address length : ℕ) → List Access
  | address, length + 4 => .load32 address :: loads (address + 4) length
  | address, remainder => (List.range remainder).map fun index => .load8 (address + index)

theorem writeM3Bram_eq_stores (address : ℕ) (data : List UInt8) (memory : ℕ → UInt8) :
    writeM3Bram address data memory = (stores address data).foldl Access.perform memory := by
  induction address, data, memory using writeM3Bram.induct with
  | case1 address b0 b1 b2 b3 rest memory ih =>
    rw [writeM3Bram, stores, List.foldl_cons, ih]
    rfl
  | case2 address remainder memory hshort =>
    rw [writeM3Bram.eq_2 _ _ _ hshort, stores.eq_2 _ _ hshort, List.foldl_map]
    rfl

theorem readM3Bram_eq_loads (memory : ℕ → UInt8) (address length : ℕ) :
    readM3Bram memory address length = (loads address length).flatMap (Access.value memory) := by
  induction address, length using readM3Bram.induct with
  | case1 address length ih =>
    rw [readM3Bram, loads, List.flatMap_cons, ih]
    rfl
  | case2 address remainder hshort =>
    rw [readM3Bram.eq_2 _ _ _ hshort, loads.eq_2 _ _ hshort, List.flatMap_map]
    exact List.map_eq_flatMap

/-- Where the accesses of a copy of `length` bytes are, and how wide. -/
def spans : (address length : ℕ) → List (ℕ × ℕ)
  | address, length + 4 => (address, 4) :: spans (address + 4) length
  | address, remainder => (List.range remainder).map fun index => (address + index, 1)

theorem stores_spans (address : ℕ) (data : List UInt8) :
    (stores address data).map (fun a => (a.address, a.width)) = spans address data.length := by
  induction address, data using stores.induct with
  | case1 address b0 b1 b2 b3 rest ih =>
    rw [stores, List.map_cons, ih]
    rfl
  | case2 address remainder hshort =>
    rw [stores.eq_2 _ _ hshort]
    match remainder, hshort with
    | [], _ => rfl
    | [_], _ => rfl
    | [_, _], _ => rfl
    | [_, _, _], _ => rfl
    | b0 :: b1 :: b2 :: b3 :: rest, hshort => exact (hshort b0 b1 b2 b3 rest rfl).elim

theorem loads_spans (address length : ℕ) :
    (loads address length).map (fun a => (a.address, a.width)) = spans address length := by
  induction address, length using loads.induct with
  | case1 address length ih =>
    rw [loads, List.map_cons, ih]
    rfl
  | case2 address remainder hshort =>
    rw [loads.eq_2 _ _ hshort, spans.eq_2 _ _ hshort, List.map_map]
    rfl

/-- The accesses of a copy lie in the copy. -/
theorem spans_inside {address length : ℕ} {span : ℕ × ℕ} (h : span ∈ spans address length) :
    address ≤ span.1 ∧ span.1 + span.2 ≤ address + length := by
  induction address, length using spans.induct with
  | case1 address length ih =>
    rw [spans, List.mem_cons] at h
    obtain rfl | hrest := h
    · dsimp only
      omega
    · have hinside := ih hrest
      omega
  | case2 address remainder hshort =>
    rw [spans.eq_2 _ _ hshort, List.mem_map] at h
    obtain ⟨index, hindex, rfl⟩ := h
    rw [List.mem_range] at hindex
    dsimp only
    omega

/-- The words of a copy are aligned if its start is, or if there is none. -/
theorem spans_aligned_iff (address length : ℕ) :
    (∀ span ∈ spans address length, span.2 = 4 → 4 ∣ span.1) ↔ 4 ∣ address ∨ length < 4 := by
  induction address, length using spans.induct with
  | case1 address length ih =>
    rw [spans, List.forall_mem_cons, ih]
    constructor
    · rintro ⟨hfirst, -⟩
      exact .inl (hfirst rfl)
    · rintro (haligned | hshort)
      · exact ⟨fun _ => haligned, .inl (by omega)⟩
      · omega
  | case2 address remainder hshort =>
    rw [spans.eq_2 _ _ hshort]
    have hfew : remainder < 4 := by
      by_contra hmany
      exact hshort (remainder - 4) (by omega)
    refine iff_of_true (fun span hspan hword => ?_) (.inr hfew)
    obtain ⟨index, -, rfl⟩ := List.mem_map.mp hspan
    cases hword

end Mmio

/-! ### The accesses of a request -/

/-- The device, and the accesses made to the window so far, oldest first. -/
structure Bus (Io : Type) where
  mmio : Mmio Io
  accesses : List Access

instance {Io : Type} [RegisterIo Io] : RegisterIo (Bus Io) where
  read offset d :=
    ((RegisterIo.read offset d.mmio).1, { d with mmio := (RegisterIo.read offset d.mmio).2 })
  write offset value d := { d with mmio := RegisterIo.write offset value d.mmio }
  writeM3Bram offset data d :=
    { mmio := RegisterIo.writeM3Bram offset data d.mmio
      accesses := d.accesses ++ Mmio.stores (M3_BRAM_BASE + offset) data }
  readM3Bram offset length d :=
    ((RegisterIo.readM3Bram offset length d.mmio).1,
      { mmio := (RegisterIo.readM3Bram offset length d.mmio).2
        accesses := d.accesses ++ Mmio.loads (M3_BRAM_BASE + offset) length })
  selectCoresightSource a53 d := { d with mmio := RegisterIo.selectCoresightSource a53 d.mmio }
  enableCoresightTrace a53 d := { d with mmio := RegisterIo.enableCoresightTrace a53 d.mmio }

/-- The offset and the length of the copy that a request asks for. -/
def bramCopy (request : List UInt8) : Option (ℕ × ℕ) :=
  match (byteAt request 2).toNat with
  | 7 => some ((u32FromLe (slice request 3 7)).toNat, (request.drop 7).length)
  | 8 => some ((u32FromLe (slice request 3 7)).toNat, (u16FromLe (slice request 7 9)).toNat)
  | _ => none

/-- The accesses that a request makes to the window. -/
def bramAccesses (request : List UInt8) : List Access :=
  match (byteAt request 2).toNat with
  | 7 => Mmio.stores (M3_BRAM_BASE + (u32FromLe (slice request 3 7)).toNat) (request.drop 7)
  | 8 =>
    Mmio.loads (M3_BRAM_BASE + (u32FromLe (slice request 3 7)).toNat)
      (u16FromLe (slice request 7 9)).toNat
  | _ => []

namespace Controller

variable {Io : Type} [RegisterIo Io]

theorem readStats_accesses (offsets : List ℕ) (self : Controller (Bus Io)) :
    (readStats offsets self).2.io.accesses = self.io.accesses := by
  induction offsets generalizing self with
  | nil => rfl
  | cons offset rest ih => exact ih _

theorem configure_accesses (self : Controller (Bus Io)) (source format : UInt8) (baud : UInt32) :
    (self.configure source format baud).io.accesses = self.io.accesses := by
  rw [configure]
  split <;> rfl

/-- The accesses that an accepted request makes. -/
theorem command_accesses {request response : List UInt8} (h : Accepts request response.length)
    (self : Controller (Bus Io)) :
    (self.command request response).2.1.io.accesses =
      self.io.accesses ++ bramAccesses request := by
  have hstats := @command_getStats (Bus Io) _ request response h
  have hguard := h.guard
  obtain ⟨-, hroom, -, hfit⟩ := h
  have hsmall : M3_BRAM_SIZE < 2 ^ 64 := by decide
  have hnone : self.io.accesses = self.io.accesses ++ [] := (List.append_nil _).symm
  unfold argumentsFit at hfit
  split at hfit
  · next hop =>
    simp only [command, bramAccesses, hop, if_neg hguard]
    split <;> exact hnone
  · next hop =>
    simp only [command, bramAccesses, hop, if_neg hguard]
    split
    · exact (configure_accesses self _ _ _).trans hnone
    · exact hnone
  · next hop =>
    simp only [command, bramAccesses, hop, if_neg hguard]
    exact hnone
  · next hop =>
    simp only [command, bramAccesses, hop, if_neg hguard]
    exact hnone
  · next hop =>
    simp only [command, bramAccesses, hop, if_neg hguard]
    exact hnone
  · next hop =>
    rw [hstats hop, bramAccesses, hop]
    exact (readStats_accesses statsOffsets self).trans hnone
  · next hop =>
    rw [Bool.and_eq_true, decide_eq_true_eq, decide_eq_true_eq] at hfit
    simp only [command, bramAccesses, hop, if_neg hguard]
    rw [if_pos hfit.1, if_neg (by omega), if_neg (by omega)]
    rfl
  · next hop =>
    simp only [Bool.and_eq_true, beq_iff_eq, decide_eq_true_eq] at hfit
    simp only [command, bramAccesses, hop, if_neg hguard]
    rw [if_pos hfit.1.1, if_neg (by omega), if_neg (by omega)]
    rfl
  · next hop =>
    simp only [command, bramAccesses, hop, if_neg hguard]
    split <;> exact hnone
  · exact absurd hfit Bool.false_ne_true

end Controller

/-- The accesses are where the request's copy is. -/
theorem bramAccesses_spans (request : List UInt8) :
    (bramAccesses request).map (fun a => (a.address, a.width)) =
      match bramCopy request with
      | some (offset, length) => Mmio.spans (M3_BRAM_BASE + offset) length
      | none => [] := by
  rw [bramAccesses, bramCopy]
  split
  · exact Mmio.stores_spans _ _
  · exact Mmio.loads_spans _ _
  · rfl

/-- The check has put the copy into the window. -/
theorem Accepts.fits {request : List UInt8} {room offset length : ℕ} (h : Accepts request room)
    (hcopy : bramCopy request = some (offset, length)) : offset + length ≤ M3_BRAM_SIZE := by
  have hfit := h.2.2.2
  rw [bramCopy] at hcopy
  split at hcopy
  · next hop =>
    cases hcopy
    rw [argumentsFit, hop] at hfit
    exact of_decide_eq_true (Bool.and_eq_true_iff.mp hfit).2
  · next hop =>
    cases hcopy
    rw [argumentsFit, hop] at hfit
    exact of_decide_eq_true (Bool.and_eq_true_iff.mp (Bool.and_eq_true_iff.mp hfit).1).2
  · cases hcopy

/-- Every byte that is accessed lies in the window, and every word that is has an address that is
a multiple of four. -/
def Placed (accesses : List Access) : Prop :=
  (∀ a ∈ accesses, M3_BRAM_BASE ≤ a.address ∧
    a.address + a.width ≤ M3_BRAM_BASE + M3_BRAM_SIZE) ∧
  ∀ a ∈ accesses, a.width = 4 → 4 ∣ a.address

/-- The copy begins at a word of the block RAM, or is less than a word. -/
def WordAligned (request : List UInt8) : Prop :=
  ∀ offset length, bramCopy request = some (offset, length) → 4 ∣ offset ∨ length < 4

/-- **Which requests keep to words.** The accesses of an accepted request all lie in the window;
those of a whole word are aligned if and only if the copy begins at a word or is less than
one. -/
theorem placed_iff {Io : Type} [RegisterIo Io] (self : Controller (Bus Io))
    {request response : List UInt8} (h : (self.command request response).1.isOk = true) :
    ∃ accesses, (self.command request response).2.1.io.accesses = self.io.accesses ++ accesses ∧
      (∀ a ∈ accesses, M3_BRAM_BASE ≤ a.address ∧
        a.address + a.width ≤ M3_BRAM_BASE + M3_BRAM_SIZE) ∧
      (Placed accesses ↔ WordAligned request) := by
  have haccepts := (Controller.command_isOk_iff request response self).mp h
  have hspans := bramAccesses_spans request
  have hspan {a : Access} (ha : a ∈ bramAccesses request) :
      (a.address, a.width) ∈ (bramAccesses request).map fun a => (a.address, a.width) :=
    List.mem_map_of_mem ha
  refine ⟨bramAccesses request, Controller.command_accesses haccepts self, ?_⟩
  rw [Placed, WordAligned]
  cases hcopy : bramCopy request with
  | none =>
    rw [hcopy] at hspans
    rw [List.map_eq_nil_iff.mp hspans]
    simp
  | some copy =>
    obtain ⟨offset, length⟩ := copy
    rw [hcopy] at hspans
    dsimp only at hspans
    rw [hspans] at hspan
    have hfits := haccepts.fits hcopy
    have hinside : ∀ a ∈ bramAccesses request, M3_BRAM_BASE ≤ a.address ∧
        a.address + a.width ≤ M3_BRAM_BASE + M3_BRAM_SIZE := by
      intro a ha
      have hin := Mmio.spans_inside (hspan ha)
      dsimp only at hin
      omega
    have hbase : 4 ∣ M3_BRAM_BASE := by decide
    have haligned : (∀ a ∈ bramAccesses request, a.width = 4 → 4 ∣ a.address) ↔
        4 ∣ offset ∨ length < 4 := by
      rw [← Nat.dvd_add_right hbase, ← Mmio.spans_aligned_iff, ← hspans, List.forall_mem_map]
    refine ⟨hinside, ?_⟩
    rw [haligned]
    constructor
    · rintro ⟨-, hboth⟩ offset' length' hsame
      cases hsame
      exact hboth
    · intro hall
      exact ⟨hinside, hall offset length rfl⟩

/-- A device that has not been used. -/
def fresh : Controller (Bus Blank) := ⟨⟨⟨⟨⟩, fun _ => 0⟩, []⟩⟩

/-- Six bytes from the second word on. -/
theorem placed_iff_read :
    ∃ accesses, (fresh.command [1, 0, 8, 4, 0, 0, 0, 6, 0] (List.replicate 6 0)).2.1.io.accesses =
        [] ++ accesses ∧ Placed accesses := by
  obtain ⟨accesses, hmade, -, hplaced⟩ :=
    @placed_iff Blank _ fresh [1, 0, 8, 4, 0, 0, 0, 6, 0] (List.replicate 6 0)
      ((Controller.command_isOk_iff _ _ _).mpr (by decide))
  refine ⟨accesses, hmade, hplaced.mpr ?_⟩
  intro offset length hcopy
  cases hcopy
  exact .inl (by decide)

/-- One word, written from the second byte on. -/
theorem unaligned_chunk :
    ¬ ∀ (self : Controller (Bus Blank)) (request response : List UInt8),
      (self.command request response).1.isOk = true →
        ∃ accesses, (self.command request response).2.1.io.accesses =
          self.io.accesses ++ accesses ∧ Placed accesses := by
  intro h
  have haccepts : Accepts [1, 0, 7, 1, 0, 0, 0, 1, 2, 3, 4] ([0] : List UInt8).length := by decide
  obtain ⟨accesses, hmade, -, haligned⟩ :=
    h fresh _ _ ((Controller.command_isOk_iff _ _ fresh).mpr haccepts)
  rw [Controller.command_accesses haccepts] at hmade
  have haddress := haligned (.store32 (M3_BRAM_BASE + 1) (u32FromLe [1, 2, 3, 4]))
    (by rw [← List.append_cancel_left hmade]; exact List.mem_cons_self) rfl
  exact absurd haddress (by decide)

end Firmware
