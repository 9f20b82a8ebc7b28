import Zub1cg.Firmware.DmaRing
import Zub1cg.Library.RingIndex

/-!
# The descriptor ring is a queue

Number the successful `enqueue`s. The `i`-th one lies in descriptor `i % n` until the `i`-th
buffer has come out, so the outstanding ones are a window of fewer than `n` numbers and
never share a descriptor.

## Main definitions

- `Ledger.Consistent` — the ring in terms of what went in and out

## Main results

- `Consistent.step`, `Consistent.run` — every operation of either side keeps it
- `ring_is_fifo` — what holds after any interleaving
-/

namespace Firmware

/-! ### Words and addresses -/

theorem joinWords_split (x : UInt64) : joinWords (lowWord x) (highWord x) = x := by
  apply UInt64.toNat_inj.mp
  have hx := x.toNat_lt
  have hlow : (lowWord x).toUInt64.toNat = x.toNat % 2 ^ 32 := by
    rw [lowWord, UInt32.toNat_toUInt64, UInt64.toNat_toUInt32]
  have hhigh : ((highWord x).toUInt64 <<< 32).toNat = (x.toNat / 2 ^ 32) <<< 32 := by
    rw [UInt64.toNat_shiftLeft, UInt32.toNat_toUInt64, highWord, UInt64.toNat_toUInt32,
      UInt64.toNat_shiftRight]
    simp only [Nat.shiftLeft_eq, Nat.shiftRight_eq_div_pow]
    change x.toNat / 2 ^ 32 % 2 ^ 32 * 2 ^ 32 % 2 ^ 64 = _
    omega
  rw [joinWords, UInt64.toNat_or, hlow, hhigh, Nat.or_comm,
    ← Nat.shiftLeft_add_eq_or_of_lt (Nat.mod_lt _ (by decide)), Nat.shiftLeft_eq]
  omega

theorem and_length_mask {capacity : UInt32} (h : capacity ≤ AXI_DMA_LENGTH_MASK) :
    capacity &&& AXI_DMA_LENGTH_MASK = capacity := by
  apply UInt32.toNat_inj.mp
  have hle : capacity.toNat ≤ 2 ^ 26 - 1 := UInt32.le_iff_toNat_le.mp h
  rw [UInt32.toNat_and]
  change capacity.toNat &&& (2 ^ 26 - 1) = _
  rw [Nat.and_two_pow_sub_one_eq_mod]
  omega

/-- The address of descriptor `k`. -/
def slotAddress (base : UInt64) (k : ℕ) : UInt64 := base + UInt64.ofNat (k * 64)

namespace AxiDmaRing

theorem indexOf_slotAddress {self : AxiDmaRing} {base : UInt64} (hbase : self.descriptorBase = base)
    {n k : ℕ} (hroom : base.toNat + 64 * n ≤ 2 ^ 64) (hk : k < n) :
    self.indexOf (slotAddress base k) = k := by
  have hdiff : slotAddress base k - base = UInt64.ofNat (k * 64) := by
    rw [slotAddress]
    grind
  rw [indexOf, hbase, hdiff, UInt64.toNat_ofNat_of_lt' (by simp only [UInt64.size]; omega)]
  omega

theorem descriptor_set (self : AxiDmaRing) (k : ℕ) (d : AxiDmaDescriptor) (producer consumer j : ℕ)
    (hk : k < self.descriptors.length) :
    descriptor { self with
        descriptors := self.descriptors.set k d
        producer := producer
        consumer := consumer } j =
      if j = k then d else self.descriptor j := by
  unfold descriptor
  rw [List.getD_eq_getElem?_getD, List.getElem?_set, List.getD_eq_getElem?_getD]
  by_cases hj : k = j
  · subst hj
    simp [hk]
  · simp [hj, Ne.symm hj]

end AxiDmaRing

/-! ### The window of outstanding buffers -/

/-- The words of the descriptor that holds a buffer. -/
structure Holds (d : AxiDmaDescriptor) (buffer : Issued) (status : UInt32) : Prop where
  lo : d.bufferAddressLo = lowWord buffer.address
  hi : d.bufferAddressHi = highWord buffer.address
  control : d.control = buffer.capacity
  status : d.status = status

namespace Ledger

/-- The ring in terms of what went in and what came out. -/
structure Consistent (base : UInt64) (n : ℕ) (l : Ledger) : Prop where
  descriptorBase : l.ring.descriptorBase = base
  length : l.ring.descriptors.length = n
  producer : l.ring.producer = l.issued.length % n
  consumer : l.ring.consumer = l.completed.length % n
  order : l.completed.length ≤ l.issued.length
  window : l.issued.length < l.completed.length + n
  next : ∀ k < n, joinWords (l.ring.descriptor k).nextDescriptorLo
    (l.ring.descriptor k).nextDescriptorHi = slotAddress base ((k + 1) % n)
  issued : ∀ i buffer, l.issued[i]? = some buffer →
    buffer.descriptorAddress = slotAddress base (i % n) ∧ buffer.capacity ≤ AXI_DMA_LENGTH_MASK
  armed : ∀ i buffer, l.completed.length ≤ i → l.issued[i]? = some buffer →
    Holds (l.ring.descriptor (i % n)) buffer (l.status i)
  fresh : ∀ i, l.issued.length ≤ i → l.status i = 0
  completed : ∀ (i : ℕ) (result : CompletedBuffer), l.completed[i]? = some result →
    ∃ buffer, l.issued[i]? = some buffer ∧ result = ⟨buffer.address, buffer.capacity,
      l.status i &&& AXI_DMA_LENGTH_MASK, buffer.descriptorAddress⟩

section

variable {base : UInt64} {n : ℕ} {l : Ledger} (h : Consistent base n l) (hn : 2 ^ n.log2 = n)

include h hn

theorem Consistent.full_iff :
    (l.ring.producer + 1) &&& (l.ring.descriptors.length - 1) = l.ring.consumer ↔
      l.outstanding = n - 1 := by
  have horder := h.order
  have hwindow := h.window
  rw [h.length, RingIndex.and_pred_eq_mod hn, h.producer, h.consumer, Nat.mod_add_mod,
    RingIndex.succ_mod_eq_iff horder hwindow, outstanding]
  omega

omit hn in
theorem Consistent.empty_iff : l.ring.consumer = l.ring.producer ↔ l.outstanding = 0 := by
  have horder := h.order
  have hwindow := h.window
  rw [h.producer, h.consumer, outstanding]
  constructor
  · intro hsame
    have := RingIndex.eq_of_mod_eq (Nat.le_refl _) (by omega) horder hwindow hsame
    omega
  · intro hzero
    rw [show l.completed.length = l.issued.length by omega]

/-- What `enqueue` does. -/
theorem Consistent.enqueue (address : UInt64) (capacity : UInt32) :
    l.ring.enqueue address capacity =
      if capacity = 0 ∨ capacity > AXI_DMA_LENGTH_MASK then (.error .InvalidCapacity, l.ring)
      else if l.outstanding = n - 1 then (.error .Full, l.ring)
      else
        (.ok (slotAddress base (l.issued.length % n)),
          { l.ring with
            descriptors := l.ring.descriptors.set (l.issued.length % n)
              { l.ring.descriptor (l.issued.length % n) with
                bufferAddressLo := lowWord address
                bufferAddressHi := highWord address
                control := capacity
                status := 0 }
            producer := (l.issued.length + 1) % n }) := by
  have hfull := h.full_iff hn
  have hnext : (l.ring.producer + 1) &&& (l.ring.descriptors.length - 1) =
      (l.issued.length + 1) % n := by
    rw [h.length, RingIndex.and_pred_eq_mod hn, h.producer, Nat.mod_add_mod]
  rw [AxiDmaRing.enqueue]
  split
  · rfl
  · simp only [hfull]
    split
    · rfl
    · rw [hnext, h.producer, h.descriptorBase]
      rfl

/-- What `poll_completed` does: it looks at the oldest outstanding buffer. -/
theorem Consistent.pollCompleted :
    l.ring.pollCompleted =
      match l.issued[l.completed.length]? with
      | none => (.ok none, l.ring)
      | some buffer =>
        if l.status l.completed.length &&& AXI_DMA_STATUS_COMPLETE = 0 then (.ok none, l.ring)
        else if l.status l.completed.length &&& AXI_DMA_STATUS_ERROR_MASK ≠ 0 then
          (.error (.Hardware (l.status l.completed.length)), l.ring)
        else
          (.ok (some ⟨buffer.address, buffer.capacity,
              l.status l.completed.length &&& AXI_DMA_LENGTH_MASK, buffer.descriptorAddress⟩),
            { l.ring with
              descriptors := l.ring.descriptors.set (l.completed.length % n)
                { l.ring.descriptor (l.completed.length % n) with control := 0, status := 0 }
              consumer := (l.completed.length + 1) % n }) := by
  have horder := h.order
  have hempty := h.empty_iff
  rw [AxiDmaRing.pollCompleted]
  cases holdest : l.issued[l.completed.length]? with
  | none =>
    have hlen := List.getElem?_eq_none_iff.mp holdest
    rw [if_pos (hempty.mpr (by rw [outstanding]; omega))]
  | some buffer =>
    have hlen := (List.getElem?_eq_some_iff.mp holdest).1
    have hnext : (l.ring.consumer + 1) &&& (l.ring.descriptors.length - 1) =
        (l.completed.length + 1) % n := by
      rw [h.length, RingIndex.and_pred_eq_mod hn, h.consumer, Nat.mod_add_mod]
    obtain ⟨hlo, hhi, hcontrol, hstatus⟩ := h.armed _ buffer (Nat.le_refl _) holdest
    obtain ⟨haddress, hcapacity⟩ := h.issued _ buffer holdest
    rw [if_neg (fun hzero => by
      have := hempty.mp hzero
      rw [outstanding] at this
      omega)]
    simp only [h.consumer]
    rw [h.consumer] at hnext
    rw [hstatus, hlo, hhi, hcontrol, joinWords_split, and_length_mask hcapacity, hnext,
      h.descriptorBase, haddress]
    rfl

end

/-! ### Every operation keeps the ring consistent -/

section

variable {base : UInt64} {n : ℕ} {l : Ledger} (h : Consistent base n l)

include h

/-- A buffer goes into the free slot behind the window. -/
theorem Consistent.enqueued (hroom : l.outstanding ≠ n - 1) (address : UInt64) (capacity : UInt32)
    (hcapacity : capacity ≤ AXI_DMA_LENGTH_MASK) :
    Consistent base n
      { l with
        ring := { l.ring with
          descriptors := l.ring.descriptors.set (l.issued.length % n)
            { l.ring.descriptor (l.issued.length % n) with
              bufferAddressLo := lowWord address
              bufferAddressHi := highWord address
              control := capacity
              status := 0 }
          producer := (l.issued.length + 1) % n }
        issued := l.issued ++ [⟨address, capacity, slotAddress base (l.issued.length % n)⟩] } := by
  have horder := h.order
  have hwindow := h.window
  have hslot : l.issued.length % n < l.ring.descriptors.length := by
    rw [h.length]
    exact Nat.mod_lt _ (by omega)
  rw [outstanding] at hroom
  refine ⟨h.descriptorBase, ?_, ?_, h.consumer, ?_, ?_, ?_, ?_, ?_, ?_, ?_⟩
  · rw [List.length_set, h.length]
  · rw [List.length_append, List.length_singleton]
  · rw [List.length_append]
    exact Nat.le_add_right_of_le horder
  · rw [List.length_append, List.length_singleton]
    change l.issued.length + 1 < l.completed.length + n
    omega
  · intro k hk
    rw [AxiDmaRing.descriptor_set _ _ _ _ _ _ hslot]
    split
    · next hkey =>
      subst hkey
      exact h.next _ hk
    · exact h.next k hk
  · intro i buffer hget
    obtain ⟨-, hold⟩ | ⟨rfl, rfl⟩ := RingIndex.getElem?_concat_cases hget
    · exact h.issued i buffer hold
    · exact ⟨rfl, hcapacity⟩
  -- A slot inside the window is free of every other outstanding buffer.
  · intro i buffer hi hget
    change l.completed.length ≤ i at hi
    rw [AxiDmaRing.descriptor_set _ _ _ _ _ _ hslot]
    obtain ⟨hlt, hold⟩ | ⟨rfl, rfl⟩ := RingIndex.getElem?_concat_cases hget
    · rw [if_neg (RingIndex.mod_ne_of_ne hi (by omega) horder hwindow (by omega))]
      exact h.armed i buffer hi hold
    · rw [if_pos rfl]
      exact ⟨rfl, rfl, rfl, (h.fresh _ (Nat.le_refl _)).symm⟩
  · intro i hi
    rw [List.length_append] at hi
    exact h.fresh i (by omega)
  · intro i result hget
    obtain ⟨buffer, hold, hresult⟩ := h.completed i result hget
    have hlt := (List.getElem?_eq_some_iff.mp hold).1
    refine ⟨buffer, ?_, hresult⟩
    rw [List.getElem?_append_left hlt]
    exact hold

/-- The oldest buffer comes out. -/
theorem Consistent.polled (buffer : Issued)
    (holdest : l.issued[l.completed.length]? = some buffer) :
    Consistent base n
      { l with
        ring := { l.ring with
          descriptors := l.ring.descriptors.set (l.completed.length % n)
            { l.ring.descriptor (l.completed.length % n) with control := 0, status := 0 }
          consumer := (l.completed.length + 1) % n }
        completed := l.completed ++ [⟨buffer.address, buffer.capacity,
          l.status l.completed.length &&& AXI_DMA_LENGTH_MASK, buffer.descriptorAddress⟩] } := by
  have hwindow := h.window
  have hlen := (List.getElem?_eq_some_iff.mp holdest).1
  have hslot : l.completed.length % n < l.ring.descriptors.length := by
    rw [h.length]
    exact Nat.mod_lt _ (by omega)
  refine ⟨h.descriptorBase, ?_, h.producer, ?_, ?_, ?_, ?_, h.issued, ?_, h.fresh, ?_⟩
  · rw [List.length_set, h.length]
  · rw [List.length_append, List.length_singleton]
  · rw [List.length_append, List.length_singleton]
    exact hlen
  · rw [List.length_append, List.length_singleton]
    change l.issued.length < l.completed.length + 1 + n
    omega
  · intro k hk
    rw [AxiDmaRing.descriptor_set _ _ _ _ _ _ hslot]
    split
    · next hkey =>
      subst hkey
      exact h.next _ hk
    · exact h.next k hk
  · intro i younger hi hget
    rw [List.length_append, List.length_singleton] at hi
    have hlt : i < l.issued.length := (List.getElem?_eq_some_iff.mp hget).1
    rw [AxiDmaRing.descriptor_set _ _ _ _ _ _ hslot,
      if_neg (RingIndex.mod_ne_of_ne (by omega) (by omega) (Nat.le_refl _) (by omega) (by omega))]
    exact h.armed i younger (by omega) hget
  · intro i result hget
    obtain ⟨-, hold⟩ | ⟨rfl, rfl⟩ := RingIndex.getElem?_concat_cases hget
    · exact h.completed i result hold
    · exact ⟨buffer, holdest, rfl⟩

/-- The hardware writes a status word inside the window. -/
theorem Consistent.written (hroom : base.toNat + 64 * n ≤ 2 ^ 64) (k : ℕ) (status : UInt32)
    (buffer : Issued) (hget : l.issued[l.completed.length + k]? = some buffer) :
    Consistent base n
      { l with
        ring := l.ring.setStatus buffer.descriptorAddress status
        status := fun i => if i = l.completed.length + k then status else l.status i } := by
  have hwindow := h.window
  have hlen := (List.getElem?_eq_some_iff.mp hget).1
  have hslot : (l.completed.length + k) % n < l.ring.descriptors.length := by
    rw [h.length]
    exact Nat.mod_lt _ (by omega)
  rw [AxiDmaRing.setStatus, (h.issued _ buffer hget).1,
    AxiDmaRing.indexOf_slotAddress h.descriptorBase hroom (by rwa [h.length] at hslot)]
  refine ⟨h.descriptorBase, ?_, h.producer, h.consumer, h.order, h.window, ?_, h.issued, ?_, ?_,
    ?_⟩
  · rw [List.length_set, h.length]
  · intro j hj
    rw [AxiDmaRing.descriptor_set _ _ _ _ _ _ hslot]
    split
    · next hkey =>
      subst hkey
      exact h.next _ hj
    · exact h.next j hj
  · intro i other hi hother
    have hlt : i < l.issued.length := (List.getElem?_eq_some_iff.mp hother).1
    change l.completed.length ≤ i at hi
    dsimp only
    rw [AxiDmaRing.descriptor_set _ _ _ _ _ _ hslot]
    by_cases hsame : i = l.completed.length + k
    · subst hsame
      rw [if_pos rfl, if_pos rfl]
      obtain ⟨hlo, hhi, hcontrol, -⟩ := h.armed _ other hi hother
      exact ⟨hlo, hhi, hcontrol, rfl⟩
    · rw [if_neg (RingIndex.mod_ne_of_ne hi (by omega) (by omega) (by omega) hsame), if_neg hsame]
      exact h.armed i other hi hother
  · intro i hi
    change l.issued.length ≤ i at hi
    dsimp only
    rw [if_neg (by omega)]
    exact h.fresh i hi
  · intro i result hresult
    have hlt : i < l.completed.length := (List.getElem?_eq_some_iff.mp hresult).1
    dsimp only
    rw [if_neg (by omega)]
    exact h.completed i result hresult

end

/-- What one operation preserves. -/
theorem Consistent.step {base : UInt64} {n : ℕ} (hn : 2 ^ n.log2 = n)
    (hroom : base.toNat + 64 * n ≤ 2 ^ 64) {l : Ledger} (h : Consistent base n l) (op : RingOp) :
    Consistent base n (l.step op) := by
  cases op with
  | enqueue address capacity =>
    rw [Ledger.step, h.enqueue hn]
    by_cases hcapacity : capacity = 0 ∨ capacity > AXI_DMA_LENGTH_MASK
    · rw [if_pos hcapacity]
      exact h
    · rw [if_neg hcapacity]
      by_cases hfull : l.outstanding = n - 1
      · rw [if_pos hfull]
        exact h
      · rw [if_neg hfull]
        have hle : capacity ≤ AXI_DMA_LENGTH_MASK := by
          apply UInt32.not_lt.mp
          intro hlt
          exact hcapacity (.inr hlt)
        exact h.enqueued hfull address capacity hle
  | pollCompleted =>
    rw [Ledger.step, h.pollCompleted hn]
    cases holdest : l.issued[l.completed.length]? with
    | none => exact h
    | some buffer =>
      dsimp only
      split_ifs
      · exact h
      · exact h
      · exact h.polled buffer holdest
  | hardware k status =>
    rw [Ledger.step]
    cases hget : l.issued[l.completed.length + k]? with
    | none => exact h
    | some buffer => exact h.written hroom k status buffer hget

/-- What any interleaving preserves. -/
theorem Consistent.run {base : UInt64} {n : ℕ} (hn : 2 ^ n.log2 = n)
    (hroom : base.toNat + 64 * n ≤ 2 ^ 64) {l : Ledger} (h : Consistent base n l)
    (ops : List RingOp) : Consistent base n (l.run ops) := by
  induction ops generalizing l with
  | nil => exact h
  | cons op ops ih => exact ih (h.step hn hroom op)

/-- `new` starts with an empty queue. -/
theorem consistent_new {base : UInt64} {descriptors : List AxiDmaDescriptor} {ring : AxiDmaRing}
    (hnew : AxiDmaRing.new descriptors base = .ok ring) :
    2 ^ descriptors.length.log2 = descriptors.length ∧
      Consistent base descriptors.length (start ring) := by
  rw [AxiDmaRing.new] at hnew
  split at hnew
  · contradiction
  · next hcount =>
    have hn : 2 ^ descriptors.length.log2 = descriptors.length := by
      by_contra hne
      exact hcount (.inr hne)
    split at hnew
    · contradiction
    · obtain rfl := Except.ok.inj hnew
      refine ⟨hn, rfl, ?_, ?_, ?_, Nat.le_refl _, ?_, ?_, ?_, ?_, fun _ _ => rfl, ?_⟩
      · rw [start, List.length_map, List.length_range]
      · exact (Nat.zero_mod _).symm
      · exact (Nat.zero_mod _).symm
      · change 0 < 0 + descriptors.length
        omega
      · intro k hk
        rw [start, AxiDmaRing.descriptor, List.getD_eq_getElem?_getD, List.getElem?_map,
          List.getElem?_range hk]
        change joinWords (lowWord _) (highWord _) = _
        rw [joinWords_split, RingIndex.and_pred_eq_mod hn]
        rfl
      · intro i buffer hget
        contradiction
      · intro i buffer _ hget
        contradiction
      · intro i result hget
        contradiction

/-- The next pointers lead from the base through all slots, and round again. -/
theorem Consistent.follow_iterate {base : UInt64} {n : ℕ} {l : Ledger} (h : Consistent base n l)
    (hroom : base.toNat + 64 * n ≤ 2 ^ 64) (k : ℕ) :
    l.ring.follow^[k] base = slotAddress base (k % n) := by
  have hpos : 0 < n := by
    have horder := h.order
    have hwindow := h.window
    omega
  induction k with
  | zero =>
    rw [Nat.zero_mod, slotAddress]
    exact (UInt64.add_zero base).symm
  | succ k ih =>
    have hk := Nat.mod_lt k hpos
    rw [Function.iterate_succ_apply', ih, AxiDmaRing.follow,
      AxiDmaRing.indexOf_slotAddress h.descriptorBase hroom hk]
    exact (h.next _ hk).trans (by rw [Nat.mod_add_mod])

/-! ### The ring as a queue -/

theorem slotAddress_injOn {base : UInt64} {n : ℕ} (hroom : base.toNat + 64 * n ≤ 2 ^ 64) :
    Set.InjOn (slotAddress base) {k | k < n} := by
  intro j hj k hk hsame
  have hindex := @AxiDmaRing.indexOf_slotAddress ⟨[], base, 0, 0⟩ base rfl n j hroom hj
  rw [hsame, AxiDmaRing.indexOf_slotAddress rfl hroom hk] at hindex
  exact hindex.symm

/-- Both operations of the software leave the ring alone when they return an error. -/
theorem Consistent.unchanged_of_error {base : UInt64} {n : ℕ} {l : Ledger}
    (h : Consistent base n l) (hn : 2 ^ n.log2 = n) :
    (∀ address capacity error, (l.ring.enqueue address capacity).1 = .error error →
      (l.ring.enqueue address capacity).2 = l.ring) ∧
    ∀ error, l.ring.pollCompleted.1 = .error error → l.ring.pollCompleted.2 = l.ring := by
  constructor
  · intro address capacity error herror
    rw [h.enqueue hn] at herror ⊢
    split_ifs at herror ⊢ <;> rfl
  · intro error herror
    rw [h.pollCompleted hn] at herror ⊢
    cases holdest : l.issued[l.completed.length]? with
    | none => rfl
    | some buffer =>
      rw [holdest] at herror
      dsimp only at herror ⊢
      split_ifs at herror ⊢
      · rfl

/-- Whatever the software and the hardware do, in any order: `enqueue` reports a full ring for
a valid capacity exactly when all but one descriptor are outstanding; buffers come out as they
went in, with the length the hardware reported; outstanding descriptors keep their words; the
next pointers are one cycle; an error changes nothing. -/
theorem ring_is_fifo (descriptors : List AxiDmaDescriptor) (base : UInt64)
    (htwo : 2 ≤ descriptors.length)
    (hpow : 2 ^ descriptors.length.log2 = descriptors.length)
    (halign : base &&& 63 = 0)
    (hroom : base.toNat + 64 * descriptors.length ≤ 2 ^ 64) :
    ∃ ring, AxiDmaRing.new descriptors base = .ok ring ∧
      ∀ (ops : List RingOp) (l : Ledger), l = (start ring).run ops →
        (∀ address capacity, (l.ring.enqueue address capacity).1 = .error .Full ↔
          (capacity ≠ 0 ∧ capacity ≤ AXI_DMA_LENGTH_MASK) ∧
            l.outstanding = descriptors.length - 1) ∧
        (∀ (i : ℕ) (result : CompletedBuffer), l.completed[i]? = some result →
          ∃ buffer, l.issued[i]? = some buffer ∧ result = ⟨buffer.address, buffer.capacity,
            l.status i &&& AXI_DMA_LENGTH_MASK, buffer.descriptorAddress⟩) ∧
        (∀ (i : ℕ) (buffer : Issued), l.completed.length ≤ i → l.issued[i]? = some buffer →
          buffer.descriptorAddress = slotAddress base (i % descriptors.length) ∧
            Holds (l.ring.descriptor (i % descriptors.length)) buffer (l.status i)) ∧
        ((∀ k, l.ring.follow^[k] base = slotAddress base (k % descriptors.length)) ∧
          Set.InjOn (slotAddress base) {k | k < descriptors.length}) ∧
        (∀ address capacity error, (l.ring.enqueue address capacity).1 = .error error →
          (l.ring.enqueue address capacity).2 = l.ring) ∧
        ∀ error, l.ring.pollCompleted.1 = .error error → l.ring.pollCompleted.2 = l.ring := by
  obtain ⟨ring, hring⟩ : ∃ ring, AxiDmaRing.new descriptors base = .ok ring := by
    rw [AxiDmaRing.new, if_neg (by omega), if_neg (not_not_intro halign)]
    exact ⟨_, rfl⟩
  refine ⟨ring, hring, ?_⟩
  rintro ops l rfl
  have h := (consistent_new hring).2.run hpow hroom ops
  generalize (start ring).run ops = l at h
  refine ⟨?_, h.completed, ?_, ⟨h.follow_iterate hroom, slotAddress_injOn hroom⟩,
    h.unchanged_of_error hpow⟩
  · intro address capacity
    rw [h.enqueue hpow]
    by_cases hcapacity : capacity = 0 ∨ capacity > AXI_DMA_LENGTH_MASK
    · rw [if_pos hcapacity]
      constructor
      · intro hfull
        cases hfull
      · rintro ⟨⟨hzero, hle⟩, -⟩
        obtain heq | hgt := hcapacity
        · exact absurd heq hzero
        · exact absurd hgt (UInt32.not_lt.mpr hle)
    · rw [if_neg hcapacity]
      have hvalid : capacity ≠ 0 ∧ capacity ≤ AXI_DMA_LENGTH_MASK :=
        ⟨fun heq => hcapacity (.inl heq), UInt32.not_lt.mp fun hgt => hcapacity (.inr hgt)⟩
      by_cases hfull : l.outstanding = descriptors.length - 1
      · rw [if_pos hfull]
        exact ⟨fun _ => ⟨hvalid, hfull⟩, fun _ => rfl⟩
      · rw [if_neg hfull]
        constructor
        · intro hok
          cases hok
        · rintro ⟨-, houtstanding⟩
          exact absurd houtstanding hfull
  · intro i buffer hi hget
    exact ⟨(h.issued i buffer hget).1, h.armed i buffer hi hget⟩

/-- Two descriptors, one buffer that goes in, is written to and comes out. -/
theorem ring_is_fifo_two :
    ∃ ring, AxiDmaRing.new [AxiDmaDescriptor.zero, AxiDmaDescriptor.zero] 0x40000000 = .ok ring ∧
      ∀ l, l = (start ring).run
          [.enqueue 0x1000 64, .hardware 0 0x80000020, .pollCompleted] →
        ∃ buffer, l.issued[0]? = some buffer ∧
          (⟨0x1000, 64, 0x20, 0x40000000⟩ : CompletedBuffer) =
            ⟨buffer.address, buffer.capacity, l.status 0 &&& AXI_DMA_LENGTH_MASK,
              buffer.descriptorAddress⟩ := by
  obtain ⟨ring, hring, hrun⟩ := ring_is_fifo [AxiDmaDescriptor.zero, AxiDmaDescriptor.zero]
    0x40000000 (by decide) (by decide) (by decide) (by decide)
  refine ⟨ring, hring, ?_⟩
  intro l hl
  obtain ⟨-, hcompleted, -⟩ := hrun _ l hl
  apply hcompleted
  obtain rfl := Except.ok.inj hring
  subst hl
  decide +kernel

/-- An invalid capacity is reported before the full ring is. -/
theorem full_ring_reports_capacity :
    ∃ ring, AxiDmaRing.new [AxiDmaDescriptor.zero, AxiDmaDescriptor.zero] 0x40000000 = .ok ring ∧
      ¬ ((((start ring).run [.enqueue 0x1000 64]).ring.enqueue 0x2000 0).1 = .error .Full ↔
        ((start ring).run [.enqueue 0x1000 64]).outstanding = 2 - 1) := by
  refine ⟨_, rfl, ?_⟩
  decide +kernel

end Ledger

end Firmware
