import Zub1cg.Firmware.Controller

/-!
# What a request does to the response buffer

The controller writes its answer over the start of the response buffer and never reads
the buffer, so the answer depends on the buffer's size only.

## Main results

- `Controller.command_of_accepts`, `Controller.command_of_rejects` — control requests
- `Controller.dapExchange_writes` — CMSIS-DAP payloads
-/

namespace Firmware

variable {Io : Type} [RegisterIo Io]

/-- An accepted request passes the guard of `command`. -/
theorem Accepts.guard {request response : List UInt8} (h : Accepts request response.length) :
    ¬ (request.length < 3 ∨ response.length = 0 ∨
      u16FromLe (slice request 0 2) ≠ PROTOCOL_VERSION) := by
  obtain ⟨hlen, hroom, hversion, -⟩ := h
  rintro (hshort | hnone | hother)
  · omega
  · omega
  · exact hother hversion

/-- What a buffer of `room` bytes looks like after `bytes` were written over its start. -/
def overwrite (bytes buffer : List UInt8) : List UInt8 := bytes ++ buffer.drop bytes.length

theorem length_overwrite {bytes buffer : List UInt8} (h : bytes.length ≤ buffer.length) :
    (overwrite bytes buffer).length = buffer.length := by
  rw [overwrite, List.length_append, List.length_drop]
  omega

theorem copyFromSlice_zero (buffer data : List UInt8) :
    copyFromSlice buffer 0 data = overwrite data buffer := by
  simp [copyFromSlice, overwrite]

theorem set_zero_eq {buffer : List UInt8} (h : 0 < buffer.length) (b : UInt8) :
    buffer.set 0 b = overwrite [b] buffer := by
  cases buffer with
  | nil => simp at h
  | cons c buffer => rfl

/-- Writing right behind what was written already. -/
theorem copyFromSlice_overwrite (bytes buffer data : List UInt8) :
    copyFromSlice (overwrite bytes buffer) bytes.length data = overwrite (bytes ++ data) buffer := by
  simp [copyFromSlice, overwrite, List.drop_append]

namespace Controller

/-- The statistics words, read one after the other. -/
def readStats : List ℕ → Controller Io → List UInt8 × Controller Io
  | [], self => ([], self)
  | offset :: rest, self =>
    let (word, io) := RegisterIo.read offset self.io
    let (bytes, self) := readStats rest ⟨io⟩
    (u32ToLe word ++ bytes, self)

theorem length_readStats (offsets : List ℕ) (self : Controller Io) :
    (readStats offsets self).1.length = 4 * offsets.length := by
  induction offsets generalizing self with
  | nil => rfl
  | cons offset rest ih =>
    simp only [readStats, List.length_append, u32ToLe_length, ih, List.length_cons]
    omega

/-- The loop over the counters appends their words. -/
theorem foldl_readStat (offsets : List ℕ) (self : Controller Io) (written buffer : List UInt8)
    (k : ℕ) (hk : written.length = k * 4) :
    (offsets.zipIdx k).foldl readStat (self, overwrite written buffer) =
      ((readStats offsets self).2, overwrite (written ++ (readStats offsets self).1) buffer) := by
  induction offsets generalizing self written k with
  | nil => simp [readStats]
  | cons offset rest ih =>
    have hword := u32ToLe_length (RegisterIo.read offset self.io).1
    rw [List.zipIdx_cons, List.foldl_cons]
    simp only [readStat, ← hk]
    rw [copyFromSlice_overwrite, ih]
    · simp [readStats]
    · rw [List.length_append, hword]; omega

/-- The answer to a request that only acts on the device is one zero byte. -/
theorem set_zero_overwrite {room : ℕ} (hroom : 0 < room) {response : List UInt8}
    (h : response.length = room) : response.set 0 0 = overwrite [0] response :=
  set_zero_eq (by omega) 0

/-- The statistics request reads the counters in turn and answers with their words. -/
theorem command_getStats {request response : List UInt8} (h : Accepts request response.length)
    (hop : (byteAt request 2).toNat = 6) (self : Controller Io) :
    self.command request response =
      (.ok 36, (readStats statsOffsets self).2,
        overwrite (readStats statsOffsets self).1 response) := by
  have hguard := h.guard
  have hfit := h.2.2.2
  have hbig : 36 ≤ response.length := by
    simp only [argumentsFit, hop] at hfit
    exact of_decide_eq_true hfit
  have hloop := foldl_readStat statsOffsets self [] response 0 rfl
  rw [show overwrite [] response = response from rfl] at hloop
  simp only [command, hop]
  rw [if_neg hguard, if_pos hbig, hloop]
  rfl

/-- An accepted request is answered: the device afterwards and the answer depend on the
size of the response buffer only, and the answer replaces the first bytes of the buffer. -/
theorem command_of_accepts {request : List UInt8} {room : ℕ} (h : Accepts request room)
    (self : Controller Io) :
    ∃ bytes c, bytes.length ≤ room ∧ ∀ response : List UInt8, response.length = room →
      self.command request response = (.ok bytes.length, c, overwrite bytes response) := by
  have hguard (response : List UInt8) (hr : response.length = room) :
      ¬ (request.length < 3 ∨ response.length = 0 ∨
        u16FromLe (slice request 0 2) ≠ PROTOCOL_VERSION) := by
    subst hr
    exact h.guard
  obtain ⟨hlen, hroom, hversion, hfit⟩ := h
  unfold argumentsFit at hfit
  split at hfit
  · next hop =>
    refine ⟨info, self, of_decide_eq_true hfit, fun response hr => ?_⟩
    have hbig := of_decide_eq_true hfit
    simp only [command, hop]
    rw [if_neg (hguard response hr), if_neg (by omega), copyFromSlice_zero]
  · next hop =>
    refine ⟨[0], self.configure (byteAt request 3) (byteAt request 4) (u32FromLe (slice request 5 9)),
      hroom, fun response hr => ?_⟩
    simp only [command, hop]
    rw [if_neg (hguard response hr), if_pos (by simpa using hfit), set_zero_overwrite hroom hr]
    rfl
  · next hop =>
    refine ⟨[0], self.write REG_CONTROL 1, hroom, fun response hr => ?_⟩
    simp only [command, hop]
    rw [if_neg (hguard response hr), set_zero_overwrite hroom hr]
    rfl
  · next hop =>
    refine ⟨[0], self.write REG_CONTROL 2, hroom, fun response hr => ?_⟩
    simp only [command, hop]
    rw [if_neg (hguard response hr), set_zero_overwrite hroom hr]
    rfl
  · next hop =>
    refine ⟨[0], self.write REG_CONTROL 4, hroom, fun response hr => ?_⟩
    simp only [command, hop]
    rw [if_neg (hguard response hr), set_zero_overwrite hroom hr]
    rfl
  · next hop =>
    have hbig := of_decide_eq_true hfit
    have hstats := length_readStats statsOffsets self
    refine ⟨(readStats statsOffsets self).1, (readStats statsOffsets self).2,
      by rw [hstats]; exact hbig, fun response hr => ?_⟩
    rw [command_getStats ⟨hlen, by omega, hversion, by simpa [argumentsFit, hop, hr] using hbig⟩ hop,
      hstats]
    rfl
  · next hop =>
    simp only [Bool.and_eq_true, decide_eq_true_eq] at hfit
    have hsmall : M3_BRAM_SIZE < 2 ^ 64 := by decide
    refine ⟨[0], ⟨RegisterIo.writeM3Bram (u32FromLe (slice request 3 7)).toNat (request.drop 7)
      self.io⟩, hroom, fun response hr => ?_⟩
    simp only [command, hop]
    rw [if_neg (hguard response hr), if_pos hfit.1, if_neg (by omega), if_neg (by omega),
      set_zero_overwrite hroom hr]
    rfl
  · next hop =>
    simp only [Bool.and_eq_true, beq_iff_eq, decide_eq_true_eq] at hfit
    have hsmall : M3_BRAM_SIZE < 2 ^ 64 := by decide
    rcases hread : RegisterIo.readM3Bram (u32FromLe (slice request 3 7)).toNat
      (u16FromLe (slice request 7 9)).toNat self.io with ⟨data, io⟩
    refine ⟨data.toList, ⟨io⟩, by rw [Vector.length_toList]; exact hfit.2, fun response hr => ?_⟩
    simp only [command, hop, hread]
    rw [if_neg (hguard response hr), if_pos hfit.1.1, if_neg (by omega), if_neg (by omega),
      copyFromSlice_zero, Vector.length_toList]
  · next hop =>
    refine ⟨[0], self.write REG_M3_CONTROL (byteAt request 3).toUInt32, hroom,
      fun response hr => ?_⟩
    simp only [command, hop]
    rw [if_neg (hguard response hr), if_pos (by simpa using hfit), set_zero_overwrite hroom hr]
    rfl
  · exact absurd hfit Bool.false_ne_true

/-- Every other request is turned down without touching the device or the buffer. -/
theorem command_of_rejects {request response : List UInt8}
    (h : ¬ Accepts request response.length) (self : Controller Io) :
    self.command request response = (.error (), self, response) := by
  by_cases hguard : request.length < 3 ∨ response.length = 0 ∨
      u16FromLe (slice request 0 2) ≠ PROTOCOL_VERSION
  · rw [command, if_pos hguard]
  · have hfit : argumentsFit request response.length = false := by
      rw [← Bool.not_eq_true]
      push Not at hguard
      exact fun hfit => h ⟨hguard.1, by omega, hguard.2.2, hfit⟩
    rw [command, if_neg hguard]
    unfold argumentsFit at hfit
    split at hfit
    · next hop =>
      have := of_decide_eq_false hfit
      simp only [if_pos (show response.length < info.length by omega)]
    · next hop =>
      simp only [if_neg (show ¬ request.length = 9 by simpa using hfit)]
    · exact absurd hfit (by decide)
    · exact absurd hfit (by decide)
    · exact absurd hfit (by decide)
    · next hop =>
      simp only [if_neg (of_decide_eq_false hfit)]
    · next hop =>
      simp only [Bool.and_eq_false_iff, decide_eq_false_iff_not] at hfit
      dsimp only
      split
      · split
        · rfl
        · rw [if_pos (by omega)]
      · rfl
    · next hop =>
      simp only [Bool.and_eq_false_iff, decide_eq_false_iff_not, beq_eq_false_iff_ne] at hfit
      dsimp only
      split
      · split
        · rfl
        · rw [if_pos (by omega)]
      · rfl
    · next hop =>
      simp only [if_neg (show ¬ request.length = 4 by simpa using hfit)]
    · rfl

/-- `command` answers `Ok` exactly for the accepted requests. -/
theorem command_isOk_iff (request response : List UInt8) (self : Controller Io) :
    (self.command request response).1.isOk = true ↔ Accepts request response.length := by
  by_cases h : Accepts request response.length
  · obtain ⟨bytes, c, -, hc⟩ := command_of_accepts h self
    simp [hc response rfl, h, Except.isOk, Except.toBool]
  · simp [command_of_rejects h, h, Except.isOk, Except.toBool]

/-! ### The mailbox exchange -/

theorem set_overwrite {written buffer : List UInt8} (h : written.length < buffer.length)
    (b : UInt8) :
    (overwrite written buffer).set written.length b = overwrite (written ++ [b]) buffer := by
  rw [overwrite, List.set_append_right _ _ (Nat.le_refl _), Nat.sub_self,
    set_zero_eq (by rw [List.length_drop]; omega)]
  simp [overwrite]

/-- The receive loop appends the bytes it takes from the mailbox to those written before. -/
theorem receiveResponse_writes (pollBudget : UInt32) (room : ℕ) (io : Io) :
    ∃ (result : Except DapError Unit) (bytes : List UInt8) (io' : Io), bytes.length ≤ room ∧
      ∀ written buffer : List UInt8, buffer.length = written.length + room →
        receiveResponse pollBudget room written.length (overwrite written buffer) io =
          (result.map fun _ => written.length + bytes.length, io',
            overwrite (written ++ bytes) buffer) := by
  induction room generalizing io with
  | zero =>
    rcases hwait : waitStatus 2 pollBudget.toNat io with ⟨_ | _, io'⟩
    · refine ⟨.error .Timeout, [], io', Nat.le_refl _, fun written buffer _ => ?_⟩
      rw [receiveResponse, hwait]
      simp [Except.map]
    · refine ⟨.error .ResponseTooLarge, [], (RegisterIo.read REG_DAP_RESPONSE io').2,
        Nat.le_refl _, fun written buffer _ => ?_⟩
      rw [receiveResponse, hwait]
      simp [Except.map]
  | succ room ih =>
    rcases hwait : waitStatus 2 pollBudget.toNat io with ⟨_ | _, io'⟩
    · refine ⟨.error .Timeout, [], io', Nat.zero_le _, fun written buffer _ => ?_⟩
      rw [receiveResponse, hwait]
      simp [Except.map]
    · rcases hread : RegisterIo.read REG_DAP_RESPONSE io' with ⟨word, io''⟩
      by_cases hlast : word &&& 0x200 = 0
      · obtain ⟨result, bytes, last, hlen, hrest⟩ := ih io''
        refine ⟨result, word.toUInt8 :: bytes, last, by simpa using hlen, ?_⟩
        intro written buffer hbuffer
        rw [receiveResponse, hwait]
        simp only [hread, set_overwrite (show written.length < buffer.length by omega), hlast,
          ne_eq, not_true_eq_false, if_false]
        have hnext := hrest (written ++ [word.toUInt8]) buffer (by simp; omega)
        rw [List.length_append, List.length_singleton] at hnext
        rw [hnext, List.append_assoc, List.singleton_append, List.length_cons, Nat.add_assoc,
          Nat.add_comm 1]
      · refine ⟨.ok (), [word.toUInt8], io'', by simp, fun written buffer hbuffer => ?_⟩
        rw [receiveResponse, hwait]
        simp only [hread, set_overwrite (show written.length < buffer.length by omega), hlast,
          ne_eq, not_false_eq_true, if_true, Except.map, List.length_singleton]

/-- Whatever a mailbox exchange comes to, the device and the bytes written depend on the size
of the response buffer only, and those bytes replace the first bytes of the buffer. -/
theorem dapExchange_writes (self : Controller Io) (request : List UInt8) (room : ℕ)
    (pollBudget : UInt32) :
    ∃ (result : Except DapError Unit) (bytes : List UInt8) (c : Controller Io),
      bytes.length ≤ room ∧ ∀ response : List UInt8, response.length = room →
        self.dapExchange request response pollBudget =
          (result.map fun _ => bytes.length, c, overwrite bytes response) := by
  unfold dapExchange
  split
  · exact ⟨.error .EmptyRequest, [], self, Nat.zero_le _, fun _ _ => rfl⟩
  · split
    · next e io _ => exact ⟨.error e, [], ⟨io⟩, Nat.zero_le _, fun _ _ => rfl⟩
    · next io _ =>
      obtain ⟨result, bytes, io', hlen, hloop⟩ := receiveResponse_writes pollBudget room io
      refine ⟨result, bytes, ⟨io'⟩, hlen, fun response hr => ?_⟩
      have := hloop [] response (by simpa using hr)
      rw [show overwrite [] response = response from rfl] at this
      simp only [hr]
      rw [List.length_nil] at this
      rw [this]
      simp

/-- A poll that runs out of budget ends the exchange. -/
theorem receiveResponse_timeout {pollBudget : UInt32} {io : Io}
    (h : (waitStatus 2 pollBudget.toNat io).1 = false) (room length : ℕ) (response : List UInt8) :
    receiveResponse pollBudget room length response io =
      (.error .Timeout, (waitStatus 2 pollBudget.toNat io).2, response) := by
  generalize hwait : waitStatus 2 pollBudget.toNat io = polled at h
  obtain ⟨_ | _, io'⟩ := polled
  · cases room <;> rw [receiveResponse, hwait]
  · cases h

/-- The send loop can only time out. -/
theorem sendRequest_error {pollBudget : UInt32} {request : List UInt8} {io : Io} {e : DapError}
    (h : (sendRequest pollBudget request io).1 = .error e) : e = .Timeout := by
  induction request generalizing io with
  | nil => cases h
  | cons byte rest ih =>
    rw [sendRequest] at h
    split at h
    · cases h
      rfl
    · exact ih h

/-- The receive loop can time out or run out of room. -/
theorem receiveResponse_error {pollBudget : UInt32} {room length : ℕ} {response : List UInt8}
    {io : Io} {e : DapError}
    (h : (receiveResponse pollBudget room length response io).1 = .error e) :
    e = .Timeout ∨ e = .ResponseTooLarge := by
  induction room generalizing length response io with
  | zero =>
    rw [receiveResponse] at h
    split at h
    · cases h
      exact .inl rfl
    · cases h
      exact .inr rfl
  | succ room ih =>
    rw [receiveResponse] at h
    split at h
    · cases h
      exact .inl rfl
    · dsimp only at h
      split at h
      · cases h
      · exact ih h

/-- How an exchange of a request that is not empty can fail. -/
theorem dapExchange_error (self : Controller Io) {request : List UInt8} (hne : request ≠ [])
    (response : List UInt8) (pollBudget : UInt32) {e : DapError}
    (h : (self.dapExchange request response pollBudget).1 = .error e) :
    e = .Timeout ∨ e = .ResponseTooLarge := by
  have hempty : request.isEmpty = false := by
    rw [List.isEmpty_eq_false_iff]
    exact hne
  rw [dapExchange, hempty, if_neg Bool.false_ne_true] at h
  split at h
  · next e' io hsend =>
    cases h
    exact .inl (sendRequest_error (by rw [hsend]))
  · exact receiveResponse_error h

end Controller

end Firmware
