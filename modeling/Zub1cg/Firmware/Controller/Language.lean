import Zub1cg.Firmware.Controller.Command
import Zub1cg.Model.Wire

/-!
# The control language of the host and of the firmware

`Command.decode` on the host and `Controller.command` on the board parse the same bytes
independently of each other. They agree on every request but one kind: the firmware does
not look at the two enumeration bytes of `Configure`, which the host checks.
-/

namespace Firmware

open Model

/-- The device operations a decoded command stands for. -/
def operations : Model.Command → List IoOp
  | .GetInfo => []
  | .Configure source format swoBaud =>
    (match source with
      | .R5 => [.selectCoresightSource false, .enableCoresightTrace false]
      | .A53 => [.selectCoresightSource true, .enableCoresightTrace true]
      | _ => []) ++
    [.write REG_SOURCE_FORMAT (source.toByte.toUInt32 ||| format.toByte.toUInt32 <<< 8),
      .write REG_SWO_BAUD swoBaud]
  | .Start => [.write REG_CONTROL 1]
  | .Stop => [.write REG_CONTROL 2]
  | .Reset => [.write REG_CONTROL 4]
  | .GetStats => statsOffsets.map .read
  | .LoadM3Chunk offset data => [.writeM3Bram offset.toNat data]
  | .ReadM3Bram offset length => [.readM3Bram offset.toNat length.toNat]
  | .M3Control bits => [.write REG_M3_CONTROL bits.toUInt32]

/-- The command stays inside the M3's block RAM and the 4096-byte response. -/
def InBounds : Model.Command → Prop
  | .LoadM3Chunk offset data => offset.toNat + data.length ≤ Model.M3_BRAM_SIZE
  | .ReadM3Bram offset length =>
    offset.toNat + length.toNat ≤ Model.M3_BRAM_SIZE ∧ length.toNat ≤ 4096
  | _ => True

/-- A `Configure` request whose source or format byte the host's enumerations lack. -/
def UnknownConfigure (request : List UInt8) : Prop :=
  request.length = 9 ∧ u16FromLe (slice request 0 2) = Model.PROTOCOL_VERSION ∧
    (byteAt request 2).toNat = 2 ∧
    (3 < (byteAt request 3).toNat ∨ 4 < (byteAt request 4).toNat)

variable {Io : Type} [RegisterIo Io]

namespace Controller

/-- A controller on a device that has performed no operation yet. -/
def onRecorded (io : Io) : Controller (Recorded Io) := ⟨⟨io, []⟩⟩

theorem readStats_ops (offsets : List ℕ) (self : Controller (Recorded Io)) :
    (readStats offsets self).2.io.ops = self.io.ops ++ offsets.map .read := by
  induction offsets generalizing self with
  | nil => simp [readStats]
  | cons offset rest ih =>
    simp only [readStats, ih, List.map_cons]
    simp [RegisterIo.read]

theorem configure_ops (self : Controller (Recorded Io)) (source : Source) (format : TraceFormat)
    (baud : UInt32) :
    (self.configure source.toByte format.toByte baud).io.ops =
      self.io.ops ++ operations (.Configure source format baud) := by
  cases source <;>
    simp [configure, Source.toByte, operations, write, routeCoresight, RegisterIo.write,
      RegisterIo.selectCoresightSource, RegisterIo.enableCoresightTrace]

/-- The body of a `Configure` request, once its length is right. -/
theorem decode_configure {r3 r4 : UInt8} {baud : UInt32} {c : Model.Command}
    (h : (do
      let source ← Source.tryFrom r3
      let format ← TraceFormat.tryFrom r4
      .ok (.Configure source format baud) : Except ProtocolError Model.Command) = .ok c) :
    ∃ source format, r3 = source.toByte ∧ r4 = format.toByte ∧ c = .Configure source format baud := by
  cases hs : Source.tryFrom r3 with
  | error e => rw [hs] at h; cases h
  | ok source =>
    cases hf : TraceFormat.tryFrom r4 with
    | error e => rw [hs, hf] at h; cases h
    | ok format =>
      rw [hs, hf] at h
      cases h
      exact ⟨source, format, Source.tryFrom_eq_ok_iff.mp hs, TraceFormat.tryFrom_eq_ok_iff.mp hf, rfl⟩

/-- An accepted request performs the operations of the command it decodes to. -/
theorem command_operations {request response : List UInt8} {c : Model.Command}
    (hdecode : Command.decode request = .ok c) (haccepts : Accepts request response.length)
    (io : Io) :
    ((onRecorded io).command request response).2.1.io.ops = operations c := by
  have hguard := haccepts.guard
  obtain ⟨hlen, hroom, hversion, hfit⟩ := haccepts
  rw [Command.decode, if_neg (by omega)] at hdecode
  simp only [show u16FromLe (slice request 0 2) = Model.PROTOCOL_VERSION from hversion, ne_eq,
    not_true_eq_false, if_false] at hdecode
  rw [command, if_neg hguard]
  unfold argumentsFit at hfit
  generalize (byteAt request 2).toNat = opcode at hdecode hfit ⊢
  split at hdecode
  · cases hdecode
    have hbig := of_decide_eq_true hfit
    simp only [if_neg (show ¬ response.length < info.length by omega)]
    rfl
  · split at hdecode
    · next hnine =>
      obtain ⟨source, format, hs, hf, rfl⟩ := decode_configure hdecode
      simp only [if_pos hnine, hs, hf]
      exact configure_ops _ _ _ _
    · cases hdecode
  · cases hdecode
    rfl
  · cases hdecode
    rfl
  · cases hdecode
    rfl
  · cases hdecode
    have hbig := of_decide_eq_true hfit
    have hloop := foldl_readStat statsOffsets (onRecorded io) [] response 0 rfl
    rw [show overwrite [] response = response from rfl] at hloop
    simp only [if_pos hbig, hloop]
    exact readStats_ops statsOffsets (onRecorded io)
  · split at hdecode
    · next hseven =>
      cases hdecode
      simp only [Bool.and_eq_true, decide_eq_true_eq] at hfit
      have hsmall : Firmware.M3_BRAM_SIZE < 2 ^ 64 := by decide
      simp only [if_pos hseven]
      rw [if_neg (by omega), if_neg (by omega)]
      rfl
    · cases hdecode
  · split at hdecode
    · next hnine =>
      cases hdecode
      simp only [Bool.and_eq_true, beq_iff_eq, decide_eq_true_eq] at hfit
      have hsmall : Firmware.M3_BRAM_SIZE < 2 ^ 64 := by decide
      simp only [if_pos hnine]
      rw [if_neg (by omega), if_neg (by omega)]
      rfl
    · cases hdecode
  · split at hdecode
    · next hfour =>
      cases hdecode
      simp only [if_pos hfour]
      rfl
    · cases hdecode
  · cases hdecode

/-- A request the decoder accepts within bounds is accepted by the firmware. -/
theorem accepts_of_decode {request : List UInt8} {c : Model.Command}
    (hdecode : Command.decode request = .ok c) (hbounds : InBounds c) : Accepts request 4096 := by
  unfold Command.decode at hdecode
  split at hdecode
  · cases hdecode
  next hlen =>
  simp only [ne_eq, ite_not] at hdecode
  split at hdecode
  · next hversion =>
    refine ⟨by omega, by decide, hversion, ?_⟩
    rw [argumentsFit]
    generalize (byteAt request 2).toNat = opcode at hdecode ⊢
    split at hdecode
    · exact decide_eq_true (by decide)
    · split at hdecode
      · simpa
      · cases hdecode
    · rfl
    · rfl
    · rfl
    · exact decide_eq_true (by decide)
    · split at hdecode
      · next hseven =>
        cases hdecode
        simp only [Bool.and_eq_true, decide_eq_true_eq]
        exact ⟨hseven, hbounds⟩
      · cases hdecode
    · split at hdecode
      · next hnine =>
        cases hdecode
        simp only [Bool.and_eq_true, beq_iff_eq, decide_eq_true_eq]
        exact ⟨⟨hnine, hbounds.1⟩, hbounds.2⟩
      · cases hdecode
    · split at hdecode
      · simpa
      · cases hdecode
    · cases hdecode
  · cases hdecode

/-- A request the firmware accepts decodes within bounds, unless it is a `Configure` with an
unknown enumeration byte. -/
theorem decode_of_accepts {request : List UInt8} (haccepts : Accepts request 4096)
    (hknown : ¬ UnknownConfigure request) :
    ∃ c, Command.decode request = .ok c ∧ InBounds c := by
  obtain ⟨hlen, -, hversion, hfit⟩ := haccepts
  rw [Command.decode]
  rw [if_neg (by omega)]
  simp only [show u16FromLe (slice request 0 2) = Model.PROTOCOL_VERSION from hversion, ne_eq,
    not_true_eq_false, if_false]
  unfold argumentsFit at hfit
  unfold UnknownConfigure at hknown
  generalize (byteAt request 2).toNat = opcode at hfit hknown ⊢
  split at hfit
  · exact ⟨.GetInfo, rfl, trivial⟩
  · have hnine : request.length = 9 := by simpa using hfit
    have hbytes : (byteAt request 3).toNat ≤ 3 ∧ (byteAt request 4).toNat ≤ 4 := by
      constructor <;> by_contra hbig
      · exact hknown ⟨hnine, hversion, rfl, .inl (by omega)⟩
      · exact hknown ⟨hnine, hversion, rfl, .inr (by omega)⟩
    obtain ⟨source, hs⟩ := Source.exists_tryFrom_iff.mpr hbytes.1
    obtain ⟨format, hf⟩ := TraceFormat.exists_tryFrom_iff.mpr hbytes.2
    refine ⟨.Configure source format (u32FromLe (slice request 5 9)), ?_, trivial⟩
    simp only [if_pos hnine, hs, hf]
    rfl
  · exact ⟨.Start, rfl, trivial⟩
  · exact ⟨.Stop, rfl, trivial⟩
  · exact ⟨.Reset, rfl, trivial⟩
  · exact ⟨.GetStats, rfl, trivial⟩
  · simp only [Bool.and_eq_true, decide_eq_true_eq] at hfit
    refine ⟨.LoadM3Chunk (u32FromLe (slice request 3 7)) (request.drop 7), ?_, hfit.2⟩
    simp only [if_pos hfit.1]
  · simp only [Bool.and_eq_true, beq_iff_eq, decide_eq_true_eq] at hfit
    refine ⟨.ReadM3Bram (u32FromLe (slice request 3 7)) (u16FromLe (slice request 7 9)), ?_,
      hfit.1.2, hfit.2⟩
    simp only [if_pos hfit.1.1]
  · have hfour : request.length = 4 := by simpa using hfit
    refine ⟨.M3Control (byteAt request 3), ?_, trivial⟩
    simp only [if_pos hfour]
  · exact absurd hfit Bool.false_ne_true

/-- The host turns an unknown `Configure` down; the firmware carries it out. -/
theorem unknownConfigure_diverges {request : List UInt8} (h : UnknownConfigure request) :
    (∀ c, Command.decode request ≠ .ok c) ∧ Accepts request 4096 := by
  obtain ⟨hnine, hversion, hop, hbytes⟩ := h
  constructor
  · intro c hdecode
    unfold Command.decode at hdecode
    rw [if_neg (by omega)] at hdecode
    simp only [hversion, hop, ne_eq, not_true_eq_false, if_false, if_pos hnine] at hdecode
    obtain ⟨source, format, hs, hf, -⟩ := decode_configure hdecode
    have hs' := Source.exists_tryFrom_iff.mp ⟨source, Source.tryFrom_eq_ok_iff.mpr hs⟩
    have hf' := TraceFormat.exists_tryFrom_iff.mp ⟨format, TraceFormat.tryFrom_eq_ok_iff.mpr hf⟩
    omega
  · exact ⟨by omega, by decide, hversion, by simp [argumentsFit, hop, hnine]⟩

/-- What the two sides agreeing about a request means: the firmware answers `Ok` exactly when
the host decodes a command that stays in bounds, it then performs that command's operations,
and it performs none for a request the host calls invalid. -/
structure SameLanguage (io : Io) (request response : List UInt8) : Prop where
  accepts : ((onRecorded io).command request response).1.isOk = true ↔
    ∃ c, Command.decode request = .ok c ∧ InBounds c
  operations : ∀ c, Command.decode request = .ok c →
    ((onRecorded io).command request response).1.isOk = true →
      ((onRecorded io).command request response).2.1.io.ops = operations c
  silent : ∀ e, Command.decode request = .error e →
    ((onRecorded io).command request response).2.1.io.ops = []

/-- **When host and firmware speak the same language.** With a 4096-byte response buffer they
agree about a request, of whatever length, exactly when it is not a `Configure` whose source
or format byte is unknown to the host. -/
theorem sameLanguage_iff (io : Io) (request : List UInt8) (response : Vector UInt8 4096) :
    SameLanguage io request response.toList ↔ ¬ UnknownConfigure request := by
  have hok := command_isOk_iff request response.toList (onRecorded io)
  have hsize : response.toList.length = 4096 := response.length_toList
  rw [hsize] at hok
  constructor
  · intro h hunknown
    obtain ⟨hinvalid, haccepts⟩ := unknownConfigure_diverges hunknown
    obtain ⟨c, hc, -⟩ := h.accepts.mp (hok.mpr haccepts)
    exact hinvalid c hc
  · intro hknown
    refine ⟨?_, fun c hdecode hanswered => ?_, fun e hdecode => ?_⟩
    · rw [hok]
      refine ⟨fun haccepts => decode_of_accepts haccepts hknown, ?_⟩
      rintro ⟨c, hdecode, hbounds⟩
      exact accepts_of_decode hdecode hbounds
    · exact command_operations hdecode (by rw [hsize]; exact hok.mp hanswered) io
    · have hrejects : ¬ Accepts request response.toList.length := by
        rw [hsize]
        intro haccepts
        obtain ⟨c, hc, -⟩ := decode_of_accepts haccepts hknown
        rw [hdecode] at hc
        cases hc
      rw [command_of_rejects hrejects]
      rfl

/-- `Configure` with source byte 7: invalid for the host, two register writes on the board. -/
theorem configure_unknown_source :
    Command.decode [1, 0, 2, 7, 0, 0, 0, 0, 0] = .error (.InvalidValue "source") ∧
      ((onRecorded Blank.mk).command [1, 0, 2, 7, 0, 0, 0, 0, 0] (List.replicate 4096 0)).1 = .ok 1 ∧
      ((onRecorded Blank.mk).command [1, 0, 2, 7, 0, 0, 0, 0, 0]
        (List.replicate 4096 0)).2.1.io.ops =
          [.write REG_SOURCE_FORMAT 7, .write REG_SWO_BAUD 0] ∧
      ¬ SameLanguage Blank.mk [1, 0, 2, 7, 0, 0, 0, 0, 0] (List.replicate 4096 0) := by
  have hdecode : Command.decode [1, 0, 2, 7, 0, 0, 0, 0, 0] = .error (.InvalidValue "source") := by
    rfl
  have hguard : ¬ ([1, 0, 2, 7, 0, 0, 0, 0, (0 : UInt8)].length < 3 ∨
      (List.replicate 4096 (0 : UInt8)).length = 0 ∨
      u16FromLe (slice [1, 0, 2, 7, 0, 0, 0, 0, 0] 0 2) ≠ Firmware.PROTOCOL_VERSION) := by
    rw [List.length_replicate]
    decide
  have hcommand : (onRecorded Blank.mk).command [1, 0, 2, 7, 0, 0, 0, 0, 0]
      (List.replicate 4096 0) = (.ok 1, ⟨⟨Blank.mk,
        [.write REG_SOURCE_FORMAT 7, .write REG_SWO_BAUD 0]⟩⟩, (List.replicate 4096 0).set 0 0) := by
    rw [command, if_neg hguard]
    rfl
  rw [hcommand]
  refine ⟨hdecode, rfl, rfl, fun h => ?_⟩
  have hsilent := h.silent _ hdecode
  rw [hcommand] at hsilent
  cases hsilent

end Controller

end Firmware
