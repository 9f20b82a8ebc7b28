import Zub1cg.Rtl.DdrCapture
import Zub1cg.Model.ParallelDdr

/-!
# The DDR capture and its reference

Between two changes of its configuration the capture makes the bytes that `decode_parallel_ddr`
makes of the samples. The first rising edge with a new configuration only starts the capture, and
what has not filled a byte is forgotten at the next change.

## Main definitions

- `Schedule` — edges of the trace clock and a configuration that changes at rising edges
- `Segment` — rising edges with one configuration
- `Reading` — the capture has a part of a byte

## Main results

- `Reading.rise` — the samples of one period
- `capture_refines` — a capture over all configurations it is given
-/

namespace DdrCapture

/-- The capture driven by the schedule `inp`. -/
def run (s₀ : State) (inp : ℕ → Input) : Clocked.Run Input State where
  step := step
  start := s₀
  input := inp

/-- The number of trace lanes that `width_select` stands for. -/
def lanes (width : BitVec 2) : UInt8 := 1 <<< UInt8.ofNat width.toNat

/-- The trace pins as a byte. -/
def sampleByte (pins : BitVec 4) : UInt8 := UInt8.ofNat pins.toNat

/-- The byte that has been put out by the last rising edge. -/
def emitted (s : State) : List UInt8 := if s.byteValid then [s.byteData] else []

theorem lanes_cases {width : BitVec 2} (h : width ≤ 2) :
    lanes width = 1 ∨ lanes width = 2 ∨ lanes width = 4 := by
  revert width
  decide

theorem toNat_append_eq {m n : ℕ} (x : BitVec m) (y : BitVec n) :
    (x ++ y).toNat = x.toNat * 2 ^ n + y.toNat := by
  rw [BitVec.toNat_append, Nat.shiftLeft_eq, Nat.mul_comm, Nat.two_pow_add_eq_or_of_lt y.isLt]

/-- The number that the samples of one period are in base `2 ^ lanes`. -/
def pair (width : BitVec 2) (r f : BitVec 4) : ℕ :=
  r.toNat % 2 ^ (lanes width).toNat + 2 ^ (lanes width).toNat * (f.toNat % 2 ^ (lanes width).toNat)

/-- The low bits of the byte being put together. -/
def low (width : BitVec 2) (s : State) : ℕ :=
  s.partialByte.toNat % 2 ^ (2 * (lanes width).toNat * s.phase.toNat)

/-- The samples of one period fill the byte up, or they end it. -/
structure Assembles (width : BitVec 2) (s n m : State) : Prop where
  fills : 2 * (lanes width).toNat * (s.phase.toNat + 1) < 8 →
    m.byteValid = n.byteValid ∧ m.phase.toNat = s.phase.toNat + 1 ∧
      low width m = low width s +
        2 ^ (2 * (lanes width).toNat * s.phase.toNat) * pair width s.riseSample s.fallSample
  ends : 8 ≤ 2 * (lanes width).toNat * (s.phase.toNat + 1) →
    m.byteValid = true ∧ m.phase = 0 ∧
      m.byteData.toNat = low width s +
        2 ^ (2 * (lanes width).toNat * s.phase.toNat) * pair width s.riseSample s.fallSample

section

variable {s n : State}

theorem assemble_one (hwidth : s.activeWidth = 0) : Assembles 0 s n (assemble s n) := by
  have hcases : ∀ x : BitVec 2, x = 0 ∨ x = 1 ∨ x = 2 ∨ x = 3 := by decide
  have hsamples : (samples1 s).toNat = _ := toNat_append_eq _ _
  have hfirst : (s.partialByte.extractLsb' 2 6 ++ samples1 s : BitVec 8).toNat = _ :=
    toNat_append_eq _ _
  have hmiddle : (s.partialByte.extractLsb' 4 4 ++ samples1 s : BitVec 6).toNat = _ :=
    toNat_append_eq _ _
  have hsecond : (s.partialByte.extractLsb' 4 4 ++ samples1 s ++
      s.partialByte.extractLsb' 0 2 : BitVec 8).toNat = _ := toNat_append_eq _ _
  have hupper : (s.partialByte.extractLsb' 6 2 ++ samples1 s : BitVec 4).toNat = _ :=
    toNat_append_eq _ _
  have hthird : (s.partialByte.extractLsb' 6 2 ++ samples1 s ++
      s.partialByte.extractLsb' 0 4 : BitVec 8).toNat = _ := toNat_append_eq _ _
  have hlast : (samples1 s ++ s.partialByte.extractLsb' 0 6 : BitVec 8).toNat = _ :=
    toNat_append_eq _ _
  obtain hj | hj | hj | hj := hcases s.phase <;> constructor <;>
    simp [low, pair, assemble, hwidth, hj, lanes, hfirst, hmiddle, hsecond, hupper, hthird, hlast,
      hsamples, BitVec.extractLsb'_toNat] <;> omega

theorem assemble_two (hwidth : s.activeWidth = 1) (hphase : s.phase.toNat < 2) :
    Assembles 1 s n (assemble s n) := by
  have hcases : ∀ x : BitVec 2, x.toNat < 2 → x = 0 ∨ x = 1 := by decide
  have hsamples : (samples2 s).toNat = _ := toNat_append_eq _ _
  have hfirst : (s.partialByte.extractLsb' 4 4 ++ samples2 s : BitVec 8).toNat = _ :=
    toNat_append_eq _ _
  have hlast : (samples2 s ++ s.partialByte.extractLsb' 0 4 : BitVec 8).toNat = _ :=
    toNat_append_eq _ _
  obtain hj | hj := hcases s.phase hphase <;> constructor <;>
    simp [low, pair, assemble, hwidth, hj, lanes, hfirst, hlast, hsamples,
      BitVec.extractLsb'_toNat] <;> omega

theorem assemble_four (hwidth : s.activeWidth = 2) (hphase : s.phase = 0) (hn : n.phase = 0) :
    Assembles 2 s n (assemble s n) := by
  have hr := s.riseSample.isLt
  have hf := s.fallSample.isLt
  have hbyte : (s.fallSample ++ s.riseSample : BitVec 8).toNat = _ := toNat_append_eq _ _
  constructor
  · intro hroom
    exact absurd hroom (by rw [hphase]; decide)
  · simp only [low, pair, assemble, hwidth, hphase, lanes, hn]
    simp [hbyte]
    omega

/-- One, two or four lanes. -/
theorem assemble_spec {width : BitVec 2} (hvalid : width ≤ 2) (hwidth : s.activeWidth = width)
    (hphase : 2 * s.phase.toNat * (lanes width).toNat < 8) (hn : n.phase = s.phase) :
    Assembles width s n (assemble s n) := by
  have hcases : ∀ x : BitVec 2, x ≤ 2 → x = 0 ∨ x = 1 ∨ x = 2 := by decide
  obtain rfl | rfl | rfl := hcases width hvalid
  · exact assemble_one hwidth
  · refine assemble_two hwidth ?_
    change 2 * s.phase.toNat * 2 < 8 at hphase
    omega
  · have hzero : s.phase = 0 := by
      apply BitVec.eq_of_toNat_eq
      change 2 * s.phase.toNat * 4 < 8 at hphase
      change s.phase.toNat = 0
      omega
    exact assemble_four hwidth hzero (hn.trans hzero)

theorem assemble_frame (s n : State) :
    (assemble s n).primed = n.primed ∧ (assemble s n).activeWidth = n.activeWidth ∧
      (assemble s n).riseSample = n.riseSample := by
  rw [assemble]
  split
  · exact ⟨rfl, rfl, rfl⟩
  · split_ifs <;> exact ⟨rfl, rfl, rfl⟩
  · dsimp only
    split <;> exact ⟨rfl, rfl, rfl⟩

/-! ### Rising edges -/

/-- Without a configuration nothing is captured. -/
theorem rise_off {i : Input} (h : i.enable = false ∨ 2 < i.widthSelect) (s : State) :
    riseUpdate i s s = { s with
      byteValid := false, riseSample := i.traceData, primed := false, phase := 0 } := by
  rw [riseUpdate]
  dsimp only
  rw [if_pos]
  simpa only [Bool.or_eq_true, Bool.not_eq_true', decide_eq_true_eq] using h

/-- A new configuration only starts the capture. -/
theorem rise_start {i : Input} (henable : i.enable = true) (hvalid : i.widthSelect ≤ 2)
    (hnew : s.primed = false ∨ s.activeWidth ≠ i.widthSelect) :
    riseUpdate i s s = { s with
      byteValid := false, riseSample := i.traceData, primed := true,
      activeWidth := i.widthSelect, phase := 0, partialByte := 0 } := by
  have hpast : ¬ 2 < i.widthSelect := BitVec.not_lt.mpr hvalid
  rw [riseUpdate]
  dsimp only
  rw [henable, decide_eq_false hpast, Bool.not_true, Bool.or_false, if_neg Bool.false_ne_true,
    if_pos]
  simpa only [Bool.or_eq_true, Bool.not_eq_true', bne_iff_ne] using hnew

theorem rise_going {i : Input} (henable : i.enable = true) (hvalid : i.widthSelect ≤ 2)
    (hprimed : s.primed = true) (hactive : s.activeWidth = i.widthSelect) :
    riseUpdate i s s = assemble s { s with byteValid := false, riseSample := i.traceData } := by
  have hpast : ¬ 2 < i.widthSelect := BitVec.not_lt.mpr hvalid
  rw [riseUpdate]
  dsimp only
  rw [henable, decide_eq_false hpast, Bool.not_true, Bool.or_false, if_neg Bool.false_ne_true,
    hprimed, hactive, bne_self_eq_false, Bool.not_true, Bool.or_false, if_neg Bool.false_ne_true]

/-! ### Parts of a byte -/

/-- The samples as digits. -/
def digits (width : BitVec 2) (edges : List UInt8) : ℕ :=
  Nat.ofDigits (2 ^ (lanes width).toNat) (edges.map fun x => x.toNat % 2 ^ (lanes width).toNat)

theorem sampleByte_toNat (pins : BitVec 4) : (sampleByte pins).toNat = pins.toNat := by
  have hpins := pins.isLt
  rw [sampleByte, UInt8.toNat_ofNat']
  omega

theorem digits_period (width : BitVec 2) (edges : List UInt8) (r f : BitVec 4) :
    digits width (edges ++ [sampleByte r, sampleByte f]) = digits width edges +
      2 ^ (edges.length * (lanes width).toNat) * pair width r f := by
  rw [digits, List.map_append, Nat.ofDigits_append, List.length_map, ← Nat.pow_mul,
    Nat.mul_comm (lanes width).toNat, List.map_cons, List.map_singleton, Nat.ofDigits_cons,
    Nat.ofDigits_singleton, sampleByte_toNat, sampleByte_toNat]
  rfl

/-- The capture has started, and these samples lie in a byte that is not full. -/
structure Reading (width : BitVec 2) (rest : List UInt8) (s : State) : Prop where
  primed : s.primed = true
  active : s.activeWidth = width
  count : rest.length = 2 * s.phase.toNat
  short : rest.length * (lanes width).toNat < 8
  stored : low width s = digits width rest

/-- One, two or four lanes end a byte exactly. -/
theorem period_ends {width : BitVec 2} (hvalid : width ≤ 2) {j : ℕ}
    (hshort : 2 * j * (lanes width).toNat < 8) (hfull : 8 ≤ 2 * (lanes width).toNat * (j + 1)) :
    2 * (j + 1) * (lanes width).toNat = 8 := by
  have hlanes : ∀ w : BitVec 2, w ≤ 2 →
      (lanes w).toNat = 1 ∨ (lanes w).toNat = 2 ∨ (lanes w).toNat = 4 := by
    decide
  obtain hone | htwo | hfour := hlanes width hvalid
  · rw [hone] at hshort hfull ⊢
    omega
  · rw [htwo] at hshort hfull ⊢
    omega
  · rw [hfour] at hshort hfull ⊢
    omega

/-- The samples of the period that has just ended, behind those of the byte. -/
def longer (rest : List UInt8) (s : State) : List UInt8 :=
  rest ++ [sampleByte s.riseSample, sampleByte s.fallSample]

theorem Reading.longer_length {width : BitVec 2} {rest : List UInt8} (h : Reading width rest s) :
    (longer rest s).length = 2 * (s.phase.toNat + 1) := by
  rw [longer, List.length_append, h.count]
  rfl

theorem Reading.longer_digits {width : BitVec 2} {rest : List UInt8} (h : Reading width rest s) :
    digits width (longer rest s) = low width s +
      2 ^ (2 * (lanes width).toNat * s.phase.toNat) * pair width s.riseSample s.fallSample := by
  rw [longer, digits_period, h.stored, h.count, Nat.mul_right_comm]

/-- The samples of one period do not fill the byte. -/
theorem Reading.fills {width : BitVec 2} {rest : List UInt8} (h : Reading width rest s)
    (hassembles : Assembles width s n (assemble s n)) (hprimed : n.primed = true)
    (hactive : n.activeWidth = width)
    (hroom : 2 * (lanes width).toNat * (s.phase.toNat + 1) < 8) :
    Reading width (longer rest s) (assemble s n) ∧ (assemble s n).byteValid = n.byteValid := by
  obtain ⟨hvalid, hphase, hlow⟩ := hassembles.fills hroom
  obtain ⟨hprimed', hactive', -⟩ := assemble_frame s n
  refine ⟨⟨hprimed'.trans hprimed, hactive'.trans hactive, ?_, ?_, ?_⟩, hvalid⟩
  · rw [h.longer_length, hphase]
  · rw [h.longer_length, Nat.mul_right_comm]
    exact hroom
  · rw [hlow, h.longer_digits]

/-- They end it: it is what the reference packs. -/
theorem Reading.ends {width : BitVec 2} (hvalid : width ≤ 2) {rest : List UInt8}
    (h : Reading width rest s) (hassembles : Assembles width s n (assemble s n))
    (hprimed : n.primed = true) (hactive : n.activeWidth = width)
    (hfull : 8 ≤ 2 * (lanes width).toNat * (s.phase.toNat + 1)) :
    Reading width [] (assemble s n) ∧ (longer rest s).length * (lanes width).toNat = 8 ∧
      emitted (assemble s n) = [Model.packEdges (lanes width) (longer rest s)] := by
  obtain ⟨hvalidByte, hphase, hdata⟩ := hassembles.ends hfull
  obtain ⟨hprimed', hactive', -⟩ := assemble_frame s n
  have hshort := h.short
  rw [h.count] at hshort
  have hlength : (longer rest s).length * (lanes width).toNat = 8 := by
    rw [h.longer_length]
    exact period_ends hvalid hshort hfull
  have hbyte := Model.packEdges_toNat (lanes_cases hvalid) hlength.le
  refine ⟨⟨hprimed'.trans hprimed, hactive'.trans hactive, ?_, ?_, ?_⟩, hlength, ?_⟩
  · rw [hphase]
    rfl
  · exact Nat.zero_mul _ ▸ Nat.zero_lt_succ 7
  · rw [low, hphase]
    exact Nat.mod_one _
  · rw [emitted, hvalidByte, if_pos rfl]
    congr 1
    apply UInt8.toNat_inj.mp
    rw [hbyte, hdata]
    exact h.longer_digits.symm

/-- A rising edge of a segment: the samples fill the byte up or they end it. -/
theorem Reading.rise {width : BitVec 2} {rest : List UInt8} (hvalid : width ≤ 2)
    (h : Reading width rest s) {i : Input} (henable : i.enable = true)
    (hwidth : i.widthSelect = width) :
    ∃ (chunks : List (List UInt8)) (rest' : List UInt8),
      longer rest s = chunks.flatten ++ rest' ∧
      (∀ c ∈ chunks, c.length * (lanes width).toNat = 8) ∧
      Reading width rest' (riseUpdate i s s) ∧
      emitted (riseUpdate i s s) = chunks.map (Model.packEdges (lanes width)) ∧
      (riseUpdate i s s).riseSample = i.traceData := by
  have hshort := h.short
  rw [h.count] at hshort
  rw [rise_going henable (hwidth ▸ hvalid) h.primed (h.active.trans hwidth.symm)]
  have hassembles : Assembles width s { s with byteValid := false, riseSample := i.traceData }
    (assemble s { s with byteValid := false, riseSample := i.traceData }) :=
    assemble_spec hvalid h.active hshort rfl
  obtain ⟨-, -, hsample⟩ := assemble_frame s { s with byteValid := false, riseSample := i.traceData }
  obtain hroom | hfull := Nat.lt_or_ge (2 * (lanes width).toNat * (s.phase.toNat + 1)) 8
  · obtain ⟨hreading, hnone⟩ := h.fills hassembles h.primed h.active hroom
    refine ⟨[], longer rest s, rfl, fun c hc => absurd hc List.not_mem_nil, hreading, ?_, hsample⟩
    rw [emitted, hnone]
    rfl
  · obtain ⟨hreading, hlength, hbyte⟩ := h.ends hvalid hassembles h.primed h.active hfull
    refine ⟨[longer rest s], [], ?_, ?_, hreading, hbyte, hsample⟩
    · rw [List.flatten_singleton, List.append_nil]
    · intro c hc
      rw [List.mem_singleton.mp hc, hlength]

theorem Reading.fall {width : BitVec 2} {rest : List UInt8} (h : Reading width rest s)
    {i : Input} (henable : i.enable = true) : Reading width rest (fallUpdate i s) := by
  rw [fallUpdate, if_pos henable]
  exact ⟨h.primed, h.active, h.count, h.short, h.stored⟩

/-- The capture has to be started for this width. -/
def Fresh (width : BitVec 2) (s : State) : Prop := s.primed = false ∨ s.activeWidth ≠ width

theorem Fresh.rise {width : BitVec 2} (h : Fresh width s) (hvalid : width ≤ 2) {i : Input}
    (henable : i.enable = true) (hwidth : i.widthSelect = width) :
    Reading width [] (riseUpdate i s s) ∧ emitted (riseUpdate i s s) = [] ∧
      (riseUpdate i s s).riseSample = i.traceData := by
  subst hwidth
  rw [rise_start henable hvalid h]
  exact ⟨⟨rfl, rfl, rfl, Nat.zero_mul _ ▸ Nat.zero_lt_succ 7, Nat.mod_one _⟩, rfl, rfl⟩

/-- Another configuration forgets what has been read. -/
theorem fresh_rise {width : BitVec 2} {i : Input}
    (h : ¬ (i.enable = true ∧ i.widthSelect = width)) (s : State) :
    Fresh width (riseUpdate i s s) := by
  by_cases hoff : i.enable = false ∨ 2 < i.widthSelect
  · rw [rise_off hoff]
    exact .inl rfl
  · rw [not_or, Bool.not_eq_false, BitVec.not_lt] at hoff
    obtain ⟨henable, hvalid⟩ := hoff
    have hother : i.widthSelect ≠ width := fun hwidth => h ⟨henable, hwidth⟩
    right
    by_cases hnew : s.primed = false ∨ s.activeWidth ≠ i.widthSelect
    · rw [rise_start henable hvalid hnew]
      exact hother
    · rw [not_or, Bool.not_eq_false, not_not] at hnew
      rw [rise_going henable hvalid hnew.1 hnew.2, (assemble_frame s _).2.1]
      exact hnew.2 ▸ hother

theorem Fresh.fall {width : BitVec 2} (h : Fresh width s) (i : Input) :
    Fresh width (fallUpdate i s) := by
  rw [fallUpdate]
  split_ifs <;> exact h

end

/-! ### Whole runs -/

/-- Rising and falling edges in turn; the configuration at a falling edge is that of the rising
edge before or behind it. -/
structure Schedule (inp : ℕ → Input) : Prop where
  resetN : ∀ t, (inp t).resetN = true
  rise : ∀ k, (inp (2 * k)).traceClk = some .rise
  fall : ∀ k, (inp (2 * k + 1)).traceClk = some .fall
  enable : ∀ k, (inp (2 * k + 1)).enable = (inp (2 * k)).enable ∨
    (inp (2 * k + 1)).enable = (inp (2 * (k + 1))).enable

/-- From rising edge `p` to `q` the capture is enabled with one width, and at the one before
`p` it was not. -/
structure Segment (inp : ℕ → Input) (width : BitVec 2) (p q : ℕ) : Prop where
  valid : width ≤ 2
  ordered : p ≤ q
  inside : ∀ k, p ≤ k → k ≤ q → (inp (2 * k)).enable = true ∧ (inp (2 * k)).widthSelect = width
  begins : ∀ k, k + 1 = p →
    ¬ ((inp (2 * k)).enable = true ∧ (inp (2 * k)).widthSelect = width)

/-- The samples at rising edge `k` and at the falling edge behind it. -/
def period (inp : ℕ → Input) (k : ℕ) : List UInt8 :=
  [sampleByte (inp (2 * k)).traceData, sampleByte (inp (2 * k + 1)).traceData]

/-- What the capture puts out at rising edge `k`. -/
def bytesAt (s₀ : State) (inp : ℕ → Input) (k : ℕ) : List UInt8 :=
  emitted ((run s₀ inp).state (2 * k + 1))

section

variable {s₀ : State} {inp : ℕ → Input} (hs : Schedule inp)

include hs

theorem state_rise (k : ℕ) : (run s₀ inp).state (2 * k + 1) =
    riseUpdate (inp (2 * k)) ((run s₀ inp).state (2 * k)) ((run s₀ inp).state (2 * k)) := by
  change step (inp (2 * k)) _ = _
  rw [step, hs.resetN, hs.rise]
  rfl

theorem state_fall (k : ℕ) : (run s₀ inp).state (2 * (k + 1)) =
    fallUpdate (inp (2 * k + 1)) ((run s₀ inp).state (2 * k + 1)) := by
  change step (inp (2 * k + 1)) _ = _
  rw [step, hs.resetN, hs.fall]
  rfl

/-- Before a segment the capture has to be started. -/
theorem Segment.fresh {width : BitVec 2} {p q : ℕ} (h : Segment inp width p q)
    (hstart : s₀.primed = false) : Fresh width ((run s₀ inp).state (2 * p)) := by
  cases p with
  | zero => exact .inl hstart
  | succ k =>
    rw [state_fall hs, state_rise hs]
    exact (fresh_rise (h.begins k rfl) _).fall _

/-- A falling edge between two rising edges of a segment takes the second sample of its period. -/
theorem Segment.fallen {width : BitVec 2} {p q : ℕ} (h : Segment inp width p q) {k : ℕ}
    (hk : p ≤ k) (hq : k < q) {rest : List UInt8}
    (hreading : Reading width rest ((run s₀ inp).state (2 * k + 1)))
    (hsample : ((run s₀ inp).state (2 * k + 1)).riseSample = (inp (2 * k)).traceData) :
    Reading width rest ((run s₀ inp).state (2 * (k + 1))) ∧
      longer rest ((run s₀ inp).state (2 * (k + 1))) = rest ++ period inp k := by
  obtain ⟨hbefore, -⟩ := h.inside k hk hq.le
  obtain ⟨hbehind, -⟩ := h.inside (k + 1) (Nat.le_succ_of_le hk) hq
  have henable : (inp (2 * k + 1)).enable = true := by
    obtain heq | heq := hs.enable k
    · exact heq.trans hbefore
    · exact heq.trans hbehind
  rw [state_fall hs]
  refine ⟨hreading.fall henable, ?_⟩
  rw [longer, fallUpdate, if_pos henable, period, hsample]

/-- What has been read and put out by the `m`-th rising edge of a segment behind its first one. -/
theorem Segment.reading {width : BitVec 2} {p m : ℕ} (h : Segment inp width p (p + m))
    (hstart : s₀.primed = false) :
    ∃ (chunks : List (List UInt8)) (rest : List UInt8),
      (List.range' p m).flatMap (period inp) = chunks.flatten ++ rest ∧
      (∀ c ∈ chunks, c.length * (lanes width).toNat = 8) ∧
      Reading width rest ((run s₀ inp).state (2 * (p + m) + 1)) ∧
      (List.range' p (m + 1)).flatMap (bytesAt s₀ inp) =
        chunks.map (Model.packEdges (lanes width)) ∧
      ((run s₀ inp).state (2 * (p + m) + 1)).riseSample = (inp (2 * (p + m))).traceData := by
  induction m with
  | zero =>
    obtain ⟨henable, hwidth⟩ := h.inside p (Nat.le_refl _) h.ordered
    obtain ⟨hreading, hnone, hsample⟩ := (h.fresh hs hstart).rise h.valid henable hwidth
    rw [← state_rise hs] at hreading hnone hsample
    refine ⟨[], [], rfl, fun c hc => absurd hc List.not_mem_nil, hreading, ?_, hsample⟩
    exact (List.append_nil _).trans hnone
  | succ m ih =>
    have hshorter : Segment inp width p (p + m) :=
      ⟨h.valid, Nat.le_add_right _ _, fun k hpk hk => h.inside k hpk (by omega), h.begins⟩
    obtain ⟨chunks, rest, hedges, hchunks, hreading, hbytes, hsample⟩ := ih hshorter
    obtain ⟨henable, hwidth⟩ := h.inside (p + (m + 1)) (by omega) (Nat.le_refl _)
    obtain ⟨hfallen, hlonger⟩ :=
      h.fallen hs (Nat.le_add_right p m) (Nat.lt_succ_self _) hreading hsample
    obtain ⟨more, rest', hcut, hmore, hnext, hemitted, hsample'⟩ :=
      hfallen.rise h.valid henable hwidth
    rw [Nat.add_assoc p m 1] at hnext hemitted hsample' hlonger hcut
    rw [← state_rise hs] at hnext hemitted hsample'
    rw [hlonger] at hcut
    refine ⟨chunks ++ more, rest', ?_, ?_, hnext, ?_, hsample'⟩
    · rw [List.range'_1_concat, List.flatMap_append, hedges, List.flatMap_singleton,
        List.append_assoc, hcut, List.flatten_append, List.append_assoc]
    · intro c hc
      obtain hold | hnew := List.mem_append.mp hc
      · exact hchunks c hold
      · exact hmore c hnew
    · rw [List.range'_1_concat, List.flatMap_append, hbytes, List.flatMap_singleton, bytesAt,
        hemitted, List.map_append]

/-- **The capture is its reference.** For all samples and every history of the configuration:
while it is `width`, the capture puts out what `decode_parallel_ddr` makes of the samples of
the complete periods since then, whatever came before; at any other rising edge it puts out
nothing. -/
theorem capture_refines (hstart : s₀.primed = false) :
    (∀ k, (inp (2 * k)).enable = false ∨ 2 < (inp (2 * k)).widthSelect →
      bytesAt s₀ inp k = []) ∧
    ∀ width p q, Segment inp width p q →
      Model.decodeParallelDdr ((List.range' p (q - p)).flatMap (period inp)) (lanes width) =
        .ok ((List.range' p (q - p + 1)).flatMap (bytesAt s₀ inp)) := by
  constructor
  · intro k hoff
    rw [bytesAt, state_rise hs, rise_off hoff]
    rfl
  · intro width p q h
    obtain ⟨m, rfl⟩ := Nat.exists_eq_add_of_le h.ordered
    obtain ⟨chunks, rest, hedges, hchunks, hreading, hbytes, -⟩ := h.reading hs hstart
    rw [Nat.add_sub_cancel_left, hedges, hbytes]
    exact Model.decodeParallelDdr_chunks (lanes_cases h.valid) hchunks hreading.short

end

/-- Two lanes up to the fourth rising edge, then four up to the seventh, and then none. -/
def newWidth (t : ℕ) : Input where
  traceClk := if t % 2 = 0 then some .rise else some .fall
  resetN := true
  enable := t < 14
  widthSelect := if t < 8 then 1 else 2
  traceData := BitVec.ofNat 4 (7 * t + 3)

theorem newWidth_schedule : Schedule newWidth where
  resetN := fun _ => rfl
  rise := fun k => if_pos (Nat.mul_mod_right 2 k)
  fall := fun k => if_neg (by omega)
  enable := fun k => .inl (decide_eq_decide.mpr (by omega))

/-- The new width comes in the middle of the second byte, which is lost. -/
theorem capture_refines_new_width :
    Model.decodeParallelDdr ((List.range' 0 3).flatMap (period newWidth)) 2 = .ok [0x1b] ∧
      (List.range' 0 4).flatMap (bytesAt resetState newWidth) = [0x1b] ∧
      Model.decodeParallelDdr ((List.range' 4 2).flatMap (period newWidth)) 4 =
        .ok [0x2b, 0x09] ∧
      (List.range' 4 3).flatMap (bytesAt resetState newWidth) = [0x2b, 0x09] ∧
      bytesAt resetState newWidth 7 = [] := by
  obtain ⟨hoff, hbytes⟩ := @capture_refines resetState newWidth newWidth_schedule rfl
  have hinside {k : ℕ} (width : BitVec 2) (h : k < 7)
      (hwidth : (if 2 * k < 8 then (1 : BitVec 2) else 2) = width) :
      (newWidth (2 * k)).enable = true ∧ (newWidth (2 * k)).widthSelect = width :=
    ⟨decide_eq_true (by omega), hwidth⟩
  have htwo : Segment newWidth 1 0 3 :=
    ⟨by decide, by decide, fun k _ hk => hinside 1 (by omega) (if_pos (by omega)),
      fun _ hk => by contradiction⟩
  have hfour : Segment newWidth 2 4 6 := by
    refine ⟨by decide, by decide, fun k hk hle => hinside 2 (by omega) (if_neg (by omega)), ?_⟩
    rintro k hk ⟨-, hwidth⟩
    obtain rfl : k = 3 := by omega
    exact absurd hwidth (by decide)
  have hfirst : (List.range' 0 4).flatMap (bytesAt resetState newWidth) = [0x1b] := by decide
  have hsecond : (List.range' 4 3).flatMap (bytesAt resetState newWidth) = [0x2b, 0x09] := by
    decide
  exact ⟨(hbytes 1 0 3 htwo).trans (congrArg _ hfirst), hfirst,
    (hbytes 2 4 6 hfour).trans (congrArg _ hsecond), hsecond, hoff 7 (.inl (by decide))⟩

end DdrCapture
