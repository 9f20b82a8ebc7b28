import Zub1cg.Rtl.SwoNrz

/-!
# Reception of NRZ characters

A character is armed by its start bit and sampled in the second quarter of a bit, as the ticks
of the receiver count them. From the first tick after it has been armed, wherever that tick
falls, every sample lies inside its bit, and the receiver is ready again before the character
has ended.

## Main definitions

- `Receiving` — some ticks of a character have passed
- `Ready`, `Received` — before a character, and with a byte that has come
- `Settled`, `During` — what has been handed over between the characters, and within one
- `SeenAt` — a clock at which a start bit can still be seen

## Main results

- `Receiving.tick`, `Receiving.last` — one tick of a character
- `Settled.character`, `onLine_settled` — a character that is seen in time, and a line of them
- `nrz_back_to_back` — characters back to back, or with gaps
-/

namespace SwoNrz

open Clocked (Run)
open Swo (tick nextTick nextTick_pos nextTick_le nextTick_mono tick_induction frameBit
  getLsbD_setBit nrz nrz_eq nrz_sample line span duration begun ended atStarts atStarts_of_forall
  line_induction)

/-- Nothing is received, and no byte waits. -/
structure Ready (s : State) : Prop where
  active : s.active = false
  valid : s.outputValid = false

/-- A byte has been received and waits. -/
structure Received (b : UInt8) (s : State) : Prop where
  active : s.active = false
  valid : s.outputValid = true
  data : s.outputData = b

/-- `n` ticks of a character have passed. Data bit `k` is sampled by the tick before tick
`4 * k + 6`. -/
structure Receiving (b : UInt8) (n : ℕ) (s : State) : Prop where
  active : s.active = true
  valid : s.outputValid = false
  quarter : s.quarter = n % 4
  bitIndex : s.bitIndex = n / 4
  shift : ∀ k < 8, 4 * k + 6 ≤ n → s.shift.getLsbD k = b.toBitVec.getLsbD k

section

variable {i : Input} {s : State} {b : UInt8} {n : ℕ}

theorem Ready.arm (h : Ready s) (hi : i.resetN = true) (hline : s.swoS = false) :
    Receiving b 0 (step i s) ∧ (step i s).malformedCount = s.malformedCount := by
  rw [step_arm hi h.active h.valid hline]
  exact ⟨⟨rfl, h.valid, rfl, rfl, fun k _ hk => by omega⟩, rfl⟩

theorem Ready.idle (h : Ready s) (hi : i.resetN = true) (hline : s.swoS = true) :
    Ready (step i s) ∧ (step i s).malformedCount = s.malformedCount := by
  rw [step_idle hi h.active h.valid hline]
  exact ⟨⟨h.active, h.valid⟩, rfl⟩

theorem Receiving.between (h : Receiving b n s) (hi : i.resetN = true)
    (htick : i.sampleTick = false) :
    Receiving b n (step i s) ∧ (step i s).malformedCount = s.malformedCount := by
  rw [step_between hi h.active h.valid htick]
  exact ⟨{ h with }, rfl⟩

/-- The sample of the start bit or of a data bit. -/
theorem Receiving.sample (h : Receiving b n s) (hn : n < 37) (hquarter : n % 4 = 1)
    (hline : s.swoS = frameBit b (n / 4)) (n' : State) (hn' : n'.shift = s.shift) :
    ∃ v, sampleUpdate s n' = { n' with shift := v } ∧
      ∀ k < 8, 4 * k + 5 ≤ n → v.getLsbD k = b.toBitVec.getLsbD k := by
  rw [sampleUpdate, h.bitIndex, hline]
  by_cases hstart : n / 4 = 0
  · refine ⟨s.shift, ?_, fun k _ hk => by omega⟩
    rw [hstart, ← hn']
    simp [frameBit]
  · have hdata : 1 ≤ n / 4 ∧ n / 4 ≤ 8 := by omega
    refine ⟨_, by rw [if_neg fun hboth => hstart hboth.1, if_pos hdata], fun k hk hsampled => ?_⟩
    rw [getLsbD_setBit _ (by omega), frameBit, if_neg hstart, if_pos hdata.2]
    by_cases hthis : k = n / 4 - 1
    · rw [if_pos hthis, hthis]
    · rw [if_neg hthis]
      exact h.shift k hk (by omega)

/-- A tick before that of the stop bit. -/
theorem Receiving.tick (h : Receiving b n s) (hi : i.resetN = true) (htick : i.sampleTick = true)
    (hn : n < 37) (hline : n % 4 = 1 → s.swoS = frameBit b (n / 4)) :
    Receiving b (n + 1) (step i s) ∧ (step i s).malformedCount = s.malformedCount := by
  have hcount := h.quarter
  rw [step_tick hi h.active h.valid htick, tickUpdate]
  by_cases hquarter : n % 4 = 1
  · obtain ⟨v, hsample, hv⟩ := h.sample hn hquarter (hline hquarter)
      { s with swoM := i.swo, swoS := s.swoM } rfl
    have hinside : ¬ s.quarter = 3 := by omega
    rw [if_pos (hcount.trans hquarter), hsample, if_pos h.active, if_neg hinside]
    refine ⟨⟨h.active, h.valid, ?_, ?_, fun k hk hsampled => hv k hk (by omega)⟩, rfl⟩
    · show s.quarter + 1 = (n + 1) % 4
      omega
    · show s.bitIndex = (n + 1) / 4
      rw [h.bitIndex]
      omega
  · have hno : ¬ s.quarter = 1 := by omega
    rw [if_neg hno, if_pos h.active]
    by_cases hend : n % 4 = 3
    · rw [if_pos (hcount.trans hend)]
      refine ⟨⟨h.active, h.valid, ?_, ?_, fun k hk hsampled => h.shift k hk (by omega)⟩, rfl⟩
      · show 0 = (n + 1) % 4
        omega
      · show s.bitIndex + 1 = (n + 1) / 4
        rw [h.bitIndex]
        omega
    · have hinside : ¬ s.quarter = 3 := by omega
      rw [if_neg hinside]
      refine ⟨⟨h.active, h.valid, ?_, ?_, fun k hk hsampled => h.shift k hk (by omega)⟩, rfl⟩
      · show s.quarter + 1 = (n + 1) % 4
        omega
      · show s.bitIndex = (n + 1) / 4
        rw [h.bitIndex]
        omega

/-- The tick that samples the stop bit. -/
theorem Receiving.last (h : Receiving b 37 s) (hi : i.resetN = true) (htick : i.sampleTick = true)
    (hline : s.swoS = true) :
    Received b (step i s) ∧ (step i s).malformedCount = s.malformedCount := by
  have hbyte : UInt8.ofBitVec s.shift = b := by
    apply UInt8.toBitVec_inj.mp
    ext k hk
    exact h.shift k hk (by omega)
  rw [step_tick hi h.active h.valid htick, tickUpdate, h.quarter, h.active, sampleUpdate,
    h.bitIndex, hline, hbyte]
  exact ⟨⟨rfl, rfl, rfl⟩, rfl⟩

theorem Received.wait (h : Received b s) (hi : i.resetN = true) (hbusy : i.outputReady = false) :
    Received b (step i s) ∧ delivered i s = [] ∧
      (step i s).malformedCount = s.malformedCount := by
  rw [step_waiting hi h.active h.valid, delivered, hbusy, Bool.and_false,
    if_neg Bool.false_ne_true]
  exact ⟨⟨h.active, rfl, h.data⟩, rfl, rfl⟩

theorem Received.taken (h : Received b s) (hi : i.resetN = true) (hready : i.outputReady = true) :
    Ready (step i s) ∧ delivered i s = [b] ∧ (step i s).malformedCount = s.malformedCount := by
  rw [step_waiting hi h.active h.valid, delivered, hready, h.valid, h.data]
  exact ⟨⟨h.active, rfl⟩, rfl, rfl⟩

end

/-! ### A character on the line -/

/-- The receiver on a line. -/
def reception (period phase : ℕ) (swo ready : ℕ → Bool) : Run Input State where
  step := step
  start := resetState
  input t := {
    resetN := true
    swo := swo t
    sampleTick := tick period phase t
    outputReady := ready t }

/-- The bytes that have begun to be received and have not been handed over. -/
def inProgress (s : State) : ℕ := if s.active || s.outputValid then 1 else 0

section

variable {period phase : ℕ} {swo ready : ℕ → Bool}

/-- Nothing has been handed over or rejected since `t`. -/
def Quiet (r : Run Input State) (t u : ℕ) : Prop :=
  (r.state u).malformedCount = (r.state t).malformedCount ∧
    r.record delivered u = r.record delivered t

/-- Of `bytes` the last one may wait, all others have been handed over. -/
def Settled (r : Run Input State) (t : ℕ) (bytes : List UInt8) : Prop :=
  (r.state t).malformedCount = 0 ∧
    (Ready (r.state t) ∧ r.record delivered t = bytes ∨
      ∃ b, Received b (r.state t) ∧ r.record delivered t ++ [b] = bytes)

/-- Of `bytes` the last one may wait or be on the line, all others have been handed over. -/
def During (r : Run Input State) (t : ℕ) (bytes : List UInt8) : Prop :=
  (r.state t).malformedCount = 0 ∧ r.record delivered t <+: bytes ∧
    bytes.length = (r.record delivered t).length + inProgress (r.state t)

theorem Settled.during {r : Run Input State} {t : ℕ} {bytes : List UInt8}
    (h : Settled r t bytes) : During r t bytes := by
  obtain ⟨hcount, ⟨hready, rfl⟩ | ⟨b, hbyte, rfl⟩⟩ := h
  · exact ⟨hcount, List.prefix_rfl, by simp [inProgress, hready.active, hready.valid]⟩
  · exact ⟨hcount, List.prefix_append _ _, by simp [inProgress, hbyte.active, hbyte.valid]⟩

theorem Quiet.next {r : Run Input State} {t u : ℕ} (h : Quiet r t u)
    (hvalid : (r.state u).outputValid = false)
    (hcount : (r.state (u + 1)).malformedCount = (r.state u).malformedCount) :
    Quiet r t (u + 1) := by
  refine ⟨hcount.trans h.1, ?_⟩
  rw [Run.record_succ, delivered, hvalid, Bool.false_and, if_neg Bool.false_ne_true,
    List.append_nil]
  exact h.2

/-- A character whose bits are sampled at the right levels. The edge `A` arms the receiver. -/
theorem received (hperiod : 0 < period) {A : ℕ} {b : UInt8}
    (hready : Ready ((reception period phase swo ready).state A))
    (hlow : ((reception period phase swo ready).state A).swoS = false)
    (hsamples : ∀ k < 10, ((reception period phase swo ready).state
      (A + (nextTick period phase A + (4 * k + 1) * period))).swoS = frameBit b k) :
    (Received b ((reception period phase swo ready).state
        (A + (nextTick period phase A + 37 * period) + 1)) ∧
      Quiet (reception period phase swo ready) A
        (A + (nextTick period phase A + 37 * period) + 1)) ∧
    ∀ d < nextTick period phase A + 37 * period,
      ∃ n, Receiving b n ((reception period phase swo ready).state (A + (d + 1))) ∧
        Quiet (reception period phase swo ready) A (A + (d + 1)) := by
  obtain ⟨hnext, hcount⟩ :=
    hready.arm (b := b) (i := (reception period phase swo ready).input A) rfl hlow
  have hbetween (t n : ℕ) (h : Receiving b n ((reception period phase swo ready).state t) ∧
      Quiet (reception period phase swo ready) A t) (hno : tick period phase t = false) :
      Receiving b n ((reception period phase swo ready).state (t + 1)) ∧
        Quiet (reception period phase swo ready) A (t + 1) := by
    obtain ⟨hnext, hsame⟩ :=
      h.1.between (i := (reception period phase swo ready).input t) rfl hno
    exact ⟨hnext, h.2.next h.1.valid hsame⟩
  obtain ⟨⟨⟨hrec, hquiet⟩, htick⟩, hevery⟩ := tick_induction hperiod phase A 37
    ⟨hnext, Quiet.next ⟨rfl, rfl⟩ hready.valid hcount⟩ hbetween fun n hn ⟨hrec, hquiet⟩ hyes => by
      have hline (hquarter : n % 4 = 1) : ((reception period phase swo ready).state
          (A + (nextTick period phase A + n * period))).swoS = frameBit b (n / 4) := by
        rw [← hsamples (n / 4) (by omega), show 4 * (n / 4) + 1 = n by omega]
      obtain ⟨hnext, hsame⟩ :=
        hrec.tick (i := (reception period phase swo ready).input _) rfl hyes hn hline
      exact ⟨hnext, hquiet.next hrec.valid hsame⟩
  refine ⟨?_, hevery⟩
  obtain ⟨hlast, hsame⟩ := hrec.last (i := (reception period phase swo ready).input _) rfl htick
    (hsamples 9 (by omega))
  exact ⟨hlast, hquiet.next hrec.valid hsame⟩

/-- A byte waits for `output_ready`, whatever the line does. -/
theorem Settled.wait {t : ℕ} {bytes : List UInt8}
    (h : Settled (reception period phase swo ready) t bytes)
    (hvalid : ((reception period phase swo ready).state t).outputValid = true) :
    Settled (reception period phase swo ready) (t + 1) bytes := by
  obtain ⟨hcount, ⟨hready, -⟩ | ⟨b, hbyte, rfl⟩⟩ := h
  · rw [hready.valid] at hvalid
    exact absurd hvalid Bool.false_ne_true
  · cases htake : ((reception period phase swo ready).input t).outputReady with
    | false =>
      obtain ⟨hnext, hout, hsame⟩ := hbyte.wait rfl htake
      refine ⟨hsame.trans hcount, .inr ⟨b, hnext, ?_⟩⟩
      rw [Run.record_succ, hout, List.append_nil]
    | true =>
      obtain ⟨hnext, hout, hsame⟩ := hbyte.taken rfl htake
      refine ⟨hsame.trans hcount, .inl ⟨hnext, ?_⟩⟩
      rw [Run.record_succ, hout]

theorem Settled.idle {t : ℕ} {bytes : List UInt8}
    (h : Settled (reception period phase swo ready) t bytes)
    (hline : ((reception period phase swo ready).state t).swoS = true) :
    Settled (reception period phase swo ready) (t + 1) bytes := by
  obtain ⟨hcount, ⟨hready, hrecord⟩ | ⟨b, hbyte, -⟩⟩ := id h
  · obtain ⟨hnext, hsame⟩ := hready.idle (i := (reception period phase swo ready).input t) rfl hline
    have hout := (Quiet.next ⟨rfl, rfl⟩ hready.valid hsame).2
    exact ⟨hsame.trans hcount, .inl ⟨hnext, hout.trans hrecord⟩⟩
  · exact h.wait hbyte.valid

/-- A byte that waits is taken when `output_ready` is high. -/
theorem Settled.taken {t : ℕ} {bytes : List UInt8}
    (h : Settled (reception period phase swo ready) t bytes) (hready : ready t = true) :
    (reception period phase swo ready).record delivered (t + 1) = bytes := by
  obtain ⟨-, ⟨hidle, rfl⟩ | ⟨b, hbyte, rfl⟩⟩ := h
  · rw [Run.record_succ, delivered, hidle.valid, Bool.false_and,
      if_neg Bool.false_ne_true, List.append_nil]
  · rw [Run.record_succ]
    exact congrArg _ (hbyte.taken (i := (reception period phase swo ready).input t) rfl hready).2.1

theorem Settled.idles {t : ℕ} {bytes : List UInt8}
    (h : Settled (reception period phase swo ready) t bytes) (n : ℕ)
    (hline : ∀ d < n, ((reception period phase swo ready).state (t + d)).swoS = true) :
    Settled (reception period phase swo ready) (t + n) bytes := by
  induction n with
  | zero => exact h
  | succ n ih => exact (ih fun d hd => hline d (by omega)).idle (hline n (Nat.lt_succ_self n))

/-- A clock at which nothing waits and from which a start bit that began at `S` still has two
ticks. -/
def SeenAt (period phase : ℕ) (r : Run Input State) (S A : ℕ) : Prop :=
  S ≤ A ∧ A + nextTick period phase A < S + 3 * period ∧ (r.state A).outputValid = false

/-- The first clock at which nothing waits. -/
theorem Settled.until {S u : ℕ} {bytes : List UInt8}
    (h : Settled (reception period phase swo ready) S bytes) (hle : S ≤ u)
    (hfree : ((reception period phase swo ready).state u).outputValid = false) :
    ∃ e, S + e ≤ u ∧ ((reception period phase swo ready).state (S + e)).outputValid = false ∧
      ∀ d ≤ e, Settled (reception period phase swo ready) (S + d) bytes := by
  have hsome : ∃ e, ((reception period phase swo ready).state (S + e)).outputValid = false :=
    ⟨u - S, by rwa [Nat.add_sub_cancel' hle]⟩
  refine ⟨Nat.find hsome, ?_, Nat.find_spec hsome, fun d hd => ?_⟩
  · have hleast := Nat.find_min' hsome (m := u - S) (by rwa [Nat.add_sub_cancel' hle])
    omega
  · induction d with
    | zero => exact h
    | succ d ih =>
      have hwaits := Nat.find_min hsome (m := d) (by omega)
      exact (ih (by omega)).wait (Bool.not_eq_false _ ▸ hwaits)

/-- A character that is seen in time. -/
theorem Settled.character (hperiod : 0 < period) {S : ℕ} {bytes : List UInt8} {b : UInt8}
    (h : Settled (reception period phase swo ready) S bytes)
    (hseen : ∃ A, SeenAt period phase (reception period phase swo ready) S A)
    (hline : ∀ d < duration period,
      ((reception period phase swo ready).state (S + d)).swoS = nrz period b d) :
    Settled (reception period phase swo ready) (S + duration period) (bytes ++ [b]) ∧
      ∀ d < duration period, During (reception period phase swo ready) (S + d) bytes ∨
        During (reception period phase swo ready) (S + d) (bytes ++ [b]) := by
  obtain ⟨u, hSu, hbound, hfree⟩ := hseen
  obtain ⟨e, heu, hvalid, hbefore⟩ := h.until hSu hfree
  have hmono := nextTick_mono hperiod phase heu
  have hfirst : e + nextTick period phase (S + e) < 3 * period := by omega
  have hpos := nextTick_pos hperiod phase (S + e)
  have hlow : ((reception period phase swo ready).state (S + e)).swoS = false := by
    rw [hline e (by rw [duration]; omega), nrz_eq (k := 0) b (by omega) (by omega)]
    rfl
  have hsamples (k : ℕ) (hk : k < 10) : ((reception period phase swo ready).state
      (S + e + (nextTick period phase (S + e) + (4 * k + 1) * period))).swoS = frameBit b k := by
    have hmul := Nat.mul_le_mul_right period (show 4 * k + 1 ≤ 37 by omega)
    rw [Nat.add_assoc, hline _ (by rw [duration]; omega), ← Nat.add_assoc]
    exact nrz_sample hfirst b k
  obtain ⟨hcount, ⟨hready, rfl⟩ | ⟨c, hbyte, -⟩⟩ := hbefore e (Nat.le_refl e)
  case inr => exact absurd hbyte.valid (by rw [hvalid]; exact Bool.false_ne_true)
  obtain ⟨⟨hend, hsame, hrecord⟩, hwhile⟩ := received hperiod hready hlow hsamples
  obtain ⟨T, hT⟩ : ∃ T, T = e + (nextTick period phase (S + e) + 37 * period) + 1 := ⟨_, rfl⟩
  have hreceived : Settled (reception period phase swo ready) (S + T)
      ((reception period phase swo ready).record delivered (S + e) ++ [b]) := by
    rw [hT, ← Nat.add_assoc, ← Nat.add_assoc]
    exact ⟨hsame.trans hcount, .inr ⟨b, hend, by rw [hrecord]⟩⟩
  -- the stop bit is on the line until the character ends
  have hafter (x : ℕ) (hx : T + x ≤ 40 * period) :
      Settled (reception period phase swo ready) (S + (T + x))
        ((reception period phase swo ready).record delivered (S + e) ++ [b]) := by
    rw [← Nat.add_assoc]
    refine hreceived.idles x fun d hd => ?_
    rw [Nat.add_assoc, hline (T + d) (by rw [duration]; omega),
      nrz_eq (k := 9) b (by omega) (by omega)]
    rfl
  constructor
  · have hlast := hafter (40 * period - T) (by omega)
    rwa [Nat.add_sub_cancel' (by omega)] at hlast
  · intro d hd
    rw [duration] at hd
    by_cases hwait : d ≤ e
    · exact .inl (hbefore d hwait).during
    · refine .inr ?_
      by_cases hon : d < T
      · obtain ⟨x, rfl⟩ : ∃ x, d = e + (x + 1) := ⟨d - e - 1, by omega⟩
        obtain ⟨n, hrec, hmal, hout⟩ := hwhile x (by omega)
        rw [← Nat.add_assoc, During, hout, hmal, inProgress, hrec.active]
        exact ⟨hcount, List.prefix_append _ _, by simp⟩
      · have hhere := hafter (d - T) (by omega)
        rw [Nat.add_sub_cancel' (by omega)] at hhere
        exact hhere.during

/-! ### The whole line -/

/-- The receiver on a line of characters. -/
def onLine (period phase : ℕ) (chars : List (ℕ × UInt8)) (ready : ℕ → Bool) : Run Input State :=
  reception period phase (line (duration period) (nrz period) chars) ready

/-- The line passes two registers. -/
theorem swoS_add_two (t : ℕ) : ((reception period phase swo ready).state (2 + t)).swoS = swo t := by
  rw [Nat.add_comm, Run.state_succ]
  exact step_swo.2.trans (by rw [Run.state_succ]; exact step_swo.1)

/-- Characters that are all seen in time. -/
theorem onLine_settled (hperiod : 0 < period) {chars : List (ℕ × UInt8)} {cond : ℕ → Prop}
    (hseen : ∀ S bytes, Settled (onLine period phase chars ready) S bytes → cond S →
      ∃ A, SeenAt period phase (onLine period phase chars ready) S A)
    (hcond : atStarts (duration period) cond 2 chars) :
    (∀ d, span (duration period) chars ≤ d →
      Settled (onLine period phase chars ready) (2 + d) (chars.map Prod.snd)) ∧
      ∀ d, ∃ n, ended (duration period) chars d ≤ n ∧ n ≤ begun (duration period) chars d ∧
        During (onLine period phase chars ready) (2 + d) ((chars.map Prod.snd).take n) := by
  have hstart : Settled (onLine period phase chars ready) 0 [] := ⟨rfl, .inl ⟨⟨rfl, rfl⟩, rfl⟩⟩
  have hidle : Settled (onLine period phase chars ready) 2 [] :=
    (hstart.idle rfl).idle
      (step_swo (i := (onLine period phase chars ready).input 0) (s := resetState)).2
  exact line_induction (fun t => ((onLine period phase chars ready).state t).swoS)
    (by rw [duration]; omega) (fun _ _ h => h.during) (fun _ _ h => h.idle)
    (fun S bytes _ h hc => h.character hperiod (hseen S bytes h hc)) chars hidle hcond
    fun d => swoS_add_two d

/-- With `output_ready` high, characters may follow each other without a gap, at any phase of
the tick. Every byte comes out, and none is rejected. -/
theorem nrz_back_to_back {period : ℕ} (hperiod : 0 < period) (phase : ℕ)
    (chars : List (ℕ × UInt8)) (t : ℕ) :
    ((onLine period phase chars fun _ => true).state t).malformedCount = 0 ∧
      (onLine period phase chars fun _ => true).record delivered t <+: chars.map Prod.snd ∧
      (span (duration period) chars + 2 < t →
        (onLine period phase chars fun _ => true).record delivered t = chars.map Prod.snd) := by
  have hseen (S : ℕ) (bytes : List UInt8)
      (h : Settled (onLine period phase chars fun _ => true) S bytes) (_ : True) :
      ∃ A, SeenAt period phase (onLine period phase chars fun _ => true) S A := by
    obtain ⟨-, ⟨hready, -⟩ | ⟨b, hbyte, -⟩⟩ := h
    · have := nextTick_le period phase S
      exact ⟨S, Nat.le_refl S, by omega, hready.valid⟩
    · have := nextTick_le period phase (S + 1)
      have hnext := (hbyte.taken (i := (onLine period phase chars fun _ => true).input S)
        rfl rfl).1
      exact ⟨S + 1, Nat.le_succ S, by omega, hnext.valid⟩
  obtain ⟨hlast, hevery⟩ := onLine_settled hperiod hseen
    (atStarts_of_forall (fun _ => trivial) 2 chars)
  have hall (d : ℕ) (hd : span (duration period) chars ≤ d) :
      (onLine period phase chars fun _ => true).record delivered (2 + d + 1) =
        chars.map Prod.snd := (hlast d hd).taken rfl
  refine ⟨?_, ?_, fun ht => ?_⟩
  · match t with
    | 0 => rfl
    | 1 => rw [Run.state_succ]; exact congrArg State.malformedCount (step_idle rfl rfl rfl rfl)
    | t + 2 =>
      obtain ⟨-, -, -, hcount, -⟩ := hevery t
      rwa [Nat.add_comm] at hcount
  · rw [← hall (span (duration period) chars + t) (Nat.le_add_right _ _)]
    exact Run.record_mono _ _ (by omega)
  · rw [← hall (t - 3) (by omega)]
    congr 1
    omega

/-- Two characters without a gap, with a tick at every clock. -/
theorem nrz_back_to_back_two :
    0 < 1 ∧ (onLine 1 0 [(0, 0xA6), (0, 0x5A)] fun _ => true).record delivered 90 = [0xA6, 0x5A] :=
  ⟨by decide, (nrz_back_to_back (by decide) 0 [(0, 0xA6), (0, 0x5A)] 90).2.2 (by decide)⟩

end

end SwoNrz
