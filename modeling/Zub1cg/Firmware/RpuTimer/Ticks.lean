import Zub1cg.Firmware.RpuTimer

/-!
# Which intervals become ticks

The handler reads `TTC_ISR`, and so clears it, on every entry, but calls
`_tx_timer_interrupt` only where it has acknowledged the counter's interrupt. An interval that
ends behind the acknowledgement and before the read, and one that is pending while another
interrupt is acknowledged, is lost. No other is.

## Main definitions

- `NoTickLost` — every interval so far has its tick, is being served, or is pending
- `Spaced` — two intervals do not end without a service in between
- `Undisturbed` — an event that cannot lose an interval

## Main results

- `Steady.step` — one undisturbed event
- `no_tick_lost` — which schedules lose no tick
- `spurious_entry_loses_tick` — an interval that is lost
-/

namespace Firmware.RpuTimer

/-! ### Statements -/

/-- The handler has read `TTC_ISR` and not come to the tick yet. -/
def Pc.serving : Pc → Bool
  | .rpr | .countVal | .ttcPending | .ttcActive | .ppiPending | .ppiActive | .icfgr
  | .timerInterrupt => true
  | _ => false

/-- The interval whose bit has been cleared and whose tick is about to come. -/
def inFlight (s : State) : ℕ := (s.pc.serving && s.intid == TTC0_CH0_INTID).toNat

/-- No read clears the interval bit in a service of another interrupt, every tick is that of an
interval that has been read, and the intervals that have ended are those whose ticks have come, the
one being served and the one that is pending. -/
structure NoTickLost (r : Clocked.Run Event State) (t : ℕ) : Prop where
  clears : Clears (r.input t) (r.state t) → (r.state t).intid = TTC0_CH0_INTID
  caused : ticks (r.input t) (r.state t) ≠ [] →
    (r.state t).ttcIsr &&& TTC_INT_INTERVAL ≠ 0
  count : (r.record intervals t).length =
    (r.record ticks t).length + inFlight (r.state t) + (r.state t).hw.ttc.pending.toNat

/-- The counter comes to the end of an interval at event `t`. -/
def IntervalAt (r : Clocked.Run Event State) (t : ℕ) : Prop :=
  intervals (r.input t) (r.state t) ≠ []

/-- Between the starts of two services there is at most one end of an interval. -/
def Spaced (r : Clocked.Run Event State) : Prop :=
  ∀ u t, u < t → IntervalAt r u → IntervalAt r t →
    ∃ v, u < v ∧ v < t ∧ Acknowledges (r.input v) (r.state v)

/-- No other interrupt is acknowledged while the counter's line is high, and no interval ends
between the reads of `GICC_IAR` and `TTC_ISR`. -/
def Undisturbed (e : Event) (s : State) : Prop :=
  match e with
  | .interval => s.pc ≠ .isr
  | .enter => True
  | .access b => s.pc = .iar → s.hw.ttc.line = true → b.outranked = false

/-- An interval has ended and no service has started since. -/
def Open (r : Clocked.Run Event State) (t : ℕ) : Prop :=
  ∃ u, u < t ∧ IntervalAt r u ∧ ∀ v, u < v → v < t → ¬ Acknowledges (r.input v) (r.state v)

/-! ### The status register -/

theorem pending_zero {t : Ttc} (h : t.isr = 0) : t.pending = false ∧ t.line = false := by
  rw [Ttc.pending, Ttc.line, h]
  decide

theorem pending_one {t : Ttc} (h : t.isr = 1) : t.pending = true ∧ t.line = true := by
  rw [Ttc.pending, Ttc.line, h]
  decide

/-- The end of an interval sets the bit. -/
theorem pending_or (t : Ttc) : Ttc.pending { t with isr := t.isr ||| TTC_INT_INTERVAL } = true := by
  have hbit : (TTC_INT_INTERVAL : BitVec 32) ≠ 0 := by decide
  have hkeep : (t.isr ||| TTC_INT_INTERVAL) &&& TTC_INT_INTERVAL = TTC_INT_INTERVAL := by
    ext k hk
    rw [BitVec.getElem_and, BitVec.getElem_or]
    cases (TTC_INT_INTERVAL)[k] <;> simp
  rw [Ttc.pending, hkeep]
  exact bne_iff_ne.mpr hbit

theorem iar_own {b : Bus} {t : Ttc} (hline : t.line = true) (hfirst : b.outranked = false) :
    iar b t &&& 0x3ff = TTC0_CH0_INTID := by
  have hiar : iar b t = TTC0_CH0_INTID := by
    rw [iar, hline, hfirst]
    rfl
  rw [hiar]
  decide

theorem iar_other {b : Bus} {t : Ttc} (h : t.line = false ∨ b.outranked = true) :
    iar b t &&& 0x3ff ≠ TTC0_CH0_INTID := by
  rw [iar, if_neg]
  · exact b.other_ne
  · rw [Bool.and_eq_true, Bool.not_eq_true']
    rintro ⟨hline, hfirst⟩
    obtain hlow | hhigh := h
    · exact Bool.false_ne_true (hlow.symm.trans hline)
    · exact Bool.false_ne_true (hfirst.symm.trans hhigh)

/-! ### The order of the accesses -/

/-- The access behind this one, for a service of the counter's interrupt or of another one. -/
def Pc.next (own : Bool) : Pc → Pc
  | .idle => .idle
  | .hppir => .iar
  | .iar => .isr
  | .isr => .rpr
  | .rpr => .countVal
  | .countVal => .ttcPending
  | .ttcPending => .ttcActive
  | .ttcActive => .ppiPending
  | .ppiPending => .ppiActive
  | .ppiActive => .icfgr
  | .icfgr => if own then .timerInterrupt else .eoir
  | .timerInterrupt => .eoir
  | .eoir => .idle

theorem next_ne_isr : ∀ own pc, pc ≠ .iar → Pc.next own pc ≠ .isr := by
  rintro own (_ | _) <;> revert own <;> decide

theorem serving_of_next : ∀ own pc, pc ≠ .isr → (Pc.next own pc).serving = true →
    pc.serving = true := by
  rintro own (_ | _) <;> revert own <;> decide

theorem next_timerInterrupt : ∀ own pc, Pc.next own pc = .timerInterrupt → own = true := by
  rintro own (_ | _) <;> revert own <;> decide

/-- The interval whose tick is about to come stays the same up to the tick. -/
theorem next_serving : ∀ own pc, pc ≠ .isr → pc ≠ .timerInterrupt →
    ((Pc.next own pc).serving && own) = (pc.serving && own) := by
  rintro own (_ | _) <;> revert own <;> decide

theorem access_pc (b : Bus) (s : State) :
    (access b s).pc = s.pc.next (s.intid == TTC0_CH0_INTID) := by
  rw [access]
  cases hpc : s.pc with
  | idle => exact hpc
  | icfgr =>
    dsimp only [Pc.next]
    by_cases hown : s.intid = TTC0_CH0_INTID
    · rw [if_pos hown, hown, beq_self_eq_true, if_pos rfl]
    · rw [if_neg hown, beq_eq_false_iff_ne.mpr hown, if_neg Bool.false_ne_true]
  | _ => rfl

/-- The other accesses only note something down. -/
theorem access_frame (b : Bus) {s : State} (hiar : s.pc ≠ .iar) (hisr : s.pc ≠ .isr) :
    (access b s).hw.ttc = s.hw.ttc ∧ (access b s).intid = s.intid ∧
      (access b s).ttcIsr = s.ttcIsr := by
  rw [access]
  cases hpc : s.pc with
  | iar => exact absurd hpc hiar
  | isr => exact absurd hpc hisr
  | _ => exact ⟨rfl, rfl, rfl⟩

/-! ### One event -/

/-- The counter and the handler agree on which interval is where; `isOpen` says that no service
has started since the last interval. -/
structure Steady (isOpen : Prop) (s : State) : Prop where
  counting : s.hw.ttc.counting = true
  status : s.hw.ttc.isr = 0 ∨ s.hw.ttc.isr = 1
  waiting : s.hw.ttc.isr = 1 → s.pc ≠ .isr → isOpen
  acknowledged : s.pc = .isr → (s.hw.ttc.isr = 1 ↔ s.intid = TTC0_CH0_INTID)
  read : s.pc.serving = true → s.intid = TTC0_CH0_INTID → s.ttcIsr = 1
  calling : s.pc = .timerInterrupt → s.intid = TTC0_CH0_INTID

section

variable {isOpen isOpen' : Prop} {s n : State} {e : Event} {b : Bus}

theorem Steady.interval_ends (h : Steady isOpen s) : intervals .interval s = [()] :=
  if_pos h.counting

/-- The end of an interval only sets the bit. -/
theorem Steady.interval_frame (h : Steady isOpen s) :
    (step .interval s).pc = s.pc ∧ (step .interval s).intid = s.intid ∧
      inFlight (step .interval s) = inFlight s ∧
      (step .interval s).hw.ttc.pending = true := by
  rw [step, if_pos h.counting]
  exact ⟨rfl, rfl, rfl, pending_or _⟩

/-- The bit was clear. -/
theorem Steady.interval (h : Steady isOpen s) (hspaced : ¬ isOpen) (hquiet : s.pc ≠ .isr)
    (hopen : isOpen') :
    Steady isOpen' (step .interval s) ∧ s.hw.ttc.isr = 0 ∧ (step .interval s).hw.ttc.isr = 1 := by
  have hzero : s.hw.ttc.isr = 0 := by
    obtain hzero | hone := h.status
    · exact hzero
    · exact absurd (h.waiting hone hquiet) hspaced
  have hstep : step .interval s =
      { s with hw := { s.hw with ttc := { s.hw.ttc with isr := 1 } } } := by
    rw [step, if_pos h.counting, hzero]
    rfl
  rw [hstep]
  exact ⟨⟨h.counting, .inr rfl, fun _ _ => hopen, fun hat => absurd hat hquiet, h.read, h.calling⟩,
    hzero, rfl⟩

theorem Steady.enter (h : Steady isOpen s) (hopen : isOpen → isOpen') :
    Steady isOpen' (step .enter s) := by
  rw [step]
  split_ifs with hidle
  · have hpc : s.pc ≠ .isr := by
      rw [hidle]
      decide
    exact ⟨h.counting, h.status, fun hone _ => hopen (h.waiting hone hpc),
      fun hat => by contradiction, fun hat => by contradiction, fun hat => by contradiction⟩
  · exact ⟨h.counting, h.status, fun hone hpc => hopen (h.waiting hone hpc), h.acknowledged, h.read,
      h.calling⟩

/-- The acknowledgement: it is that of the counter's interrupt if the bit is set. -/
theorem Steady.acknowledge (h : Steady isOpen s) (hpc : s.pc = .iar)
    (hquiet : Undisturbed (.access b) s) : Steady isOpen' (access b s) := by
  have hown : s.hw.ttc.isr = 1 ↔ iar b s.hw.ttc &&& 0x3ff = TTC0_CH0_INTID := by
    constructor
    · intro hone
      have hline := (pending_one hone).2
      exact iar_own hline (hquiet hpc hline)
    · intro hown
      obtain hzero | hone := h.status
      · exact absurd hown (iar_other (.inl (pending_zero hzero).2))
      · exact hone
  rw [access, hpc]
  exact ⟨h.counting, h.status, fun _ hat => absurd rfl hat, fun _ => hown, fun hat => by contradiction,
    fun hat => by contradiction⟩

/-- The read of `TTC_ISR`. -/
theorem Steady.readStatus (h : Steady isOpen s) (hpc : s.pc = .isr) :
    Steady isOpen' (access b s) := by
  rw [access, hpc]
  have hclear : (0 : BitVec 32) ≠ 1 := by decide
  exact ⟨h.counting, .inl rfl, fun hone => absurd hone hclear, fun hat => by contradiction,
    fun _ hown => (h.acknowledged hpc).mpr hown, fun hat => by contradiction⟩

theorem Steady.access (h : Steady isOpen s) (hquiet : Undisturbed (.access b) s)
    (hopen : isOpen → ¬ Acknowledges (.access b) s → isOpen') :
    Steady isOpen' (RpuTimer.access b s) := by
  by_cases hiar : s.pc = .iar
  · exact h.acknowledge hiar hquiet
  by_cases hisr : s.pc = .isr
  · exact h.readStatus hisr
  obtain ⟨httc, hintid, hread⟩ := access_frame b hiar hisr
  have hpc := access_pc b s
  have hnext : (RpuTimer.access b s).pc ≠ .isr := by
    rw [hpc]
    exact next_ne_isr _ _ hiar
  refine ⟨?_, ?_, ?_, fun hat => absurd hat hnext, ?_, ?_⟩
  · rw [httc]
    exact h.counting
  · rw [httc]
    exact h.status
  · rw [httc]
    exact fun hone _ => hopen (h.waiting hone hisr) fun hack => hiar hack.1
  · rw [hintid, hread, hpc]
    exact fun hserving => h.read (serving_of_next _ _ hisr hserving)
  · rw [hintid, hpc]
    exact fun hcalling => eq_of_beq (next_timerInterrupt _ _ hcalling)

/-- What one undisturbed event preserves. -/
theorem Steady.step (h : Steady isOpen s) (hquiet : Undisturbed e s)
    (hspaced : intervals e s ≠ [] → ¬ isOpen) (hinterval : intervals e s ≠ [] → isOpen')
    (hopen : isOpen → ¬ Acknowledges e s → isOpen') : Steady isOpen' (RpuTimer.step e s) := by
  cases e with
  | interval =>
    have hends : intervals .interval s ≠ [] := by
      rw [h.interval_ends]
      exact List.cons_ne_nil _ _
    exact (h.interval (hspaced hends) hquiet (hinterval hends)).1
  | enter => exact h.enter fun hwas => hopen hwas id
  | access b => exact h.access hquiet hopen

/-- The bit that is read is that of a service of the counter. -/
theorem Steady.pending_eq (h : Steady isOpen s) (hisr : s.pc = .isr) :
    s.hw.ttc.pending = (s.intid == TTC0_CH0_INTID) := by
  obtain hclear | hset := h.status
  · rw [(pending_zero hclear).1, eq_comm, beq_eq_false_iff_ne]
    intro hown
    have hset := (h.acknowledged hisr).mpr hown
    rw [hclear] at hset
    exact absurd hset (by decide)
  · rw [(pending_one hset).1, (h.acknowledged hisr).mp hset]
    rfl

/-- The interval that is read goes into flight, and one in flight has its tick. -/
theorem Steady.balance_access (h : Steady isOpen s) :
    inFlight s + s.hw.ttc.pending.toNat = (ticks (.access b) s).length +
      inFlight (RpuTimer.access b s) + (RpuTimer.access b s).hw.ttc.pending.toNat := by
  have hpc := access_pc b s
  by_cases hiar : s.pc = .iar
  · rw [inFlight, inFlight, ticks, RpuTimer.access, hiar]
    rfl
  by_cases hisr : s.pc = .isr
  · have hbefore : inFlight s = 0 := by
      rw [inFlight, hisr]
      rfl
    have hzero : (RpuTimer.access b s).hw.ttc.pending = false := by
      rw [RpuTimer.access, hisr]
      exact (pending_zero rfl).1
    have hflight : inFlight (RpuTimer.access b s) = (s.intid == TTC0_CH0_INTID).toNat := by
      rw [RpuTimer.access, hisr]
      rfl
    have hnone : ticks (.access b) s = [] := by
      rw [ticks, hisr]
      rfl
    rw [hbefore, hzero, hflight, h.pending_eq hisr, hnone, List.length_nil]
    rfl
  obtain ⟨httc, hintid, -⟩ := access_frame b hiar hisr
  by_cases hcall : s.pc = .timerInterrupt
  · have hflight : inFlight s = 1 := by
      rw [inFlight, hcall, h.calling hcall]
      rfl
    have hdone : inFlight (RpuTimer.access b s) = 0 := by
      rw [inFlight, hpc, hcall]
      rfl
    rw [httc, hflight, hdone, ticks, if_pos hcall]
    rfl
  · have hsame : inFlight (RpuTimer.access b s) = inFlight s := by
      rw [inFlight, inFlight, hpc, hintid, next_serving _ _ hisr hcall]
    rw [httc, hsame, ticks, if_neg hcall, List.length_nil, Nat.zero_add]

/-- No undisturbed event loses an interval: one that ends becomes pending. -/
theorem Steady.balance (h : Steady isOpen s) (hquiet : Undisturbed e s)
    (hspaced : intervals e s ≠ [] → ¬ isOpen) :
    (intervals e s).length + (inFlight s + s.hw.ttc.pending.toNat) =
      (ticks e s).length + inFlight (RpuTimer.step e s) +
        (RpuTimer.step e s).hw.ttc.pending.toNat := by
  cases e with
  | interval =>
    have hends : intervals .interval s ≠ [] := by
      rw [h.interval_ends]
      exact List.cons_ne_nil _ _
    obtain ⟨-, hbefore, -⟩ := @Steady.interval isOpen True s h (hspaced hends) hquiet trivial
    obtain ⟨-, -, hflight, hpending⟩ := h.interval_frame
    rw [h.interval_ends, hflight, (pending_zero hbefore).1, hpending]
    change 1 + (inFlight s + 0) = 0 + inFlight s + 1
    omega
  | enter =>
    rw [RpuTimer.step]
    split_ifs with hidle
    · rw [inFlight, inFlight, hidle]
      exact (Nat.add_assoc 0 0 _).symm
    · exact (Nat.add_assoc _ _ _).symm
  | access b => exact (Nat.zero_add _).trans h.balance_access

/-- What a steady state says about the next event. -/
theorem Steady.clears (h : Steady isOpen s) (hclears : Clears e s) :
    s.intid = TTC0_CH0_INTID := by
  cases e with
  | interval => exact hclears.elim
  | enter => exact hclears.elim
  | access b =>
    obtain ⟨hisr, hpending⟩ := hclears
    obtain hclear | hset := h.status
    · rw [(pending_zero hclear).1] at hpending
      contradiction
    · exact (h.acknowledged hisr).mp hset

theorem Steady.caused (h : Steady isOpen s) (htick : ticks e s ≠ []) :
    s.ttcIsr &&& TTC_INT_INTERVAL ≠ 0 := by
  cases e with
  | interval => exact absurd rfl htick
  | enter => exact absurd rfl htick
  | access b =>
    by_cases hcall : s.pc = .timerInterrupt
    · have hserving : s.pc.serving = true := by
        rw [hcall]
        rfl
      rw [h.read hserving (h.calling hcall)]
      decide
    · rw [ticks, if_neg hcall] at htick
      exact absurd rfl htick

end

/-! ### Whole runs -/

/-- `timerStart` leaves no interval pending and the counter running. -/
theorem steady_started (s₀ : State) {isOpen : Prop} : Steady isOpen (started s₀) := by
  have hclear : (0 : BitVec 32) ≠ 1 := by decide
  have hcounting : (CNT_INTERVAL &&& CNT_DIS == 0 && CNT_INTERVAL &&& CNT_INTERVAL != 0 &&
      TTC_INT_INTERVAL &&& TTC_INT_INTERVAL != 0) = true := by decide
  refine ⟨hcounting, .inl rfl, fun hone => absurd hone hclear, fun hat => ?_, fun hat => ?_,
    fun hat => ?_⟩
  · exact absurd (show Pc.idle = Pc.isr from hat) (by decide)
  · exact absurd (show Pc.idle.serving = true from hat) (by decide)
  · exact absurd (show Pc.idle = Pc.timerInterrupt from hat) (by decide)

section

variable {s₀ : State} {inp : ℕ → Event} (hspaced : Spaced (run s₀ inp))

theorem Open.succ {r : Clocked.Run Event State} {t : ℕ} (h : Open r t)
    (hack : ¬ Acknowledges (r.input t) (r.state t)) : Open r (t + 1) := by
  obtain ⟨u, hut, hinterval, hnone⟩ := h
  refine ⟨u, by omega, hinterval, fun v huv hvt => ?_⟩
  obtain hlt | rfl := Nat.lt_succ_iff_lt_or_eq.mp hvt
  · exact hnone v huv hlt
  · exact hack

include hspaced

/-- An interval that ends finds no other one waiting. -/
theorem not_open {t : ℕ} (h : IntervalAt (run s₀ inp) t) : ¬ Open (run s₀ inp) t := by
  rintro ⟨u, hut, hinterval, hnone⟩
  obtain ⟨v, huv, hvt, hack⟩ := hspaced u t hut hinterval h
  exact hnone v huv hvt hack

/-- All events up to some time, if none of them can lose an interval. -/
theorem steady_run {t : ℕ} (hquiet : ∀ u < t, Undisturbed (inp u) ((run s₀ inp).state u)) :
    Steady (Open (run s₀ inp) t) ((run s₀ inp).state t) ∧
      ((run s₀ inp).record intervals t).length = ((run s₀ inp).record ticks t).length +
        inFlight ((run s₀ inp).state t) + ((run s₀ inp).state t).hw.ttc.pending.toNat := by
  induction t with
  | zero =>
    refine ⟨steady_started s₀, ?_⟩
    change 0 = 0 + 0 + (started s₀).hw.ttc.pending.toNat
    rw [(pending_zero rfl).1]
    rfl
  | succ t ih =>
    obtain ⟨hsteady, hcount⟩ := ih fun u hu => hquiet u (Nat.lt_succ_of_lt hu)
    have hnow := hquiet t (Nat.lt_succ_self t)
    have hclosed : intervals (inp t) ((run s₀ inp).state t) ≠ [] → ¬ Open (run s₀ inp) t :=
      fun hinterval => not_open hspaced hinterval
    refine ⟨hsteady.step hnow hclosed (fun hinterval => ?_) fun hwas hack => hwas.succ hack, ?_⟩
    · exact ⟨t, Nat.lt_succ_self t, hinterval, fun v htv hvt => by omega⟩
    · have hbalance := hsteady.balance hnow hclosed
      rw [Clocked.Run.record_succ, Clocked.Run.record_succ, List.length_append, List.length_append,
        hcount]
      change _ + (intervals (inp t) _).length = _ + (ticks (inp t) _).length +
        inFlight (RpuTimer.step (inp t) _) + (RpuTimer.step (inp t) _).hw.ttc.pending.toNat
      omega

theorem NoTickLost.of_undisturbed {t : ℕ}
    (hquiet : ∀ u < t, Undisturbed (inp u) ((run s₀ inp).state u)) :
    NoTickLost (run s₀ inp) t := by
  obtain ⟨hsteady, hcount⟩ := steady_run hspaced hquiet
  exact ⟨hsteady.clears, hsteady.caused, hcount⟩

omit hspaced in
/-- An interval is pending while the handler is about to read `TTC_ISR` for another interrupt. -/
theorem doomed_read {t k : ℕ} {b : Bus} (hpc : ((run s₀ inp).state t).pc = .isr)
    (hother : ((run s₀ inp).state t).intid ≠ TTC0_CH0_INTID)
    (hpending : ((run s₀ inp).state t).hw.ttc.pending = true) (hread : inp (t + k) = .access b) :
    ∃ u, ¬ NoTickLost (run s₀ inp) u := by
  induction k generalizing t with
  | zero =>
    refine ⟨t, fun h => hother (h.clears ?_)⟩
    change Clears (inp t) _
    rw [← Nat.add_zero t, hread, Nat.add_zero]
    exact ⟨hpc, hpending⟩
  | succ k ih =>
    rw [← Nat.add_assoc, Nat.add_right_comm] at hread
    cases he : inp t with
    | access b' =>
      refine ⟨t, fun h => hother (h.clears ?_)⟩
      change Clears (inp t) _
      rw [he]
      exact ⟨hpc, hpending⟩
    | enter =>
      have hsame : (run s₀ inp).state (t + 1) = (run s₀ inp).state t := by
        change step (inp t) _ = _
        rw [he, step, if_neg]
        rw [hpc]
        decide
      exact ih (by rwa [hsame]) (by rwa [hsame]) (by rwa [hsame]) hread
    | interval =>
      have hnext : (run s₀ inp).state (t + 1) = step .interval ((run s₀ inp).state t) := by
        change step (inp t) _ = _
        rw [he]
      apply ih _ _ _ hread
      · rw [hnext, step]
        split_ifs <;> exact hpc
      · rw [hnext, step]
        split_ifs <;> exact hother
      · rw [hnext, step]
        split_ifs
        · exact pending_or _
        · exact hpending

/-- A schedule that loses no tick is undisturbed, if the handler always goes on to read
`TTC_ISR`. -/
theorem undisturbed_of_no_tick_lost
    (hfair : ∀ t, ((run s₀ inp).state t).pc = .isr → ∃ k b, inp (t + k) = .access b)
    (hlost : ∀ t, NoTickLost (run s₀ inp) t) (t : ℕ) :
    Undisturbed (inp t) ((run s₀ inp).state t) := by
  induction t using Nat.strongRecOn with
  | _ t ih =>
    obtain ⟨hsteady, hcount⟩ := steady_run hspaced ih
    have hdoomed (hpc : ((run s₀ inp).state (t + 1)).pc = .isr)
        (hother : ((run s₀ inp).state (t + 1)).intid ≠ TTC0_CH0_INTID)
        (hpending : ((run s₀ inp).state (t + 1)).hw.ttc.pending = true) : False := by
      obtain ⟨k, b, hread⟩ := hfair _ hpc
      obtain ⟨u, hu⟩ := doomed_read hpc hother hpending hread
      exact hu (hlost u)
    cases he : inp t with
    | enter => trivial
    | interval =>
      intro hisr
      have hnext : (run s₀ inp).state (t + 1) = step .interval ((run s₀ inp).state t) := by
        change step (inp t) _ = _
        rw [he]
      obtain ⟨hpc, hintid, hflight, hpending⟩ := hsteady.interval_frame
      rw [← hnext] at hpc hintid hflight hpending
      by_cases hown : ((run s₀ inp).state t).intid = TTC0_CH0_INTID
      · -- the bit is set already: two intervals become one
        have hset := (hsteady.acknowledged hisr).mpr hown
        have hafter := (hlost (t + 1)).count
        rw [hflight, hpending, Clocked.Run.record_succ, Clocked.Run.record_succ,
          List.length_append, List.length_append] at hafter
        change _ + (intervals (inp t) _).length = _ + (ticks (inp t) _).length + _ + _ at hafter
        rw [he, hsteady.interval_ends] at hafter
        rw [(pending_one hset).1] at hcount
        simp only [ticks, List.length_nil, List.length_singleton] at hafter
        omega
      · exact hdoomed (hpc.trans hisr) (by rwa [hintid]) hpending
    | access b =>
      intro hiar hline
      by_contra hfirst
      rw [Bool.not_eq_false] at hfirst
      have hnext : (run s₀ inp).state (t + 1) = { (run s₀ inp).state t with
          intid := iar b ((run s₀ inp).state t).hw.ttc &&& 0x3ff, pc := .isr } := by
        change step (inp t) _ = _
        rw [he, step, access, hiar]
      apply hdoomed
      · rw [hnext]
      · rw [hnext]
        exact iar_other (.inr hfirst)
      · rw [hnext]
        obtain hclear | hset := hsteady.status
        · rw [(pending_zero hclear).2] at hline
          contradiction
        · exact (pending_one hset).1

/-- **Which schedules lose no tick.** Let at most one interval end between the starts of two
services. If, whatever interrupts are taken, no other interrupt is acknowledged while the counter's
line is high and no interval ends between the reads of `GICC_IAR` and `TTC_ISR`, then every
interval has exactly one tick, unless it is still pending or being served; and if the handler
always goes on, only then. -/
theorem no_tick_lost :
    ((∀ t, Undisturbed (inp t) ((run s₀ inp).state t)) → ∀ t, NoTickLost (run s₀ inp) t) ∧
      ((∀ t, ((run s₀ inp).state t).pc = .isr → ∃ k b, inp (t + k) = .access b) →
        (∀ t, NoTickLost (run s₀ inp) t) →
          ∀ t, Undisturbed (inp t) ((run s₀ inp).state t)) :=
  ⟨fun hquiet _ => .of_undisturbed hspaced fun u _ => hquiet u,
    undisturbed_of_no_tick_lost hspaced⟩

end

/-! ### One interval -/

/-- Nothing but zeros before the start. -/
def zeroed : State where
  hw := ⟨⟨0, 0, 0, 0, 0⟩, ⟨fun _ => 0, 0, 0, 0, 0⟩⟩
  pc := .idle
  hppir := 0
  intid := 0
  ttcIsr := 0
  globals := ⟨0, 0, 0, 0, 0, 0, 0, 0, 0, 0, 0⟩

/-- No other interrupt is pending: `GICC_IAR` returns the spurious INTID. -/
def quietBus : Bus := ⟨0, false, 1023, by decide⟩

/-- An interval ends and is served. -/
def served : ℕ → Event
  | 0 => .interval
  | 1 => .enter
  | _ => .access quietBus

theorem no_tick_lost_served :
    NoTickLost (run zeroed served) 13 ∧ ((run zeroed served).record ticks 13).length = 1 := by
  have hspaced : Spaced (run zeroed served) := by
    rintro u (_ | _ | t) hut - hinterval
    · exact absurd hut (Nat.not_lt_zero _)
    · exact absurd rfl hinterval
    · exact absurd rfl hinterval
  have hquiet : ∀ t, Undisturbed (served t) ((run zeroed served).state t) := by
    rintro (_ | _ | t)
    · exact fun hat => absurd (show Pc.idle = Pc.isr from hat) (by decide)
    · trivial
    · exact fun _ _ => rfl
  exact ⟨(no_tick_lost hspaced).1 hquiet 13, by decide⟩

/-- The core has taken a spurious interrupt, and an interval ends behind its acknowledgement. -/
def spurious : ℕ → Event
  | 0 => .enter
  | 3 => .interval
  | _ => .access quietBus

/-- Its bit is cleared, and there is no tick. -/
theorem spurious_entry_loses_tick :
    ¬ ∀ (s₀ : State) (inp : ℕ → Event), Spaced (run s₀ inp) → ∀ t, NoTickLost (run s₀ inp) t := by
  intro h
  have hspaced : Spaced (run zeroed spurious) := by
    have honly : ∀ t, IntervalAt (run zeroed spurious) t → t = 3 := by
      rintro (_ | _ | _ | _ | t) hinterval
      · exact absurd rfl hinterval
      · exact absurd rfl hinterval
      · exact absurd rfl hinterval
      · rfl
      · exact absurd rfl hinterval
    intro u t hut hu ht
    rw [honly u hu, honly t ht] at hut
    exact absurd hut (Nat.lt_irrefl _)
  have hcount := (h zeroed spurious hspaced 5).count
  exact absurd hcount (by decide)

end Firmware.RpuTimer
