import Zub1cg.Library.Watchdog
import Zub1cg.Firmware.Gem2.Link

/-!
# When the watchdogs act

The watchdog of the transmitter looks at the number of completed frames, that of the link at the
number of interrupts. Each counts how many polls in a row have found no progress.

## Main results

- `txPollRecover_row`, `linkPollRecover_row` — what they do at the end of a row of quiet polls
- `Link.restarts_run` — how often a run restarts the MAC
-/

namespace Gem2

/-! ### The transmitter -/

/-- Frames are on their way. -/
def txDue (poll : ℕ × UInt32) : Bool := poll.1 != 0

/-- The state after a row of `n` quiet polls. -/
def TxPoll.row (last : UInt32) (n : ℕ) : TxPoll :=
  ⟨last, n == 0, UInt32.ofNat ((n - 1) % 3)⟩

theorem TxPoll.row_succ (last : UInt32) (n : ℕ) :
    TxPoll.row last (n + 1) = ⟨last, false, UInt32.ofNat (n % 3)⟩ := rfl

/-- The first quiet poll does nothing, then two recoveries and a restart follow each other. -/
def txReaction (n : ℕ) : Recovery :=
  if n ≤ 1 then .nothing else if n % 3 = 1 then .fullReinit else .stallRecover

theorem txReaction_eq_fullReinit {n : ℕ} : txReaction n = .fullReinit ↔ 1 < n ∧ n % 3 = 1 := by
  rw [txReaction]
  split
  · next hshort => exact ⟨fun h => Recovery.noConfusion h, fun h => absurd h.1 (by omega)⟩
  · next hlong =>
    split
    · next hthird => exact ⟨fun _ => ⟨by omega, hthird⟩, fun _ => rfl⟩
    · next hother => exact ⟨fun h => Recovery.noConfusion h, fun h => absurd h.2 hother⟩

theorem txPollRecover_quiet (last : UInt32) (n : ℕ) {count : ℕ} (hcount : count ≠ 0) :
    txPollRecover (TxPoll.row last n) count last =
      (TxPoll.row last (n + 1), txReaction (n + 1)) := by
  have hsame : ¬ last ≠ (TxPoll.row last n).lastTxComplete := not_not.mpr rfl
  rw [txPollRecover, if_neg hcount, if_neg hsame]
  cases n with
  | zero =>
    have hseen : (TxPoll.row last 0).lastSeenProgress = true := rfl
    rw [if_pos hseen]
    rfl
  | succ n =>
    have hseen : ¬ (TxPoll.row last (n + 1)).lastSeenProgress = true := Bool.false_ne_true
    have hlong : ¬ n + 1 + 1 ≤ 1 := by omega
    rw [if_neg hseen, TxPoll.row_succ, TxPoll.row_succ, txReaction, if_neg hlong]
    -- the row so far has seen `n` recoveries and restarts
    obtain h | h | h : n % 3 = 0 ∨ n % 3 = 1 ∨ n % 3 = 2 := by omega
    · have h₁ : (n + 1) % 3 = 1 := by omega
      have h₂ : (n + 1 + 1) % 3 = 2 := by omega
      rw [h, h₁, h₂]
      rfl
    · have h₁ : (n + 1) % 3 = 2 := by omega
      have h₂ : (n + 1 + 1) % 3 = 0 := by omega
      rw [h, h₁, h₂]
      rfl
    · have h₁ : (n + 1) % 3 = 0 := by omega
      have h₂ : (n + 1 + 1) % 3 = 1 := by omega
      rw [h, h₁, h₂]
      rfl

theorem txPollRecover_row (last : UInt32) (n : ℕ) (poll : ℕ × UInt32) :
    txPollRecover (TxPoll.row last n) poll.1 poll.2 =
      (TxPoll.row poll.2 (Watchdog.after txDue Prod.snd last n poll),
        txReaction (Watchdog.after txDue Prod.snd last n poll)) := by
  obtain ⟨count, complete⟩ := poll
  rw [Watchdog.after]
  by_cases hcount : count = 0
  · have hdue : ¬ (txDue (count, complete) ∧ complete = last) := by simp [txDue, hcount]
    rw [txPollRecover, if_pos hcount, if_neg hdue]
    rfl
  · by_cases hvalue : complete = last
    · have hdue : txDue (count, complete) ∧ complete = last := by simp [txDue, hcount, hvalue]
      rw [if_pos hdue, hvalue]
      exact txPollRecover_quiet last n hcount
    · have hdue : ¬ (txDue (count, complete) ∧ complete = last) := fun h => hvalue h.2
      rw [txPollRecover, if_neg hcount, if_neg hdue]
      exact if_pos hvalue

/-! ### The link -/

/-- A trace client is connected. -/
def linkDue (poll : Bool × UInt32) : Bool := poll.1

def LinkPoll.row (last : UInt32) (n : ℕ) : LinkPoll := ⟨last, UInt32.ofNat (n % 3)⟩

/-- Every third quiet poll of a row restarts the MAC. -/
def linkReaction (n : ℕ) : Recovery := if 0 < n ∧ n % 3 = 0 then .fullReinit else .nothing

theorem linkReaction_eq_fullReinit {n : ℕ} :
    linkReaction n = .fullReinit ↔ 0 < n ∧ n % 3 = 0 := by
  rw [linkReaction]
  split
  · next hthird => exact ⟨fun _ => hthird, fun _ => rfl⟩
  · next hother => exact ⟨fun h => Recovery.noConfusion h, fun h => absurd h hother⟩

theorem linkPollRecover_quiet (last : UInt32) (n : ℕ) :
    linkPollRecover (LinkPoll.row last n) true last =
      (LinkPoll.row last (n + 1), linkReaction (n + 1)) := by
  have hsame : ¬ last ≠ (LinkPoll.row last n).lastIsrCalls := not_not.mpr rfl
  rw [linkPollRecover, if_neg (not_not.mpr rfl), if_neg hsame, LinkPoll.row, LinkPoll.row,
    linkReaction]
  obtain h | h | h : n % 3 = 0 ∨ n % 3 = 1 ∨ n % 3 = 2 := by omega
  · have h₁ : (n + 1) % 3 = 1 := by omega
    rw [h, h₁]
    rfl
  · have h₁ : (n + 1) % 3 = 2 := by omega
    rw [h, h₁]
    rfl
  · have h₁ : (n + 1) % 3 = 0 := by omega
    have hthird : 0 < n + 1 ∧ 0 = 0 := ⟨Nat.succ_pos n, rfl⟩
    rw [h, h₁, if_pos hthird]
    rfl

theorem linkPollRecover_row (last : UInt32) (n : ℕ) (poll : Bool × UInt32) :
    linkPollRecover (LinkPoll.row last n) poll.1 poll.2 =
      (LinkPoll.row poll.2 (Watchdog.after linkDue Prod.snd last n poll),
        linkReaction (Watchdog.after linkDue Prod.snd last n poll)) := by
  obtain ⟨active, calls⟩ := poll
  rw [Watchdog.after]
  cases active with
  | false =>
    have hdue : ¬ (linkDue (false, calls) ∧ calls = last) := fun h => Bool.false_ne_true h.1
    rw [linkPollRecover, if_pos Bool.false_ne_true, if_neg hdue]
    rfl
  | true =>
    by_cases hvalue : calls = last
    · have hdue : linkDue (true, calls) ∧ calls = last := ⟨rfl, hvalue⟩
      rw [if_pos hdue, hvalue]
      exact linkPollRecover_quiet last n
    · have hdue : ¬ (linkDue (true, calls) ∧ calls = last) := fun h => hvalue h.2
      rw [linkPollRecover, if_neg (not_not.mpr rfl), if_neg hdue]
      exact if_pos hvalue

/-! ### Runs -/

namespace Link

/-- What the watchdog of the transmitter sees in a run, poll by poll. -/
def txPolled (l : Link) : List Op → List (ℕ × UInt32)
  | [] => []
  | op :: ops =>
    match op with
    | .pollTx _ => (l.tx.count, l.tx.complete) :: txPolled (l.step op) ops
    | _ => txPolled (l.step op) ops

/-- What the watchdog of the link sees in a run, poll by poll. -/
def linkPolled (l : Link) : List Op → List (Bool × UInt32)
  | [] => []
  | op :: ops =>
    match op with
    | .pollLink _ => (l.traceActive, l.isrCalls) :: linkPolled (l.step op) ops
    | _ => linkPolled (l.step op) ops

def txWatchdog (p : TxPoll) (poll : ℕ × UInt32) : TxPoll × Recovery :=
  txPollRecover p poll.1 poll.2

def linkWatchdog (p : LinkPoll) (poll : Bool × UInt32) : LinkPoll × Recovery :=
  linkPollRecover p poll.1 poll.2

/-- What the watchdogs have and have done. -/
structure SameWatchdogs (l l' : Link) : Prop where
  txPoll : l'.txPoll = l.txPoll
  linkPoll : l'.linkPoll = l.linkPoll
  restarts : l'.restarts = l.restarts

theorem sameWatchdogs_irqHandler (l : Link) (isr : UInt32) (answers : ℕ → Option (List UInt8)) :
    SameWatchdogs l (l.irqHandler isr answers) := by
  rw [irqHandler]
  dsimp only
  split <;> split <;> exact ⟨rfl, rfl, rfl⟩

theorem sameWatchdogs_pollRx (l : Link) : SameWatchdogs l l.pollRx := by
  rw [pollRx]
  dsimp only
  split <;> exact ⟨rfl, rfl, rfl⟩

theorem sameWatchdogs_transmit (l : Link) : SameWatchdogs l l.transmit := by
  rw [transmit]
  split <;> exact ⟨rfl, rfl, rfl⟩

theorem sameWatchdogs_receive (l : Link) (pad : UInt8 × UInt8) (frame : List UInt8)
    (flags : UInt32) : SameWatchdogs l (l.receive pad frame flags) := by
  rw [receive]
  dsimp only
  split <;> exact ⟨rfl, rfl, rfl⟩

/-- What a poll of the transmitter's watchdog does to the watchdogs. -/
theorem pollTx_watchdogs (l : Link) (answers : ℕ → Option (List UInt8)) :
    (l.pollTx answers).txPoll = (txWatchdog l.txPoll (l.tx.count, l.tx.complete)).1 ∧
      (l.pollTx answers).linkPoll = l.linkPoll ∧
      (l.pollTx answers).restarts = l.restarts +
        if (txWatchdog l.txPoll (l.tx.count, l.tx.complete)).2 = .fullReinit then 1 else 0 := by
  rw [pollTx, txWatchdog]
  dsimp only
  split
  · next h => exact ⟨rfl, rfl, by rw [h]; rfl⟩
  · next h => exact ⟨rfl, rfl, by rw [h]; rfl⟩
  · next h => exact ⟨rfl, rfl, by rw [h]; rfl⟩

theorem linkWatchdog_ne (p : LinkPoll) (poll : Bool × UInt32) :
    (linkWatchdog p poll).2 ≠ .stallRecover := by
  rw [linkWatchdog, linkPollRecover]
  dsimp only
  split
  · exact Recovery.noConfusion
  · split
    · exact Recovery.noConfusion
    · split <;> exact Recovery.noConfusion

/-- What a poll of the link's watchdog does to the watchdogs. -/
theorem pollLink_watchdogs (l : Link) (answers : ℕ → Option (List UInt8)) :
    (l.pollLink answers).txPoll = l.txPoll ∧
      (l.pollLink answers).linkPoll = (linkWatchdog l.linkPoll (l.traceActive, l.isrCalls)).1 ∧
      (l.pollLink answers).restarts = l.restarts +
        if (linkWatchdog l.linkPoll (l.traceActive, l.isrCalls)).2 = .fullReinit then 1
        else 0 := by
  have hne := linkWatchdog_ne l.linkPoll (l.traceActive, l.isrCalls)
  rw [pollLink]
  rw [linkWatchdog] at hne ⊢
  dsimp only at hne ⊢
  split
  · next h => exact ⟨rfl, rfl, by rw [h]; rfl⟩
  · next h =>
    have hreinit : (linkPollRecover l.linkPoll l.traceActive l.isrCalls).2 = .fullReinit := by
      cases hrecovery : (linkPollRecover l.linkPoll l.traceActive l.isrCalls).2 with
      | nothing => exact absurd hrecovery h
      | stallRecover => exact absurd hrecovery hne
      | fullReinit => rfl
    exact ⟨rfl, rfl, by rw [hreinit]; rfl⟩

/-- A restart is one that a watchdog asked for. -/
theorem restarts_polls (ops : List Op) (l : Link) : (l.run ops).restarts = l.restarts +
    (Watchdog.polls txWatchdog l.txPoll (l.txPolled ops)).count .fullReinit +
    (Watchdog.polls linkWatchdog l.linkPoll (l.linkPolled ops)).count .fullReinit := by
  induction ops generalizing l with
  | nil => rfl
  | cons op ops ih =>
    have hsame : ∀ {l' : Link}, SameWatchdogs l l' → (l'.run ops).restarts = l.restarts +
        (Watchdog.polls txWatchdog l.txPoll (l'.txPolled ops)).count .fullReinit +
        (Watchdog.polls linkWatchdog l.linkPoll (l'.linkPolled ops)).count .fullReinit := by
      rintro l' ⟨htx, hlink, hrestarts⟩
      rw [ih l', htx, hlink, hrestarts]
    cases op with
    | send r => exact hsame ⟨rfl, rfl, rfl⟩
    | deferredProcessing => exact hsame ⟨rfl, rfl, rfl⟩
    | irq isr answers => exact hsame (sameWatchdogs_irqHandler l isr answers)
    | setTraceActive active => exact hsame ⟨rfl, rfl, rfl⟩
    | pollTx answers =>
      obtain ⟨htx, hlink, hrestarts⟩ := l.pollTx_watchdogs answers
      have hrun := ih (l.pollTx answers)
      rw [htx, hlink, hrestarts] at hrun
      have hpolled : l.txPolled (.pollTx answers :: ops) =
          (l.tx.count, l.tx.complete) :: (l.pollTx answers).txPolled ops := rfl
      change ((l.pollTx answers).run ops).restarts = l.restarts + _ +
        (Watchdog.polls linkWatchdog l.linkPoll ((l.pollTx answers).linkPolled ops)).count _
      rw [hrun, hpolled, Watchdog.polls, List.count_cons]
      simp only [beq_iff_eq]
      omega
    | pollRx => exact hsame (sameWatchdogs_pollRx l)
    | pollLink answers =>
      obtain ⟨htx, hlink, hrestarts⟩ := l.pollLink_watchdogs answers
      have hrun := ih (l.pollLink answers)
      rw [htx, hlink, hrestarts] at hrun
      have hpolled : l.linkPolled (.pollLink answers :: ops) =
          (l.traceActive, l.isrCalls) :: (l.pollLink answers).linkPolled ops := rfl
      change ((l.pollLink answers).run ops).restarts = l.restarts +
        (Watchdog.polls txWatchdog l.txPoll ((l.pollLink answers).txPolled ops)).count _ + _
      rw [hrun, hpolled, Watchdog.polls, List.count_cons]
      simp only [beq_iff_eq]
      omega
    | transmit => exact hsame (sameWatchdogs_transmit l)
    | receive pad frame flags => exact hsame (sameWatchdogs_receive l pad frame flags)

/-- A run restarts the MAC at the fourth quiet poll of a row of the transmitter's watchdog and at
every third one after that, and at every third quiet poll of a row of the link's. -/
theorem restarts_run {answers : ℕ → Option (List UInt8)} {l : Link}
    (hl : start answers = some l) (ops : List Op) : (l.run ops).restarts =
    ((Watchdog.quiet txDue Prod.snd 0 0 (l.txPolled ops)).countP
        fun n => 1 < n ∧ n % 3 = 1) +
      (Watchdog.quiet linkDue Prod.snd 0 0 (l.linkPolled ops)).countP
        fun n => 0 < n ∧ n % 3 = 0 := by
  obtain ⟨rx, -, rfl⟩ := Option.map_eq_some_iff.mp hl
  have htx := Watchdog.polls_eq txDue Prod.snd txWatchdog TxPoll.row txReaction
    txPollRecover_row 0 0 ((enabled rx).txPolled ops)
  have hlink := Watchdog.polls_eq linkDue Prod.snd linkWatchdog LinkPoll.row linkReaction
    linkPollRecover_row 0 0
    ((enabled rx).linkPolled ops)
  have hrestarts := restarts_polls ops (enabled rx)
  change _ = 0 + (Watchdog.polls txWatchdog (TxPoll.row 0 0) _).count _ +
    (Watchdog.polls linkWatchdog (LinkPoll.row 0 0) _).count _ at hrestarts
  rw [hrestarts, htx, hlink, Nat.zero_add, List.count_eq_countP, List.count_eq_countP,
    List.countP_map, List.countP_map]
  congr 1
  · apply List.countP_congr
    intro n _
    rw [Function.comp_apply, beq_iff_eq, txReaction_eq_fullReinit, decide_eq_true_iff]
  · apply List.countP_congr
    intro n _
    rw [Function.comp_apply, beq_iff_eq, linkReaction_eq_fullReinit, decide_eq_true_iff]

theorem restarts_run_quiet : ∃ l, start (fun _ => some []) = some l ∧
    (l.run [.setTraceActive true, .pollLink fun _ => none, .pollLink fun _ => none,
      .pollLink fun _ => none]).restarts = 1 := by
  obtain ⟨l, hl⟩ := exists_start (fun _ => some []) fun _ => rfl
  refine ⟨l, hl, (restarts_run hl _).trans ?_⟩
  obtain ⟨rx, -, rfl⟩ := Option.map_eq_some_iff.mp hl
  have htx : (enabled rx).txPolled [.setTraceActive true, .pollLink fun _ => none,
      .pollLink fun _ => none, .pollLink fun _ => none] = [] := rfl
  have hlink : (enabled rx).linkPolled [.setTraceActive true, .pollLink fun _ => none,
      .pollLink fun _ => none, .pollLink fun _ => none] = [(true, 0), (true, 0), (true, 0)] := rfl
  rw [htx, hlink]
  decide

end Link

end Gem2
