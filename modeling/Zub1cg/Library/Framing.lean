import Mathlib.Data.List.Basic
import Mathlib.Tactic.Cases

/-!
# Framed services fed in fragments

A framed service collects items until they make up a frame, answers the frame and starts
again. `Service.step` is the service fed one item at a time. Over a network the items
arrive in fragments: `Service.feed` is one call that runs through a fragment up to the
first frame, and `pump` offers a fragment again and again, each time advanced by the
count the last call reported. A call that refuses a frame reports a single item, whatever
it went through.

## Main results

- `pump_simulation` — feeders that simulate each other are pumped alike
- `Service.pump_clean`, `Service.pump_unclean` — pumping one fragment
- `Service.pumpAll_pushed_iff`, `Service.pumpAll_exact_of_fragmentAt` — pumping a fragmented
  stream is the same as feeding it item by item exactly when each refusal is decided by the
  first item of a fragment
-/

namespace Framing

variable {β φ γ ρ σ τ : Type*}

/-- What the items held so far amount to. -/
inductive Verdict (φ : Type*) where
  | more
  | frame (f : φ)
  | invalid

/-- A way to recognise frames, and the answer to a frame in a given state of the world;
`none` refuses the frame. -/
structure Service (β φ γ ρ : Type*) where
  judge : List β → Verdict φ
  answer : φ → γ → Option ρ × γ

/-- The items of the unfinished frame, and the world the service acts on. -/
structure Session (β γ : Type*) where
  pending : List β
  world : γ

/-- What one item brings about. -/
inductive Outcome (φ ρ : Type*) where
  | waiting
  | answered (f : φ) (reply : ρ)
  | refused (f : Option φ)

namespace Outcome

/-- The frame this item completed. -/
def frame? : Outcome φ ρ → Option φ
  | waiting => none
  | answered f _ => some f
  | refused f => f

/-- The reply this item called for. -/
def reply? : Outcome φ ρ → Option ρ
  | answered _ r => some r
  | _ => none

/-- The item ended in a refusal. -/
def isRefused : Outcome φ ρ → Bool
  | refused _ => true
  | _ => false

end Outcome

/-- What one call shows to the pump and to the network: the items it went through, the
count it reports, the frame it decoded and the reply it made. -/
structure Call (β φ ρ : Type*) where
  pushed : List β
  consumed : ℕ
  frame : Option φ
  reply : Option ρ

/-- Offer the rest of a fragment until it is used up. A call that reports nothing consumed
still costs one item. -/
def pump (feed : List β → σ → Call β φ ρ × σ) : ℕ → List β → σ → List (Call β φ ρ) × σ
  | 0, _, x => ([], x)
  | _ + 1, [], x => ([], x)
  | fuel + 1, b :: data, x =>
    let c := (feed (b :: data) x).1
    let rest := pump feed fuel ((b :: data).drop (max c.consumed 1)) (feed (b :: data) x).2
    (c :: rest.1, rest.2)

/-- Pump the fragments one after the other. -/
def pumpAll (feed : List β → σ → Call β φ ρ × σ) : List (List β) → σ → List (Call β φ ρ) × σ
  | [], x => ([], x)
  | data :: rest, x =>
    let here := pump feed data.length data x
    let later := pumpAll feed rest here.2
    (here.1 ++ later.1, later.2)

/-- The items a list of calls went through. -/
def pushed (calls : List (Call β φ ρ)) : List β := calls.flatMap Call.pushed

/-- The frames a list of calls decoded. -/
def frames (calls : List (Call β φ ρ)) : List φ := calls.filterMap Call.frame

/-- The replies a list of calls made. -/
def replies (calls : List (Call β φ ρ)) : List ρ := calls.filterMap Call.reply

@[simp] theorem pushed_append (cs ds : List (Call β φ ρ)) :
    pushed (cs ++ ds) = pushed cs ++ pushed ds := List.flatMap_append

@[simp] theorem frames_append (cs ds : List (Call β φ ρ)) :
    frames (cs ++ ds) = frames cs ++ frames ds := List.filterMap_append

@[simp] theorem replies_append (cs ds : List (Call β φ ρ)) :
    replies (cs ++ ds) = replies cs ++ replies ds := List.filterMap_append

/-! ### Simulation -/

/-- Feeders that make the same calls from related states, on at most `n` items at a time,
are pumped alike. -/
theorem pump_simulation {f : List β → σ → Call β φ ρ × σ} {g : List β → τ → Call β φ ρ × τ}
    {R : σ → τ → Prop}
    (h : ∀ data x y, R x y → (f data x).1 = (g data y).1 ∧ R (f data x).2 (g data y).2)
    (fuel : ℕ) (data : List β) {x : σ} {y : τ} (hxy : R x y) :
    (pump f fuel data x).1 = (pump g fuel data y).1 ∧
      R (pump f fuel data x).2 (pump g fuel data y).2 := by
  induction fuel generalizing data x y with
  | zero => exact ⟨rfl, hxy⟩
  | succ fuel ih =>
    cases data with
    | nil => exact ⟨rfl, hxy⟩
    | cons b data =>
      obtain ⟨hcall, hnext⟩ := h (b :: data) x y hxy
      obtain ⟨hcalls, hlast⟩ := ih ((b :: data).drop (max (g (b :: data) y).1.consumed 1)) hnext
      simp only [pump, hcall]
      exact ⟨by rw [hcalls], hlast⟩

theorem pumpAll_simulation {f : List β → σ → Call β φ ρ × σ}
    {g : List β → τ → Call β φ ρ × τ} {R : σ → τ → Prop}
    (h : ∀ data x y, R x y → (f data x).1 = (g data y).1 ∧ R (f data x).2 (g data y).2)
    (fragments : List (List β)) {x : σ} {y : τ} (hxy : R x y) :
    (pumpAll f fragments x).1 = (pumpAll g fragments y).1 ∧
      R (pumpAll f fragments x).2 (pumpAll g fragments y).2 := by
  induction fragments generalizing x y with
  | nil => exact ⟨rfl, hxy⟩
  | cons data rest ih =>
    obtain ⟨hcalls, hnext⟩ := pump_simulation h data.length data hxy
    obtain ⟨hlater, hlast⟩ := ih hnext
    exact ⟨by simp only [pumpAll, hcalls, hlater], hlast⟩

theorem pumpAll_append (f : List β → σ → Call β φ ρ × σ) (as bs : List (List β)) (x : σ) :
    pumpAll f (as ++ bs) x =
      ((pumpAll f as x).1 ++ (pumpAll f bs (pumpAll f as x).2).1,
        (pumpAll f bs (pumpAll f as x).2).2) := by
  induction as generalizing x with
  | nil => rfl
  | cons a as ih =>
    simp only [List.cons_append, pumpAll, ih, List.append_assoc]

namespace Service

variable (s : Service β φ γ ρ)

/-- Answer a complete frame. -/
def conclude (f : φ) (world : γ) : Outcome φ ρ × Session β γ :=
  match s.answer f world with
  | (some r, w) => (.answered f r, ⟨[], w⟩)
  | (none, w) => (.refused (some f), ⟨[], w⟩)

/-- One item. -/
def step (b : β) (x : Session β γ) : Outcome φ ρ × Session β γ :=
  match s.judge (x.pending ++ [b]) with
  | .more => (.waiting, ⟨x.pending ++ [b], x.world⟩)
  | .invalid => (.refused none, ⟨[], x.world⟩)
  | .frame f => s.conclude f x.world

/-- The session after a string of items. -/
def after (data : List β) (x : Session β γ) : Session β γ :=
  data.foldl (fun y b => (s.step b y).2) x

/-- What each item of a string brings about. -/
def outcomes : List β → Session β γ → List (Outcome φ ρ)
  | [], _ => []
  | b :: data, x => (s.step b x).1 :: outcomes data (s.step b x).2

/-- Run through a string up to the first item that does something: the items gone
through, what the last one brought about, and the session reached. -/
def firstEvent : List β → Session β γ → List β × Outcome φ ρ × Session β γ
  | [], x => ([], .waiting, x)
  | b :: data, x =>
    match s.step b x with
    | (.waiting, y) =>
      let (went, o, z) := firstEvent data y
      (b :: went, o, z)
    | (o, y) => ([b], o, y)

/-- One call. A refusal is reported as one item consumed. -/
def feed (data : List β) (x : Session β γ) : Call β φ ρ × Session β γ :=
  let (went, o, y) := s.firstEvent data x
  (⟨went, if o.isRefused then 1 else went.length, o.frame?, o.reply?⟩, y)

/-! ### One item, one call -/

@[simp] theorem conclude_pending (f : φ) (w : γ) : (s.conclude f w).2.pending = [] := by
  rw [conclude]
  split <;> rfl

@[simp] theorem conclude_frame? (f : φ) (w : γ) : (s.conclude f w).1.frame? = some f := by
  rw [conclude]
  split <;> rfl

theorem conclude_answered {f : φ} {r : ρ} {w w' : γ} (h : s.answer f w = (some r, w')) :
    s.conclude f w = (.answered f r, ⟨[], w'⟩) := by
  simp only [conclude, h]

theorem conclude_refused {f : φ} {w w' : γ} (h : s.answer f w = (none, w')) :
    s.conclude f w = (.refused (some f), ⟨[], w'⟩) := by
  simp only [conclude, h]

theorem step_more {b : β} {x : Session β γ} (h : s.judge (x.pending ++ [b]) = .more) :
    s.step b x = (.waiting, ⟨x.pending ++ [b], x.world⟩) := by
  rw [step, h]

theorem step_invalid {b : β} {x : Session β γ} (h : s.judge (x.pending ++ [b]) = .invalid) :
    s.step b x = (.refused none, ⟨[], x.world⟩) := by
  rw [step, h]

theorem step_answered {b : β} {x : Session β γ} {f : φ} {r : ρ} {w : γ}
    (h : s.judge (x.pending ++ [b]) = .frame f) (ha : s.answer f x.world = (some r, w)) :
    s.step b x = (.answered f r, ⟨[], w⟩) := by
  simp only [step, h, s.conclude_answered ha]

theorem step_refused {b : β} {x : Session β γ} {f : φ} {w : γ}
    (h : s.judge (x.pending ++ [b]) = .frame f) (ha : s.answer f x.world = (none, w)) :
    s.step b x = (.refused (some f), ⟨[], w⟩) := by
  simp only [step, h, s.conclude_refused ha]

/-- An item that does something leaves no unfinished frame. -/
theorem step_pending {b : β} {x : Session β γ} (h : (s.step b x).1 ≠ .waiting) :
    (s.step b x).2.pending = [] := by
  revert h
  rw [step]
  split
  · intro h
    exact absurd rfl h
  · intro _
    rfl
  · exact fun _ => s.conclude_pending _ _

/-- Where a single item is never a whole frame, the first item of a frame only waits. -/
theorem step_waiting {b : β} {x : Session β γ} (hone : s.judge [b] = .more)
    (hx : x.pending = []) : (s.step b x).1 = .waiting := by
  rw [step, hx, List.nil_append, hone]

@[simp] theorem after_nil (x : Session β γ) : s.after [] x = x := rfl

@[simp] theorem after_cons (b : β) (data : List β) (x : Session β γ) :
    s.after (b :: data) x = s.after data (s.step b x).2 := rfl

theorem after_append (as bs : List β) (x : Session β γ) :
    s.after (as ++ bs) x = s.after bs (s.after as x) := List.foldl_append

@[simp] theorem length_outcomes (data : List β) (x : Session β γ) :
    (s.outcomes data x).length = data.length := by
  induction data generalizing x with
  | nil => rfl
  | cons b data ih => rw [outcomes, List.length_cons, ih, List.length_cons]

theorem outcomes_append (as bs : List β) (x : Session β γ) :
    s.outcomes (as ++ bs) x = s.outcomes as x ++ s.outcomes bs (s.after as x) := by
  induction as generalizing x with
  | nil => rfl
  | cons a as ih => rw [List.cons_append, outcomes, ih, outcomes, List.cons_append, after_cons]

/-- No item of the string does anything. -/
def Quiet (data : List β) (x : Session β γ) : Prop := ∀ o ∈ s.outcomes data x, o = .waiting

/-- A call goes through the whole string if that is quiet, and otherwise up to the first
item that does something. -/
theorem firstEvent_cases (data : List β) (x : Session β γ) :
    (s.Quiet data x ∧ s.firstEvent data x = (data, .waiting, s.after data x)) ∨
    ∃ pre b post, data = pre ++ b :: post ∧ s.Quiet pre x ∧
      (s.step b (s.after pre x)).1 ≠ .waiting ∧
      s.firstEvent data x = (pre ++ [b], s.step b (s.after pre x)) := by
  induction data generalizing x with
  | nil => exact .inl ⟨by simp [Quiet, outcomes], rfl⟩
  | cons b data ih =>
    by_cases hb : (s.step b x).1 = .waiting
    · have hstep : s.step b x = (.waiting, (s.step b x).2) := Prod.ext hb rfl
      rcases ih (s.step b x).2 with ⟨hquiet, hev⟩ | ⟨pre, c, post, hdata, hquiet, hc, hev⟩
      · refine .inl ⟨?_, ?_⟩
        · simpa [Quiet, outcomes, hb] using hquiet
        · rw [firstEvent, hstep]
          simp only [hev, after_cons]
      · refine .inr ⟨b :: pre, c, post, by rw [hdata]; rfl, ?_, hc, ?_⟩
        · simpa [Quiet, outcomes, hb] using hquiet
        · rw [firstEvent, hstep]
          simp only [hev, after_cons, List.cons_append]
    · refine .inr ⟨[], b, data, rfl, by simp [Quiet, outcomes], hb, ?_⟩
      rw [firstEvent]
      split
      · next heq => rw [heq] at hb; exact absurd rfl hb
      · next o y _ heq => rw [after_nil, heq]; rfl

/-! ### Pumping one fragment -/

/-- The frames decoded, item by item. -/
def framesOf (data : List β) (x : Session β γ) : List φ :=
  (s.outcomes data x).filterMap Outcome.frame?

/-- The replies made, item by item. -/
def repliesOf (data : List β) (x : Session β γ) : List ρ :=
  (s.outcomes data x).filterMap Outcome.reply?

theorem framesOf_append (as bs : List β) (x : Session β γ) :
    s.framesOf (as ++ bs) x = s.framesOf as x ++ s.framesOf bs (s.after as x) := by
  rw [framesOf, outcomes_append, List.filterMap_append]; rfl

theorem repliesOf_append (as bs : List β) (x : Session β γ) :
    s.repliesOf (as ++ bs) x = s.repliesOf as x ++ s.repliesOf bs (s.after as x) := by
  rw [repliesOf, outcomes_append, List.filterMap_append]; rfl

theorem framesOf_quiet {data : List β} {x : Session β γ} (h : s.Quiet data x) :
    s.framesOf data x = [] := by
  rw [framesOf, List.filterMap_eq_nil_iff]
  intro o ho
  rw [h o ho]
  rfl

theorem repliesOf_quiet {data : List β} {x : Session β γ} (h : s.Quiet data x) :
    s.repliesOf data x = [] := by
  rw [repliesOf, List.filterMap_eq_nil_iff]
  intro o ho
  rw [h o ho]
  rfl

/-- The calls made on a string show what feeding it item by item does. -/
structure Exact (result : List (Call β φ ρ) × Session β γ) (data : List β) (x : Session β γ) :
    Prop where
  pushed : pushed result.1 = data
  frames : frames result.1 = s.framesOf data x
  replies : replies result.1 = s.repliesOf data x
  session : result.2 = s.after data x

theorem Exact.append {r r' : List (Call β φ ρ) × Session β γ} {as bs : List β} {x : Session β γ}
    (h : s.Exact r as x) (h' : s.Exact r' bs (s.after as x)) :
    s.Exact (r.1 ++ r'.1, r'.2) (as ++ bs) x where
  pushed := by rw [pushed_append, h.pushed, h'.pushed]
  frames := by rw [frames_append, h.frames, h'.frames, framesOf_append]
  replies := by rw [replies_append, h.replies, h'.replies, repliesOf_append]
  session := by rw [h'.session, after_append]

/-- Only the first item of the string may end in a refusal. -/
def Clean (data : List β) (x : Session β γ) : Prop :=
  ∀ o ∈ (s.outcomes data x).tail, o.isRefused = false

theorem clean_append {pre post : List β} {b : β} {x : Session β γ}
    (h : s.Clean (pre ++ b :: post) x) :
    s.Clean post (s.step b (s.after pre x)).2 ∧
      ((s.step b (s.after pre x)).1.isRefused = true → pre = []) := by
  rw [Clean, outcomes_append, outcomes] at h
  cases pre with
  | nil => exact ⟨fun o ho => h o (List.mem_of_mem_tail ho), fun _ => rfl⟩
  | cons a pre =>
    rw [outcomes, List.cons_append, List.tail_cons] at h
    refine ⟨fun o ho => h o ?_, fun hb => ?_⟩
    · exact List.mem_append_right _ (List.mem_cons_of_mem _ (List.mem_of_mem_tail ho))
    · have := h _ (List.mem_append_right _ (List.mem_cons_self ..))
      rw [hb] at this
      exact absurd this (by decide)

/-- Going through a string up to the item that does something, in one call. -/
theorem exact_call {pre : List β} {b : β} {x : Session β γ} (hquiet : s.Quiet pre x) (n : ℕ) :
    s.Exact ([⟨pre ++ [b], n, (s.step b (s.after pre x)).1.frame?,
        (s.step b (s.after pre x)).1.reply?⟩], (s.step b (s.after pre x)).2) (pre ++ [b]) x where
  pushed := by simp [Framing.pushed]
  frames := by
    rw [framesOf_append, framesOf_quiet s hquiet]
    cases h : (s.step b (s.after pre x)).1.frame? <;> simp [Framing.frames, framesOf, outcomes, h]
  replies := by
    rw [repliesOf_append, repliesOf_quiet s hquiet]
    cases h : (s.step b (s.after pre x)).1.reply? <;>
      simp [Framing.replies, repliesOf, outcomes, h]
  session := by rw [after_append]; rfl

/-- A call that ends in anything but a late refusal moves the pump past what it went
through. -/
theorem drop_consumed {pre post : List β} {b : β} {o : Outcome φ ρ}
    (h : o.isRefused = true → pre = []) :
    (pre ++ b :: post).drop (max (if o.isRefused then 1 else (pre ++ [b]).length) 1) = post := by
  have hcount : max (if o.isRefused then 1 else (pre ++ [b]).length) 1 = (pre ++ [b]).length := by
    split
    · next hr => rw [h hr]; rfl
    · simp
  rw [hcount, show pre ++ b :: post = (pre ++ [b]) ++ post by simp, List.drop_left]

/-- A fragment in which only the first item may end in a refusal is pumped as if it were
fed item by item. -/
theorem pump_clean {fuel : ℕ} {data : List β} {x : Session β γ} (hfuel : data.length ≤ fuel)
    (h : s.Clean data x) : s.Exact (pump s.feed fuel data x) data x := by
  induction fuel generalizing data x with
  | zero =>
    obtain rfl : data = [] := List.length_eq_zero_iff.mp (by omega)
    exact ⟨rfl, rfl, rfl, rfl⟩
  | succ fuel ih =>
    cases data with
    | nil => exact ⟨rfl, rfl, rfl, rfl⟩
    | cons a data =>
      rcases s.firstEvent_cases (a :: data) x with
        ⟨hquiet, hev⟩ | ⟨pre, b, post, hdata, hquiet, hb, hev⟩
      · have hfeed : s.feed (a :: data) x =
            (⟨a :: data, (a :: data).length, none, none⟩, s.after (a :: data) x) := by
          simp only [feed, hev]
          rfl
        have hrest : (a :: data).drop (max (a :: data).length 1) = [] := by simp
        have hnil : pump s.feed fuel ([] : List β) (s.after (a :: data) x) =
            ([], s.after (a :: data) x) := by cases fuel <;> rfl
        simp only [pump, hfeed, hrest, hnil]
        exact ⟨by simp [Framing.pushed], by rw [framesOf_quiet s hquiet]; rfl,
          by rw [repliesOf_quiet s hquiet]; rfl, rfl⟩
      · obtain ⟨hpost, hfirst⟩ := s.clean_append (hdata ▸ h)
        have hlen : post.length ≤ fuel := by
          have := congrArg List.length hdata
          simp only [List.length_cons, List.length_append] at this hfuel
          omega
        simp only [pump, feed, hev]
        rw [hdata, drop_consumed hfirst, show pre ++ b :: post = (pre ++ [b]) ++ post by simp]
        refine (s.exact_call hquiet _).append s ?_
        rw [after_append]
        exact ih hlen hpost

/-- Every pump goes through at least as many items as the fragment has, since a call never
reports more than it went through. -/
theorem length_le_pushed {fuel : ℕ} {data : List β} {x : Session β γ}
    (hfuel : data.length ≤ fuel) :
    data.length ≤ (pushed (pump s.feed fuel data x).1).length := by
  induction fuel generalizing data x with
  | zero => omega
  | succ fuel ih =>
    cases data with
    | nil => simp
    | cons a data =>
      have hcount : max (s.feed (a :: data) x).1.consumed 1 ≤
          (s.feed (a :: data) x).1.pushed.length := by
        rcases s.firstEvent_cases (a :: data) x with ⟨-, hev⟩ | ⟨pre, b, post, -, -, -, hev⟩ <;>
          simp only [feed, hev] <;> split <;> simp
      have hrest : ((a :: data).drop (max (s.feed (a :: data) x).1.consumed 1)).length ≤ fuel := by
        rw [List.length_drop, List.length_cons]
        rw [List.length_cons] at hfuel
        omega
      have := ih (x := (s.feed (a :: data) x).2) hrest
      rw [List.length_drop] at this
      simp only [pump, Framing.pushed, List.flatMap_cons, List.length_append] at this ⊢
      omega

/-- A refusal decided by a later item of the fragment makes the pump go through items
twice. -/
theorem pump_unclean {fuel : ℕ} {data : List β} {x : Session β γ}
    (hone : ∀ b, s.judge [b] = .more) (hfuel : data.length ≤ fuel) (h : ¬ s.Clean data x) :
    data.length < (pushed (pump s.feed fuel data x).1).length := by
  induction fuel generalizing data x with
  | zero =>
    obtain rfl : data = [] := List.length_eq_zero_iff.mp (by omega)
    exact absurd (by simp [Clean, outcomes]) h
  | succ fuel ih =>
    cases data with
    | nil => exact absurd (by simp [Clean, outcomes]) h
    | cons a data =>
      obtain ⟨o, ho, hrefused⟩ : ∃ o ∈ (s.outcomes (a :: data) x).tail, o.isRefused = true := by
        simpa [Clean] using h
      rcases s.firstEvent_cases (a :: data) x with
        ⟨hquiet, -⟩ | ⟨pre, b, post, hdata, hquiet, hb, hev⟩
      · rw [hquiet o (List.mem_of_mem_tail ho)] at hrefused
        exact absurd hrefused Bool.false_ne_true
      have hlen : (a :: data).length = pre.length + 1 + post.length := by
        rw [hdata]; simp; omega
      have hpending := s.step_pending hb
      -- a refusal further on is not decided by the first item after the event
      have hlater : o ∈ s.outcomes post (s.step b (s.after pre x)).2 →
          ¬ s.Clean post (s.step b (s.after pre x)).2 := by
        intro hmem hclean
        cases post with
        | nil => simp [outcomes] at hmem
        | cons c post =>
          rw [outcomes, List.mem_cons] at hmem
          rcases hmem with rfl | hmem
          · rw [s.step_waiting (hone c) hpending] at hrefused
            exact absurd hrefused Bool.false_ne_true
          · rw [hclean o (by rwa [outcomes])] at hrefused
            exact absurd hrefused Bool.false_ne_true
      have hsplit : s.outcomes (a :: data) x = s.outcomes pre x ++
          (s.step b (s.after pre x)).1 :: s.outcomes post (s.step b (s.after pre x)).2 := by
        rw [hdata, outcomes_append, outcomes]
      by_cases htwice : (s.step b (s.after pre x)).1.isRefused = true ∧ pre ≠ []
      · have hshort : ((a :: data).drop 1).length ≤ fuel := by
          rw [List.length_drop]; omega
        have hrest := s.length_le_pushed (x := (s.step b (s.after pre x)).2) hshort
        have hpos := List.length_pos_iff.mpr htwice.2
        simp only [pump, feed, hev, htwice.1, if_true, Nat.max_self, Framing.pushed,
          List.flatMap_cons, List.length_append, List.length_singleton] at hrest ⊢
        rw [List.length_drop] at hrest
        omega
      · have hmem : o ∈ s.outcomes post (s.step b (s.after pre x)).2 := by
          rw [hsplit] at ho
          cases pre with
          | nil => exact ho
          | cons p pre =>
            rw [outcomes, List.cons_append, List.tail_cons, List.mem_append,
              List.mem_cons] at ho
            rcases ho with ho | rfl | ho
            · rw [hquiet o (by rw [outcomes]; exact List.mem_cons_of_mem _ ho)] at hrefused
              exact absurd hrefused Bool.false_ne_true
            · exact absurd ⟨hrefused, List.cons_ne_nil _ _⟩ htwice
            · exact ho
        have hfirst : (s.step b (s.after pre x)).1.isRefused = true → pre = [] :=
          fun hr => by_contra fun hne => htwice ⟨hr, hne⟩
        have hmore := ih (by omega) (hlater hmem)
        rw [hlen]
        simp only [pump, feed, hev]
        rw [hdata, drop_consumed hfirst]
        simp only [Framing.pushed, List.flatMap_cons, List.length_append,
          List.length_singleton] at hmore ⊢
        omega

/-! ### Pumping a fragmented stream -/

/-- In every fragment only the first item may end in a refusal. -/
def CleanAll : List (List β) → Session β γ → Prop
  | [], _ => True
  | data :: rest, x => s.Clean data x ∧ CleanAll rest (s.after data x)

theorem pumpAll_exact {fragments : List (List β)} {x : Session β γ}
    (h : s.CleanAll fragments x) : s.Exact (pumpAll s.feed fragments x) fragments.flatten x := by
  induction fragments generalizing x with
  | nil => exact ⟨rfl, rfl, rfl, rfl⟩
  | cons data rest ih =>
    have hhere := s.pump_clean (Nat.le_refl _) h.1
    have hlater := ih h.2
    rw [List.flatten_cons]
    simp only [pumpAll, hhere.session]
    exact hhere.append s hlater

theorem length_le_pushed_pumpAll (fragments : List (List β)) (x : Session β γ) :
    fragments.flatten.length ≤ (pushed (pumpAll s.feed fragments x).1).length := by
  induction fragments generalizing x with
  | nil => simp
  | cons data rest ih =>
    have hhere := s.length_le_pushed (x := x) (Nat.le_refl data.length)
    have hlater := ih (pump s.feed data.length data x).2
    simp only [pumpAll, pushed_append, List.flatten_cons, List.length_append]
    omega

theorem pumpAll_unclean {fragments : List (List β)} {x : Session β γ}
    (hone : ∀ b, s.judge [b] = .more) (h : ¬ s.CleanAll fragments x) :
    fragments.flatten.length < (pushed (pumpAll s.feed fragments x).1).length := by
  induction fragments generalizing x with
  | nil => exact absurd trivial h
  | cons data rest ih =>
    simp only [pumpAll, pushed_append, List.flatten_cons, List.length_append]
    by_cases hhere : s.Clean data x
    · have hexact := s.pump_clean (Nat.le_refl data.length) hhere
      have hlater := ih fun hrest => h ⟨hhere, hrest⟩
      rw [hexact.pushed, hexact.session]
      omega
    · have hmore := s.pump_unclean hone (Nat.le_refl data.length) hhere
      have hlater := s.length_le_pushed_pumpAll rest (pump s.feed data.length data x).2
      omega

/-- Item `i` of the string ends in a refusal. -/
def RefusedAt (data : List β) (x : Session β γ) (i : ℕ) : Prop :=
  ∃ o, (s.outcomes data x)[i]? = some o ∧ o.isRefused = true

/-- A fragment begins at item `i` of the stream. -/
def FragmentAt (fragments : List (List β)) (i : ℕ) : Prop :=
  ∃ k, (fragments.take k).flatten.length = i

theorem cleanAll_iff (fragments : List (List β)) (x : Session β γ) :
    s.CleanAll fragments x ↔
      ∀ i, s.RefusedAt fragments.flatten x i → FragmentAt fragments i := by
  induction fragments generalizing x with
  | nil =>
    refine ⟨fun _ i hi => ?_, fun _ => trivial⟩
    obtain ⟨o, ho, -⟩ := hi
    simp [outcomes] at ho
  | cons data rest ih =>
    have hlen := s.length_outcomes data x
    constructor
    · rintro ⟨hclean, hrest⟩ i ⟨o, ho, hrefused⟩
      rw [List.flatten_cons, outcomes_append] at ho
      by_cases hi : i < data.length
      · rw [List.getElem?_append_left (by omega)] at ho
        cases i with
        | zero => exact ⟨0, rfl⟩
        | succ i =>
          have hmem : o ∈ (s.outcomes data x).tail := by
            rw [← List.getElem?_tail] at ho
            exact List.mem_of_getElem? ho
          rw [hclean o hmem] at hrefused
          exact absurd hrefused Bool.false_ne_true
      · rw [List.getElem?_append_right (by omega), hlen] at ho
        obtain ⟨k, hk⟩ := (ih (s.after data x)).mp hrest (i - data.length) ⟨o, ho, hrefused⟩
        refine ⟨k + 1, ?_⟩
        rw [List.take_succ_cons, List.flatten_cons, List.length_append, hk]
        omega
    · intro h
      refine ⟨fun o ho => ?_, (ih _).mpr fun i hi => ?_⟩
      · obtain ⟨j, hj⟩ := List.mem_iff_getElem?.mp ho
        rw [List.getElem?_tail] at hj
        have hlt : j + 1 < data.length := by
          have := (List.getElem?_eq_some_iff.mp hj).1
          omega
        by_contra hrefused
        rw [Bool.not_eq_false] at hrefused
        obtain ⟨k, hk⟩ := h (j + 1) ⟨o, by
          rw [List.flatten_cons, outcomes_append, List.getElem?_append_left (by omega)]
          exact hj, hrefused⟩
        cases k with
        | zero => simp at hk
        | succ k =>
          rw [List.take_succ_cons, List.flatten_cons, List.length_append] at hk
          omega
      · obtain ⟨o, ho, hrefused⟩ := hi
        obtain ⟨k, hk⟩ := h (data.length + i) ⟨o, by
          rw [List.flatten_cons, outcomes_append, List.getElem?_append_right (by omega), hlen,
            Nat.add_sub_cancel_left]
          exact ho, hrefused⟩
        cases k with
        | zero =>
          refine ⟨0, ?_⟩
          simp only [List.take_zero, List.flatten_nil, List.length_nil] at hk ⊢
          omega
        | succ k =>
          refine ⟨k, ?_⟩
          rw [List.take_succ_cons, List.flatten_cons, List.length_append] at hk
          omega

/-- **When fragmentation is harmless.** Pumping a fragmented stream goes through every item
once, in order, exactly when every refusal is decided by the first item of a fragment. -/
theorem pumpAll_pushed_iff (hone : ∀ b, s.judge [b] = .more) (fragments : List (List β))
    (x : Session β γ) :
    pushed (pumpAll s.feed fragments x).1 = fragments.flatten ↔
      ∀ i, s.RefusedAt fragments.flatten x i → FragmentAt fragments i := by
  rw [← cleanAll_iff]
  refine ⟨fun h => ?_, fun h => (s.pumpAll_exact h).pushed⟩
  by_contra hunclean
  have := s.pumpAll_unclean hone hunclean
  rw [h] at this
  omega

/-- Then it shows what feeding the stream item by item does. -/
theorem pumpAll_exact_of_fragmentAt {fragments : List (List β)} {x : Session β γ}
    (h : ∀ i, s.RefusedAt fragments.flatten x i → FragmentAt fragments i) :
    s.Exact (pumpAll s.feed fragments x) fragments.flatten x :=
  s.pumpAll_exact ((s.cleanAll_iff fragments x).mpr h)

theorem refusedAt_append (as bs : List β) (x : Session β γ) (i : ℕ) :
    s.RefusedAt (as ++ bs) x i ↔
      s.RefusedAt as x i ∨ ∃ j, i = as.length + j ∧ s.RefusedAt bs (s.after as x) j := by
  have hlen := s.length_outcomes as x
  rw [RefusedAt]
  rw [outcomes_append]
  constructor
  · rintro ⟨o, ho, hrefused⟩
    by_cases hi : i < as.length
    · rw [List.getElem?_append_left (by omega)] at ho
      exact .inl ⟨o, ho, hrefused⟩
    · rw [List.getElem?_append_right (by omega), hlen] at ho
      exact .inr ⟨i - as.length, by omega, o, ho, hrefused⟩
  · rintro (⟨o, ho, hrefused⟩ | ⟨j, rfl, o, ho, hrefused⟩)
    · have := (List.getElem?_eq_some_iff.mp ho).1
      exact ⟨o, by rwa [List.getElem?_append_left this], hrefused⟩
    · refine ⟨o, ?_, hrefused⟩
      rwa [List.getElem?_append_right (by omega), hlen, Nat.add_sub_cancel_left]

theorem not_refusedAt_quiet {data : List β} {x : Session β γ} (h : s.Quiet data x) {i : ℕ} :
    ¬ s.RefusedAt data x i := by
  rintro ⟨o, ho, hrefused⟩
  rw [h o (List.mem_of_getElem? ho)] at hrefused
  exact absurd hrefused Bool.false_ne_true

theorem refusedAt_singleton (b : β) (x : Session β γ) (i : ℕ) :
    s.RefusedAt [b] x i ↔ i = 0 ∧ (s.step b x).1.isRefused = true := by
  rw [RefusedAt]
  cases i with
  | zero => simp [outcomes]
  | succ i => simp [outcomes]

/-! ### Whole frames -/

/-- Items that keep the decoder waiting are only collected. -/
theorem quiet_of_more {data : List β} {x : Session β γ}
    (h : ∀ k, 0 < k → k ≤ data.length → s.judge (x.pending ++ data.take k) = .more) :
    s.Quiet data x ∧ s.after data x = ⟨x.pending ++ data, x.world⟩ := by
  induction data generalizing x with
  | nil => exact ⟨by simp [Quiet, outcomes], by simp⟩
  | cons b data ih =>
    have hfirst : s.judge (x.pending ++ [b]) = .more := h 1 Nat.one_pos (by simp)
    have hstep := s.step_more hfirst
    have hrest : ∀ k, 0 < k → k ≤ data.length →
        s.judge ((s.step b x).2.pending ++ data.take k) = .more := by
      intro k _ hk
      have := h (k + 1) (Nat.succ_pos k) (by rw [List.length_cons]; omega)
      rw [hstep, List.append_assoc]
      exact this
    obtain ⟨hquiet, hafter⟩ := ih hrest
    refine ⟨?_, ?_⟩
    · intro o ho
      rw [outcomes, List.mem_cons] at ho
      rcases ho with rfl | ho
      · rw [hstep]
      · exact hquiet o ho
    · rw [after_cons, hafter, hstep, List.append_assoc]
      rfl

/-- A frame that only its last item completes has that item answer it. -/
theorem frame_step {bytes : List β} {b : β} {f : φ} {x : Session β γ}
    (hmore : ∀ k, 0 < k → k ≤ bytes.length → s.judge (x.pending ++ bytes.take k) = .more)
    (hframe : s.judge (x.pending ++ (bytes ++ [b])) = .frame f) :
    s.Quiet bytes x ∧ s.step b (s.after bytes x) = s.conclude f x.world := by
  obtain ⟨hquiet, hafter⟩ := s.quiet_of_more hmore
  refine ⟨hquiet, ?_⟩
  rw [← List.append_assoc] at hframe
  rw [hafter, step, hframe]

/-- The only frame decoded from the rest of a frame is that frame. -/
theorem framesOf_frame {bytes : List β} {b : β} {f : φ} {x : Session β γ}
    (hmore : ∀ k, 0 < k → k ≤ bytes.length → s.judge (x.pending ++ bytes.take k) = .more)
    (hframe : s.judge (x.pending ++ (bytes ++ [b])) = .frame f) :
    s.framesOf (bytes ++ [b]) x = [f] ∧ (s.after (bytes ++ [b]) x).pending = [] := by
  obtain ⟨hquiet, hstep⟩ := s.frame_step hmore hframe
  rw [framesOf_append, framesOf_quiet s hquiet, framesOf, outcomes, outcomes, after_append,
    after_cons, hstep]
  simp

/-- Items that no frame begins with decode to nothing and leave the session idle. -/
theorem framesOf_invalid {bytes : List β} {b : β} {x : Session β γ}
    (hmore : ∀ k, 0 < k → k ≤ bytes.length → s.judge (x.pending ++ bytes.take k) = .more)
    (hinvalid : s.judge (x.pending ++ (bytes ++ [b])) = .invalid) :
    s.framesOf (bytes ++ [b]) x = [] ∧ s.after (bytes ++ [b]) x = ⟨[], x.world⟩ := by
  obtain ⟨hquiet, hafter⟩ := s.quiet_of_more hmore
  rw [← List.append_assoc] at hinvalid
  have hstep := s.step_invalid (x := ⟨x.pending ++ bytes, x.world⟩) hinvalid
  rw [framesOf_append, framesOf_quiet s hquiet, framesOf, outcomes, outcomes, after_append,
    after_cons, hafter, hstep]
  exact ⟨rfl, rfl⟩

/-- Fragments of one item each are pumped exactly. -/
theorem pumpAll_singletons (data : List β) (x : Session β γ) :
    s.Exact (pumpAll s.feed (data.map fun b => [b]) x) data x := by
  have hclean : s.CleanAll (data.map fun b => [b]) x := by
    induction data generalizing x with
    | nil => trivial
    | cons b data ih => exact ⟨by simp [Clean, outcomes], ih _⟩
  have hflatten : (data.map fun b => [b]).flatten = data := by
    rw [← List.flatMap_def]
    exact List.flatMap_singleton' data
  have hexact := s.pumpAll_exact hclean
  rwa [hflatten] at hexact

/-! ### Sizes -/

/-- When the decoder never takes more for a frame than the items it holds, no frame is
larger than the unfinished one and the string together. -/
theorem framesOf_size {size : φ → ℕ}
    (hsize : ∀ items f, s.judge items = .frame f → size f ≤ items.length)
    {data : List β} {x : Session β γ} {f : φ} (hf : f ∈ s.framesOf data x) :
    size f ≤ x.pending.length + data.length := by
  induction data generalizing x with
  | nil => simp [framesOf, outcomes] at hf
  | cons b data ih =>
    rw [framesOf, outcomes, List.filterMap_cons] at hf
    have hnow : ∀ g, (s.step b x).1.frame? = some g → size g ≤ x.pending.length + 1 := by
      intro g hg
      have := hsize (x.pending ++ [b]) g
      rw [step] at hg
      rw [List.length_append, List.length_singleton] at this
      cases hj : s.judge (x.pending ++ [b]) with
      | more => simp [hj, Outcome.frame?] at hg
      | invalid => simp [hj, Outcome.frame?] at hg
      | frame g' =>
        rw [hj] at hg this
        obtain rfl : g' = g := Option.some.inj ((s.conclude_frame? g' x.world).symm.trans hg)
        apply_assumption
        rfl
    have hlen : (s.step b x).2.pending.length ≤ x.pending.length + 1 := by
      by_cases hb : (s.step b x).1 = .waiting
      · rw [step] at hb ⊢
        split <;> simp
      · simp [s.step_pending hb]
    have hlater : f ∈ s.framesOf data (s.step b x).2 → size f ≤ x.pending.length + (data.length + 1) :=
      fun h => by have := ih h; omega
    rw [List.length_cons]
    split at hf
    · exact hlater hf
    · next g hg =>
      rcases List.mem_cons.mp hf with rfl | hf
      · have := hnow f hg; omega
      · exact hlater hf

end Service

end Framing
