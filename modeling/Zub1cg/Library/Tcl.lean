import Mathlib.Data.List.Basic

/-!
# The words of Tcl scripts

A reader that splits a script into its commands and their words. It is for scripts in which nothing
is substituted, and stops at the name of a variable behind a dollar sign, at a bracket, and at a
backslash with anything but a single letter or sign behind it.

## Main definitions

- `Token`, `tokens` — words, and the ends of commands
- `Mode`, `step`, `read` — the reader
- `substitutes` — a text in which something is substituted

## Main results

- `read_text_iff` — when a text inside a word is read as it is written
- `read_between_iff` — when a text is read as a word of its own
-/

namespace Tcl

inductive Token where
  | word (text : List Char)
  | stop
  deriving DecidableEq, Repr

/-- The tokens of some commands, each of them a list of words. -/
def tokens (commands : List (List (List Char))) : List Token :=
  commands.flatMap fun words => words.map .word ++ [.stop]

/-! ### The reader -/

inductive Quoting where
  | bare
  | quoted
  deriving DecidableEq, Repr

/-- Where the reader is, and what it has of a word. -/
inductive Mode where
  | start
  | between
  | comment
  | text (q : Quoting) (read : List Char)
  | escape (q : Quoting) (read : List Char)
  | dollar (q : Quoting) (read : List Char)
  | dollarColon (q : Quoting) (read : List Char)
  | braced (depth : ℕ) (read : List Char)
  | bracedEscape (depth : ℕ) (read : List Char)
  | closed
  deriving DecidableEq, Repr

/-- White space between words. -/
def isSpace (c : Char) : Bool :=
  c == ' ' || c == '\t' || c == '\x0b' || c == '\x0c' || c == '\r'

/-- The end of a command. -/
def isStop (c : Char) : Bool := c == '\n' || c == ';'

/-- A character of a variable's name. -/
def isName (c : Char) : Bool :=
  'a' ≤ c && c ≤ 'z' || 'A' ≤ c && c ≤ 'Z' || '0' ≤ c && c ≤ '9' || c == '_'

/-- A dollar sign before this character is a substitution. -/
def opens (c : Char) : Bool := isName c || c == '(' || c == '{'

/-- What a backslash before a character makes of it. -/
def unescape (c : Char) : Option Char :=
  match c with
  | 'a' => some '\x07'
  | 'b' => some '\x08'
  | 'f' => some '\x0c'
  | 'n' => some '\n'
  | 'r' => some '\r'
  | 't' => some '\t'
  | 'v' => some '\x0b'
  | '\n' | 'x' | 'u' | 'U' => none
  | c => if '0' ≤ c && c ≤ '7' then none else some c

/-- The character ends a word of this kind. -/
def ends : Quoting → Char → Bool
  | .bare, c => isSpace c || isStop c
  | .quoted, c => c == '"'

/-- What comes behind the word that a character ends. -/
def close : Quoting → Char → List Token × Mode
  | .bare, c => if isStop c then ([.stop], .start) else ([], .between)
  | .quoted, _ => ([], .closed)

/-- A character inside a word. -/
def textStep (q : Quoting) (read : List Char) (c : Char) : Option (List Token × Mode) :=
  if ends q c then some (.word read :: (close q c).1, (close q c).2)
  else if c = '[' then none
  else if c = '$' then some ([], .dollar q read)
  else if c = '\\' then some ([], .escape q read)
  else some ([], .text q (read ++ [c]))

/-- The first character of a word. -/
def wordStep (c : Char) : Option (List Token × Mode) :=
  if c = '"' then some ([], .text .quoted [])
  else if c = '{' then some ([], .braced 0 [])
  else textStep .bare [] c

def step : Mode → Char → Option (List Token × Mode)
  | .start, c =>
    if isSpace c || isStop c then some ([], .start)
    else if c = '#' then some ([], .comment)
    else wordStep c
  | .between, c =>
    if isSpace c then some ([], .between)
    else if isStop c then some ([.stop], .start)
    else wordStep c
  | .comment, c =>
    if c = '\n' then some ([], .start) else if c = '\\' then none else some ([], .comment)
  | .text q read, c => textStep q read c
  | .escape q read, c => (unescape c).map fun c => ([], .text q (read ++ [c]))
  | .dollar q read, c =>
    if opens c then none
    else if c = ':' then some ([], .dollarColon q read)
    else textStep q (read ++ ['$']) c
  | .dollarColon q read, c => if c = ':' then none else textStep q (read ++ ['$', ':']) c
  | .braced depth read, c =>
    match c, depth with
    | '{', _ => some ([], .braced (depth + 1) (read ++ [c]))
    | '}', 0 => some ([.word read], .closed)
    | '}', depth + 1 => some ([], .braced depth (read ++ [c]))
    | '\\', _ => some ([], .bracedEscape depth read)
    | _, _ => some ([], .braced depth (read ++ [c]))
  | .bracedEscape depth read, c =>
    if c = '\n' then none else some ([], .braced depth (read ++ ['\\', c]))
  | .closed, c =>
    if isSpace c then some ([], .between) else if isStop c then some ([.stop], .start) else none

/-- The end of the script. -/
def finish : Mode → Option (List Token)
  | .start | .comment => some []
  | .between | .closed => some [.stop]
  | .text .bare read => some [.word read, .stop]
  | .dollar .bare read => some [.word (read ++ ['$']), .stop]
  | .dollarColon .bare read => some [.word (read ++ ['$', ':']), .stop]
  | _ => none

def run : Mode → List Char → Option (List Token × Mode)
  | m, [] => some ([], m)
  | m, c :: script => do
    let (now, m) ← step m c
    let (later, m) ← run m script
    some (now ++ later, m)

/-- The tokens of a script, or of what is left of one. -/
def read (m : Mode) (script : List Char) : Option (List Token) := do
  let (now, m) ← run m script
  let later ← finish m
  some (now ++ later)

/-! ### Parts of a script -/

theorem read_cons (m : Mode) (c : Char) (script : List Char) :
    read m (c :: script) =
      (step m c).bind fun r => (read r.2 script).map fun later => r.1 ++ later := by
  unfold read
  rw [run]
  cases step m c with
  | none => rfl
  | some r =>
    simp only [Option.bind_eq_bind, Option.bind_some]
    cases run r.2 script with
    | none => rfl
    | some r' =>
      simp only [Option.bind_some]
      cases finish r'.2 <;> simp

theorem read_append {m m' : Mode} {front : List Char} {now : List Token}
    (h : run m front = some (now, m')) (back : List Char) :
    read m (front ++ back) = (read m' back).map fun later => now ++ later := by
  induction front generalizing m now with
  | nil =>
    cases h
    simp
  | cons c front ih =>
    rw [run] at h
    rw [List.cons_append, read_cons]
    cases hstep : step m c with
    | none =>
      rw [hstep] at h
      cases h
    | some r =>
      rw [hstep] at h
      simp only [Option.bind_eq_bind, Option.bind_some] at h ⊢
      cases hrun : run r.2 front with
      | none =>
        rw [hrun] at h
        cases h
      | some r' =>
        rw [hrun] at h
        cases h
        rw [ih hrun, Option.map_map]
        congr 1
        funext later
        simp

/-- A fixed part of a script is read as its tokens, and the rest as the others. -/
theorem read_append_eq {m m' : Mode} {front : List Char} {now : List Token}
    (h : run m front = some (now, m')) (back : List Char) (later : List Token) :
    read m (front ++ back) = some (now ++ later) ↔ read m' back = some later := by
  rw [read_append h]
  cases read m' back <;> simp

/-! ### A text inside a word -/

/-- A dollar sign before this text is a substitution. -/
def opensName : List Char → Bool
  | [] => false
  | c :: rest => opens c || c == ':' && rest.head? == some ':'

/-- Something in the text is substituted. -/
def substitutes : List Char → Bool
  | [] => false
  | c :: rest => c == '[' || c == '$' && opensName rest || substitutes rest

/-- A dollar sign that begins no name stands for itself. -/
theorem read_dollar (q : Quoting) (before script : List Char) :
    read (.dollar q before) script =
      if opensName script then none else read (.text q (before ++ ['$'])) script := by
  cases script with
  | nil => cases q <;> rfl
  | cons c script =>
    rw [read_cons, step]
    by_cases hopens : opens c = true
    · simp [opensName, hopens]
    · by_cases hcolon : c = ':'
      · subst hcolon
        have htext : ∀ rest, read (.text q (before ++ ['$'])) (':' :: rest) =
            read (.text q (before ++ ['$', ':'])) rest := by
          intro rest
          rw [read_cons]
          cases q <;> simp [step, textStep, ends, isSpace, isStop]
        rw [htext]
        cases script with
        | nil => cases q <;> rfl
        | cons d script =>
          by_cases hd : d = ':'
          · subst hd
            simp [hopens, opensName, read_cons, step]
          · simp [hopens, opensName, read_cons, step, hd, Function.comp_def]
      · simp [opensName, hopens, hcolon, read_cons, step]

theorem ends_plain {q : Quoting} {e : Char} (h : ends q e = true) :
    opens e = false ∧ e ≠ ':' ∧ e ≠ '[' ∧ e ≠ '$' ∧ e ≠ '\\' := by
  cases q with
  | bare =>
    simp only [ends, isSpace, isStop, Bool.or_eq_true, beq_iff_eq] at h
    obtain ((((rfl | rfl) | rfl) | rfl) | rfl) | rfl | rfl := h <;> decide
  | quoted =>
    simp only [ends, beq_iff_eq] at h
    subst h
    decide

/-- What ends a word is no part of a name. -/
theorem opensName_append {q : Quoting} {e : Char} (h : ends q e = true) (text rest : List Char) :
    opensName (text ++ e :: rest) = opensName text := by
  obtain ⟨hopens, hcolon, -⟩ := ends_plain h
  cases text with
  | nil => simp [opensName, hopens, hcolon]
  | cons c text =>
    cases text with
    | nil => simp [opensName, hcolon]
    | cons d text => rfl

/-- **A text inside a word** is read as it is written if and only if nothing in it is substituted
and nothing in it ends the word. -/
theorem read_text_iff {q : Quoting} {e : Char} (hend : ends q e = true) {text : List Char}
    (hescape : '\\' ∉ text) (before rest : List Char) (later : List Token) :
    read (.text q before) (text ++ e :: rest) = some (.word (before ++ text) :: later) ↔
      (substitutes text = false ∧ ∀ c ∈ text, ends q c = false) ∧
        (read (close q e).2 rest).map (fun ts => (close q e).1 ++ ts) = some later := by
  induction text generalizing before with
  | nil =>
    rw [List.nil_append, List.append_nil, read_cons, step, textStep, if_pos hend, Option.bind_some]
    cases read (close q e).2 rest <;> simp [substitutes]
  | cons c text ih =>
    rw [List.mem_cons, not_or] at hescape
    have hagain := ih hescape.2
    have hwhole : ∀ d, before ++ [d] ++ text = before ++ d :: text := by simp
    rw [List.cons_append, read_cons, step, textStep]
    by_cases hc : ends q c = true
    · -- the word ends too early
      rw [if_pos hc, Option.bind_some]
      cases read (close q c).2 (text ++ e :: rest) <;> simp [hc]
    · by_cases hbracket : c = '['
      · subst hbracket
        rw [if_neg hc, if_pos rfl]
        simp [substitutes]
      · by_cases hdollar : c = '$'
        · subst hdollar
          rw [if_neg hc, if_neg hbracket, if_pos rfl, Option.bind_some, read_dollar,
            opensName_append hend]
          by_cases hname : opensName text = true
          · simp [hname, substitutes]
          · rw [if_neg hname]
            have hagain' := hagain (before ++ ['$'])
            rw [hwhole] at hagain'
            simpa [substitutes, hname, hc] using hagain'
        · have hagain' := hagain (before ++ [c])
          rw [hwhole] at hagain'
          rw [if_neg hc, if_neg hbracket, if_neg hdollar, if_neg (Ne.symm hescape.1),
            Option.bind_some]
          simpa [substitutes, hbracket, hdollar, hc] using hagain'

/-! ### A text as a word -/

/-- What the reader has of a word that may go on. -/
def Mode.held : Mode → Option (List Char)
  | .text _ read | .escape _ read | .dollar _ read | .dollarColon _ read => some read
  | _ => none

theorem textStep_held {q : Quoting} {before : List Char} {c : Char} {r : List Token × Mode}
    (h : textStep q before c = some r) :
    r.1.head? = some (.word before) ∨
      r.1 = [] ∧ ∃ after, r.2.held = some after ∧ before <+: after := by
  unfold textStep at h
  split_ifs at h
  all_goals cases h
  · exact .inl rfl
  · exact .inr ⟨rfl, before, rfl, List.prefix_rfl⟩
  · exact .inr ⟨rfl, before, rfl, List.prefix_rfl⟩
  · exact .inr ⟨rfl, before ++ [c], rfl, List.prefix_append before [c]⟩

theorem step_held {m : Mode} {before : List Char} (hm : m.held = some before) {c : Char}
    {r : List Token × Mode} (h : step m c = some r) :
    (∃ word, r.1.head? = some (.word word) ∧ before <+: word) ∨
      r.1 = [] ∧ ∃ after, r.2.held = some after ∧ before <+: after := by
  have htext {q : Quoting} {more : List Char} (h : textStep q (before ++ more) c = some r) :
      (∃ word, r.1.head? = some (.word word) ∧ before <+: word) ∨
        r.1 = [] ∧ ∃ after, r.2.held = some after ∧ before <+: after := by
    obtain hword | ⟨hnone, after, hafter, hprefix⟩ := textStep_held h
    · exact .inl ⟨_, hword, List.prefix_append before more⟩
    · exact .inr ⟨hnone, after, hafter, (List.prefix_append before more).trans hprefix⟩
  cases m with
  | text q read =>
    cases hm
    rw [step, ← List.append_nil before] at h
    exact htext h
  | escape q read =>
    cases hm
    obtain ⟨d, -, rfl⟩ := Option.map_eq_some_iff.mp h
    exact .inr ⟨rfl, _, rfl, List.prefix_append before [d]⟩
  | dollar q read =>
    cases hm
    rw [step] at h
    split_ifs at h
    · cases h
      exact .inr ⟨rfl, before, rfl, List.prefix_rfl⟩
    · exact htext h
  | dollarColon q read =>
    cases hm
    rw [step] at h
    split_ifs at h
    exact htext h
  | _ => cases hm

/-- The word that is read goes on from what there is. -/
theorem read_held {m : Mode} {before : List Char} (hm : m.held = some before)
    {script : List Char} {word : List Char} {later : List Token}
    (h : read m script = some (.word word :: later)) : before <+: word := by
  induction script generalizing m before with
  | nil =>
    cases m with
    | text q read | dollar q read | dollarColon q read =>
      cases hm
      cases q <;> cases h
      simp
    | _ => cases hm <;> cases h
  | cons c script ih =>
    rw [read_cons] at h
    obtain ⟨r, hstep, hrest⟩ := Option.bind_eq_some_iff.mp h
    obtain ⟨ts, hts, htokens⟩ := Option.map_eq_some_iff.mp hrest
    obtain ⟨word', hword, hprefix⟩ | ⟨hnone, after, hafter, hprefix⟩ := step_held hm hstep
    · have hhead := congrArg List.head? htokens
      rw [List.head?_append, hword] at hhead
      cases hhead
      exact hprefix
    · rw [hnone, List.nil_append] at htokens
      subst htokens
      exact hprefix.trans (ih hafter hts)

/-- A word does not get longer than its text, unless it goes on behind the line. -/
theorem length_le_of_read_text {q : Quoting} {before text rest : List Char}
    (hescape : '\\' ∉ text) {word : List Char} {later : List Token}
    (h : read (.text q before) (text ++ '\n' :: rest) = some (.word word :: later))
    (hline : '\n' ∉ word) : word.length ≤ before.length + text.length := by
  induction text generalizing before with
  | nil =>
    rw [List.nil_append, read_cons, step, textStep] at h
    cases q with
    | bare =>
      obtain ⟨ts, -, htokens⟩ := Option.map_eq_some_iff.mp h
      cases htokens
      exact Nat.le_refl _
    | quoted =>
      have hrest : read (.text .quoted (before ++ ['\n'])) rest = some (.word word :: later) := by
        simpa [ends] using h
      -- between quotes the word would go on with the end of the line
      have hheld := read_held rfl hrest
      exact absurd (hheld.subset (by simp)) hline
  | cons c text ih =>
    rw [List.mem_cons, not_or] at hescape
    rw [List.cons_append, read_cons, step, textStep] at h
    split_ifs at h with hend hbracket hdollar hbackslash
    · obtain ⟨ts, -, htokens⟩ := Option.map_eq_some_iff.mp h
      cases htokens
      omega
    · cases h
    · rw [Option.bind_some, read_dollar] at h
      split_ifs at h
      · simp at h
      · have hle := @ih (before ++ ['$']) hescape.2 (by simpa using h)
        rw [List.length_append, List.length_singleton] at hle
        rw [List.length_cons]
        omega
    · exact absurd hbackslash.symm hescape.1
    · have hle := @ih (before ++ [c]) hescape.2 (by simpa using h)
      rw [List.length_append, List.length_singleton] at hle
      rw [List.length_cons]
      omega

/-- The same between words. -/
theorem length_le_of_read_between {text rest : List Char} (hescape : '\\' ∉ text)
    (hbrace : '{' ∉ text) {word : List Char} {later : List Token}
    (h : read .between (text ++ '\n' :: rest) = some (.word word :: later))
    (hline : '\n' ∉ word) : word.length ≤ text.length := by
  induction text with
  | nil =>
    rw [List.nil_append, read_cons] at h
    obtain ⟨ts, -, htokens⟩ := Option.map_eq_some_iff.mp h
    cases htokens
  | cons c text ih =>
    have hescape' := fun hmem => hescape (List.mem_cons_of_mem c hmem)
    have hbrace' := fun hmem => hbrace (List.mem_cons_of_mem c hmem)
    rw [List.cons_append, read_cons, step, wordStep] at h
    split_ifs at h with hspace hstop hquote hopen
    · exact Nat.le_succ_of_le (ih hescape' hbrace' (by simpa using h))
    · obtain ⟨ts, -, htokens⟩ := Option.map_eq_some_iff.mp h
      cases htokens
    · have hle := length_le_of_read_text hescape' (by simpa using h) hline
      rw [List.length_nil] at hle
      rw [List.length_cons]
      omega
    · exact absurd (hopen ▸ List.mem_cons_self) hbrace
    · have hword : read (.text .bare []) ((c :: text) ++ '\n' :: rest) =
          some (.word word :: later) := by
        rw [List.cons_append, read_cons]
        exact h
      have hle := length_le_of_read_text hescape hword hline
      rwa [List.length_nil, Nat.zero_add] at hle

/-- **A text as a word.** At the end of a line a text is read as one word, as it is written, if and
only if it is not empty, does not begin with a quote, nothing in it is substituted, and there is
neither white space nor the end of a command in it. -/
theorem read_between_iff {text : List Char} (hescape : '\\' ∉ text) (hbrace : '{' ∉ text)
    (hline : '\n' ∉ text) (rest : List Char) (later : List Token) :
    read .between (text ++ '\n' :: rest) = some (.word text :: .stop :: later) ↔
      (text ≠ [] ∧ text.head? ≠ some '"' ∧ substitutes text = false ∧
        ∀ c ∈ text, ends .bare c = false) ∧ read .start rest = some later := by
  cases text with
  | nil =>
    refine iff_of_false (fun h => ?_) (fun h => h.1.1 rfl)
    rw [List.nil_append, read_cons] at h
    obtain ⟨ts, -, htokens⟩ := Option.map_eq_some_iff.mp h
    cases htokens
  | cons c text =>
    have hescape' := fun hmem => hescape (List.mem_cons_of_mem c hmem)
    have hbrace' := fun hmem => hbrace (List.mem_cons_of_mem c hmem)
    have hbare : read (.text .bare []) ((c :: text) ++ '\n' :: rest) =
        some (.word (c :: text) :: .stop :: later) ↔
          (substitutes (c :: text) = false ∧ ∀ d ∈ c :: text, ends .bare d = false) ∧
            read .start rest = some later := by
      have hiff := @read_text_iff .bare '\n' rfl (c :: text) hescape [] rest (.stop :: later)
      have hclose : close .bare '\n' = ([.stop], .start) := rfl
      rw [List.nil_append, hclose] at hiff
      rw [hiff]
      cases read .start rest <;> simp
    rw [List.cons_append, read_cons, step, wordStep]
    split_ifs with hspace hstop hquote hopen
    · -- a word would be shorter
      refine iff_of_false (fun h => ?_) (fun h => ?_)
      · have hle := length_le_of_read_between hescape' hbrace' (by simpa using h) hline
        rw [List.length_cons] at hle
        omega
      · have hend := h.1.2.2.2 c List.mem_cons_self
        simp [ends, hspace] at hend
    · refine iff_of_false (fun h => ?_) (fun h => ?_)
      · obtain ⟨ts, -, htokens⟩ := Option.map_eq_some_iff.mp h
        cases htokens
      · have hend := h.1.2.2.2 c List.mem_cons_self
        simp [ends, hstop] at hend
    · refine iff_of_false (fun h => ?_) (fun h => h.1.2.1 (by simp [hquote]))
      have hle := length_le_of_read_text hescape' (by simpa using h) hline
      rw [List.length_cons, List.length_nil] at hle
      omega
    · exact absurd (hopen ▸ List.mem_cons_self) hbrace
    · rw [List.cons_append, read_cons, step] at hbare
      rw [hbare]
      simp [hquote, and_assoc]

end Tcl
