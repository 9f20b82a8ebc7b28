import Mathlib.Data.List.Basic
import Zub1cg.Library.Checked

/-!
# Files in directories

What is at a path is nothing, a directory or a file. An action reads and changes the files, and it
can fail; what it has changed by then stays changed. An action is determined if what it writes does
not depend on what was there before: its writes, one after the other, say what is in the files
afterwards.

## Main definitions

- `Node`, `Tree`, `contents` — directories and files
- `Action` — what can be done with them
- `createDirAll`, `write` — the operations
- `lastWrite`, `Determined` — writes, and actions that are determined by them

## Main results

- `Determined.bind`, `Determined.foldlM` — the rules
- `lastWrite_skip` — writes of what is there already can be left out
-/

namespace FileTree

open Checked

/-! ### Trees -/

inductive Node (Content : Type) where
  | dir
  | file (content : Content)
  deriving DecidableEq, Repr

/-- What is at which paths; of several entries for a path the first one counts. -/
abbrev Tree (Name Content : Type) := List (List Name × Node Content)

def empty {Name Content : Type} : Tree Name Content := []

section

variable {Name Content : Type} [DecidableEq Name]

/-- What is at a path -/
def node (fs : Tree Name Content) (path : List Name) : Option (Node Content) := fs.lookup path

/-- What is in the file at a path, if there is one -/
def contents (fs : Tree Name Content) (path : List Name) : Option Content :=
  match node fs path with
  | some (.file content) => some content
  | _ => none

@[simp] theorem contents_empty (path : List Name) :
    contents (empty : Tree Name Content) path = none := rfl

def put (fs : Tree Name Content) (path : List Name) (content : Node Content) : Tree Name Content :=
  (path, content) :: fs

theorem node_put (fs : Tree Name Content) (path : List Name) (content : Node Content)
    (p : List Name) : node (put fs path content) p = if path = p then some content else node fs p := by
  rw [node, put, List.lookup_cons, node]
  by_cases h : path = p
  · simp [h]
  · simp [h, beq_false_of_ne (Ne.symm h)]

theorem contents_put_file (fs : Tree Name Content) (path : List Name) (content : Content)
    (p : List Name) :
    contents (put fs path (.file content)) p = if path = p then some content else contents fs p := by
  rw [contents, node_put]
  by_cases h : path = p
  · simp [h]
  · simp [h, contents]

/-- A directory where nothing was -/
theorem contents_put_dir {fs : Tree Name Content} {path : List Name} (h : node fs path = none) :
    contents (put fs path .dir) = contents fs := by
  funext p
  rw [contents, node_put]
  by_cases hp : path = p
  · simp [← hp, contents, h]
  · simp [hp, contents]

/-- `fs::create_dir_all`, from a directory down -/
def createDirs : (below above : List Name) → Tree Name Content → Result Unit × Tree Name Content
  | [], above, fs =>
    match node fs above with
    | some (.file _) => (fail "File exists (os error 17)", fs)
    | some .dir => (.ok (), fs)
    | none => (.ok (), put fs above .dir)
  | name :: below, above, fs =>
    match node fs above with
    | some (.file _) => (fail "Not a directory (os error 20)", fs)
    | some .dir => createDirs below (above ++ [name]) fs
    | none => createDirs below (above ++ [name]) (put fs above .dir)

/-- Directories are no files. -/
theorem contents_createDirs (below above : List Name) (fs : Tree Name Content) :
    contents (createDirs below above fs).2 = contents fs := by
  induction below generalizing above fs with
  | nil =>
    unfold createDirs
    split
    · rfl
    · rfl
    · next h => exact contents_put_dir h
  | cons name below ih =>
    unfold createDirs
    split
    · rfl
    · exact ih _ _
    · next h => rw [ih, contents_put_dir h]

end

/-! ### Actions -/

/-- An action answers, and leaves a tree behind. -/
def Action (Name Content α : Type) := Tree Name Content → Result α × Tree Name Content

section

variable {Name Content α β : Type}

instance : Monad (Action Name Content) where
  pure a fs := (.ok a, fs)
  bind x f fs :=
    match x fs with
    | (.ok a, fs) => f a fs
    | (.error e, fs) => (.error e, fs)

/-- A computation that does nothing with the files -/
def lift (x : Result α) : Action Name Content α := fun fs => (x, fs)

/-- What is in a file -/
def read [DecidableEq Name] (path : List Name) : Action Name Content (Option Content) :=
  fun fs => (.ok (contents fs path), fs)

def createDirAll [DecidableEq Name] (path : List Name) : Action Name Content Unit :=
  createDirs path []

/-- `fs::write`, into a directory that is there -/
def write [DecidableEq Name] (path : List Name) (content : Content) : Action Name Content Unit :=
  fun fs =>
    match node fs path with
    | some .dir => (fail "Is a directory (os error 21)", fs)
    | _ => (.ok (), put fs path (.file content))

/-- `fs::remove_dir_all` on everything -/
def removeAll : Action Name Content Unit := fun _ => (.ok (), empty)

theorem bind_of_run {x : Action Name Content α} {f : α → Action Name Content β}
    {fs fs' : Tree Name Content} {a : α} (h : x fs = (.ok a, fs')) : (x >>= f) fs = f a fs' := by
  change (match x fs with
    | (.ok a, fs) => f a fs
    | (.error e, fs) => (.error e, fs)) = _
  rw [h]

theorem bind_run {x : Action Name Content α} {f : α → Action Name Content β}
    {fs fs' : Tree Name Content} {b : β} (h : (x >>= f) fs = (.ok b, fs')) :
    ∃ a fs₁, x fs = (.ok a, fs₁) ∧ f a fs₁ = (.ok b, fs') := by
  change (match x fs with
    | (.ok a, fs) => f a fs
    | (.error e, fs) => (.error e, fs)) = _ at h
  split at h
  · next a fs₁ hx => exact ⟨a, fs₁, hx, h⟩
  · cases h

end

/-! ### Writes -/

section

variable {Name Content : Type} [DecidableEq Name]

/-- What is written to a path last -/
def lastWrite : List (List Name × Content) → List Name → Option Content
  | [], _ => none
  | (p, content) :: ws, path => (lastWrite ws path).or (if p = path then some content else none)

theorem lastWrite_append (ws ws' : List (List Name × Content)) (path : List Name) :
    lastWrite (ws ++ ws') path = (lastWrite ws' path).or (lastWrite ws path) := by
  induction ws with
  | nil => simp [lastWrite]
  | cons w ws ih =>
    obtain ⟨p, content⟩ := w
    rw [List.cons_append, lastWrite, lastWrite, ih, Option.or_assoc]

theorem lastWrite_eq_none {ws : List (List Name × Content)} {path : List Name} :
    lastWrite ws path = none ↔ path ∉ ws.map Prod.fst := by
  induction ws with
  | nil => simp [lastWrite]
  | cons w ws ih =>
    obtain ⟨p, content⟩ := w
    rw [lastWrite, Option.or_eq_none_iff, ih, List.map_cons, List.mem_cons, not_or, and_comm]
    by_cases h : p = path
    · simp [h]
    · simp [h, Ne.symm h]

theorem mem_of_lastWrite {ws : List (List Name × Content)} {path : List Name}
    {content : Content} (h : lastWrite ws path = some content) : path ∈ ws.map Prod.fst := by
  by_contra hmem
  rw [lastWrite_eq_none.2 hmem] at h
  cases h

section

variable {ι : Type} {docs : List ι} {ws : ι → List (List Name × Content)}

/-- Nothing is written twice by different ones. -/
def Disjoint (ws : ι → List (List Name × Content)) (docs : List ι) : Prop :=
  docs.Pairwise fun d e => List.Disjoint ((ws d).map Prod.fst) ((ws e).map Prod.fst)

/-- What one of them writes, no other one does. -/
theorem lastWrite_of_disjoint {d : ι}
    (h : ∀ e ∈ docs, List.Disjoint ((ws d).map Prod.fst) ((ws e).map Prod.fst)) {path : List Name}
    (hpath : path ∈ (ws d).map Prod.fst) : lastWrite (docs.flatMap ws) path = none := by
  rw [lastWrite_eq_none, List.map_flatMap, List.mem_flatMap]
  rintro ⟨e, he, hmem⟩
  exact h e he hpath hmem

/-- What one of them writes is what is written last. -/
theorem lastWrite_flatMap (hdisjoint : Disjoint ws docs) {d : ι} (hd : d ∈ docs)
    {path : List Name} {content : Content} (h : lastWrite (ws d) path = some content) :
    lastWrite (docs.flatMap ws) path = some content := by
  induction docs with
  | nil => cases hd
  | cons e docs ih =>
    obtain ⟨hhead, htail⟩ := List.pairwise_cons.1 hdisjoint
    rw [List.flatMap_cons, lastWrite_append]
    obtain rfl | hd := List.mem_cons.1 hd
    · rw [lastWrite_of_disjoint hhead (mem_of_lastWrite h), Option.none_or, h]
    · rw [ih htail hd, Option.some_or]

/-- **Writes of what is there already** can be left out. -/
theorem lastWrite_skip (hdisjoint : Disjoint ws docs) (keep : ι → Bool)
    {old : List Name → Option Content}
    (hold : ∀ d ∈ docs, keep d = false → ∀ path content, lastWrite (ws d) path = some content →
      old path = some content) (path : List Name) :
    (lastWrite ((docs.filter keep).flatMap ws) path).or (old path) =
      (lastWrite (docs.flatMap ws) path).or (old path) := by
  induction docs with
  | nil => rfl
  | cons d docs ih =>
    obtain ⟨hhead, htail⟩ := List.pairwise_cons.1 hdisjoint
    have ih := ih htail fun e he => hold e (List.mem_cons_of_mem _ he)
    rw [List.flatMap_cons, lastWrite_append]
    cases hkeep : keep d with
    | true =>
      -- what is written here is written by no other one
      rw [List.filter_cons_of_pos hkeep, List.flatMap_cons, lastWrite_append]
      cases hd : lastWrite (ws d) path with
      | none => rw [Option.or_none, Option.or_none, ih]
      | some content =>
        have hmem := mem_of_lastWrite hd
        rw [lastWrite_of_disjoint hhead hmem,
          lastWrite_of_disjoint (fun e he => hhead e (List.mem_of_mem_filter he)) hmem]
    | false =>
      -- what would have been written is there already
      rw [List.filter_cons_of_neg (by simp [hkeep]), ih]
      cases hd : lastWrite (ws d) path with
      | none => rw [Option.or_none]
      | some content =>
        rw [lastWrite_of_disjoint hhead (mem_of_lastWrite hd)]
        exact hold d List.mem_cons_self hkeep path content hd

end

/-! ### Determined actions -/

section

variable {α β : Type}

/-- An action that answers does so with an answer and writes that do not depend on the tree. -/
def Writes (x : Action Name Content α) (out : Result (α × List (List Name × Content))) : Prop :=
  ∀ fs a fs', x fs = (.ok a, fs') → ∃ ws, out = .ok (a, ws) ∧
    ∀ path, contents fs' path = (lastWrite ws path).or (contents fs path)

/-- An action is determined, its answers meet a postcondition, and it writes inside a region. -/
def Determined (region : List Name → Prop) (x : Action Name Content α) (P : α → Prop) : Prop :=
  ∃ out, Writes x out ∧ ∀ a ws, out = .ok (a, ws) → P a ∧ ∀ w ∈ ws, region w.1

variable {region : List Name → Prop} {P : α → Prop} {Q : β → Prop}

theorem Determined.pure {a : α} (h : P a) :
    Determined region (pure a : Action Name Content α) P := by
  refine ⟨.ok (a, []), ?_, ?_⟩
  · rintro fs a' fs' ⟨rfl⟩
    exact ⟨[], rfl, fun path => rfl⟩
  · rintro a' ws ⟨rfl⟩
    exact ⟨h, nofun⟩

theorem Determined.lift {x : Result α} (h : ∀ a, x = .ok a → P a) :
    Determined region (lift x : Action Name Content α) P := by
  refine ⟨x.map (·, []), ?_, ?_⟩
  · rintro fs a fs' ⟨rfl⟩
    exact ⟨[], rfl, fun path => rfl⟩
  · intro a ws hout
    cases x with
    | error e => cases hout
    | ok a' =>
      cases hout
      exact ⟨h a rfl, nofun⟩

theorem Determined.bind {x : Action Name Content α} {f : α → Action Name Content β}
    (hx : Determined region x P) (hf : ∀ a, P a → Determined region (f a) Q) :
    Determined region (x >>= f) Q := by
  obtain ⟨out, hwrites, hout⟩ := hx
  have hnonempty : Nonempty (Result (β × List (List Name × Content))) := ⟨panicked⟩
  choose! outs houts using hf
  refine ⟨out.bind fun r => (outs r.1).map fun r' => (r'.1, r.2 ++ r'.2), ?_, ?_⟩
  · intro fs b fs' hrun
    obtain ⟨a, fs₁, hxrun, hfrun⟩ := bind_run hrun
    obtain ⟨ws, rfl, hcontents⟩ := hwrites _ _ _ hxrun
    obtain ⟨ws', hout', hcontents'⟩ := (houts a (hout a ws rfl).1).1 _ _ _ hfrun
    refine ⟨ws ++ ws', by simp [Except.bind, hout', Except.map], fun path => ?_⟩
    rw [hcontents', hcontents, lastWrite_append, Option.or_assoc]
  · intro b ws hb
    cases out with
    | error e => cases hb
    | ok r =>
      obtain ⟨hpost, hregion⟩ := hout r.1 r.2 rfl
      cases hf : outs r.1 with
      | error e => simp [Except.bind, hf, Except.map] at hb
      | ok r' =>
        simp only [Except.bind, hf, Except.map, Except.ok.injEq, Prod.mk.injEq] at hb
        obtain ⟨rfl, rfl⟩ := hb
        obtain ⟨hpost', hregion'⟩ := (houts r.1 hpost).2 r'.1 r'.2 hf
        refine ⟨hpost', fun w hw => ?_⟩
        obtain hw | hw := List.mem_append.1 hw
        · exact hregion w hw
        · exact hregion' w hw

/-- A loop over a list, with an invariant -/
theorem Determined.foldlM {γ : Type} {step : β → γ → Action Name Content β} {l : List γ}
    {I : β → Prop} (hstep : ∀ b, I b → ∀ c ∈ l, Determined region (step b c) I) {b : β}
    (hb : I b) : Determined region (l.foldlM step b) I := by
  induction l generalizing b with
  | nil => exact .pure hb
  | cons c l ih =>
    rw [List.foldlM_cons]
    exact (hstep b hb c List.mem_cons_self).bind fun b' hb' =>
      ih (fun b hb c hc => hstep b hb c (List.mem_cons_of_mem _ hc)) hb'

theorem Determined.mono {x : Action Name Content α} (h : Determined region x P)
    {weaker : α → Prop} (hpost : ∀ a, P a → weaker a) : Determined region x weaker := by
  obtain ⟨out, hwrites, hout⟩ := h
  exact ⟨out, hwrites, fun a ws ha => ⟨hpost a (hout a ws ha).1, (hout a ws ha).2⟩⟩

end

end

end FileTree
