import Zub1cg.Tooling.DocsTool.Manifest

/-!
# Conversions one after the other

What a document writes depends on its path and its bytes alone, and a document that is left as it is
was written by an earlier run from the same bytes. So a run without `clean` leaves what a run with
`clean` leaves, on top of what was there before; what earlier runs wrote for other documents is not
taken away.

## Main definitions

- `document` — what a document writes
- `Runs` — runs without `clean`, one after the other
- `Known` — what is known of the manifest after such runs

## Main results

- `writeDocument_determined` — a document writes the same wherever it is written
- `convertAll_spec` — a run writes all documents, as far as the files show
- `incremental` — runs without `clean` compared with one run with it
-/

namespace DocsTool

open Checked FileTree

/-! ### What a document writes -/

/-- The files of a document -/
def InDoc (root path : Path) : Prop :=
  path = root ++ [name "document.md"] ∨
    ∃ file, file ≠ name "document.md" ∧ path = root ++ [name "tables", file]

/-- The categories that there can be -/
def IsCategory (category : Text) : Prop :=
  category ∈ categoryWords.map (·.1.toList) ++ ["general".toList]

theorem classifyTable_isCategory (patterns : Patterns) (title : Text) (rows : List Row) :
    IsCategory (classifyTable patterns title rows) := by
  unfold classifyTable IsCategory
  dsimp only
  split
  · next category hfind =>
    exact List.mem_append_left _ (List.mem_map.2 ⟨category, List.mem_of_find?_eq_some hfind, rfl⟩)
  · exact List.mem_append_right _ (List.mem_singleton.2 rfl)

theorem tableOf_isCategory {patterns : Patterns} {lines : List Text} {page start : ℕ}
    {rows : List Row} {table : Table} (h : tableOf patterns lines page start rows = .ok table) :
    IsCategory table.category := by
  rw [tableOf, bind_ok] at h
  obtain ⟨rows', -, h⟩ := h
  rw [bind_ok] at h
  obtain ⟨title, -, h⟩ := h
  cases h
  exact classifyTable_isCategory _ _ _

theorem extractFrom_isCategory {patterns : Patterns} {lines : List Text} {page i : ℕ}
    {tables : List Table} (h : extractFrom patterns lines page i = .ok tables) :
    ∀ table ∈ tables, IsCategory table.category := by
  fun_induction extractFrom patterns lines page i generalizing tables with
  | case1 => cases h
  | case2 => cases h
  | case3 i hi hrow rows next hrows hnext hlength table htable ih =>
    cases hrest : extractFrom patterns lines page next with
    | error e =>
      rw [hrest] at h
      cases h
    | ok rest =>
      rw [hrest] at h
      cases h
      rw [List.forall_mem_cons]
      exact ⟨tableOf_isCategory htable, ih hrest⟩
  | case4 i hi hrow rows next hrows hnext hlength ih => exact ih h
  | case5 i hi hrow ih => exact ih h
  | case6 =>
    cases h
    exact nofun

theorem tablesOf_isCategory {patterns : Patterns} {pages : List (List Text)} {tables : List Table}
    (h : tablesOf patterns pages = .ok tables) : ∀ table ∈ tables, IsCategory table.category := by
  refine foldlM_ok (I := fun tables => ∀ table ∈ tables, IsCategory table.category)
    (fun tables htables page _ tables' hstep => ?_) nofun h
  rw [bind_ok] at hstep
  obtain ⟨more, hmore, hstep⟩ := hstep
  cases hstep
  intro table htable
  obtain htable | htable := List.mem_append.1 htable
  · exact htables table htable
  · exact extractFrom_isCategory hmore table htable

theorem category_ne {category : Text} (h : IsCategory category) :
    (Utf8.encode (category ++ ".md".toList)).map UInt8.toNat ≠ name "document.md" := by
  revert category
  unfold IsCategory
  decide +kernel

/-- A file that is written holds what was written to it. -/
theorem writeFile_writes (path : Path) (text : Text) :
    Writes (writeFile path text) (.ok ((), [(path, text)])) := by
  rintro fs ⟨⟩ fs' hrun
  refine ⟨_, rfl, fun p => ?_⟩
  obtain ⟨_, fs₁, hdirs, hrun⟩ := bind_run hrun
  have hfs₁ : contents fs₁ = contents fs := by
    rw [← contents_createDirs path.dropLast [] fs]
    exact congrArg (fun r => contents r.2) hdirs.symm
  obtain ⟨old, fs₂, hread, hrun⟩ := bind_run hrun
  cases hread
  rw [← hfs₁, lastWrite, lastWrite, Option.none_or]
  split at hrun
  · -- what is there already is not written again
    next hold =>
    cases hrun
    split
    · next hp =>
      rw [← hp, hold]
      rfl
    · rfl
  · unfold write at hrun
    split at hrun
    · cases hrun
    · cases hrun
      rw [contents_put_file]
      split <;> rfl

theorem writeFile_determined {region : Path → Prop} {path : Path} {text : Text}
    (h : region path) : Determined region (writeFile path text) fun _ => True := by
  refine ⟨_, writeFile_writes path text, ?_⟩
  rintro a ws ⟨rfl⟩
  exact ⟨trivial, by simpa using h⟩

theorem mem_categoriesOf {tables : List Table} {category : Text}
    (h : category ∈ categoriesOf tables) : ∃ table ∈ tables, table.category = category := by
  rw [categoriesOf, List.mem_insertionSort, List.mem_dedup, List.mem_map] at h
  exact h

/-- **What a document writes** depends on its path and its bytes alone, and is in its directory. -/
theorem writeDocument_determined (tools : Tools) (pdf : Path) (bytes : List UInt8) (sha256 : Text) :
    Determined (InDoc (withoutExtension pdf)) (writeDocument tools pdf bytes sha256)
      fun d => d.sourcePdf = slashes pdf ∧ d.sha256 = sha256 := by
  refine (Determined.lift fun tables htables => tablesOf_isCategory htables).bind
    fun tables htables => ?_
  refine (writeFile_determined (.inl rfl)).bind fun _ _ => ?_
  -- the categories are written one after the other, and none of them is that of the document
  refine (Determined.foldlM (I := fun _ => True) (fun acc _ category hcategory => ?_)
    trivial).bind fun acc _ => ?_
  · obtain ⟨table, htable, rfl⟩ := mem_categoriesOf hcategory
    refine (Determined.lift (P := fun _ => True) fun _ _ => trivial).bind fun output _ => ?_
    have hregion := category_ne (htables table htable)
    exact (writeFile_determined (.inr ⟨_, hregion, by simp⟩)).bind fun _ _ => .pure trivial
  · obtain ⟨index, manifestTables⟩ := acc
    refine (writeFile_determined (.inr ⟨name "index.md", by decide, by simp⟩)).bind fun _ _ => ?_
    exact .pure ⟨rfl, rfl⟩

/-- The answer for a document, and what it writes -/
noncomputable def document (tools : Tools) (pdf : Path) (bytes : List UInt8) :
    Result (DocumentManifest × List (Path × Text)) :=
  (writeDocument_determined tools pdf bytes (tools.sha256 bytes)).choose

theorem document_writes (tools : Tools) (pdf : Path) (bytes : List UInt8) :
    Writes (writeDocument tools pdf bytes (tools.sha256 bytes)) (document tools pdf bytes) :=
  (writeDocument_determined tools pdf bytes (tools.sha256 bytes)).choose_spec.1

theorem document_spec {tools : Tools} {pdf : Path} {bytes : List UInt8} {d : DocumentManifest}
    {ws : List (Path × Text)} (h : document tools pdf bytes = .ok (d, ws)) :
    d.sourcePdf = slashes pdf ∧ d.sha256 = tools.sha256 bytes ∧
      ∀ w ∈ ws, InDoc (withoutExtension pdf) w.1 := by
  obtain ⟨⟨hpdf, hsha⟩, hregion⟩ :=
    (writeDocument_determined tools pdf bytes (tools.sha256 bytes)).choose_spec.2 d ws h
  exact ⟨hpdf, hsha, hregion⟩

/-! ### One run -/

/-- An entry is the one for a document in a source directory. -/
def Made (tools : Tools) (source : Source) (pdf : Path) (d : DocumentManifest) : Prop :=
  ∃ bytes ws, source.bytes pdf = some bytes ∧ document tools pdf bytes = .ok (d, ws)

/-- What is written for a document in a source directory -/
noncomputable def writesOf (tools : Tools) (source : Source) (pdf : Path) : List (Path × Text) :=
  match source.bytes pdf with
  | some bytes =>
    match document tools pdf bytes with
    | .ok (_, ws) => ws
    | .error _ => []
  | none => []

theorem writesOf_eq {tools : Tools} {source : Source} {pdf : Path} {bytes : List UInt8}
    {d : DocumentManifest} {ws : List (Path × Text)} (hbytes : source.bytes pdf = some bytes)
    (h : document tools pdf bytes = .ok (d, ws)) : writesOf tools source pdf = ws := by
  rw [writesOf, hbytes]
  dsimp only
  rw [h]

theorem Made.unique {tools : Tools} {source : Source} {pdf : Path} {d d' : DocumentManifest}
    (h : Made tools source pdf d) (h' : Made tools source pdf d') : d = d' := by
  obtain ⟨bytes, ws, hbytes, hd⟩ := h
  obtain ⟨bytes', ws', hbytes', hd'⟩ := h'
  cases hbytes.symm.trans hbytes'
  cases hd.symm.trans hd'
  rfl

/-- A document is not left as it is. -/
def converts (tools : Tools) (source : Source) (cached : List DocumentManifest) (pdf : Path) :
    Bool :=
  match source.bytes pdf with
  | some bytes =>
    ((cachedEntry cached (slashes pdf)).filter (·.sha256 = tools.sha256 bytes)).isNone
  | none => true

/-- The entries that are found for the documents of a source directory are theirs. -/
def Good (tools : Tools) (source : Source) (cached : List DocumentManifest) : Prop :=
  ∀ pdf ∈ source.pdfs, converts tools source cached pdf = false →
    ∀ entry, cachedEntry cached (slashes pdf) = some entry → Made tools source pdf entry

/-- One turn of the loop over the PDFs -/
theorem convertPdf_spec {tools : Tools} {source : Source} {cached : List DocumentManifest}
    (hgood : Good tools source cached) {pdf : Path} (hpdf : pdf ∈ source.pdfs)
    {docs docs' : List DocumentManifest} {fs fs' : Tree Name Text}
    (h : convertPdf tools source cached docs pdf fs = (.ok docs', fs')) :
    ∃ d, docs' = docs ++ [d] ∧ Made tools source pdf d ∧
      ∀ path, contents fs' path = (lastWrite
        (if converts tools source cached pdf then writesOf tools source pdf else []) path).or
          (contents fs path) := by
  obtain ⟨bytes, fs₁, hbytes, h⟩ := bind_run h
  have hsome : source.bytes pdf = some bytes := by
    cases hsource : source.bytes pdf with
    | none =>
      rw [hsource] at hbytes
      cases hbytes
    | some bytes' =>
      rw [hsource] at hbytes
      cases hbytes
      rfl
  rw [hsome] at hbytes
  cases hbytes
  dsimp only at h
  cases hentry : (cachedEntry cached (slashes pdf)).filter (·.sha256 = tools.sha256 bytes) with
  | some entry =>
    rw [hentry] at h
    cases h
    have hconverts : converts tools source cached pdf = false := by
      rw [converts, hsome]
      simp [hentry]
    refine ⟨entry, rfl, hgood pdf hpdf hconverts entry (Option.filter_eq_some_iff.1 hentry).1, ?_⟩
    simp [hconverts, lastWrite]
  | none =>
    rw [hentry] at h
    obtain ⟨d, fs₁, hrun, h⟩ := bind_run h
    cases h
    obtain ⟨ws, hout, hcontents⟩ := document_writes tools pdf bytes _ _ _ hrun
    have hconverts : converts tools source cached pdf = true := by
      rw [converts, hsome]
      simp [hentry]
    refine ⟨d, rfl, ⟨bytes, ws, hsome, hout⟩, fun path => ?_⟩
    rw [hcontents, if_pos hconverts, writesOf_eq hsome hout]

/-- The loop over the PDFs -/
theorem convertPdfs_spec {tools : Tools} {source : Source} {cached : List DocumentManifest}
    (hgood : Good tools source cached) {pdfs : List Path} (hpdfs : ∀ pdf ∈ pdfs, pdf ∈ source.pdfs)
    {docs docs' : List DocumentManifest} {fs fs' : Tree Name Text}
    (h : pdfs.foldlM (convertPdf tools source cached) docs fs = (.ok docs', fs')) :
    ∃ made, docs' = docs ++ made ∧ List.Forall₂ (Made tools source) pdfs made ∧
      ∀ path, contents fs' path = (lastWrite
        ((pdfs.filter (converts tools source cached)).flatMap (writesOf tools source)) path).or
          (contents fs path) := by
  induction pdfs generalizing docs fs with
  | nil =>
    cases h
    exact ⟨[], (List.append_nil _).symm, .nil, fun path => rfl⟩
  | cons pdf pdfs ih =>
    rw [List.foldlM_cons] at h
    obtain ⟨docs₁, fs₁, hfirst, h⟩ := bind_run h
    obtain ⟨d, rfl, hd, hcontents⟩ := convertPdf_spec hgood (hpdfs pdf List.mem_cons_self) hfirst
    obtain ⟨made, rfl, hmade, hcontents'⟩ :=
      ih (fun pdf h => hpdfs pdf (List.mem_cons_of_mem _ h)) h
    refine ⟨d :: made, by simp, .cons hd hmade, fun path => ?_⟩
    rw [hcontents', hcontents, ← Option.or_assoc, List.filter_cons]
    split
    · rw [List.flatMap_cons, lastWrite_append]
    · rw [lastWrite, Option.or_none]

/-! ### Documents next to each other -/

/-- No two PDFs of a source directory have the same directory under the output directory. -/
def Source.RootsDistinct (source : Source) : Prop :=
  ∀ p ∈ source.pdfs, ∀ q ∈ source.pdfs, withoutExtension p = withoutExtension q → p = q

/-- The files of different documents are different. -/
theorem InDoc.root_eq {r r' path : Path} (h : InDoc r path) (h' : InDoc r' path) : r = r' := by
  obtain rfl | ⟨file, hfile, rfl⟩ := h
  · obtain h' | ⟨file, hfile, h'⟩ := h'
    · exact (List.append_inj' h' rfl).1
    · rw [List.append_cons r' (name "tables") [file]] at h'
      exact absurd (List.cons.inj (List.append_inj' h' rfl).2).1.symm hfile
  · obtain h' | ⟨file', hfile', h'⟩ := h'
    · rw [List.append_cons r (name "tables") [file]] at h'
      exact absurd (List.cons.inj (List.append_inj' h' rfl).2).1 hfile
    · exact (List.append_inj' h' rfl).1

/-- No document writes to the output directory itself. -/
theorem InDoc.ne_singleton {r path : Path} (hr : r ≠ []) (h : InDoc r path) (n : Name) :
    path ≠ [n] := by
  rintro rfl
  have hlength := List.length_pos_of_ne_nil hr
  obtain h | ⟨file, -, h⟩ := h
  all_goals
    have h := congrArg List.length h
    simp only [List.length_append, List.length_cons, List.length_nil] at h
    omega

theorem withoutExtension_ne (pdf : Path) : withoutExtension pdf ≠ [] := by simp [withoutExtension]

theorem inDoc_of_mem {tools : Tools} {source : Source} {pdf path : Path}
    (h : path ∈ (writesOf tools source pdf).map Prod.fst) : InDoc (withoutExtension pdf) path := by
  obtain ⟨w, hw, rfl⟩ := List.mem_map.1 h
  unfold writesOf at hw
  split at hw
  · split at hw
    · next hd => exact (document_spec hd).2.2 w hw
    · cases hw
  · cases hw

theorem Source.nodup_pdfs (source : Source) : source.pdfs.Nodup := by
  have hsort : ∀ l : List Path, l.Nodup → (l.insertionSort (· ≤ ·)).Nodup := fun l hl =>
    (List.perm_insertionSort _ l).nodup_iff.2 hl
  refine List.nodup_append'.2 ⟨hsort _ (source.nodup.filter _), hsort _ (source.nodup.filter _), ?_⟩
  intro pdf hlower hupper
  rw [List.mem_insertionSort, List.mem_filter, decide_eq_true_eq] at hlower hupper
  exact absurd (hlower.2.symm.trans hupper.2) (by decide)

theorem disjoint_writesOf (tools : Tools) {source : Source} (hroots : source.RootsDistinct) :
    Disjoint (writesOf tools source) source.pdfs := by
  refine List.Pairwise.imp_of_mem ?_ source.nodup_pdfs
  intro p q hp hq hne path hpathp hpathq
  exact hne (hroots p hp q hq ((inDoc_of_mem hpathp).root_eq (inDoc_of_mem hpathq)))

/-! ### A whole run -/

/-- All that a run writes, if no document is left as it is -/
noncomputable def allWrites (tools : Tools) (source : Source) (json : Text) : List (Path × Text) :=
  source.pdfs.flatMap (writesOf tools source) ++
    [([name "manifest.json"], ensureAsciiJson json ++ ['\n']), ([name "README.md"], readme)]

/-- The files of the documents that are left as they are have been written before. -/
def Kept (tools : Tools) (source : Source) (cached : List DocumentManifest)
    (fs : Tree Name Text) : Prop :=
  ∀ pdf ∈ source.pdfs, converts tools source cached pdf = false → ∀ path text,
    lastWrite (writesOf tools source pdf) path = some text → contents fs path = some text

/-- **A run** leaves what it would if no document were left as it is. -/
theorem convertAll_spec {tools : Tools} {source : Source} (hroots : source.RootsDistinct)
    {cached : List DocumentManifest} {fs fs' : Tree Name Text} (hgood : Good tools source cached)
    (hkept : Kept tools source cached fs) {n : ℕ}
    (h : convertAll tools source cached fs = (.ok n, fs')) :
    ∃ made json, List.Forall₂ (Made tools source) source.pdfs made ∧
      tools.toStringPretty ⟨1, replace '\\' ['/'] source.path, made⟩ = .ok json ∧
      ∀ path, contents fs' path =
        (lastWrite (allWrites tools source json) path).or (contents fs path) := by
  obtain ⟨_, fs₁, hensure, h⟩ := bind_run h
  obtain ⟨-, rfl⟩ := Prod.mk.inj hensure
  obtain ⟨made, fs₁, hloop, h⟩ := bind_run h
  obtain ⟨made, rfl, hmade, hcontents⟩ := convertPdfs_spec hgood (fun _ h => h) hloop
  obtain ⟨_, fs₂, hdirs, h⟩ := bind_run h
  have hfs₂ : contents fs₂ = contents fs₁ := by
    rw [← contents_createDirs [] [] fs₁]
    exact congrArg (fun r => contents r.2) hdirs.symm
  obtain ⟨json, fs₃, hjson, h⟩ := bind_run h
  unfold FileTree.lift at hjson
  obtain ⟨hjson, rfl⟩ := Prod.mk.inj hjson
  have hpretty : tools.toStringPretty ⟨1, replace '\\' ['/'] source.path, made⟩ = .ok json := by
    split at hjson
    · next hpretty =>
      cases hjson
      exact hpretty
    · cases hjson
  obtain ⟨_, fs₄, hmanifest, h⟩ := bind_run h
  obtain ⟨_, fs₅, hreadme, h⟩ := bind_run h
  obtain ⟨-, rfl⟩ := Prod.mk.inj h
  obtain ⟨ws, ⟨⟩, hmanifest⟩ := writeFile_writes _ _ _ _ _ hmanifest
  obtain ⟨ws, ⟨⟩, hreadme⟩ := writeFile_writes _ _ _ _ _ hreadme
  refine ⟨made, json, hmade, hpretty, fun path => ?_⟩
  have hsplit : ∀ a b : Path × Text, [a, b] = [a] ++ [b] := fun _ _ => rfl
  rw [hreadme, hmanifest, hfs₂, hcontents, lastWrite_skip (disjoint_writesOf tools hroots) _ hkept,
    allWrites, hsplit, lastWrite_append, lastWrite_append, Option.or_assoc, Option.or_assoc]

theorem exists_made {tools : Tools} {source : Source} {pdfs : List Path}
    {made : List DocumentManifest} (h : List.Forall₂ (Made tools source) pdfs made)
    {d : DocumentManifest} (hd : d ∈ made) : ∃ pdf ∈ pdfs, Made tools source pdf d := by
  induction h with
  | nil => cases hd
  | cons hfirst _ ih =>
    obtain rfl | hd := List.mem_cons.1 hd
    · exact ⟨_, List.mem_cons_self, hfirst⟩
    · obtain ⟨pdf, hpdf, hmade⟩ := ih hd
      exact ⟨pdf, List.mem_cons_of_mem _ hpdf, hmade⟩

/-- The entries for the documents of a source directory are the same in every run. -/
theorem made_unique {tools : Tools} {source : Source} {pdfs : List Path}
    {made made' : List DocumentManifest} (h : List.Forall₂ (Made tools source) pdfs made)
    (h' : List.Forall₂ (Made tools source) pdfs made') : made = made' := by
  induction h generalizing made' with
  | nil =>
    cases h'
    rfl
  | cons hd _ ih =>
    cases h' with
    | cons hd' htail => rw [hd.unique hd', ih htail]

/-! ### Runs one after the other -/

/-- Runs without `clean`, from an empty output directory on -/
inductive Runs (tools : Tools) : List Source → Tree Name Text → Prop
  | nil : Runs tools [] empty
  | snoc {history : List Source} {source : Source} {fs fs' : Tree Name Text} {n : ℕ}
      (h : Runs tools history fs) (hrun : convert tools source false fs = (.ok n, fs')) :
      Runs tools (history ++ [source]) fs'

/-- Different paths of PDFs stay different in the manifest. -/
def KeysDistinct (history : List Source) : Prop :=
  ∀ s ∈ history, ∀ t ∈ history, ∀ p ∈ s.pdfs, ∀ q ∈ t.pdfs, slashes p = slashes q → p = q

/-- Different contents of a PDF have different hashes. -/
def HashesDistinct (tools : Tools) (history : List Source) : Prop :=
  ∀ s ∈ history, ∀ t ∈ history, ∀ p bytes bytes', s.bytes p = some bytes →
    t.bytes p = some bytes' → tools.sha256 bytes = tools.sha256 bytes' → bytes = bytes'

/-- The documents of the manifest that is there -/
def manifestDocuments (tools : Tools) (fs : Tree Name Text) : List DocumentManifest :=
  match (contents fs [name "manifest.json"]).bind tools.fromStr with
  | some manifest => manifest.documents
  | none => []

/-- Every entry of the manifest is the one for a document of some run, and what that document wrote
is there. -/
def Known (tools : Tools) (history : List Source) (fs : Tree Name Text) : Prop :=
  ∀ entry ∈ manifestDocuments tools fs, ∃ source ∈ history, ∃ pdf ∈ source.pdfs,
    Made tools source pdf entry ∧ ∀ path text,
      lastWrite (writesOf tools source pdf) path = some text → contents fs path = some text

theorem cachedEntry_some {cached : List DocumentManifest} {sourcePdf : Text}
    {entry : DocumentManifest} (h : cachedEntry cached sourcePdf = some entry) :
    entry ∈ cached ∧ entry.sourcePdf = sourcePdf :=
  ⟨List.mem_reverse.1 (List.mem_of_find?_eq_some h), by simpa using List.find?_some h⟩

/-- An entry that is found is the one for the document as it is now. -/
theorem Known.bytes_eq {tools : Tools} {history : List Source} {last : Source}
    {fs : Tree Name Text} (hkeys : KeysDistinct (history ++ [last]))
    (hhashes : HashesDistinct tools (history ++ [last])) (h : Known tools history fs) {pdf : Path}
    (hpdf : pdf ∈ last.pdfs)
    (hconverts : converts tools last (manifestDocuments tools fs) pdf = false) :
    ∃ entry bytes ws, cachedEntry (manifestDocuments tools fs) (slashes pdf) = some entry ∧
      last.bytes pdf = some bytes ∧ document tools pdf bytes = .ok (entry, ws) ∧
      ∀ path text, lastWrite ws path = some text → contents fs path = some text := by
  unfold converts at hconverts
  split at hconverts
  · next bytes hbytes =>
    rw [Option.isNone_eq_false_iff, Option.isSome_iff_exists] at hconverts
    obtain ⟨entry, hentry⟩ := hconverts
    obtain ⟨hfound, hsha⟩ := Option.filter_eq_some_iff.1 hentry
    obtain ⟨hmem, hkey⟩ := cachedEntry_some hfound
    obtain ⟨source, hsource, p, hp, ⟨bytes', ws, hbytes', hdocument⟩, hfiles⟩ := h entry hmem
    obtain ⟨hp', hsha', -⟩ := document_spec hdocument
    -- the key gives the path, and then the hash gives the bytes
    have hmemSource : source ∈ history ++ [last] := List.mem_append_left _ hsource
    have hmemLast : last ∈ history ++ [last] := List.mem_append_right _ (List.mem_singleton.2 rfl)
    obtain rfl : p = pdf := hkeys source hmemSource last hmemLast p hp pdf hpdf (hp'.symm.trans hkey)
    obtain rfl : bytes' = bytes := hhashes source hmemSource last hmemLast p bytes' bytes hbytes'
      hbytes (hsha'.symm.trans (by simpa using hsha))
    rw [writesOf_eq hbytes' hdocument] at hfiles
    exact ⟨entry, bytes', ws, hfound, hbytes, hdocument, hfiles⟩
  · cases hconverts

theorem Known.good {tools : Tools} {history : List Source} {last : Source}
    {fs : Tree Name Text} (hkeys : KeysDistinct (history ++ [last]))
    (hhashes : HashesDistinct tools (history ++ [last])) (h : Known tools history fs) :
    Good tools last (manifestDocuments tools fs) ∧
      Kept tools last (manifestDocuments tools fs) fs := by
  constructor
  · intro pdf hpdf hconverts entry hentry
    obtain ⟨entry', bytes, ws, hentry', hbytes, hdocument, -⟩ :=
      h.bytes_eq hkeys hhashes hpdf hconverts
    cases hentry.symm.trans hentry'
    exact ⟨bytes, ws, hbytes, hdocument⟩
  · intro pdf hpdf hconverts path text htext
    obtain ⟨entry, bytes, ws, -, hbytes, hdocument, hfiles⟩ :=
      h.bytes_eq hkeys hhashes hpdf hconverts
    rw [writesOf_eq hbytes hdocument] at htext
    exact hfiles path text htext

theorem convert_eq (tools : Tools) (source : Source) (fs : Tree Name Text) :
    convert tools source false fs = convertAll tools source (manifestDocuments tools fs) fs := by
  have hcached : cachedDocuments tools fs = (.ok (manifestDocuments tools fs), fs) := by
    change (match (contents fs [name "manifest.json"]).bind tools.fromStr with
      | some manifest => (pure manifest.documents : Run _)
      | none => pure []) fs = _
    unfold manifestDocuments
    cases (contents fs [name "manifest.json"]).bind tools.fromStr <;> rfl
  rw [convert, if_neg Bool.false_ne_true, bind_of_run hcached]

theorem convert_clean_eq (tools : Tools) (source : Source) (fs : Tree Name Text) :
    convert tools source true fs = convertAll tools source [] empty := rfl

section

variable {tools : Tools} (hlawful : tools.Lawful)

include hlawful

/-- A run without `clean` after others. -/
theorem convert_spec {history : List Source} {last : Source} {fs fs' : Tree Name Text}
    (hkeys : KeysDistinct (history ++ [last])) (hhashes : HashesDistinct tools (history ++ [last]))
    (hroots : last.RootsDistinct) (hknown : Known tools history fs) {n : ℕ}
    (hrun : convert tools last false fs = (.ok n, fs')) :
    Known tools (history ++ [last]) fs' ∧
      ∃ made json, List.Forall₂ (Made tools last) last.pdfs made ∧
        tools.toStringPretty ⟨1, replace '\\' ['/'] last.path, made⟩ = .ok json ∧
        ∀ path, contents fs' path =
          (lastWrite (allWrites tools last json) path).or (contents fs path) := by
  obtain ⟨hgood, hkept⟩ := hknown.good hkeys hhashes
  rw [convert_eq] at hrun
  obtain ⟨made, json, hmade, hjson, hcontents⟩ := convertAll_spec hroots hgood hkept hrun
  refine ⟨?_, made, json, hmade, hjson, hcontents⟩
  have hmanifest : manifestDocuments tools fs' = made := by
    have htext : contents fs' [name "manifest.json"] = some (ensureAsciiJson json ++ ['\n']) := by
      rw [hcontents, allWrites, lastWrite_append]
      rfl
    rw [manifestDocuments, htext]
    simp only [Option.bind_some, hlawful.fromStr_eq hjson]
  intro entry hentry
  rw [hmanifest] at hentry
  obtain ⟨pdf, hpdf, hd⟩ := exists_made hmade hentry
  refine ⟨last, List.mem_append_right _ (List.mem_singleton.2 rfl), pdf, hpdf, hd, ?_⟩
  intro path text htext
  have hne := (inDoc_of_mem (mem_of_lastWrite htext)).ne_singleton (withoutExtension_ne pdf)
  have hlast : lastWrite [([name "manifest.json"], ensureAsciiJson json ++ ['\n']),
      ([name "README.md"], readme)] path = none := by
    rw [lastWrite_eq_none]
    simp [hne]
  rw [hcontents, allWrites, lastWrite_append, hlast, Option.none_or,
    lastWrite_flatMap (disjoint_writesOf tools hroots) hpdf htext]
  rfl

/-- What is known after runs without `clean` -/
theorem runs_known {history : List Source} {fs : Tree Name Text} (hruns : Runs tools history fs)
    (hkeys : KeysDistinct history) (hhashes : HashesDistinct tools history)
    (hroots : ∀ source ∈ history, source.RootsDistinct) : Known tools history fs := by
  induction hruns with
  | nil => exact nofun
  | @snoc history source fs fs' n _ hrun ih =>
    have hleft : ∀ s ∈ history, s ∈ history ++ [source] := fun s => List.mem_append_left _
    have hknown := ih (fun s hs t ht => hkeys s (hleft s hs) t (hleft t ht))
      (fun s hs t ht => hhashes s (hleft s hs) t (hleft t ht)) fun s hs => hroots s (hleft s hs)
    exact (convert_spec hlawful hkeys hhashes
      (hroots source (List.mem_append_right _ (List.mem_singleton.2 rfl))) hknown hrun).1

end

/-! ### The last run -/

/-- Two source directories are the same, whatever the order in which their files are found. -/
def Source.Same (s t : Source) : Prop := s.path = t.path ∧ s.files.Perm t.files

theorem Source.Same.pdfs_eq {s t : Source} (h : s.Same t) : s.pdfs = t.pdfs := by
  have hsort : ∀ l l' : List Path, l.Perm l' →
      l.insertionSort (· ≤ ·) = l'.insertionSort (· ≤ ·) := fun l l' hperm =>
    List.Perm.eq_of_pairwise' (List.pairwise_insertionSort _ l) (List.pairwise_insertionSort _ l')
      (((List.perm_insertionSort _ l).trans hperm).trans (List.perm_insertionSort _ l').symm)
  have hpaths := h.2.map Prod.fst
  unfold Source.pdfs
  dsimp only
  rw [hsort _ _ (hpaths.filter _), hsort _ _ (hpaths.filter _)]

theorem lookup_eq_some {l : List (Path × List UInt8)} (hnodup : (l.map Prod.fst).Nodup)
    {path : Path} {bytes : List UInt8} : l.lookup path = some bytes ↔ (path, bytes) ∈ l := by
  induction l with
  | nil => simp
  | cons entry l ih =>
    obtain ⟨p, b⟩ := entry
    obtain ⟨hhead, htail⟩ := List.nodup_cons.1 hnodup
    rw [List.lookup_cons, List.mem_cons, ← ih htail]
    by_cases hp : path = p
    · subst hp
      have hnone : l.lookup path ≠ some bytes := fun h =>
        hhead (List.mem_map.2 ⟨_, (ih htail).1 h, rfl⟩)
      simp [hnone, eq_comm]
    · simp [hp, beq_false_of_ne hp]

theorem Source.Same.bytes_eq {s t : Source} (h : s.Same t) (pdf : Path) :
    s.bytes pdf = t.bytes pdf := by
  apply Option.ext
  intro bytes
  rw [Source.bytes, Source.bytes, lookup_eq_some s.nodup, lookup_eq_some t.nodup, h.2.mem_iff]

/-- What a document writes does not depend on the order either. -/
theorem Source.Same.made {tools : Tools} {s t : Source} (h : s.Same t) {pdf : Path}
    {d : DocumentManifest} (hd : Made tools s pdf d) : Made tools t pdf d := by
  obtain ⟨bytes, ws, hbytes, hdocument⟩ := hd
  exact ⟨bytes, ws, h.bytes_eq pdf ▸ hbytes, hdocument⟩

theorem Source.Same.allWrites_eq {tools : Tools} {s t : Source} (h : s.Same t) (json : Text) :
    allWrites tools s json = allWrites tools t json := by
  have hwrites : writesOf tools s = writesOf tools t := by
    funext pdf
    rw [writesOf, writesOf, h.bytes_eq]
  rw [allWrites, allWrites, hwrites, h.pdfs_eq]

/-- **Runs without `clean`** leave every file that one run with `clean` leaves, with the same
contents; every other file is left as it was before the last run. -/
theorem incremental {tools : Tools} (hlawful : tools.Lawful) {history : List Source}
    {last clean : Source} (hsame : last.Same clean) (hkeys : KeysDistinct (history ++ [last]))
    (hhashes : HashesDistinct tools (history ++ [last]))
    (hroots : ∀ source ∈ history ++ [last], source.RootsDistinct)
    {fs fs' before after : Tree Name Text} {n m : ℕ} (hruns : Runs tools history fs)
    (hrun : convert tools last false fs = (.ok n, fs'))
    (hclean : convert tools clean true before = (.ok m, after)) (path : Path) :
    contents fs' path = (contents after path).or (contents fs path) := by
  have hleft : ∀ s ∈ history, s ∈ history ++ [last] := fun s => List.mem_append_left _
  have hroot := hroots last (List.mem_append_right _ (List.mem_singleton.2 rfl))
  have hknown := runs_known hlawful hruns (fun s hs t ht => hkeys s (hleft s hs) t (hleft t ht))
    (fun s hs t ht => hhashes s (hleft s hs) t (hleft t ht)) fun s hs => hroots s (hleft s hs)
  obtain ⟨-, made, json, hmade, hjson, hcontents⟩ :=
    convert_spec hlawful hkeys hhashes hroot hknown hrun
  have hrootClean : clean.RootsDistinct := by
    unfold Source.RootsDistinct
    rwa [← hsame.pdfs_eq]
  have hnone : ∀ pdf, converts tools clean [] pdf = true := by
    intro pdf
    unfold converts
    split <;> rfl
  rw [convert_clean_eq] at hclean
  obtain ⟨made', json', hmade', hjson', hcontents'⟩ := convertAll_spec hrootClean
    (fun pdf _ hconverts => absurd (hnone pdf) (by simp [hconverts]))
    (fun pdf _ hconverts => absurd (hnone pdf) (by simp [hconverts])) hclean
  have hmadeEq : made = made' := by
    rw [hsame.pdfs_eq] at hmade
    exact made_unique (hmade.imp fun _ _ => hsame.made) hmade'
  have hjsonEq : json = json' := by
    rw [hmadeEq, hsame.1, hjson'] at hjson
    exact (Except.ok.inj hjson).symm
  rw [hcontents, hcontents', hsame.allWrites_eq, hjsonEq, contents_empty, Option.or_none]

/-! ### Two runs -/

/-- A tool for PDFs of one page without a text layer. -/
def sampleTools : Tools where
  patterns :=
    { multiSpace := fun text => [text], pageNumber := fun _ => false, heading := fun _ => false,
      compactCell := fun _ => false, digits := fun _ => false, designator := fun _ => false,
      toLowercase := id }
  pdftotext := fun _ => ['\x0c']
  sha256 := fun bytes =>
    if bytes = Utf8.encode "%PDF-1".toList then
      "21af8e71c8703196df7fe1ff901869a88fe64c07bbaa83d838efb45a52b4f303".toList
    else "468b145bbc44c6e9436af27c6aa4378a76b0e1c52829f59abd537da87572f240".toList
  toStringPretty := fun manifest => .ok manifest.text
  fromStr := fun text => (Json.parse (String.ofList text)).bind readManifest

theorem sampleTools_lawful : sampleTools.Lawful := lawful_of_eq (fun _ => rfl) fun _ => rfl

def fileA : Path × List UInt8 := ([name "a.pdf"], Utf8.encode "%PDF-1".toList)

def fileB : Path × List UInt8 := ([name "b.pdf"], Utf8.encode "%PDF-2".toList)

def onlyA : Source := ⟨"docs".toList, [fileA], by decide⟩

def onlyB : Source := ⟨"docs".toList, [fileB], by decide⟩

def bothAB : Source := ⟨"docs".toList, [fileA, fileB], by decide⟩

def bothBA : Source := ⟨"docs".toList, [fileB, fileA], by decide⟩

def afterA : Tree Name Text := (convert sampleTools onlyA false empty).2

theorem runs_onlyA : Runs sampleTools [onlyA] afterA := by
  have hok : (convert sampleTools onlyA false empty).1 = .ok 1 := by decide +kernel
  exact .snoc .nil (Prod.fst_eq_iff.1 hok)

def documentA : DocumentManifest where
  sourcePdf := "a.pdf".toList
  output := "a".toList
  sha256 := "21af8e71c8703196df7fe1ff901869a88fe64c07bbaa83d838efb45a52b4f303".toList
  pages := 1
  textCharacters := 0
  tables := []
  warning := some "No text layer found; OCR the PDF and rerun.".toList

theorem manifestDocuments_afterA : manifestDocuments sampleTools afterA = [documentA] := by
  have htext : contents afterA [name "manifest.json"] =
      some (ensureAsciiJson (Manifest.text ⟨1, "docs".toList, [documentA]⟩) ++ ['\n']) := by
    decide +kernel
  rw [manifestDocuments, htext, Option.bind_some, sampleTools_lawful.fromStr_eq rfl]

/-- A document is added. -/
theorem incremental_bothAB : contents (convert sampleTools bothAB false afterA).2 =
    fun path => (contents (convert sampleTools bothBA true empty).2 path).or
      (contents afterA path) := by
  have hfiles : ∀ s ∈ [onlyA] ++ [bothAB], ∀ p bytes, s.bytes p = some bytes →
      (p, bytes) = fileA ∨ (p, bytes) = fileB := by
    intro s hs p bytes h
    rw [Source.bytes, lookup_eq_some s.nodup] at h
    obtain rfl | rfl := List.mem_pair.1 hs
    · exact .inl (List.mem_singleton.1 h)
    · exact List.mem_pair.1 h
  have hhashes : HashesDistinct sampleTools ([onlyA] ++ [bothAB]) := by
    intro s hs t ht p bytes bytes' hbytes hbytes' _
    obtain h | h := hfiles s hs p bytes hbytes <;> obtain h' | h' := hfiles t ht p bytes' hbytes'
    · exact (congrArg Prod.snd h).trans (congrArg Prod.snd h').symm
    · have hA : p = fileA.1 := congrArg Prod.fst h
      have hB : p = fileB.1 := congrArg Prod.fst h'
      exact absurd (hA.symm.trans hB) (by decide)
    · have hB : p = fileB.1 := congrArg Prod.fst h
      have hA : p = fileA.1 := congrArg Prod.fst h'
      exact absurd (hA.symm.trans hB) (by decide)
    · exact (congrArg Prod.snd h).trans (congrArg Prod.snd h').symm
  have hrun : (convert sampleTools bothAB false afterA).1 = .ok 2 := by
    rw [convert_eq, manifestDocuments_afterA]
    decide +kernel
  have hclean : (convert sampleTools bothBA true empty).1 = .ok 2 := by decide +kernel
  have hsame : bothAB.Same bothBA := ⟨rfl, List.Perm.swap _ _ _⟩
  funext path
  exact incremental sampleTools_lawful hsame
    (by unfold KeysDistinct; decide +kernel) hhashes
    (by unfold Source.RootsDistinct; decide +kernel) runs_onlyA (Prod.fst_eq_iff.1 hrun)
    (Prod.fst_eq_iff.1 hclean) path

/-- A document is removed, and what was written for it is left. -/
theorem stale_onlyB : Runs sampleTools [onlyA] afterA ∧
    (convert sampleTools onlyB false afterA).1 = .ok 1 ∧
    (convert sampleTools onlyB true empty).1 = .ok 1 ∧
    contents (convert sampleTools onlyB false afterA).2 ≠
      contents (convert sampleTools onlyB true empty).2 := by
  have hrun : convert sampleTools onlyB false afterA =
      convertAll sampleTools onlyB [documentA] afterA := by
    rw [convert_eq, manifestDocuments_afterA]
  refine ⟨runs_onlyA, ?_, by decide +kernel, fun h => ?_⟩
  · rw [hrun]
    decide +kernel
  · have hpath := congrFun h [name "a", name "document.md"]
    rw [hrun] at hpath
    revert hpath
    decide +kernel

end DocsTool
