import Workload.Proofs.ArgumentLists
import Workload.Provider.OnDemand
import Workload.Rehearsal
import Workload.Run.Resolve

/-!
# Includes

An include without patterns names files, one after the other.  It takes over what the ones that load define, so that
of all definitions of a name the last one in the last of these files stays, and names that none of them defines keep
what they stand for.  Each of the other files leaves one warning and nothing else (`State.include_merges`).
-/

namespace Workload

/-! ## Definitions that come later -/

namespace TemplateCache

variable {name : String}

theorem get?_insert_self (c : TemplateCache) (t : Template) : (c.insert t).get? t.name = some t.actions := by
  obtain ⟨entries⟩ := c
  unfold insert get?
  induction entries with
  | nil => simp [put]
  | cons e es ih =>
    by_cases h : e.name = t.name
    · simp [put, h]
    · simpa [put, h] using ih

theorem get?_insert_of_ne (c : TemplateCache) {t : Template} (h : t.name ≠ name) :
    (c.insert t).get? name = c.get? name := by
  obtain ⟨entries⟩ := c
  unfold insert get?
  induction entries with
  | nil => simp [put, h]
  | cons e es ih =>
    by_cases he : e.name = t.name
    · simp [put, he, h]
    · by_cases hn : e.name = name
      · simp [put, hn, hn ▸ he]
      · simpa [put, he, hn] using ih

/-- A name that no template has keeps what it stands for. -/
theorem get?_insertAll_of_ne {ts : List Template} (h : ∀ u ∈ ts, u.name ≠ name) (c : TemplateCache) :
    (c.insertAll ts).get? name = c.get? name := by
  unfold insertAll
  induction ts generalizing c with
  | nil => rfl
  | cons t ts ih =>
    rw [List.foldl_cons, ih fun u hu => h u (List.mem_cons_of_mem t hu), get?_insert_of_ne c (h t List.mem_cons_self)]

theorem insertAll_append (c : TemplateCache) (ts us : List Template) :
    c.insertAll (ts ++ us) = (c.insertAll ts).insertAll us :=
  List.foldl_append

/-- Of the templates of a name the last one stays. -/
theorem get?_insertAll_last {t : Template} {later : List Template} (h : ∀ u ∈ later, u.name ≠ t.name)
    (c : TemplateCache) (earlier : List Template) :
    (c.insertAll (earlier ++ t :: later)).get? t.name = some t.actions := by
  rw [insertAll_append]
  show (((c.insertAll earlier).insert t).insertAll later).get? t.name = _
  rw [get?_insertAll_of_ne h, get?_insert_self]

end TemplateCache

/-! ## The files of an include -/

namespace Text

theorem mem_of_mem_splitAt {sep c : Char} {s piece : List Char} (h : piece ∈ splitAt sep s) (hc : c ∈ piece) :
    c ∈ s := by
  induction s using @pieces_induction sep with
  | last x hx =>
    rw [splitAt_of_not_mem hx, List.mem_singleton] at h
    exact h ▸ hc
  | step x s hx ih =>
    rw [splitAt_append_sep, splitAt_of_not_mem hx, List.singleton_append, List.mem_cons] at h
    rcases h with rfl | h
    · exact List.mem_append_left _ hc
    · exact List.mem_append_right _ (List.mem_cons_of_mem _ (ih h))

theorem mem_of_mem_trim {c : Char} {s : List Char} (h : c ∈ trim s) : c ∈ s := by
  unfold trim trimEnd trimStart at h
  exact (List.dropWhile_sublist _).mem (List.mem_reverse.1 ((List.dropWhile_sublist _).mem (List.mem_reverse.1 h)))

end Text

namespace Files

/-- What the files define that load, in order. -/
def definitions (fs : Files) (entries : List String) : List Template :=
  entries.flatMap fun e => (fs.readTemplates e).toOption.getD []

theorem mem_definitions {fs : Files} {paths : List String} {u : Template} :
    u ∈ fs.definitions paths ↔ ∃ p ∈ paths, ∃ ts, fs.readTemplates p = .ok ts ∧ u ∈ ts := by
  unfold definitions
  rw [List.mem_flatMap]
  refine exists_congr fun p => and_congr_right fun _ => ?_
  cases fs.readTemplates p <;> simp [Except.toOption]

theorem definitions_cons (fs : Files) (path : String) (paths : List String) :
    fs.definitions (path :: paths) = fs.definitions [path] ++ fs.definitions paths := by
  unfold definitions
  rw [List.flatMap_cons, List.flatMap_singleton]

/-- The entries whose files do not load. -/
def unloadable (fs : Files) (entries : List String) : List String :=
  entries.filter fun e => (fs.readTemplates e).toOption.isNone

theorem unloadable_cons (fs : Files) (path : String) (paths : List String) :
    fs.unloadable (path :: paths) = fs.unloadable [path] ++ fs.unloadable paths :=
  List.filter_append [path] paths

/-- A file loads if it can be read and its text is that of a list of templates. -/
theorem readTemplates_eq_ok_iff {fs : Files} {path : String} {ts : List Template} :
    fs.readTemplates path = .ok ts ↔ ∃ text, fs.readText path = .ok text ∧ Template.listOfText? text = some ts := by
  unfold readTemplates readDocument
  cases fs.readText path with
  | error cause => simp
  | ok text => cases h : Template.listOfText? text <;> simp [h]

/-- The paths that the entries of an include are, if none of them is a pattern. -/
def entryPaths (files : String) : List String := (includeEntries files).map String.ofList

theorem foldl_addEntry {es : List (List Char)} (h : ∀ e ∈ es, isPattern e = false) (fs : Files) (paths : List String)
    (bad : Nat) : es.foldl fs.addEntry (paths, bad) = (paths ++ es.map String.ofList, bad) := by
  induction es generalizing paths with
  | nil => simp
  | cons e es ih =>
    have hstep : fs.addEntry (paths, bad) e = (paths ++ [String.ofList e], bad) := by
      show (if isPattern e then _ else _) = _
      rw [h e List.mem_cons_self]
      rfl
    rw [List.foldl_cons, hstep, ih fun e' he' => h e' (List.mem_cons_of_mem e he'), List.append_assoc]
    rfl

/-- An include without the characters of patterns names the paths that its entries are. -/
theorem includePaths_plain (fs : Files) {files : String}
    (h : ∀ c ∈ files.toList, c ≠ '*' ∧ c ≠ '?' ∧ c ≠ '[') : fs.includePaths files = (entryPaths files, 0) := by
  refine foldl_addEntry (fun e he => ?_) fs [] 0
  obtain ⟨piece, hpiece, rfl⟩ := List.mem_map.1 (List.mem_of_mem_filter he)
  refine List.any_eq_false.2 fun c hc => ?_
  obtain ⟨hstar, hmark, hbracket⟩ := h c (Text.mem_of_mem_splitAt hpiece (Text.mem_of_mem_trim hc))
  simp [hstar, hmark, hbracket]

end Files

namespace Run.State

variable {σ : Type} {st : Settings σ}

/-- A file that is included leaves what it defines, or a warning if it does not load. -/
theorem includeFile_spec (fs : Files) (path : String) (s : State σ) : ∃ lines,
    includeFile fs s path =
      { s with
        templates := s.templates.insertAll (fs.definitions [path])
        scope := { s.scope with log := lines ++ s.scope.log } } ∧
      (s.scope.broken = false →
        lines = ((fs.unloadable [path]).map fun _ => .warn "could not include templates").reverse) := by
  unfold includeFile Files.definitions Files.unloadable
  rw [List.flatMap_singleton, List.filter_singleton]
  cases fs.readTemplates path with
  | ok ts => exact ⟨[], rfl, fun _ => rfl⟩
  | error fault =>
    show ∃ lines, s.note (.warn "could not include templates") = _ ∧ _
    unfold note Scope.note
    by_cases hb : s.scope.broken = true
    · rw [if_pos hb]
      exact ⟨[], rfl, fun hunbroken => absurd hunbroken (by rw [hb]; decide)⟩
    · rw [if_neg hb]
      exact ⟨[.warn "could not include templates"], rfl, fun _ => rfl⟩

/-- Files that are included one after the other leave what those of them define that load, and a warning for each of
the other ones. -/
theorem foldl_includeFile (fs : Files) (paths : List String) (s : State σ) : ∃ lines,
    paths.foldl (includeFile fs) s =
      { s with
        templates := s.templates.insertAll (fs.definitions paths)
        scope := { s.scope with log := lines ++ s.scope.log } } ∧
      (s.scope.broken = false →
        lines = ((fs.unloadable paths).map fun _ => .warn "could not include templates").reverse) := by
  induction paths generalizing s with
  | nil => exact ⟨[], rfl, fun _ => rfl⟩
  | cons path paths ih =>
    obtain ⟨lines, heq, hlines⟩ := includeFile_spec fs path s
    obtain ⟨lines', heq', hlines'⟩ := ih (includeFile fs s path)
    rw [heq] at heq' hlines'
    refine ⟨lines' ++ lines, ?_, fun hb => ?_⟩
    · rw [List.foldl_cons, heq, heq', Files.definitions_cons fs path paths, TemplateCache.insertAll_append,
        List.append_assoc]
    · rw [hlines' hb, hlines hb, Files.unloadable_cons fs path paths, List.map_append, List.reverse_append]

theorem includeFiles_plain {s : State σ} {files : String} (h : ∀ c ∈ files.toList, c ≠ '*' ∧ c ≠ '?' ∧ c ≠ '[') :
    s.includeFiles st files = (Files.entryPaths files).foldl (includeFile (s.scope.files st.env)) s := by
  unfold includeFiles
  simp only [Files.includePaths_plain _ h]
  rfl

/-- An include without the characters of patterns takes over what those of its files define that load, in the order
of its entries: a name stands for the last definition in the last of them that defines it, or for what it stood for
before.  Every other file leaves a warning, and nothing else changes. -/
theorem include_merges {s : State σ} {files : String} (h : ∀ c ∈ files.toList, c ≠ '*' ∧ c ≠ '?' ∧ c ≠ '[') :
    let fs := s.scope.files st.env
    ∃ templates lines,
      s.includeFiles st files =
        { s with
          templates
          scope := { s.scope with log := lines ++ s.scope.log } } ∧
      (s.scope.broken = false →
        lines = ((fs.unloadable (Files.entryPaths files)).map fun _ => .warn "could not include templates").reverse) ∧
      (∀ path ts, fs.readTemplates path = .ok ts ↔
        ∃ text, fs.readText path = .ok text ∧ Template.listOfText? text = some ts) ∧
      ∀ name,
        (∀ before path after ts earlier t later, Files.entryPaths files = before ++ path :: after →
          fs.readTemplates path = .ok ts → ts = earlier ++ t :: later → t.name = name →
          (∀ u ∈ later, u.name ≠ name) →
          (∀ p ∈ after, ∀ us, fs.readTemplates p = .ok us → ∀ u ∈ us, u.name ≠ name) →
          templates.get? name = some t.actions) ∧
        ((∀ p ∈ Files.entryPaths files, ∀ us, fs.readTemplates p = .ok us → ∀ u ∈ us, u.name ≠ name) →
          templates.get? name = s.templates.get? name) := by
  intro fs
  have hnone : ∀ {paths : List String} {name : String},
      (∀ p ∈ paths, ∀ us, fs.readTemplates p = .ok us → ∀ u ∈ us, u.name ≠ name) →
      ∀ u ∈ fs.definitions paths, u.name ≠ name := by
    intro paths name hnone u hu
    obtain ⟨p, hp, us, hread, hu⟩ := Files.mem_definitions.1 hu
    exact hnone p hp us hread u hu
  obtain ⟨lines, heq, hlines⟩ := foldl_includeFile fs (Files.entryPaths files) s
  refine ⟨s.templates.insertAll (fs.definitions (Files.entryPaths files)), lines, ?_, hlines,
    fun path ts => Files.readTemplates_eq_ok_iff, fun name => ⟨?_, ?_⟩⟩
  · rw [includeFiles_plain h, heq]
  · rintro before path after ts earlier t later hpaths hread rfl rfl hlater hafter
    have hdefinitions : fs.definitions (Files.entryPaths files) =
        (fs.definitions before ++ earlier) ++ t :: (later ++ fs.definitions after) := by
      unfold Files.definitions
      rw [hpaths, List.flatMap_append, List.flatMap_cons, hread]
      simp [Except.toOption]
    rw [hdefinitions]
    refine TemplateCache.get?_insertAll_last (fun u hu => ?_) _ _
    rcases List.mem_append.1 hu with hu | hu
    · exact hlater u hu
    · exact hnone hafter u hu
  · exact fun hpaths => TemplateCache.get?_insertAll_of_ne (hnone hpaths) _

section Examples

/-- Files that load, and files that do not, one of them beyond a template. -/
def templateFiles : Files :=
  ⟨[(["first.yml"], .text "- name: b\n"), (["broken.yml"], .text "- name: b\n- [\n"),
    (["last.yml"], .text "- name: b\n- name: b\n  actions:\n  - image: two\n"), (["bytes.yml"], .binary [0xFF])]⟩

def includingSettings : Settings (World Rehearsal) :=
  { env := Rehearsal.environment (Provider.onDemand "") fun _ => none, config := {} }

def includingState : State (World Rehearsal) :=
  { scope := { world := { containers := {}, files := templateFiles } }
    templates := ⟨[⟨"a", [{ image := "old" }]⟩, ⟨"c", [{ image := "kept" }]⟩]⟩ }

/-- The definition in the file behind those that do not load stays. -/
theorem include_merges_past_faults :
    let files := "first.yml, broken.yml,, missing.yml , last.yml,bytes.yml"
    let s := includingState.includeFiles includingSettings files
    (∀ c ∈ files.toList, c ≠ '*' ∧ c ≠ '?' ∧ c ≠ '[') ∧ s.templates.get? "b" = some [{ image := "two" }] ∧
      s.templates.get? "c" = some [{ image := "kept" }] ∧
      s.scope.log = List.replicate 3 (.warn "could not include templates") := by
  intro files s
  have hplain : ∀ c ∈ files.toList, c ≠ '*' ∧ c ≠ '?' ∧ c ≠ '[' := by
    have hall : (files.toList.all fun c => c != '*' && c != '?' && c != '[') = true := by decide +kernel
    simpa [and_assoc] using List.all_eq_true.1 hall
  obtain ⟨templates, lines, heq, hlines, hloads, hnames⟩ :=
    @include_merges _ includingSettings includingState files hplain
  have hpaths : Files.entryPaths files = ["first.yml", "broken.yml", "missing.yml"] ++ "last.yml" :: ["bytes.yml"] := by
    decide +kernel
  have hlast : templateFiles.readTemplates "last.yml" = .ok [⟨"b", []⟩, ⟨"b", [{ image := "two" }]⟩] :=
    (hloads "last.yml" _).2 ⟨"- name: b\n- name: b\n  actions:\n  - image: two\n", by decide +kernel, by decide +kernel⟩
  have hafter : ∀ u ∈ templateFiles.definitions ["bytes.yml"], u.name ≠ "b" := by decide +kernel
  have hother : ∀ u ∈ templateFiles.definitions (Files.entryPaths files), u.name ≠ "c" := by decide +kernel
  have hfailing : templateFiles.unloadable (Files.entryPaths files) = ["broken.yml", "missing.yml", "bytes.yml"] := by
    decide +kernel
  refine ⟨hplain, ?_, ?_, ?_⟩
  · show (includingState.includeFiles includingSettings files).templates.get? "b" = _
    rw [heq]
    refine (hnames "b").1 _ _ _ _ [⟨"b", []⟩] ⟨"b", [{ image := "two" }]⟩ [] hpaths hlast rfl rfl nofun ?_
    exact fun p hp us hread u hu => hafter u (Files.mem_definitions.2 ⟨p, hp, us, hread, hu⟩)
  · show (includingState.includeFiles includingSettings files).templates.get? "c" = _
    rw [heq]
    refine ((hnames "c").2 fun p hp us hread u hu => ?_).trans (by decide +kernel)
    exact hother u (Files.mem_definitions.2 ⟨p, hp, us, hread, hu⟩)
  · show (includingState.includeFiles includingSettings files).scope.log = _
    rw [heq, hlines rfl]
    show ((templateFiles.unloadable (Files.entryPaths files)).map _).reverse ++ [] = _
    rw [hfailing]
    rfl

end Examples

end Run.State

end Workload
