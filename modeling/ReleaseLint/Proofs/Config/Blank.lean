/-
# Entries that are blank

A chart, preflight or manifest whose path is blank has an issue.  The path has been written in a
file, is seen from the directory of this file, and is merged with those of other files before it
is looked at:

| as it is written | seen from `/a/b` | has an issue |
| --- | --- | --- |
| empty | empty | yes |
| blank, but not empty | the name of blanks in `/a/b` | no |

So an empty entry never gets through, wherever it stands, and one that holds nothing but white
space is not taken for blank: it is the name of a file (`blank_entries`).
-/

import ReleaseLint.Proofs.Config.Layers
import ReleaseLint.Proofs.Text.Parts

namespace ReleaseLint

open Segment (IsName)
open Path (ofNames)

namespace Config

/-- The paths in a list of a config. -/
def Section.paths : Section → Config → List String
  | charts, c => c.charts.map (·.path)
  | preflights, c => c.preflights.map (·.path)
  | manifests, c => c.manifests

variable {w : Workspace} {c : Config} {list list' : Section} {names q : Names}
variable {layers : List Layer}

/-! ### Issues of blank paths -/

theorem pathIssue?_eq_emptyPath_iff {index i : Nat} {path : String} :
    pathIssue? list' index path = some (.emptyPath list i) ↔
      Text.allBlank path = true ∧ list = list' ∧ i = index := by
  unfold pathIssue?
  split_ifs with hblank hpattern
  · simp [hblank, eq_comm]
  · simp [hblank]
  · cases Glob.parse .search path <;> simp [hblank]

theorem exists_emptyPath_mem_pathIssues {index : Nat} {paths : List String} :
    (∃ i, .emptyPath list i ∈ pathIssues list' index paths) ↔
      list = list' ∧ ∃ path ∈ paths, Text.allBlank path = true := by
  induction paths generalizing index with
  | nil => simp [pathIssues]
  | cons path r ih =>
    simp only [pathIssues, List.mem_append, Option.mem_toList, exists_or, ih,
      pathIssue?_eq_emptyPath_iff, List.exists_mem_cons_iff]
    simp only [exists_and_left, exists_eq, and_true]
    tauto

/-- The blank paths of a list are those with an issue about it. -/
theorem exists_emptyPath_mem_issues :
    (∃ i, .emptyPath list i ∈ c.issues) ↔ ∃ path ∈ list.paths c, Text.allBlank path = true := by
  have hversions (i : Nat) :
      .emptyPath list i ∉ (c.lint.map fun l => versionIssues l.tools).getD [] := by
    cases c.lint <;> simp [versionIssues]
  unfold issues
  simp only [List.mem_append, hversions, or_false, exists_or, exists_emptyPath_mem_pathIssues]
  cases list <;> simp [Section.paths]

/-! ### From files to the config -/

theorem paths_unset : list.paths unset = [] := by
  cases list <;> rfl

theorem paths_merge (a b : Config) : list.paths (merge a b) = list.paths a ++ list.paths b := by
  cases list <;> simp [Section.paths, merge]

theorem paths_anchor (base : Path) (c : Config) :
    list.paths (c.anchor base) = (list.paths c).map (anchorText base) := by
  cases list <;> simp [Section.paths, anchor]

/-- No path is lost, and none is added. -/
theorem mem_paths_distinct {path : String} :
    path ∈ list.paths c.withDefaults.distinct ↔ path ∈ list.paths c := by
  have hfirsts {α : Type} (entryPath : α → String) (l : List α) :
      path ∈ (firsts entryPath [] l).map entryPath ↔ path ∈ l.map entryPath := by
    simp [mem_map_firsts]
  cases list with
  | charts => exact hfirsts (·.path) c.charts
  | preflights => exact hfirsts (·.path) c.preflights
  | manifests =>
    have hmanifests := hfirsts id c.manifests
    rwa [List.map_id, List.map_id] at hmanifests

theorem mem_paths_gathered {path : String} :
    path ∈ list.paths (gathered layers).withDefaults.distinct ↔
      ∃ f ∈ layers, ∃ e ∈ list.paths f.own, anchorText f.directory e = path := by
  rw [mem_paths_distinct, entries_gathered list.paths paths_unset paths_merge]
  simp only [paths_anchor, List.mem_flatMap, List.mem_map]

/-! ### Blank paths as seen from a directory -/

/-- Seen from a directory only an empty path is blank. -/
theorem allBlank_anchorText_iff (h : AreNames q) {e : String} :
    Text.allBlank (anchorText (ofNames q) e) = true ↔ e = "" := by
  unfold anchorText
  split_ifs with hempty
  · exact iff_of_true (by rw [hempty]; decide) hempty
  · obtain ⟨names, hnames, hclean⟩ :=
      Path.exists_clean_eq_ofNames (Path.isAbsolute_div (Path.isAbsolute_ofNames h) e)
    refine iff_of_false (fun hblank => ?_) hempty
    rw [Path.anchor, hclean, Path.allBlank_ofNames hnames] at hblank
    cases hblank

/-- White space is the name of a file. -/
theorem isName_of_allBlank {e : String} (hblank : Text.allBlank e = true) (hne : e ≠ "") :
    IsName e := by
  have hnot (c : Char) (hc : Text.isBlank c = false) : c ∉ e.toList := fun hmem => by
    rw [List.all_eq_true.1 hblank c hmem] at hc
    cases hc
  refine Segment.isName_iff.2 ⟨hnot '/' (by decide), hne, ?_, ?_⟩
  · rintro rfl
    exact hnot '.' (by decide) (by decide)
  · rintro rfl
    exact hnot '.' (by decide) (by decide)

theorem anchorText_of_allBlank (h : AreNames q) {e : String} (hblank : Text.allBlank e = true)
    (hne : e ≠ "") : anchorText (ofNames q) e = (ofNames q / e).text := by
  unfold anchorText Path.anchor
  rw [if_neg hne, ← Path.ofNames_concat,
    Path.clean_ofNames (h.concat (isName_of_allBlank hblank hne))]

/-! ### What becomes of blank entries -/

theorem validate_eq_error_iff {issues : List Issue} :
    ((validate c).map fun _ => c) = .error (.invalidConfig issues) ↔
      c.issues = issues ∧ issues ≠ [] := by
  unfold validate
  cases hissues : c.issues with
  | nil => exact iff_of_false (fun h => by cases h) fun h => h.2 h.1.symm
  | cons i r =>
    show (Except.error (.invalidConfig (i :: r)) : Except Error Config) = _ ↔ _
    rw [Except.error.injEq, Error.invalidConfig.injEq]
    exact ⟨fun h => ⟨h, h ▸ List.cons_ne_nil i r⟩, fun h => h.1⟩

theorem validate_eq_ok {c' : Config} (h : ((validate c).map fun _ => c) = .ok c') : c' = c := by
  cases hvalid : validate c with
  | error e =>
    rw [hvalid] at h
    cases h
  | ok u =>
    rw [hvalid] at h
    exact (Except.ok.inj h).symm

/-- The files decide which lists have an empty path, wherever it stands. -/
theorem exists_emptyPath_iff (h : AreNames names) (hlayers : AreLayers w names layers) :
    (∃ i, .emptyPath list i ∈ (gathered layers).withDefaults.distinct.issues) ↔
      ∃ f ∈ layers, "" ∈ list.paths f.own := by
  rw [exists_emptyPath_mem_issues]
  constructor
  · rintro ⟨path, hpath, hblank⟩
    obtain ⟨f, hf, e, he, rfl⟩ := mem_paths_gathered.1 hpath
    obtain ⟨q, hq, hdirectory⟩ := hlayers.isRooted h f hf
    rw [hdirectory, allBlank_anchorText_iff hq] at hblank
    exact ⟨f, hf, hblank ▸ he⟩
  · rintro ⟨f, hf, he⟩
    exact ⟨"", mem_paths_gathered.2 ⟨f, hf, "", he, if_pos rfl⟩, by decide⟩

/-- **An empty entry never gets through, and white space is not taken for one.**  Either one of the
files that apply cannot be read or parsed, and there is an error about it.  Or they all can, and
then a list of the config is refused for a blank path precisely if a file writes an empty one in
this list, wherever it stands.  An entry of white space is never refused for being blank: in a
config that applies, it is the path of that name in the directory of its file. -/
theorem blank_entries (hw : w.directory.isAbsolute = true) (start : Path) :
    ∃ names, AreNames names ∧ w.absolutize start = ofNames names ∧
      ((∀ layers, ¬AreLayers w names layers) →
        ∃ e, resolve w start = .error e ∧ IsFileError w (ofNames names) e) ∧
      ∀ layers, AreLayers w names layers → ∀ list : Section,
        ((∃ issues i, resolve w start = .error (.invalidConfig issues) ∧
            .emptyPath list i ∈ issues) ↔ ∃ f ∈ layers, "" ∈ list.paths f.own) ∧
        ∀ f ∈ layers, ∀ e ∈ list.paths f.own, e ≠ "" → Text.allBlank e = true →
          ∀ c, resolve w start = .ok c → (f.directory / e).text ∈ list.paths c := by
  obtain ⟨names, hnames, hnormal⟩ :=
    Path.exists_clean_eq_ofNames (Path.isAbsolute_div hw start.text)
  have hnormal : w.absolutize start = ofNames names := hnormal
  refine ⟨names, hnames, hnormal, fun hnone => ?_, fun layers hlayers list => ⟨?_, ?_⟩⟩
  · cases hgather : gather w (ofNames names) with
    | ok g =>
      obtain ⟨layers, hlayers⟩ := exists_areLayers_of_gather hnames hgather
      exact absurd hlayers (hnone layers)
    | error e =>
      refine ⟨e, ?_, isFileError_of_gather hgather⟩
      unfold resolve
      rw [hnormal, hgather]
      rfl
  · rw [← exists_emptyPath_iff hnames hlayers, hlayers.resolve_eq hnames hnormal]
    simp only [validate_eq_error_iff]
    constructor
    · rintro ⟨issues, i, ⟨rfl, -⟩, hi⟩
      exact ⟨i, hi⟩
    · rintro ⟨i, hi⟩
      exact ⟨_, i, ⟨rfl, List.ne_nil_of_mem hi⟩, hi⟩
  · intro f hf e he hne hblank c hc
    rw [hlayers.resolve_eq hnames hnormal] at hc
    obtain ⟨q, hq, hdirectory⟩ := hlayers.isRooted hnames f hf
    rw [validate_eq_ok hc, mem_paths_gathered]
    refine ⟨f, hf, e, he, ?_⟩
    rw [hdirectory, anchorText_of_allBlank hq hblank hne]

/-- A project whose config file has some text. -/
def projectOf (content : String) : Workspace where
  tree := ⟨[(["p"], .directory), (["p", ".replicated"], .file content.toUTF8 false)]⟩
  directory := ⟨"/p"⟩

/-- A config with an empty chart path behind another one, and a blank manifest pattern. -/
def emptyConfig : String :=
  "charts:\n- path: ./c\n- path: ''\nmanifests:\n- ' '\n"

/-- The empty path is refused, the blank pattern is not. -/
theorem blank_entries_of_emptyConfig :
    (∃ issues i, resolve (projectOf emptyConfig) ⟨"."⟩ = .error (.invalidConfig issues) ∧
      .emptyPath .charts i ∈ issues) ∧
    ¬∃ issues i, resolve (projectOf emptyConfig) ⟨"."⟩ = .error (.invalidConfig issues) ∧
      .emptyPath .manifests i ∈ issues := by
  obtain ⟨own, hparse, hwrites⟩ := exists_ofText (show (ofText emptyConfig).toOption.any (fun c =>
    c.charts.map (·.path) == ["./c", ""] && c.manifests == [" "]) = true by decide +kernel)
  rw [Bool.and_eq_true, beq_iff_eq, beq_iff_eq] at hwrites
  obtain ⟨names, hnames, hstart, -, hblank⟩ :=
    blank_entries (w := projectOf emptyConfig) (by decide) ⟨"."⟩
  obtain rfl : names = ["p"] := by
    have hnormal : (projectOf emptyConfig).absolutize ⟨"."⟩ = ofNames ["p"] := by decide +kernel
    exact (Path.ofNames_inj hnames (by decide)).1 (hstart.symm.trans hnormal)
  have hchain : Chain (projectOf emptyConfig) (["p"].inits.map ofNames) [⟨ofNames ["p"], own⟩] := by
    refine .skip ?_ (.file (?_ : HasConfigFile _ _ ".replicated") ?_ hparse .nil)
    · rintro name ⟨hfile, rfl | ⟨rfl, -⟩⟩
      · exact absurd hfile (by decide +kernel)
      · exact absurd hfile (by decide +kernel)
    · exact ⟨by decide +kernel, .inl rfl⟩
    · exact toOption_eq_some_iff.1 (by decide +kernel)
  have hlayers := hblank _ (.chain (by decide +kernel) hchain)
  refine ⟨(hlayers .charts).1.2 ⟨_, List.mem_singleton_self _, ?_⟩, fun h => ?_⟩
  · show "" ∈ own.charts.map (·.path)
    rw [hwrites.1]
    decide
  · obtain ⟨f, hf, hempty⟩ := (hlayers .manifests).1.1 h
    rw [List.mem_singleton.1 hf] at hempty
    have hempty : "" ∈ own.manifests := hempty
    rw [hwrites.2] at hempty
    exact absurd hempty (by decide)

/-- A config with a blank chart path. -/
def blankConfig : String :=
  "charts:\n- path: ' '\n"

/-- **A blank chart path gets through.** -/
theorem resolve_of_blankConfig :
    (∃ own, ofText blankConfig = .ok own ∧ own.charts.map (·.path) = [" "]) ∧
      Text.allBlank " " = true ∧
      ∃ c, resolve (projectOf blankConfig) ⟨"."⟩ = .ok c ∧ c.charts.map (·.path) = ["/p/ "] := by
  obtain ⟨own, hparse, hwrites⟩ := exists_ofText (show (ofText blankConfig).toOption.any (fun c =>
    c.charts.map (·.path) == [" "]) = true by decide +kernel)
  have hresolve : ∃ c, resolve (projectOf blankConfig) ⟨"."⟩ = .ok c ∧
      (c.charts.map (·.path) == ["/p/ "]) = true := exists_resolve_such_iff.1 (by decide +kernel)
  obtain ⟨c, hc, hpaths⟩ := hresolve
  exact ⟨⟨own, hparse, beq_iff_eq.1 hwrites⟩, by decide, c, hc, beq_iff_eq.1 hpaths⟩

end Config
end ReleaseLint
