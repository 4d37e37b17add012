/-
# The paths of a config

What holds of every path that config files write holds of every path of the config that
applies, since nothing but the lists of the files is in its lists.  Seen from the directory
of its file a path begins at the root and is clean, unless it is empty.

| step | keeps what holds of every path |
| --- | --- |
| `merge`, `mergeAll` | `AllPaths.merge`, `AllPaths.mergeAll` |
| `withDefaults`, `distinct` | `AllPaths.withDefaults`, `AllPaths.distinct` |

A chart, preflight or manifest with an empty path is refused, so that in the end all of them
are clean absolute paths (`isRooted_of_resolve`).
-/

import ReleaseLint.Config.Load
import ReleaseLint.Proofs.Except
import ReleaseLint.Proofs.Path.Clean

namespace ReleaseLint

open Segment (IsName)
open Path (ofNames)

namespace Config

/-- Whether a text is empty or a clean absolute path. -/
def IsAnchored (text : String) : Prop :=
  text = "" ∨ (Path.mk text).IsRooted

/-- Whether something holds of each path in a config. -/
structure AllPaths (P : String → Prop) (c : Config) : Prop where
  charts : ∀ e ∈ c.charts, P e.path
  preflights : ∀ e ∈ c.preflights, P e.path
  values : ∀ e ∈ c.preflights, ∀ v ∈ e.valuesPath, P v
  manifests : ∀ m ∈ c.manifests, P m

variable {P Q : String → Prop} {a b c : Config} {w : Workspace}

namespace AllPaths

theorem unset : AllPaths P unset :=
  ⟨by simp [Config.unset], by simp [Config.unset], by simp [Config.unset], by simp [Config.unset]⟩

theorem merge (ha : AllPaths P a) (hb : AllPaths P b) : AllPaths P (merge a b) where
  charts e he := (List.mem_append.1 he).elim (ha.charts e) (hb.charts e)
  preflights e he := (List.mem_append.1 he).elim (ha.preflights e) (hb.preflights e)
  values e he := (List.mem_append.1 he).elim (ha.values e) (hb.values e)
  manifests m hm := (List.mem_append.1 hm).elim (ha.manifests m) (hb.manifests m)

theorem mergeAll {configs : List Config} (h : ∀ c ∈ configs, AllPaths P c) :
    AllPaths P (mergeAll configs) := by
  have hfold : ∀ lower, AllPaths P lower → AllPaths P (configs.foldl Config.merge lower) := by
    induction configs with
    | nil => exact fun lower hlower => hlower
    | cons c r ih =>
      intro lower hlower
      refine ih (fun d hd => h d (List.mem_cons_of_mem c hd)) _ ?_
      exact hlower.merge (h c List.mem_cons_self)
  exact hfold _ .unset

theorem withDefaults (h : AllPaths P c) : AllPaths P c.withDefaults :=
  ⟨h.charts, h.preflights, h.values, h.manifests⟩

end AllPaths

theorem subset_of_firsts {α : Type} (path : α → String) (entries : List α) :
    ∀ seen, firsts path seen entries ⊆ entries := by
  induction entries with
  | nil => exact fun seen => List.Subset.refl _
  | cons e r ih =>
    intro seen
    rw [firsts]
    split
    · exact List.Subset.trans (ih seen) (List.subset_cons_self e r)
    · exact List.cons_subset_cons e (ih _)

theorem AllPaths.distinct (h : AllPaths P c) : AllPaths P c.distinct where
  charts e he := h.charts e (subset_of_firsts _ _ _ he)
  preflights e he := h.preflights e (subset_of_firsts _ _ _ he)
  values e he := h.values e (subset_of_firsts _ _ _ he)
  manifests m hm := h.manifests m (subset_of_firsts _ _ _ hm)

/-! ### What files write -/

/-- Seen from an absolute directory a path is clean, or still empty. -/
theorem isAnchored_anchorText {base : Path} (h : base.isAbsolute = true) (value : String) :
    IsAnchored (anchorText base value) := by
  unfold anchorText
  split_ifs with hempty
  · exact .inl hempty
  · exact .inr (Path.isRooted_clean (Path.isAbsolute_div h value))

theorem allPaths_anchor {base : Path} (h : base.isAbsolute = true) (c : Config) :
    AllPaths IsAnchored (anchor base c) where
  charts e he := by
    obtain ⟨e, -, rfl⟩ := List.mem_map.1 he
    exact isAnchored_anchorText h _
  preflights e he := by
    obtain ⟨e, -, rfl⟩ := List.mem_map.1 he
    exact isAnchored_anchorText h _
  values e he v hv := by
    obtain ⟨e, -, rfl⟩ := List.mem_map.1 he
    obtain ⟨v, -, rfl⟩ := Option.map_eq_some_iff.1 hv
    exact isAnchored_anchorText h _
  manifests m hm := by
    obtain ⟨m, -, rfl⟩ := List.mem_map.1 hm
    exact isAnchored_anchorText h _

theorem allPaths_load {names : Names} {s : String} (h : AreNames (names ++ [s]))
    (hload : load w (ofNames (names ++ [s])) = .ok c) : AllPaths IsAnchored c := by
  unfold load at hload
  cases htext : w.readText (ofNames (names ++ [s])) with
  | error f =>
    rw [htext] at hload
    cases hload
  | ok content =>
    rw [htext] at hload
    cases hparse : parse (ofNames (names ++ [s])) content with
    | error e =>
      simp only [hparse] at hload
      cases hload
    | ok written =>
      simp only [hparse, Path.parent?_ofNames h, Option.map_some, Option.getD_some] at hload
      obtain rfl := Except.ok.inj hload
      exact allPaths_anchor (Path.isAbsolute_ofNames h.left) written

/-! ### Which files are read -/

theorem isName_of_mem_fileNames {s : String} (h : s ∈ fileNames) : IsName s := by
  rcases List.mem_pair.1 h with rfl | rfl <;> exact Segment.isName_iff.2 (by decide)

/-- A config file stands in the directory of the start or above it. -/
theorem exists_eq_ofNames_of_mem_filesAbove {names : Names} (h : AreNames names) {p : Path}
    (hp : p ∈ filesAbove w (ofNames names)) :
    ∃ q s, AreNames (q ++ [s]) ∧ p = ofNames (q ++ [s]) := by
  unfold filesAbove at hp
  obtain ⟨d, hd, hfile⟩ := List.mem_filterMap.1 (List.mem_reverse.1 hp)
  obtain ⟨q, hq, rfl⟩ := Path.exists_eq_ofNames_of_mem_ancestors h hd
  obtain ⟨s, hs, rfl⟩ := List.mem_map.1 (List.mem_of_find?_eq_some hfile)
  exact ⟨q, s, hq.concat (isName_of_mem_fileNames hs), (Path.ofNames_concat q s).symm⟩

theorem hasFile_root : w.hasFile (ofNames []) = false := by
  have hnode : w.node (ofNames []) = .ok .directory := by
    have habsolute : w.absolute (ofNames []) = ofNames [] :=
      Path.absolute_of_isAbsolute w (Path.isAbsolute_ofNames .nil)
    unfold Workspace.node
    rw [show (ofNames []).fault? = none by decide, habsolute]
    rfl
  unfold Workspace.hasFile
  rw [hnode]
  rfl

theorem allPaths_gather {names : Names} (h : AreNames names)
    (hgather : gather w (ofNames names) = .ok c) : AllPaths IsAnchored c := by
  unfold gather at hgather
  split at hgather
  · rename_i hfile
    rcases List.eq_nil_or_concat names with rfl | ⟨q, s, rfl⟩
    · rw [hasFile_root] at hfile
      cases hfile
    · rw [List.concat_eq_append] at h hgather
      exact allPaths_load h hgather
  · cases hfiles : (filesAbove w (ofNames names)).mapM (load w) with
    | error e =>
      rw [hfiles] at hgather
      cases hgather
    | ok configs =>
      rw [hfiles] at hgather
      obtain rfl := Except.ok.inj hgather
      refine .mergeAll fun c hc => ?_
      obtain ⟨p, hp, hload⟩ := (mem_of_mapM hfiles).1 hc
      obtain ⟨q, s, hq, rfl⟩ := exists_eq_ofNames_of_mem_filesAbove h hp
      exact allPaths_load hq hload

/-! ### What is left after validation -/

/-- What applies is what the files write together, if it has no issues. -/
theorem resolve_eq_ok {start : Path} : resolve w start = .ok c ↔
    ∃ g, gather w (w.absolutize start) = .ok g ∧ g.withDefaults.distinct.issues = [] ∧
      c = g.withDefaults.distinct := by
  unfold resolve
  rw [bind_eq_ok]
  refine exists_congr fun g => and_congr_right fun _ => ?_
  show (validate g.withDefaults.distinct >>= fun _ => pure g.withDefaults.distinct) = .ok c ↔ _
  unfold validate
  split
  · rename_i hissues
    exact ⟨fun h => ⟨hissues, (Except.ok.inj h).symm⟩, fun h => congrArg Except.ok h.2.symm⟩
  · rename_i hissues
    exact iff_of_false (fun h => by cases h) fun h => hissues h.1

theorem allPaths_resolve {start : Path} (hw : w.directory.isAbsolute = true)
    (h : resolve w start = .ok c) : AllPaths IsAnchored c ∧ c.issues = [] := by
  obtain ⟨g, hgather, hissues, rfl⟩ := resolve_eq_ok.1 h
  obtain ⟨names, hnames, hstart⟩ :=
    Path.exists_clean_eq_ofNames (Path.isAbsolute_div hw start.text)
  rw [show w.absolutize start = ofNames names from hstart] at hgather
  exact ⟨(allPaths_gather hnames hgather).withDefaults.distinct, hissues⟩

theorem versionIssues_eq_nil_iff {v : Versions} :
    versionIssues v = [] ↔ ∀ e ∈ v, Version.isSpec e.2 = true := by
  unfold versionIssues Versions.sorted
  simp [List.filter_eq_nil_iff]

theorem issues_eq_nil_iff : c.issues = [] ↔
    pathIssues .charts 0 (c.charts.map (·.path)) = [] ∧
      pathIssues .preflights 0 (c.preflights.map (·.path)) = [] ∧
      pathIssues .manifests 0 c.manifests = [] ∧
      ∀ l ∈ c.lint, ∀ e ∈ l.tools, Version.isSpec e.2 = true := by
  unfold issues
  rw [List.append_eq_nil_iff, List.append_eq_nil_iff, List.append_eq_nil_iff, and_assoc, and_assoc]
  refine and_congr_right fun _ => and_congr_right fun _ => and_congr_right fun _ => ?_
  cases c.lint with
  | none => simp
  | some l =>
    rw [Option.map_some, Option.getD_some, versionIssues_eq_nil_iff]
    simp

/-- **The versions of a config that applies** are ones that are accepted. -/
theorem isSpec_versionOf {start : Path} (h : resolve w start = .ok c) (t : Tool) :
    Version.isSpec (c.lintSettings.versionOf t) = true := by
  obtain ⟨g, -, hissues, rfl⟩ := resolve_eq_ok.1 h
  obtain ⟨-, -, -, htools⟩ := issues_eq_nil_iff.1 hissues
  unfold lintSettings Lint.versionOf
  cases hlint : g.withDefaults.distinct.lint with
  | none => rfl
  | some l =>
    rw [Option.getD_some]
    cases hversion : l.tools.get? t.name with
    | none => rfl
    | some v =>
      rw [Option.getD_some]
      obtain ⟨e, he, rfl⟩ := Option.map_eq_some_iff.1 hversion
      exact htools l (hlint ▸ rfl) e (List.mem_of_find?_eq_some he)

/-- Whether the config files of a start write a config that passes a test and has no issues. -/
def writesSuch (w : Workspace) (start : Path) (test : Config → Bool) : Bool :=
  (gather w (w.absolutize start)).toOption.any fun g =>
    let c := g.withDefaults.distinct
    (pathIssues .charts 0 (c.charts.map (·.path))).isEmpty &&
      (pathIssues .preflights 0 (c.preflights.map (·.path))).isEmpty &&
      (pathIssues .manifests 0 c.manifests).isEmpty &&
      (c.lint.all fun l => l.tools.all fun e => Version.isSpec e.2) && test c

theorem exists_resolve_such_iff {start : Path} {test : Config → Bool} :
    writesSuch w start test = true ↔ ∃ c, resolve w start = .ok c ∧ test c = true := by
  simp only [writesSuch, resolve_eq_ok, issues_eq_nil_iff]
  cases hgather : gather w (w.absolutize start) with
  | error e => simp [Except.toOption]
  | ok g =>
    simp [Except.toOption, and_assoc, List.isEmpty_iff, Option.all_eq_true]

/-- Whether the config files of a start write a config with these manifest patterns and without
issues. -/
def writes (w : Workspace) (start : Path) (manifests : List String) : Bool :=
  (gather w (w.absolutize start)).toOption.any fun g =>
    let c := g.withDefaults.distinct
    (pathIssues .charts 0 (c.charts.map (·.path))).isEmpty &&
      (pathIssues .preflights 0 (c.preflights.map (·.path))).isEmpty &&
      (pathIssues .manifests 0 c.manifests).isEmpty &&
      (c.lint.all fun l => l.tools.all fun e => Version.isSpec e.2) && c.manifests == manifests

theorem exists_resolve_iff {start : Path} {manifests : List String} :
    writes w start manifests = true ↔ ∃ c, resolve w start = .ok c ∧ c.manifests = manifests := by
  have hsuch : writes w start manifests = writesSuch w start (·.manifests == manifests) := rfl
  rw [hsuch, exists_resolve_such_iff]
  simp only [beq_iff_eq]

/-- Without issues no path in a list is blank. -/
theorem allBlank_eq_false_of_pathIssues {list : Section} {index : Nat} {paths : List String}
    (h : pathIssues list index paths = []) : ∀ path ∈ paths, Text.allBlank path = false := by
  induction paths generalizing index with
  | nil => exact fun path hpath => absurd hpath List.not_mem_nil
  | cons first r ih =>
    rw [pathIssues, List.append_eq_nil_iff] at h
    intro path hpath
    rcases List.mem_cons.1 hpath with rfl | hpath
    · by_contra hblank
      rw [pathIssue?, if_pos (by simpa using hblank)] at h
      cases h.1
    · exact ih h.2 path hpath

/-- **The manifest patterns of a config that applies** are clean absolute paths. -/
theorem isRooted_of_mem_manifests {start : Path} (hw : w.directory.isAbsolute = true)
    (h : resolve w start = .ok c) {m : String} (hm : m ∈ c.manifests) :
    (Path.mk m).IsRooted ∧ Text.allBlank m = false := by
  obtain ⟨hall, hissues⟩ := allPaths_resolve hw h
  have hblank : Text.allBlank m = false := by
    obtain ⟨-, -, hmanifests, -⟩ := issues_eq_nil_iff.1 hissues
    exact allBlank_eq_false_of_pathIssues hmanifests m hm
  refine ⟨(hall.manifests m hm).resolve_left ?_, hblank⟩
  rintro rfl
  revert hblank
  decide

end Config
end ReleaseLint
