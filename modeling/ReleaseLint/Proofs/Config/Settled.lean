/-
# The config that applies is settled

`resolve` reads each path from the directory of its file, closes what is left open, keeps the
first of several entries with one path and refuses what breaks a rule.  What comes out is
settled (`IsSettled`): its paths are absolute and clean, no list names a path twice, and no
setting of a linter is open.

Each step leaves a config alone that is settled already, and so a second pass changes nothing
(`isSettled_of_resolve`).

| step | leaves a config alone if |
| --- | --- |
| `anchor`, from any directory | each path is empty or absolute and clean |
| `withDefaults` | no setting is open |
| `distinct` | no list names a path twice |
-/

import ReleaseLint.Proofs.Config.Chain
import ReleaseLint.Proofs.Version.Spelling

namespace ReleaseLint

open Path (ofNames)

namespace Version

/-- Whether a text is the word `latest`, or a semantic version behind any letters `v`. -/
def IsEntry (s : String) : Prop :=
  s = "latest" ∨
    ∃ count version, s.toList = List.replicate count 'v' ++ String.toList version ∧
      IsSemantic version

theorem isEntry_of_isSpec {s : String} (h : isSpec s = true) : IsEntry s := by
  unfold isSpec at h
  rw [Bool.or_eq_true, beq_iff_eq] at h
  rcases h with hlatest | hread
  · exact .inl hlatest
  · have hsplit := List.takeWhile_append_dropWhile (p := (· == 'v')) (l := s.toList)
    have hletters : s.toList.takeWhile (· == 'v') =
        List.replicate (s.toList.takeWhile (· == 'v')).length 'v' :=
      List.eq_replicate_of_mem fun c hc => by simpa using List.mem_takeWhile_imp hc
    refine .inr ⟨(s.toList.takeWhile (· == 'v')).length, Text.dropLeadingV s, ?_, hread⟩
    rw [← hletters]
    unfold Text.dropLeadingV Text.dropStart
    rw [String.toList_ofList, hsplit]

end Version

namespace Config

/-- Whether a text is a path from the root that `clean` leaves as it is. -/
structure IsClean (text : String) : Prop where
  nonempty : text ≠ ""
  absolute : (Path.mk text).isAbsolute = true
  clean : (Path.mk text).clean = ⟨text⟩

/-- Whether no setting of a linter is open, and each version is one to ask for. -/
structure Lint.IsComplete (l : Lint) : Prop where
  version : l.version.isSome
  enabled : l.enabled.isSome
  disabled : ∀ t, (l.switches t).disabled.isSome
  strict : ∀ t, (l.switches t).strict.isSome
  tools : ∀ t : Tool, (l.tools.get? t.name).isSome

/-- Whether there is nothing left to do about a config. -/
structure IsSettled (c : Config) : Prop where
  charts : ∀ e ∈ c.charts, IsClean e.path
  preflights : ∀ e ∈ c.preflights, IsClean e.path
  values : ∀ e ∈ c.preflights, ∀ v ∈ e.valuesPath, v ≠ "" → IsClean v
  manifests : ∀ m ∈ c.manifests, IsClean m
  distinctCharts : (c.charts.map (·.path)).Nodup
  distinctPreflights : (c.preflights.map (·.path)).Nodup
  distinctManifests : c.manifests.Nodup
  lint : ∃ l, c.lint = some l ∧ l.IsComplete
  versions : ∀ l ∈ c.lint, ∀ e ∈ l.tools, Version.IsEntry e.2

variable {w : Workspace} {start : Path} {c : Config}

/-! ### Paths -/

theorem IsAnchored.isClean {text : String} (h : IsAnchored text) (hne : text ≠ "") :
    IsClean text := by
  obtain ⟨names, hnames, hrooted⟩ := h.resolve_left hne
  exact ⟨hne, hrooted ▸ Path.isAbsolute_ofNames hnames, hrooted ▸ Path.clean_ofNames hnames⟩

/-- Where a path begins at the root, the directory it is seen from does not count. -/
theorem IsAnchored.anchorText_eq {text : String} (h : IsAnchored text) (base : Path) :
    anchorText base text = text := by
  unfold anchorText
  split_ifs with hempty
  · rfl
  · have hclean := h.isClean hempty
    unfold Path.anchor
    rw [Path.div_of_absolute (beq_iff_eq.1 hclean.absolute), hclean.clean]

theorem anchor_of_allPaths (h : AllPaths IsAnchored c) (base : Path) : anchor base c = c := by
  have hcharts : (c.charts.map fun e => { e with path := anchorText base e.path }) = c.charts := by
    refine (List.map_congr_left fun e he => ?_).trans (List.map_id _)
    rw [(h.charts e he).anchorText_eq]
    rfl
  have hpreflights : (c.preflights.map fun e =>
      (⟨anchorText base e.path, e.valuesPath.map (anchorText base)⟩ : PreflightEntry)) =
        c.preflights := by
    refine (List.map_congr_left fun e he => ?_).trans (List.map_id _)
    have hvalues : e.valuesPath.map (anchorText base) = e.valuesPath :=
      (Option.map_congr fun v hv => (h.values e he v hv).anchorText_eq base).trans Option.map_id'
    rw [(h.preflights e he).anchorText_eq, hvalues]
    rfl
  have hmanifests : c.manifests.map (anchorText base) = c.manifests :=
    (List.map_congr_left fun m hm => (h.manifests m hm).anchorText_eq base).trans (List.map_id _)
  unfold anchor
  rw [hcharts, hpreflights, hmanifests]

/-! ### Settings -/

theorem Lint.isComplete_withDefaults (l : Lint) : l.withDefaults.IsComplete where
  version := rfl
  enabled := rfl
  disabled _ := rfl
  strict _ := rfl
  tools t := by
    rw [get?_withDefaults, if_pos (List.mem_map_of_mem (Tool.mem_all t)), Option.isSome_or,
      Option.isSome_some, Bool.or_true]

/-- The default of a setting that is not open does not count. -/
theorem some_getD_of_isSome {α : Type} {o : Option α} (h : o.isSome) (a : α) :
    some (o.getD a) = o := by
  obtain ⟨x, rfl⟩ := Option.isSome_iff_exists.1 h
  rfl

theorem Lint.IsComplete.withDefaults_eq {l : Lint} (h : l.IsComplete) : l.withDefaults = l := by
  have hswitches : (fun t => (l.switches t).withDefaults t) = l.switches := by
    funext t
    unfold Switches.withDefaults
    rw [some_getD_of_isSome (h.disabled t), some_getD_of_isSome (h.strict t)]
  have hmissing : (Tool.all.filter fun t => (l.tools.get? t.name).isNone) = [] := by
    refine List.filter_eq_nil_iff.2 fun t _ => ?_
    rw [Bool.not_eq_true, Option.isNone_eq_false_iff]
    exact h.tools t
  have htools : l.withDefaults.tools = l.tools := by
    unfold withDefaults
    simp only [hmissing, List.map_nil, List.append_nil]
  show Lint.mk (some (l.version.getD 1)) (some (l.enabled.getD true))
    (fun t => (l.switches t).withDefaults t) l.withDefaults.tools = l
  rw [some_getD_of_isSome h.version, some_getD_of_isSome h.enabled, hswitches, htools]

/-! ### Entries with one path -/

theorem nodup_firsts {α : Type} (path : α → String) (l : List α) (seen : List String) :
    ((firsts path seen l).map path).Nodup := by
  induction l generalizing seen with
  | nil => exact List.nodup_nil
  | cons e r ih =>
    rw [firsts]
    split_ifs with hseen
    · exact ih seen
    · rw [List.map_cons, List.nodup_cons]
      exact ⟨fun hmem => (mem_map_firsts.1 hmem).2 List.mem_cons_self, ih _⟩

/-- Dropping repeated entries twice is dropping them once. -/
theorem distinct_distinct (c : Config) : c.distinct.distinct = c.distinct := by
  unfold distinct
  simp only [firsts_firsts (List.Subset.refl [])]

/-! ### The config that applies -/

theorem isClean_of_pathIssues {list : Section} {paths : List String}
    (hanchored : ∀ p ∈ paths, IsAnchored p) (hissues : pathIssues list 0 paths = []) :
    ∀ p ∈ paths, IsClean p := by
  intro p hp
  refine (hanchored p hp).isClean ?_
  rintro rfl
  exact absurd (allBlank_eq_false_of_pathIssues hissues "" hp) (by decide)

/-- **What applies is settled, and a second pass changes nothing.**  Each chart, preflight and
manifest has a path from the root that is clean and that no other one in its list has; each
tool has a version and both switches; and reading the paths again from any directory, closing
what is open or dropping repeated entries leaves the config as it is. -/
theorem isSettled_of_resolve (hw : w.directory.isAbsolute = true) (h : resolve w start = .ok c) :
    c.IsSettled ∧ (∀ base, anchor base c = c) ∧ c.withDefaults = c ∧ c.distinct = c := by
  obtain ⟨hpaths, hissues⟩ := allPaths_resolve hw h
  obtain ⟨hcharts, hpreflights, hmanifests, htools⟩ := issues_eq_nil_iff.1 hissues
  obtain ⟨g, -, -, rfl⟩ := resolve_eq_ok.1 h
  have hcomplete := g.lintSettings.isComplete_withDefaults
  refine ⟨?_, anchor_of_allPaths hpaths, ?_, distinct_distinct _⟩
  · exact {
      charts := fun e he => isClean_of_pathIssues (List.forall_mem_map.2 hpaths.charts) hcharts
        e.path (List.mem_map_of_mem he)
      preflights := fun e he =>
        isClean_of_pathIssues (List.forall_mem_map.2 hpaths.preflights) hpreflights
          e.path (List.mem_map_of_mem he)
      values := fun e he v hv hne => (hpaths.values e he v hv).isClean hne
      manifests := isClean_of_pathIssues hpaths.manifests hmanifests
      distinctCharts := nodup_firsts _ _ _
      distinctPreflights := nodup_firsts _ _ _
      distinctManifests := by
        have hnodup := nodup_firsts id g.manifests []
        rwa [List.map_id] at hnodup
      lint := ⟨_, rfl, hcomplete⟩
      versions := fun l hl e he => Version.isEntry_of_isSpec (htools l hl e he) }
  · show { g.withDefaults.distinct with lint := some g.lintSettings.withDefaults.withDefaults } = _
    rw [hcomplete.withDefaults_eq]
    rfl

/-- A config that spells one chart in two ways and has a values file. -/
def spelledConfig : String :=
  "charts:\n- path: ./charts//web/\n- path: charts/db/../web\n" ++
    "preflights:\n- path: checks/./pre.yaml\n  valuesPath: ../values.yaml\n" ++
    "repl-lint:\n  tools:\n    helm: 3.14.4\n"

/-- A config below it that names the chart once more, and asks for a version behind letters. -/
def lowerConfig : String :=
  "charts:\n- path: ../charts/web\nmanifests:\n- ./m/*.yaml\n- ../web/m/*.yaml\n" ++
    "repl-lint:\n  tools:\n    kots: vv1.2.3\n"

/-- A project that spells its paths in many ways. -/
def spelledProject : Workspace where
  tree := ⟨[(["p"], .directory), (["p", ".replicated"], .file spelledConfig.toUTF8 false),
    (["p", "web"], .directory), (["p", "web", ".replicated"], .file lowerConfig.toUTF8 false)]⟩
  directory := ⟨"/p"⟩

theorem exists_resolve_spelledProject : ∃ c, resolve spelledProject ⟨"web"⟩ = .ok c ∧
    c.charts.map (·.path) = ["/p/charts/web"] ∧
    c.preflights = [⟨"/p/checks/pre.yaml", some "/values.yaml"⟩] ∧
    c.manifests = ["/p/web/m/*.yaml"] ∧
    c.lintSettings.tools.get? "kots" = some "vv1.2.3" := by
  obtain ⟨c, hc, hsays⟩ := exists_resolve_such_iff.1
    (show writesSuch spelledProject ⟨"web"⟩ (fun c =>
      c.charts.map (·.path) == ["/p/charts/web"] &&
        (c.preflights == [⟨"/p/checks/pre.yaml", some "/values.yaml"⟩] &&
          (c.manifests == ["/p/web/m/*.yaml"] &&
            c.lintSettings.tools.get? "kots" == some "vv1.2.3"))) = true by decide +kernel)
  simp only [Bool.and_eq_true, beq_iff_eq] at hsays
  exact ⟨c, hc, hsays⟩

theorem isSettled_spelledProject :
    ∃ c, resolve spelledProject ⟨"web"⟩ = .ok c ∧
      c.charts.map (·.path) = ["/p/charts/web"] ∧
      c.preflights = [⟨"/p/checks/pre.yaml", some "/values.yaml"⟩] ∧
      c.manifests = ["/p/web/m/*.yaml"] ∧
      c.IsSettled ∧ anchor ⟨"elsewhere"⟩ c = c ∧ c.withDefaults = c ∧ c.distinct = c := by
  obtain ⟨c, hc, hcharts, hpreflights, hmanifests, -⟩ := exists_resolve_spelledProject
  obtain ⟨hsettled, hanchor, hrest⟩ := isSettled_of_resolve (by decide) hc
  exact ⟨c, hc, hcharts, hpreflights, hmanifests, hsettled, hanchor ⟨"elsewhere"⟩, hrest⟩

/-- **Letters in front of a version are let through:** an entry need not be a semantic version
as it stands. -/
theorem exists_version_not_isSemantic :
    ∃ c, resolve spelledProject ⟨"web"⟩ = .ok c ∧
      c.lintSettings.tools.get? "kots" = some "vv1.2.3" ∧
      ¬∀ e ∈ c.lintSettings.tools, e.2 = "latest" ∨ Version.IsSemantic e.2 := by
  obtain ⟨c, hc, -, -, -, hkots⟩ := exists_resolve_spelledProject
  refine ⟨c, hc, hkots, fun hall => ?_⟩
  obtain ⟨e, he, hversion⟩ := Option.map_eq_some_iff.1 hkots
  have hentry := hall e (List.mem_of_find?_eq_some he)
  rw [hversion] at hentry
  revert hentry
  unfold Version.IsSemantic
  decide

end Config
end ReleaseLint
