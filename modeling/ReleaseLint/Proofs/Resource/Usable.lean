/-
# What is accepted can be looked for

The paths of a config are checked once, before any of them is looked for.  Those with wildcards
are read then, and what is derived from them is readable with them, so that no search for charts
or for resources of a kind refuses one.  Those without wildcards are not read then.  Charts and
resources of a kind are looked up at such a path without reading it, but manifests are searched
for with every path, and a closing brace or a backslash at its end is a fault there.

| path of an accepted config | charts, kinds | manifests |
| --- | --- | --- |
| with wildcards | never refused for what it says | found |
| `a/b.yaml` | looked up as it is | found |
| `a/b}.yaml` | looked up as it is | cannot be read |

`refused_of_resolve` says so for every tree.
-/

import ReleaseLint.Proofs.Config.Paths
import ReleaseLint.Proofs.Glob.Readable
import ReleaseLint.Proofs.Resource.Discovery

namespace ReleaseLint

open Path (ofNames)
open Glob (isPattern literalFault?)

/-- Whether an error is about a pattern as such: it cannot be read, or it climbs. -/
def Error.isOfPattern : Error → Bool
  | .glob .. | .traversal .. => true
  | _ => false

variable {v w : Workspace} {start : Path} {c : Config} {m s : String} {ms : List String}
variable {names : Names} {e : Error} {checker : Option Ignore.Checker} {kind : Resource.Kind}

namespace Config

/-- The paths of the charts, preflights and manifests of a config. -/
def patterns (c : Config) : List String :=
  c.charts.map (·.path) ++ c.preflights.map (·.path) ++ c.manifests

/-- Without issues each path with wildcards is read. -/
theorem exists_parse_of_pathIssues {list : Section} {index : Nat} {paths : List String}
    (h : pathIssues list index paths = []) :
    ∀ path ∈ paths, isPattern path = true → ∃ ps, Glob.parse .search path = .ok ps := by
  induction paths generalizing index with
  | nil => exact fun path hpath => absurd hpath List.not_mem_nil
  | cons first r ih =>
    rw [pathIssues, List.append_eq_nil_iff] at h
    intro path hpath hpattern
    rcases List.mem_cons.1 hpath with rfl | hpath
    · have hfirst := h.1
      unfold pathIssue? at hfirst
      split_ifs at hfirst with hblank hplain
      · cases hfirst
      · rw [hpattern] at hplain
        cases hplain
      · cases hparse : Glob.parse .search path with
        | ok ps => exact ⟨ps, rfl⟩
        | error fault =>
          rw [hparse] at hfirst
          cases hfirst
    · exact ih h.2 path hpath hpattern

/-- **What a config that applies names:** paths from the root, of which those with wildcards are
read. -/
theorem accepted_of_mem_patterns (hv : v.directory.isAbsolute = true)
    (hc : resolve v start = .ok c) (hm : m ∈ c.patterns) :
    (Path.mk m).IsRooted ∧ (isPattern m = true → ∃ ps, Glob.parse .search m = .ok ps) := by
  obtain ⟨hall, hissues⟩ := allPaths_resolve hv hc
  obtain ⟨hcharts, hpreflights, hmanifests, -⟩ := issues_eq_nil_iff.1 hissues
  have haccepted {list : Section} {paths : List String} (hpaths : ∀ p ∈ paths, IsAnchored p)
      (hnone : pathIssues list 0 paths = []) (hm : m ∈ paths) :
      (Path.mk m).IsRooted ∧ (isPattern m = true → ∃ ps, Glob.parse .search m = .ok ps) := by
    refine ⟨(hpaths m hm).resolve_left ?_, exists_parse_of_pathIssues hnone m hm⟩
    rintro rfl
    exact absurd (allBlank_eq_false_of_pathIssues hnone "" hm) (by decide)
  rcases List.mem_append.1 hm with hm | hm
  · rcases List.mem_append.1 hm with hm | hm
    · exact haccepted (List.forall_mem_map.2 hall.charts) hcharts hm
    · exact haccepted (List.forall_mem_map.2 hall.preflights) hpreflights hm
  · exact haccepted hall.manifests hmanifests hm

end Config

namespace Resource

/-! ### Derived patterns -/

/-- The patterns for the marker files of charts can be looked for. -/
theorem exists_files_markers (h : AreNames (names ++ [s]))
    (hread : ∃ ps, Glob.parse .search (ofNames (names ++ [s])).text = .ok ps) :
    ∀ x ∈ markerPatterns (ofNames (names ++ [s])), ∃ found, files w checker m x = .ok found := by
  intro x hx
  rw [markerPatterns_ofNames h] at hx
  split_ifs at hx
  · rw [List.mem_singleton.1 hx]
    exact Glob.exists_expand h hread
  · obtain ⟨marker, hmarker, rfl⟩ := List.mem_map.1 hx
    have hconcat := h.concat (isName_of_mem_markers hmarker)
    rw [Glob.exists_parse_iff_isReadable] at hread
    refine Glob.exists_expand hconcat (Glob.exists_parse_iff_isReadable.2 ?_)
    refine Glob.isReadable_concat hconcat (List.concat_ne_nil _ _) hread ?_
    rcases List.mem_pair.1 hmarker with rfl | rfl <;> simp

/-- The patterns for the YAML files of a pattern can be looked for. -/
theorem exists_files_yaml (h : AreNames (names ++ [s]))
    (hread : ∃ ps, Glob.parse .search (ofNames (names ++ [s])).text = .ok ps) {patterns : List String}
    (hpatterns : yamlPatterns (ofNames (names ++ [s])).text = .ok patterns) :
    ∀ x ∈ patterns, ∃ found, files w checker m x = .ok found := by
  have hbelow {stem : Names} (hstem : AreNames stem)
      (hstar : ∀ e, Glob.IsEnding e → (∀ c ∈ e, c ∉ ['[', '\x7b', '\x7d', '\\']) →
        Glob.IsReadable 0 (ofNames (stem ++ [Glob.star e])).text.toList) :
      ∀ x ∈ yamlBelow stem, ∃ found, files w checker m x = .ok found := by
    intro x hx
    rcases List.mem_pair.1 hx with rfl | rfl
    · exact Glob.exists_expand (hstem.concat (Glob.isName_star isEnding_yaml))
        (Glob.exists_parse_iff_isReadable.2 (hstar _ isEnding_yaml (by simp)))
    · exact Glob.exists_expand (hstem.concat (Glob.isName_star isEnding_yml))
        (Glob.exists_parse_iff_isReadable.2 (hstar _ isEnding_yml (by simp)))
  have hread' := Glob.exists_parse_iff_isReadable.1 hread
  rw [yamlPatterns_ofNames h] at hpatterns
  split_ifs at hpatterns with hend hstar hopen
  · intro x hx
    rw [← Except.ok.inj hpatterns, List.mem_singleton] at hx
    exact hx ▸ Glob.exists_expand h hread
  · -- the ending stands behind the star of the pattern
    rw [← Except.ok.inj hpatterns]
    refine hbelow h.left fun e he hplain => ?_
    rw [Path.text_ofNames_concat (h.left.concat (Glob.isName_star he)), Glob.toList_star]
    rw [Path.text_ofNames_concat h, hstar, Glob.toList_star] at hread'
    have happend := hread'.append (.of_plain hplain)
    rwa [List.append_assoc] at happend
  · rw [← Except.ok.inj hpatterns]
    refine hbelow h fun e he hplain => ?_
    refine Glob.isReadable_concat (h.concat (Glob.isName_star he)) (List.concat_ne_nil _ _) hread' ?_
    rw [Glob.toList_star, List.forall_mem_cons]
    exact ⟨by decide, hplain⟩

/-! ### Searches that never refuse a pattern -/

theorem exists_eq_concat_of_pattern (hm : (Path.mk m).IsRooted) (hpattern : isPattern m = true) :
    ∃ names s, AreNames (names ++ [s]) ∧ m = (ofNames (names ++ [s])).text := by
  obtain ⟨names, hnames, heq⟩ := hm
  obtain rfl : m = (ofNames names).text := congrArg Path.text heq
  rcases List.eq_nil_or_concat names with rfl | ⟨q, s, rfl⟩
  · exact absurd hpattern (by decide)
  · rw [List.concat_eq_append] at hnames ⊢
    exact ⟨q, s, hnames, rfl⟩

theorem exists_charts (hm : (Path.mk m).IsRooted) (hpattern : isPattern m = true)
    (hread : ∃ ps, Glob.parse .search m = .ok ps) : ∃ found, charts w checker m = .ok found := by
  unfold charts
  rw [if_neg (by simp [allBlank_of_isRooted hm]), if_neg (by simp [hpattern]),
    clean_of_isRooted hm]
  obtain ⟨names, s, hnames, rfl⟩ := exists_eq_concat_of_pattern hm hpattern
  obtain ⟨found, hfound⟩ := exists_mapM_iff.2 (exists_files_markers hnames hread)
  exact ⟨_, bind_eq_ok.2 ⟨found, hfound, rfl⟩⟩

theorem exists_ofKind (hm : (Path.mk m).IsRooted) (hpattern : isPattern m = true)
    (hread : ∃ ps, Glob.parse .search m = .ok ps) (hs : isSearchable m = true) :
    ∃ found, ofKind w checker kind m = .ok found := by
  obtain ⟨patterns, hpatterns⟩ := exists_yamlPatterns_iff.2 hs
  obtain ⟨names, s, hnames, rfl⟩ := exists_eq_concat_of_pattern hm hpattern
  obtain ⟨all, hall⟩ := exists_collect_iff.2 (exists_files_yaml hnames hread hpatterns)
  exact ⟨_, (ofKind_eq_ok hm hpattern).2 ⟨patterns, all, hpatterns, hall, rfl⟩⟩

/-! ### Paths without wildcards -/

theorem isOfPattern_of_explicitChart (h : explicitChart w m = .error e) :
    e.isOfPattern = false := by
  unfold explicitChart at h
  dsimp only at h
  split_ifs at h <;> rw [← Except.error.inj h] <;> rfl

theorem isOfPattern_of_declares {p : Path} (h : declares w kind p = .error e) :
    e.isOfPattern = false := by
  unfold declares at h
  cases htext : w.readText p with
  | ok content =>
    rw [htext] at h
    cases h
  | error fault =>
    rw [htext] at h
    rw [← Except.error.inj h]
    rfl

theorem isOfPattern_of_explicitOfKind (h : explicitOfKind w kind m = .error e) :
    e.isOfPattern = false := by
  unfold explicitOfKind at h
  dsimp only at h
  simp only [unless_eq_error, bind_eq_error] at h
  rcases h with ⟨-, rfl⟩ | ⟨-, ⟨-, rfl⟩ | ⟨-, ⟨-, rfl⟩ | ⟨-, hdeclares | ⟨b, -, ⟨-, rfl⟩ | ⟨-, h⟩⟩⟩⟩⟩
  · rfl
  · rfl
  · rfl
  · exact isOfPattern_of_declares hdeclares
  · rfl
  · cases h

/-! ### Manifests -/

/-- The error of a search for manifests with an accepted path. -/
def manifestError? (m : String) : Option Error :=
  if isPattern m then none else (literalFault? m.toList).map (.glob m)

theorem files_eq_error_iff (hm : (Path.mk m).IsRooted)
    (hread : isPattern m = true → ∃ ps, Glob.parse .search m = .ok ps) :
    files w checker m m = .error e ↔ manifestError? m = some e := by
  obtain ⟨names, hnames, heq⟩ := hm
  obtain rfl : m = (ofNames names).text := congrArg Path.text heq
  unfold files manifestError?
  rw [Glob.expand_eq_error_iff hnames]
  cases hpattern : isPattern (ofNames names).text with
  | true =>
    obtain ⟨ps, hps⟩ := hread hpattern
    rw [hps, if_pos rfl]
    exact iff_of_false (fun ⟨_, he, _⟩ => by cases he) (fun he => by cases he)
  | false =>
    rw [if_neg Bool.false_ne_true, Option.map_eq_some_iff]
    simp only [Glob.parse_eq_error_iff hpattern, eq_comm]

theorem manifestFiles_eq_error_iff (hms : ∀ m ∈ ms, (Path.mk m).IsRooted)
    (hread : ∀ m ∈ ms, isPattern m = true → ∃ ps, Glob.parse .search m = .ok ps) :
    manifestFiles w checker ms = .error e ↔ ms.findSome? manifestError? = some e := by
  rw [← mapM_eq_error_iff (f := fun m => files w checker m m)
    fun m hm e => files_eq_error_iff (hms m hm) (hread m hm)]
  unfold manifestFiles collect
  rw [bind_eq_error]
  refine or_iff_left ?_
  rintro ⟨parts, -, he⟩
  cases he

/-! ### All searches -/

/-- **Which accepted paths are refused later.**  Whatever the tree, with or without ignore files,
neither charts nor resources of a kind refuse a path of a config that applies because it cannot be
read or climbs; with wildcards charts are always found and resources of a kind if the ending can
be searched for.  Manifests are refused precisely for the first path without wildcards that has a
closing brace or ends with a backslash. -/
theorem refused_of_resolve (hv : v.directory.isAbsolute = true)
    (hc : Config.resolve v start = .ok c) (w : Workspace) (checker : Option Ignore.Checker) :
    (∀ m ∈ c.patterns,
      (∀ e, charts w checker m = .error e → e.isOfPattern = false) ∧
      (∀ kind e, ofKind w checker kind m = .error e → e.isOfPattern = false) ∧
      (isPattern m = true → (∃ found, charts w checker m = .ok found) ∧
        ∀ kind, isSearchable m = true → ∃ found, ofKind w checker kind m = .ok found)) ∧
    ∀ ms ⊆ c.patterns, ∀ e,
      manifestFiles w checker ms = .error e ↔ ms.findSome? manifestError? = some e := by
  have haccepted := fun m hm => Config.accepted_of_mem_patterns (m := m) hv hc hm
  refine ⟨fun m hm => ?_, fun ms hms e => manifestFiles_eq_error_iff
    (fun m hm => (haccepted m (hms hm)).1) fun m hm => (haccepted m (hms hm)).2⟩
  obtain ⟨hrooted, hread⟩ := haccepted m hm
  cases hpattern : isPattern m with
  | false =>
    refine ⟨fun e he => ?_, fun kind e he => ?_, fun h => by cases h⟩
    · unfold charts at he
      rw [if_neg (by simp [allBlank_of_isRooted hrooted]), if_pos (by simp [hpattern])] at he
      exact isOfPattern_of_explicitChart he
    · unfold ofKind at he
      rw [if_neg (by simp [allBlank_of_isRooted hrooted]), if_pos (by simp [hpattern])] at he
      exact isOfPattern_of_explicitOfKind he
  | true =>
    have hcharts : ∃ found, charts w checker m = .ok found :=
      exists_charts hrooted hpattern (hread hpattern)
    have hkinds : ∀ kind, isSearchable m = true → ∃ found, ofKind w checker kind m = .ok found :=
      fun _ hs => exists_ofKind hrooted hpattern (hread hpattern) hs
    refine ⟨fun e he => ?_, fun kind e he => ?_, fun _ => ⟨hcharts, hkinds⟩⟩
    · obtain ⟨found, hfound⟩ := hcharts
      cases hfound.symm.trans he
    · cases hs : isSearchable m with
      | true =>
        obtain ⟨found, hfound⟩ := hkinds kind hs
        cases hfound.symm.trans he
      | false =>
        rw [ofKind_openPattern hrooted hpattern hs] at he
        rw [← Except.error.inj he]
        rfl

/-- A config with a chart pattern and two manifests, of which one has a brace in its name. -/
def bracedConfig : String :=
  "charts:\n- path: c/**\nmanifests:\n- '*.yaml'\n- a\x7d.yaml\n"

/-- A project with that config and the manifest with the brace. -/
def bracedProject : Workspace where
  tree := ⟨[(["p"], .directory), (["p", ".replicated"], .file bracedConfig.toUTF8 false),
    (["p", "a\x7d.yaml"], .file "kind: Deployment\n".toUTF8 false)]⟩
  directory := ⟨"/p"⟩

theorem exists_resolve_bracedProject : ∃ c, Config.resolve bracedProject ⟨"."⟩ = .ok c ∧
    c.charts.map (·.path) = ["/p/c/**"] ∧ c.preflights.map (·.path) = [] ∧
    c.manifests = ["/p/*.yaml", "/p/a\x7d.yaml"] := by
  obtain ⟨c, hc, hsays⟩ := Config.exists_resolve_such_iff.1
    (show Config.writesSuch bracedProject ⟨"."⟩ (fun c =>
      c.charts.map (·.path) == ["/p/c/**"] && (c.preflights.map (·.path) == [] &&
        c.manifests == ["/p/*.yaml", "/p/a\x7d.yaml"])) = true by decide +kernel)
  simp only [Bool.and_eq_true, beq_iff_eq] at hsays
  exact ⟨c, hc, hsays⟩

theorem refused_of_bracedProject : ∃ c, Config.resolve bracedProject ⟨"."⟩ = .ok c ∧
    c.patterns = ["/p/c/**", "/p/*.yaml", "/p/a\x7d.yaml"] ∧
    (∃ found, charts bracedProject none "/p/c/**" = .ok found) ∧
    (∀ e, charts bracedProject none "/p/a\x7d.yaml" = .error e → e.isOfPattern = false) ∧
    manifestFiles bracedProject none c.manifests =
      .error (.glob "/p/a\x7d.yaml" .unopenedAlternates) := by
  obtain ⟨c, hc, hcharts, hpreflights, hmanifests⟩ := exists_resolve_bracedProject
  have hpatterns : c.patterns = ["/p/c/**", "/p/*.yaml", "/p/a\x7d.yaml"] := by
    unfold Config.patterns
    rw [hcharts, hpreflights, hmanifests]
    rfl
  obtain ⟨hsearch, hfiles⟩ := refused_of_resolve
    (show bracedProject.directory.isAbsolute = true by decide) hc bracedProject none
  rw [hpatterns] at hsearch hfiles
  refine ⟨c, hc, hpatterns, ((hsearch "/p/c/**" (by decide)).2.2 (by decide)).1,
    (hsearch "/p/a\x7d.yaml" (by decide)).1, (hfiles _ ?_ _).2 ?_⟩
  · rw [hmanifests]
    decide
  · rw [hmanifests]
    rfl

/-- **An accepted path can be one that manifests cannot be searched for with.** -/
theorem manifestFiles_bracedProject : ∃ c, Config.resolve bracedProject ⟨"."⟩ = .ok c ∧
    "/p/a\x7d.yaml" ∈ c.manifests ∧ bracedProject.hasFile ⟨"/p/a\x7d.yaml"⟩ = true ∧
    manifestFiles bracedProject none ["/p/a\x7d.yaml"] =
      .error (.glob "/p/a\x7d.yaml" .unopenedAlternates) := by
  obtain ⟨c, hc, -, -, hmanifests⟩ := exists_resolve_bracedProject
  refine ⟨c, hc, by rw [hmanifests]; decide, by decide +kernel, ?_⟩
  have hrooted : (Path.mk "/p/a\x7d.yaml").IsRooted :=
    Path.isRooted_ofNames (show AreNames ["p", "a\x7d.yaml"] by decide)
  refine (manifestFiles_eq_error_iff (List.forall_mem_singleton.2 hrooted) ?_).2 rfl
  exact List.forall_mem_singleton.2 fun hpattern => absurd hpattern (by decide)

end Resource
end ReleaseLint
