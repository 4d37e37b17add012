/-
# Projects that are alike for a linter

Two configs are alike for a linter if they differ only in whether the others run and how strict
these are (`Config.AlikeFor`).  Then all that the linter works with is the same in the projects that
are gathered from them (`alikeFor_of_gather`), although the charts and the manifests are only
gathered when certain linters run.

| gathered for | and used by |
| --- | --- |
| `helm`: the charts | its targets |
| `helm` or `preflight`: the manifests | the arguments of `preflight` |

What a linter finds does not depend on what is stored in the cache either, as long as what it looks
for lies apart from the cache (`Config.LiesApart`, `targets_of_stocks`).
-/

import ReleaseLint.Proofs.Cache.Alone
import ReleaseLint.Proofs.Lint.Sight
import ReleaseLint.Proofs.Lint.Target

namespace ReleaseLint

open Tool.Cache (Place)
open Resource (LeadsInto)

variable {t : Tool} {c : Place} {v w w' : Workspace} {target : Target} {x : String}

namespace Config

/-- Whether two configs differ only in the switches of linters other than one. -/
structure AlikeFor (t : Tool) (config config' : Config) : Prop where
  rest : config' = { config with lint := config'.lint }
  settings : config'.lintSettings =
    { config.lintSettings with switches := config'.lintSettings.switches }
  switches : config'.lintSettings.switches t = config.lintSettings.switches t

/-- A config with other switches for one linter. -/
def withSwitches (config : Config) (t : Tool) (s : Switches) : Config :=
  let l := config.lintSettings
  { config with lint := some { l with switches := fun u => if u = t then s else l.switches u } }

theorem alikeFor_withSwitches (config : Config) (s : Switches) {u : Tool} (hu : t ≠ u) :
    config.AlikeFor t (config.withSwitches u s) :=
  ⟨rfl, rfl, if_neg hu⟩

namespace AlikeFor

variable {config config' : Config}

theorem refl (t : Tool) (config : Config) : config.AlikeFor t config :=
  ⟨rfl, rfl, rfl⟩

theorem charts (h : config.AlikeFor t config') : config'.charts = config.charts := by
  rw [h.rest]

theorem preflights (h : config.AlikeFor t config') : config'.preflights = config.preflights := by
  rw [h.rest]

theorem manifests (h : config.AlikeFor t config') : config'.manifests = config.manifests := by
  rw [h.rest]

theorem isEnabled_eq (h : config.AlikeFor t config') :
    config'.lintSettings.isEnabled = config.lintSettings.isEnabled := by
  rw [h.settings]
  rfl

theorem versionOf_eq (h : config.AlikeFor t config') (u : Tool) :
    config'.lintSettings.versionOf u = config.lintSettings.versionOf u := by
  rw [h.settings]
  rfl

end AlikeFor

/-- Whether a configured path leads into a directory that is out of sight of a cache. -/
def LeadsApart (c : Place) (w : Workspace) (x : String) : Prop :=
  ∃ a, c.IsOutOfSight w a ∧ LeadsInto a x

/-- Whether what a linter looks for lies out of sight of a cache. -/
def LiesApart (config : Config) (c : Place) (w : Workspace) : Tool → Prop
  | .helm => True
  | .preflight => ∀ e ∈ config.preflights, LeadsApart c w e.path ∧
      ∀ values, e.valuesPath = some values → ∃ a, c.IsOutOfSight w a ∧ (Path.mk values).LiesIn a
  | .supportBundle | .embeddedCluster | .kots => ∀ x ∈ config.manifests, LeadsApart c w x

end Config

/-! ### Targets -/

namespace Linter

variable {manifests manifests' : Manifest.Index}

/-- Only preflights are given values from manifests. -/
theorem arguments_congr (h : target.tool = .preflight → manifests' = manifests) :
    arguments manifests' target = arguments manifests target := by
  cases target with
  | preflight => rw [h rfl]
  | _ => rfl

theorem check_congr (h : target.tool = .preflight → manifests' = manifests)
    (hnode : v.node target.path = w.node target.path) :
    check manifests' target v = check manifests target w := by
  unfold check checkInput
  rw [hnode]
  refine bind_congr_ok fun _ _ => ?_
  cases target with
  | preflight spec values chartKey =>
    unfold checkTemplate
    simp only [h rfl, Resource.isTemplatedPreflight_congr (show v.node spec = w.node spec from hnode)]
  | _ => rfl

end Linter

/-- What a call comes to depends on the program behind the path. -/
theorem World.IsStateless.answer_congr {world : World} (hworld : world.IsStateless) {binary : Path}
    (hnode : v.node binary = w.node binary) (number number' : Nat) (arguments : List Argument) :
    world.answer number v binary arguments = world.answer number' w binary arguments := by
  unfold World.answer
  rw [hnode]
  simp only [hworld.run number number']

namespace Command
namespace Project

variable {p p' : Project} {o o' : Options} {config config' : Config} {targets : List Target}

/-- Whether all that a linter works with is the same in two projects. -/
structure AlikeFor (t : Tool) (p p' : Project) : Prop where
  project : p'.options.project = p.options.project
  strict : p'.options.strict = p.options.strict
  config : p.config.AlikeFor t p'.config
  checker : p'.checker = p.checker
  charts : t = .helm → p'.charts = p.charts
  manifests : t = .preflight → p'.manifests = p.manifests

/-- What is gathered for a run. -/
theorem gather_eq_ok (h : gather o config w = .ok p) :
    p.options = o ∧ p.config = config ∧
      (Ignore.Checker.load w o.project).mapError Error.ignoreFile = .ok p.checker ∧
      (if p.runs .helm then chartsOf w p.checker config else .ok []) = .ok p.charts ∧
      (if !config.manifests.isEmpty && (p.runs .helm || p.runs .preflight) then
        Resource.manifestIndex w p.checker config.manifests else .ok .empty) = .ok p.manifests := by
  have hsplit : gather o config w =
      (Ignore.Checker.load w o.project).mapError Error.ignoreFile >>= fun k =>
        (if (config.lintSettings.switches .helm).isEnabled .helm then chartsOf w k config
          else .ok []) >>= fun charts =>
        (if !config.manifests.isEmpty && ((config.lintSettings.switches .helm).isEnabled .helm ||
            (config.lintSettings.switches .preflight).isEnabled .preflight) then
          Resource.manifestIndex w k config.manifests else .ok .empty) >>= fun manifests =>
        .ok ⟨o, config, k, charts, manifests⟩ := by
    unfold gather
    refine bind_congr_ok fun k _ => ?_
    simp only
    split_ifs <;> rfl
  rw [hsplit] at h
  obtain ⟨k, hk, h⟩ := bind_eq_ok.1 h
  obtain ⟨charts, hcharts, h⟩ := bind_eq_ok.1 h
  obtain ⟨manifests, hmanifests, h⟩ := bind_eq_ok.1 h
  rw [← Except.ok.inj h]
  exact ⟨rfl, rfl, hk, hcharts, hmanifests⟩

/-- **Configs that are alike for a linter make projects that are,** if it runs. -/
theorem alikeFor_of_gather (hconfig : config.AlikeFor t config') (hproject : o'.project = o.project)
    (hstrict : o'.strict = o.strict) (h : gather o config w = .ok p)
    (h' : gather o' config' w = .ok p') (hruns : p.runs t = true) : p.AlikeFor t p' := by
  obtain ⟨rfl, rfl, hk, hcharts, hmanifests⟩ := gather_eq_ok h
  obtain ⟨rfl, rfl, hk', hcharts', hmanifests'⟩ := gather_eq_ok h'
  rw [hproject] at hk'
  obtain hk := Except.ok.inj (hk'.symm.trans hk)
  have hruns' : p'.runs t = true :=
    (congrArg (fun s : Config.Switches => s.isEnabled t) hconfig.switches).trans hruns
  refine ⟨hproject, hstrict, hconfig, hk, ?_, ?_⟩
  · rintro rfl
    have hsame : chartsOf w p'.checker p'.config = chartsOf w p.checker p.config := by
      unfold chartsOf
      rw [hconfig.charts, hk]
    rw [if_pos hruns] at hcharts
    rw [if_pos hruns', hsame] at hcharts'
    exact Except.ok.inj (hcharts'.symm.trans hcharts)
  · rintro rfl
    rw [hruns, Bool.or_true, Bool.and_true] at hmanifests
    rw [hruns', Bool.or_true, Bool.and_true, hconfig.manifests, hk] at hmanifests'
    exact Except.ok.inj (hmanifests'.symm.trans hmanifests)

/-- What the targets of a configured preflight are. -/
theorem preflightTargets_eq_ok {e : Config.PreflightEntry} :
    p.preflightTargets w e = .ok targets ↔
      ∃ key specs, chartKey w (e.valuesPath.map Path.mk) = .ok key ∧
        Resource.ofKind w p.checker .preflight e.path = .ok specs ∧
        targets = specs.map fun spec => .preflight spec (e.valuesPath.map Path.mk) key := by
  unfold preflightTargets
  simp only [bind_eq_ok]
  constructor
  · rintro ⟨key, hkey, specs, hspecs, h⟩
    exact ⟨key, specs, hkey, hspecs, (Except.ok.inj h).symm⟩
  · rintro ⟨key, specs, hkey, hspecs, rfl⟩
    exact ⟨key, hkey, specs, hspecs, rfl⟩

/-- The targets of a linter are its own. -/
theorem tool_of_mem_targets (h : p.targets t w = .ok targets) (htarget : target ∈ targets) :
    target.tool = t := by
  unfold Project.targets at h
  cases t with
  | helm =>
    rw [← Except.ok.inj h] at htarget
    obtain ⟨_, -, rfl⟩ := List.mem_map.1 htarget
    rfl
  | preflight =>
    obtain ⟨parts, hparts, h⟩ := bind_eq_ok.1 h
    rw [← Except.ok.inj h] at htarget
    obtain ⟨part, hpart, htarget⟩ := List.mem_flatten.1 htarget
    obtain ⟨e, -, hpart⟩ := (mem_of_mapM hparts).1 hpart
    obtain ⟨key, specs, -, -, rfl⟩ := preflightTargets_eq_ok.1 hpart
    obtain ⟨_, -, rfl⟩ := List.mem_map.1 htarget
    rfl
  | supportBundle | embeddedCluster | kots =>
    obtain ⟨paths, -, h⟩ := bind_eq_ok.1 h
    rw [← Except.ok.inj h] at htarget
    obtain ⟨_, -, rfl⟩ := List.mem_map.1 htarget
    rfl

namespace AlikeFor

theorem refl (t : Tool) (p : Project) : p.AlikeFor t p :=
  ⟨rfl, rfl, .refl t p.config, rfl, fun _ => rfl, fun _ => rfl⟩

theorem targets_eq (h : p.AlikeFor t p') (w : Workspace) : p'.targets t w = p.targets t w := by
  unfold targets preflightTargets
  rw [h.checker, h.config.manifests, h.config.preflights]
  cases t with
  | helm => simp only [h.charts rfl]
  | _ => rfl

theorem versionSpec_congr (h : p.AlikeFor t p')
    (hnode : ∀ target ∈ targets, v.node target.path = w.node target.path) :
    p'.versionSpec t targets v = p.versionSpec t targets w := by
  unfold versionSpec settings
  rw [h.config.versionOf_eq]
  cases targets with
  | nil => rfl
  | cons target rest =>
    simp only [Resource.clusterVersion_congr (hnode target List.mem_cons_self)]

theorem displayed_eq (h : p.AlikeFor t p') (target : Target) :
    p'.displayed target = p.displayed target := by
  unfold displayed
  rw [h.project]

theorem call_eq (h : p.AlikeFor t p') (htool : target.tool = t) (binary : Path) :
    p'.call binary target = p.call binary target := by
  unfold call
  rw [Linter.arguments_congr fun htarget => h.manifests (htool ▸ htarget)]

/-- **A target is reported the same.** -/
theorem resource_congr (h : p.AlikeFor t p') (htool : target.tool = t)
    (hnode : v.node target.path = w.node target.path) (binary : Path)
    (answer : Except SystemFault Exit) :
    p'.resource binary v target answer = p.resource binary w target answer := by
  have hcheck : Linter.check p'.manifests target v = Linter.check p.manifests target w :=
    Linter.check_congr (fun htarget => h.manifests (htool ▸ htarget)) hnode
  have hstrict : p'.isStrict target.tool = p.isStrict target.tool := by
    unfold isStrict settings
    rw [h.strict, htool, h.config.switches]
  unfold resource
  rw [hcheck, hstrict, h.displayed_eq]

end AlikeFor

/-! ### Behind what is stored -/

theorem chartKey_congr {a : Names} (h : AgreeBelow v w a) (hx : (Path.mk x).LiesIn a) :
    chartKey v (some ⟨x⟩) = chartKey w (some ⟨x⟩) := by
  obtain ⟨m, s, hm, hx⟩ := hx
  have hmarkers : ∀ marker ∈ Chart.markers,
      v.node (Path.ofNames (a ++ m) / marker) = w.node (Path.ofNames (a ++ m) / marker) := by
    intro marker hmarker
    rw [← Path.ofNames_concat]
    exact h.node_eq ⟨m, marker, hm.left.concat (Resource.isName_of_mem_markers hmarker), rfl⟩
  obtain ⟨hchart, hkey⟩ := Resource.chart_congr hmarkers
  unfold chartKey
  rw [hx, Option.bind_some, Path.parent?_ofNames hm]
  simp only [hchart, hkey]

theorem chartKey_of_stocks {e : Config.PreflightEntry} (hstocks : c.Stocks (fun _ => True) w w')
    (hw : w.tree.IsSound) (he : ∀ values, e.valuesPath = some values →
      ∃ a, c.IsOutOfSight w a ∧ (Path.mk values).LiesIn a) :
    chartKey w' (e.valuesPath.map Path.mk) = chartKey w (e.valuesPath.map Path.mk) := by
  cases hvalues : e.valuesPath with
  | none => rfl
  | some values =>
    obtain ⟨a, ha, hlies⟩ := he values hvalues
    exact chartKey_congr (hstocks.agreeBelow hw ha) hlies

theorem areShared_of_stocks {l : List String} (hstocks : c.Stocks (fun _ => True) w w')
    (hw : w.tree.IsSound) (hl : ∀ x ∈ l, Config.LeadsApart c w x) : Resource.AreShared w' w l :=
  fun x hx =>
    let ⟨a, ha, hleads⟩ := hl x hx
    ⟨a, hstocks.agreeBelow hw ha, hleads⟩

/-- **What a linter looks for is found again,** whatever is stored in the cache. -/
theorem targets_of_stocks (h : p.config.LiesApart c w t) (ht : t ≠ .helm) (hw : w.tree.IsSound)
    (hstocks : c.Stocks (fun _ => True) w w') : p.targets t w' = p.targets t w := by
  unfold targets
  cases t with
  | helm => exact absurd rfl ht
  | preflight =>
    have hentries : p.config.preflights.mapM (p.preflightTargets w') =
        p.config.preflights.mapM (p.preflightTargets w) := by
      refine mapM_congr fun e he => ?_
      obtain ⟨⟨a, ha, hleads⟩, hvalues⟩ := h e he
      unfold preflightTargets
      simp only [chartKey_of_stocks hstocks hw hvalues,
        Resource.ofKind_congr (hstocks.agreeBelow hw ha) hleads]
    simp only [hentries]
  | supportBundle => simp only [Resource.supportBundles_congr (areShared_of_stocks hstocks hw h)]
  | embeddedCluster => simp only [Resource.clusterConfigs_congr (areShared_of_stocks hstocks hw h)]
  | kots => simp only [Resource.manifestDirectories_congr (areShared_of_stocks hstocks hw h)]

/-- The targets of a linter are spared by what is stored in the cache. -/
theorem spares_of_mem_targets (h : p.config.LiesApart c w t) (ht : t ≠ .helm) (hw : w.tree.IsSound)
    (htargets : p.targets t w = .ok targets) (htarget : target ∈ targets) :
    c.Spares w target.path := by
  intro w' hstocks
  unfold Project.targets at htargets
  cases t with
  | helm => exact absurd rfl ht
  | preflight =>
    obtain ⟨parts, hparts, htargets⟩ := bind_eq_ok.1 htargets
    rw [← Except.ok.inj htargets] at htarget
    obtain ⟨part, hpart, htarget⟩ := List.mem_flatten.1 htarget
    obtain ⟨e, he, hpart⟩ := (mem_of_mapM hparts).1 hpart
    obtain ⟨key, specs, -, hspecs, rfl⟩ := preflightTargets_eq_ok.1 hpart
    obtain ⟨spec, hspec, rfl⟩ := List.mem_map.1 htarget
    obtain ⟨⟨a, ha, hleads⟩, -⟩ := h e he
    exact (hstocks.agreeBelow hw ha).node_eq (Resource.liesIn_of_mem_ofKind hw hleads hspecs hspec)
  | supportBundle =>
    obtain ⟨paths, hpaths, htargets⟩ := bind_eq_ok.1 htargets
    rw [← Except.ok.inj htargets] at htarget
    obtain ⟨path, hpath, rfl⟩ := List.mem_map.1 htarget
    exact Resource.node_eq_of_mem_supportBundles (areShared_of_stocks hstocks hw h) hpaths hpath
  | embeddedCluster =>
    obtain ⟨paths, hpaths, htargets⟩ := bind_eq_ok.1 htargets
    rw [← Except.ok.inj htargets] at htarget
    obtain ⟨path, hpath, rfl⟩ := List.mem_map.1 htarget
    exact Resource.node_eq_of_mem_clusterConfigs (areShared_of_stocks hstocks hw h) hpaths hpath
  | kots =>
    obtain ⟨paths, hpaths, htargets⟩ := bind_eq_ok.1 htargets
    rw [← Except.ok.inj htargets] at htarget
    obtain ⟨path, hpath, rfl⟩ := List.mem_map.1 htarget
    exact Resource.node_eq_of_mem_manifestDirectories (areShared_of_stocks hstocks hw h) hpaths hpath

end Project
end Command
end ReleaseLint
