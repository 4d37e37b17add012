/-
# What the section of a linter holds

The section of a linter that runs has one resource for each target, in their order and under
their displayed paths (`runOn_addSection`).

| what went wrong | which resources fail |
| --- | --- |
| targets cannot be discovered | there is no section, and the command fails |
| no version, or no binary for it | all of them, with the same error |
| a target, its program or its output | the one of this target |

The search for a binary comes before all targets and knows of them only what the first embedded
cluster config declares (`lookFor`).
-/

import ReleaseLint.Proofs.Cache.Confinement
import ReleaseLint.Proofs.Lint.Target

namespace ReleaseLint

/-! ### What a search leaves alone -/

/-- Whether no program was started between two machines of one world. -/
structure Machine.Idles (m m' : Machine) : Prop where
  world : m'.world = m.world
  calls : m'.calls = m.calls

namespace Machine.Idles

variable {m m' m'' : Machine}

theorem refl (m : Machine) : m.Idles m :=
  ⟨rfl, rfl⟩

theorem trans (h : m.Idles m') (h' : m'.Idles m'') : m.Idles m'' :=
  ⟨h'.world.trans h.world, h'.calls.trans h.calls⟩

end Machine.Idles

namespace Tool

variable {r : Resolver} {t : Tool} {m m' : Machine} {log : List Request}

theorem Consults.idles (h : Consults r m log m') : m.Idles m' := by
  rw [h.eq]
  exact ⟨rfl, rfl⟩

theorem idles_version (r : Resolver) (t : Tool) (spec : String) (m : Machine) :
    m.Idles ((r.version t spec).runOn m).2 := by
  obtain ⟨log, hconsults⟩ := consults_version r t spec m
  exact hconsults.idles

theorem idles_resolve (r : Resolver) (t : Tool) (spec : String) (m : Machine) :
    m.Idles ((r.resolve t spec).runOn m).2 := by
  have hversion := idles_version r t spec m
  have hresolves := resolve_spec r t spec m
  generalize (r.resolve t spec).runOn m = result at hresolves
  cases hresolves with
  | unknown h | cached h =>
    rw [h] at hversion
    exact hversion
  | missed h _ hdownload =>
    rw [h] at hversion
    obtain ⟨_, rfl⟩ := exists_eq_of_download hdownload
    exact hversion.trans ⟨rfl, rfl⟩
  | fetched h _ hdownload hstores =>
    rw [h] at hversion
    obtain ⟨_, rfl⟩ := exists_eq_of_download hdownload
    obtain ⟨w, hw⟩ := hstores.exists_eq
    rw [hw]
    exact hversion.trans ⟨rfl, rfl⟩

end Tool

namespace Command
namespace Project

open Session
open Tool (Resolver)

variable {p : Project} {r : Resolver} {t : Tool} {m m' : Machine} {targets : List Target}
  {report report' : Report}

/-- A local binary is not looked for. -/
theorem runOn_find_of_local {path : Path} (hlocal : r.overrides t = some path) (spec : String)
    (m : Machine) : (find r t spec).runOn m = (.ok ⟨.ok path, some "local", []⟩, m) := by
  unfold find Resolver.locate
  simp only [hlocal, Option.isSome_some, if_true, runOn_bind, runOn_attempt, runOn_pure]

/-- **A search comes to an end,** with a binary or with the reason why there is none. -/
theorem exists_found (r : Resolver) (t : Tool) (spec : String) (m : Machine) :
    ∃ found m', (find r t spec).runOn m = (.ok found, m') ∧ m.Idles m' := by
  cases hlocal : r.overrides t with
  | some path => exact ⟨_, m, runOn_find_of_local hlocal spec m, .refl m⟩
  | none =>
    rcases find_cases hlocal spec m with ⟨e, m', hversion, hfind⟩ |
      ⟨v, m₁, m₂, log, warnings, hversion, hconsults, hfind⟩
    · have hidles := Tool.idles_version r t spec m
      rw [hversion] at hidles
      exact ⟨_, m', hfind, hidles⟩
    · have hidles := Tool.idles_version r t spec m
      rw [hversion] at hidles
      exact ⟨_, _, hfind, (hidles.trans hconsults.idles).trans (Tool.idles_resolve r t v m₂)⟩

/-- The search for the binary that is to lint some targets. -/
def lookFor (p : Project) (r : Resolver) (t : Tool) (targets : List Target) : Session Found := do
  match p.versionSpec t targets (← Session.workspace) with
  | .ok spec => find r t spec
  | .error e => pure ⟨.error e, none, []⟩

theorem runOn_lookFor (p : Project) (r : Resolver) (t : Tool) (targets : List Target) (m : Machine) :
    (p.lookFor r t targets).runOn m =
      match p.versionSpec t targets m.workspace with
      | .ok spec => (find r t spec).runOn m
      | .error e => (.ok ⟨.error e, none, []⟩, m) := by
  unfold lookFor
  simp only [runOn_bind, runOn_workspace]
  cases p.versionSpec t targets m.workspace <;> rfl

theorem exists_lookFor (p : Project) (r : Resolver) (t : Tool) (targets : List Target)
    (m : Machine) : ∃ found m', (p.lookFor r t targets).runOn m = (.ok found, m') ∧ m.Idles m' := by
  rw [runOn_lookFor]
  cases p.versionSpec t targets m.workspace with
  | error e => exact ⟨_, m, rfl, .refl m⟩
  | ok spec => exact exists_found r t spec m

/-- Whether resources are what is reported of targets that are linted between two machines: with
a binary each one for itself, and without one all of them the same. -/
def Reports (p : Project) (binary : Except Error Path) (m m' : Machine) (targets : List Target)
    (resources : List Report.Resource) : Prop :=
  match binary with
  | .ok binary => List.Forall₂ (p.Judged binary m m') targets resources
  | .error e => resources = targets.map fun target => .ofError (p.displayed target) e

theorem Judged.path_eq {binary : Path} {target : Target} {x : Report.Resource}
    (h : p.Judged binary m m' target x) : x.path = p.displayed target := by
  obtain ⟨number, -, rfl⟩ := h.resource
  exact path_resource

/-- There is one resource for each target, under its displayed path. -/
theorem Reports.map_path {binary : Except Error Path} {resources : List Report.Resource}
    (h : p.Reports binary m m' targets resources) :
    resources.map (·.path) = targets.map p.displayed := by
  cases binary with
  | error e =>
    rw [show resources = _ from h, List.map_map]
    rfl
  | ok binary =>
    have hpaths : List.Forall₂ (fun target x => p.displayed target = x.path) targets resources :=
      List.Forall₂.imp (fun _ _ hx => hx.path_eq.symm) h
    exact (List.forall₂_eq_eq_eq ▸ List.forall₂_map_left_iff.2
      (List.forall₂_map_right_iff.2 hpaths) : targets.map p.displayed = _).symm

/-- **A target is reported for itself:** given the binary and the tree, what is reported of it
depends on its own program alone. -/
theorem Reports.eq_of_answers {binary : Except Error Path} {n n' : Machine} {targets' : List Target}
    {resources resources' : List Report.Resource} {i j : Nat} {target : Target}
    (h : p.Reports binary m m' targets resources) (h' : p.Reports binary n n' targets' resources')
    (hi : targets[i]? = some target) (hj : targets'[j]? = some target)
    (hworkspace : n.workspace = m.workspace)
    (hanswers : ∀ path, binary = .ok path → ∀ number number',
      m.world.answer number m.workspace path (p.call path target).arguments =
        n.world.answer number' n.workspace path (p.call path target).arguments) :
    resources[i]? = resources'[j]? := by
  cases binary with
  | error e =>
    rw [show resources = _ from h, show resources' = _ from h', List.getElem?_map,
      List.getElem?_map, hi, hj]
  | ok path =>
    obtain ⟨x, hx, hjudged⟩ := exists_getElem?_of_forall₂ h hi
    obtain ⟨y, hy, hjudged'⟩ := exists_getElem?_of_forall₂ h' hj
    rw [hx, hy, hjudged.eq_of_answers hjudged' hworkspace (hanswers path rfl)]

/-- A resource that is reported as passed has a binary behind it. -/
theorem Reports.passes {binary : Except Error Path} {resources : List Report.Resource}
    (h : p.Reports binary m m' targets resources) :
    List.Forall₂ (fun target x => x.success = true →
      ∃ path, binary = .ok path ∧ p.Passes path m m' target x) targets resources := by
  cases binary with
  | error e =>
    rw [show resources = _ from h, List.forall₂_map_right_iff, List.forall₂_same]
    intro target _ hsuccess
    cases hsuccess
  | ok path =>
    exact List.Forall₂.imp (fun _ _ hx hsuccess => ⟨path, rfl, hx.passes hsuccess⟩) h

/-- If all targets passed, there is a binary that has linted them. -/
theorem Reports.exists_binary {binary : Except Error Path} {resources : List Report.Resource}
    (h : p.Reports binary m m' targets resources) (hsuccess : ∀ x ∈ resources, x.success = true)
    (hne : targets ≠ []) :
    ∃ path, binary = .ok path ∧ List.Forall₂ (p.Passes path m m') targets resources := by
  have hpasses := h.passes
  cases binary with
  | error e =>
    cases hpasses with
    | nil => exact absurd rfl hne
    | cons hx _ =>
      obtain ⟨path, hpath, -⟩ := hx (hsuccess _ List.mem_cons_self)
      cases hpath
  | ok path =>
    refine ⟨path, rfl, ?_⟩
    clear h hne
    induction hpasses with
    | nil => exact .nil
    | cons hx _ ih =>
      rw [List.forall_mem_cons] at hsuccess
      obtain ⟨_, hpath, hpasses⟩ := hx hsuccess.1
      obtain rfl := Except.ok.inj hpath
      exact .cons hpasses (ih hsuccess.2)

theorem runOn_lintTargets (p : Project) (r : Resolver) (t : Tool) (targets : List Target)
    (m : Machine) :
    ∃ found m₁ resources m', (p.lookFor r t targets).runOn m = (.ok found, m₁) ∧
      (p.lintTargets r t targets).runOn m = (.ok (found, resources), m') ∧
      m.Idles m₁ ∧ m₁.Calls m' ∧ p.Reports found.binary m₁ m' targets resources := by
  obtain ⟨found, m₁, hfound, hidles⟩ := p.exists_lookFor r t targets m
  have hsplit : p.lintTargets r t targets = p.lookFor r t targets >>= fun found =>
      match found.binary with
      | .ok binary => do return (found, ← targets.mapM (p.lintTarget binary))
      | .error e => return (found, targets.map fun target => .ofError (p.displayed target) e) := by
    unfold lintTargets lookFor
    rw [bind_assoc]
    refine congrArg (Session.workspace >>= ·) (funext fun w => ?_)
    cases p.versionSpec t targets w <;> rfl
  rw [hsplit, runOn_bind, hfound]
  cases hbinary : found.binary with
  | error e =>
    refine ⟨found, m₁, targets.map fun target => .ofError (p.displayed target) e, m₁, rfl, ?_,
      hidles, .refl m₁, ?_⟩
    · simp only [hbinary, runOn_pure]
    · rw [hbinary]
      exact rfl
  | ok binary =>
    obtain ⟨resources, m', hrun, hcalls, hresources⟩ := p.judged_of_lintTargets binary targets m₁
    refine ⟨found, m₁, resources, m', rfl, ?_, hidles, hcalls, ?_⟩
    · simp only [hbinary, runOn_bind, hrun, runOn_pure]
    · rw [hbinary]
      exact hresources

theorem reports_of_lintTargets {found : Found} {m₁ : Machine} {resources : List Report.Resource}
    (hfound : (p.lookFor r t targets).runOn m = (.ok found, m₁))
    (hrun : (p.lintTargets r t targets).runOn m = (.ok (found, resources), m')) :
    p.Reports found.binary m₁ m' targets resources := by
  obtain ⟨_, _, _, _, hfound', hrun', -, -, hreports⟩ := p.runOn_lintTargets r t targets m
  obtain ⟨-, rfl⟩ := Prod.mk.inj (hfound.symm.trans hfound')
  obtain ⟨hresult, rfl⟩ := Prod.mk.inj (hrun.symm.trans hrun')
  obtain ⟨rfl, rfl⟩ := Prod.mk.inj (Except.ok.inj hresult)
  exact hreports

theorem runOn_addSection_of_not_runs (hruns : p.runs t = false) (r : Resolver) (report : Report)
    (m : Machine) : (p.addSection r report t).runOn m =
      (.ok { report with sections := report.sections ++ [⟨t, false, []⟩] }, m) := by
  unfold addSection
  simp only [hruns, Bool.not_false, if_true, runOn_pure]

theorem runOn_addSection_of_no_targets (htargets : p.targets t m.workspace = .ok [])
    (r : Resolver) (report : Report) : (p.addSection r report t).runOn m =
      (.ok { report with sections := report.sections ++ [⟨t, p.runs t, []⟩] }, m) := by
  cases hruns : p.runs t with
  | false => exact runOn_addSection_of_not_runs hruns r report m
  | true =>
    unfold addSection Session.inspect
    simp only [hruns, Bool.not_true, Bool.false_eq_true, if_false, runOn_bind, runOn_workspace,
      runOn_lift, htargets, List.isEmpty_nil, if_true, runOn_pure]

/-- Whether a linter has linted its targets between two machines: it has looked for its binary
first, if there are any. -/
def Lints (p : Project) (r : Resolver) (t : Tool) (m m' : Machine) (targets : List Target)
    (resources : List Report.Resource) : Prop :=
  targets = [] ∧ resources = [] ∧ m' = m ∨
    ∃ found m₁, (p.lookFor r t targets).runOn m = (.ok found, m₁) ∧ m.Idles m₁ ∧ m₁.Calls m' ∧
      p.Reports found.binary m₁ m' targets resources

theorem Lints.map_path {resources : List Report.Resource}
    (h : p.Lints r t m m' targets resources) :
    resources.map (·.path) = targets.map p.displayed := by
  rcases h with ⟨rfl, rfl, -⟩ | ⟨found, m₁, -, -, -, hreports⟩
  · rfl
  · exact hreports.map_path

theorem Lints.calls_prefix {resources : List Report.Resource}
    (h : p.Lints r t m m' targets resources) : m.calls <+: m'.calls := by
  rcases h with ⟨-, -, rfl⟩ | ⟨found, m₁, -, hidles, hcalls, -⟩
  · exact List.prefix_rfl
  · exact hidles.calls ▸ hcalls.calls

/-- **The section of a linter that runs** has one resource for each target, unless the targets
cannot be discovered. -/
theorem runOn_addSection (hruns : p.runs t = true) (r : Resolver) (report : Report) (m : Machine) :
    match p.targets t m.workspace with
    | .error e => (p.addSection r report t).runOn m = (.error e, m)
    | .ok targets => ∃ report' resources m', (p.addSection r report t).runOn m = (.ok report', m') ∧
        report'.sections = report.sections ++ [⟨t, true, resources⟩] ∧
        p.Lints r t m m' targets resources := by
  unfold addSection
  simp only [hruns, Bool.not_true, Bool.false_eq_true, if_false, runOn_bind]
  unfold Session.inspect
  simp only [runOn_bind, runOn_workspace, runOn_lift]
  cases p.targets t m.workspace with
  | error e => rfl
  | ok targets =>
    cases targets with
    | nil => exact ⟨_, [], m, rfl, rfl, .inl ⟨rfl, rfl, rfl⟩⟩
    | cons target rest =>
      obtain ⟨found, m₁, resources, m', hfound, hrun, hlints⟩ :=
        p.runOn_lintTargets r t (target :: rest) m
      simp only [List.isEmpty_cons, Bool.false_eq_true, if_false, runOn_bind, hrun, runOn_pure]
      exact ⟨_, resources, m', rfl, rfl, .inr ⟨found, m₁, hfound, hlints⟩⟩

/-- What adding a section comes to. -/
theorem addSection_cases (h : (p.addSection r report t).runOn m = (.ok report', m')) :
    ∃ resources, report'.sections = report.sections ++ [⟨t, p.runs t, resources⟩] ∧
      (p.runs t = false ∧ resources = [] ∧ m' = m ∨
        p.runs t = true ∧ ∃ targets, p.targets t m.workspace = .ok targets ∧
          p.Lints r t m m' targets resources) := by
  cases hruns : p.runs t with
  | false =>
    rw [runOn_addSection_of_not_runs hruns] at h
    obtain ⟨hreport, rfl⟩ := Prod.mk.inj h
    exact ⟨[], by rw [← Except.ok.inj hreport], .inl ⟨rfl, rfl, rfl⟩⟩
  | true =>
    have hspec := runOn_addSection hruns r report m
    cases htargets : p.targets t m.workspace with
    | error e =>
      rw [htargets] at hspec
      rw [show _ = _ from hspec] at h
      cases h
    | ok targets =>
      rw [htargets] at hspec
      obtain ⟨report'', resources, m'', hrun, hsections, hlints⟩ := hspec
      rw [hrun] at h
      obtain ⟨hreport, rfl⟩ := Prod.mk.inj h
      rw [← Except.ok.inj hreport]
      exact ⟨resources, hsections, .inr ⟨rfl, targets, rfl, hlints⟩⟩

end Project
end Command
end ReleaseLint
