/-
# What an exit code of zero means

A run adds the sections of the linters one after the other (`exists_turn`), and ends with zero
only if every resource of every section passed (`exists_report_of_exit`).  So every target of
every linter that runs was given to its program, and the program had nothing against it.

| exit code of zero | |
| --- | --- |
| the lint block is switched off | nothing was linted |
| a linter does not run | its section is empty |
| a linter runs and has targets | it has a binary, and all of them passed |
-/

import ReleaseLint.Proofs.Lint.Section

namespace ReleaseLint

namespace Report

/-- A report is a success if every resource passed. -/
theorem isSuccess_iff {r : Report} :
    r.isSuccess = true ↔ ∀ s ∈ r.sections, ∀ x ∈ s.resources, x.success = true := by
  have hfailed : r.isSuccess = (r.resources.countP (!·.success) == 0) := rfl
  rw [hfailed, beq_iff_eq, List.countP_eq_zero]
  unfold resources
  simp only [List.mem_flatMap, Bool.not_eq_true', Bool.not_eq_false]
  exact ⟨fun h s hs x hx => h x ⟨s, hs, hx⟩, fun h x ⟨s, hs, hx⟩ => h s hs x hx⟩

end Report

namespace Command

open Session
open Tool (Resolver)

namespace Project

variable {p : Project} {r : Resolver} {t : Tool} {m m' : Machine} {report report' : Report}
  {tools before after : List Tool}

/-- A section goes behind the others, and calls go behind the others. -/
theorem addSection_prefix (h : (p.addSection r report t).runOn m = (.ok report', m')) :
    report.sections <+: report'.sections ∧ m.calls <+: m'.calls := by
  obtain ⟨resources, hsections, ⟨-, -, rfl⟩ | ⟨-, targets, -, hlints⟩⟩ := addSection_cases h
  · exact ⟨hsections ▸ List.prefix_append _ _, List.prefix_rfl⟩
  · exact ⟨hsections ▸ List.prefix_append _ _, hlints.calls_prefix⟩

/-- What each turn keeps holds behind the last one.  What is kept may speak of the linters that
still have their turn to come. -/
theorem foldlM_rest {motive : List Tool → Report → Machine → Prop}
    (hturn : ∀ t rest report next m m₁, motive (t :: rest) report m →
      (p.addSection r report t).runOn m = (.ok next, m₁) → motive rest next m₁)
    (hstart : motive tools report m)
    (h : (tools.foldlM (p.addSection r) report).runOn m = (.ok report', m')) :
    motive [] report' m' := by
  induction tools generalizing report m with
  | nil =>
    obtain ⟨hreport, rfl⟩ := Prod.mk.inj h
    exact Except.ok.inj hreport ▸ hstart
  | cons t tools ih =>
    rw [List.foldlM_cons, runOn_bind] at h
    rcases hstep : (p.addSection r report t).runOn m with ⟨e | next, m₁⟩
    · rw [hstep] at h
      cases h
    · rw [hstep] at h
      exact ih (hturn t tools report next m m₁ hstart hstep) h

theorem foldlM_prefix (h : (tools.foldlM (p.addSection r) report).runOn m = (.ok report', m')) :
    report.sections <+: report'.sections ∧ m.calls <+: m'.calls := by
  refine foldlM_rest
    (motive := fun _ next m₁ => report.sections <+: next.sections ∧ m.calls <+: m₁.calls)
    ?_ ⟨List.prefix_rfl, List.prefix_rfl⟩ h
  rintro t rest reached next m₁ m₂ ⟨hsections, hcalls⟩ hstep
  obtain ⟨hsections', hcalls'⟩ := addSection_prefix hstep
  exact ⟨hsections.trans hsections', hcalls.trans hcalls'⟩

/-- There is a section for each linter, in their order. -/
theorem tools_of_foldlM
    (h : (tools.foldlM (p.addSection r) report).runOn m = (.ok report', m')) :
    report'.sections.map (·.tool) = report.sections.map (·.tool) ++ tools := by
  have hrest := foldlM_rest (motive := fun rest next _ =>
    next.sections.map (·.tool) ++ rest = report.sections.map (·.tool) ++ tools) ?_ rfl h
  · rwa [List.append_nil] at hrest
  · intro t rest reached next m₁ m₂ hreached hstep
    obtain ⟨resources, hsections, -⟩ := addSection_cases hstep
    rw [hsections, List.map_append, List.append_assoc]
    exact hreached

/-- Each linter has its turn, behind those in front of it. -/
theorem exists_turn
    (h : ((before ++ t :: after).foldlM (p.addSection r) report).runOn m = (.ok report', m')) :
    ∃ reached mₜ next m₁, (before.foldlM (p.addSection r) report).runOn m = (.ok reached, mₜ) ∧
      (p.addSection r reached t).runOn mₜ = (.ok next, m₁) ∧
      next.sections <+: report'.sections ∧ m₁.calls <+: m'.calls := by
  rw [List.foldlM_append, runOn_bind] at h
  rcases hbefore : (before.foldlM (p.addSection r) report).runOn m with ⟨e | reached, mₜ⟩
  · rw [hbefore] at h
    cases h
  · rw [hbefore] at h
    simp only [List.foldlM_cons, runOn_bind] at h
    rcases hstep : (p.addSection r reached t).runOn mₜ with ⟨e | next, m₁⟩
    · rw [hstep] at h
      cases h
    · rw [hstep] at h
      exact ⟨reached, mₜ, next, m₁, rfl, hstep, foldlM_prefix h⟩

end Project

/-! ### The whole run -/

variable {o : Options} {r : Resolver} {mode : Mode} {color : Bool} {m m' : Machine}
  {rep : Report} {events : List Event}

/-- What is reported when a config applies. -/
def reportWith (o : Options) (r : Resolver) (c : Config) : Session Report := do
  let file := configFile o (← Session.workspace)
  let metadata : Report.Metadata := ⟨file.map (·.text), programVersion, []⟩
  if !c.lintSettings.isEnabled then
    return ⟨metadata, Tool.all.map fun t => ⟨t, false, []⟩, []⟩
  let p ← Session.inspect (Project.gather o c)
  let warnings ← Session.inspect p.pairingWarnings
  Tool.all.foldlM (p.addSection r) ⟨metadata, [], warnings⟩

theorem runOn_report {c : Config} (h : loadConfig o m.workspace = .ok c) :
    (report o r).runOn m = (reportWith o r c).runOn m := by
  have hsplit : report o r = Session.inspect (loadConfig o) >>= reportWith o r := rfl
  unfold Session.inspect at hsplit
  simp only [hsplit, runOn_bind, runOn_workspace, runOn_lift, h]

/-- A report is found by writing the config first. -/
theorem exists_report_such {test : Report → Bool}
    (h : Config.writesSuch m.workspace (o.config.getD o.project) (fun c =>
      ((reportWith o r c).runOn m).1.toOption.any test) = true) :
    ∃ rep m', (report o r).runOn m = (.ok rep, m') ∧ test rep = true := by
  obtain ⟨c, hc, hreport⟩ := Config.exists_resolve_such_iff.1 h
  obtain ⟨rep, hrep, htest⟩ := (Option.any_eq_true _ _).1 hreport
  refine ⟨rep, ((reportWith o r c).runOn m).2, ?_, htest⟩
  rw [runOn_report hc, ← toOption_eq_some_iff.1 hrep]

/-- A run adds a section for each linter to a report that names the config file. -/
theorem exists_runOn_reportWith {c : Config} {p : Project} {warnings : List String}
    (henabled : c.lintSettings.isEnabled = true) (hp : Project.gather o c m.workspace = .ok p)
    (hwarnings : p.pairingWarnings m.workspace = .ok warnings) :
    ∃ metadata, (reportWith o r c).runOn m =
      (Tool.all.foldlM (p.addSection r) ⟨metadata, [], warnings⟩).runOn m := by
  unfold reportWith Session.inspect
  simp only [henabled, Bool.not_true, Bool.false_eq_true, if_false, runOn_bind, runOn_workspace,
    runOn_lift, hp, hwarnings]
  exact ⟨_, rfl⟩

/-- What is reported when linting is switched off, and what otherwise. -/
theorem reportWith_cases {c : Config} (h : (reportWith o r c).runOn m = (.ok rep, m')) :
    (c.lintSettings.isEnabled = false ∧ m' = m ∧
        rep.sections = Tool.all.map fun t => ⟨t, false, []⟩) ∨
      c.lintSettings.isEnabled = true ∧ ∃ p metadata warnings,
        Project.gather o c m.workspace = .ok p ∧
        (Tool.all.foldlM (p.addSection r) ⟨metadata, [], warnings⟩).runOn m = (.ok rep, m') := by
  unfold reportWith Session.inspect at h
  cases henabled : c.lintSettings.isEnabled with
  | false =>
    simp only [henabled, Bool.not_false, if_true, runOn_bind, runOn_workspace, runOn_pure] at h
    obtain ⟨hrep, rfl⟩ := Prod.mk.inj h
    exact .inl ⟨rfl, rfl, by rw [← Except.ok.inj hrep]⟩
  | true =>
    simp only [henabled, Bool.not_true, Bool.false_eq_true, if_false, runOn_bind, runOn_workspace,
      runOn_lift] at h
    cases hp : Project.gather o c m.workspace with
    | error e =>
      rw [hp] at h
      cases h
    | ok p =>
      rw [hp] at h
      simp only at h
      cases hwarnings : p.pairingWarnings m.workspace with
      | error e =>
        rw [hwarnings] at h
        cases h
      | ok warnings =>
        rw [hwarnings] at h
        exact .inr ⟨rfl, p, _, warnings, rfl, h⟩

/-- A report comes from the config that applies and, unless linting is switched off, from the
sections of all linters. -/
theorem exists_sections_of_report (h : (report o r).runOn m = (.ok rep, m')) :
    ∃ c, loadConfig o m.workspace = .ok c ∧
      (c.lintSettings.isEnabled = true → ∃ p metadata warnings,
        Project.gather o c m.workspace = .ok p ∧
        (Tool.all.foldlM (p.addSection r) ⟨metadata, [], warnings⟩).runOn m = (.ok rep, m')) := by
  cases hc : loadConfig o m.workspace with
  | error e =>
    unfold report Session.inspect at h
    simp only [runOn_bind, runOn_workspace, runOn_lift, hc] at h
    cases h
  | ok c =>
    rw [runOn_report hc] at h
    refine ⟨c, rfl, fun henabled => ?_⟩
    rcases reportWith_cases h with ⟨hdisabled, -⟩ | ⟨-, hsections⟩
    · rw [henabled] at hdisabled
      cases hdisabled
    · exact hsections

/-- The exit code of a run that comes to a report. -/
theorem runOn_lint (mode : Mode) (color : Bool) (h : (report o r).runOn m = (.ok rep, m')) :
    (lint o r mode color).runOn m =
      (.ok (Command.events o.format mode color rep, if rep.isSuccess then 0 else 1), m') := by
  unfold lint
  simp only [runOn_bind, runOn_attempt, h, runOn_pure]

theorem runOn_lint_of_isSuccess (mode : Mode) (color : Bool)
    (h : (report o r).runOn m = (.ok rep, m')) (hsuccess : rep.isSuccess = true) :
    (lint o r mode color).runOn m =
      (.ok (Command.events o.format mode color rep, 0), m') := by
  rw [runOn_lint mode color h, if_pos hsuccess]

theorem exists_report_of_exit (h : (lint o r mode color).runOn m = (.ok (events, 0), m')) :
    ∃ rep, (report o r).runOn m = (.ok rep, m') ∧ rep.isSuccess = true := by
  unfold lint at h
  simp only [runOn_bind, runOn_attempt] at h
  rcases hreport : (report o r).runOn m with ⟨e | rep, m₁⟩
  · rw [hreport] at h
    cases e <;> cases h
  · rw [hreport] at h
    simp only [runOn_pure] at h
    obtain ⟨houtcome, rfl⟩ := Prod.mk.inj h
    refine ⟨rep, rfl, ?_⟩
    by_contra hfailed
    have hcode := congrArg Prod.snd (Except.ok.inj houtcome)
    rw [if_neg hfailed] at hcode
    cases hcode

/-- **Every target is accounted for.**

The section of a linter that runs has one resource for each of its targets, in their order and under
their displayed paths, and a resource that is reported as passed was linted.  What is reported of
a target depends on the binary, the tree and its own program, and not on what other targets
come to.  So a run that ends with zero has linted every target of every linter that runs. -/
theorem targets_are_accounted_for :
    (∀ (p : Project) (t : Tool) (r : Resolver) (report : Report) (m : Machine), p.runs t = true →
      match p.targets t m.workspace with
      | .error e => (p.addSection r report t).runOn m = (.error e, m)
      | .ok targets => ∃ report' resources m',
          (p.addSection r report t).runOn m = (.ok report', m') ∧
          report'.sections = report.sections ++ [⟨t, true, resources⟩] ∧
          resources.map (·.path) = targets.map p.displayed ∧
          (targets ≠ [] → ∃ found m₁, (p.lookFor r t targets).runOn m = (.ok found, m₁) ∧
            m₁.Calls m' ∧ p.Reports found.binary m₁ m' targets resources ∧
            List.Forall₂ (fun target x => x.success = true →
              ∃ binary, found.binary = .ok binary ∧ p.Passes binary m₁ m' target x)
              targets resources)) ∧
    (∀ (p : Project) (t : Tool) (r r' : Resolver) (m m₁ m' n n₁ n' : Machine)
      (targets targets' : List Target) (found found' : Project.Found)
      (resources resources' : List Report.Resource) (i j : Nat) (target : Target),
      (p.lookFor r t targets).runOn m = (.ok found, m₁) →
      (p.lookFor r' t targets').runOn n = (.ok found', n₁) →
      (p.lintTargets r t targets).runOn m = (.ok (found, resources), m') →
      (p.lintTargets r' t targets').runOn n = (.ok (found', resources'), n') →
      found'.binary = found.binary → n₁.workspace = m₁.workspace →
      targets[i]? = some target → targets'[j]? = some target →
      (∀ binary, found.binary = .ok binary → ∀ number number',
        m₁.world.answer number m₁.workspace binary (p.call binary target).arguments =
          n₁.world.answer number' n₁.workspace binary (p.call binary target).arguments) →
      resources[i]? = resources'[j]?) ∧
    (∀ (o : Options) (r : Resolver) (mode : Mode) (color : Bool) (m m' : Machine)
      (events : List Event), (lint o r mode color).runOn m = (.ok (events, 0), m') →
      ∃ rep c, (report o r).runOn m = (.ok rep, m') ∧ loadConfig o m.workspace = .ok c ∧
        (c.lintSettings.isEnabled = true → ∃ p start, Project.gather o c m.workspace = .ok p ∧
          (Tool.all.foldlM (p.addSection r) start).runOn m = (.ok rep, m') ∧
          ∀ before t after, Tool.all = before ++ t :: after → p.runs t = true →
            ∃ reached mₜ targets resources,
            (before.foldlM (p.addSection r) start).runOn m = (.ok reached, mₜ) ∧
            p.targets t mₜ.workspace = .ok targets ∧ ⟨t, true, resources⟩ ∈ rep.sections ∧
            (targets ≠ [] → ∃ found m₁ binary, (p.lookFor r t targets).runOn mₜ = (.ok found, m₁) ∧
              found.binary = .ok binary ∧
              List.Forall₂ (p.Passes binary m₁ m') targets resources))) := by
  refine ⟨?_, ?_, ?_⟩
  · intro p t r report m hruns
    have hspec := Project.runOn_addSection hruns r report m
    cases htargets : p.targets t m.workspace with
    | error e =>
      rw [htargets] at hspec
      exact hspec
    | ok targets =>
      rw [htargets] at hspec
      obtain ⟨report', resources, m', hrun, hsections, hlints⟩ := hspec
      refine ⟨report', resources, m', hrun, hsections, hlints.map_path, fun hne => ?_⟩
      obtain ⟨found, m₁, hfound, -, hcalls, hreports⟩ := hlints.resolve_left fun h => hne h.1
      exact ⟨found, m₁, hfound, hcalls, hreports, hreports.passes⟩
  · intro p t r r' m m₁ m' n n₁ n' targets targets' found found' resources resources' i j target
      hfound hfound' hrun hrun' hbinary hworkspace hi hj hanswers
    have hreports := Project.reports_of_lintTargets hfound hrun
    have hreports' := Project.reports_of_lintTargets hfound' hrun'
    rw [hbinary] at hreports'
    exact hreports.eq_of_answers hreports' hi hj hworkspace hanswers
  · intro o r mode color m m' events hlint
    obtain ⟨rep, hreport, hsuccess⟩ := exists_report_of_exit hlint
    obtain ⟨c, hc, hsections⟩ := exists_sections_of_report hreport
    refine ⟨rep, c, hreport, hc, fun henabled => ?_⟩
    obtain ⟨p, metadata, warnings, hp, hfold⟩ := hsections henabled
    refine ⟨p, _, hp, hfold, fun before t after htools hruns => ?_⟩
    rw [htools] at hfold
    obtain ⟨reached, mₜ, next, m₂, hbefore, hstep, hprefix, hcalls⟩ := Project.exists_turn hfold
    have hspec := Project.runOn_addSection hruns r reached mₜ
    cases htargets : p.targets t mₜ.workspace with
    | error e =>
      rw [htargets] at hspec
      rw [show _ = _ from hspec] at hstep
      cases hstep
    | ok targets =>
      rw [htargets] at hspec
      obtain ⟨report', resources, m₂', hrun, hnext, hlints⟩ := hspec
      obtain ⟨hreport', rfl⟩ := Prod.mk.inj (hrun.symm.trans hstep)
      obtain rfl := Except.ok.inj hreport'
      have hmem : ⟨t, true, resources⟩ ∈ rep.sections :=
        hprefix.subset (hnext ▸ List.mem_append_right _ List.mem_cons_self)
      refine ⟨reached, mₜ, targets, resources, hbefore, htargets, hmem, fun hne => ?_⟩
      obtain ⟨found, m₁, hfound, -, -, hreports⟩ := hlints.resolve_left fun h => hne h.1
      obtain ⟨binary, hbinary, hpasses⟩ :=
        hreports.exists_binary (Report.isSuccess_iff.1 hsuccess _ hmem) hne
      exact ⟨found, m₁, binary, hfound, hbinary,
        hpasses.imp fun _ _ h => h.mono (.refl m₁) hcalls⟩

/-- A project with two charts, and a file that can be started. -/
def chartsTree : Workspace where
  tree := ⟨[(["l"], .file .empty true), (["p"], .directory),
    (["p", ".replicated"], .file "charts:\n- path: ./a\n- path: ./b\n".toUTF8 false),
    (["p", "a"], .directory), (["p", "a", "Chart.yaml"], .file .empty false),
    (["p", "b"], .directory), (["p", "b", "Chart.yaml"], .file .empty false)]⟩
  directory := ⟨"/p"⟩

/-- What is asked of the command in this tree. -/
def chartsOptions : Options :=
  ⟨⟨"/p"⟩, none, .human, false⟩

/-- The two charts of this tree. -/
def chartsProject : Project :=
  ⟨chartsOptions, .unset, none, [⟨"/p/a"⟩, ⟨"/p/b"⟩], .empty⟩

/-- A resolver with a local binary for all tools, and no servers. -/
def localResolver : Resolver :=
  ⟨⟨"/c"⟩, fun _ => some ⟨"/l"⟩, "http://h/ping", .single "http://h", ⟨"linux", "amd64"⟩⟩

/-- A world in which programs say nothing, and fail on one target. -/
def failingOn (path : String) : World where
  reply _ _ := .unreachable
  run _ _ arguments := .ok ⟨.empty, .empty, arguments.getLast?.bind Argument.text? != some path⟩

/-- Two charts are reported, also if one of them fails, and this one alone; and if both of them
pass, both have been linted. -/
theorem both_charts_are_accounted_for :
    (∃ report' resources m', (chartsProject.addSection localResolver ⟨⟨none, "", []⟩, [], []⟩
        .helm).runOn (.fresh (failingOn "/p/a") chartsTree) = (.ok report', m') ∧
      report'.sections = [⟨.helm, true, resources⟩] ∧ resources.map (·.path) = ["./a", "./b"]) ∧
    (∃ found resources m' resources' n',
      (chartsProject.lintTargets localResolver .helm [.chart ⟨"/p/a"⟩, .chart ⟨"/p/b"⟩]).runOn
        (.fresh (failingOn "/p/a") chartsTree) = (.ok (found, resources), m') ∧
      (chartsProject.lintTargets localResolver .helm [.chart ⟨"/p/b"⟩]).runOn
        (.fresh (failingOn "") chartsTree) = (.ok (found, resources'), n') ∧
      resources[1]? = resources'[0]?) ∧
    ∃ events m', (lint chartsOptions localResolver .quiet false).runOn
        (.fresh (failingOn "") chartsTree) = (.ok (events, 0), m') ∧
      ∃ rep c, (report chartsOptions localResolver).runOn (.fresh (failingOn "") chartsTree) =
          (.ok rep, m') ∧ loadConfig chartsOptions chartsTree = .ok c ∧
        ∃ p, Project.gather chartsOptions c chartsTree = .ok p ∧ p.runs .helm = true ∧
          p.charts = [⟨"/p/a"⟩, ⟨"/p/b"⟩] ∧ ∃ resources m₁ binary,
            ⟨.helm, true, resources⟩ ∈ rep.sections ∧
            List.Forall₂ (p.Passes binary m₁ m') [.chart ⟨"/p/a"⟩, .chart ⟨"/p/b"⟩] resources := by
  have hruns : chartsProject.runs .helm = true := rfl
  have hlookFor (targets : List Target) (path : String) :
      (chartsProject.lookFor localResolver .helm targets).runOn
        (.fresh (failingOn path) chartsTree) =
          (.ok ⟨.ok ⟨"/l"⟩, some "local", []⟩, .fresh (failingOn path) chartsTree) := rfl
  refine ⟨?_, ?_, ?_⟩
  · obtain ⟨report', resources, m', hrun, hsections, hpaths, -⟩ := targets_are_accounted_for.1
      chartsProject .helm localResolver ⟨⟨none, "", []⟩, [], []⟩
      (.fresh (failingOn "/p/a") chartsTree) hruns
    exact ⟨report', resources, m', hrun, hsections, hpaths.trans (by decide)⟩
  · obtain ⟨found, m₁, resources, m', hfound, hrun, -⟩ := chartsProject.runOn_lintTargets
      localResolver .helm [.chart ⟨"/p/a"⟩, .chart ⟨"/p/b"⟩] (.fresh (failingOn "/p/a") chartsTree)
    obtain ⟨found', n₁, resources', n', hfound', hrun', -⟩ := chartsProject.runOn_lintTargets
      localResolver .helm [.chart ⟨"/p/b"⟩] (.fresh (failingOn "") chartsTree)
    rw [hlookFor] at hfound hfound'
    obtain ⟨rfl, rfl⟩ := Prod.mk.inj hfound |>.imp_left Except.ok.inj
    obtain ⟨rfl, rfl⟩ := Prod.mk.inj hfound' |>.imp_left Except.ok.inj
    refine ⟨_, resources, m', resources', n', hrun, hrun', ?_⟩
    refine targets_are_accounted_for.2.1 chartsProject .helm localResolver localResolver _ _ _ _ _ _
      _ _ _ _ resources resources' 1 0 (.chart ⟨"/p/b"⟩) (hlookFor _ _) (hlookFor _ _) hrun hrun'
      rfl rfl rfl rfl ?_
    rintro binary hbinary number number'
    obtain rfl := Except.ok.inj hbinary
    rfl
  · obtain ⟨c, hc, hreport⟩ := Config.exists_resolve_such_iff.1
      (show Config.writesSuch chartsTree ⟨"/p"⟩ (fun c => c.lintSettings.isEnabled &&
        (Project.gather chartsOptions c chartsTree).toOption.any (fun p => p.runs .helm &&
          p.charts == [⟨"/p/a"⟩, ⟨"/p/b"⟩]) &&
        ((reportWith chartsOptions localResolver c).runOn
          (.fresh (failingOn "") chartsTree)).1.toOption.any (·.isSuccess)) = true by decide +kernel)
    simp only [Bool.and_eq_true, Option.any_eq_true, beq_iff_eq] at hreport
    obtain ⟨⟨henabled, p, hp, hhelm, hcharts⟩, rep, hrep, hsuccess⟩ := hreport
    have hrun := runOn_report (o := chartsOptions) (r := localResolver)
      (m := .fresh (failingOn "") chartsTree) hc
    rcases hresult : (reportWith chartsOptions localResolver c).runOn
      (.fresh (failingOn "") chartsTree) with ⟨result, m'⟩
    rw [hresult] at hrep hrun
    obtain rfl := toOption_eq_some_iff.1 hrep
    have hlint := runOn_lint_of_isSuccess .quiet false hrun hsuccess
    refine ⟨_, m', hlint, rep, c, hrun, hc, p, toOption_eq_some_iff.1 hp, hhelm, hcharts, ?_⟩
    obtain ⟨rep', c', hrun', hc', hlinted⟩ := targets_are_accounted_for.2.2 _ _ _ _ _ _ _ hlint
    obtain rfl := Except.ok.inj (hc.symm.trans hc')
    obtain rfl := Except.ok.inj (Prod.mk.inj (hrun.symm.trans hrun')).1
    obtain ⟨p', start, hp', -, htargets⟩ := hlinted henabled
    obtain rfl := Except.ok.inj ((toOption_eq_some_iff.1 hp).symm.trans hp')
    obtain ⟨reached, mₜ, targets, resources, -, hcharts', hmem, hpassed⟩ :=
      htargets [] .helm _ rfl hhelm
    obtain rfl : p.charts.map .chart = targets := Except.ok.inj hcharts'
    rw [hcharts] at hpassed
    obtain ⟨found, m₁, binary, -, -, hpasses⟩ := hpassed (List.cons_ne_nil _ _)
    exact ⟨resources, m₁, binary, hmem, hpasses⟩

/-- A tree with two embedded cluster configs, the second of which declares a version. -/
def clustersTree (spec : String) : Workspace where
  tree := ⟨[(["l"], .file .empty true), (["p"], .directory),
    (["p", "a.yaml"], .file ("apiVersion: embeddedcluster.replicated.com/v1beta1\n" ++
      "kind: Config\nspec:\n  " ++ spec ++ "\n").toUTF8 false),
    (["p", "b.yaml"], .file ("apiVersion: embeddedcluster.replicated.com/v1beta1\n" ++
      "kind: Config\nspec:\n  version: 1.0.0\n").toUTF8 false)]⟩
  directory := ⟨"/p"⟩

/-- The project of these two configs. -/
def clustersProject : Project where
  options := ⟨⟨"/p"⟩, none, .human, false⟩
  config := { Config.unset with
    manifests := ["/p/a.yaml", "/p/b.yaml"]
    lint := some { Config.Lint.unset with switches _ := ⟨some false, none⟩ } }
  checker := none
  charts := []
  manifests := .empty

/-- A world in which programs have nothing to say against a config. -/
def approving : World where
  reply _ _ := .unreachable
  run _ _ _ := .ok ⟨"\x7b\"files\":[]\x7d".toUTF8, .empty, true⟩

/-- A config that declares no version changes what is reported of the other one. -/
theorem cluster_config_changed_by_other :
    let sections (spec : String) := ((clustersProject.addSection localResolver
      ⟨⟨none, "", []⟩, [], []⟩ .embeddedCluster).runOn
        (.fresh approving (clustersTree spec))).1.toOption.map (·.sections)
    let passed (path : String) : Report.Resource := ⟨path, true, [], .zero⟩
    let failed (path : String) : Report.Resource :=
      .ofError path (.discovery "/p/a.yaml" .noVersion)
    sections "version: 1.0.0" =
        some [⟨.embeddedCluster, true, [passed "./a.yaml", passed "./b.yaml"]⟩] ∧
      sections "domains: \x7b\x7d" =
        some [⟨.embeddedCluster, true, [failed "./a.yaml", failed "./b.yaml"]⟩] := by
  decide +kernel

end Command
end ReleaseLint
