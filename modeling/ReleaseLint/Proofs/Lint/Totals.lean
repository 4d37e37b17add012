/-
# Totals, and what they are the totals of

A resource of a report comes from a target that was linted, or from an error in its place
(`Project.Makes`).  Either way its tally counts its own findings (`Resource.IsMade.tally_eq`), so
that the totals, which add up tallies, count findings as well.

| total | adds up |
| --- | --- |
| resources | the lengths of the sections |
| passed, failed | what passed and failed in the sections, and together the resources |
| errors, warnings, infos | the findings of this severity in all resources |

A run ends with zero precisely if nothing is counted as failed.
-/

import ReleaseLint.Proofs.Lint.Alike
import ReleaseLint.Proofs.Lint.Exit
import Mathlib

namespace ReleaseLint

namespace Tally

/-- The tally of two lists behind each other. -/
theorem ofFindings_append (a b : List Finding) :
    ofFindings (a ++ b) = ofFindings a + ofFindings b := by
  unfold ofFindings count
  rw [List.countP_append, List.countP_append, List.countP_append]
  rfl

end Tally

namespace Report

/-- Whether a resource is the report on an outcome or on an error. -/
def Resource.IsMade (x : Resource) : Prop :=
  (∃ path outcome strict, x = .ofOutcome path outcome strict) ∨ ∃ path e, x = .ofError path e

/-- The tally of a resource counts its findings. -/
theorem Resource.IsMade.tally_eq {x : Resource} (h : x.IsMade) :
    x.tally = Tally.ofFindings x.findings := by
  obtain ⟨path, outcome, strict, rfl⟩ | ⟨path, e, rfl⟩ := h
  · rfl
  · rfl

/-- Whether all resources are reports on outcomes and errors. -/
def IsMade (r : Report) : Prop :=
  ∀ s ∈ r.sections, ∀ x ∈ s.resources, x.IsMade

/-- The findings of all resources. -/
def findings (r : Report) : List Finding :=
  r.resources.flatMap (·.findings)

/-- Whether the totals of a report are those of its sections and of its findings. -/
structure AddsUp (r : Report) : Prop where
  resources : r.summary.resources = (r.sections.map fun s => s.resources.length).sum
  split : r.summary.passed + r.summary.failed = r.summary.resources
  passed : r.summary.passed = (r.sections.map Section.passed).sum
  failed : r.summary.failed = (r.sections.map Section.failed).sum
  errors : r.summary.tally.errors = Tally.count .error r.findings
  warnings : r.summary.tally.warnings = Tally.count .warning r.findings
  infos : r.summary.tally.infos = Tally.count .info r.findings
  success : r.summary.success = true ↔ ∀ s ∈ r.sections, ∀ x ∈ s.resources, x.success = true

variable {r : Report} {s : Section} {x : Resource}

theorem mem_resources : x ∈ r.resources ↔ ∃ s ∈ r.sections, x ∈ s.resources :=
  List.mem_flatMap

/-- A resource has passed or failed. -/
theorem length_eq_passed_add_failed (l : List Resource) :
    l.length = l.countP (·.success) + l.countP (!·.success) := by
  rw [List.length_eq_countP_add_countP (·.success)]
  simp only [Bool.not_eq_true, Bool.decide_eq_false]

theorem Section.failed_eq (s : Section) : s.failed = s.resources.countP (!·.success) := by
  have hsplit := length_eq_passed_add_failed s.resources
  unfold failed passed
  omega

/-- **The tallies of resources add up to the tally of their findings.** -/
theorem foldl_tally {l : List Resource} (h : ∀ x ∈ l, x.IsMade) (front : List Finding) :
    l.foldl (fun t x => t + x.tally) (Tally.ofFindings front) =
      Tally.ofFindings (front ++ l.flatMap (·.findings)) := by
  induction l generalizing front with
  | nil => rw [List.flatMap_nil, List.append_nil, List.foldl_nil]
  | cons x l ih =>
    obtain ⟨hx, hl⟩ := List.forall_mem_cons.1 h
    rw [List.foldl_cons, hx.tally_eq, ← Tally.ofFindings_append, ih hl, List.append_assoc,
      List.flatMap_cons]

theorem IsMade.tally_eq (h : r.IsMade) : r.summary.tally = Tally.ofFindings r.findings := by
  refine foldl_tally (fun x hx => ?_) []
  obtain ⟨s, hs, hx⟩ := mem_resources.1 hx
  exact h s hs x hx

theorem IsMade.addsUp (h : r.IsMade) : r.AddsUp where
  resources := List.length_flatMap
  split := (length_eq_passed_add_failed r.resources).symm
  passed := List.countP_flatMap
  failed := by
    rw [funext Section.failed_eq]
    exact List.countP_flatMap
  errors := congrArg Tally.errors h.tally_eq
  warnings := congrArg Tally.warnings h.tally_eq
  infos := congrArg Tally.infos h.tally_eq
  success := isSuccess_iff

end Report

namespace Command

open Session
open Tool (Resolver)

namespace Project

variable {p : Project} {r : Resolver} {t : Tool} {m m' : Machine} {report report' : Report}
  {tools : List Tool} {x : Report.Resource}

/-- How a resource has come into the section of a tool, by the time of a machine. -/
inductive Makes (p : Project) (m : Machine) (t : Tool) : Report.Resource → Prop
  | linted {binary : Path} {m₁ m₂ : Machine} {target : Target} {x : Report.Resource} :
      m₁.world = m.world → m₂.calls <+: m.calls → target.tool = t →
      p.Judged binary m₁ m₂ target x → p.Makes m t x
  | failed (path : String) (e : Error) : p.Makes m t (.ofError path e)

theorem Makes.mono (h : p.Makes m t x) (hworld : m'.world = m.world)
    (hcalls : m.calls <+: m'.calls) : p.Makes m' t x := by
  cases h with
  | linted hworld₁ hcalls₂ htool hjudged =>
    exact .linted (hworld₁.trans hworld.symm) (hcalls₂.trans hcalls) htool hjudged
  | failed path e => exact .failed path e

theorem isMade_resource {binary : Path} {w : Workspace} {target : Target}
    {answer : Except SystemFault Exit} : (p.resource binary w target answer).IsMade := by
  unfold resource
  split
  · exact .inl ⟨_, _, _, rfl⟩
  · exact .inr ⟨_, _, rfl⟩

theorem Makes.isMade (h : p.Makes m t x) : x.IsMade := by
  cases h with
  | linted _ _ _ hjudged =>
    obtain ⟨number, -, rfl⟩ := hjudged.resource
    exact isMade_resource
  | failed path e => exact .inr ⟨path, e, rfl⟩

/-- Whether all resources of a report come from targets or from errors. -/
def MakesAll (p : Project) (m : Machine) (report : Report) : Prop :=
  ∀ s ∈ report.sections, ∀ x ∈ s.resources, p.Makes m s.tool x

theorem Reports.makes {binary : Except Error Path} {targets : List Target}
    {resources : List Report.Resource} (h : p.Reports binary m m' targets resources)
    (hworld : m'.world = m.world) (htool : ∀ target ∈ targets, target.tool = t)
    (hx : x ∈ resources) : p.Makes m' t x := by
  cases binary with
  | error e =>
    rw [show resources = _ from h] at hx
    obtain ⟨target, -, rfl⟩ := List.mem_map.1 hx
    exact .failed _ e
  | ok binary =>
    have hjudged : List.Forall₂ (p.Judged binary m m') targets resources := h
    clear h
    induction hjudged with
    | nil => cases hx
    | cons hjudged _ ih =>
      rw [List.forall_mem_cons] at htool
      rcases List.mem_cons.1 hx with rfl | hx
      · exact .linted hworld.symm List.prefix_rfl htool.1 hjudged
      · exact ih htool.2 hx

/-- A linter starts programs in one world, and makes its resources of what they come to. -/
theorem Lints.makes {targets : List Target} {resources : List Report.Resource}
    (h : p.Lints r t m m' targets resources) (htargets : p.targets t m.workspace = .ok targets) :
    m'.world = m.world ∧ m.calls <+: m'.calls ∧ ∀ x ∈ resources, p.Makes m' t x := by
  rcases h with ⟨-, rfl, rfl⟩ | ⟨found, m₁, -, hidles, hcalls, hreports⟩
  · exact ⟨rfl, List.prefix_rfl, fun x hx => absurd hx List.not_mem_nil⟩
  · refine ⟨hcalls.world_eq.trans hidles.world, hidles.calls ▸ hcalls.calls, fun x hx => ?_⟩
    exact hreports.makes hcalls.world_eq (fun target => tool_of_mem_targets htargets) hx

/-- A section is made of what its targets come to, and leaves the others alone. -/
theorem makesAll_of_addSection (hreport : p.MakesAll m report)
    (h : (p.addSection r report t).runOn m = (.ok report', m')) :
    m'.world = m.world ∧ p.MakesAll m' report' := by
  obtain ⟨resources, hsections, hturn⟩ := addSection_cases h
  obtain ⟨hworld, hcalls, hmakes⟩ :
      m'.world = m.world ∧ m.calls <+: m'.calls ∧ ∀ x ∈ resources, p.Makes m' t x := by
    rcases hturn with ⟨-, rfl, rfl⟩ | ⟨-, targets, htargets, hlints⟩
    · exact ⟨rfl, List.prefix_rfl, fun x hx => absurd hx List.not_mem_nil⟩
    · exact hlints.makes htargets
  refine ⟨hworld, fun s hs => ?_⟩
  rw [hsections] at hs
  rcases List.mem_append.1 hs with hs | hs
  · exact fun x hx => (hreport s hs x hx).mono hworld hcalls
  · obtain rfl := List.mem_singleton.1 hs
    exact hmakes

/-- **Whatever linters have their turn,** all resources come from targets or from errors. -/
theorem makesAll_of_foldlM (hreport : p.MakesAll m report)
    (h : (tools.foldlM (p.addSection r) report).runOn m = (.ok report', m')) :
    m'.world = m.world ∧ p.MakesAll m' report' := by
  refine foldlM_rest (motive := fun _ next m₁ => m₁.world = m.world ∧ p.MakesAll m₁ next) ?_
    ⟨rfl, hreport⟩ h
  rintro t rest reached next m₁ m₂ ⟨hworld, hreached⟩ hturn
  obtain ⟨hworld', hnext⟩ := makesAll_of_addSection hreached hturn
  exact ⟨hworld'.trans hworld, hnext⟩

end Project

variable {o : Options} {r : Resolver} {m m' : Machine} {rep : Report}

/-- **A report is made for a project,** and of what became of its targets. -/
theorem exists_makesAll_of_report (h : (report o r).runOn m = (.ok rep, m')) :
    ∃ p : Project, p.options = o ∧ m'.world = m.world ∧ p.MakesAll m' rep := by
  obtain ⟨c, hc, -⟩ := exists_sections_of_report h
  rw [runOn_report hc] at h
  rcases reportWith_cases h with ⟨-, rfl, hsections⟩ | ⟨-, p, metadata, warnings, hp, hsections⟩
  · -- nothing was linted, so that any project will do
    refine ⟨⟨o, c, none, [], .empty⟩, rfl, rfl, fun s hs x hx => ?_⟩
    rw [hsections] at hs
    obtain ⟨t, -, rfl⟩ := List.mem_map.1 hs
    cases hx
  · have hstart : p.MakesAll m ⟨metadata, [], warnings⟩ := fun s hs => absurd hs List.not_mem_nil
    exact ⟨p, (Project.gather_eq_ok hp).1, Project.makesAll_of_foldlM hstart hsections⟩

theorem isMade_of_report (h : (report o r).runOn m = (.ok rep, m')) : rep.IsMade := by
  obtain ⟨p, -, -, hmakes⟩ := exists_makesAll_of_report h
  exact fun s hs x hx => (hmakes s hs x hx).isMade

/-- **The totals add up, and the exit code follows them.**  In every report whose resources are
reports on outcomes and errors, resources are counted section by section, each of them as passed
or as failed, and findings by their severity; the report is a success if no resource failed.
Whatever report a run comes to is such a report, and the run ends with zero precisely if it is a
success. -/
theorem totals_add_up :
    (∀ rep : Report, rep.IsMade → rep.AddsUp) ∧
    ∀ (o : Options) (r : Resolver) (mode : Mode) (color : Bool) (m m' : Machine) (rep : Report),
      (report o r).runOn m = (.ok rep, m') → rep.IsMade ∧
        ∃ code, (lint o r mode color).runOn m = (.ok (events o.format mode color rep, code), m') ∧
          (code = 0 ↔ rep.summary.success = true) := by
  refine ⟨fun rep h => h.addsUp, fun o r mode color m m' rep h => ?_⟩
  refine ⟨isMade_of_report h, _, runOn_lint mode color h, ?_⟩
  unfold Report.isSuccess
  split
  · exact iff_of_true rfl ‹_›
  · exact iff_of_false Nat.one_ne_zero ‹_›

/-- A report with two sections, and a resource in it that could not be linted. -/
def mixedReport : Report where
  metadata := ⟨none, programVersion, []⟩
  sections :=
    [⟨.helm, true, [.ofOutcome "./a" ⟨true, [⟨.warning, "", "m"⟩, ⟨.info, "", "m"⟩]⟩ false,
        .ofError "./b" (.discovery "./b" .notADirectory)]⟩,
      ⟨.kots, true, [.ofOutcome "./k" ⟨true, [⟨.warning, "k.yaml", "m"⟩]⟩ true]⟩]
  warnings := []

/-- Totals of this report, and of a run on two charts, one of which fails. -/
theorem totals_of_samples :
    (mixedReport.AddsUp ∧ mixedReport.summary = ⟨3, 1, 2, ⟨1, 2, 1⟩, false⟩) ∧
    ∃ rep m', (report chartsOptions localResolver).runOn (.fresh (failingOn "/p/a") chartsTree) =
        (.ok rep, m') ∧ rep.summary.passed = 1 ∧ rep.summary.failed = 1 ∧ rep.AddsUp ∧
      ∃ code, (lint chartsOptions localResolver .quiet false).runOn
          (.fresh (failingOn "/p/a") chartsTree) =
            (.ok (events .human .quiet false rep, code), m') ∧ code ≠ 0 := by
  refine ⟨⟨totals_add_up.1 mixedReport ?_, by decide +kernel⟩, ?_⟩
  · unfold Report.IsMade mixedReport
    simp only [List.forall_mem_cons, List.not_mem_nil, false_implies, implies_true, and_true]
    exact ⟨⟨.inl ⟨_, _, _, rfl⟩, .inr ⟨_, _, rfl⟩⟩, .inl ⟨_, _, _, rfl⟩⟩
  · obtain ⟨rep, m', hrun, htest⟩ := exists_report_such (o := chartsOptions) (r := localResolver)
      (m := .fresh (failingOn "/p/a") chartsTree)
      (show Config.writesSuch chartsTree ⟨"/p"⟩ (fun c =>
        ((reportWith chartsOptions localResolver c).runOn
          (.fresh (failingOn "/p/a") chartsTree)).1.toOption.any fun rep =>
            rep.summary.passed == 1 && rep.summary.failed == 1) = true by decide +kernel)
    simp only [Bool.and_eq_true, beq_iff_eq] at htest
    obtain ⟨hpassed, hfailed⟩ := htest
    obtain ⟨hmade, code, hlint, hcode⟩ :=
      totals_add_up.2 chartsOptions localResolver .quiet false _ m' rep hrun
    refine ⟨rep, m', hrun, hpassed, hfailed, totals_add_up.1 rep hmade, code, hlint,
      fun hzero => ?_⟩
    have hsuccess : (rep.summary.failed == 0) = true := hcode.1 hzero
    rw [hfailed] at hsuccess
    cases hsuccess

end Command
end ReleaseLint
