/-
# What strict linting lets pass

Whether a program has failed is said by its exit status, not by what it prints.  Strict linting
fails a resource for its warnings besides, and for nothing else:

| exit status | findings | passes | passes under strict linting |
| --- | --- | --- | --- |
| zero | none, or information only | yes | yes |
| zero | a warning among them | yes | no |
| zero | an error, but no warning | yes | yes |
| another one | any | no | no |

So a strict run that is a success has no warnings at all, and errors only from programs that
exited with zero although they reported them.
-/

import ReleaseLint.Proofs.Lint.Totals

namespace ReleaseLint
namespace Command

open Tool (Resolver)

/-- Whether a program has exited with zero for a resource: it was started on the path that is
displayed, and the findings are what it printed. -/
def IsVouched (project : Path) (world : World) (calls : List Call) (t : Tool)
    (x : Report.Resource) : Prop :=
  ∃ number data call exit path, calls[number]? = some call ∧
    call.arguments.getLast? = some (.text path.text) ∧ x.path = displayPath project path ∧
    world.run number data call.arguments = .ok exit ∧ exit.success = true ∧
    Finding.ofOutput t (Linter.printed exit) = .ok x.findings

namespace Project

variable {p : Project} {m : Machine} {t : Tool} {x : Report.Resource}

/-- **What passes is vouched for,** and holds no warning under strict linting. -/
theorem Makes.vouched (h : p.Makes m t x) (hsuccess : x.success = true) :
    IsVouched p.options.project m.world m.calls t x ∧
      (p.options.strict = true → ∀ f ∈ x.findings, f.severity ≠ .warning) := by
  cases h with
  | failed path e => cases hsuccess
  | linted hworld hcalls htool hjudged =>
    obtain ⟨number, data, exit, findings, -, hcall, hlast, -, hrun, hexit, hfindings, hstrict,
      rfl⟩ := hjudged.passes hsuccess
    rw [hworld] at hrun
    rw [htool] at hfindings hstrict
    refine ⟨⟨number, data, _, exit, _, getElem?_of_prefix hcalls hcall, hlast, rfl, hrun, hexit,
      hfindings⟩, fun hoption => hstrict ?_⟩
    unfold isStrict
    rw [hoption, Bool.true_or]

end Project

/-- **What a strict run that is a success has to show.**  It has no warnings, and for each resource
a program was started that exited with zero and printed the findings of the resource; so errors
are those of a program that exited with zero in spite of them. -/
theorem strict_success (o : Options) (r : Resolver) (m m' : Machine) (rep : Report)
    (hstrict : o.strict = true) (h : (report o r).runOn m = (.ok rep, m'))
    (hsuccess : rep.summary.success = true) :
    rep.summary.tally.warnings = 0 ∧
      (∀ s ∈ rep.sections, ∀ x ∈ s.resources, IsVouched o.project m.world m'.calls s.tool x) ∧
      (rep.summary.tally.errors ≠ 0 → ∃ s ∈ rep.sections, ∃ x ∈ s.resources,
        IsVouched o.project m.world m'.calls s.tool x ∧ ∃ f ∈ x.findings, f.severity = .error) := by
  obtain ⟨p, rfl, hworld, hmakes⟩ := exists_makesAll_of_report h
  have hadds : rep.AddsUp := (isMade_of_report h).addsUp
  have hvouched : ∀ s ∈ rep.sections, ∀ x ∈ s.resources,
      IsVouched p.options.project m.world m'.calls s.tool x ∧
        ∀ f ∈ x.findings, f.severity ≠ .warning := by
    intro s hs x hx
    obtain ⟨hexit, hwarnings⟩ := (hmakes s hs x hx).vouched (hadds.success.1 hsuccess s hs x hx)
    exact ⟨hworld ▸ hexit, hwarnings hstrict⟩
  refine ⟨?_, fun s hs x hx => (hvouched s hs x hx).1, fun herrors => ?_⟩
  · rw [hadds.warnings, Tally.count, List.countP_eq_zero]
    intro f hf
    obtain ⟨x, hx, hf⟩ := List.mem_flatMap.1 hf
    obtain ⟨s, hs, hx⟩ := Report.mem_resources.1 hx
    rw [beq_iff_eq]
    exact (hvouched s hs x hx).2 f hf
  · rw [hadds.errors, Tally.count, ← Nat.pos_iff_ne_zero, List.countP_pos_iff] at herrors
    obtain ⟨f, hf, herror⟩ := herrors
    obtain ⟨x, hx, hf⟩ := List.mem_flatMap.1 hf
    obtain ⟨s, hs, hx⟩ := Report.mem_resources.1 hx
    exact ⟨s, hs, x, hx, (hvouched s hs x hx).1, f, hf, beq_iff_eq.1 herror⟩

/-- What is asked of the command when it is to be strict. -/
def strictOptions : Options :=
  { chartsOptions with strict := true }

/-- A world in which all programs print one line, and exit with zero. -/
def printing (line : String) : World where
  reply _ _ := .unreachable
  run _ _ _ := .ok ⟨(line ++ "\n").toUTF8, .empty, true⟩

/-- A strict run on the two charts, by what its report is to be. -/
theorem exists_report_printing (line : String) (test : Report → Bool)
    (h : Config.writesSuch chartsTree ⟨"/p"⟩ (fun c =>
      ((reportWith strictOptions localResolver c).runOn
        (.fresh (printing line) chartsTree)).1.toOption.any test) = true) :
    ∃ rep m', (report strictOptions localResolver).runOn (.fresh (printing line) chartsTree) =
      (.ok rep, m') ∧ test rep = true :=
  exists_report_such h

/-- Programs that print information have vouched for both charts. -/
theorem strict_success_of_information :
    ∃ rep m', (report strictOptions localResolver).runOn
        (.fresh (printing "[INFO] Chart.yaml: icon is recommended") chartsTree) = (.ok rep, m') ∧
      rep.summary = ⟨2, 2, 0, ⟨0, 0, 2⟩, true⟩ ∧
      ∀ s ∈ rep.sections, ∀ x ∈ s.resources, IsVouched ⟨"/p"⟩
        (printing "[INFO] Chart.yaml: icon is recommended") m'.calls s.tool x := by
  obtain ⟨rep, m', hrun, htest⟩ := exists_report_printing "[INFO] Chart.yaml: icon is recommended"
    (fun rep => rep.summary == ⟨2, 2, 0, ⟨0, 0, 2⟩, true⟩) (by decide +kernel)
  have hsummary := beq_iff_eq.1 htest
  have hsuccess : rep.summary.success = true := by rw [hsummary]
  exact ⟨rep, m', hrun, hsummary, (strict_success _ _ _ m' rep rfl hrun hsuccess).2.1⟩

/-- Programs that print an error and exit with zero pass, where those that print a warning fail. -/
theorem errors_pass_where_warnings_fail :
    (∃ rep m', (report strictOptions localResolver).runOn
        (.fresh (printing "[ERROR] templates/: bad") chartsTree) = (.ok rep, m') ∧
      rep.summary.success = true ∧ rep.summary.tally.errors = 2) ∧
    ∃ rep m', (report strictOptions localResolver).runOn
        (.fresh (printing "[WARNING] templates/: bad") chartsTree) = (.ok rep, m') ∧
      rep.summary.success = false ∧ rep.summary.tally.errors = 0 := by
  refine ⟨?_, ?_⟩
  · obtain ⟨rep, m', hrun, htest⟩ := exists_report_printing "[ERROR] templates/: bad"
      (fun rep => rep.summary.success && rep.summary.tally.errors == 2) (by decide +kernel)
    simp only [Bool.and_eq_true, beq_iff_eq] at htest
    exact ⟨rep, m', hrun, htest⟩
  · obtain ⟨rep, m', hrun, htest⟩ := exists_report_printing "[WARNING] templates/: bad"
      (fun rep => !rep.summary.success && rep.summary.tally.errors == 0) (by decide +kernel)
    simp only [Bool.and_eq_true, Bool.not_eq_true', beq_iff_eq] at htest
    exact ⟨rep, m', hrun, htest⟩

end Command
end ReleaseLint
