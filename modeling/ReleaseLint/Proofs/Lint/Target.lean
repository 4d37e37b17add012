/-
# What becomes of a target

A linter is started once for a target, and what is reported of the target depends on the tree
and on what this start came to (`Project.resource`), and on nothing else that has happened.

| what went wrong | reported as | started |
| --- | --- | --- |
| the target is not there, or lacks manifests | failed, with the error | no |
| the program cannot be started | failed, with the error | no |
| the output cannot be parsed | failed, with the error and the output | yes |
| the exit status, or a warning under strict linting | failed, with the findings | yes |

So a target that passed was linted (`Passes`), and targets that are linted one after the other
are reported one by one (`runOn_lintTargets`).
-/

import ReleaseLint.Command.Lint
import ReleaseLint.Proofs.Cache.Session
import Mathlib.Data.List.Forall2

namespace ReleaseLint

/-! ### Calls -/

/-- What is in a list stays where it is when the list gets longer. -/
theorem getElem?_of_prefix {α : Type} {l more : List α} {number : Nat} {a : α} (h : l <+: more)
    (ha : l[number]? = some a) : more[number]? = some a := by
  obtain ⟨rest, rfl⟩ := h
  rw [List.getElem?_append_left (List.getElem?_eq_some_iff.1 ha).1, ha]

theorem exists_getElem?_of_forall₂ {α β : Type} {R : α → β → Prop} {l : List α} {l' : List β}
    (h : List.Forall₂ R l l') {i : Nat} {a : α} (ha : l[i]? = some a) :
    ∃ b, l'[i]? = some b ∧ R a b := by
  obtain ⟨hi, rfl⟩ := List.getElem?_eq_some_iff.1 ha
  have hi' : i < l'.length := h.length_eq ▸ hi
  exact ⟨l'[i], List.getElem?_eq_getElem hi', h.get hi hi'⟩

/-- What a call of a program comes to as the one with some number. -/
def World.answer (world : World) (number : Nat) (w : Workspace) (binary : Path)
    (arguments : List Argument) : Except SystemFault Exit :=
  if Session.holdsZero binary arguments then .error .zeroInArgument
  else
    match w.node binary with
    | .error f => .error f
    | .ok (.file data true) =>
      if arguments.any (·.text?.any (Session.maxArgumentSize ≤ ·.utf8ByteSize)) then
        .error .argumentTooLong
      else world.run number data arguments
    | .ok _ => .error .permissionDenied

/-- A machine behind a call: it is in the log if the program was started. -/
def Machine.after (m : Machine) (call : Call) : Except SystemFault Exit → Machine
  | .ok _ => { m with calls := m.calls ++ [call] }
  | .error _ => m

/-- Whether one machine is another one on which programs may have been started. -/
structure Machine.Calls (m m' : Machine) : Prop where
  eq : m' = { m with calls := m'.calls }
  calls : m.calls <+: m'.calls

namespace Machine.Calls

variable {m m' m'' : Machine}

theorem refl (m : Machine) : m.Calls m :=
  ⟨rfl, List.prefix_rfl⟩

theorem trans (h : m.Calls m') (h' : m'.Calls m'') : m.Calls m'' where
  eq := by rw [h'.eq, h.eq]
  calls := h.calls.trans h'.calls

theorem world_eq (h : m.Calls m') : m'.world = m.world := by rw [h.eq]

theorem workspace_eq (h : m.Calls m') : m'.workspace = m.workspace := by rw [h.eq]

theorem recommended_eq (h : m.Calls m') : m'.recommended = m.recommended := by rw [h.eq]

theorem after (m : Machine) (call : Call) (answer : Except SystemFault Exit) :
    m.Calls (m.after call answer) := by
  cases answer with
  | error f => exact .refl m
  | ok exit => exact ⟨rfl, List.prefix_append _ _⟩

end Machine.Calls

variable {number : Nat} {w : Workspace} {binary : Path} {m m' : Machine}

theorem World.exists_program_of_answer {world : World} {arguments : List Argument} {exit : Exit}
    (h : world.answer number w binary arguments = .ok exit) :
    ∃ data, w.node binary = .ok (.file data true) ∧
      world.run number data arguments = .ok exit := by
  unfold answer at h
  by_cases hzero : Session.holdsZero binary arguments = true
  · rw [if_pos hzero] at h
    cases h
  · rw [if_neg hzero] at h
    split at h
    · cases h
    · rename_i data hnode
      split_ifs at h
      exact ⟨data, hnode, h⟩
    · cases h

theorem Session.runOn_call (binary : Path) (arguments : List Argument) (m : Machine) :
    (call binary arguments).runOn m =
      (.ok (m.world.answer m.calls.length m.workspace binary arguments),
        m.after ⟨binary, arguments⟩
          (m.world.answer m.calls.length m.workspace binary arguments)) := by
  unfold call World.answer
  by_cases hzero : holdsZero binary arguments = true
  · simp only [runOn_bind, runOn_get, if_pos hzero]
    rfl
  · simp only [runOn_bind, runOn_get, if_neg hzero]
    cases hnode : m.workspace.node binary with
    | error f => rfl
    | ok n =>
      cases n with
      | directory => rfl
      | link target => rfl
      | file data executable =>
        cases executable with
        | false => rfl
        | true =>
          simp only
          split_ifs
          · rfl
          · cases m.world.run m.calls.length data arguments <;> rfl

/-! ### One target -/

namespace Linter

/-- Refuse a target that cannot be linted. -/
def check (manifests : Manifest.Index) (target : Target) (w : Workspace) : Except Error Unit := do
  checkInput target w
  checkTemplate manifests target w

/-- What a call makes of a target. -/
def judge (binary : Path) (target : Target) : Except SystemFault Exit → Except Error Outcome
  | .error fault => .error (.execution target.tool (binary.text ++ ": " ++ fault.message))
  | .ok exit => outcome target.tool exit.success (printed exit)

theorem runOn_run (binary : Path) (manifests : Manifest.Index) (target : Target) (m : Machine) :
    (run binary manifests target).runOn m =
      match check manifests target m.workspace with
      | .error e => (.error e, m)
      | .ok _ =>
        let call : Call := ⟨binary, arguments manifests target⟩
        let answer := m.world.answer m.calls.length m.workspace binary call.arguments
        (judge binary target answer, m.after call answer) := by
  unfold run check Session.inspect
  simp only [Session.runOn_bind, Session.runOn_workspace, Session.runOn_lift]
  cases checkInput target m.workspace with
  | error e => rfl
  | ok u =>
    simp only [bind, Except.bind]
    cases checkTemplate manifests target m.workspace with
    | error e => rfl
    | ok u =>
      simp only [Session.runOn_call]
      cases m.world.answer m.calls.length m.workspace binary (arguments manifests target) with
      | error fault => rfl
      | ok exit => simp only [Session.runOn_lift]; rfl

/-- The last argument is the target. -/
theorem getLast?_arguments (manifests : Manifest.Index) (target : Target) :
    (arguments manifests target).getLast? = some (.text target.path.text) := by
  cases target with
  | preflight spec values chartKey => exact List.getLast?_concat
  | _ => rfl

/-- An outcome is the exit status of the program and what was read from its output. -/
theorem judge_eq_ok {target : Target} {answer : Except SystemFault Exit} {o : Outcome}
    (h : judge binary target answer = .ok o) :
    ∃ exit, answer = .ok exit ∧ o.success = exit.success ∧
      Finding.ofOutput target.tool (printed exit) = .ok o.findings := by
  cases answer with
  | error fault => cases h
  | ok exit =>
    refine ⟨exit, rfl, ?_⟩
    unfold judge outcome at h
    simp only at h
    split at h
    · cases h
    · rename_i findings hfindings
      split_ifs at h
      obtain rfl := Except.ok.inj h
      exact ⟨rfl, hfindings⟩

end Linter

namespace Command
namespace Project

variable {p : Project} {target : Target} {answer : Except SystemFault Exit}

/-- The path under which a target is reported. -/
def displayed (p : Project) (target : Target) : String :=
  displayPath p.options.project target.path

/-- What is reported of a target, given what its call came to. -/
def resource (p : Project) (binary : Path) (w : Workspace) (target : Target)
    (answer : Except SystemFault Exit) : Report.Resource :=
  match (do Linter.check p.manifests target w; Linter.judge binary target answer) with
  | .ok outcome => .ofOutcome (p.displayed target) outcome (p.isStrict target.tool)
  | .error e => .ofError (p.displayed target) e

@[simp]
theorem path_resource : (p.resource binary w target answer).path = p.displayed target := by
  unfold resource
  split <;> rfl

/-- The call for a target. -/
def call (p : Project) (binary : Path) (target : Target) : Call :=
  ⟨binary, Linter.arguments p.manifests target⟩

theorem runOn_lintTarget (p : Project) (binary : Path) (target : Target) (m : Machine) :
    let answer := m.world.answer m.calls.length m.workspace binary (p.call binary target).arguments
    (p.lintTarget binary target).runOn m =
      (.ok (p.resource binary m.workspace target answer),
        if (Linter.check p.manifests target m.workspace).isOk then
          m.after (p.call binary target) answer else m) := by
  unfold lintTarget resource
  simp only [Session.runOn_bind, Session.runOn_attempt, Linter.runOn_run]
  cases Linter.check p.manifests target m.workspace with
  | error e => rfl
  | ok u =>
    show _ = (Except.ok (match Linter.judge binary target _ with
      | .ok outcome => _
      | .error e => _), _)
    simp only [call]
    cases Linter.judge binary target (m.world.answer m.calls.length m.workspace binary
      (Linter.arguments p.manifests target))
    all_goals rfl

/-- Whether a target has passed between two machines: its program was started on it, the exit status
was zero, the output was parsed, and under strict linting there is no warning. -/
def Passes (p : Project) (binary : Path) (m m' : Machine) (target : Target)
    (x : Report.Resource) : Prop :=
  ∃ number data exit findings,
    m.calls.length ≤ number ∧ m'.calls[number]? = some (p.call binary target) ∧
    (p.call binary target).arguments.getLast? = some (.text target.path.text) ∧
    m.workspace.node binary = .ok (.file data true) ∧
    m.world.run number data (p.call binary target).arguments = .ok exit ∧ exit.success = true ∧
    Finding.ofOutput target.tool (Linter.printed exit) = .ok findings ∧
    (p.isStrict target.tool = true → ∀ f ∈ findings, f.severity ≠ .warning) ∧
    x = ⟨p.displayed target, true, findings, .ofFindings findings⟩

theorem Passes.mono {m₀ m₁ m₂ m₃ : Machine} {binary : Path} {x : Report.Resource}
    (h : p.Passes binary m₁ m₂ target x) (hfront : m₀.Calls m₁) (hback : m₂.calls <+: m₃.calls) :
    p.Passes binary m₀ m₃ target x := by
  obtain ⟨number, data, exit, findings, hnumber, hcall, hlast, hnode, hrun, hrest⟩ := h
  rw [hfront.workspace_eq] at hnode
  rw [hfront.world_eq] at hrun
  exact ⟨number, data, exit, findings, hfront.calls.length_le.trans hnumber,
    getElem?_of_prefix hback hcall, hlast, hnode, hrun, hrest⟩

/-- A target that is reported as passed was checked, and its program exited with zero. -/
theorem exists_exit_of_success {binary : Path}
    (h : (p.resource binary w target answer).success = true) :
    ∃ exit findings, Linter.check p.manifests target w = .ok () ∧ answer = .ok exit ∧
      exit.success = true ∧ Finding.ofOutput target.tool (Linter.printed exit) = .ok findings ∧
      (p.isStrict target.tool = true → ∀ f ∈ findings, f.severity ≠ .warning) ∧
      p.resource binary w target answer =
        ⟨p.displayed target, true, findings, .ofFindings findings⟩ := by
  unfold resource at h ⊢
  cases hcheck : Linter.check p.manifests target w with
  | error e =>
    rw [hcheck] at h
    cases h
  | ok u =>
    rw [hcheck] at h
    simp only [bind, Except.bind] at h ⊢
    cases hjudge : Linter.judge binary target answer with
    | error e =>
      rw [hjudge] at h
      cases h
    | ok o =>
      rw [hjudge] at h
      simp only at h ⊢
      obtain ⟨exit, hanswer, hstatus, hfindings⟩ := Linter.judge_eq_ok hjudge
      have hsuccess : (o.success && !(p.isStrict target.tool &&
          decide (0 < Tally.count .warning o.findings))) = true := h
      rw [Bool.and_eq_true, Bool.not_eq_true', Bool.and_eq_false_imp, decide_eq_false_iff_not]
        at hsuccess
      refine ⟨exit, o.findings, trivial, hanswer, hstatus ▸ hsuccess.1, hfindings, ?_, ?_⟩
      · intro hstrict f hf hwarning
        refine hsuccess.2 hstrict (List.countP_pos_iff.2 ⟨f, hf, ?_⟩)
        rw [hwarning]
        rfl
      · unfold Report.Resource.ofOutcome at h ⊢
        exact congrArg (fun success => Report.Resource.mk (p.displayed target) success o.findings
          (.ofFindings o.findings)) h

/-- Whether a resource is what is reported of a target that is linted between two machines. -/
structure Judged (p : Project) (binary : Path) (m m' : Machine) (target : Target)
    (x : Report.Resource) : Prop where
  resource : ∃ number, m.calls.length ≤ number ∧ x = p.resource binary m.workspace target
    (m.world.answer number m.workspace binary (p.call binary target).arguments)
  passes : x.success = true → p.Passes binary m m' target x

theorem Judged.mono {m₀ m₁ m₂ m₃ : Machine} {binary : Path} {x : Report.Resource}
    (h : p.Judged binary m₁ m₂ target x) (hfront : m₀.Calls m₁) (hback : m₂.calls <+: m₃.calls) :
    p.Judged binary m₀ m₃ target x where
  resource := by
    obtain ⟨number, hnumber, hx⟩ := h.resource
    rw [hfront.world_eq, hfront.workspace_eq] at hx
    exact ⟨number, hfront.calls.length_le.trans hnumber, hx⟩
  passes hsuccess := (h.passes hsuccess).mono hfront hback

/-- One target is linted by at most one call. -/
theorem judged_of_lintTarget (p : Project) (binary : Path) (target : Target) (m : Machine) :
    ∃ x m', (p.lintTarget binary target).runOn m = (.ok x, m') ∧ m.Calls m' ∧
      p.Judged binary m m' target x := by
  have hrun := p.runOn_lintTarget binary target m
  simp only at hrun
  generalize hanswer : m.world.answer m.calls.length m.workspace binary
    (p.call binary target).arguments = answer at hrun
  refine ⟨_, _, hrun, ?_, ⟨m.calls.length, le_rfl, by rw [hanswer]⟩, fun hsuccess => ?_⟩
  · split_ifs
    · exact .after m _ answer
    · exact .refl m
  · obtain ⟨exit, findings, hcheck, rfl, hexit, hfindings, hstrict, hx⟩ :=
      exists_exit_of_success hsuccess
    obtain ⟨data, hnode, hprogram⟩ := World.exists_program_of_answer hanswer
    refine ⟨m.calls.length, data, exit, findings, le_rfl, ?_,
      Linter.getLast?_arguments p.manifests target, hnode, hprogram, hexit, hfindings, hstrict, hx⟩
    rw [hcheck]
    show (m.calls ++ [p.call binary target])[m.calls.length]? = _
    exact List.getElem?_concat_length

/-- **Targets are reported one by one,** in their order. -/
theorem judged_of_lintTargets (p : Project) (binary : Path) (targets : List Target) (m : Machine) :
    ∃ resources m', (targets.mapM (p.lintTarget binary)).runOn m = (.ok resources, m') ∧
      m.Calls m' ∧ List.Forall₂ (p.Judged binary m m') targets resources := by
  induction targets generalizing m with
  | nil => exact ⟨[], m, rfl, .refl m, .nil⟩
  | cons target targets ih =>
    obtain ⟨x, m₁, hrun, hcalls, hx⟩ := p.judged_of_lintTarget binary target m
    obtain ⟨resources, m', hrest, hcalls', hresources⟩ := ih m₁
    refine ⟨x :: resources, m', ?_, hcalls.trans hcalls', .cons (hx.mono (.refl m) hcalls'.calls) ?_⟩
    · rw [List.mapM_cons, Session.runOn_bind, hrun]
      simp only [Session.runOn_bind, hrest, Session.runOn_pure]
    · exact hresources.imp fun _ _ h => h.mono hcalls List.prefix_rfl

/-- **What other targets come to does not count:** a target is reported the same in two runs on one
tree if its own program does the same in both of them. -/
theorem Judged.eq_of_answers {m₀ m₁ : Machine} {binary : Path} {x y : Report.Resource}
    (hx : p.Judged binary m m' target x) (hy : p.Judged binary m₀ m₁ target y)
    (hworkspace : m₀.workspace = m.workspace)
    (hanswers : ∀ number number',
      m.world.answer number m.workspace binary (p.call binary target).arguments =
        m₀.world.answer number' m₀.workspace binary (p.call binary target).arguments) : x = y := by
  obtain ⟨number, -, rfl⟩ := hx.resource
  obtain ⟨number', -, rfl⟩ := hy.resource
  rw [hanswers number number', hworkspace]

end Project
end Command
end ReleaseLint
