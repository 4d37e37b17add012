/-
# Templated preflights without manifests

A preflight spec of the templated version is refused when there are no manifests to fill it in.
Whether a file holds one is asked of its documents, in front of its first fault, and of the words
of its text:

| a document is one | the text mentions one | the file holds one |
| --- | --- | --- |
| yes | | yes |
| no | yes | yes |
| no | no | no |

The words count for every text, also where each document can be read.  So in a text without
faults, a comment, a string or documents of other kinds are taken for a spec
(`templated_iff_of_isSound`).
-/

import ReleaseLint.Proofs.Lint.Target
import ReleaseLint.Proofs.Resource.Detection
import ReleaseLint.Proofs.Tree.Directories

namespace ReleaseLint

open Yaml (EndsAt IsDocumentOf Value)

namespace Resource.Preflight

/-- Whether a document is a preflight spec of the templated version. -/
abbrev IsTemplatedSpec : Value → Prop :=
  Value.Declares "Preflight" "v1beta3"

/-- Whether a text mentions a preflight spec of the templated version. -/
abbrev MentionsTemplated : String → Prop :=
  Text.Mentions "Preflight" "v1beta3"

/-- Whether one of the documents of a text is a preflight spec of the templated version. -/
def HasTemplatedSpec (content : String) : Prop :=
  ∃ v, IsDocumentOf content v ∧ IsTemplatedSpec v

variable {content : String}

theorem isTemplatedSpec_iff (v : Value) : isTemplatedSpec v = true ↔ IsTemplatedSpec v :=
  declares_iff v

theorem mentionsTemplated_iff : mentionsTemplated content = true ↔ MentionsTemplated content := by
  have hspaced : "kind: Preflight" = "kind: " ++ "Preflight" := by decide
  have hjoined : "kind:Preflight" = "kind:" ++ "Preflight" := by decide
  unfold mentionsTemplated
  rw [hspaced, hjoined]
  exact mentions_iff

theorem any_isTemplatedSpec_iff (hsound : Yaml.IsSound content) :
    (Yaml.Values.ofText content).values.any isTemplatedSpec = true ↔ HasTemplatedSpec content := by
  rw [Yaml.any_iff isTemplatedSpec_iff, Yaml.exists_found_iff hsound isTemplatedSpec_iff]
  rfl

/-- A text holds a templated spec if a search for one ends at it, or if the words do. -/
theorem isTemplated_iff :
    isTemplated content = true ↔
      (∃ v, EndsAt IsTemplatedSpec content (.found v)) ∨ MentionsTemplated content := by
  unfold isTemplated
  rw [Bool.or_eq_true, Yaml.any_iff isTemplatedSpec_iff, mentionsTemplated_iff]

theorem isTemplatedPreflight_of_readText {w : Workspace} {spec : Path}
    (hread : w.readText spec = .ok content) :
    isTemplatedPreflight w spec = .ok (isTemplated content) := by
  unfold isTemplatedPreflight
  rw [hread]

end Resource.Preflight

open Resource.Preflight

namespace Linter

variable {w : Workspace} {m m' : Machine} {spec binary : Path} {content : String}
variable {manifests : Manifest.Index} {values : Option Path} {chartKey : Option String}

/-- What is refused after a call is refused for what the call came to. -/
theorem judge_ne_needsManifests (binary : Path) (target : Target)
    (answer : Except SystemFault Exit) (spec : Path) :
    judge binary target answer ≠ .error (.needsManifests spec) := by
  intro h
  cases answer with
  | error fault => cases h
  | ok exit =>
    simp only [judge, outcome] at h
    split at h
    · cases h
    · split_ifs at h
      cases h

/-- A preflight whose spec can be read is refused for its template, and for nothing else. -/
theorem check_preflight (hread : w.readText spec = .ok content) :
    check manifests (.preflight spec values chartKey) w =
      if isTemplated content && manifests.isEmpty then .error (.needsManifests spec)
      else .ok () := by
  obtain ⟨-, hfile, -, -⟩ := Workspace.readText_eq_ok hread
  have hinput : checkInput (.preflight spec values chartKey) w = .ok () := by
    unfold Workspace.hasFile at hfile
    unfold checkInput
    cases hnode : w.node spec with
    | error f => simp [hnode] at hfile
    | ok n => simp only [Target.path, hnode]
  unfold check checkTemplate
  simp only [hinput, isTemplatedPreflight_of_readText hread, bind, Except.bind]
  split_ifs <;> rfl

/-- **Without manifests a templated spec is refused,** in front of any call, and nothing else is
refused for the want of them. -/
theorem runOn_run_preflight_iff (hread : m.workspace.readText spec = .ok content) :
    (run binary manifests (.preflight spec values chartKey)).runOn m =
        (.error (.needsManifests spec), m') ↔
      m' = m ∧ manifests.isEmpty = true ∧ isTemplated content = true := by
  rw [runOn_run, check_preflight hread]
  cases hrefused : isTemplated content && manifests.isEmpty with
  | true =>
    rw [Bool.and_eq_true] at hrefused
    simp [hrefused, eq_comm]
  | false =>
    rw [Bool.and_eq_false_imp] at hrefused
    refine iff_of_false (fun h => ?_) fun h => ?_
    · exact judge_ne_needsManifests _ _ _ spec (congrArg Prod.fst h)
    · exact absurd h.2.1 (Bool.not_eq_true _ ▸ hrefused h.2.2)

/-- **What counts as a templated preflight.**  A spec whose text has no faults counts as one if one
of its documents is a preflight of the templated version, whichever it is, and also if its text
mentions one.  It is refused, without a call, precisely if it counts as one and no manifest is
stored.  So it is the words of comments, strings and documents of other kinds that may be mistaken
for a preflight, and without them only a preflight is refused. -/
theorem templated_iff_of_isSound (hread : m.workspace.readText spec = .ok content)
    (hsound : Yaml.IsSound content) :
    (Resource.isTemplatedPreflight m.workspace spec = .ok true ↔
      HasTemplatedSpec content ∨ MentionsTemplated content) ∧
    (∀ binary manifests values chartKey m',
      (run binary manifests (.preflight spec values chartKey)).runOn m =
          (.error (.needsManifests spec), m') ↔
        m' = m ∧ manifests.isEmpty = true ∧
          (HasTemplatedSpec content ∨ MentionsTemplated content)) ∧
    ((Resource.isTemplatedPreflight m.workspace spec = .ok true ↔ HasTemplatedSpec content) ↔
      (MentionsTemplated content → HasTemplatedSpec content)) := by
  have htemplated : isTemplated content = true ↔
      HasTemplatedSpec content ∨ MentionsTemplated content := by
    rw [isTemplated_iff, ← Yaml.any_iff isTemplatedSpec_iff, any_isTemplatedSpec_iff hsound]
  have hpreflight : Resource.isTemplatedPreflight m.workspace spec = .ok true ↔
      isTemplated content = true := by
    rw [isTemplatedPreflight_of_readText hread, Except.ok.injEq]
  refine ⟨hpreflight.trans htemplated, fun _ _ _ _ _ => ?_, ?_⟩
  · rw [runOn_run_preflight_iff hread, htemplated]
  · rw [hpreflight, htemplated]
    exact or_iff_left_iff_imp

/-- A machine with one spec of some text. -/
def machineWith (content : String) : Machine :=
  .fresh .silent
    { tree := ⟨[(["p"], .directory), (["p", "p.yaml"], .file content.toUTF8 false)]⟩
      directory := ⟨"/p"⟩ }

/-- A file with a templated preflight behind a document of another kind. -/
def templatedSpec : String :=
  "kind: ConfigMap\n---\napiVersion: troubleshoot.sh/v1beta3\n\"kind\": Preflight\n"

/-- The second document counts, though the text has none of the words. -/
theorem templated_of_templatedSpec :
    HasTemplatedSpec templatedSpec ∧ ¬MentionsTemplated templatedSpec ∧
      Resource.isTemplatedPreflight (machineWith templatedSpec).workspace ⟨"/p/p.yaml"⟩ =
        .ok true ∧
      (run ⟨"/preflight"⟩ .empty (.preflight ⟨"/p/p.yaml"⟩ none none)).runOn
          (machineWith templatedSpec) =
        (.error (.needsManifests ⟨"/p/p.yaml"⟩), machineWith templatedSpec) := by
  have hread : (machineWith templatedSpec).workspace.readText ⟨"/p/p.yaml"⟩ = .ok templatedSpec :=
    toOption_eq_some_iff.1 (by decide +kernel)
  have hsound : Yaml.IsSound templatedSpec := Yaml.isSound_iff.2 (by decide +kernel)
  have hspec : HasTemplatedSpec templatedSpec :=
    (any_isTemplatedSpec_iff hsound).1 (by decide +kernel)
  have hwords : ¬MentionsTemplated templatedSpec := fun h =>
    absurd (mentionsTemplated_iff.2 h) (by decide +kernel)
  obtain ⟨hcounts, hrefused, -⟩ := templated_iff_of_isSound hread hsound
  exact ⟨hspec, hwords, hcounts.2 (.inl hspec),
    (hrefused ⟨"/preflight"⟩ .empty none none _).2 ⟨rfl, rfl, .inl hspec⟩⟩

/-- A preflight of the version before, which says so in a comment. -/
def commentedSpec : String :=
  "apiVersion: troubleshoot.sh/v1beta2\nkind: Preflight\n# not v1beta3\n"

/-- **A comment is taken for a templated preflight,** and so a preflight of another version is
refused for the want of manifests. -/
theorem templated_of_commentedSpec :
    (machineWith commentedSpec).workspace.readText ⟨"/p/p.yaml"⟩ = .ok commentedSpec ∧
      Yaml.IsSound commentedSpec ∧ ¬HasTemplatedSpec commentedSpec ∧
      Resource.isTemplatedPreflight (machineWith commentedSpec).workspace ⟨"/p/p.yaml"⟩ =
        .ok true ∧
      (run ⟨"/preflight"⟩ .empty (.preflight ⟨"/p/p.yaml"⟩ none none)).runOn
          (machineWith commentedSpec) =
        (.error (.needsManifests ⟨"/p/p.yaml"⟩), machineWith commentedSpec) := by
  have hread : (machineWith commentedSpec).workspace.readText ⟨"/p/p.yaml"⟩ = .ok commentedSpec :=
    toOption_eq_some_iff.1 (by decide +kernel)
  have hsound : Yaml.IsSound commentedSpec := Yaml.isSound_iff.2 (by decide +kernel)
  have hnone : ¬HasTemplatedSpec commentedSpec := fun h =>
    absurd ((any_isTemplatedSpec_iff hsound).2 h) (by decide +kernel)
  have hcounts : isTemplated commentedSpec = true := by decide +kernel
  refine ⟨hread, hsound, hnone, ?_, (runOn_run_preflight_iff hread).2 ⟨rfl, rfl, hcounts⟩⟩
  rw [isTemplatedPreflight_of_readText hread, hcounts]

end Linter
end ReleaseLint
