/-
# Embedded cluster configs and their versions

A file is passed over or linted by what `ClusterConfig.isIn` says of its text, and its version is
read by `clusterVersion`.  Both search the documents of the text for a config, and both look at
the words of the text if they find none:

| the search ends | is a config | version |
| --- | --- | --- |
| at a config | yes | the one it declares, or none |
| at a fault | if it mentions one | if it mentions one, that of a line, or none |
| behind the last document | no | if it mentions one, that of a line, or none |

Where the words do not count for a config in the last row, they still count for its version, and
this is the only place where the two disagree (`detection_and_version`).
-/

import ReleaseLint.Proofs.Except
import ReleaseLint.Proofs.Text.Parts
import ReleaseLint.Proofs.Yaml.Search
import ReleaseLint.Resource.Discovery

namespace ReleaseLint

/-- Whether a document declares a kind, in an API version with some part. -/
structure Yaml.Value.Declares (kind part : String) (v : Value) : Prop where
  kind : (v.get? "kind").bind (·.string?) = some kind
  version : ∃ version, (v.get? "apiVersion").bind (·.string?) = some version ∧
    part.toList <:+: version.toList

/-- Whether the words that declare a kind stand somewhere in a text, and a part of an API version
anywhere else. -/
def Text.Mentions (kind part content : String) : Prop :=
  (("kind: " ++ kind).toList <:+: content.toList ∨ ("kind:" ++ kind).toList <:+: content.toList) ∧
    part.toList <:+: content.toList

namespace Resource

open Yaml (EndsAt Value)

theorem contains_iff {s part : String} :
    Text.contains s part = true ↔ part.toList <:+: s.toList :=
  Text.occursIn_iff

/-- The test for a kind and a part of an API version. -/
theorem declares_iff {kind part : String} (v : Value) :
    ((v.get? "kind").bind (·.string?) == some kind &&
      ((v.get? "apiVersion").bind (·.string?)).any fun version => Text.contains version part) =
        true ↔ v.Declares kind part := by
  simp only [Bool.and_eq_true, beq_iff_eq, Option.any_eq_true, contains_iff]
  exact ⟨fun h => ⟨h.1, h.2⟩, fun h => ⟨h.kind, h.version⟩⟩

/-- The test for the words. -/
theorem mentions_iff {kind part content : String} :
    ((Text.contains content ("kind: " ++ kind) || Text.contains content ("kind:" ++ kind)) &&
      Text.contains content part) = true ↔ Text.Mentions kind part content := by
  simp only [Bool.and_eq_true, Bool.or_eq_true, contains_iff]
  rfl

namespace ClusterConfig

/-- Whether a document is an embedded cluster config. -/
abbrev IsConfig : Value → Prop :=
  Value.Declares "Config" "embeddedcluster.replicated.com"

/-- Whether a text mentions an embedded cluster config. -/
abbrev MentionsConfig : String → Prop :=
  Text.Mentions "Config" "embeddedcluster.replicated.com"

variable {content : String} {v : Value}

theorem isConfig_iff (v : Value) : isConfig v = true ↔ IsConfig v :=
  declares_iff v

theorem looksLikeConfig_iff : looksLikeConfig content = true ↔ MentionsConfig content := by
  have hspaced : "kind: Config" = "kind: " ++ "Config" := by decide
  have hjoined : "kind:Config" = "kind:" ++ "Config" := by decide
  unfold looksLikeConfig
  rw [hspaced, hjoined]
  exact mentions_iff

/-! ### How the search for a config ends -/

theorem isIn_eq (content : String) :
    isIn content =
      match (Yaml.Values.ofText content).searchEnd isConfig with
      | .found _ => true
      | .broken _ => looksLikeConfig content
      | .exhausted => false := by
  simp only [isIn, Yaml.Values.searchEnd, ← List.isSome_find?]
  cases (Yaml.Values.ofText content).values.find? isConfig with
  | some v => rfl
  | none => cases (Yaml.Values.ofText content).fault <;> rfl

/-- What a version that is there or not comes to for the config at a path. -/
def versionOr (p : Path) : Option String → Except Error String
  | some version => .ok version
  | none => .error (.discovery p.text .noVersion)

theorem clusterVersion_eq {w : Workspace} {p : Path} (htext : w.readText p = .ok content) :
    clusterVersion w p =
      match (Yaml.Values.ofText content).searchEnd isConfig with
      | .found v => versionOr p (declaredVersion? v)
      | _ =>
        if looksLikeConfig content then
          versionOr p ((Text.lines content).findSome? lineVersion?)
        else .error (.discovery p.text .notConfig) := by
  simp only [clusterVersion, htext, version, Yaml.Values.searchEnd]
  cases (Yaml.Values.ofText content).values.find? isConfig with
  | some v => cases hdeclared : declaredVersion? v <;> simp only [hdeclared] <;> rfl
  | none =>
    cases (Yaml.Values.ofText content).fault <;> cases looksLikeConfig content <;>
      cases (Text.lines content).findSome? lineVersion? <;> rfl

theorem versionOr_ne_notConfig (p : Path) (version? : Option String) :
    versionOr p version? ≠ .error (.discovery p.text .notConfig) := by
  cases version? <;> simp [versionOr]

/-- **Where detection and the reading of versions agree.**  If the search for a config finds one,
the text is detected, and the version is the one that this config declares.  If it finds none,
the words of the text decide: the version is that of a line if the text mentions a config, and
otherwise the file does not appear to be one.  The words count for detection, too, if the search
has ended at a fault; behind the last document of a text without faults they do not.  So what is
not detected is refused as no config, unless all documents are read, none of them is a config, and
the text mentions one. -/
theorem detection_and_version {w : Workspace} {p : Path} (htext : w.readText p = .ok content) :
    (∀ v, EndsAt IsConfig content (.found v) →
      isIn content = true ∧ clusterVersion w p = versionOr p (declaredVersion? v)) ∧
    (∀ f, EndsAt IsConfig content (.broken f) →
      (isIn content = true ↔ MentionsConfig content)) ∧
    (EndsAt IsConfig content .exhausted → isIn content = false) ∧
    ((∀ v, ¬EndsAt IsConfig content (.found v)) →
      (MentionsConfig content →
        clusterVersion w p = versionOr p ((Text.lines content).findSome? lineVersion?)) ∧
      (¬MentionsConfig content →
        clusterVersion w p = .error (.discovery p.text .notConfig))) ∧
    ((isIn content = false ↔ clusterVersion w p = .error (.discovery p.text .notConfig)) ↔
      ¬(EndsAt IsConfig content .exhausted ∧ MentionsConfig content)) := by
  simp only [Yaml.endsAt_iff isConfig_iff, ← looksLikeConfig_iff]
  rw [isIn_eq, clusterVersion_eq htext]
  cases (Yaml.Values.ofText content).searchEnd isConfig with
  | found v => simp [versionOr_ne_notConfig]
  | broken f => cases looksLikeConfig content <;> simp [versionOr_ne_notConfig]
  | exhausted => cases looksLikeConfig content <;> simp [versionOr_ne_notConfig]

/-- A project with one file of some text. -/
def projectWith (content : String) : Workspace where
  tree := ⟨[(["p"], .directory), (["p", "ec.yaml"], .file content.toUTF8 false)]⟩
  directory := ⟨"/p"⟩

/-- A config that is a template: its list breaks off, and a line names a version. -/
def templateConfig : String :=
  "apiVersion: embeddedcluster.replicated.com/v1\nkind: Config\nversion: 2.0.0\n" ++
    "roles: [\x7b\x7b repl \x7d\x7d\n"

/-- The words of a template count for both. -/
theorem detection_of_templateConfig :
    ∃ f, EndsAt IsConfig templateConfig (.broken f) ∧ MentionsConfig templateConfig ∧
      isIn templateConfig = true ∧
      clusterVersion (projectWith templateConfig) ⟨"/p/ec.yaml"⟩ = .ok "2.0.0" := by
  have hread : (projectWith templateConfig).readText ⟨"/p/ec.yaml"⟩ = .ok templateConfig :=
    toOption_eq_some_iff.1 (by decide +kernel)
  obtain ⟨f, hends⟩ : ∃ f, EndsAt IsConfig templateConfig (.broken f) :=
    (Yaml.exists_broken_iff isConfig_iff).2 (by decide +kernel)
  have hmentions : MentionsConfig templateConfig := looksLikeConfig_iff.1 (by decide +kernel)
  have hline : (Text.lines templateConfig).findSome? lineVersion? = some "2.0.0" := by
    decide +kernel
  obtain ⟨-, hbroken, -, hwords, -⟩ := detection_and_version hread
  have hnone (v : Value) : ¬EndsAt IsConfig templateConfig (.found v) := fun hfound => by
    rw [Yaml.endsAt_iff isConfig_iff] at hends hfound
    cases hends.symm.trans hfound
  refine ⟨f, hends, hmentions, (hbroken f hends).2 hmentions, ?_⟩
  rw [(hwords hnone).1 hmentions, hline, versionOr]

/-- A text that mentions an embedded cluster config, and is one of another kind. -/
def mentioningConfig : String :=
  "# embeddedcluster.replicated.com\nkind: ConfigMap\nversion: 1.2.3\n"

/-- **A file that is no config has the version of one.**  All its documents are read and none of
them is a config, so it is not detected; the comment and the other kind are words enough for a
version. -/
theorem version_of_mentioningConfig :
    (projectWith mentioningConfig).readText ⟨"/p/ec.yaml"⟩ = .ok mentioningConfig ∧
      Yaml.IsSound mentioningConfig ∧
      isIn mentioningConfig = false ∧
      clusterVersion (projectWith mentioningConfig) ⟨"/p/ec.yaml"⟩ = .ok "1.2.3" ∧
      ¬(isIn mentioningConfig = false ↔
        clusterVersion (projectWith mentioningConfig) ⟨"/p/ec.yaml"⟩ =
          .error (.discovery "/p/ec.yaml" .notConfig)) := by
  have hread : (projectWith mentioningConfig).readText ⟨"/p/ec.yaml"⟩ = .ok mentioningConfig :=
    toOption_eq_some_iff.1 (by decide +kernel)
  have hsound : Yaml.IsSound mentioningConfig := Yaml.isSound_iff.2 (by decide +kernel)
  have hdetected : isIn mentioningConfig = false := by decide +kernel
  have hversion : clusterVersion (projectWith mentioningConfig) ⟨"/p/ec.yaml"⟩ = .ok "1.2.3" :=
    toOption_eq_some_iff.1 (by decide +kernel)
  refine ⟨hread, hsound, hdetected, hversion, fun h => ?_⟩
  cases hversion.symm.trans (h.1 hdetected)

end ClusterConfig
end Resource
end ReleaseLint
