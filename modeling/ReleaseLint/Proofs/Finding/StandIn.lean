/-
# Objects that stand in for a report

The first sound span of an output of `embedded-cluster` or `kots` is read as its report, and
every field of these reports has a default.  So any object in front of the report is taken for
one without findings, whatever follows (`ofOutput_of_other_object`): an object of a log, or one
inside of a report that is cut off (`findings_are_lost`).  The report of `preflight` has a
field that is required, and objects without it are passed over.

| first sound span | `embedded-cluster`, `kots` | `preflight`, `support-bundle` |
| --- | --- | --- |
| the report | its findings | its findings |
| an object without the key of the report | none | those of a later span, or a fault |
-/

import ReleaseLint.Proofs.Finding.Rendering

namespace ReleaseLint
namespace Finding

open Json (Writes)

variable {before text after : String} {members : List (Option String × Json)}

section Others

variable (h : Writes (.object members) text.toList)
  (hsound : Json.isSound (.object members) = true)
  (hfirst : NoneSoundBefore (before ++ text ++ after) before.toList.length)

include hsound

theorem not_any_isNone : ¬members.any (·.1.isNone) = true := by
  rw [Json.isSound, Json.soundTo, Bool.and_eq_true] at hsound
  rw [List.any_eq_true]
  rintro ⟨m, hm, hnone⟩
  have hsome := (Json.soundMembers_iff.1 hsound.2 m hm).1
  rw [Option.isNone_iff_eq_none.1 hnone] at hsome
  cases hsome

include h hfirst

theorem EmbeddedCluster.ofOutput_of_other (hfiles : Json.valuesOf "files" members = []) :
    EmbeddedCluster.ofOutput (before ++ text ++ after) = .ok [] := by
  have hfields : Json.fields ["files"] (.object members) = .ok [none] := by
    rw [Json.fields, if_neg (not_any_isNone hsound)]
    exact mapM_cons_eq_ok.2 ⟨none, [], by rw [hfiles], rfl, rfl⟩
  have hread : Report.ofJson (.object members) = .ok [] := bind_eq_ok.2 ⟨_, hfields, rfl⟩
  unfold EmbeddedCluster.ofOutput
  rw [not_allBlank_of_writes h, if_neg Bool.false_ne_true,
    ofSoundSpan_of_writes h hread hsound hfirst]
  rfl

theorem Kots.ofOutput_of_other (hexpressions : Json.valuesOf "lintExpressions" members = [])
    (hcomplete : Json.valuesOf "isLintingComplete" members = []) :
    Kots.ofOutput (before ++ text ++ after) = .ok [] := by
  have hfields : Json.fields ["lintExpressions", "isLintingComplete"] (.object members) =
      .ok [none, none] := by
    rw [Json.fields, if_neg (not_any_isNone hsound)]
    exact mapM_cons_eq_ok.2 ⟨none, [none], by rw [hexpressions],
      mapM_cons_eq_ok.2 ⟨none, [], by rw [hcomplete], rfl, rfl⟩, rfl⟩
  have hread : Report.ofJson (.object members) = .ok [] := bind_eq_ok.2 ⟨_, hfields, rfl⟩
  unfold Kots.ofOutput
  rw [not_allBlank_of_writes h, if_neg Bool.false_ne_true,
    ofSoundSpan_of_writes h hread hsound hfirst]
  rfl

end Others

/-- **An object without the keys of a report is taken for a report without findings,** if it is
the first one that is sound, and whatever stands behind it. -/
theorem ofOutput_of_other_object (h : Writes (.object members) text.toList)
    (hsound : Json.isSound (.object members) = true)
    (hfirst : NoneSoundBefore (before ++ text ++ after) before.toList.length) :
    (Json.valuesOf "files" members = [] →
      ofOutput .embeddedCluster (before ++ text ++ after) = .ok []) ∧
    (Json.valuesOf "lintExpressions" members = [] → Json.valuesOf "isLintingComplete" members = [] →
      ofOutput .kots (before ++ text ++ after) = .ok []) :=
  ⟨EmbeddedCluster.ofOutput_of_other h hsound hfirst, Kots.ofOutput_of_other h hsound hfirst⟩

/-- An object of a log. -/
def logSample : Json :=
  .record [("level", .text "info")]

/-- What stands behind an object of a log is not read. -/
theorem ofOutput_of_logSample :
    ofOutput .embeddedCluster
        ("Linting...\n" ++ Json.pretty logSample ++ Json.pretty EmbeddedCluster.sample) = .ok [] ∧
    ofOutput .kots ("Linting...\n" ++ Json.pretty logSample ++ Json.pretty Kots.sample) =
      .ok [] := by
  have hwrites : Writes logSample (Json.pretty logSample).toList := Json.writes_pretty (by decide)
  have hfirst : ∀ after, NoneSoundBefore ("Linting...\n" ++ Json.pretty logSample ++ after)
      "Linting...\n".toList.length := by
    intro after
    rw [String.append_assoc]
    exact noneSoundBefore_of_not_mem (by decide)
  exact ⟨(ofOutput_of_other_object hwrites (by decide) (hfirst _)).1 rfl,
    (ofOutput_of_other_object hwrites (by decide) (hfirst _)).2 rfl rfl⟩

/-- Whether an output of a tool is refused, or shown as these findings. -/
def IsRefusedOr (findings : List Finding) (tool : Tool) (output : String) : Prop :=
  (∃ fault, ofOutput tool output = .error fault) ∨ ofOutput tool output = .ok findings

theorem not_isRefusedOr {findings : List Finding} {tool : Tool} {output : String}
    (h : ofOutput tool output = .ok []) (hne : findings ≠ []) :
    ¬IsRefusedOr findings tool output := by
  rintro (⟨fault, hfault⟩ | hok)
  · rw [h] at hfault
    cases hfault
  · rw [h] at hok
    exact hne (Except.ok.inj hok).symm

/-- A record of a message alone: an issue of a file, or an expression. -/
def issueSample : Json :=
  .record [("message", .text "m")]

/-- A report with one error. -/
def EmbeddedCluster.errorReport : Report :=
  [⟨"", false, [⟨"", "m"⟩], [], []⟩]

/-- A report with one finding. -/
def Kots.infoReport : Report :=
  [⟨"", "", "m", "", []⟩]

/-- A rendering of the report with an error. -/
def EmbeddedCluster.errorSample : Json :=
  .record [("files", .array [.record [("errors", .array [issueSample])]])]

/-- A rendering of the report with a finding. -/
def Kots.infoSample : Json :=
  .record [("lintExpressions", .array [issueSample])]

theorem EmbeddedCluster.renders_errorSample :
    Renders IsReport errorReport (Json.pretty errorSample) := by
  have hissue : IsIssue ⟨"", "m"⟩ issueSample :=
    ⟨none, some _, ⟨_, rfl, .refl _⟩, rfl, rfl⟩
  exact ⟨errorSample, ⟨some _, ⟨_, rfl, .refl _⟩, .inl ⟨_, rfl,
    .cons ⟨none, none, some _, none, none, ⟨_, rfl, .refl _⟩, rfl, rfl,
      .inl ⟨_, rfl, .cons hissue .nil⟩, rfl, rfl⟩ .nil⟩⟩, Json.writes_pretty (by decide)⟩

theorem Kots.renders_infoSample :
    Renders IsReport infoReport (Json.pretty infoSample) := by
  have hinfo : IsExpression ⟨"", "", "m", "", []⟩ issueSample :=
    ⟨none, none, some _, none, none, ⟨_, rfl, .refl _⟩, rfl, rfl, rfl, rfl, rfl⟩
  exact ⟨infoSample, ⟨some _, none, ⟨_, rfl, .refl _⟩, .inl ⟨_, rfl, .cons hinfo .nil⟩, false, rfl⟩,
    Json.writes_pretty (by decide)⟩

theorem noneSoundBefore_of_filterMap {output : String} {i : Nat}
    (h : (List.range i).filterMap (Json.spanAt output.toList) = []) : NoneSoundBefore output i := by
  intro k hk span hspan
  have hnone := List.filterMap_eq_nil_iff.1 h k (List.mem_range.2 hk)
  rw [hspan] at hnone
  cases hnone

/-- What is left of a rendering of `EmbeddedCluster.errorSample` that ends behind its issue. -/
def EmbeddedCluster.cutSample : String :=
  "\x7b\n  \"files\": [\n    \x7b\n      \"errors\": [\n        " ++
    String.ofList (Json.chars 4 issueSample)

/-- What is left of a rendering of `Kots.infoSample` that ends behind its expression. -/
def Kots.cutSample : String :=
  "\x7b\n  \"lintExpressions\": [\n    " ++ String.ofList (Json.chars 2 issueSample)

theorem writes_issueSample (level : Nat) :
    Writes issueSample (String.ofList (Json.chars level issueSample)).toList := by
  rw [String.toList_ofList]
  exact Json.writes_chars level issueSample (by decide)

theorem EmbeddedCluster.ofOutput_cutSample : ofOutput cutSample = .ok [] := by
  rw [← String.append_empty (s := cutSample)]
  refine ofOutput_of_other (writes_issueSample 4) (by decide) (noneSoundBefore_of_filterMap ?_) rfl
  decide +kernel

theorem Kots.ofOutput_cutSample : ofOutput cutSample = .ok [] := by
  rw [← String.append_empty (s := cutSample)]
  refine ofOutput_of_other (writes_issueSample 2) (by decide) (noneSoundBefore_of_filterMap ?_)
    rfl rfl
  decide +kernel

/-- **Findings are lost** behind an object of a log, and where a report is cut off behind an
object inside. -/
theorem findings_are_lost :
    (Renders EmbeddedCluster.IsReport EmbeddedCluster.errorReport
        (Json.pretty EmbeddedCluster.errorSample) ∧
      Text.contains (Json.pretty logSample) "files" = false ∧
      ¬IsRefusedOr (EmbeddedCluster.errorReport.flatMap EmbeddedCluster.File.shown) .embeddedCluster
        (Json.pretty logSample ++ Json.pretty EmbeddedCluster.errorSample) ∧
      EmbeddedCluster.cutSample ++ "\n      ]\n    \x7d\n  ]\n\x7d" =
        Json.pretty EmbeddedCluster.errorSample ∧
      ¬IsRefusedOr (EmbeddedCluster.errorReport.flatMap EmbeddedCluster.File.shown) .embeddedCluster
        EmbeddedCluster.cutSample) ∧
    (Renders Kots.IsReport Kots.infoReport (Json.pretty Kots.infoSample) ∧
      Text.contains (Json.pretty logSample) "lintExpressions" = false ∧
      ¬IsRefusedOr (Kots.infoReport.map Kots.Expression.shown) .kots
        (Json.pretty logSample ++ Json.pretty Kots.infoSample) ∧
      Kots.cutSample ++ "\n  ]\n\x7d" = Json.pretty Kots.infoSample ∧
      ¬IsRefusedOr (Kots.infoReport.map Kots.Expression.shown) .kots Kots.cutSample) := by
  have hwrites : Writes logSample (Json.pretty logSample).toList := Json.writes_pretty (by decide)
  have hfirst : ∀ after, NoneSoundBefore ("" ++ Json.pretty logSample ++ after) "".toList.length :=
    fun after k hk => absurd hk (Nat.not_lt_zero k)
  have hcluster := EmbeddedCluster.ofOutput_of_other hwrites (by decide)
    (hfirst (Json.pretty EmbeddedCluster.errorSample)) rfl
  have hkots := Kots.ofOutput_of_other hwrites (by decide)
    (hfirst (Json.pretty Kots.infoSample)) rfl rfl
  rw [String.empty_append] at hcluster hkots
  exact ⟨⟨EmbeddedCluster.renders_errorSample, by decide +kernel,
      not_isRefusedOr hcluster (by decide), by decide +kernel,
      not_isRefusedOr EmbeddedCluster.ofOutput_cutSample (by decide)⟩,
    ⟨Kots.renders_infoSample, by decide +kernel, not_isRefusedOr hkots (by decide),
      by decide +kernel, not_isRefusedOr Kots.ofOutput_cutSample (by decide)⟩⟩

end Finding
end ReleaseLint
