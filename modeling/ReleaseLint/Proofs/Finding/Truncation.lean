/-
# Reports that are cut off

A report of `preflight` or `support-bundle` that is cut off is refused
(`ofOutput_of_truncated`), whatever texts it holds: none of its braces begins a report, be it
one of an issue, of a file, or one inside of a text.

| brace | what it begins |
| --- | --- |
| the first | nothing that is closed |
| of a file or an issue | a record without results |
| inside of a text | nothing, or the empty object |

The other two tools may accept a report that is cut off: to them, an object without the key of
their report is one without findings.
-/

import ReleaseLint.Proofs.Finding.Rendering
import ReleaseLint.Proofs.Json.Truncation

namespace ReleaseLint
namespace Finding

open Json (IsText IsCount IsBucket Lacks IsBarren IsBarrenItem IsBarrenField
  IsBarrenMember)

/-- There is no report if no span has its shape. -/
theorem firstReport_eq_error {α : Type} {read : Json → Except Json.Fault α} {spans : List String}
    (h : ∀ span ∈ spans, ∃ m, Json.decode read span = .error m) (last : Option Json.Misfit) :
    ∃ fault, firstReport read last spans = .error fault := by
  induction spans generalizing last with
  | nil => exact ⟨_, rfl⟩
  | cons span spans ih =>
    obtain ⟨⟨m, hm⟩, hspans⟩ := List.forall_mem_cons.1 h
    obtain ⟨fault, hfault⟩ := ih hspans (some m)
    exact ⟨fault, by rw [firstReport, hm]; exact hfault⟩

namespace Troubleshoot

variable {j : Json}

theorem IsIssue.barren {i : Issue} (h : IsIssue i j) : IsBarrenItem "results" j := by
  obtain ⟨line, column, message, field, hrecord, hline, hcolumn, hmessage, hfield⟩ := h
  refine hrecord.barren ?_ (by simp)
  simp only [List.forall_mem_cons]
  exact ⟨hline.barren ⟨by decide, by simp [Json.isSpace]⟩ fun _ _ => IsCount.barren,
    hcolumn.barren ⟨by decide, by simp [Json.isSpace]⟩ fun _ _ => IsCount.barren,
    hmessage.barren ⟨by decide, by simp [Json.isSpace]⟩ fun _ _ => IsText.barren,
    hfield.barren ⟨by decide, by simp [Json.isSpace]⟩ fun _ _ => IsText.barren,
    fun _ h => absurd h List.not_mem_nil⟩

theorem IsFile.barren {f : File} (h : IsFile f j) : IsBarrenItem "results" j := by
  obtain ⟨path, errors, warnings, infos, hrecord, hpath, herrors, hwarnings, hinfos⟩ := h
  have hbucket : ∀ (issues : List Issue) v, IsBucket IsIssue issues v → IsBarren "results" v :=
    fun _ _ h => (h.barren fun _ _ => IsIssue.barren).toIsBarren
  refine hrecord.barren ?_ (by simp)
  simp only [List.forall_mem_cons]
  exact ⟨hpath.barren ⟨by decide, by simp [Json.isSpace]⟩ fun _ _ => IsText.barren,
    herrors.barren ⟨by decide, by simp [Json.isSpace]⟩ hbucket, hwarnings.barren ⟨by decide, by simp [Json.isSpace]⟩ hbucket,
    hinfos.barren ⟨by decide, by simp [Json.isSpace]⟩ hbucket, fun _ h => absurd h List.not_mem_nil⟩

/-- A report is an object whose members hold no report. -/
theorem IsReport.exists_members {r : Report} (h : IsReport r j) :
    ∃ members, j = .object members ∧ ∀ m ∈ members, IsBarrenMember "results" m := by
  obtain ⟨results, hrecord, hresults⟩ := h
  have hfield : IsBarrenField "results" ("results", some results) := by
    refine ⟨⟨by simp, by simp [Json.isSpace]⟩, fun v hv => ?_⟩
    obtain rfl := Option.mem_some_iff.1 hv
    exact (hresults.barren fun _ _ => IsFile.barren).toIsBarren
  obtain ⟨members, rfl, -, hmembers⟩ :=
    hrecord.exists_members (List.forall_mem_singleton.2 hfield)
  exact ⟨members, rfl, hmembers⟩

/-- An object without results is no report. -/
theorem Report.ofJson_of_lacks (h : Lacks "results" j) :
    ∃ fault, Report.ofJson j = .error fault := by
  obtain ⟨members, rfl, hkey⟩ := h
  by_cases hnone : members.any (·.1.isNone) = true
  · have hfields : Json.fields ["results"] (.object members) = .error .syntaxError := by
      rw [Json.fields, if_pos hnone]
    exact ⟨.syntaxError, by unfold Report.ofJson; rw [hfields]; rfl⟩
  · have hfields : Json.fields ["results"] (.object members) = .ok [none] := by
      rw [Json.fields, if_neg hnone]
      exact mapM_cons_eq_ok.2 ⟨none, [], by rw [hkey], rfl, rfl⟩
    exact ⟨.missing "results", by unfold Report.ofJson; rw [hfields]; rfl⟩

end Troubleshoot

/-- **A report that is cut off is refused,** whatever it holds, and whatever stands in front of
it, if that has no brace. -/
theorem ofOutput_of_truncated {r : Troubleshoot.Report} {before text cut : String}
    (hbefore : '\x7b' ∉ before.toList) (hreport : Renders Troubleshoot.IsReport r text)
    (hcut : cut.toList <+: text.toList) (hproper : cut ≠ text) :
    ∀ tool ∈ [Tool.preflight, Tool.supportBundle],
      ∃ fault, ofOutput tool (before ++ cut) = .error fault := by
  obtain ⟨j, hj, hwrites⟩ := hreport
  obtain ⟨members, rfl, hmembers⟩ := hj.exists_members
  have hspans : ∀ span ∈ Json.spans (before ++ cut),
      ∃ m, Json.decode Troubleshoot.Report.ofJson span = .error m := by
    intro span hspan
    rw [Json.spans_eq_map] at hspan
    obtain ⟨c, hc, rfl⟩ := List.mem_map.1 hspan
    obtain ⟨i, -, hat⟩ := List.mem_filterMap.1 hc
    rw [String.toList_append] at hat
    unfold Json.decode Json.ofText?
    rw [String.toList_ofList]
    cases hread : Json.ofChars? c with
    | none => exact ⟨_, rfl⟩
    | some j =>
      have hlacks := Json.lacks_of_truncated hmembers hbefore hwrites hcut
        (fun h => hproper (String.toList_inj.1 h)) hat hread
      obtain ⟨fault, hfault⟩ := Troubleshoot.Report.ofJson_of_lacks hlacks
      exact ⟨_, by rw [Option.elim_some, hfault]⟩
  have hrefused : ∃ fault, Troubleshoot.ofOutput (before ++ cut) = .error fault := by
    obtain ⟨fault, hfault⟩ := firstReport_eq_error hspans none
    refine ⟨fault, ?_⟩
    unfold Troubleshoot.ofOutput ofAnySpan
    rw [hfault]
  intro tool htool
  simp only [List.mem_cons, List.not_mem_nil, or_false] at htool
  rcases htool with rfl | rfl
  · exact hrefused
  · exact hrefused

/-- A report with an error whose message looks like a report. -/
def Troubleshoot.quotingSample : Json :=
  .record [("results", .array [.record [("filePath", .text "a\x7b "),
    ("errors", .array [.record [("message", .text "\x7b\"results\": []\x7d")]])]])]

theorem Troubleshoot.renders_quotingSample :
    Renders IsReport [⟨"a\x7b ", [⟨0, 0, "\x7b\"results\": []\x7d", ""⟩], [], []⟩]
      (Json.pretty quotingSample) := by
  have herror : IsIssue ⟨0, 0, "\x7b\"results\": []\x7d", ""⟩
      (.record [("message", .text "\x7b\"results\": []\x7d")]) :=
    ⟨none, none, some _, none, ⟨_, rfl, .refl _⟩, rfl, rfl, rfl, rfl⟩
  exact ⟨quotingSample, ⟨_, ⟨_, rfl, .refl _⟩, _, rfl,
    .cons ⟨some _, some _, none, none, ⟨_, rfl, .refl _⟩, rfl, .inl ⟨_, rfl, .cons herror .nil⟩,
      rfl, rfl⟩ .nil⟩, Json.writes_pretty (by decide)⟩

/-- The report without its last brace. -/
theorem ofOutput_of_truncated_quotingSample :
    ∃ fault, ofOutput .preflight ("Linting...\n" ++
      String.ofList (Json.pretty Troubleshoot.quotingSample).toList.dropLast) = .error fault := by
  refine ofOutput_of_truncated (by decide) Troubleshoot.renders_quotingSample ?_ ?_ _ (by decide)
  · rw [String.toList_ofList]
    exact List.dropLast_prefix _
  · decide +kernel

end Finding
end ReleaseLint
