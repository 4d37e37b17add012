/-
# Reports that are rendered in full

Every rendering of a report is found in the output that it is part of, and shown issue by
issue (`ofOutput_of_rendering`): as long as no brace stands in front of it, nothing is lost,
repeated, moved or given another severity.

    report := results: [file]                                     preflight, support-bundle
            | files: [file], or null or left out if empty         embedded-cluster
            | lintExpressions: [expression], the same way         kots

| shown of an issue | if |
| --- | --- |
| `line N: ` | the line is positive |
| ` (field: F)`, `F: ` | the field is not empty |
| `[R] ` | the rule is not empty |

A rendering chooses the order of the fields, white space and escapes, leaves out fields at
their defaults or does not, and writes an empty bucket as an array, as null or not at all.
-/

import ReleaseLint.Finding.Output
import ReleaseLint.Proofs.Finding.Extraction
import ReleaseLint.Proofs.Json.Printing
import ReleaseLint.Proofs.Json.Records

namespace ReleaseLint
namespace Finding

open Json (IsText IsBool IsCount IsInteger IsList IsBucket IsField IsRecord IsReadBy Writes
  isText_isReadBy isBool_isReadBy isCount_isReadBy isInteger_isReadBy isList_isReadBy
  isBucket_isReadBy)

variable {d : Nat} {before text : String}

/-- Whether a text writes one of the values that render a report. -/
def Renders {α : Type} (IsReport : α → Json → Prop) (r : α) (text : String) : Prop :=
  ∃ j, IsReport r j ∧ Writes j text.toList

theorem toString_text (s : String) : toString s = s := rfl

/-- What is shown of a line in front of a message. -/
def linePrefix (line : Int) : String :=
  if 0 < line then s!"line {line}: " else ""

theorem linePrefix_natCast (n : Nat) :
    linePrefix n = if n = 0 then "" else s!"line {n}: " := by
  unfold linePrefix
  by_cases h : n = 0
  · rw [if_pos h, if_neg (by omega)]
  · rw [if_neg h, if_pos (by omega)]
    rfl

/-- What is shown of the issues of a file in three buckets. -/
def shownBuckets {α : Type} (path : String) (shown : α → String) (errors warnings infos : List α) :
    List Finding :=
  errors.map (⟨.error, path, shown ·⟩) ++ warnings.map (⟨.warning, path, shown ·⟩) ++
    infos.map (⟨.info, path, shown ·⟩)

/-! ### Preflights and support bundles -/

namespace Troubleshoot

/-- Whether a value renders an issue. -/
def IsIssue (i : Issue) (j : Json) : Prop :=
  ∃ line column message field,
    IsRecord [("line", line), ("column", column), ("message", message), ("field", field)] j ∧
    IsField IsCount 0 i.line line ∧ IsField IsCount 0 i.column column ∧
    IsField IsText "" i.message message ∧ IsField IsText "" i.field field

/-- Whether a value renders the issues of a file. -/
def IsFile (f : File) (j : Json) : Prop :=
  ∃ path errors warnings infos,
    IsRecord [("filePath", path), ("errors", errors), ("warnings", warnings), ("infos", infos)] j ∧
    IsField IsText "" f.path path ∧ IsField (IsBucket IsIssue) [] f.errors errors ∧
    IsField (IsBucket IsIssue) [] f.warnings warnings ∧
    IsField (IsBucket IsIssue) [] f.infos infos

/-- Whether a value renders a report. -/
def IsReport (r : Report) (j : Json) : Prop :=
  ∃ results, IsRecord [("results", some results)] j ∧ IsList IsFile r results

/-- What is shown of an issue. -/
def Issue.shown (i : Issue) : String :=
  linePrefix i.line ++ i.message ++ if i.field = "" then "" else s!" (field: {i.field})"

/-- What is shown of a file. -/
def File.shown (f : File) : List Finding :=
  shownBuckets f.path Issue.shown f.errors f.warnings f.infos

theorem isIssue_isReadBy (d : Nat) : IsReadBy Issue.ofJson (d + 1) IsIssue := by
  rintro i j ⟨line, column, message, field, hrecord, hline, hcolumn, hmessage, hfield⟩
  obtain ⟨hline, hline'⟩ := (isCount_isReadBy d).field hline
  obtain ⟨hcolumn, hcolumn'⟩ := (isCount_isReadBy d).field hcolumn
  obtain ⟨hmessage, hmessage'⟩ := (isText_isReadBy d).field hmessage
  obtain ⟨hfield, hfield'⟩ := (isText_isReadBy d).field hfield
  refine ⟨?_, hrecord.sound ?_⟩
  · have hfields : Json.fields ["line", "column", "message", "field"] j =
        .ok [line, column, message, field] := hrecord.fields_eq (by decide) rfl
    exact bind_eq_ok.2 ⟨_, hfields, bind_eq_ok.2 ⟨_, hline, bind_eq_ok.2 ⟨_, hcolumn,
      bind_eq_ok.2 ⟨_, hmessage, bind_eq_ok.2 ⟨_, hfield, rfl⟩⟩⟩⟩⟩
  · simp only [List.forall_mem_cons]
    exact ⟨hline', hcolumn', hmessage', hfield', fun _ h => absurd h List.not_mem_nil⟩

theorem isFile_isReadBy (d : Nat) : IsReadBy File.ofJson (d + 3) IsFile := by
  rintro f j ⟨path, errors, warnings, infos, hrecord, hpath, herrors, hwarnings, hinfos⟩
  have hbucket := isBucket_isReadBy (isIssue_isReadBy d)
  obtain ⟨hpath, hpath'⟩ := (isText_isReadBy (d + 2)).field hpath
  obtain ⟨herrors, herrors'⟩ := hbucket.field herrors
  obtain ⟨hwarnings, hwarnings'⟩ := hbucket.field hwarnings
  obtain ⟨hinfos, hinfos'⟩ := hbucket.field hinfos
  refine ⟨?_, hrecord.sound ?_⟩
  · have hfields : Json.fields ["filePath", "errors", "warnings", "infos"] j =
        .ok [path, errors, warnings, infos] := hrecord.fields_eq (by decide) rfl
    exact bind_eq_ok.2 ⟨_, hfields, bind_eq_ok.2 ⟨_, hpath, bind_eq_ok.2 ⟨_, herrors,
      bind_eq_ok.2 ⟨_, hwarnings, bind_eq_ok.2 ⟨_, hinfos, rfl⟩⟩⟩⟩⟩
  · simp only [List.forall_mem_cons]
    exact ⟨hpath', herrors', hwarnings', hinfos', fun _ h => absurd h List.not_mem_nil⟩

theorem isReport_isReadBy (d : Nat) : IsReadBy Report.ofJson (d + 5) IsReport := by
  rintro r j ⟨results, hrecord, hresults⟩
  obtain ⟨hread, hsound⟩ := isList_isReadBy (isFile_isReadBy d) r results hresults
  refine ⟨?_, hrecord.sound ?_⟩
  · have hfields : Json.fields ["results"] j = .ok [some results] :=
      hrecord.fields_eq (by decide) rfl
    exact bind_eq_ok.2 ⟨_, hfields, hread⟩
  · rw [List.forall_mem_singleton]
    exact fun v hv => Option.mem_some_iff.1 hv ▸ hsound

theorem Issue.text_eq (i : Issue) : i.text = i.shown := by
  unfold Issue.text Issue.shown
  rw [linePrefix_natCast]
  split_ifs <;> simp [toString_text, String.append_assoc]

theorem File.findings_eq (f : File) : f.findings = f.shown := by
  unfold File.findings File.shown
  rw [funext Issue.text_eq]
  rfl

end Troubleshoot

/-! ### Embedded clusters -/

namespace EmbeddedCluster

/-- Whether a value renders an issue. -/
def IsIssue (i : Issue) (j : Json) : Prop :=
  ∃ field message, IsRecord [("field", field), ("message", message)] j ∧
    IsField IsText "" i.field field ∧ IsField IsText "" i.message message

/-- Whether a value renders the issues of a file. -/
def IsFile (f : File) (j : Json) : Prop :=
  ∃ path valid errors warnings infos,
    IsRecord [("path", path), ("valid", valid), ("errors", errors), ("warnings", warnings),
      ("infos", infos)] j ∧
    IsField IsText "" f.path path ∧ IsField IsBool false f.valid valid ∧
    IsField (IsBucket IsIssue) [] f.errors errors ∧
    IsField (IsBucket IsIssue) [] f.warnings warnings ∧
    IsField (IsBucket IsIssue) [] f.infos infos

/-- Whether a value renders a report. -/
def IsReport (r : Report) (j : Json) : Prop :=
  ∃ files, IsRecord [("files", files)] j ∧ IsField (IsBucket IsFile) [] r files

/-- What is shown of an issue. -/
def Issue.shown (i : Issue) : String :=
  (if i.field = "" then "" else s!"{i.field}: ") ++ i.message

/-- What is shown of a file. -/
def File.shown (f : File) : List Finding :=
  shownBuckets f.path Issue.shown f.errors f.warnings f.infos

theorem isIssue_isReadBy (d : Nat) : IsReadBy Issue.ofJson (d + 1) IsIssue := by
  rintro i j ⟨field, message, hrecord, hfield, hmessage⟩
  obtain ⟨hfield, hfield'⟩ := (isText_isReadBy d).field hfield
  obtain ⟨hmessage, hmessage'⟩ := (isText_isReadBy d).field hmessage
  refine ⟨?_, hrecord.sound ?_⟩
  · have hfields : Json.fields ["field", "message"] j = .ok [field, message] :=
      hrecord.fields_eq (by decide) rfl
    exact bind_eq_ok.2 ⟨_, hfields, bind_eq_ok.2 ⟨_, hfield, bind_eq_ok.2 ⟨_, hmessage, rfl⟩⟩⟩
  · simp only [List.forall_mem_cons]
    exact ⟨hfield', hmessage', fun _ h => absurd h List.not_mem_nil⟩

theorem isFile_isReadBy (d : Nat) : IsReadBy File.ofJson (d + 3) IsFile := by
  rintro f j ⟨path, valid, errors, warnings, infos, hrecord, hpath, hvalid, herrors, hwarnings,
    hinfos⟩
  have hbucket := isBucket_isReadBy (isIssue_isReadBy d)
  obtain ⟨hpath, hpath'⟩ := (isText_isReadBy (d + 2)).field hpath
  obtain ⟨hvalid, hvalid'⟩ := (isBool_isReadBy (d + 2)).field hvalid
  obtain ⟨herrors, herrors'⟩ := hbucket.field herrors
  obtain ⟨hwarnings, hwarnings'⟩ := hbucket.field hwarnings
  obtain ⟨hinfos, hinfos'⟩ := hbucket.field hinfos
  refine ⟨?_, hrecord.sound ?_⟩
  · have hfields : Json.fields ["path", "valid", "errors", "warnings", "infos"] j =
        .ok [path, valid, errors, warnings, infos] := hrecord.fields_eq (by decide) rfl
    exact bind_eq_ok.2 ⟨_, hfields, bind_eq_ok.2 ⟨_, hpath, bind_eq_ok.2 ⟨_, hvalid,
      bind_eq_ok.2 ⟨_, herrors, bind_eq_ok.2 ⟨_, hwarnings, bind_eq_ok.2 ⟨_, hinfos, rfl⟩⟩⟩⟩⟩⟩
  · simp only [List.forall_mem_cons]
    exact ⟨hpath', hvalid', herrors', hwarnings', hinfos', fun _ h => absurd h List.not_mem_nil⟩

theorem isReport_isReadBy (d : Nat) : IsReadBy Report.ofJson (d + 5) IsReport := by
  rintro r j ⟨files, hrecord, hfiles⟩
  obtain ⟨hread, hsound⟩ := (isBucket_isReadBy (isFile_isReadBy d)).field hfiles
  refine ⟨?_, hrecord.sound (List.forall_mem_singleton.2 hsound)⟩
  have hfields : Json.fields ["files"] j = .ok [files] := hrecord.fields_eq (by decide) rfl
  exact bind_eq_ok.2 ⟨_, hfields, hread⟩

theorem Issue.text_eq (i : Issue) : i.text = i.shown := by
  unfold Issue.text Issue.shown
  split_ifs <;> simp [toString_text, String.append_assoc]

theorem File.findings_eq (f : File) : f.findings = f.shown := by
  unfold File.findings File.shown
  rw [funext Issue.text_eq]
  rfl

end EmbeddedCluster

/-! ### Applications -/

namespace Kots

/-- Whether a value renders the start of a position, its line. -/
def IsStart (line : Int) (j : Json) : Prop :=
  ∃ written, IsRecord [("line", written)] j ∧ IsField IsInteger 0 line written

/-- Whether a value renders a position by its line. -/
def IsPosition (line : Int) (j : Json) : Prop :=
  ∃ start, IsRecord [("start", start)] j ∧ IsField IsStart 0 line start

/-- Whether a value renders an expression. -/
def IsExpression (e : Expression) (j : Json) : Prop :=
  ∃ rule type message path positions,
    IsRecord [("rule", rule), ("type", type), ("message", message), ("path", path),
      ("positions", positions)] j ∧
    IsField IsText "" e.rule rule ∧ IsField IsText "" e.type type ∧
    IsField IsText "" e.message message ∧ IsField IsText "" e.path path ∧
    IsField (IsBucket IsPosition) [] e.lines positions

/-- Whether a value renders a report, of linting that is complete or not. -/
def IsReport (r : Report) (j : Json) : Prop :=
  ∃ expressions complete,
    IsRecord [("lintExpressions", expressions), ("isLintingComplete", complete)] j ∧
    IsField (IsBucket IsExpression) [] r expressions ∧
    ∃ isComplete, IsField IsBool false isComplete complete

/-- The severity that is shown of a type. -/
def shownSeverity (type : String) : Severity :=
  if Text.eqIgnoringCase type "error" then .error
  else if Text.eqIgnoringCase type "warn" then .warning
  else .info

/-- What is shown of an expression. -/
def Expression.shown (e : Expression) : Finding where
  severity := shownSeverity e.type
  path := e.path
  message := (if e.rule = "" then "" else s!"[{e.rule}] ") ++ linePrefix (e.lines.headD 0) ++ e.message

theorem isStart_isReadBy (d : Nat) : IsReadBy lineOfStart (d + 1) IsStart := by
  rintro line j ⟨written, hrecord, hline⟩
  obtain ⟨hread, hsound⟩ := (isInteger_isReadBy d).field hline
  refine ⟨?_, hrecord.sound (List.forall_mem_singleton.2 hsound)⟩
  have hfields : Json.fields ["line"] j = .ok [written] := hrecord.fields_eq (by decide) rfl
  exact bind_eq_ok.2 ⟨_, hfields, hread⟩

theorem isPosition_isReadBy (d : Nat) : IsReadBy lineOfPosition (d + 2) IsPosition := by
  rintro line j ⟨start, hrecord, hstart⟩
  obtain ⟨hread, hsound⟩ := (isStart_isReadBy d).field hstart
  refine ⟨?_, hrecord.sound (List.forall_mem_singleton.2 hsound)⟩
  have hfields : Json.fields ["start"] j = .ok [start] := hrecord.fields_eq (by decide) rfl
  exact bind_eq_ok.2 ⟨_, hfields, hread⟩

theorem isExpression_isReadBy (d : Nat) : IsReadBy Expression.ofJson (d + 4) IsExpression := by
  rintro e j ⟨rule, type, message, path, positions, hrecord, hrule, htype, hmessage, hpath,
    hlines⟩
  obtain ⟨hrule, hrule'⟩ := (isText_isReadBy (d + 3)).field hrule
  obtain ⟨htype, htype'⟩ := (isText_isReadBy (d + 3)).field htype
  obtain ⟨hmessage, hmessage'⟩ := (isText_isReadBy (d + 3)).field hmessage
  obtain ⟨hpath, hpath'⟩ := (isText_isReadBy (d + 3)).field hpath
  obtain ⟨hlines, hlines'⟩ := (isBucket_isReadBy (isPosition_isReadBy d)).field hlines
  refine ⟨?_, hrecord.sound ?_⟩
  · have hfields : Json.fields ["rule", "type", "message", "path", "positions"] j =
        .ok [rule, type, message, path, positions] := hrecord.fields_eq (by decide) rfl
    exact bind_eq_ok.2 ⟨_, hfields, bind_eq_ok.2 ⟨_, hrule, bind_eq_ok.2 ⟨_, htype,
      bind_eq_ok.2 ⟨_, hmessage, bind_eq_ok.2 ⟨_, hpath, bind_eq_ok.2 ⟨_, hlines, rfl⟩⟩⟩⟩⟩⟩
  · simp only [List.forall_mem_cons]
    exact ⟨hrule', htype', hmessage', hpath', hlines', fun _ h => absurd h List.not_mem_nil⟩

theorem isReport_isReadBy (d : Nat) : IsReadBy Report.ofJson (d + 6) IsReport := by
  rintro r j ⟨expressions, complete, hrecord, hexpressions, isComplete, hcomplete⟩
  obtain ⟨hread, hsound⟩ :=
    (isBucket_isReadBy (isExpression_isReadBy d)).field hexpressions
  obtain ⟨hbool, hsound'⟩ := (isBool_isReadBy (d + 5)).field hcomplete
  refine ⟨?_, hrecord.sound ?_⟩
  · have hfields : Json.fields ["lintExpressions", "isLintingComplete"] j =
        .ok [expressions, complete] := hrecord.fields_eq (by decide) rfl
    exact bind_eq_ok.2 ⟨_, hfields, bind_eq_ok.2 ⟨_, hread, bind_eq_ok.2 ⟨_, hbool, rfl⟩⟩⟩
  · simp only [List.forall_mem_cons]
    exact ⟨hsound, hsound', fun _ h => absurd h List.not_mem_nil⟩

theorem severityOf_eq (type : String) : severityOf type = shownSeverity type := by
  unfold severityOf shownSeverity Text.eqIgnoringCase
  simp [show Text.asciiLowercase "error" = "error" by decide,
    show Text.asciiLowercase "warn" = "warn" by decide]

theorem Expression.text_eq (e : Expression) : e.text = e.shown.message := by
  obtain ⟨rule, type, message, path, lines⟩ := e
  unfold Expression.shown Expression.text linePrefix
  cases lines with
  | nil =>
    simp only [List.head?_nil, List.headD_nil]
    split_ifs <;> simp [toString_text]
  | cons line lines =>
    by_cases hline : 0 < line <;> by_cases hrule : rule = "" <;>
      simp [hline, hrule, toString_text, String.append_assoc]

theorem Expression.finding_eq (e : Expression) : e.finding = e.shown := by
  unfold Expression.finding
  rw [severityOf_eq, e.text_eq]
  rfl

end Kots

/-! ### Outputs -/

section Outputs

variable {members : List (Option String × Json)} {after : String} {α : Type}
  {read : Json → Except Json.Fault α} {a : α}

theorem spanAt_of_writes (h : Writes (.object members) text.toList) (before after : String) :
    Json.spanAt (before ++ text ++ after).toList before.toList.length = some text.toList := by
  have hread : Json.ofChars? text.toList = some (.object members) := Json.ofText?_of_writes h
  rw [String.toList_append, String.toList_append]
  refine Json.spanAt_of_object ?_ ?_ hread before.toList after.toList
  · generalize text.toList = t at h
    cases h
    rfl
  · generalize text.toList = t at h
    cases h
    exact List.getLast?_concat

theorem decode_of_writes {j : Json} (h : Writes j text.toList) (hread : read j = .ok a) :
    Json.decode read text = .ok a := by
  unfold Json.decode
  rw [Json.ofText?_of_writes h, Option.elim_some, hread]

/-- The report of an output is read from a sound object that no other one stands in front of. -/
theorem ofSoundSpan_of_writes (h : Writes (.object members) text.toList)
    (hread : read (.object members) = .ok a) (hsound : Json.isSound (.object members) = true)
    (hfirst : NoneSoundBefore (before ++ text ++ after) before.toList.length) :
    ofSoundSpan read (before ++ text ++ after) = .ok a := by
  have hsoundText : isSoundText text = true := by
    unfold isSoundText
    rw [Json.ofText?_of_writes h, Option.map_some, hsound]
    rfl
  have hspan := soundSpan_eq_ok (spanAt_of_writes h before after) hsoundText hfirst
  exact bind_eq_ok.2 ⟨text, hspan, by rw [decode_of_writes h hread]⟩

/-- The report of an output is read from its first span. -/
theorem ofAnySpan_of_writes (hbefore : '\x7b' ∉ before.toList)
    (h : Writes (.object members) text.toList) (hread : read (.object members) = .ok a)
    (after : String) : ofAnySpan read (before ++ text ++ after) = .ok a := by
  have hearly : (List.range before.toList.length).filterMap
      (Json.spanAt (before ++ text ++ after).toList) = [] := by
    rw [List.filterMap_eq_nil_iff]
    intro k hk
    unfold Json.spanAt
    rw [if_neg]
    rw [String.append_assoc, String.toList_append, List.getElem?_append_left (List.mem_range.1 hk)]
    exact fun hbrace => hbefore (List.mem_of_getElem? hbrace)
  obtain ⟨later, hspans⟩ := Json.spans_eq_append (spanAt_of_writes h before after)
  rw [hearly, String.ofList_toList, List.map_nil, List.nil_append] at hspans
  unfold ofAnySpan
  rw [hspans, firstReport, decode_of_writes h hread]

theorem not_allBlank_of_writes (h : Writes (.object members) text.toList) (after : String) :
    Text.allBlank (before ++ text ++ after) = false := by
  have hbrace : '\x7b' ∈ (before ++ text ++ after).toList := by
    generalize ht : text.toList = t at h
    cases h
    simp [ht]
  unfold Text.allBlank
  rw [List.all_eq_false]
  exact ⟨_, hbrace, by decide⟩

end Outputs

/-- **Every rendering of a report is shown issue by issue.** -/
theorem ofOutput_of_rendering (hbefore : '\x7b' ∉ before.toList) (after : String) :
    (∀ tool ∈ [Tool.preflight, Tool.supportBundle], ∀ (r : Troubleshoot.Report) (text : String),
      Renders Troubleshoot.IsReport r text →
        ofOutput tool (before ++ text ++ after) = .ok (r.flatMap Troubleshoot.File.shown)) ∧
    (∀ (r : EmbeddedCluster.Report) (text : String), Renders EmbeddedCluster.IsReport r text →
      ofOutput .embeddedCluster (before ++ text ++ after) =
        .ok (r.flatMap EmbeddedCluster.File.shown)) ∧
    (∀ (r : Kots.Report) (text : String), Renders Kots.IsReport r text →
      ofOutput .kots (before ++ text ++ after) = .ok (r.map Kots.Expression.shown)) := by
  have hfirst : ∀ text, NoneSoundBefore (before ++ text ++ after) before.toList.length := by
    intro text
    rw [String.append_assoc]
    exact noneSoundBefore_of_not_mem hbefore
  refine ⟨?_, ?_, ?_⟩
  · rintro tool htool r text ⟨j, hreport, hwrites⟩
    obtain ⟨hread, -⟩ := Troubleshoot.isReport_isReadBy 0 r j hreport
    obtain ⟨_, ⟨members, rfl, -⟩, -⟩ := hreport
    have hfindings : Troubleshoot.ofOutput (before ++ text ++ after) =
        .ok (r.flatMap Troubleshoot.File.shown) := by
      unfold Troubleshoot.ofOutput
      rw [ofAnySpan_of_writes hbefore hwrites hread, funext Troubleshoot.File.findings_eq]
    simp only [List.mem_cons, List.not_mem_nil, or_false] at htool
    rcases htool with rfl | rfl
    · exact hfindings
    · exact hfindings
  · rintro r text ⟨j, hreport, hwrites⟩
    obtain ⟨hread, hsound⟩ := EmbeddedCluster.isReport_isReadBy 122 r j hreport
    obtain ⟨_, ⟨members, rfl, -⟩, -⟩ := hreport
    show EmbeddedCluster.ofOutput (before ++ text ++ after) = _
    unfold EmbeddedCluster.ofOutput
    rw [not_allBlank_of_writes hwrites, if_neg Bool.false_ne_true,
      ofSoundSpan_of_writes hwrites hread hsound (hfirst text),
      funext EmbeddedCluster.File.findings_eq]
  · rintro r text ⟨j, hreport, hwrites⟩
    obtain ⟨hread, hsound⟩ := Kots.isReport_isReadBy 121 r j hreport
    obtain ⟨_, _, ⟨members, rfl, -⟩, -⟩ := hreport
    show Kots.ofOutput (before ++ text ++ after) = _
    unfold Kots.ofOutput
    rw [not_allBlank_of_writes hwrites, if_neg Bool.false_ne_true,
      ofSoundSpan_of_writes hwrites hread hsound (hfirst text), funext Kots.Expression.finding_eq]

/-- A report with an error and an info; the bucket of warnings is null. -/
def Troubleshoot.sample : Json :=
  .record [("results", .array [.record [("filePath", .text "a.yaml"),
    ("errors", .array [.record [("line", .count 12), ("message", .text "\x7bbad\x7d"),
      ("field", .text "spec")]]),
    ("warnings", .null), ("infos", .array [.record [("message", .text "a \"note\"")]])]])]

theorem Troubleshoot.renders_sample :
    Renders IsReport [⟨"a.yaml", [⟨12, 0, "\x7bbad\x7d", "spec"⟩], [], [⟨0, 0, "a \"note\"", ""⟩]⟩]
      (Json.pretty sample) := by
  have herror : IsIssue ⟨12, 0, "\x7bbad\x7d", "spec"⟩ (.record [("line", .count 12),
      ("message", .text "\x7bbad\x7d"), ("field", .text "spec")]) :=
    ⟨some _, none, some _, some _, ⟨_, rfl, .refl _⟩, ⟨by decide, rfl⟩, rfl, rfl, rfl⟩
  have hinfo : IsIssue ⟨0, 0, "a \"note\"", ""⟩ (.record [("message", .text "a \"note\"")]) :=
    ⟨none, none, some _, none, ⟨_, rfl, .refl _⟩, rfl, rfl, rfl, rfl⟩
  exact ⟨sample, ⟨_, ⟨_, rfl, .refl _⟩, _, rfl,
    .cons ⟨some _, some _, some _, some _, ⟨_, rfl, .refl _⟩, rfl, .inl ⟨_, rfl, .cons herror .nil⟩,
      .inr ⟨rfl, rfl⟩, .inl ⟨_, rfl, .cons hinfo .nil⟩⟩ .nil⟩, Json.writes_pretty (by decide)⟩

/-- A report with a warning; the bucket of infos is an empty array, that of errors is left out. -/
def EmbeddedCluster.sample : Json :=
  .record [("files", .array [.record [("path", .text "ec.yaml"), ("valid", .bool true),
    ("warnings", .array [.record [("field", .text "version"), ("message", .text "is old")]]),
    ("infos", .array [])]])]

theorem EmbeddedCluster.renders_sample :
    Renders IsReport [⟨"ec.yaml", true, [], [⟨"version", "is old"⟩], []⟩] (Json.pretty sample) := by
  have hissue : IsIssue ⟨"version", "is old"⟩ (.record [("field", .text "version"),
      ("message", .text "is old")]) :=
    ⟨some _, some _, ⟨_, rfl, .refl _⟩, rfl, rfl⟩
  exact ⟨sample, ⟨some _, ⟨_, rfl, .refl _⟩, .inl ⟨_, rfl,
    .cons ⟨some _, some _, none, some _, some _, ⟨_, rfl, .refl _⟩, rfl, rfl, rfl,
      .inl ⟨_, rfl, .cons hissue .nil⟩, .inl ⟨_, rfl, .nil⟩⟩ .nil⟩⟩, Json.writes_pretty (by decide)⟩

/-- A report with a warning at a line and an expression of an unknown type. -/
def Kots.sample : Json :=
  .record [("isLintingComplete", .bool true), ("lintExpressions", .array [
    .record [("rule", .text "r"), ("type", .text "WARN"), ("message", .text "m"),
      ("path", .text "p"),
      ("positions", .array [.record [("start", .record [("line", .count 7)])]])],
    .record [("type", .text "odd"), ("message", .text "fyi"), ("positions", .null)]])]

theorem Kots.renders_sample :
    Renders IsReport [⟨"r", "WARN", "m", "p", [7]⟩, ⟨"", "odd", "fyi", "", []⟩] (Json.pretty sample) := by
  have hposition : IsPosition 7 (.record [("start", .record [("line", .count 7)])]) :=
    ⟨some _, ⟨_, rfl, .refl _⟩, some _, ⟨_, rfl, .refl _⟩, by decide, by decide, rfl⟩
  have hwarning : IsExpression ⟨"r", "WARN", "m", "p", [7]⟩ (.record [("rule", .text "r"),
      ("type", .text "WARN"), ("message", .text "m"), ("path", .text "p"),
      ("positions", .array [.record [("start", .record [("line", .count 7)])]])]) :=
    ⟨some _, some _, some _, some _, some _, ⟨_, rfl, .refl _⟩, rfl, rfl, rfl, rfl,
      .inl ⟨_, rfl, .cons hposition .nil⟩⟩
  have hinfo : IsExpression ⟨"", "odd", "fyi", "", []⟩ (.record [("type", .text "odd"),
      ("message", .text "fyi"), ("positions", .null)]) :=
    ⟨none, some _, some _, none, some _, ⟨_, rfl, .refl _⟩, rfl, rfl, rfl, rfl, .inr ⟨rfl, rfl⟩⟩
  exact ⟨sample, ⟨some _, some _, ⟨_, rfl, .swap _ _ _⟩, .inl ⟨_, rfl,
    .cons hwarning (.cons hinfo .nil)⟩, true, rfl⟩, Json.writes_pretty (by decide)⟩

/-- The three reports between other texts. -/
theorem ofOutput_of_rendering_samples :
    ofOutput .supportBundle ("Linting...\n" ++ Json.pretty Troubleshoot.sample ++ "\x7b\"") =
      .ok [⟨.error, "a.yaml", "line 12: \x7bbad\x7d (field: spec)"⟩,
        ⟨.info, "a.yaml", "a \"note\""⟩] ∧
    ofOutput .embeddedCluster
        ("Linting...\n" ++ Json.pretty EmbeddedCluster.sample ++ "\x7b\"") =
      .ok [⟨.warning, "ec.yaml", "version: is old"⟩] ∧
    ofOutput .kots ("Linting...\n" ++ Json.pretty Kots.sample ++ "\x7b\"") =
      .ok [⟨.warning, "p", "[r] line 7: m"⟩, ⟨.info, "", "fyi"⟩] := by
  obtain ⟨htroubleshoot, hcluster, hkots⟩ :=
    @ofOutput_of_rendering "Linting...\n" (by decide) "\x7b\""
  refine ⟨?_, ?_, ?_⟩
  · rw [htroubleshoot _ (by decide) _ _ Troubleshoot.renders_sample]
    exact congrArg Except.ok (by decide +kernel)
  · rw [hcluster _ _ EmbeddedCluster.renders_sample]
    exact congrArg Except.ok (by decide +kernel)
  · rw [hkots _ _ Kots.renders_sample]
    exact congrArg Except.ok (by decide +kernel)

end Finding
end ReleaseLint
