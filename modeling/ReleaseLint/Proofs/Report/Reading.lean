/-
# Reports for programs are read back

`Reader.document` reads what `Report.jsonText` writes, and knows nothing of it but the names of
the members.  It gives back the report itself (`decode_jsonText`), with what an object does not
keep put in order: the versions of tools by their names, and the sections in the order in which
linters run.

| of the report | in the document | if it is left out |
| --- | --- | --- |
| config file | `config_file` | there is none |
| path of a finding | `path` | it is empty |
| section of a tool | `helm_results` and the like | the tool has none |
| warnings | `warnings` | there are none |

Two reports with one text are therefore the same, up to these two orders.
-/

import ReleaseLint.Proofs.Json.Printing
import ReleaseLint.Proofs.Json.Records
import ReleaseLint.Report.Json
import Mathlib.Algebra.Order.BigOperators.Group.List
import Mathlib.Data.List.Nodup
import Mathlib.Data.List.Perm.Basic

namespace ReleaseLint

namespace Json

variable {n : Nat} {members : List (String × Json)} {items : List Json}

theorem isPlain_text (s : String) : isPlain (text s) = true := by
  rw [text, isPlain]
  rfl

theorem isPlain_bool (b : Bool) : isPlain (.bool b) = true := by
  rw [isPlain]

theorem isPlain_count (h : n < UInt64.size) : isPlain (count n) = true := by
  rw [count, isPlain, Number.isPlain, Bool.and_eq_true, decide_eq_true_iff]
  exact ⟨rfl, h⟩

theorem isPlain_array : isPlain (.array items) = true ↔ ∀ j ∈ items, isPlain j = true := by
  rw [isPlain]
  induction items with
  | nil => simp [arePlain]
  | cons item items ih => rw [arePlain, Bool.and_eq_true, ih, List.forall_mem_cons]

theorem isPlain_record : isPlain (record members) = true ↔ ∀ m ∈ members, isPlain m.2 = true := by
  rw [record, isPlain]
  induction members with
  | nil => simp [haveOnlyPlain]
  | cons m members ih =>
    rw [List.map_cons, haveOnlyPlain, Bool.and_eq_true, ih, List.forall_mem_cons, Option.isSome_some,
      Bool.true_and]

end Json

namespace Report

open Json (IsText IsBool IsCount IsList IsField IsRecord IsReadBy IsSoundField isText_isReadBy
  isBool_isReadBy isCount_isReadBy isList_isReadBy isPlain_text isPlain_bool isPlain_count
  isPlain_array isPlain_record)

/-! ### The reader -/

/-- A report and the totals beside it. -/
structure Document where
  report : Report
  summary : Summary
deriving DecidableEq, Repr

namespace Reader

variable {α : Type}

/-- A field that must be there. -/
def required (read : Json → Except Json.Fault α) (field : String) :
    Option Json → Except Json.Fault α
  | none => .error (.missing field)
  | some j => read j

/-- A value that may be missing. -/
def optional (read : Json → Except Json.Fault α) : Option Json → Except Json.Fault (Option α)
  | none => .ok none
  | some j => (read j).map some

/-- Read a severity. -/
def severity (j : Json) : Except Json.Fault Severity := do
  (Severity.ofTag? (← Json.asText j)).elim (.error (.unexpected "a severity")) .ok

/-- Read a finding. -/
def finding (j : Json) : Except Json.Fault Finding := do
  match ← Json.fields ["severity", "path", "message"] j with
  | [level, path, message] =>
    return {
      severity := ← required severity "severity" level
      path := ← Json.orDefault "" Json.asText path
      message := ← required Json.asText "message" message }
  | _ => .error (.unexpected "a finding")

/-- Read a tally. -/
def tally (j : Json) : Except Json.Fault Tally := do
  match ← Json.fields ["error_count", "warning_count", "info_count"] j with
  | [errors, warnings, infos] =>
    return {
      errors := ← required Json.asUnsigned "error_count" errors
      warnings := ← required Json.asUnsigned "warning_count" warnings
      infos := ← required Json.asUnsigned "info_count" infos }
  | _ => .error (.unexpected "a tally")

/-- Read a resource. -/
def resource (j : Json) : Except Json.Fault Resource := do
  match ← Json.fields ["path", "success", "messages", "summary"] j with
  | [path, success, messages, counts] =>
    return {
      path := ← required Json.asText "path" path
      success := ← required Json.asBool "success" success
      findings := ← required (Json.asList finding) "messages" messages
      tally := ← required tally "summary" counts }
  | _ => .error (.unexpected "a resource")

/-- Read the section of a tool. -/
def sectionOf (t : Tool) (j : Json) : Except Json.Fault Section := do
  match ← Json.fields ["enabled", resourcesKey t] j with
  | [enabled, resources] =>
    return {
      tool := t
      enabled := ← required Json.asBool "enabled" enabled
      resources := ← required (Json.asList resource) (resourcesKey t) resources }
  | _ => .error (.unexpected "a section")

/-- Read the versions of tools. -/
def versions : Json → Except Json.Fault Config.Versions
  | .object members =>
    members.mapM fun m => do
      match m.1 with
      | some name => return (name, ← Json.asText m.2)
      | none => .error .syntaxError
  | _ => .error (.unexpected "a map")

/-- Read what is said about the run itself. -/
def metadata (j : Json) : Except Json.Fault Metadata := do
  match ← Json.fields ["config_file", "cli_version", "tool_versions"] j with
  | [file, version, tools] =>
    return {
      configFile := ← optional Json.asText file
      programVersion := ← required Json.asText "cli_version" version
      toolVersions := ← required versions "tool_versions" tools }
  | _ => .error (.unexpected "metadata")

/-- Read totals. -/
def summary (j : Json) : Except Json.Fault Summary := do
  match ← Json.fields ["total_resources", "passed_resources", "failed_resources", "total_errors",
    "total_warnings", "total_info", "overall_success"] j with
  | [resources, passed, failed, errors, warnings, infos, success] =>
    return {
      resources := ← required Json.asUnsigned "total_resources" resources
      passed := ← required Json.asUnsigned "passed_resources" passed
      failed := ← required Json.asUnsigned "failed_resources" failed
      tally := {
        errors := ← required Json.asUnsigned "total_errors" errors
        warnings := ← required Json.asUnsigned "total_warnings" warnings
        infos := ← required Json.asUnsigned "total_info" infos }
      success := ← required Json.asBool "overall_success" success }
  | _ => .error (.unexpected "totals")

/-- Read the sections from what is written for each tool. -/
def sections (written : List (Option Json)) : Except Json.Fault (List Section) := do
  return (← (Tool.all.zip written).mapM fun e => optional (sectionOf e.1) e.2).reduceOption

/-- Read a report and the totals beside it. -/
def document (j : Json) : Except Json.Fault Document := do
  match ← Json.fields (["metadata", "warnings", "summary"] ++ Tool.all.map sectionKey) j with
  | run :: warnings :: totals :: written =>
    return {
      report := {
        metadata := ← required metadata "metadata" run
        sections := ← sections written
        warnings := ← Json.orDefault [] (Json.asList Json.asText) warnings }
      summary := ← required summary "summary" totals }
  | _ => .error (.unexpected "a report")

end Reader

/-- What is said about the run itself, with the versions in the order of their names. -/
def Metadata.inOrder (m : Metadata) : Metadata :=
  { m with toolVersions := m.toolVersions.sorted }

/-- A report with its versions in the order of their names, and the first section of each tool in
the order in which linters run. -/
def inOrder (r : Report) : Report where
  metadata := r.metadata.inOrder
  sections := Tool.all.filterMap r.section?
  warnings := r.warnings

/-! ### What is read of a resource -/

/-- Whether all three counts are integers of 64 bits. -/
structure CountsFit (t : Tally) : Prop where
  errors : t.errors < UInt64.size
  warnings : t.warnings < UInt64.size
  infos : t.infos < UInt64.size

variable {α : Type} {d : Nat} {read : Json → Except Json.Fault α} {IsValue : α → Json → Prop}

theorem required_of_isReadBy (h : IsReadBy read d IsValue) {a : α} {j : Json} (hj : IsValue a j)
    (field : String) :
    Reader.required read field (some j) = .ok a ∧ IsSoundField d (some j) := by
  obtain ⟨hread, hsound⟩ := h a j hj
  exact ⟨hread, fun v hv => Option.mem_some_iff.1 hv ▸ hsound⟩

theorem optional_of_isReadBy (h : IsReadBy read d IsValue) {o : Option α} {write : α → Json}
    (ho : ∀ a ∈ o, IsValue a (write a)) :
    Reader.optional read (o.map write) = .ok o ∧ IsSoundField d (o.map write) := by
  cases o with
  | none => exact ⟨rfl, fun v hv => by cases hv⟩
  | some a =>
    obtain ⟨hread, hsound⟩ := h a _ (ho a rfl)
    refine ⟨?_, fun v hv => Option.mem_some_iff.1 hv ▸ hsound⟩
    show (read (write a)).map some = _
    rw [hread]
    rfl

theorem isList_map {write : α → Json} {l : List α} (h : ∀ a ∈ l, IsValue a (write a)) :
    IsList IsValue l (.array (l.map write)) :=
  ⟨_, rfl, List.forall₂_map_right_iff.2 (List.forall₂_same.2 h)⟩

theorem severity_isReadBy (d : Nat) :
    IsReadBy Reader.severity d fun s j => j = .text s.tag := by
  rintro s _ rfl
  refine ⟨?_, (isText_isReadBy d s.tag _ rfl).2⟩
  show (Severity.ofTag? s.tag).elim _ _ = _
  rw [Severity.ofTag?_tag]
  rfl

theorem finding_isReadBy (d : Nat) :
    IsReadBy Reader.finding (d + 1) fun f j => j = findingJson f := by
  rintro f _ rfl
  have hrecord : IsRecord [("severity", some (.text f.severity.tag)),
      ("path", if f.path = "" then none else some (.text f.path)),
      ("message", some (.text f.message))] (findingJson f) := by
    refine ⟨_, rfl, ?_⟩
    split_ifs <;> exact .refl _
  have hpath : IsField IsText "" f.path (if f.path = "" then none else some (.text f.path)) := by
    split_ifs with hempty
    · exact hempty
    · exact rfl
  obtain ⟨hlevel, hlevel'⟩ := required_of_isReadBy (severity_isReadBy d) rfl "severity"
  obtain ⟨hpath, hpath'⟩ := (isText_isReadBy d).field hpath
  obtain ⟨hmessage, hmessage'⟩ := required_of_isReadBy (isText_isReadBy d) rfl "message"
  refine ⟨?_, hrecord.sound ?_⟩
  · have hfields := hrecord.fields_eq (show ["severity", "path", "message"].Nodup by decide) rfl
    exact bind_eq_ok.2 ⟨_, hfields, bind_eq_ok.2 ⟨_, hlevel, bind_eq_ok.2 ⟨_, hpath,
      bind_eq_ok.2 ⟨_, hmessage, rfl⟩⟩⟩⟩
  · simp only [List.forall_mem_cons]
    exact ⟨hlevel', hpath', hmessage', fun _ h => absurd h List.not_mem_nil⟩

theorem tally_isReadBy (d : Nat) :
    IsReadBy Reader.tally (d + 1) fun t j => CountsFit t ∧ j = tallyJson t := by
  rintro t _ ⟨hfit, rfl⟩
  have hrecord : IsRecord [("error_count", some (.count t.errors)),
      ("warning_count", some (.count t.warnings)), ("info_count", some (.count t.infos))]
      (tallyJson t) := ⟨_, rfl, .refl _⟩
  obtain ⟨herrors, herrors'⟩ :=
    required_of_isReadBy (isCount_isReadBy d) ⟨hfit.errors, rfl⟩ "error_count"
  obtain ⟨hwarnings, hwarnings'⟩ :=
    required_of_isReadBy (isCount_isReadBy d) ⟨hfit.warnings, rfl⟩ "warning_count"
  obtain ⟨hinfos, hinfos'⟩ :=
    required_of_isReadBy (isCount_isReadBy d) ⟨hfit.infos, rfl⟩ "info_count"
  refine ⟨?_, hrecord.sound ?_⟩
  · have hfields := hrecord.fields_eq (show ["error_count", "warning_count", "info_count"].Nodup by decide) rfl
    exact bind_eq_ok.2 ⟨_, hfields, bind_eq_ok.2 ⟨_, herrors, bind_eq_ok.2 ⟨_, hwarnings,
      bind_eq_ok.2 ⟨_, hinfos, rfl⟩⟩⟩⟩
  · simp only [List.forall_mem_cons]
    exact ⟨herrors', hwarnings', hinfos', fun _ h => absurd h List.not_mem_nil⟩

theorem resource_isReadBy (d : Nat) :
    IsReadBy Reader.resource (d + 3) fun r j => CountsFit r.tally ∧ j = r.toJson := by
  rintro r _ ⟨hfit, rfl⟩
  have hrecord : IsRecord [("path", some (.text r.path)), ("success", some (.bool r.success)),
      ("messages", some (.array (r.findings.map findingJson))),
      ("summary", some (tallyJson r.tally))] r.toJson := ⟨_, rfl, .refl _⟩
  obtain ⟨hpath, hpath'⟩ := required_of_isReadBy (isText_isReadBy (d + 2)) rfl "path"
  obtain ⟨hsuccess, hsuccess'⟩ := required_of_isReadBy (isBool_isReadBy (d + 2)) rfl "success"
  obtain ⟨hfindings, hfindings'⟩ := required_of_isReadBy (isList_isReadBy (finding_isReadBy d))
    (isList_map fun f (_ : f ∈ r.findings) => rfl) "messages"
  obtain ⟨htally, htally'⟩ :=
    required_of_isReadBy (tally_isReadBy (d + 1)) ⟨hfit, rfl⟩ "summary"
  refine ⟨?_, hrecord.sound ?_⟩
  · have hfields := hrecord.fields_eq (show ["path", "success", "messages", "summary"].Nodup by decide) rfl
    exact bind_eq_ok.2 ⟨_, hfields, bind_eq_ok.2 ⟨_, hpath, bind_eq_ok.2 ⟨_, hsuccess,
      bind_eq_ok.2 ⟨_, hfindings, bind_eq_ok.2 ⟨_, htally, rfl⟩⟩⟩⟩⟩
  · simp only [List.forall_mem_cons]
    exact ⟨hpath', hsuccess', hfindings', htally', fun _ h => absurd h List.not_mem_nil⟩

/-! ### What is read of a report -/

theorem section_isReadBy (d : Nat) (t : Tool) : IsReadBy (Reader.sectionOf t) (d + 5) fun s j =>
    s.tool = t ∧ (∀ r ∈ s.resources, CountsFit r.tally) ∧ j = s.toJson := by
  rintro s _ ⟨rfl, hfit, rfl⟩
  have hrecord : IsRecord [("enabled", some (.bool s.enabled)),
      (resourcesKey s.tool, some (.array (s.resources.map Resource.toJson)))] s.toJson :=
    ⟨_, rfl, .refl _⟩
  have hkeys : ["enabled", resourcesKey s.tool].Nodup := by cases s.tool <;> decide
  obtain ⟨henabled, henabled'⟩ := required_of_isReadBy (isBool_isReadBy (d + 4)) rfl "enabled"
  obtain ⟨hresources, hresources'⟩ := required_of_isReadBy (isList_isReadBy (resource_isReadBy d))
    (isList_map fun r hr => ⟨hfit r hr, rfl⟩) (resourcesKey s.tool)
  refine ⟨?_, hrecord.sound ?_⟩
  · have hfields := hrecord.fields_eq hkeys rfl
    exact bind_eq_ok.2 ⟨_, hfields, bind_eq_ok.2 ⟨_, henabled, bind_eq_ok.2 ⟨_, hresources, rfl⟩⟩⟩
  · simp only [List.forall_mem_cons]
    exact ⟨henabled', hresources', fun _ h => absurd h List.not_mem_nil⟩

theorem versions_isReadBy (d : Nat) : IsReadBy Reader.versions (d + 1) fun v j =>
    j = .record (v.map fun e => (e.1, .text e.2)) := by
  rintro v _ rfl
  refine ⟨?_, ?_⟩
  · unfold Json.record
    rw [List.map_map]
    refine mapM_eq_ok_of_forall₂ (List.forall₂_map_left_iff.2 (List.forall₂_same.2 fun e _ => rfl))
  · rw [Json.record, List.map_map, Json.soundTo, Bool.and_eq_true]
    refine ⟨by simp, Json.soundMembers_iff.2 fun m hm => ?_⟩
    obtain ⟨e, -, rfl⟩ := List.mem_map.1 hm
    exact ⟨rfl, (isText_isReadBy d e.2 _ rfl).2⟩

theorem metadata_isReadBy (d : Nat) : IsReadBy Reader.metadata (d + 2) fun a j =>
    ∃ m : Metadata, a = m.inOrder ∧ j = m.toJson := by
  rintro _ _ ⟨m, rfl, rfl⟩
  have hrecord : IsRecord [("config_file", m.configFile.map .text),
      ("cli_version", some (.text m.programVersion)),
      ("tool_versions", some (.record (m.toolVersions.sorted.map fun e => (e.1, .text e.2))))]
      m.toJson := by
    refine ⟨_, rfl, ?_⟩
    cases m.configFile <;> exact .refl _
  obtain ⟨hfile, hfile'⟩ := optional_of_isReadBy (isText_isReadBy (d + 1))
    fun s (_ : s ∈ m.configFile) => rfl
  obtain ⟨hversion, hversion'⟩ := required_of_isReadBy (isText_isReadBy (d + 1)) rfl "cli_version"
  obtain ⟨htools, htools'⟩ := required_of_isReadBy (versions_isReadBy d) rfl "tool_versions"
  refine ⟨?_, hrecord.sound ?_⟩
  · have hfields := hrecord.fields_eq (show ["config_file", "cli_version", "tool_versions"].Nodup by decide) rfl
    exact bind_eq_ok.2 ⟨_, hfields, bind_eq_ok.2 ⟨_, hfile, bind_eq_ok.2 ⟨_, hversion,
      bind_eq_ok.2 ⟨_, htools, rfl⟩⟩⟩⟩
  · simp only [List.forall_mem_cons]
    exact ⟨hfile', hversion', htools', fun _ h => absurd h List.not_mem_nil⟩

theorem summary_isReadBy (d : Nat) : IsReadBy Reader.summary (d + 1) fun s j =>
    s.resources < UInt64.size ∧ s.passed < UInt64.size ∧ s.failed < UInt64.size ∧
      CountsFit s.tally ∧ j = s.toJson := by
  rintro s _ ⟨hresources, hpassed, hfailed, hfit, rfl⟩
  have hrecord : IsRecord [("total_resources", some (.count s.resources)),
      ("passed_resources", some (.count s.passed)), ("failed_resources", some (.count s.failed)),
      ("total_errors", some (.count s.tally.errors)),
      ("total_warnings", some (.count s.tally.warnings)),
      ("total_info", some (.count s.tally.infos)), ("overall_success", some (.bool s.success))]
      s.toJson := ⟨_, rfl, .refl _⟩
  have hcount {n : Nat} (hn : n < UInt64.size) (field : String) :=
    required_of_isReadBy (isCount_isReadBy d) ⟨hn, rfl⟩ field
  obtain ⟨hresources, hresources'⟩ := hcount hresources "total_resources"
  obtain ⟨hpassed, hpassed'⟩ := hcount hpassed "passed_resources"
  obtain ⟨hfailed, hfailed'⟩ := hcount hfailed "failed_resources"
  obtain ⟨herrors, herrors'⟩ := hcount hfit.errors "total_errors"
  obtain ⟨hwarnings, hwarnings'⟩ := hcount hfit.warnings "total_warnings"
  obtain ⟨hinfos, hinfos'⟩ := hcount hfit.infos "total_info"
  obtain ⟨hsuccess, hsuccess'⟩ := required_of_isReadBy (isBool_isReadBy d) rfl "overall_success"
  refine ⟨?_, hrecord.sound ?_⟩
  · have hfields := hrecord.fields_eq (show ["total_resources", "passed_resources",
      "failed_resources", "total_errors", "total_warnings", "total_info",
      "overall_success"].Nodup by decide) rfl
    exact bind_eq_ok.2 ⟨_, hfields, bind_eq_ok.2 ⟨_, hresources, bind_eq_ok.2 ⟨_, hpassed,
      bind_eq_ok.2 ⟨_, hfailed, bind_eq_ok.2 ⟨_, herrors, bind_eq_ok.2 ⟨_, hwarnings,
        bind_eq_ok.2 ⟨_, hinfos, bind_eq_ok.2 ⟨_, hsuccess, rfl⟩⟩⟩⟩⟩⟩⟩⟩
  · simp only [List.forall_mem_cons]
    exact ⟨hresources', hpassed', hfailed', herrors', hwarnings', hinfos', hsuccess',
      fun _ h => absurd h List.not_mem_nil⟩

variable {r : Report}

/-- Of sections for different tools the last one of a tool is its first one. -/
theorem getLast?_filter_tool (t : Tool) : ∀ {sections : List Section},
    (sections.map (·.tool)).Nodup →
      (sections.filter (·.tool == t)).getLast? = sections.find? (·.tool == t)
  | [], _ => rfl
  | s :: sections, h => by
    rw [List.map_cons, List.nodup_cons] at h
    by_cases hs : s.tool = t
    · have hrest : sections.filter (·.tool == t) = [] := by
        refine List.filter_eq_nil_iff.2 fun other hother htool => h.1 ?_
        rw [hs, ← beq_iff_eq.1 htool]
        exact List.mem_map_of_mem hother
      rw [List.filter_cons_of_pos (by simpa using hs), List.find?_cons_of_pos (by simpa using hs),
        hrest]
      rfl
    · rw [List.filter_cons_of_neg (by simpa using hs), List.find?_cons_of_neg (by simpa using hs),
        getLast?_filter_tool t h.2]

theorem tool_of_section? {t : Tool} {s : Section} (h : r.section? t = some s) : s.tool = t := by
  simpa using List.find?_some h

theorem section?_eq_some_iff (h : (r.sections.map (·.tool)).Nodup) {t : Tool} {s : Section} :
    r.section? t = some s ↔ s.tool = t ∧ s ∈ r.sections := by
  refine ⟨fun hs => ⟨tool_of_section? hs, List.mem_of_find?_eq_some hs⟩, ?_⟩
  rintro ⟨rfl, hs⟩
  have hsome : (r.section? s.tool).isSome :=
    List.find?_isSome.2 ⟨s, hs, beq_self_eq_true s.tool⟩
  obtain ⟨first, hfirst⟩ := Option.isSome_iff_exists.1 hsome
  have heq : first = s := List.inj_on_of_nodup_map h (List.mem_of_find?_eq_some hfirst) hs
    (tool_of_section? (r := r) hfirst)
  exact heq ▸ hfirst

/-- Sections for different tools are those that are found by their tools. -/
theorem sections_inOrder_perm (h : (r.sections.map (·.tool)).Nodup) :
    r.inOrder.sections.Perm r.sections := by
  have hnodup : r.inOrder.sections.Nodup := by
    refine List.Nodup.filterMap (fun t t' s hs hs' => ?_) (by decide)
    rw [← tool_of_section? hs, ← tool_of_section? hs']
  refine (List.perm_ext_iff_of_nodup hnodup (List.Nodup.of_map _ h)).2 fun s => ?_
  show s ∈ Tool.all.filterMap r.section? ↔ _
  rw [List.mem_filterMap]
  constructor
  · rintro ⟨t, -, hs⟩
    exact ((section?_eq_some_iff h).1 hs).2
  · exact fun hs => ⟨s.tool, s.tool.mem_all, (section?_eq_some_iff h).2 ⟨rfl, hs⟩⟩

/-- What is written for each tool. -/
def writtenSections (r : Report) : List (Option Json) :=
  Tool.all.map fun t => (r.section? t).map Section.toJson

/-- The members of a report are its metadata, warnings and totals, and a section for each tool
that has one. -/
theorem isRecord_toJson (h : (r.sections.map (·.tool)).Nodup) :
    IsRecord ([("metadata", some r.metadata.toJson),
      ("warnings", if r.warnings.isEmpty then none else some (.array (r.warnings.map .text))),
      ("summary", some r.summary.toJson)] ++ (Tool.all.map sectionKey).zip r.writtenSections)
      r.toJson := by
  have hmembers : sectionMembers r.sections = sectionOrder.filterMap fun t =>
      (r.section? t).map fun s => (sectionKey t, s.toJson) := by
    unfold sectionMembers
    refine List.filterMap_congr fun t _ => ?_
    rw [getLast?_filter_tool t h]
    rfl
  have hsections : ((sectionMembers r.sections).map fun m => (some m.1, m.2)).Perm
      (Json.present ((Tool.all.map sectionKey).zip r.writtenSections)) := by
    have hzip : (Tool.all.map sectionKey).zip r.writtenSections =
        Tool.all.map fun t => (sectionKey t, (r.section? t).map Section.toJson) := by
      unfold writtenSections
      rw [List.zip_map']
    unfold Json.present
    rw [hmembers, hzip, List.map_filterMap, List.filterMap_map]
    refine ((List.mergeSort_perm Tool.all _).filterMap _).trans (.of_eq ?_)
    refine List.filterMap_congr fun t _ => ?_
    simp only [Option.map_map, Function.comp_def]
  have hlast (more : List (Option String × Json)) :
      ((some "metadata", r.metadata.toJson) ::
        (((sectionMembers r.sections).map fun m => (some m.1, m.2)) ++ more)).Perm
      ((some "metadata", r.metadata.toJson) ::
        (more ++ Json.present ((Tool.all.map sectionKey).zip r.writtenSections))) :=
    .cons _ (List.perm_append_comm.trans (hsections.append_left more))
  refine ⟨_, rfl, ?_⟩
  split_ifs with hwarnings
  · have hperm := hlast [(some "summary", r.summary.toJson)]
    simpa [Json.present] using hperm
  · have hperm := hlast [(some "warnings", .array (r.warnings.map .text)),
      (some "summary", r.summary.toJson)]
    simpa [Json.present] using hperm

theorem sections_writtenSections (h : (r.sections.map (·.tool)).Nodup)
    (hfit : ∀ x ∈ r.resources, CountsFit x.tally) (d : Nat) :
    Reader.sections r.writtenSections = .ok r.inOrder.sections ∧
      ∀ written ∈ r.writtenSections, IsSoundField (d + 5) written := by
  have hsection (t : Tool) :
      Reader.optional (Reader.sectionOf t) ((r.section? t).map Section.toJson) =
          .ok (r.section? t) ∧
        IsSoundField (d + 5) ((r.section? t).map Section.toJson) := by
    refine optional_of_isReadBy (section_isReadBy d t) fun s hs => ?_
    obtain ⟨htool, hmem⟩ := (section?_eq_some_iff h).1 hs
    exact ⟨htool, fun x hx => hfit x (List.mem_flatMap.2 ⟨s, hmem, hx⟩), rfl⟩
  refine ⟨?_, List.forall_mem_map.2 fun t _ => (hsection t).2⟩
  have hread : (Tool.all.zip r.writtenSections).mapM
      (fun e => Reader.optional (Reader.sectionOf e.1) e.2) = .ok (Tool.all.map r.section?) := by
    unfold writtenSections
    rw [← List.map_prod_left_eq_zip]
    exact mapM_eq_ok_of_forall₂ (List.forall₂_map_left_iff.2 (List.forall₂_map_right_iff.2
      (List.forall₂_same.2 fun t _ => (hsection t).1)))
  exact bind_eq_ok.2 ⟨_, hread, congrArg Except.ok (List.filterMap_map ..)⟩

/-- Whether the counts of a report, its totals among them, are integers of 64 bits. -/
structure CountsFitIn (r : Report) : Prop where
  resources : r.resources.length < UInt64.size
  tally : CountsFit r.summary.tally

/-- Each count of the totals is the sum of the counts of the resources. -/
theorem count_foldl (count : Tally → Nat) (hadd : ∀ a b, count (a + b) = count a + count b)
    (l : List Resource) (t : Tally) :
    count (l.foldl (fun t x => t + x.tally) t) = count t + (l.map fun x => count x.tally).sum := by
  induction l generalizing t with
  | nil => rfl
  | cons x l ih => rw [List.foldl_cons, ih, hadd, List.map_cons, List.sum_cons, Nat.add_assoc]

theorem count_le_summary (count : Tally → Nat) (hadd : ∀ a b, count (a + b) = count a + count b)
    {x : Resource} (hx : x ∈ r.resources) : count x.tally ≤ count r.summary.tally := by
  have hsum : count r.summary.tally = count .zero + (r.resources.map fun x => count x.tally).sum :=
    count_foldl count hadd r.resources .zero
  have hle : count x.tally ≤ (r.resources.map fun x => count x.tally).sum :=
    List.le_sum_of_mem (List.mem_map_of_mem hx)
  omega

theorem CountsFitIn.resource (h : r.CountsFitIn) : ∀ x ∈ r.resources, CountsFit x.tally :=
  fun _ hx => {
    errors := (count_le_summary (·.errors) (fun _ _ => rfl) hx).trans_lt h.tally.errors
    warnings := (count_le_summary (·.warnings) (fun _ _ => rfl) hx).trans_lt h.tally.warnings
    infos := (count_le_summary (·.infos) (fun _ _ => rfl) hx).trans_lt h.tally.infos }

/-- **A report is read back from its value,** with the totals beside it. -/
theorem document_toJson (h : (r.sections.map (·.tool)).Nodup) (hfit : r.CountsFitIn) :
    Reader.document r.toJson = .ok ⟨r.inOrder, r.summary⟩ ∧ Json.isSound r.toJson = true := by
  have hrecord := isRecord_toJson h
  have hpassed : r.summary.passed < UInt64.size :=
    (List.countP_le_length).trans_lt hfit.resources
  have hfailed : r.summary.failed < UInt64.size :=
    (List.countP_le_length).trans_lt hfit.resources
  have hkeys : (["metadata", "warnings", "summary"] ++ Tool.all.map sectionKey).Nodup := by
    decide
  have hlength : (Tool.all.map sectionKey).length = r.writtenSections.length := by
    unfold writtenSections
    rw [List.length_map, List.length_map]
  obtain ⟨hrun, hrun'⟩ :=
    required_of_isReadBy (metadata_isReadBy 124) ⟨r.metadata, rfl, rfl⟩ "metadata"
  obtain ⟨htotals, htotals'⟩ := required_of_isReadBy (summary_isReadBy 125)
    ⟨hfit.resources, hpassed, hfailed, hfit.tally, rfl⟩ "summary"
  obtain ⟨hsections, hsections'⟩ := sections_writtenSections h hfit.resource 121
  have hwarnings : IsField (IsList IsText) [] r.warnings
      (if r.warnings.isEmpty then none else some (.array (r.warnings.map .text))) := by
    split_ifs with hempty
    · exact List.isEmpty_iff.1 hempty
    · exact isList_map fun s _ => rfl
  obtain ⟨hwarnings, hwarnings'⟩ := (isList_isReadBy (isText_isReadBy 125)).field hwarnings
  refine ⟨?_, hrecord.sound fun f hf => ?_⟩
  · have hfields := hrecord.fields_eq hkeys (by
      rw [List.map_append, List.map_fst_zip hlength.le]
      rfl)
    rw [List.map_append, List.map_snd_zip hlength.ge] at hfields
    exact bind_eq_ok.2 ⟨_, hfields, bind_eq_ok.2 ⟨_, hrun, bind_eq_ok.2 ⟨_, hsections,
      bind_eq_ok.2 ⟨_, hwarnings, bind_eq_ok.2 ⟨_, htotals, rfl⟩⟩⟩⟩⟩
  · rcases List.mem_append.1 hf with hf | hf
    · simp only [List.mem_cons, List.not_mem_nil, or_false] at hf
      rcases hf with rfl | rfl | rfl
      · exact hrun'
      · exact hwarnings'
      · exact htotals'
    · exact hsections' f.2 (List.of_mem_zip hf).2

/-! ### What is written is plain -/

theorem isPlain_findingJson (f : Finding) : Json.isPlain (findingJson f) = true := by
  refine isPlain_record.2 ?_
  split_ifs <;> simp [isPlain_text]

theorem isPlain_tallyJson {t : Tally} (h : CountsFit t) : Json.isPlain (tallyJson t) = true := by
  refine isPlain_record.2 ?_
  simp [isPlain_count h.errors, isPlain_count h.warnings, isPlain_count h.infos]

theorem isPlain_resource {x : Resource} (h : CountsFit x.tally) :
    Json.isPlain x.toJson = true := by
  refine isPlain_record.2 ?_
  have hfindings : Json.isPlain (.array (x.findings.map findingJson)) = true :=
    isPlain_array.2 (List.forall_mem_map.2 fun f _ => isPlain_findingJson f)
  simp [isPlain_text, isPlain_bool, hfindings, isPlain_tallyJson h]

theorem isPlain_section {s : Section} (h : ∀ x ∈ s.resources, CountsFit x.tally) :
    Json.isPlain s.toJson = true := by
  refine isPlain_record.2 ?_
  have hresources : Json.isPlain (.array (s.resources.map Resource.toJson)) = true :=
    isPlain_array.2 (List.forall_mem_map.2 fun x hx => isPlain_resource (h x hx))
  simp [isPlain_bool, hresources]

theorem isPlain_metadata (m : Metadata) : Json.isPlain m.toJson = true := by
  refine isPlain_record.2 ?_
  have hversions : Json.isPlain (.record (m.toolVersions.sorted.map fun v => (v.1, .text v.2))) =
      true := isPlain_record.2 (List.forall_mem_map.2 fun v _ => isPlain_text v.2)
  cases m.configFile <;> simp [isPlain_text, hversions]

theorem isPlain_summary (h : r.CountsFitIn) : Json.isPlain r.summary.toJson = true := by
  refine isPlain_record.2 ?_
  have hpassed : r.summary.passed < UInt64.size := (List.countP_le_length).trans_lt h.resources
  have hfailed : r.summary.failed < UInt64.size := (List.countP_le_length).trans_lt h.resources
  have hresources : r.summary.resources < UInt64.size := h.resources
  simp [isPlain_count hresources, isPlain_count hpassed, isPlain_count hfailed,
    isPlain_count h.tally.errors, isPlain_count h.tally.warnings, isPlain_count h.tally.infos,
    isPlain_bool]

theorem isPlain_toJson (h : r.CountsFitIn) : Json.isPlain r.toJson = true := by
  refine isPlain_record.2 ?_
  have hsections : ∀ m ∈ sectionMembers r.sections, Json.isPlain m.2 = true := by
    intro m hm
    obtain ⟨t, -, hm⟩ := List.mem_filterMap.1 hm
    obtain ⟨s, hs, rfl⟩ := Option.map_eq_some_iff.1 hm
    have hmem : s ∈ r.sections := (List.mem_filter.1 (List.mem_of_getLast? hs)).1
    exact isPlain_section fun x hx => h.resource x (List.mem_flatMap.2 ⟨s, hmem, hx⟩)
  have hwarnings : Json.isPlain (.array (r.warnings.map .text)) = true :=
    isPlain_array.2 (List.forall_mem_map.2 fun s _ => isPlain_text s)
  intro m hm
  simp only [List.mem_append, List.mem_singleton] at hm
  rcases hm with ((rfl | hm) | hm) | rfl
  · exact isPlain_metadata r.metadata
  · exact hsections m hm
  · split_ifs at hm with hempty
    · exact absurd hm List.not_mem_nil
    · rw [List.mem_singleton.1 hm]
      exact hwarnings
  · exact isPlain_summary h

/-! ### The text -/

theorem decode_pretty (h : (r.sections.map (·.tool)).Nodup) (hfit : r.CountsFitIn) :
    Json.decode Reader.document r.toJson.pretty = .ok ⟨r.inOrder, r.summary⟩ := by
  unfold Json.decode
  rw [Json.ofText?_pretty (isPlain_toJson hfit), Option.elim_some, (document_toJson h hfit).1]

theorem toolVersions_inOrder_perm (r : Report) :
    r.inOrder.metadata.toolVersions.Perm r.metadata.toolVersions :=
  List.mergeSort_perm _ _

/-- **A report for programs is read back.**  If its sections are for different tools, its text is
one value and a line feed; the value is sound; and what is read of it is the report, with the
versions of tools and the sections in order, and its totals.  So no other report has its text. -/
theorem decode_jsonText (h : (r.sections.map (·.tool)).Nodup) (hfit : r.CountsFitIn) :
    ∃ document : String, r.jsonText = document ++ "\n" ∧
      Json.Writes r.toJson document.toList ∧ Json.isSound r.toJson = true ∧
      Json.decode Reader.document document = .ok ⟨r.inOrder, r.summary⟩ ∧
      r.inOrder.metadata.toolVersions.Perm r.metadata.toolVersions ∧
      r.inOrder.sections.Perm r.sections ∧
      ∀ other : Report, (other.sections.map (·.tool)).Nodup → other.CountsFitIn →
        other.jsonText = r.jsonText →
          other.metadata.configFile = r.metadata.configFile ∧
          other.metadata.programVersion = r.metadata.programVersion ∧
          other.metadata.toolVersions.Perm r.metadata.toolVersions ∧
          other.sections.Perm r.sections ∧ other.warnings = r.warnings := by
  refine ⟨r.toJson.pretty, rfl, Json.writes_pretty (isPlain_toJson hfit),
    (document_toJson h hfit).2, decode_pretty h hfit, toolVersions_inOrder_perm r,
    sections_inOrder_perm h, fun other hother hotherFit htext => ?_⟩
  have hpretty : other.toJson.pretty = r.toJson.pretty := (String.append_left_inj "\n").1 htext
  have hread : Except.ok ⟨other.inOrder, other.summary⟩ =
      (Except.ok ⟨r.inOrder, r.summary⟩ : Except Json.Misfit Document) := by
    rw [← decode_pretty hother hotherFit, hpretty, decode_pretty h hfit]
  have hsame : other.inOrder = r.inOrder := congrArg Document.report (Except.ok.inj hread)
  have hfile : other.inOrder.metadata.configFile = r.inOrder.metadata.configFile := by rw [hsame]
  have hversion : other.inOrder.metadata.programVersion = r.inOrder.metadata.programVersion := by
    rw [hsame]
  have hwarnings : other.inOrder.warnings = r.inOrder.warnings := by rw [hsame]
  refine ⟨hfile, hversion, ?_, ?_, hwarnings⟩
  · exact (toolVersions_inOrder_perm other).symm.trans (hsame ▸ toolVersions_inOrder_perm r)
  · exact (sections_inOrder_perm hother).symm.trans (hsame ▸ sections_inOrder_perm h)

/-- A report with quotes, line feeds and a key of its own format among its texts. -/
def sample : Report where
  metadata := ⟨some "/p/.replicated", "1.0\"", [("kots", "latest"), ("helm\n", "3.14.4")]⟩
  sections := [
    ⟨.preflight, true, []⟩,
    ⟨.helm, true, [
      ⟨"charts/\\a", false, [⟨.error, "", "helm_results"⟩, ⟨.info, "t.yaml", "\x7b\x7d"⟩],
        ⟨1, 0, 1⟩⟩,
      ⟨"", true, [], ⟨0, 0, 0⟩⟩]⟩]
  warnings := ["a\tb"]

theorem decode_jsonText_sample :
    ∃ document : String, sample.jsonText = document ++ "\n" ∧
      Json.decode Reader.document document = .ok ⟨
        { metadata :=
            ⟨some "/p/.replicated", "1.0\"", [("helm\n", "3.14.4"), ("kots", "latest")]⟩
          sections := [
            ⟨.helm, true, [
              ⟨"charts/\\a", false, [⟨.error, "", "helm_results"⟩, ⟨.info, "t.yaml", "\x7b\x7d"⟩],
                ⟨1, 0, 1⟩⟩,
              ⟨"", true, [], ⟨0, 0, 0⟩⟩]⟩,
            ⟨.preflight, true, []⟩]
          warnings := ["a\tb"] },
        ⟨2, 1, 1, ⟨1, 0, 1⟩, false⟩⟩ := by
  obtain ⟨document, htext, -, -, hread, -⟩ := @decode_jsonText sample (by decide)
    ⟨by decide, ⟨by decide, by decide, by decide⟩⟩
  have hsorted :
      sample.metadata.toolVersions.sorted = [("helm\n", "3.14.4"), ("kots", "latest")] := by
    simp [sample, Config.Versions.sorted, List.mergeSort]
  have hmetadata : sample.metadata.inOrder =
      ⟨some "/p/.replicated", "1.0\"", [("helm\n", "3.14.4"), ("kots", "latest")]⟩ := by
    unfold Metadata.inOrder
    rw [hsorted]
    rfl
  refine ⟨document, htext, ?_⟩
  rw [hread, inOrder, hmetadata]
  exact congrArg Except.ok (by decide +kernel)

end Report
end ReleaseLint
