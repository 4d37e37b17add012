/-
# Paths that name ignored content

A configured path or pattern whose leading names are ignored is found as if nothing was ignored,
if the text of a rule that ignores them tells so.  Rules are compared as they are written, so
that this holds of literal rules (`isUnfiltered_of_literal`):

| a rule | in | tells so |
| --- | --- | --- |
| `name`, `/name`, `name/` | any file | always |
| `a/name`, `/a/name/` | a file that is read from the root | always |
| `a/name` | a nested file | not from what stands there alone |
| `text*` | any file | unless a name begins with a dot and a backslash |

Other rules need not: `*.log` ignores `a.log`, and an explicit `a.log` is then not found
(`not_isBypassedBy_of_wildcard`).
-/

import ReleaseLint.Proofs.Glob.Expansion
import ReleaseLint.Proofs.Ignore.Naming
import ReleaseLint.Proofs.Tree.Directories
import ReleaseLint.Resource.Discovery

namespace ReleaseLint
namespace Ignore

open Path (ofNames)
open Glob (leadOf tailOf)

variable {w : Workspace} {c : Checker} {root along q names : Names} {e : Names × Rule}
variable {text : List Char} {directory : Path} {data : ByteArray} {content line : String} {r : Rule}

/-! ### The patterns of a file -/

theorem trimLine_prefix (line : List Char) : Rule.trimLine line <+: line := by
  unfold Rule.trimLine
  split_ifs
  · exact List.prefix_refl line
  · exact Text.dropEndChars_prefix _ _

theorem leader_back (more : List Char) : (Rule.leader ('!' :: more)).1 = true := by
  obtain _ | ⟨c, more⟩ := more
  · rfl
  · by_cases hc : c = '/'
    · rw [hc]
      rfl
    · unfold Rule.leader
      split <;> simp_all

/-- A rule that takes nothing back is a pattern, as it is written. -/
theorem mem_patternsOf (hline : line ∈ Text.lines content)
    (htext : Text.trim line = String.ofList text) (htrim : Rule.trimLine line.toList = text)
    (hrule : Rule.ofLine? line.toList = some r) (hr : r.reincludes = false) :
    String.ofList text ∈ Source.patternsOf content := by
  obtain ⟨hcomment, hne, hreincludes, -⟩ := Rule.ofLine?_eq_some hrule
  rw [htrim] at hne hreincludes
  have hpre := trimLine_prefix line.toList
  rw [htrim] at hpre
  unfold Source.patternsOf Text.beginsWith
  refine List.mem_filter.2 ⟨List.mem_map.2 ⟨line, hline, htext⟩, ?_⟩
  rw [String.toList_ofList, Bool.and_eq_true, Bool.and_eq_true, bne_iff_ne, Bool.not_eq_true',
    Bool.not_eq_true', Bool.eq_false_iff, Bool.eq_false_iff, ne_eq, ne_eq, ne_eq,
    List.isPrefixOf_iff_prefix, List.isPrefixOf_iff_prefix, String.toList_ofList]
  refine ⟨⟨fun hempty => ?_, ?_⟩, ?_⟩
  · exact hne (by rw [← String.toList_ofList (l := text), hempty]; rfl)
  · rintro ⟨more, rfl⟩
    obtain ⟨rest, hrest⟩ := hpre
    exact hcomment (by rw [← hrest]; rfl)
  · rintro ⟨more, rfl⟩
    have hleader : (Rule.leader ("!".toList ++ more)).1 = true := leader_back more
    rw [hleader, hr] at hreincludes
    cases hreincludes

/-- Whether a rule, with the names from the root to the directory of its file, is a line of one
of the files that are loaded, and this is what is written there. -/
def IsWrittenAs (w : Workspace) (root along : Names) (e : Names × Rule) (text : List Char) : Prop :=
  ∃ file content line, (e.1, file) ∈ filesAlong along ∧
    w.readText (ofNames (root ++ file)) = .ok content ∧ line ∈ Text.lines content ∧
    Text.trim line = String.ofList text ∧ Rule.trimLine line.toList = text ∧
    Rule.ofLine? line.toList = some e.2

theorem sourceAt_eq_some {file : Names × Names}
    (h : w.readText (ofNames (root ++ file.2)) = .ok content) :
    ∃ s, sourceAt w root file = some s ∧ s.patterns = Source.patternsOf content := by
  obtain ⟨data, hfile, hdata, hcontent⟩ := Workspace.readText_eq_ok h
  unfold sourceAt
  rw [if_pos hfile, hdata]
  refine ⟨_, rfl, ?_⟩
  show ((String.fromUTF8? data).map Source.patternsOf).getD [] = _
  rw [hcontent]
  rfl

theorem mem_patterns (hc : c = ⟨ofNames root, (filesAlong along).filterMap (sourceAt w root)⟩)
    (h : IsWrittenAs w root along e text) (hr : e.2.reincludes = false) :
    String.ofList text ∈ c.patterns := by
  obtain ⟨file, content, line, hfile, hread, hline, htext, htrim, hrule⟩ := h
  obtain ⟨s, hs, hpatterns⟩ : ∃ s, sourceAt w root (e.1, file) = some s ∧ s.patterns = _ :=
    sourceAt_eq_some hread
  rw [hc, Checker.patterns, List.mem_flatMap]
  refine ⟨s, List.mem_filterMap.2 ⟨_, hfile, hs⟩, ?_⟩
  rw [hpatterns]
  exact mem_patternsOf hline htext htrim hrule hr

/-! ### What is named -/

/-- Whether a rule decides that the entry at the names `q` is ignored: it is the last one that
applies to it, or to a directory on the way to it, and takes nothing back. -/
def Excludes (rules : List (Names × Rule)) (q : Names) (isDirectory : Bool) (e : Names × Rule) :
    Prop :=
  ∃ m, m <+: q ∧ m ≠ [] ∧
    rules.reverse.find? (appliesAt m (m.length < q.length || isDirectory)) = some e ∧
    e.2.reincludes = false

theorem isIgnoredBy_iff_exists {rules : List (Names × Rule)} {isDirectory : Bool} :
    IsIgnoredBy appliesAt rules q isDirectory ↔ ∃ e, Excludes rules q isDirectory e := by
  constructor
  · rintro ⟨m, hm, hne, e, he, hr⟩
    exact ⟨e, m, hm, hne, he, hr⟩
  · rintro ⟨e, m, hm, hne, he, hr⟩
    exact ⟨m, hm, hne, e, he, hr⟩

variable {body : List Char} {stars : Nat} {bound directoriesOnly isDirectory : Bool}

theorem isBypassedBy_of_excludes {more : Names} (h : AreNames (root ++ (q ++ more)))
    (hc : c = ⟨ofNames root, (filesAlong along).filterMap (sourceAt w root)⟩)
    (hexcludes : Excludes (rulesAlong w root along) q isDirectory e)
    (hwritten : IsWrittenAs w root along e (literalRule bound body stars directoriesOnly))
    (hbody : IsBody body stars) (htold : IsTold body stars e.1 (q ++ more)) :
    c.isBypassedBy (ofNames (root ++ (q ++ more))).text = true := by
  obtain ⟨m, ⟨after, rfl⟩, -, hfind, hr⟩ := hexcludes
  have happlies := List.find?_some hfind
  unfold appliesAt at happlies
  rw [Bool.and_eq_true, List.isPrefixOf_iff_prefix] at happlies
  obtain ⟨⟨m, rfl⟩, hmatch⟩ := happlies
  rw [List.drop_left] at hmatch
  have hpattern := mem_patterns hc hwritten hr
  obtain ⟨file, content, line, -, -, -, -, htrim, hrule⟩ := hwritten
  have hroot : c.root = ofNames root := by rw [hc]
  rw [List.append_assoc (e.1 ++ m)] at h htold ⊢
  rw [isBypassedBy_ofNames hroot h, List.any_eq_true]
  exact ⟨_, hpattern, isNamedBy_of_isMatch hbody htrim hrule hr h.right htold hmatch⟩

end Ignore

namespace Resource

open Ignore
open Path (ofNames)
open Glob (leadOf tailOf)

variable {w : Workspace} {c : Checker} {configured : String}

/-- Whether a configured path is found as if nothing was ignored. -/
structure IsUnfiltered (w : Workspace) (c : Checker) (configured : String) : Prop where
  bypassed : c.isBypassedBy configured = true
  manifests : manifestFiles w (some c) [configured] = manifestFiles w none [configured]
  charts : charts w (some c) configured = charts w none configured
  ofKind : ∀ kind, ofKind w (some c) kind configured = ofKind w none kind configured

theorem isUnfiltered_of_isBypassedBy (h : c.isBypassedBy configured = true) :
    IsUnfiltered w c configured := by
  have hnone : checkerFor (some c) configured = none := by
    unfold checkerFor
    rw [Option.filter_some_neg (by rw [h]; decide)]
  have hfiles : files w (some c) configured = files w none configured := by
    funext pattern
    unfold files
    rw [hnone]
    rfl
  refine ⟨h, ?_, ?_, fun kind => ?_⟩
  · unfold manifestFiles collect
    rw [List.mapM_cons, List.mapM_cons, hfiles, List.mapM_nil, List.mapM_nil]
  · unfold Resource.charts
    rw [hfiles]
  · unfold Resource.ofKind
    rw [hfiles]

/-- **What a configured path names on purpose is found.**  What leads to its first wildcard is
ignored if a rule decides so; if one that does is literal and tells so, the path is found as if
nothing was ignored. -/
theorem isUnfiltered_of_literal {base : Path} (hw : w.directory.isAbsolute = true)
    (h : Checker.load w base = .ok (some c)) :
    ∃ root along, AreNames (root ++ along) ∧ w.absolutize base = ofNames (root ++ along) ∧
      IsRootOf w root along ∧ ∀ names q, AreNames names → leadOf names = root ++ q →
        (c.ignores w (ofNames (leadOf names)) = true ↔
          ∃ e, Excludes (rulesAlong w root along) q (w.hasDirectory (ofNames (leadOf names))) e) ∧
        ∀ e bound body stars directoriesOnly,
          Excludes (rulesAlong w root along) q (w.hasDirectory (ofNames (leadOf names))) e →
          IsWrittenAs w root along e (literalRule bound body stars directoriesOnly) →
          IsBody body stars → IsTold body stars e.1 (q ++ tailOf names) →
          IsUnfiltered w c (ofNames names).text := by
  obtain ⟨root, along, hnames, hbase, hisRoot, hc⟩ := load_eq_ok hw h
  refine ⟨root, along, hnames, hbase, hisRoot, fun names q hpath hlead => ?_⟩
  have hleading := Glob.areNames_leadOf hpath
  have hsplit : names = root ++ (q ++ tailOf names) := by
    rw [← List.append_assoc, ← hlead, Glob.leadOf_append_tailOf]
  rw [hlead] at hleading ⊢
  refine ⟨?_, fun e bound body stars directoriesOnly hexcludes hwritten hbody htold => ?_⟩
  · rw [ignores_iff hnames hc hleading (Path.absolutize_ofNames w hleading), isIgnoredBy_iff_exists]
  · rw [hsplit] at hpath
    have hbypass := isBypassedBy_of_excludes hpath hc hexcludes hwritten hbody htold
    rw [← hsplit] at hbypass
    exact isUnfiltered_of_isBypassedBy hbypass

/-- A repository with a manifest in `vendor`, and this line in its ignore file. -/
def vendorRepository (line : String) : Workspace where
  tree := ⟨[(["r"], .directory), (["r", ".git"], .directory),
    (["r", ".gitignore"], .file (line ++ "\n").toUTF8 false), (["r", "vendor"], .directory),
    (["r", "vendor", "a.yaml"], .file .empty false)]⟩
  directory := ⟨"/r"⟩

theorem isUnfiltered_vendorRepository : ∃ c,
    Checker.load (vendorRepository "vendor/") ⟨"."⟩ = .ok (some c) ∧
    c.ignores (vendorRepository "vendor/") ⟨"/r/vendor"⟩ = true ∧
    IsUnfiltered (vendorRepository "vendor/") c "/r/vendor/*.yaml" := by
  obtain ⟨c, hc, hignored⟩ := exists_load_iff.2
    (show ((Checker.load (vendorRepository "vendor/") ⟨"."⟩).toOption.bind id).any
      (fun c => c.ignores (vendorRepository "vendor/") ⟨"/r/vendor"⟩) = true by decide +kernel)
  obtain ⟨root, along, hrooted, hbase, hisRoot, hall⟩ := isUnfiltered_of_literal
    (show (vendorRepository "vendor/").directory.isAbsolute = true by decide) hc
  have hsame : root ++ along = ["r"] ++ [] :=
    (Path.ofNames_inj hrooted (by decide)).1 (hbase.symm.trans (by decide +kernel))
  obtain rfl : root = ["r"] := hisRoot.eq (by decide +kernel) hsame
  obtain rfl : along = [] := List.append_cancel_left hsame
  obtain ⟨r, hr⟩ : ∃ r, Rule.ofLine? "vendor/".toList = some r :=
    Option.isSome_iff_exists.1 (by decide +kernel)
  obtain ⟨e, he, hback⟩ := show LastExcludes (appliesAt ["vendor"] true)
    (rulesAlong (vendorRepository "vendor/") ["r"] []) by decide +kernel
  have hrules : rulesAlong (vendorRepository "vendor/") ["r"] [] = [([], r)] := by
    have hexclude : sourceAt (vendorRepository "vendor/") ["r"] ([], [".git", "info", "exclude"]) =
        none := if_neg (by decide +kernel)
    have hfile : (sourceAt (vendorRepository "vendor/") ["r"] ([], [".gitignore"])).map (·.rules) =
        some [r] := by
      have hlines : Source.dropMarks (Source.readableLines (((vendorRepository "vendor/").read
          (ofNames ["r", ".gitignore"])).toOption.getD .empty)) = ["vendor/".toList] := by
        decide +kernel
      unfold sourceAt
      rw [if_pos (by decide +kernel)]
      show some ((Source.dropMarks _).filterMap Rule.ofLine?) = _
      rw [List.singleton_append, hlines, List.filterMap_cons_some hr, List.filterMap_nil]
    unfold rulesAlong filesAlong
    rw [List.flatMap_cons, hexclude, List.inits, List.map_singleton, List.nil_append,
      List.flatMap_singleton, hfile]
    rfl
  obtain rfl : e = ([], r) := by
    have := List.mem_of_find?_eq_some he
    rw [hrules] at this
    simpa using this
  obtain ⟨-, hunfiltered⟩ := hall ["r", "vendor", "*.yaml"] ["vendor"] (by decide) (by decide)
  have hdirectory : (vendorRepository "vendor/").hasDirectory
      (ofNames (leadOf ["r", "vendor", "*.yaml"])) = true := by decide +kernel
  refine ⟨c, hc, hignored, hunfiltered ([], r) false "vendor".toList 0 true ?_ ?_
    ⟨by decide, by decide, by decide, by decide⟩ (.inl ⟨rfl, .inr rfl⟩)⟩
  · rw [hdirectory]
    exact ⟨["vendor"], List.prefix_refl _, by simp, he, hback⟩
  · exact ⟨[".gitignore"], "vendor/\n", "vendor/", List.mem_cons_of_mem _ List.mem_cons_self,
      toOption_eq_some_iff.1 (by decide +kernel), by decide +kernel, by decide +kernel,
      by decide +kernel, hr⟩

theorem not_isBypassedBy_of_wildcard : ∃ c,
    Checker.load (vendorRepository "*.yaml") ⟨"."⟩ = .ok (some c) ∧
    leadOf ["r", "vendor", "a.yaml"] = ["r", "vendor", "a.yaml"] ∧
    c.ignores (vendorRepository "*.yaml") (ofNames ["r", "vendor", "a.yaml"]) = true ∧
    c.isBypassedBy (ofNames ["r", "vendor", "a.yaml"]).text = false ∧
    manifestFiles (vendorRepository "*.yaml") (some c) ["/r/vendor/a.yaml"] = .ok [] ∧
    manifestFiles (vendorRepository "*.yaml") none ["/r/vendor/a.yaml"] =
      .ok [⟨"/r/vendor/a.yaml"⟩] := by
  obtain ⟨c, hc, hall⟩ := exists_load_iff.2
    (show ((Checker.load (vendorRepository "*.yaml") ⟨"."⟩).toOption.bind id).any
      (fun c => c.ignores (vendorRepository "*.yaml") (ofNames ["r", "vendor", "a.yaml"]) &&
        !c.isBypassedBy (ofNames ["r", "vendor", "a.yaml"]).text &&
        ((manifestFiles (vendorRepository "*.yaml") (some c) ["/r/vendor/a.yaml"]).toOption ==
          some [])) = true by decide +kernel)
  rw [Bool.and_eq_true, Bool.and_eq_true, Bool.not_eq_true', beq_iff_eq] at hall
  obtain ⟨⟨hignored, hbypass⟩, hnone⟩ := hall
  exact ⟨c, hc, by decide, hignored, hbypass, toOption_eq_some_iff.1 hnone,
    toOption_eq_some_iff.1 (by decide +kernel)⟩

end Resource
end ReleaseLint
