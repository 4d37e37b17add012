/-
# Filtering is dropped on purpose

A configured pattern is not filtered if it names ignored content.  It is compared with the text
of the rules, not with what they match; still, the filtering stays in force where no rule
matches what the pattern names (`isBypassedBy_eq_false`), but for these texts:

| text of a rule, without slashes around it | drops the filtering of |
| --- | --- |
| with a wildcard, as `log*` | a pattern in which it occurs, less the stars at its end |
| with a wildcard, as `*` | a pattern that begins with it |
| of a line that is not read as it is compared, as one with blanks in front | one that names it |

The first row is meant, and it is not about matching: `log` occurs in `catalog/app.yaml`, of
which the rule `log*` matches nothing (`isBypassedBy_of_substring`).
-/

import ReleaseLint.Proofs.Ignore.Lines
import ReleaseLint.Proofs.Ignore.Loading
import ReleaseLint.Proofs.Ignore.Naming

namespace ReleaseLint

namespace Ignore

open Glob (IsLead)

variable {path pattern line content : String} {data : ByteArray} {c : Checker}

/-! ### What a pattern names -/

namespace Checker

/-- A configured pattern as it is compared with the rules: as seen from the root of the
repository, with a slash for each backslash, and without any `./` in front. -/
def compared (c : Checker) (configured : String) : String :=
  let relative := ((Path.mk configured).after? c.root).getD (Path.mk configured).clean.text
  String.ofList (dropHere (Text.replaceChar '\\' '/' relative).toList)

/-- The segments of a path. -/
def partsOf (path : String) : List String :=
  ((path.toList.splitOn '/').filter (!·.isEmpty)).map String.ofList

/-- What stands in front of a slash of a path, and the path itself, as it is written. -/
def frontsOf (path : String) : List String :=
  (path.toList.inits.filter fun t =>
    t.head?.any (· != '/') && (t == path.toList || (t ++ ['/']).isPrefixOf path.toList)).map
      String.ofList

/-- The leading runs of the segments of a path, with one slash between them or with those of the
path. -/
def runsOf (path : String) : List String :=
  (leads (partsOf path)).map ("/".intercalate ·) ++ frontsOf path

/-- What a path names without a wildcard: segments and leading runs of them. -/
def namedBy (path : String) : List String :=
  (partsOf path ++ runsOf path).filter fun t => !Glob.isPattern t

/-- The text of a rule without slashes around it. -/
def ruleText (pattern : String) : String :=
  Text.dropStart (· == '/') (Text.dropEnd (· == '/') pattern)

/-- The text of a rule without the stars at its end. -/
def stemOf (pattern : String) : String :=
  Text.dropEnd (· == '*') (ruleText pattern)

theorem isBypassedBy_eq (c : Checker) (configured : String) : c.isBypassedBy configured =
    c.patterns.any (isNamedBy (c.compared configured) (partsOf (c.compared configured))) :=
  rfl

theorem head?_ruleText (pattern : String) : (ruleText pattern).toList.head? ≠ some '/' := by
  unfold ruleText Text.dropStart
  rw [String.toList_ofList]
  exact Text.head?_dropWhile_ne '/' _

/-- The ways in which a rule drops the filtering of a pattern. -/
theorem isNamedBy_cases (h : isNamedBy path (partsOf path) pattern = true) :
    ruleText pattern ≠ "" ∧
      (ruleText pattern ∈ namedBy path ∨ Glob.isPattern (ruleText pattern) = true ∧
        (ruleText pattern ∈ runsOf path ∨
          stemOf pattern ≠ "" ∧ Text.contains path (stemOf pattern) = true)) := by
  have hhead := head?_ruleText pattern
  change (ruleText pattern != "" &&
    ((partsOf path).any (fun part => !Glob.isPattern part && part == ruleText pattern) ||
      (leads (partsOf path)).any (fun lead => "/".intercalate lead == ruleText pattern) ||
      path == ruleText pattern || Text.beginsWith path (ruleText pattern ++ "/") ||
      (Glob.isPattern (ruleText pattern) && stemOf pattern != "" &&
        Text.contains path (stemOf pattern)))) = true at h
  generalize ruleText pattern = t at h hhead ⊢
  simp only [Bool.and_eq_true, Bool.or_eq_true, bne_iff_ne, ne_eq, beq_iff_eq, List.any_eq_true,
    Bool.not_eq_true'] at h
  obtain ⟨hne, h⟩ := h
  have hfirst : t.toList.head?.any (· != '/') = true := by
    obtain ⟨a, r, hcons⟩ := List.exists_cons_of_ne_nil (l := t.toList) fun hnil =>
      hne (String.toList_inj.1 hnil)
    rw [hcons] at hhead ⊢
    simpa using hhead
  have hfront : path = t ∨ Text.beginsWith path (t ++ "/") = true → t ∈ frontsOf path := by
    intro h
    refine List.mem_map.2 ⟨t.toList, List.mem_filter.2 ⟨(List.mem_inits _ _).2 ?_, ?_⟩,
      String.ofList_toList⟩
    · rcases h with rfl | h
      · exact List.prefix_refl _
      · unfold Text.beginsWith at h
        rw [List.isPrefixOf_iff_prefix, String.toList_append] at h
        exact (List.prefix_append _ _).trans h
    · rw [hfirst, Bool.true_and, Bool.or_eq_true, beq_iff_eq]
      rcases h with rfl | h
      · exact .inl rfl
      · unfold Text.beginsWith at h
        rw [String.toList_append] at h
        exact .inr h
  -- a run is named, unless it has a wildcard
  have hrun : t ∈ runsOf path → t ∈ namedBy path ∨ Glob.isPattern t = true ∧
      (t ∈ runsOf path ∨ stemOf pattern ≠ "" ∧ Text.contains path (stemOf pattern) = true) := by
    intro hmem
    by_cases hwild : Glob.isPattern t = true
    · exact .inr ⟨hwild, .inl hmem⟩
    · exact .inl (List.mem_filter.2 ⟨List.mem_append_right _ hmem, by simpa using hwild⟩)
  refine ⟨hne, ?_⟩
  rcases h with (((⟨part, hpart, hplain, rfl⟩ | ⟨lead, hlead, rfl⟩) | h) | h) | ⟨⟨hwild, hstem⟩, h⟩
  · exact .inl (List.mem_filter.2 ⟨List.mem_append_left _ hpart, by simpa using hplain⟩)
  · exact hrun (List.mem_append_left _ (List.mem_map_of_mem hlead))
  · exact hrun (List.mem_append_right _ (hfront (.inl h)))
  · exact hrun (List.mem_append_right _ (hfront (.inr h)))
  · exact .inr ⟨hwild, .inr ⟨hstem, h⟩⟩

/-! ### The characters of what is named -/

theorem mem_of_mem_leads {α : Type} {l lead : List α} (h : lead ∈ leads l) : ∀ a ∈ lead, a ∈ l := by
  induction l generalizing lead with
  | nil => cases h
  | cons b l ih =>
    intro a ha
    rw [leads, List.mem_cons, List.mem_map] at h
    rcases h with rfl | ⟨lead, hlead, rfl⟩
    · exact List.mem_singleton.1 ha ▸ List.mem_cons_self
    · rcases List.mem_cons.1 ha with rfl | ha
      · exact List.mem_cons_self
      · exact List.mem_cons_of_mem b (ih hlead a ha)

/-- What is named has only characters of the path, and slashes. -/
theorem mem_of_mem_namedBy {t : String} {d : Char} (h : t ∈ namedBy path) (hd : d ∈ t.toList) :
    d = '/' ∨ d ∈ path.toList := by
  have hpart : ∀ part ∈ partsOf path, d ∈ part.toList → d ∈ path.toList := by
    intro part hpart hd
    obtain ⟨piece, hpiece, rfl⟩ := List.mem_map.1 hpart
    rw [String.toList_ofList] at hd
    exact Text.mem_of_mem_splitOn (List.mem_filter.1 hpiece).1 hd
  rcases List.mem_append.1 (List.mem_filter.1 h).1 with h | h
  · exact .inr (hpart t h hd)
  rcases List.mem_append.1 h with h | h
  · obtain ⟨lead, hlead, rfl⟩ := List.mem_map.1 h
    rcases mem_of_mem_joined hd with hslash | ⟨part, hmem, hd⟩
    · exact .inl hslash
    · exact .inr (hpart part (mem_of_mem_leads hlead part hmem) hd)
  · obtain ⟨front, hfront, rfl⟩ := List.mem_map.1 h
    rw [String.toList_ofList] at hd
    exact .inr (((List.mem_inits _ _).1 (List.mem_filter.1 hfront).1).subset hd)

theorem dropHere_suffix (s : List Char) : dropHere s <:+ s := by
  fun_induction dropHere s with
  | case1 r ih => exact ih.trans ((List.suffix_cons '/' r).trans (List.suffix_cons '.' _))
  | case2 s => exact List.suffix_refl s

/-- A pattern is compared without backslashes. -/
theorem backslash_not_mem_compared (c : Checker) (configured : String) :
    '\\' ∉ (c.compared configured).toList := by
  unfold compared Text.replaceChar
  dsimp only
  rw [String.toList_ofList, String.toList_ofList]
  intro h
  obtain ⟨d, -, hd⟩ := List.mem_map.1 ((dropHere_suffix _).subset h)
  split_ifs at hd with hback
  · cases hd
  · exact hback hd

end Checker

/-! ### Lines that are written as they are read -/

open Checker (ruleText stemOf namedBy runsOf)

/-- Whether a line is read as it is compared: without blanks or a byte order mark in front, two
slashes at an end, and braces that close nothing. -/
structure IsPlainLine (line : String) : Prop where
  front : ∀ a ∈ line.toList.head?, Text.isBlank a = false ∧ a ≠ '\ufeff'
  slashes : ¬['/', '/'] <+: (Text.trim line).toList ∧ ¬['/', '/'] <:+ (Text.trim line).toList
  brace : '\x7d' ∉ line.toList

theorem IsPlainLine.toList_trim (h : IsPlainLine line) :
    (Text.trim line).toList = Text.dropEndChars Text.isBlank line.toList := by
  have hdrop : line.toList.dropWhile Text.isBlank = line.toList := by
    cases hline : line.toList with
    | nil => rfl
    | cons a r =>
      have ha := (h.front a (by rw [hline]; rfl)).1
      rw [List.dropWhile_cons_of_neg (by simp [ha])]
  unfold Text.trim Text.trimChars
  rw [String.toList_ofList, hdrop]

/-- A line begins as it is compared. -/
theorem IsPlainLine.head?_trim (h : IsPlainLine line) (hne : (Text.trim line).toList ≠ []) :
    line.toList.head? = (Text.trim line).toList.head? := by
  obtain ⟨a, s, hs⟩ := List.exists_cons_of_ne_nil hne
  have hpre := Text.dropEndChars_prefix Text.isBlank line.toList
  rw [← h.toList_trim, hs] at hpre
  obtain ⟨r, hr⟩ := hpre
  rw [hs, ← hr]
  rfl

/-- A line is read as it is compared, unless a backslash stands at its end. -/
theorem IsPlainLine.trimLine_eq (h : IsPlainLine line) (hback : '\\' ∉ (Text.trim line).toList) :
    Rule.trimLine line.toList = (Text.trim line).toList := by
  unfold Rule.trimLine
  rw [if_neg, h.toList_trim]
  intro hsuffix
  obtain ⟨u, hu⟩ := List.isSuffixOf_iff_suffix.1 hsuffix
  refine hback ?_
  have hblank : Text.isBlank ' ' = true := by decide
  have hslash : ¬Text.isBlank '\\' = true := by decide
  rw [h.toList_trim, ← hu]
  unfold Text.dropEndChars
  rw [List.reverse_append, List.reverse_cons, List.reverse_singleton, List.singleton_append,
    List.cons_append, List.singleton_append, List.dropWhile_cons_of_pos hblank,
    List.dropWhile_cons_of_neg hslash, List.mem_reverse]
  exact List.mem_cons_self

theorem toList_ruleText (pattern : String) : (ruleText pattern).toList =
    (Text.dropEndChars (· == '/') pattern.toList).dropWhile (· == '/') := by
  unfold ruleText Text.dropStart Text.dropEnd
  rw [String.toList_ofList, String.toList_ofList]

/-- Around its text a rule has at most the slashes of a literal rule. -/
theorem exists_eq_literalRule (hfront : ¬['/', '/'] <+: pattern.toList)
    (hend : ¬['/', '/'] <:+ pattern.toList) : ∃ bound directoriesOnly,
      pattern.toList = literalRule bound (ruleText pattern).toList 0 directoriesOnly := by
  have hinner : ¬['/', '/'] <+: Text.dropEndChars (· == '/') pattern.toList :=
    fun h => hfront (h.trans (Text.dropEndChars_prefix _ _))
  have hstart := Text.eq_dropWhile_or hinner
  rw [← toList_ruleText] at hstart
  unfold literalRule
  simp only [List.replicate_zero, List.append_nil]
  rcases Text.eq_dropEndChars_or hend with hend | hend
  all_goals
    rcases hstart with hstart | hstart
    all_goals rw [hstart] at hend
  · exact ⟨false, false, by simpa using hend⟩
  · exact ⟨true, false, by simpa using hend⟩
  · exact ⟨false, true, by simpa using hend⟩
  · exact ⟨true, true, by simpa using hend⟩

theorem getLast?_ruleText (pattern : String) : (ruleText pattern).toList.getLast? ≠ some '/' := by
  intro h
  have hsuffix : (ruleText pattern).toList <:+ Text.dropEndChars (· == '/') pattern.toList := by
    rw [toList_ruleText]
    exact List.dropWhile_suffix _
  obtain ⟨front, hfront⟩ := List.getLast?_eq_some_iff.1 h
  obtain ⟨more, hmore⟩ := hsuffix
  have hlast : (Text.dropEndChars (· == '/') pattern.toList).getLast? = some '/' := by
    rw [← hmore, hfront, ← List.append_assoc, List.getLast?_concat]
  unfold Text.dropEndChars at hlast
  rw [List.getLast?_reverse] at hlast
  exact Text.head?_dropWhile_ne '/' _ hlast

/-- **A line whose text is named is a literal rule.** -/
theorem IsPlainLine.exists_literalRule (h : IsPlainLine line) (hback : '\\' ∉ path.toList)
    (hnamed : ruleText (Text.trim line) ∈ namedBy path) (hne : ruleText (Text.trim line) ≠ "") :
    ∃ body bound directoriesOnly, ruleText (Text.trim line) = String.ofList body ∧ IsBody body 0 ∧
      (Text.trim line).toList = literalRule bound body 0 directoriesOnly ∧
      Rule.trimLine line.toList = literalRule bound body 0 directoriesOnly := by
  obtain ⟨bound, directoriesOnly, htext⟩ := exists_eq_literalRule h.slashes.1 h.slashes.2
  have hmem : ∀ a ∈ (ruleText (Text.trim line)).toList, a ∈ (Text.trim line).toList := by
    intro a ha
    rw [htext]
    exact List.mem_append_left _ (List.mem_append_right _ (List.mem_append_left _ ha))
  have hnoback : '\\' ∉ (ruleText (Text.trim line)).toList := by
    intro ha
    rcases Checker.mem_of_mem_namedBy hnamed ha with ha | ha
    · cases ha
    · exact hback ha
  have hwild : Glob.isPattern (ruleText (Text.trim line)) = false := by
    simpa using (List.mem_filter.1 hnamed).2
  have hbody : IsBody (ruleText (Text.trim line)).toList 0 := by
    refine ⟨fun a ha => ?_, fun hnil => hne (String.toList_inj.1 hnil),
      Checker.head?_ruleText _, fun _ => getLast?_ruleText _⟩
    have hbrace : a ≠ '\x7d' := by
      rintro rfl
      refine h.brace ((Text.dropEndChars_prefix Text.isBlank _).subset ?_)
      rw [← h.toList_trim]
      exact hmem _ ha
    have hstay : a ≠ '\\' := by
      rintro rfl
      exact hnoback ha
    have hplain := List.any_eq_false.1 hwild a ha
    simp only [Bool.or_eq_true, beq_iff_eq, not_or] at hplain
    simp [hplain, hbrace, hstay]
  refine ⟨_, bound, directoriesOnly, String.ofList_toList.symm, hbody, htext, ?_⟩
  rw [h.trimLine_eq, htext]
  rw [htext]
  intro ha
  unfold literalRule at ha
  simp only [List.mem_append, List.replicate_zero, List.append_nil] at ha
  rcases ha with (ha | ha) | ha
  · split_ifs at ha <;> simp at ha
  · exact hnoback ha
  · split_ifs at ha <;> simp at ha

/-! ### Their rules -/

/-- A rule that takes back begins with an exclamation mark. -/
theorem head?_of_leader {s : List Char} (h : (Rule.leader s).1 = true) : s.head? = some '!' := by
  unfold Rule.leader at h
  split at h
  all_goals first | rfl | cases h

theorem literalRule_ne_nil {body : List Char} {stars : Nat} {bound directoriesOnly : Bool}
    (hbody : IsBody body stars) : literalRule bound body stars directoriesOnly ≠ [] := by
  intro hnil
  unfold literalRule at hnil
  obtain ⟨-, hbody'⟩ := List.append_eq_nil_iff.1 (List.append_eq_nil_iff.1 hnil).1
  exact hbody.ne_nil (List.append_eq_nil_iff.1 hbody').1

/-- A literal rule is read, and matches what it names. -/
theorem exists_rule_of_literal {body chars : List Char} {bound directoriesOnly : Bool}
    (hbody : IsBody body 0)
    (htrim : Rule.trimLine chars = literalRule bound body 0 directoriesOnly)
    (hcomment : chars.head? ≠ some '#')
    (hback : (literalRule bound body 0 directoriesOnly).head? ≠ some '!') :
    ∃ r, Rule.ofLine? chars = some r ∧ r.reincludes = false ∧
      r.isMatch (String.ofList body) true = true := by
  obtain ⟨lead, front, hlead, hfloat, -⟩ := Rule.exists_isLead_float bound body
  have hleader := (Rule.leader_literalRule bound directoriesOnly hbody).resolve_left fun h =>
    hback (head?_of_leader h)
  have htrailer : Rule.trailer (body ++ List.replicate 0 '*' ++ if directoriesOnly then ['/'] else []) =
      (directoriesOnly, body ++ List.replicate 0 '*') := Rule.trailer_literal hbody
  rw [List.replicate_zero, List.append_nil] at hleader htrailer
  have hparse : Glob.parse .ignore (String.ofList (Rule.descend (Rule.float bound body))) =
      .ok (front ++ body.map .literal) := by
    have hdescend := Rule.descend_stars hbody lead
    have hpieces := Glob.parse_stars hlead hbody.literal hbody.ne_nil (n := 0) (.inr (by decide))
    rw [if_neg fun h => absurd h.2 (by decide)] at hdescend
    simp only [List.replicate_zero, List.append_nil] at hdescend hpieces
    rw [hfloat, hdescend, hpieces]
  have hnonempty : (literalRule bound body 0 directoriesOnly).isEmpty = false :=
    List.isEmpty_eq_false_iff.2 (literalRule_ne_nil hbody)
  refine ⟨⟨front ++ body.map .literal, false, directoriesOnly⟩, ?_, rfl, ?_⟩
  · unfold Rule.ofLine?
    dsimp only
    rw [htrim, if_neg (by simp [hcomment, hnonempty]), hleader, htrailer]
    dsimp only
    rw [hparse]
  · unfold Rule.isMatch
    rw [Bool.true_or, Bool.true_and, Glob.isMatch_literals hlead hbody.ne_nil]

theorem mem_dropMarks {lines : List (List Char)} {chars : List Char} (h : chars ∈ lines)
    (hmark : chars.head? ≠ some '\ufeff') : chars ∈ Source.dropMarks lines := by
  cases lines with
  | nil => cases h
  | cons first lines =>
    rw [Source.dropMarks, List.mem_cons]
    rcases List.mem_cons.1 h with rfl | h
    · left
      cases chars with
      | nil => rfl
      | cons a r =>
        rw [List.dropWhile_cons_of_neg]
        simpa using hmark
    · exact .inr h

/-- The lines of an ignore file, if it is a text. -/
def linesOf (data : ByteArray) : List String :=
  ((String.fromUTF8? data).map Text.lines).getD []

/-- The patterns of an ignore file are lines without blanks around them. -/
theorem exists_line_of_mem_patterns {directory : Path}
    (h : pattern ∈ (Source.ofData directory data).patterns) :
    ∃ line ∈ linesOf data, pattern = Text.trim line ∧
      pattern.toList.head? ≠ some '#' ∧ pattern.toList.head? ≠ some '!' := by
  have hbegins : ∀ a : Char, pattern.toList.head? = some a →
      Text.beginsWith pattern (String.ofList [a]) = true := by
    intro a ha
    obtain ⟨r, hr⟩ := List.head?_eq_some_iff.1 ha
    unfold Text.beginsWith
    rw [String.toList_ofList, hr, List.isPrefixOf_iff_prefix]
    exact ⟨r, rfl⟩
  change pattern ∈ ((String.fromUTF8? data).map Source.patternsOf).getD [] at h
  unfold linesOf
  cases hcontent : String.fromUTF8? data with
  | none =>
    rw [hcontent] at h
    cases h
  | some content =>
    rw [hcontent] at h
    change pattern ∈ Source.patternsOf content at h
    obtain ⟨hmem, hkept⟩ := List.mem_filter.1 h
    obtain ⟨line, hline, rfl⟩ := List.mem_map.1 hmem
    rw [Bool.and_eq_true, Bool.and_eq_true, Bool.not_eq_true', Bool.not_eq_true'] at hkept
    refine ⟨line, hline, rfl, fun ha => ?_, fun ha => ?_⟩
    · exact Bool.false_ne_true (hkept.1.2.symm.trans (hbegins '#' ha))
    · exact Bool.false_ne_true (hkept.2.symm.trans (hbegins '!' ha))

/-- The rule of a line is one of its file. -/
theorem mem_rules {directory : Path} {r : Rule} (hline : line ∈ linesOf data)
    (hmark : line.toList.head? ≠ some '\ufeff') (hrule : Rule.ofLine? line.toList = some r) :
    r ∈ (Source.ofData directory data).rules := by
  unfold linesOf at hline
  cases hcontent : String.fromUTF8? data with
  | none =>
    rw [hcontent] at hline
    cases hline
  | some content =>
    rw [hcontent] at hline
    obtain ⟨chars, hchars, rfl⟩ := List.mem_map.1 hline
    rw [String.toList_ofList] at hmark hrule
    have hmem : chars ∈ Source.readableLines data := by rwa [readableLines_eq hcontent]
    change r ∈ (Source.dropMarks (Source.readableLines data)).filterMap Rule.ofLine?
    exact List.mem_filterMap.2 ⟨chars, mem_dropMarks hmem hmark, hrule⟩

/-! ### What drops the filtering -/

/-- The checker of a repository with these ignore files: the directory and the content of each. -/
def Checker.ofFiles (root : Path) (files : List (Path × ByteArray)) : Checker :=
  ⟨root, files.map fun f => .ofData f.1 f.2⟩

/-- Every checker that is loaded is that of some files of the workspace. -/
theorem exists_ofFiles_of_load {w : Workspace} {base : Path}
    (hw : w.directory.isAbsolute = true) (h : Checker.load w base = .ok (some c)) :
    ∃ files, c = .ofFiles c.root files ∧
      ∀ f ∈ files, ∃ file, w.hasFile file = true ∧ f.2 = (w.read file).toOption.getD .empty := by
  obtain ⟨root, along, -, -, -, rfl⟩ := load_eq_ok hw h
  -- the file at some names, with the directory that its rules are read from
  let fileAt (e : Names × Names) : Option (Path × ByteArray) :=
    if w.hasFile (Path.ofNames (root ++ e.2)) then
      some (Path.ofNames (root ++ e.1),
        (w.read (Path.ofNames (root ++ e.2))).toOption.getD .empty)
    else none
  refine ⟨(filesAlong along).filterMap fileAt, ?_, fun f hf => ?_⟩
  · have hsource : sourceAt w root = fun e =>
        (fileAt e).map fun f => Source.ofData f.1 f.2 := by
      funext e
      dsimp only [fileAt]
      unfold sourceAt
      split_ifs <;> rfl
    unfold Checker.ofFiles
    rw [List.map_filterMap, hsource]
  · obtain ⟨e, -, he⟩ := List.mem_filterMap.1 hf
    dsimp only [fileAt] at he
    split_ifs at he with hfile
    obtain rfl := Option.some.inj he
    exact ⟨_, hfile, rfl⟩

/-- **Filtering is dropped on purpose.**  If no rule matches what a pattern names without a
wildcard, and no text of a rule with one occurs in the pattern, the filtering stays in force.
Nothing is said of a rule with a wildcard that the pattern begins with, nor of a line that the
pattern names and that is not read as it is compared. -/
theorem isBypassedBy_eq_false {root : Path} {files : List (Path × ByteArray)}
    {configured path : String} (hpath : (Checker.ofFiles root files).compared configured = path)
    (hrules : ∀ f ∈ files, ∀ r ∈ (Source.ofData f.1 f.2).rules, r.reincludes = false →
      ∀ t ∈ namedBy path, ∀ isDirectory, r.isMatch t isDirectory = false)
    (hstems : ∀ pattern ∈ (Checker.ofFiles root files).patterns,
      Glob.isPattern (ruleText pattern) = true →
        stemOf pattern = "" ∨ Text.contains path (stemOf pattern) = false)
    (hruns : ∀ pattern ∈ (Checker.ofFiles root files).patterns,
      Glob.isPattern (ruleText pattern) = true → ruleText pattern ∉ runsOf path)
    (hplain : ∀ f ∈ files, ∀ line ∈ linesOf f.2,
      Text.trim line ∈ (Source.ofData f.1 f.2).patterns →
        ruleText (Text.trim line) ∈ namedBy path → IsPlainLine line) :
    (Checker.ofFiles root files).isBypassedBy configured = false := by
  by_contra hbypass
  rw [Bool.not_eq_false, Checker.isBypassedBy_eq, hpath, List.any_eq_true] at hbypass
  obtain ⟨pattern, hpattern, hnames⟩ := hbypass
  obtain ⟨hne, hnamed | ⟨hwild, hrun | ⟨hstem, hcontains⟩⟩⟩ := Checker.isNamedBy_cases hnames
  · -- the line of the text is a rule, which matches it
    obtain ⟨source, hsource, hsourced⟩ := List.mem_flatMap.1 hpattern
    obtain ⟨f, hf, rfl⟩ := List.mem_map.1 hsource
    obtain ⟨line, hline, rfl, hcomment, hback⟩ := exists_line_of_mem_patterns hsourced
    have hwritten := hplain f hf line hline hsourced hnamed
    have hnoback : '\\' ∉ path.toList :=
      hpath ▸ Checker.backslash_not_mem_compared (Checker.ofFiles root files) configured
    obtain ⟨body, bound, directoriesOnly, htext, hbody, htrim, hread⟩ :=
      hwritten.exists_literalRule hnoback hnamed hne
    have hnonempty : (Text.trim line).toList ≠ [] := by
      rw [htrim]
      exact literalRule_ne_nil hbody
    rw [← hwritten.head?_trim hnonempty] at hcomment
    rw [htrim] at hback
    obtain ⟨r, hr, hreincludes, hmatch⟩ := exists_rule_of_literal hbody hread hcomment hback
    have hnone := hrules f hf r (mem_rules hline (fun ha => (hwritten.front _ ha).2 rfl) hr)
      hreincludes _ hnamed true
    rw [htext, hmatch] at hnone
    cases hnone
  · exact hruns pattern hpattern hwild hrun
  · rcases hstems pattern hpattern hwild with hempty | hnot
    · exact hstem hempty
    · rw [hcontains] at hnot
      cases hnot

/-- A repository with one ignore file, at its root. -/
def Checker.ofText (content : String) : Checker :=
  .ofFiles ⟨"/r"⟩ [(⟨"/r"⟩, content.toUTF8)]

/-- A directory that is ignored, and files, do not concern what lies elsewhere. -/
theorem isBypassedBy_eq_false_of_charts :
    (Checker.ofText "vendor/\n*.log\n").isBypassedBy "/r/charts/*.yaml" = false := by
  have hpath : (Checker.ofText "vendor/\n*.log\n").compared "/r/charts/*.yaml" = "charts/*.yaml" := by
    decide +kernel
  refine isBypassedBy_eq_false hpath (by decide +kernel) (by decide +kernel) (by decide +kernel)
    fun f hf line hline _ hnamed => ?_
  have hnone : ∀ f ∈ [((⟨"/r"⟩ : Path), "vendor/\n*.log\n".toUTF8)], ∀ line ∈ linesOf f.2,
      ruleText (Text.trim line) ∉ namedBy "charts/*.yaml" := by decide +kernel
  exact absurd hnamed (hnone f hf line hline)

-- a pattern that begins with a rule, and one that names a line whose rule begins with blanks
example : (Checker.ofText "*\n").isBypassedBy "/r/*" = true ∧
    (Checker.ofText "  vendor\n").isBypassedBy "/r/vendor/*" = true := by
  decide +kernel

/-- The text of a rule occurs in a pattern that the rule does not match. -/
theorem isBypassedBy_of_substring :
    (∀ s ∈ (Checker.ofText "log*\n").sources, ∀ r ∈ s.rules,
      ∀ t ∈ namedBy ((Checker.ofText "log*\n").compared "/r/catalog/app.yaml"), ∀ isDirectory,
        r.isMatch t isDirectory = false) ∧
    (Checker.ofText "log*\n").isBypassedBy "/r/catalog/app.yaml" = true := by
  decide +kernel

end Ignore
end ReleaseLint
