/-
# What a configured path names

A configured path names ignored content on purpose if its text, as seen from the root of the
repository, fits the text of an ignore rule (`isNamedBy`).  The two are compared as texts, so
that only literal rules are sure to fit what they exclude:

| rule | fits a path |
| --- | --- |
| `name` | with this name in it (`isNamedBy_of_mem`) |
| `a/name` | that begins with these names, from the root (`isNamedBy_of_begins`) |
| `text*`, `text**`, … | in which the text occurs (`isNamedBy_of_infix`) |

What leads through an entry that such a rule matches is named by it (`isNamedBy_of_isMatch`).
-/

import ReleaseLint.Proofs.Ignore.Literal
import ReleaseLint.Proofs.Ignore.Verdict

namespace ReleaseLint

namespace Path

variable {root q names : Names}

theorem dropSegments_names (h : AreNames (root ++ q)) :
    dropSegments root.length false ((root ++ q).map String.toList) = q.map String.toList := by
  induction root with
  | nil => cases q <;> rfl
  | cons s r ih =>
    have hs := segment?_name (h s List.mem_cons_self)
    rw [List.length_cons, List.cons_append, List.map_cons, dropSegments,
      if_pos (.inr (.inl (by rw [hs]; rfl)))]
    exact ih fun t ht => h t (List.mem_cons_of_mem s ht)

/-- Behind the path at some names stand the names that follow. -/
theorem after?_ofNames (h : AreNames (root ++ q)) :
    (ofNames (root ++ q)).after? (ofNames root) = some ("/".intercalate q) := by
  by_cases hnil : root ++ q = []
  · obtain ⟨rfl, rfl⟩ := List.append_eq_nil_iff.1 hnil
    decide +kernel
  have hidle : ∀ piece ∈ q.map String.toList, ¬(piece = [] ∨ piece = ['.']) := by
    intro piece hpiece
    obtain ⟨s, hs, rfl⟩ := List.mem_map.1 hpiece
    have hname := h s (List.mem_append_right root hs)
    exact not_or.2 ⟨Segment.IsStep.text_ne_nil hname, Segment.IsStep.text_ne_dot hname⟩
  have hdrop : ∀ pieces : List (List Char), (∀ piece ∈ pieces, ¬(piece = [] ∨ piece = ['.'])) →
      (pieces.dropWhile fun piece => decide (piece = [] ∨ piece = ['.'])) = pieces := by
    intro pieces hpieces
    cases pieces with
    | nil => rfl
    | cons piece r => rw [List.dropWhile_cons_of_neg (by simpa using hpieces _ List.mem_cons_self)]
  have hsegments : dropSegments (root.length + 1) true ([] :: (root ++ q).map String.toList) =
      q.map String.toList := by
    rw [dropSegments, if_pos (.inr (.inr rfl))]
    exact dropSegments_names h
  have hjoined : String.ofList (List.intercalate ['/'] (q.map String.toList)) =
      "/".intercalate q := by
    by_cases hq : q = []
    · rw [hq]
      rfl
    · rw [← splitOn_joined h.right hq, List.intercalate_splitOn, String.ofList_toList]
  unfold after?
  rw [Ignore.below?_ofNames h h.left, if_pos (List.prefix_append root q), Option.map_some,
    splitOn_text_ofNames h hnil, segments_ofNames h.left, List.length_cons, List.length_map]
  dsimp only
  rw [hsegments, hdrop _ hidle]
  unfold dropIdle
  rw [hdrop _ fun piece hp => hidle piece (List.mem_reverse.1 hp), List.reverse_reverse, hjoined]

end Path

namespace Ignore

open Path (ofNames)
open Segment (IsName)

variable {q names m more : Names} {body : List Char} {stars : Nat} {bound directoriesOnly : Bool}
variable {path : String} {parts : List String} {s : String}

/-! ### The pattern of a literal rule -/

/-- The text of a rule without the slashes around it. -/
theorem trimmed_literalRule (h : IsBody body stars) :
    Text.dropStart (· == '/') (Text.dropEnd (· == '/')
      (String.ofList (literalRule bound body stars directoriesOnly))) =
        String.ofList (body ++ List.replicate stars '*') := by
  have hlast := h.getLast?_ne
  have hend : ∀ front : List Char, Text.dropEndChars (· == '/')
      (front ++ (body ++ List.replicate stars '*')) = front ++ (body ++ List.replicate stars '*') := by
    intro front
    obtain ⟨init, c, hinit⟩ := (List.eq_nil_or_concat (body ++ List.replicate stars '*')).resolve_left
      (by simp [h.ne_nil])
    rw [List.concat_eq_append] at hinit
    rw [hinit, List.getLast?_concat] at hlast
    have hc : c ≠ '/' := fun hc => hlast (by rw [hc])
    unfold Text.dropEndChars
    rw [hinit, ← List.append_assoc, List.reverse_append, List.reverse_singleton,
      List.singleton_append, List.dropWhile_cons_of_neg (by simpa using hc), List.reverse_cons,
      List.reverse_reverse]
  have htail : ∀ s : List Char, Text.dropEndChars (· == '/') (s ++ ['/']) =
      Text.dropEndChars (· == '/') s := by
    intro s
    unfold Text.dropEndChars
    rw [List.reverse_append, List.reverse_singleton, List.singleton_append,
      List.dropWhile_cons_of_pos (by rfl)]
  have hboth : Text.dropEndChars (· == '/') (literalRule bound body stars directoriesOnly) =
      (if bound then ['/'] else []) ++ (body ++ List.replicate stars '*') := by
    unfold literalRule
    cases directoriesOnly with
    | true => rw [if_pos rfl, htail, hend]
    | false => rw [if_neg Bool.false_ne_true, List.append_nil, hend]
  have hhead : (body ++ List.replicate stars '*').dropWhile (· == '/') =
      body ++ List.replicate stars '*' := by
    obtain ⟨c, cs, rfl⟩ := List.exists_cons_of_ne_nil h.ne_nil
    have hc : c ≠ '/' := fun hc => h.head (congrArg some hc)
    rw [List.cons_append, List.dropWhile_cons_of_neg (by simpa using hc)]
  unfold Text.dropStart Text.dropEnd
  rw [String.toList_ofList, String.toList_ofList, hboth]
  cases bound with
  | true => rw [if_pos rfl, List.singleton_append, List.dropWhile_cons_of_pos (by rfl), hhead]
  | false => rw [if_neg Bool.false_ne_true, List.nil_append, hhead]

/-- What is left of a rule without the stars at its end. -/
theorem stem_literal (h : IsBody body stars) :
    Text.dropEnd (· == '*') (String.ofList (body ++ List.replicate stars '*')) =
      String.ofList body := by
  obtain ⟨init, c, rfl⟩ := (List.eq_nil_or_concat body).resolve_left h.ne_nil
  rw [List.concat_eq_append] at h ⊢
  have hc : c ≠ '*' := fun hc => h.literal c (by simp) (by rw [hc]; decide)
  unfold Text.dropEnd Text.dropEndChars
  rw [String.toList_ofList, List.reverse_append, List.reverse_replicate, List.dropWhile_append_of_pos
    (fun x hx => by rw [List.eq_of_mem_replicate hx]; rfl), List.reverse_append,
    List.reverse_singleton, List.singleton_append, List.dropWhile_cons_of_neg (by simpa using hc),
    List.reverse_cons, List.reverse_reverse]

theorem isPattern_body (h : IsBody body stars) : Glob.isPattern (String.ofList body) = false := by
  unfold Glob.isPattern
  rw [String.toList_ofList, List.any_eq_false]
  intro c hc
  have := h.literal c hc
  simp only [List.mem_cons, not_or, List.not_mem_nil, not_false_eq_true, and_true] at this
  simp [this]

/-! ### What it fits -/

/-- What a literal rule has to fit. -/
theorem isNamedBy_literal (h : IsBody body stars) {pattern : String}
    (hpattern : pattern = String.ofList (body ++ List.replicate stars '*')) :
    Checker.isNamedBy path parts (String.ofList (literalRule bound body stars directoriesOnly)) =
      (parts.any (fun part => !Glob.isPattern part && part == pattern) ||
        (Checker.leads parts).any (fun lead => "/".intercalate lead == pattern) ||
        path == pattern || Text.beginsWith path (pattern ++ "/") ||
        (Glob.isPattern pattern && Text.contains path (String.ofList body))) := by
  have hne : ∀ cs : List Char, cs ≠ [] → (String.ofList cs != "") = true := by
    intro cs hcs
    rw [bne_iff_ne, ne_eq, ← String.toList_inj, String.toList_ofList]
    simpa using hcs
  unfold Checker.isNamedBy
  dsimp only
  rw [trimmed_literalRule h, stem_literal h, ← hpattern, hne body h.ne_nil, Bool.and_true, hpattern,
    hne _ (by simp [h.ne_nil]), Bool.true_and]

/-- A rule with one name fits a path with this name in it. -/
theorem isNamedBy_of_mem (h : IsBody body 0) (hpart : String.ofList body ∈ parts) :
    Checker.isNamedBy path parts (String.ofList (literalRule bound body 0 directoriesOnly)) = true := by
  have hpattern : String.ofList body = String.ofList (body ++ List.replicate 0 '*') := by simp
  rw [isNamedBy_literal h hpattern]
  have hany : (parts.any fun part => !Glob.isPattern part && part == String.ofList body) = true :=
    List.any_eq_true.2 ⟨_, hpart, by rw [isPattern_body h]; simp⟩
  rw [hany]
  rfl

/-- A rule with several names fits a path that begins with them. -/
theorem isNamedBy_of_begins (h : IsBody body 0)
    (hpath : path.toList = body ∨ ∃ r, path.toList = body ++ '/' :: r) :
    Checker.isNamedBy path parts (String.ofList (literalRule bound body 0 directoriesOnly)) = true := by
  have hpattern : String.ofList body = String.ofList (body ++ List.replicate 0 '*') := by simp
  rw [isNamedBy_literal h hpattern]
  rcases hpath with hpath | ⟨r, hpath⟩
  · have heq : path = String.ofList body := by rw [← hpath, String.ofList_toList]
    simp [heq]
  · have hbegins : Text.beginsWith path (String.ofList body ++ "/") = true := by
      unfold Text.beginsWith
      rw [List.isPrefixOf_iff_prefix, hpath, String.toList_append, String.toList_ofList]
      exact ⟨r, by simp⟩
    simp [hbegins]

/-- A rule with stars fits a path in which the text before them occurs. -/
theorem isNamedBy_of_infix (h : IsBody body stars) (hstars : 0 < stars)
    (hpath : body <:+: path.toList) :
    Checker.isNamedBy path parts (String.ofList (literalRule bound body stars directoriesOnly)) =
      true := by
  rw [isNamedBy_literal h rfl]
  have hpattern : Glob.isPattern (String.ofList (body ++ List.replicate stars '*')) = true := by
    unfold Glob.isPattern
    rw [String.toList_ofList, List.any_eq_true]
    exact ⟨'*', by simp; omega, rfl⟩
  have hcontains : Text.contains path (String.ofList body) = true := by
    unfold Text.contains
    rwa [String.toList_ofList, Text.occursIn_iff]
  rw [hpattern, hcontains, Bool.and_true, Bool.or_true]

/-! ### The configured path -/

/-- The text of a configured path that is compared with the rules. -/
def comparedText (names : Names) : String :=
  String.ofList (Checker.dropHere (Text.replaceChar '\\' '/' ("/".intercalate names)).toList)

/-- Its parts between slashes. -/
def comparedParts (names : Names) : List String :=
  (((comparedText names).toList.splitOn '/').filter (!·.isEmpty)).map String.ofList

theorem isBypassedBy_ofNames {c : Checker} {root : Names} (hroot : c.root = ofNames root)
    (h : AreNames (root ++ q)) :
    c.isBypassedBy (ofNames (root ++ q)).text =
      c.patterns.any (Checker.isNamedBy (comparedText q) (comparedParts q)) := by
  have hafter : (Path.mk (ofNames (root ++ q)).text).after? c.root = some ("/".intercalate q) := by
    rw [hroot]
    exact Path.after?_ofNames h
  unfold Checker.isBypassedBy
  rw [hafter]
  rfl

theorem mem_splitOn_dropHere {l piece : List Char} (h : piece ∈ l.splitOn '/') (hne : piece ≠ ['.']) :
    piece ∈ (Checker.dropHere l).splitOn '/' := by
  fun_induction Checker.dropHere l with
  | case1 r ih =>
    refine ih ?_
    have hsplit : ('.' :: '/' :: r).splitOn '/' = ['.'] :: r.splitOn '/' := by
      rw [← List.singleton_append, List.splitOn_append_cons_self]
      rfl
    rw [hsplit] at h
    exact (List.mem_cons.1 h).resolve_left hne
  | case2 l => exact h

/-- How a path is written for the comparison. -/
def unified (cs : List Char) : List Char :=
  cs.map fun c => if c = '\\' then '/' else c

theorem toList_comparedText (names : Names) :
    (comparedText names).toList = Checker.dropHere (unified ("/".intercalate names).toList) := by
  unfold comparedText Text.replaceChar unified
  rw [String.toList_ofList, String.toList_ofList]

theorem unified_eq {cs : List Char} (h : '\\' ∉ cs) : unified cs = cs := by
  unfold unified
  refine (List.map_congr_left fun c hc => ?_).trans (List.map_id _)
  exact if_neg fun heq : c = '\\' => h (heq ▸ hc)

theorem unified_append_cons (a b : List Char) :
    unified (a ++ '/' :: b) = unified a ++ '/' :: unified b := by
  unfold unified
  rw [List.map_append, List.map_cons, if_neg (by decide)]

/-- A name without a backslash is a part. -/
theorem mem_comparedParts (h : AreNames q) (hs : s ∈ q) (hback : '\\' ∉ s.toList) :
    s ∈ comparedParts q := by
  have hname := h s hs
  have hone : s.toList.splitOn '/' = [s.toList] :=
    List.splitOn_eq_singleton (Segment.isName_iff.1 hname).1
  have hmem : s.toList ∈ (unified ("/".intercalate q).toList).splitOn '/' := by
    induction q with
    | nil => exact absurd hs List.not_mem_nil
    | cons t r ih =>
      have htail : AreNames r := fun u hu => h u (List.mem_cons_of_mem t hu)
      by_cases hr : r = []
      · rw [hr] at hs ⊢
        rw [String.intercalate_singleton, ← List.mem_singleton.1 hs, unified_eq hback, hone]
        exact List.mem_singleton_self _
      · rw [toList_joined_cons hr, unified_append_cons, List.splitOn_append_cons_self]
        rcases List.mem_cons.1 hs with rfl | hs
        · rw [unified_eq hback, hone]
          exact List.mem_append_left _ (List.mem_singleton_self _)
        · exact List.mem_append_right _ (ih htail hs)
  unfold comparedParts
  rw [toList_comparedText, List.mem_map]
  refine ⟨s.toList, List.mem_filter.2 ⟨mem_splitOn_dropHere hmem ?_, ?_⟩, String.ofList_toList⟩
  · exact Segment.IsStep.text_ne_dot hname
  · have hne : s.toList ≠ [] := Segment.IsStep.text_ne_nil hname
    simpa using hne

theorem dropHere_eq {cs : List Char} (h : ¬['.', '/'] <+: cs) : Checker.dropHere cs = cs := by
  unfold Checker.dropHere
  split
  · exact absurd (by simp) h
  · rfl

/-- Two characters that names begin with begin the first name, but for the slash behind it. -/
theorem prefix_of_prefix_joined {a b : Char} (h : AreNames q)
    (hpre : [a, b] <+: ("/".intercalate q).toList) :
    ∃ s ∈ q, [a, b] <+: s.toList ∨ s.toList = [a] ∧ b = '/' := by
  obtain _ | ⟨s, r⟩ := q
  · exact absurd (List.prefix_nil.1 hpre) (by simp)
  refine ⟨s, List.mem_cons_self, ?_⟩
  by_cases hr : r = []
  · rw [hr, String.intercalate_singleton] at hpre
    exact .inl hpre
  have hne := Segment.IsStep.text_ne_nil (h s List.mem_cons_self)
  change s.toList ≠ [] at hne
  rw [toList_joined_cons hr] at hpre
  generalize s.toList = cs at hne hpre
  obtain _ | ⟨c, _ | ⟨d, cs⟩⟩ := cs
  · exact absurd rfl hne
  · simp only [List.cons_append, List.nil_append, List.cons_prefix_cons] at hpre
    exact .inr ⟨by rw [hpre.1], hpre.2.1⟩
  · simp only [List.cons_append, List.cons_prefix_cons] at hpre
    exact .inl (by simp [hpre.1, hpre.2.1])

/-- **A path is compared with a slash for each backslash,** unless its first name is then read
as `.`. -/
theorem toList_comparedText_eq (h : AreNames q) (hback : ∀ s ∈ q, ¬['.', '\\'] <+: s.toList) :
    (comparedText q).toList = unified ("/".intercalate q).toList := by
  rw [toList_comparedText]
  refine dropHere_eq fun hhere => ?_
  obtain ⟨r, hr⟩ := hhere
  obtain ⟨a, cs, hcs, ha, hmap⟩ := List.map_eq_cons_iff.1 hr.symm
  obtain ⟨b, cs, rfl, hb, -⟩ := List.map_eq_cons_iff.1 hmap
  have hdot : a = '.' := by
    split_ifs at ha with hslash
    · cases ha
    · exact ha
  obtain ⟨s, hs, hpre | ⟨hsame, -⟩⟩ := prefix_of_prefix_joined h
    (show [a, b] <+: ("/".intercalate q).toList from hcs ▸ by simp)
  · rw [hdot] at hpre
    split_ifs at hb with hslash
    · exact hback s hs (hslash ▸ hpre)
    · exact (Segment.isName_iff.1 (h s hs)).1 (hpre.mem (by simp [hb]))
  · rw [hdot] at hsame
    exact Segment.IsStep.text_ne_dot (h s hs) hsame

theorem head?_splitOn_of_here {cs : List Char} (h : ['.', '/'] <+: cs) :
    (cs.splitOn '/').head? = some ['.'] := by
  obtain ⟨r, rfl⟩ := h
  have hone : ['.'].splitOn '/' = [['.']] := rfl
  show ((['.'] ++ '/' :: r).splitOn '/').head? = _
  rw [List.splitOn_append_cons_self, hone]
  rfl

/-- A path begins with the names that it begins with, as they are compared. -/
theorem begins_comparedText (h : AreNames m) (hne : m ≠ [])
    (hbody : ("/".intercalate m).toList = body) (hback : '\\' ∉ body) (more : Names) :
    (comparedText (m ++ more)).toList = body ∨
      ∃ r, (comparedText (m ++ more)).toList = body ++ '/' :: r := by
  obtain ⟨s, r, rfl⟩ := List.exists_cons_of_ne_nil hne
  have hsplit := splitOn_joined h hne
  rw [hbody] at hsplit
  have hdot : s.toList ≠ ['.'] := Segment.IsStep.text_ne_dot (h s List.mem_cons_self)
  rw [toList_comparedText]
  by_cases hmore : more = []
  · rw [hmore, List.append_nil, hbody, unified_eq hback, dropHere_eq fun hpre => ?_]
    · exact .inl rfl
    · have hhead := head?_splitOn_of_here hpre
      rw [hsplit] at hhead
      exact hdot (Option.some.inj hhead)
  · rw [joined_append hne hmore, hbody, unified_append_cons, unified_eq hback,
      dropHere_eq fun hpre => ?_]
    · exact .inr ⟨_, rfl⟩
    · have hhead := head?_splitOn_of_here hpre
      rw [List.splitOn_append_cons_self, hsplit] at hhead
      exact hdot (Option.some.inj hhead)

/-! ### What is named -/

theorem mem_of_suffix_joined (h : AreNames q) (hne : body ≠ []) (hslash : '/' ∉ body)
    (hpath : ("/".intercalate q).toList = body ∨ '/' :: body <:+ ("/".intercalate q).toList) :
    String.ofList body ∈ q := by
  have hq : q ≠ [] := by
    rintro rfl
    rcases hpath with hpath | hpath
    · exact hne hpath.symm
    · exact absurd (List.suffix_nil.1 hpath) (List.cons_ne_nil _ _)
  have hone : body.splitOn '/' = [body] := List.splitOn_eq_singleton hslash
  have hmem : body ∈ ("/".intercalate q).toList.splitOn '/' := by
    rcases hpath with hpath | ⟨u, hpath⟩
    · rw [hpath, hone]
      exact List.mem_singleton_self _
    · rw [← hpath, List.splitOn_append_cons_self, hone]
      exact List.mem_append_right _ (List.mem_singleton_self _)
  rw [splitOn_joined h hq, List.mem_map] at hmem
  obtain ⟨s, hs, rfl⟩ := hmem
  rwa [String.ofList_toList]

theorem joined_infix_append (hne : m ≠ []) (q more : Names) :
    ("/".intercalate m).toList <:+: ("/".intercalate (q ++ m ++ more)).toList := by
  have hfront : ("/".intercalate m).toList <:+ ("/".intercalate (q ++ m)).toList := by
    by_cases hq : q = []
    · rw [hq, List.nil_append]
    · rw [joined_append hq hne]
      exact (List.suffix_cons '/' _).trans (List.suffix_append _ _)
  by_cases hmore : more = []
  · rw [hmore, List.append_nil]
    exact hfront.isInfix
  · rw [joined_append (by simp [hne]) hmore]
    exact hfront.isInfix.trans (List.prefix_append _ _).isInfix

variable {d : Names} {line : List Char} {r : Rule} {isDirectory : Bool}

/-- Whether a literal rule that is read from the names `d` fits the paths that it matches: a name
does everywhere, several names only from the root, and a text unless a first name is read as
`.`. -/
def IsTold (body : List Char) (stars : Nat) (d q : Names) : Prop :=
  stars = 0 ∧ ('/' ∉ body ∨ d = []) ∨ 0 < stars ∧ ∀ s ∈ q, ¬['.', '\\'] <+: s.toList

/-- **A literal rule that matches an entry fits what leads through it.** -/
theorem isNamedBy_of_isMatch (hbody : IsBody body stars)
    (htrim : Rule.trimLine line = literalRule bound body stars directoriesOnly)
    (hline : Rule.ofLine? line = some r) (hr : r.reincludes = false)
    (h : AreNames (d ++ m ++ more)) (htold : IsTold body stars d (d ++ m ++ more))
    (hmatch : r.isMatch ("/".intercalate m) isDirectory = true) :
    Checker.isNamedBy (comparedText (d ++ m ++ more)) (comparedParts (d ++ m ++ more))
      (String.ofList (literalRule bound body stars directoriesOnly)) = true := by
  obtain ⟨hplain, hstarred⟩ := Rule.isMatch_literal hbody htrim hline hr hmatch
  have hback : '\\' ∉ body := fun hmem => hbody.literal _ hmem (by decide)
  have hm : m ≠ [] := by
    rintro rfl
    rcases Nat.eq_zero_or_pos stars with hzero | hpos
    · rcases hplain hzero with heq | ⟨-, hsuffix⟩
      · exact hbody.ne_nil heq.symm
      · exact absurd (List.suffix_nil.1 hsuffix) (List.cons_ne_nil _ _)
    · exact hbody.ne_nil (List.infix_nil.1 (hstarred hpos))
  rcases htold with ⟨rfl, hnames⟩ | ⟨hpos, hnames⟩
  · by_cases hslash : '/' ∈ body
    · obtain rfl : d = [] := hnames.resolve_left (not_not_intro hslash)
      rw [List.nil_append] at h ⊢
      have heq := (hplain rfl).resolve_right fun hsuffix => hsuffix.1 hslash
      exact isNamedBy_of_begins hbody (begins_comparedText h.left hm heq hback more)
    · have hmem : String.ofList body ∈ m := mem_of_suffix_joined h.left.right hbody.ne_nil hslash
        ((hplain rfl).imp_right And.right)
      refine isNamedBy_of_mem hbody (mem_comparedParts h (by simp [hmem]) ?_)
      rwa [String.toList_ofList]
  · refine isNamedBy_of_infix hbody hpos ?_
    rw [toList_comparedText_eq h hnames, ← unified_eq hback]
    exact ((hstarred hpos).trans (joined_infix_append hm d more)).map _

end Ignore
end ReleaseLint
