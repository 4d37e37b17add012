/-
# Splitting patterns

A pattern is split before its first segment with a wildcard.  Its base is looked up as it is
written, and its tail is matched against what lies below.

| pattern | base | tail |
| --- | --- | --- |
| `/a/b` | `/a/b` | none |
| `/a],b/*/c` | `/a],b` | `*/c` |
| `/a/{b/c,d}` | `/a` | `{b/c,d}` |

A path matches the whole pattern precisely when it lies below the base and what follows matches
the tail, and what a search finds is what matches the whole pattern (`split_faithful`).  It is not
so in three places (`not_matchesBelow_iff`):

| pattern | path | whole | below its base |
| --- | --- | --- | --- |
| `/*` | `/` | matches | is not below itself |
| `/a\b/*` | `/ab/x` | matches | is not below `/a\b` |
| `/m/x[!a]y` | `/m/x/y` | matches | matches, deeper than the walk |
-/

import ReleaseLint.Proofs.Glob.Continuation
import ReleaseLint.Proofs.Glob.Readable
import ReleaseLint.Proofs.Glob.Walk

namespace ReleaseLint
namespace Glob

open Path (ofNames slashed)

variable {w : Workspace} {f : Filter} {names more : Names} {pattern : String} {p : Path}

/-- The base of a pattern, as it is written. -/
def leadingBase (pattern : String) : Path :=
  baseOf (split (Path.mk pattern).clean.segments).1

/-- Whether a path matches a pattern as a whole. -/
def Matches (pattern : String) (p : Path) : Prop :=
  ∃ ps, compile pattern = .ok ps ∧ isMatch ps p.text = true

instance (pattern : String) (p : Path) : Decidable (Matches pattern p) :=
  decidable_of_iff ((compile pattern).toOption.any (isMatch · p.text) = true) <| by
    simp only [Option.any_eq_true, Matches, toOption_eq_some_iff]

/-- Whether a path lies strictly below the base of a pattern and what follows matches the tail;
without a tail, whether it is the base. -/
def MatchesBelow (pattern : String) (p : Path) : Prop :=
  if globTail pattern = [] then p = leadingBase pattern
  else ∃ rest, p.below? (leadingBase pattern) = some rest ∧ rest ≠ [] ∧
    Matches ("/".intercalate (globTail pattern)) ⟨"/".intercalate (rest.map Segment.text)⟩

instance (pattern : String) (p : Path) : Decidable (MatchesBelow pattern p) :=
  decidable_of_iff (if globTail pattern = [] then p = leadingBase pattern
      else (p.below? (leadingBase pattern)).any (fun rest => decide (rest ≠ [] ∧
        Matches ("/".intercalate (globTail pattern)) ⟨"/".intercalate (rest.map Segment.text)⟩)) =
          true) <| by
    simp only [Option.any_eq_true, MatchesBelow, decide_eq_true_eq]

/-- Whether a pattern is absolute, cleaned and accepted. -/
structure IsAccepted (pattern : String) : Prop where
  isAbsolute : (Path.mk pattern).isAbsolute = true
  isClean : (Path.mk pattern).clean = ⟨pattern⟩
  isRead : check pattern = .ok ()

/-! ### The base and the tail of a cleaned pattern -/

theorem leadingBase_ofNames (h : AreNames names) :
    leadingBase (ofNames names).text = ofNames (leadOf names) := by
  unfold leadingBase
  rw [segments_clean_ofNames h, split_ofNames]
  exact Path.along_root ⟨""⟩ _

theorem globTail_ofNames (h : AreNames names) : globTail (ofNames names).text = tailOf names := by
  unfold globTail
  rw [segments_clean_ofNames h, split_ofNames]

/-- What lies below a base, and what follows. -/
theorem matchesBelow_ofNames (h : AreNames names) (htail : tailOf names ≠ [])
    (hmore : AreNames more) : MatchesBelow (ofNames names).text (ofNames more) ↔
      ∃ rest, rest ≠ [] ∧ more = leadOf names ++ rest ∧
        Matches ("/".intercalate (tailOf names)) ⟨"/".intercalate rest⟩ := by
  have htexts (rest : Names) : (rest.map Segment.name).map Segment.text = rest := by
    rw [List.map_map]
    exact List.map_id rest
  unfold MatchesBelow
  rw [globTail_ofNames h, if_neg htail, leadingBase_ofNames h,
    Ignore.below?_ofNames hmore (areNames_leadOf h)]
  constructor
  · rintro ⟨rest, hrest, hne, hmatch⟩
    split_ifs at hrest with hprefix
    obtain ⟨rest, rfl⟩ := hprefix
    rw [List.drop_left] at hrest
    obtain rfl := Option.some.inj hrest
    rw [htexts] at hmatch
    exact ⟨rest, fun hnil => hne (by rw [hnil]; rfl), rfl, hmatch⟩
  · rintro ⟨rest, hne, rfl, hmatch⟩
    refine ⟨rest.map .name, ?_, by simpa using hne, by rwa [htexts]⟩
    rw [if_pos (List.prefix_append _ rest), List.drop_left]

/-- A base without backslashes stands for itself. -/
theorem areLiteral_slashed_leadOf (h : AreNames names) (hread : IsReadable 0 (ofNames names).text.toList)
    (hback : '\\' ∉ (ofNames (leadOf names)).text.toList) : AreLiteral (slashed (leadOf names)) := by
  by_cases hnil : leadOf names = []
  · rw [hnil]
    exact fun c hc => absurd hc List.not_mem_nil
  rw [Path.text_ofNames (areNames_leadOf h), if_neg hnil] at hback
  have hescape : ∀ c ∈ slashed (leadOf names), c ≠ '\\' := fun c hc he => hback (he ▸ hc)
  have hopen : ∀ c ∈ slashed (leadOf names), c ∉ ['[', '\x7b', '\\'] := by
    intro c hc
    have hwild := not_mem_slashed_leadOf c hc
    simp only [List.mem_cons, List.not_mem_nil, or_false, not_or] at hwild ⊢
    exact ⟨hwild.2.2.1, hwild.2.2.2, hescape c hc⟩
  -- a closing brace in the base would have nothing to close
  have htext : (ofNames names).text.toList = slashed (leadOf names) ++ slashed (tailOf names) := by
    have hne : names ≠ [] := by
      rintro rfl
      exact hnil rfl
    rw [Path.text_ofNames h, if_neg hne]
    unfold slashed
    rw [← List.flatMap_append, leadOf_append_tailOf]
  rw [htext] at hread
  have hclosed := IsReadable.not_mem_of_front hopen hread
  intro c hc
  have hwild := not_mem_slashed_leadOf c hc
  have hclose : c ≠ '\x7d' := fun he => hclosed (he ▸ hc)
  simp only [List.mem_cons, List.not_mem_nil, or_false, not_or] at hwild ⊢
  exact ⟨hwild.2.1, hwild.1, hwild.2.2.1, hwild.2.2.2, hclose, hescape c hc⟩

/-! ### What is matched -/

/-- Literal characters match only themselves. -/
theorem matches_literal {cs : List Char} (hcs : AreLiteral cs) (hne : cs ≠ []) :
    Matches (String.ofList cs) p ↔ p.text.toList = cs := by
  have hparse : parse .search (String.ofList cs) = .ok (cs.map .literal) := by
    rw [parse_eq_ok, ← List.append_nil cs, Reading.finish_append_literals rfl hcs]
    refine ⟨_, Reading.finish_nil, ?_⟩
    rw [Reading.draft_behindAll]
    exact ⟨rfl, by simp [Reading.start, Draft.empty]⟩
  unfold Matches
  simp only [compile_eq_ok, hparse, Except.ok.injEq, exists_eq_left']
  constructor
  · intro hmatch
    exact (eq_of_isMatch .none hne hmatch).resolve_right fun h => List.cons_ne_nil _ _ h.1.symm
  · rintro rfl
    have := isMatch_literals .none hne
    rwa [String.ofList_toList] at this

/-- **A pattern without wildcards and backslashes matches only its path.** -/
theorem matches_ofNames_of_nil (h : AreNames names) (htail : tailOf names = [])
    (hliteral : AreLiteral (slashed (leadOf names))) :
    Matches (ofNames names).text p ↔ p = ofNames names := by
  rw [leadOf_of_tailOf_eq_nil htail] at hliteral
  have htext := Path.text_ofNames h
  have hcs : AreLiteral (ofNames names).text.toList := by
    rw [htext]
    split_ifs
    · decide
    · exact hliteral
  have hne : (ofNames names).text.toList ≠ [] := by
    have := Path.isAbsolute_ofNames h
    intro hnil
    rw [Path.isAbsolute, hnil] at this
    cases this
  have hmatches := matches_literal (p := p) hcs hne
  rw [String.ofList_toList, String.toList_inj] at hmatches
  rw [hmatches]
  exact ⟨fun he => congrArg Path.mk he, fun he => congrArg Path.text he⟩

/-- **A pattern matches its base with names behind it which the tail matches.** -/
theorem matches_ofNames (h : AreNames names) (htail : tailOf names ≠ [])
    (hliteral : AreLiteral (slashed (leadOf names)))
    (hread : ∃ ps, parse .search (ofNames names).text = .ok ps) (hmore : AreNames more)
    (hne : more ≠ []) : Matches (ofNames names).text (ofNames more) ↔
      ∃ rest, rest ≠ [] ∧ more = leadOf names ++ rest ∧
        Matches ("/".intercalate (tailOf names)) ⟨"/".intercalate rest⟩ := by
  have hnames : AreNames (leadOf names ++ tailOf names) := (leadOf_append_tailOf names).symm ▸ h
  have hparse := alike_parse_append hliteral (joined_ne_nil hnames.right htail)
    (getLast_joined hnames.right htail)
  rw [← text_eq_lead_tail h htail, String.ofList_toList, String.ofList_toList] at hparse
  obtain ⟨qs, hqs⟩ := hread
  unfold Matches
  simp only [compile_eq_ok]
  rw [hqs] at hparse ⊢
  generalize parse .search ("/".intercalate (tailOf names)) = out at hparse ⊢
  cases hparse with
  | @succeeded ps _ hiff =>
    simp only [Except.ok.injEq, exists_eq_left', hiff]
    rw [Path.text_ofNames hmore, if_neg hne]
    simp only [Path.slashed_eq_append_iff (areNames_leadOf h) hmore]
    constructor
    · rintro ⟨r, ⟨rest, hrest, hsplit, rfl⟩, hmatch⟩
      rw [String.ofList_toList] at hmatch
      exact ⟨rest, hrest, hsplit, hmatch⟩
    · rintro ⟨rest, hrest, hsplit, hmatch⟩
      refine ⟨_, ⟨rest, hrest, hsplit, rfl⟩, ?_⟩
      rwa [String.ofList_toList]

/-- What matches below the base matches the pattern, and the other way round but for the root. -/
theorem matchesBelow_iff (h : AreNames names) (hliteral : AreLiteral (slashed (leadOf names)))
    (hread : ∃ ps, parse .search (ofNames names).text = .ok ps) (hmore : AreNames more) :
    MatchesBelow (ofNames names).text (ofNames more) ↔
      (tailOf names = [] ∨ ofNames more ≠ ⟨"/"⟩) ∧ Matches (ofNames names).text (ofNames more) := by
  by_cases htail : tailOf names = []
  · rw [matches_ofNames_of_nil h htail hliteral, and_iff_right (.inl htail), MatchesBelow,
      globTail_ofNames h, if_pos htail, leadingBase_ofNames h, leadOf_of_tailOf_eq_nil htail]
  rw [matchesBelow_ofNames h htail hmore, or_iff_right htail]
  by_cases hnil : more = []
  · subst hnil
    refine iff_of_false ?_ fun hroot => hroot.1 rfl
    rintro ⟨rest, hne, hsplit, -⟩
    exact hne (List.append_eq_nil_iff.1 hsplit.symm).2
  · have hroot : ofNames more ≠ ⟨"/"⟩ := fun he => hnil ((Path.ofNames_inj hmore .nil).1 he)
    rw [and_iff_right hroot, matches_ofNames h htail hliteral hread hmore hnil]

/-! ### What is found -/

/-- Whether a walk below a base comes to the entry at some names, whatever it is matched
against. -/
structure Reaches (w : Workspace) (f : Filter) (base : Path) (names : Names) (node : Node) : Prop where
  isBelow : ∃ top, w.hasDirectory base = true ∧ w.tree.locate base = .ok top ∧
    (names, node) ∈ w.tree.below top
  isListed : isListed w f base names node = true

variable {found : List Path}

/-- A pattern without wildcards and backslashes finds what matches it, if it is there. -/
theorem mem_expand_of_nil (h : AreNames names) (htail : tailOf names = [])
    (hliteral : AreLiteral (slashed (leadOf names)))
    (hfound : expand w f (ofNames names).text = .ok found) :
    p ∈ found ↔ Matches (ofNames names).text p ∧ w.has p = true ∧
      (f.filesOnly = true → w.hasFile p = true) ∧ f.ignores w p = false := by
  obtain ⟨-, rfl⟩ := (expand_explicit h htail).1 hfound
  rw [matches_ofNames_of_nil h htail hliteral]
  split_ifs with hkept
  · rw [List.mem_singleton]
    refine ⟨?_, And.left⟩
    rintro rfl
    simp only [Bool.and_eq_true, Bool.or_eq_true, Bool.not_eq_true'] at hkept
    refine ⟨rfl, hkept.1.1, fun hfiles => hkept.1.2.resolve_left ?_, hkept.2⟩
    simp [hfiles]
  · refine iff_of_false List.not_mem_nil ?_
    rintro ⟨rfl, hhas, hfile, hignored⟩
    refine hkept ?_
    simp only [Bool.and_eq_true, Bool.or_eq_true, Bool.not_eq_true']
    exact ⟨⟨hhas, (Bool.eq_false_or_eq_true f.filesOnly).symm.imp_right hfile⟩, hignored⟩

/-- **A pattern with a wildcard finds what matches it,** of what its walk comes to. -/
theorem mem_expand_of_ne_nil (ht : IsNamed w.tree) (h : AreNames names) (htail : tailOf names ≠ [])
    (hliteral : AreLiteral (slashed (leadOf names)))
    (hfound : expand w f (ofNames names).text = .ok found) :
    p ∈ found ↔ ∃ more node, Reaches w f (ofNames (leadOf names)) more node ∧
      IsWithinDepth (tailOf names) more ∧ p = pathBelow (ofNames (leadOf names)) more ∧
      Matches (ofNames names).text p := by
  obtain ⟨hread, hcases⟩ := (expand_pattern h htail).1 hfound
  rcases hcases with ⟨hnone, rfl⟩ | ⟨hdirectory, ps, hps, rfl⟩
  · refine iff_of_false List.not_mem_nil ?_
    rintro ⟨more, node, ⟨⟨top, hdirectory, -⟩, -⟩, -⟩
    rw [hnone] at hdirectory
    cases hdirectory
  -- matching the names below the base is matching the path that they make
  have hmatch {top more : Names} {node : Node} (hbelow : (more, node) ∈ w.tree.below top) :
      isMatch ps ("/".intercalate more) = true ↔
        Matches (ofNames names).text (pathBelow (ofNames (leadOf names)) more) := by
    obtain ⟨hmore, hne⟩ := areNames_below ht hbelow
    rw [pathBelow_ofNames, matches_ofNames h htail hliteral hread
      ((areNames_leadOf h).append hmore) (by simp [hne])]
    unfold Matches
    simp only [compile_eq_ok, hps, Except.ok.injEq, exists_eq_left', List.append_cancel_left_eq]
    exact ⟨fun hm => ⟨more, hne, rfl, hm⟩, fun ⟨_, _, he, hm⟩ => he ▸ hm⟩
  rw [mem_matchesBelow]
  constructor
  · rintro ⟨top, more, node, htop, hbelow, hlisted, hdepth, hm, rfl⟩
    exact ⟨more, node, ⟨⟨top, hdirectory, htop, hbelow⟩, hlisted⟩, all_depth?_iff.1 hdepth, rfl,
      (hmatch hbelow).1 hm⟩
  · rintro ⟨more, node, ⟨⟨top, -, htop, hbelow⟩, hlisted⟩, hdepth, rfl, hm⟩
    exact ⟨top, more, node, htop, hbelow, hlisted, all_depth?_iff.2 hdepth, (hmatch hbelow).2 hm,
      rfl⟩

/-- **Splitting a pattern is faithful,** if no backslash is in its base: a cleaned path lies
below the base and matches the tail from there precisely when it matches the whole pattern, but for
the root.  So what is found for the tail below the base is what matches the whole pattern, of all
that the walk comes to; the depth matters only to classes that match a slash. -/
theorem split_faithful (haccepted : IsAccepted pattern)
    (hback : '\\' ∉ (leadingBase pattern).text.toList) :
    (∀ p : Path, p.isAbsolute = true → p.clean = p →
      (MatchesBelow pattern p ↔ (globTail pattern = [] ∨ p ≠ ⟨"/"⟩) ∧ Matches pattern p)) ∧
    ∀ (w : Workspace) (f : Filter), IsNamed w.tree → ∃ found, expand w f pattern = .ok found ∧
      (globTail pattern = [] → ∀ p, p ∈ found ↔ Matches pattern p ∧ w.has p = true ∧
        (f.filesOnly = true → w.hasFile p = true) ∧ f.ignores w p = false) ∧
      (globTail pattern ≠ [] → ∀ p, p ∈ found ↔ ∃ names node,
        Reaches w f (literalBase w pattern) names node ∧ IsWithinDepth (globTail pattern) names ∧
        p = pathBelow (literalBase w pattern) names ∧ Matches pattern p) ∧
      (globTail pattern ≠ [] → (∀ ps, parse .search ("/".intercalate (globTail pattern)) = .ok ps →
          anyOf Piece.isSlashClass ps = false) → ∀ p, p ∈ found ↔ ∃ names node,
        Reaches w f (literalBase w pattern) names node ∧
        p = pathBelow (literalBase w pattern) names ∧ Matches pattern p) := by
  obtain ⟨names, h, hnames⟩ := Path.exists_clean_eq_ofNames haccepted.isAbsolute
  obtain rfl : pattern = (ofNames names).text :=
    congrArg Path.text (haccepted.isClean.symm.trans hnames)
  rw [leadingBase_ofNames h] at hback
  have hread := (check_ofNames h).1 haccepted.isRead
  have hliteral := areLiteral_slashed_leadOf h (exists_parse_iff_isReadable.1 hread) hback
  refine ⟨fun p hp hclean' => ?_, fun w f ht => ?_⟩
  · obtain ⟨more, hmore, hp⟩ := Path.exists_clean_eq_ofNames hp
    obtain rfl : p = ofNames more := hclean'.symm.trans hp
    rw [globTail_ofNames h]
    exact matchesBelow_iff h hliteral hread hmore
  have hbase : literalBase w (ofNames names).text = ofNames (leadOf names) := by
    show w.absolutize (leadingBase (ofNames names).text) = _
    rw [leadingBase_ofNames h, Path.absolutize_ofNames w (areNames_leadOf h)]
  rw [hbase, globTail_ofNames h]
  obtain ⟨found, hfound⟩ := exists_expand (w := w) (f := f) h hread
  refine ⟨found, hfound, fun htail p => mem_expand_of_nil h htail hliteral hfound,
    fun htail p => mem_expand_of_ne_nil ht h htail hliteral hfound, fun htail hclass p => ?_⟩
  rw [mem_expand_of_ne_nil ht h htail hliteral hfound]
  refine exists_congr fun more => exists_congr fun node => and_congr_right fun hreaches => ?_
  refine and_iff_right_of_imp fun ⟨hp, hmatch⟩ hstars => ?_
  obtain ⟨top, -, -, hbelow⟩ := hreaches.isBelow
  obtain ⟨hmore, hne⟩ := areNames_below ht hbelow
  rw [hp, pathBelow_ofNames, matches_ofNames h htail hliteral hread
    ((areNames_leadOf h).append hmore) (by simp [hne])] at hmatch
  obtain ⟨rest, -, hrest, ps, hps, hmatch⟩ := hmatch
  obtain rfl := List.append_cancel_left hrest
  have hps := compile_eq_ok.1 hps
  have htailNames : AreNames (tailOf names) := globTail_ofNames h ▸ areNames_globTail _
  exact length_le_of_isMatch hmore htailNames htail hstars hps (hclass ps hps) hmatch

/-- A repository with a directory whose name closes a class and holds a comma. -/
def bracketRepository : Workspace where
  tree := ⟨[(["r"], .directory), (["r", "a],b"], .directory),
    (["r", "a],b", "x"], .directory), (["r", "a],b", "x", "c.yaml"], .file .empty false),
    (["r", "a],b", "e.yaml"], .file .empty false), (["r", "c.yaml"], .file .empty false)]⟩
  directory := ⟨"/r"⟩

/-- A pattern with that directory as its base, and an escape behind alternatives in its tail. -/
def bracketPattern : String :=
  "/r/a],b/**/\x7bc,d\x7d\\.yaml"

theorem split_bracketRepository :
    MatchesBelow bracketPattern ⟨"/r/a],b/x/c.yaml"⟩ ∧ Matches bracketPattern ⟨"/r/a],b/x/c.yaml"⟩ ∧
    ∃ found, expand bracketRepository ⟨true, none⟩ bracketPattern = .ok found ∧
      found = [⟨"/r/a],b/x/c.yaml"⟩] ∧ ∀ p, p ∈ found ↔ ∃ names node,
        Reaches bracketRepository ⟨true, none⟩ (literalBase bracketRepository bracketPattern) names
          node ∧
        p = pathBelow (literalBase bracketRepository bracketPattern) names ∧
        Matches bracketPattern p := by
  have haccepted : IsAccepted bracketPattern :=
    ⟨by decide +kernel, by decide +kernel, toOption_eq_some_iff.1 (by decide +kernel)⟩
  obtain ⟨hsplit, hexpand⟩ := split_faithful haccepted (by decide +kernel)
  have hmatch : Matches bracketPattern ⟨"/r/a],b/x/c.yaml"⟩ := by decide +kernel
  refine ⟨(hsplit ⟨"/r/a],b/x/c.yaml"⟩ (by decide) (by decide +kernel)).2 ⟨.inr (by decide), hmatch⟩,
    hmatch, ?_⟩
  obtain ⟨found, hfound, -, -, hiff⟩ := hexpand bracketRepository ⟨true, none⟩
    (show ∀ e ∈ bracketRepository.tree.entries, AreNames e.1 by decide +kernel)
  have hlist : expand bracketRepository ⟨true, none⟩ bracketPattern = .ok [⟨"/r/a],b/x/c.yaml"⟩] :=
    toOption_eq_some_iff.1 (by decide +kernel)
  refine ⟨found, hfound, Except.ok.inj (hfound.symm.trans hlist), ?_⟩
  refine hiff (by decide +kernel) fun ps hps => ?_
  have hparse : ((parse .search ("/".intercalate (globTail bracketPattern))).toOption.all
      fun ps => !anyOf Piece.isSlashClass ps) = true := by decide +kernel
  rw [toOption_eq_some_iff.2 hps, Option.all_some, Bool.not_eq_true'] at hparse
  exact hparse

/-- **Where splitting is not faithful:** the root is not below itself, a backslash of the base
escapes nothing where the base is looked up, and a class that matches a slash goes deeper than its
walk. -/
theorem not_matchesBelow_iff :
    (IsAccepted "/*" ∧ Matches "/*" ⟨"/"⟩ ∧ ¬MatchesBelow "/*" ⟨"/"⟩) ∧
    (IsAccepted "/a\\b/*" ∧
      Matches "/a\\b/*" ⟨"/ab/x"⟩ ∧ ¬MatchesBelow "/a\\b/*" ⟨"/ab/x"⟩ ∧
      MatchesBelow "/a\\b/*" ⟨"/a\\b/x"⟩ ∧ ¬Matches "/a\\b/*" ⟨"/a\\b/x"⟩) ∧
    (IsAccepted "/m/x[!a]y" ∧ Matches "/m/x[!a]y" ⟨"/m/x/y"⟩ ∧
      Reaches crossedProject ⟨true, none⟩ ⟨"/m"⟩ ["x", "y"] (.file .empty false) ∧
      expand crossedProject ⟨true, none⟩ "/m/x[!a]y" = .ok []) := by
  have haccepted {pattern : String} (habsolute : (Path.mk pattern).isAbsolute = true)
      (hclean : (Path.mk pattern).clean = ⟨pattern⟩)
      (hread : (check pattern).toOption = some ()) : IsAccepted pattern :=
    ⟨habsolute, hclean, toOption_eq_some_iff.1 hread⟩
  have hroot : IsAccepted "/*" :=
    haccepted (by decide +kernel) (by decide +kernel) (by decide +kernel)
  have hback : IsAccepted "/a\\b/*" :=
    haccepted (by decide +kernel) (by decide +kernel) (by decide +kernel)
  have hclass : IsAccepted "/m/x[!a]y" :=
    haccepted (by decide +kernel) (by decide +kernel) (by decide +kernel)
  have hreaches : Reaches crossedProject ⟨true, none⟩ ⟨"/m"⟩ ["x", "y"] (.file .empty false) :=
    ⟨⟨["m"], by decide +kernel, toOption_eq_some_iff.1 (by decide +kernel),
      Tree.mem_below.2 ⟨by simp [crossedProject], by simp⟩⟩, by decide +kernel⟩
  exact ⟨⟨hroot, by decide +kernel, by decide +kernel⟩,
    ⟨hback, by decide +kernel, by decide +kernel, by decide +kernel, by decide +kernel⟩,
    hclass, by decide +kernel, hreaches, toOption_eq_some_iff.1 (by decide +kernel)⟩

end Glob
end ReleaseLint
