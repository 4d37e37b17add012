/-
# What patterns stand for

An absolute pattern is a list of names, of which those before the first wildcard lead to
the base and the others are matched below it.  A path that a pattern stands for is its
base with visible names of the tree behind it (`mem_matchesBelow`).

| pattern | stands for |
| --- | --- |
| `stem/*e` | what `stem/*` stands for, if the file name ends with `e` |
| `stem/**` | what `stem/**/*` stands for |
| with plain `e` at its end | only paths whose file name ends with `e` |
-/

import ReleaseLint.Glob.Expand
import ReleaseLint.Proofs.Except
import ReleaseLint.Proofs.Glob.Suffix
import ReleaseLint.Proofs.Path.Clean
import ReleaseLint.Proofs.Text.Parts
import Mathlib.Data.List.TakeWhile

namespace ReleaseLint
namespace Glob

open Segment (IsName)
open Path (ofNames slashed)

variable {w : Workspace} {f : Filter} {names more stem : Names} {s a : String} {ps : List Piece}

/-! ### The base and the tail -/

/-- The names before the first one with a wildcard. -/
def leadOf (names : Names) : Names :=
  names.takeWhile fun s => !isPattern s

/-- The names from the first one with a wildcard on. -/
def tailOf (names : Names) : Names :=
  names.dropWhile fun s => !isPattern s

theorem leadOf_append_tailOf (names : Names) : leadOf names ++ tailOf names = names :=
  List.takeWhile_append_dropWhile

theorem leadOf_of_tailOf_eq_nil (htail : tailOf names = []) : leadOf names = names := by
  have := leadOf_append_tailOf names
  rwa [htail, List.append_nil] at this

theorem leadOf_concat (ha : isPattern a = true) : leadOf (stem ++ [a]) = leadOf stem := by
  unfold leadOf
  induction stem with
  | nil => rw [List.nil_append, List.takeWhile_cons_of_neg (by simp [ha]), List.takeWhile_nil]
  | cons s r ih =>
    rw [List.cons_append, List.takeWhile_cons, List.takeWhile_cons, ih]

theorem tailOf_concat (ha : isPattern a = true) : tailOf (stem ++ [a]) = tailOf stem ++ [a] := by
  have h := leadOf_append_tailOf (stem ++ [a])
  have hstem := leadOf_append_tailOf stem
  rw [leadOf_concat ha] at h
  have hboth : leadOf stem ++ tailOf (stem ++ [a]) = leadOf stem ++ (tailOf stem ++ [a]) := by
    rw [h, ← List.append_assoc, hstem]
  exact List.append_cancel_left hboth

theorem split_ofNames (names : Names) :
    split (.root :: names.map .name) = (.root :: (leadOf names).map .name, tailOf names) := by
  have hroot : (!isPattern Segment.root.text) = true := by decide
  unfold split leadOf tailOf
  rw [List.takeWhile_cons, List.dropWhile_cons, hroot, if_pos rfl, if_pos rfl, List.takeWhile_map,
    List.dropWhile_map, List.map_map]
  exact Prod.ext rfl (List.map_id _)

theorem tailOf_eq_nil_iff (h : AreNames names) :
    tailOf names = [] ↔ isPattern (ofNames names).text = false := by
  have hpattern : isPattern (ofNames names).text = names.any isPattern := by
    unfold isPattern
    rw [Path.text_ofNames h]
    split_ifs with hnil
    · rw [hnil]
      rfl
    · rw [slashed, List.any_flatMap]
      rfl
  unfold tailOf
  rw [hpattern, List.dropWhile_eq_nil_iff, List.any_eq_false]
  simp

theorem compile_eq_ok {pattern : String} :
    compile pattern = .ok ps ↔ parse .search pattern = .ok ps := by
  unfold compile
  cases parse .search pattern with
  | error e => simp
  | ok qs => simp

theorem areNames_leadOf (h : AreNames names) : AreNames (leadOf names) := by
  rw [← leadOf_append_tailOf names] at h
  exact h.left

theorem segments_clean_ofNames (h : AreNames names) :
    (Path.mk (ofNames names).text).clean.segments = .root :: names.map .name := by
  show (ofNames names).clean.segments = _
  rw [Path.clean_ofNames h, Path.segments_ofNames h]

theorem check_eq_ok {pattern : String} :
    check pattern = .ok () ↔ (∃ ps, parse .search pattern = .ok ps) ∧ climbs pattern = false := by
  unfold check
  rw [bind_eq_ok]
  constructor
  · rintro ⟨ps, hps, h⟩
    refine ⟨⟨ps, compile_eq_ok.1 hps⟩, ?_⟩
    cases hclimbs : climbs pattern with
    | true =>
      rw [hclimbs] at h
      cases h
    | false => rfl
  · rintro ⟨⟨ps, hps⟩, hclimbs⟩
    refine ⟨ps, compile_eq_ok.2 hps, ?_⟩
    rw [hclimbs]
    rfl

/-- An absolute pattern does not climb, so all that it needs is to be read. -/
theorem check_ofNames (h : AreNames names) :
    check (ofNames names).text = .ok () ↔ ∃ ps, parse .search (ofNames names).text = .ok ps := by
  have hclimbs : climbs (ofNames names).text = false := by
    unfold climbs
    rw [segments_clean_ofNames h]
    rfl
  rw [check_eq_ok, and_iff_left hclimbs]

theorem expand_ofNames (h : AreNames names) :
    expand w f (ofNames names).text =
      (check (ofNames names).text).bind fun _ =>
        if (tailOf names).isEmpty then
          .ok (if w.has (ofNames (leadOf names)) &&
              (!f.filesOnly || w.hasFile (ofNames (leadOf names))) &&
              !f.ignores w (ofNames (leadOf names)) then [ofNames (leadOf names)] else [])
        else if !w.hasDirectory (ofNames (leadOf names)) then .ok []
        else (compile ("/".intercalate (tailOf names))).map
          (matchesBelow w f (ofNames (leadOf names)) (tailOf names)) := by
  have hbase : w.absolutize (baseOf (.root :: (leadOf names).map .name)) = ofNames (leadOf names) := by
    have : baseOf (.root :: (leadOf names).map .name) = ofNames (leadOf names) :=
      Path.along_root ⟨""⟩ _
    rw [this, Path.absolutize_ofNames w (areNames_leadOf h)]
  unfold expand
  rw [segments_clean_ofNames h, split_ofNames]
  dsimp only
  rw [hbase]
  cases check (ofNames names).text with
  | error e => rfl
  | ok _ =>
    show (if _ then _ else _) = (if _ then _ else _)
    split
    · rfl
    split
    · rfl
    · cases compile ("/".intercalate (tailOf names)) with
      | error e => rfl
      | ok ps => rfl

/-- What an explicit path stands for. -/
theorem expand_explicit (h : AreNames names) (htail : tailOf names = []) {found : List Path} :
    expand w f (ofNames names).text = .ok found ↔
      (∃ ps, parse .search (ofNames names).text = .ok ps) ∧
      found = if w.has (ofNames names) && (!f.filesOnly || w.hasFile (ofNames names)) &&
        !f.ignores w (ofNames names) then [ofNames names] else [] := by
  rw [expand_ofNames h, htail, leadOf_of_tailOf_eq_nil htail, ← check_ofNames h]
  cases check (ofNames names).text with
  | error e => exact iff_of_false (fun he => by cases he) (fun he => by cases he.1)
  | ok _ => exact ⟨fun he => ⟨rfl, (Except.ok.inj he).symm⟩, fun he => congrArg Except.ok he.2.symm⟩

/-- **What an absolute pattern stands for,** if it can be read. -/
theorem expand_pattern (h : AreNames names) (htail : tailOf names ≠ []) {found : List Path} :
    expand w f (ofNames names).text = .ok found ↔
      (∃ ps, parse .search (ofNames names).text = .ok ps) ∧
      (w.hasDirectory (ofNames (leadOf names)) = false ∧ found = [] ∨
        w.hasDirectory (ofNames (leadOf names)) = true ∧
        ∃ ps, parse .search ("/".intercalate (tailOf names)) = .ok ps ∧
          found = matchesBelow w f (ofNames (leadOf names)) (tailOf names) ps) := by
  rw [expand_ofNames h, ← check_ofNames h, if_neg (by simpa using htail)]
  cases check (ofNames names).text with
  | error e => exact iff_of_false (fun he => by cases he) (fun he => by cases he.1)
  | ok _ =>
    show (if _ then _ else _) = Except.ok found ↔ _
    cases hdir : w.hasDirectory (ofNames (leadOf names)) with
    | false =>
      rw [Bool.not_false, if_pos rfl]
      constructor
      · intro he
        exact ⟨rfl, .inl ⟨rfl, (Except.ok.inj he).symm⟩⟩
      · rintro ⟨-, ⟨-, rfl⟩ | ⟨he, -⟩⟩
        · rfl
        · cases he
    | true =>
      simp only [← compile_eq_ok, Bool.not_true, Bool.false_eq_true, if_false]
      cases compile ("/".intercalate (tailOf names)) with
      | error e =>
        constructor
        · intro he
          cases he
        · rintro ⟨-, ⟨he, -⟩ | ⟨-, ps, he, -⟩⟩
          · cases he
          · cases he
      | ok ps =>
        constructor
        · intro he
          exact ⟨trivial, .inr ⟨trivial, ps, rfl, (Except.ok.inj he).symm⟩⟩
        · rintro ⟨-, ⟨he, -⟩ | ⟨-, ps', he, rfl⟩⟩
          · cases he
          · cases he
            rfl

/-! ### Names below a base -/

/-- Some names, each with a slash behind it. -/
def fronted (names : Names) : List Char :=
  names.flatMap fun s => s.toList ++ ['/']

theorem toList_joined (names : Names) (s : String) :
    ("/".intercalate (names ++ [s])).toList = fronted names ++ s.toList := by
  induction names with
  | nil => simp [fronted]
  | cons t r ih =>
    rw [List.cons_append, String.intercalate_cons_of_ne_nil (by simp), String.toList_append,
      String.toList_append, ih]
    simp [fronted]

theorem fronted_concat (names : Names) (s : String) :
    fronted (names ++ [s]) = ("/".intercalate (names ++ [s])).toList ++ ['/'] := by
  rw [toList_joined]
  simp [fronted]

/-- What follows the last slash holds every end without slashes. -/
theorem suffix_fronted_iff {e : List Char} (he : '/' ∉ e) (names : Names) (s : String) :
    e <:+ fronted names ++ s.toList ↔ e <:+ s.toList := by
  rcases List.eq_nil_or_concat names with rfl | ⟨init, t, rfl⟩
  · exact Iff.rfl
  · rw [List.concat_eq_append, fronted_concat, List.append_assoc, List.singleton_append,
      Path.suffix_append_cons_iff he]

theorem pathBelow_nil (base : Path) : pathBelow base [] = base :=
  rfl

theorem pathBelow_ofNames (names more : Names) :
    pathBelow (ofNames names) more = ofNames (names ++ more) := by
  unfold pathBelow
  induction more generalizing names with
  | nil => rw [List.foldl_nil, List.append_nil]
  | cons s r ih =>
    rw [List.foldl_cons, ← Path.ofNames_concat, ih, List.append_assoc]
    rfl

/-- What a walk asks of the names below a base, whatever they are matched against. -/
def isListed (w : Workspace) (f : Filter) (base : Path) (names : Names) (node : Node) : Bool :=
  (!f.filesOnly || node.isFile) && isVisited w f base node.isDirectory names &&
    !f.ignores w (pathBelow base names)

theorem mem_matchesBelow {base p : Path} {tail : List String} :
    p ∈ matchesBelow w f base tail ps ↔
      ∃ top names node, w.tree.locate base = .ok top ∧ (names, node) ∈ w.tree.below top ∧
        isListed w f base names node = true ∧ (depth? tail).all (names.length ≤ ·) = true ∧
        isMatch ps ("/".intercalate names) = true ∧ p = pathBelow base names := by
  unfold matchesBelow
  cases w.tree.locate base with
  | error e => simp
  | ok top =>
    simp only [List.mem_mergeSort, List.mem_map, List.mem_filter, Prod.exists, isListed,
      Bool.and_eq_true, Except.ok.injEq]
    constructor
    · rintro ⟨names, node, ⟨hmem, ⟨⟨⟨hdepth, hfile⟩, hmatch⟩, hvisit⟩, hignore⟩, rfl⟩
      exact ⟨top, names, node, rfl, hmem, ⟨⟨hfile, hvisit⟩, hignore⟩, hdepth, hmatch, rfl⟩
    · rintro ⟨_, names, node, rfl, hmem, ⟨⟨hfile, hvisit⟩, hignore⟩, hdepth, hmatch, rfl⟩
      exact ⟨names, node, ⟨hmem, ⟨⟨⟨hdepth, hfile⟩, hmatch⟩, hvisit⟩, hignore⟩, rfl⟩

/-- Whether the names in a tree can stand between slashes. -/
def IsNamed (t : Tree) : Prop :=
  ∀ e ∈ t.entries, AreNames e.1

/-- What stands below an entry has names of its own. -/
theorem areNames_below (ht : IsNamed w.tree) {top : Names} {node : Node}
    (h : (names, node) ∈ w.tree.below top) : AreNames names ∧ names ≠ [] := by
  unfold Tree.below at h
  obtain ⟨e, he, hsome⟩ := List.mem_filterMap.1 h
  split_ifs at hsome with hcond
  obtain ⟨rfl, -⟩ := Prod.mk.inj (Option.some.inj hsome)
  rw [Bool.and_eq_true, decide_eq_true_eq] at hcond
  refine ⟨fun s hs => ht e he s (List.mem_of_mem_drop hs), fun hnil => ?_⟩
  have := List.drop_eq_nil_iff.1 hnil
  omega

theorem visible_of_isVisited {base : Path} {isDirectory : Bool}
    (h : isVisited w f base isDirectory names = true) :
    ∀ s ∈ names, s.toList.head? ≠ some '.' := by
  induction names generalizing base with
  | nil => exact fun s hs => absurd hs List.not_mem_nil
  | cons t r ih =>
    rw [isVisited, Bool.and_eq_true, Bool.and_eq_true, bne_iff_ne] at h
    intro s hs
    rcases List.mem_cons.1 hs with rfl | hs
    · exact h.1.1
    · exact ih h.2 s hs

/-- Whether the file name of a path ends with some characters. -/
def EndsWith (p : Path) (e : List Char) : Prop :=
  ∃ s, p.fileName? = some s ∧ e <:+ s.toList

/-- **What a pattern finds** are files at visible names. -/
theorem exists_eq_ofNames (ht : IsNamed w.tree) (h : AreNames names) (htail : tailOf names ≠ [])
    {found : List Path} (hfound : expand w f (ofNames names).text = .ok found) {p : Path}
    (hp : p ∈ found) :
    ∃ q s, p = ofNames (q ++ [s]) ∧ AreNames (q ++ [s]) ∧ s.toList.head? ≠ some '.' := by
  obtain ⟨-, ⟨-, rfl⟩ | ⟨-, ps, -, rfl⟩⟩ := (expand_pattern h htail).1 hfound
  · exact absurd hp List.not_mem_nil
  · obtain ⟨top, more, node, -, hbelow, hlisted, -, -, rfl⟩ := mem_matchesBelow.1 hp
    obtain ⟨hnames, hne⟩ := areNames_below ht hbelow
    obtain ⟨q, s, rfl⟩ := (List.eq_nil_or_concat more).resolve_left hne
    rw [List.concat_eq_append] at hnames hlisted ⊢
    unfold isListed at hlisted
    rw [Bool.and_eq_true, Bool.and_eq_true] at hlisted
    refine ⟨leadOf names ++ q, s, ?_, ?_, ?_⟩
    · rw [pathBelow_ofNames, List.append_assoc]
    · rw [List.append_assoc]
      exact (areNames_leadOf h).append hnames
    · exact visible_of_isVisited hlisted.1.2 s (by simp)

theorem isRooted_of_mem_expand (ht : IsNamed w.tree) (h : AreNames names) {found : List Path}
    (hfound : expand w f (ofNames names).text = .ok found) {p : Path} (hp : p ∈ found) :
    p.IsRooted := by
  by_cases htail : tailOf names = []
  · obtain ⟨-, rfl⟩ := (expand_explicit h htail).1 hfound
    split_ifs at hp
    · exact List.mem_singleton.1 hp ▸ Path.isRooted_ofNames h
    · exact absurd hp List.not_mem_nil
  · obtain ⟨q, s, rfl, hnames, -⟩ := exists_eq_ofNames ht h htail hfound hp
    exact Path.isRooted_ofNames hnames

/-- The last of some names below a base decides how their path ends. -/
theorem endsWith_iff {e : List Char} (he : '/' ∉ e) {lead : Names} (hlead : AreNames lead)
    (hnames : AreNames names) (hne : names ≠ []) :
    EndsWith (pathBelow (ofNames lead) names) e ↔ e <:+ ("/".intercalate names).toList := by
  obtain ⟨q, s, rfl⟩ := (List.eq_nil_or_concat names).resolve_left hne
  rw [List.concat_eq_append] at hnames ⊢
  rw [toList_joined, suffix_fronted_iff he, pathBelow_ofNames, ← List.append_assoc]
  have hall : AreNames (lead ++ q ++ [s]) := by
    rw [List.append_assoc]
    exact hlead.append hnames
  have hname := Path.fileName?_ofNames hall
  unfold EndsWith
  rw [hname]
  constructor
  · rintro ⟨s', hs', hend⟩
    rwa [Option.some.inj hs']
  · exact fun hend => ⟨s, rfl, hend⟩

/-- A star and an ending. -/
def star (e : List Char) : String :=
  String.ofList ('*' :: e)

/-- Whether characters can stand behind a star in the name of a file. -/
structure IsEnding (e : List Char) : Prop where
  plain : ArePlain e
  ascii : ∀ c ∈ e, c.toNat < 128
  slash : '/' ∉ e

@[simp]
theorem toList_star (e : List Char) : (star e).toList = '*' :: e :=
  String.toList_ofList

theorem isPattern_star (e : List Char) : isPattern (star e) = true := by
  unfold isPattern star
  rw [String.toList_ofList]
  rfl

theorem isName_star {e : List Char} (he : IsEnding e) : IsName (star e) := by
  have hne : ∀ t : String, t.toList.head? ≠ some '*' → star e ≠ t := by
    rintro t ht rfl
    rw [toList_star] at ht
    exact ht rfl
  refine Segment.isName_iff.2 ⟨?_, hne "" (by decide), hne "." (by decide), hne ".." (by decide)⟩
  rw [toList_star]
  exact fun h => (List.mem_cons.1 h).elim (by decide) he.slash

theorem isEnding_nil : IsEnding [] :=
  ⟨fun _ h => absurd h List.not_mem_nil, fun _ h => absurd h List.not_mem_nil, List.not_mem_nil⟩

theorem not_contains_star {e : List Char} (he : IsEnding e) :
    Text.contains (star e) "**" = false := by
  have hstar : '*' ∉ e := fun h => he.plain '*' h (by decide)
  rw [Bool.eq_false_iff, ne_eq, Text.contains, Text.occursIn_iff, toList_star,
    show "**".toList = ['*', '*'] from rfl, List.infix_cons_iff, List.cons_prefix_cons]
  rintro (⟨-, h⟩ | h)
  · exact hstar (h.subset List.mem_cons_self)
  · exact hstar (h.subset List.mem_cons_self)

theorem depth?_star {e : List Char} (he : IsEnding e) (tail : List String) :
    depth? (tail ++ [star e]) = depth? (tail ++ [star []]) := by
  unfold depth?
  simp [List.any_append, not_contains_star he, not_contains_star isEnding_nil]

/-- The reading of a pattern behind the slash at the end of some names. -/
theorem exists_isBehind_fronted {y : List Char} (hy : IsFlat y) {tail : Names}
    (h : parse .search (String.ofList (fronted tail ++ y)) = .ok ps) :
    ∃ x : Reading, x.IsBehind (fronted tail) := by
  rcases List.eq_nil_or_concat tail with rfl | ⟨init, t, rfl⟩
  · exact ⟨.start, Reading.isBehind_start⟩
  · rw [List.concat_eq_append, fronted_concat] at h ⊢
    rw [List.append_assoc, List.singleton_append] at h
    obtain ⟨x, hx, -⟩ := Reading.exists_isBehind (.inr ⟨y, hy, rfl⟩) h
    exact ⟨x, hx⟩

theorem text_ofNames_concat (h : AreNames (names ++ [s])) :
    (ofNames (names ++ [s])).text = String.ofList (slashed names ++ ['/'] ++ s.toList) := by
  rw [← String.toList_inj, Path.text_ofNames_concat h, String.toList_ofList, List.append_assoc]
  rfl

theorem joined_concat (names : Names) (s : String) :
    "/".intercalate (names ++ [s]) = String.ofList (fronted names ++ s.toList) := by
  rw [← String.toList_inj, toList_joined, String.toList_ofList]

variable {lead tail : Names} {qs : List Piece} {p : Path} {e e' : List Char}

theorem isFlat_star (he : IsEnding e) (hclass : ']' ∉ e) : IsFlat (star e).toList := by
  rw [toList_star]
  exact he.plain.isFlat_star hclass

/-- Whatever its ending, a star in a segment of its own can be read if one can. -/
theorem exists_parse_star (he : IsEnding e) (he' : IsEnding e') (hclass : ']' ∉ e)
    (hps : parse .search ("/".intercalate (tail ++ [star e])) = .ok ps) :
    ∃ qs, parse .search ("/".intercalate (tail ++ [star e'])) = .ok qs := by
  rw [joined_concat] at hps
  obtain ⟨x, hx⟩ := exists_isBehind_fronted (isFlat_star he hclass) hps
  rw [joined_concat, toList_star]
  exact ⟨_, hx.parse_star he'.plain⟩

/-- **A star with an ending finds below a base what the star finds and has the ending.** -/
theorem mem_matchesBelow_star (ht : IsNamed w.tree) (hlead : AreNames lead) (he : IsEnding e)
    (hps : parse .search ("/".intercalate (tail ++ [star []])) = .ok ps)
    (hqs : parse .search ("/".intercalate (tail ++ [star e])) = .ok qs) :
    p ∈ matchesBelow w f (ofNames lead) (tail ++ [star e]) qs ↔
      p ∈ matchesBelow w f (ofNames lead) (tail ++ [star []]) ps ∧ EndsWith p e := by
  rw [joined_concat] at hps hqs
  obtain ⟨x, hx⟩ := exists_isBehind_fronted (isFlat_star isEnding_nil List.not_mem_nil) hps
  rw [toList_star, hx.parse_star isEnding_nil.plain] at hps
  rw [toList_star, hx.parse_star he.plain] at hqs
  cases hps
  cases hqs
  have hmatch : ∀ path, isMatch (x.draft.level.current.reverse ++
      .run :: e.map .literal) path = true ↔
      isMatch (x.draft.level.current.reverse ++ .run :: [].map .literal) path = true ∧
        e <:+ path.toList := by
    intro path
    rw [isMatch_star_iff hx he.slash, bytesOf_eq_encode, encode_suffix_iff he.ascii]
    rfl
  rw [mem_matchesBelow, mem_matchesBelow, depth?_star he]
  constructor
  · rintro ⟨top, names, node, htop, hbelow, hlisted, hdepth, hpath, rfl⟩
    obtain ⟨hpath, hends⟩ := (hmatch _).1 hpath
    obtain ⟨hnames, hne⟩ := areNames_below ht hbelow
    exact ⟨⟨top, names, node, htop, hbelow, hlisted, hdepth, hpath, rfl⟩,
      (endsWith_iff he.slash hlead hnames hne).2 hends⟩
  · rintro ⟨⟨top, names, node, htop, hbelow, hlisted, hdepth, hpath, rfl⟩, hends⟩
    obtain ⟨hnames, hne⟩ := areNames_below ht hbelow
    rw [endsWith_iff he.slash hlead hnames hne] at hends
    exact ⟨top, names, node, htop, hbelow, hlisted, hdepth, (hmatch _).2 ⟨hpath, hends⟩, rfl⟩

/-- A star with an ending finds what the star finds and has the ending. -/
theorem expand_star (ht : IsNamed w.tree) (h : AreNames stem) (he : IsEnding e)
    {found : List Path} (hfound : expand w f (ofNames (stem ++ [star []])).text = .ok found) :
    ∃ found', expand w f (ofNames (stem ++ [star e])).text = .ok found' ∧
      ∀ p, p ∈ found' ↔ p ∈ found ∧ EndsWith p e := by
  have hstar := h.concat (isName_star isEnding_nil)
  have hend := h.concat (isName_star he)
  have htail : ∀ e, tailOf (stem ++ [star e]) ≠ [] := fun e => by
    rw [tailOf_concat (isPattern_star e)]
    simp
  obtain ⟨⟨ps, hps⟩, hcases⟩ := (expand_pattern hstar (htail [])).1 hfound
  have hwhole : ∃ ps, parse .search (ofNames (stem ++ [star e])).text = .ok ps := by
    rw [text_ofNames_concat hstar, List.append_assoc, List.singleton_append] at hps
    obtain ⟨x, hx, -⟩ :=
      Reading.exists_isBehind (.inr ⟨_, isFlat_star isEnding_nil List.not_mem_nil, rfl⟩) hps
    rw [text_ofNames_concat hend, toList_star]
    exact ⟨_, hx.parse_star he.plain⟩
  rw [leadOf_concat (isPattern_star []), tailOf_concat (isPattern_star [])] at hcases
  rcases hcases with ⟨hdir, rfl⟩ | ⟨hdir, ps', hps', rfl⟩
  · refine ⟨[], (expand_pattern hend (htail e)).2 ⟨hwhole, .inl ⟨?_, rfl⟩⟩, fun p => ?_⟩
    · rwa [leadOf_concat (isPattern_star e)]
    · exact iff_of_false List.not_mem_nil fun hp => List.not_mem_nil hp.1
  · obtain ⟨qs, hqs⟩ := exists_parse_star isEnding_nil he List.not_mem_nil hps'
    refine ⟨_, (expand_pattern hend (htail e)).2 ⟨hwhole, .inr ⟨?_, qs, ?_, rfl⟩⟩, fun p => ?_⟩
    · rwa [leadOf_concat (isPattern_star e)]
    · rwa [tailOf_concat (isPattern_star e)]
    · rw [leadOf_concat (isPattern_star e), tailOf_concat (isPattern_star e)]
      exact mem_matchesBelow_star ht (areNames_leadOf h) he hps' hqs

/-! ### Below a pattern -/

theorem fronted_of_ne_nil (hne : names ≠ []) :
    fronted names = ("/".intercalate names).toList ++ ['/'] := by
  obtain ⟨init, s, rfl⟩ := (List.eq_nil_or_concat names).resolve_left hne
  rw [List.concat_eq_append, fronted_concat]

/-- The path below some names is that at the names, a slash and the name. -/
theorem bytesOf_joined_concat (hne : names ≠ []) (s : String) :
    bytesOf ("/".intercalate (names ++ [s])) =
      bytesOf ("/".intercalate names) ++ slash :: encode s.toList := by
  rw [bytesOf_eq_encode, bytesOf_eq_encode, toList_joined,
    fronted_of_ne_nil hne, List.append_assoc, encode_append]
  rfl

theorem getLast_joined (h : AreNames names) (hne : names ≠ []) :
    ("/".intercalate names).toList.getLast? ≠ some '/' := by
  obtain ⟨init, s, rfl⟩ := (List.eq_nil_or_concat names).resolve_left hne
  rw [List.concat_eq_append] at h ⊢
  rw [toList_joined]
  have hs : s.toList ≠ [] := h.last.text_ne_nil
  rw [List.getLast?_append_of_ne_nil _ hs]
  exact h.last.getLast_ne_slash

/-- What a pattern that can be searched for leads to can be searched. -/
theorem exists_expand_below (h : AreNames names) (htail : tailOf names ≠ []) {found : List Path}
    (hfound : expand w f (ofNames names).text = .ok found) :
    ∃ found', expand w f (ofNames (names ++ [star []])).text = .ok found' := by
  have hne : names ≠ [] := by
    rintro rfl
    exact htail rfl
  have hbelow := h.concat (isName_star isEnding_nil)
  have htail' : tailOf (names ++ [star []]) ≠ [] := by
    rw [tailOf_concat (isPattern_star [])]
    simp
  obtain ⟨⟨ps, hps⟩, hcases⟩ := (expand_pattern h htail).1 hfound
  have hwhole : ∃ ps, parse .search (ofNames (names ++ [star []])).text = .ok ps := by
    have htext : (ofNames names).text = String.ofList (slashed names ++ []) := by
      rw [← String.toList_inj, Path.text_ofNames h, if_neg hne, String.toList_ofList,
        List.append_nil]
    rw [htext] at hps
    obtain ⟨x, hx, -⟩ := Reading.exists_isBehind (.inl rfl) hps
    rw [text_ofNames_concat hbelow, toList_star]
    exact ⟨_, hx.parse_star isEnding_nil.plain⟩
  rcases hcases with ⟨hdir, rfl⟩ | ⟨hdir, ps', hps', rfl⟩
  · refine ⟨[], (expand_pattern hbelow htail').2 ⟨hwhole, .inl ⟨?_, rfl⟩⟩⟩
    rwa [leadOf_concat (isPattern_star [])]
  · have htext : "/".intercalate (tailOf names) =
        String.ofList (("/".intercalate (tailOf names)).toList ++ []) := by
      rw [List.append_nil, String.ofList_toList]
    rw [htext] at hps'
    obtain ⟨x, hx, -⟩ := Reading.exists_isBehind (.inl rfl) hps'
    refine ⟨_, (expand_pattern hbelow htail').2 ⟨hwhole, .inr ⟨?_,
      x.draft.level.current.reverse ++ .run :: [].map .literal, ?_, rfl⟩⟩⟩
    · rwa [leadOf_concat (isPattern_star [])]
    · rw [tailOf_concat (isPattern_star []), joined_concat, toList_star, fronted_of_ne_nil htail]
      exact hx.parse_star isEnding_nil.plain

theorem depth?_stars (tail more : Names) : depth? (tail ++ "**" :: more) = none := by
  have hstars : Text.contains "**" "**" = true := by decide
  unfold depth?
  rw [List.any_append, List.any_cons, hstars, Bool.true_or, Bool.or_true, if_pos rfl]

/-- **Two stars find below a base what they find with a star behind them.** -/
theorem mem_matchesBelow_stars {base : Path}
    (hps : parse .search ("/".intercalate (tail ++ ["**"])) = .ok ps)
    (hqs : parse .search ("/".intercalate (tail ++ ["**"] ++ [star []])) = .ok qs) :
    p ∈ matchesBelow w f base (tail ++ ["**"] ++ [star []]) qs ↔
      p ∈ matchesBelow w f base (tail ++ ["**"]) ps := by
  have hmatch : ∀ path, isMatch ps path = true ↔ isMatch qs path = true := by
    rw [joined_concat] at hps hqs
    obtain ⟨x, hx⟩ := exists_isBehind_fronted isFlat_stars hps
    obtain ⟨ps', qs', hps', hqs', hiff⟩ := isMatch_stars_iff hx
    have hjoined : fronted (tail ++ ["**"]) ++ (star []).toList =
        fronted tail ++ ['*', '*', '/', '*'] := by
      simp [fronted]
    rw [hjoined] at hqs
    cases hps.symm.trans hps'
    cases hqs.symm.trans hqs'
    exact hiff
  have hdepth : depth? (tail ++ ["**"] ++ [star []]) = depth? (tail ++ ["**"]) := by
    rw [List.append_assoc, List.singleton_append, depth?_stars, depth?_stars]
  rw [mem_matchesBelow, mem_matchesBelow, hdepth]
  simp only [hmatch]

/-- Two stars find what they find with a star behind them. -/
theorem expand_stars (h : AreNames (stem ++ ["**"])) {found found' : List Path}
    (hfound : expand w f (ofNames (stem ++ ["**"])).text = .ok found)
    (hfound' : expand w f (ofNames (stem ++ ["**"] ++ [star []])).text = .ok found') {p : Path} :
    p ∈ found' ↔ p ∈ found := by
  have hstars : isPattern "**" = true := by decide
  have htail : tailOf (stem ++ ["**"]) = tailOf stem ++ ["**"] := tailOf_concat hstars
  have htail' : tailOf (stem ++ ["**"] ++ [star []]) = tailOf stem ++ ["**"] ++ [star []] := by
    rw [tailOf_concat (isPattern_star []), htail]
  obtain ⟨-, hcases⟩ := (expand_pattern h (by simp [htail])).1 hfound
  obtain ⟨-, hcases'⟩ := (expand_pattern (h.concat (isName_star isEnding_nil))
    (by rw [htail']; exact List.concat_ne_nil _ _)).1 hfound'
  rw [leadOf_concat hstars, htail] at hcases
  rw [leadOf_concat (isPattern_star []), leadOf_concat hstars, htail'] at hcases'
  rcases hcases with ⟨hdir, rfl⟩ | ⟨hdir, ps, hps, rfl⟩
  · rcases hcases' with ⟨-, rfl⟩ | ⟨hdir', -⟩
    · exact Iff.rfl
    · rw [hdir] at hdir'
      cases hdir'
  rcases hcases' with ⟨hdir', -⟩ | ⟨-, qs, hqs, rfl⟩
  · rw [hdir] at hdir'
    cases hdir'
  exact mem_matchesBelow_stars hps hqs

/-! ### The last segment -/

/-- **A pattern that ends with plain characters finds only what ends with them.** -/
theorem endsWith_of_mem_matchesBelow (ht : IsNamed w.tree) (hlead : AreNames lead) {c : Char}
    (he : IsEnding (c :: e)) (hclass : ']' ∉ c :: e) (hs : c :: e <:+ s.toList)
    (hps : parse .search ("/".intercalate (tail ++ [s])) = .ok ps)
    (hp : p ∈ matchesBelow w f (ofNames lead) (tail ++ [s]) ps) : EndsWith p (c :: e) := by
  obtain ⟨top, names, node, -, hbelow, -, -, hpath, rfl⟩ := mem_matchesBelow.1 hp
  obtain ⟨hnames, hne⟩ := areNames_below ht hbelow
  obtain ⟨a, ha⟩ := hs
  have hc : c ≠ '/' := fun h => he.slash (h ▸ List.mem_cons_self)
  rw [joined_concat, ← ha, ← List.append_assoc] at hps
  rw [endsWith_iff he.slash hlead hnames hne, ← encode_suffix_iff he.ascii, ← bytesOf_eq_encode]
  exact suffix_of_isMatch he.plain hc hps hclass hpath

/-- **A pattern that ends with a plain name behind a slash finds only what has that name.** -/
theorem fileName?_of_mem_matchesBelow (ht : IsNamed w.tree) (hlead : AreNames lead)
    (hne : tail ≠ []) (he : IsEnding s.toList) (hclass : ']' ∉ s.toList) (hs : s ≠ "")
    (hps : parse .search ("/".intercalate (tail ++ [s])) = .ok ps)
    (hp : p ∈ matchesBelow w f (ofNames lead) (tail ++ [s]) ps) : p.fileName? = some s := by
  obtain ⟨top, names, node, -, hbelow, -, -, hpath, rfl⟩ := mem_matchesBelow.1 hp
  obtain ⟨hnames, hnonempty⟩ := areNames_below ht hbelow
  obtain ⟨q, t, rfl⟩ := (List.eq_nil_or_concat names).resolve_left hnonempty
  rw [List.concat_eq_append] at hnames hpath ⊢
  rw [joined_concat, fronted_of_ne_nil hne, List.append_assoc, List.singleton_append] at hps
  have hslash : '/' :: s.toList <:+ slashed (q ++ [t]) := by
    rw [Path.slashed_eq_joined (by simp), ← encode_suffix_iff (by simpa using he.ascii),
      encode_cons, encode_cons, ← bytesOf_eq_encode (String.intercalate _ _)]
    rcases suffix_of_isMatch_name he.plain hclass (by simpa using hs) hps hpath with h | h
    · rw [h]
    · exact h.trans (List.suffix_append _ _)
  rw [Path.slashed_concat] at hslash
  obtain rfl := String.toList_inj.1
    ((Path.cons_suffix_append_cons_iff he.slash hnames.last.1).1 hslash)
  rw [pathBelow_ofNames, ← List.append_assoc]
  refine Path.fileName?_ofNames ?_
  rw [List.append_assoc]
  exact hlead.append hnames

theorem endsWith_of_mem_expand (ht : IsNamed w.tree) (h : AreNames (stem ++ [s]))
    (htail : tailOf (stem ++ [s]) ≠ []) {c : Char} (he : IsEnding (c :: e))
    (hclass : ']' ∉ c :: e) (hs : c :: e <:+ s.toList) {found : List Path}
    (hfound : expand w f (ofNames (stem ++ [s])).text = .ok found) (hp : p ∈ found) :
    EndsWith p (c :: e) := by
  obtain ⟨-, ⟨-, rfl⟩ | ⟨-, ps, hps, rfl⟩⟩ := (expand_pattern h htail).1 hfound
  · exact absurd hp List.not_mem_nil
  obtain ⟨init, hinit⟩ : ∃ init, tailOf (stem ++ [s]) = init ++ [s] := by
    obtain ⟨init, t, heq⟩ := (List.eq_nil_or_concat _).resolve_left htail
    rw [List.concat_eq_append] at heq
    have hsplit := leadOf_append_tailOf (stem ++ [s])
    rw [heq, ← List.append_assoc] at hsplit
    obtain ⟨-, hst⟩ := List.append_inj' hsplit rfl
    exact ⟨init, by rw [heq, hst]⟩
  rw [hinit] at hps hp
  exact endsWith_of_mem_matchesBelow ht (areNames_leadOf h) he hclass hs hps hp

end Glob
end ReleaseLint
