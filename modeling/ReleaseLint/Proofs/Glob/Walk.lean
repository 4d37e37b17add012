/-
# What a walk finds

A pattern with a wildcard is looked for by a walk below its base, which passes no hidden or
ignored directory and goes no deeper than the tail is long, unless a `**` is in it.  It is
compared with a search of everything below the base:

| a search of everything | the walk |
| --- | --- |
| drops what has a hidden name | does not enter hidden directories |
| drops what is ignored | does not enter ignored directories |
| drops what the tail does not match | does not go deeper than the tail is long |

The first two lose nothing: what lies below a hidden directory has a hidden name, and what lies
below an ignored one is ignored (`isVisited_iff_of_kept`).  The last one loses a match only if a
class in the tail matches a slash (`expand_iff`), and then it can
(`not_mem_expand_of_slashClass`).
-/

import ReleaseLint.Proofs.Glob.Depth
import ReleaseLint.Proofs.Glob.Expansion
import ReleaseLint.Proofs.Ignore.Verdict
import ReleaseLint.Proofs.Path.Order
import ReleaseLint.Proofs.Tree.Directories

namespace ReleaseLint
namespace Glob

open Path (ofNames)

variable {w : Workspace} {f : Filter} {names lead more top : Names} {node : Node}
variable {pattern : String}

/-- The directory before the first segment of a pattern with a wildcard. -/
def literalBase (w : Workspace) (pattern : String) : Path :=
  w.absolutize (baseOf (split (Path.mk pattern).clean.segments).1)

/-- The segments of a pattern from the first one with a wildcard on. -/
def globTail (pattern : String) : List String :=
  (split (Path.mk pattern).clean.segments).2

/-- Whether a search of everything below the base of a pattern finds the entry at some names. -/
structure Selects (w : Workspace) (f : Filter) (pattern : String) (names : Names) (node : Node) :
    Prop where
  isBelow : ∃ top, w.hasDirectory (literalBase w pattern) = true ∧
    w.tree.locate (literalBase w pattern) = .ok top ∧ (names, node) ∈ w.tree.below top
  matched : ∃ ps, parse .search ("/".intercalate (globTail pattern)) = .ok ps ∧
    isMatch ps ("/".intercalate names) = true
  visible : ∀ s ∈ names, s.toList.head? ≠ some '.'
  isFile : f.filesOnly = true → node.isFile = true
  kept : f.ignores w (pathBelow (literalBase w pattern) names) = false

/-- Whether some names are no more than the segments of a tail, if it has no `**`. -/
def IsWithinDepth (tail : List String) (names : Names) : Prop :=
  (∀ s ∈ tail, Text.contains s "**" = false) → names.length ≤ tail.length

/-! ### What is passed -/

theorem Filter.ignores_append (h : AreNames (lead ++ more))
    (hdirectory : w.hasDirectory (ofNames lead) = true)
    (hignored : f.ignores w (ofNames lead) = true) : f.ignores w (ofNames (lead ++ more)) = true := by
  unfold Filter.ignores at hignored ⊢
  obtain ⟨c, hc, hignored⟩ := (Option.any_eq_true _ _).1 hignored
  exact (Option.any_eq_true _ _).2 ⟨c, hc, Ignore.ignores_append h hdirectory hignored⟩

theorem isVisited_iff {isDirectory : Bool} :
    isVisited w f (ofNames lead) isDirectory names = true ↔
      (∀ s ∈ names, s.toList.head? ≠ some '.') ∧ ∀ m, m <+: names → m ≠ [] →
        (m ≠ names ∨ isDirectory = true) → f.ignores w (ofNames (lead ++ m)) = false := by
  induction names generalizing lead with
  | nil =>
    refine iff_of_true rfl ⟨by simp, fun m hm hne => absurd (List.prefix_nil.1 hm) hne⟩
  | cons s r ih =>
    rw [isVisited, ← Path.ofNames_concat, Bool.and_eq_true, Bool.and_eq_true, bne_iff_ne, ih,
      List.forall_mem_cons, Bool.not_eq_true', Bool.and_eq_false_imp, Bool.or_eq_true,
      Bool.not_eq_true', List.isEmpty_eq_false_iff]
    constructor
    · rintro ⟨⟨hs, hhere⟩, hr, hbelow⟩
      refine ⟨⟨hs, hr⟩, fun m hm hne hpassed => ?_⟩
      obtain _ | ⟨_, m⟩ := m
      · exact absurd rfl hne
      obtain ⟨rfl, hpre⟩ := List.cons_prefix_cons.1 hm
      by_cases hnil : m = []
      · rw [hnil] at hpassed ⊢
        refine hhere (hpassed.imp_left fun hne hr => hne (by rw [hr]))
      · have := hbelow m hpre hnil (hpassed.imp_left fun hne he => hne (by rw [he]))
        rwa [List.append_assoc] at this
    · rintro ⟨⟨hs, hr⟩, hall⟩
      refine ⟨⟨hs, fun hpassed => ?_⟩, hr, fun m hm hne hpassed => ?_⟩
      · refine hall [s] (by simp) (List.cons_ne_nil s []) (hpassed.imp_left fun hne he => hne ?_)
        exact (List.cons.inj he).2.symm
      · rw [List.append_assoc]
        refine hall (s :: m) (by simpa using hm) (List.cons_ne_nil s m)
          (hpassed.imp_left fun hne he => hne ?_)
        exact (List.cons.inj he).2

/-- Whether the system accepts the paths of all directories below a base. -/
def IsAccessible (w : Workspace) (base : Path) : Prop :=
  ∀ top m, w.tree.locate base = .ok top → (m, .directory) ∈ w.tree.below top →
    (pathBelow base m).text.utf8ByteSize < Path.maxSize

instance (w : Workspace) (base : Path) : Decidable (IsAccessible w base) :=
  decidable_of_iff (∀ top ∈ (w.tree.locate base).toOption, ∀ e ∈ w.tree.below top,
      e.2.isDirectory = true → (pathBelow base e.1).text.utf8ByteSize < Path.maxSize) <| by
    simp only [Option.mem_def, toOption_eq_some_iff]
    constructor
    · exact fun h top m htop hm => h top htop (m, .directory) hm rfl
    · rintro h top htop ⟨m, node⟩ hm hdirectory
      cases node with
      | directory => exact h top m htop hm
      | file => cases hdirectory
      | link => cases hdirectory

/-- A walk passes what leads to an entry that is neither hidden nor ignored, if the system accepts
the paths of the directories on the way. -/
theorem isVisited_iff_of_short (ht : w.tree.IsSound) (hlead : AreNames lead)
    (hbase : w.hasDirectory (ofNames lead) = true)
    (htop : w.tree.locate (ofNames lead) = .ok top) (hbelow : (names, node) ∈ w.tree.below top)
    (hkept : f.ignores w (ofNames (lead ++ names)) = false)
    (hshort : ∀ m, m <+: names → m ≠ [] → m ≠ names →
      (ofNames (lead ++ m)).text.utf8ByteSize < Path.maxSize) :
    isVisited w f (ofNames lead) node.isDirectory names = true ↔
      ∀ s ∈ names, s.toList.head? ≠ some '.' := by
  rw [isVisited_iff, and_iff_left_iff_imp]
  intro _ m hm hne _
  by_cases hsame : m = names
  · rwa [hsame]
  have hsize := hshort m hm hne hsame
  obtain ⟨hentry, -⟩ := Tree.mem_below.1 hbelow
  have hnames := ht.named _ hentry
  have hfits := ht.fits _ hentry
  obtain ⟨r, rfl⟩ := hm
  have hdirectories : ∀ m', m' <+: m → w.tree.find? (top ++ m') = some .directory := by
    intro m' hm'
    refine ht.find?_below hbelow (hm'.trans (List.prefix_append m r)) fun he => hsame ?_
    have hle := he ▸ hm'.length_le
    rw [List.length_append] at hle
    rw [List.length_eq_zero_iff.1 (show r.length = 0 by omega), List.append_nil]
  by_contra hignored
  rw [Bool.not_eq_false] at hignored
  have hall : AreNames (lead ++ m ++ r) := by
    rw [List.append_assoc]
    exact hlead.append hnames.right
  have hdirectory : w.hasDirectory (ofNames (lead ++ m)) = true :=
    Workspace.hasDirectory_append hall.left (fun s hs => hfits s (by simp [hs])) hbase htop
      hdirectories hsize
  have hlost := f.ignores_append hall hdirectory hignored
  rw [List.append_assoc, hkept] at hlost
  cases hlost

/-- **A walk passes what leads to an entry that is neither hidden nor ignored.** -/
theorem isVisited_iff_of_kept (ht : w.tree.IsSound) (hlead : AreNames lead)
    (haccess : IsAccessible w (ofNames lead)) (hbase : w.hasDirectory (ofNames lead) = true)
    (htop : w.tree.locate (ofNames lead) = .ok top) (hbelow : (names, node) ∈ w.tree.below top)
    (hkept : f.ignores w (ofNames (lead ++ names)) = false) :
    isVisited w f (ofNames lead) node.isDirectory names = true ↔
      ∀ s ∈ names, s.toList.head? ≠ some '.' := by
  refine isVisited_iff_of_short ht hlead hbase htop hbelow hkept fun m hm hne hsame => ?_
  have hdirectory := ht.find?_below hbelow hm hsame
  have hsize := haccess top m htop
    (Tree.mem_below.2 ⟨Tree.mem_of_find? hdirectory (by simp [hne]), hne⟩)
  rwa [pathBelow_ofNames] at hsize

/-! ### What is found -/

theorem areNames_globTail (pattern : String) : AreNames (globTail pattern) := by
  obtain ⟨front, names, hnames, hfront, hclean⟩ := Path.exists_segments_clean ⟨pattern⟩
  have hplain : ∀ x ∈ front, (!isPattern x.text) = true := by
    rcases hfront with rfl | rfl | ⟨n, rfl⟩
    · decide
    · decide
    · intro x hx
      rw [List.eq_of_mem_replicate hx]
      decide
  have htail : globTail pattern = tailOf names := by
    unfold globTail split tailOf
    rw [hclean]
    dsimp only
    rw [List.dropWhile_append_of_pos hplain, List.dropWhile_map, List.map_map]
    exact List.map_id _
  rw [htail]
  rw [← leadOf_append_tailOf names] at hnames
  exact hnames.right

/-- The base of a pattern, seen from the root. -/
theorem exists_literalBase_eq (hw : w.directory.isAbsolute = true) (pattern : String) :
    ∃ lead, AreNames lead ∧ literalBase w pattern = ofNames lead := by
  obtain ⟨lead, hlead, hbase⟩ := Path.exists_clean_eq_ofNames
    (Path.isAbsolute_div hw (baseOf (split (Path.mk pattern).clean.segments).1).text)
  exact ⟨lead, hlead, hbase⟩

theorem expand_eq_bind (w : Workspace) (f : Filter) (pattern : String) : expand w f pattern =
    (check pattern).bind fun _ =>
      if (globTail pattern).isEmpty then
        .ok (if w.has (literalBase w pattern) &&
            (!f.filesOnly || w.hasFile (literalBase w pattern)) &&
            !f.ignores w (literalBase w pattern) then [literalBase w pattern] else [])
      else if !w.hasDirectory (literalBase w pattern) then .ok []
      else (compile ("/".intercalate (globTail pattern))).bind fun ps =>
        .ok (matchesBelow w f (literalBase w pattern) (globTail pattern) ps) := by
  unfold expand globTail literalBase
  rfl

variable {found found' : List Path} {x y : String}

/-- What a search for a pattern without wildcards returns. -/
theorem expand_of_plain (htail : globTail pattern = []) (h : expand w f pattern = .ok found) :
    found = if w.has (literalBase w pattern) && (!f.filesOnly || w.hasFile (literalBase w pattern)) &&
      !f.ignores w (literalBase w pattern) then [literalBase w pattern] else [] := by
  rw [expand_eq_bind] at h
  obtain ⟨-, -, h⟩ := bind_eq_ok.1 h
  rw [if_pos (by simpa using htail)] at h
  exact (Except.ok.inj h).symm

/-- What a search for a pattern with a wildcard returns. -/
theorem expand_eq_ok (htail : globTail pattern ≠ []) (h : expand w f pattern = .ok found) :
    w.hasDirectory (literalBase w pattern) = false ∧ found = [] ∨
      w.hasDirectory (literalBase w pattern) = true ∧
      ∃ ps, parse .search ("/".intercalate (globTail pattern)) = .ok ps ∧
        found = matchesBelow w f (literalBase w pattern) (globTail pattern) ps := by
  rw [expand_eq_bind] at h
  obtain ⟨-, -, h⟩ := bind_eq_ok.1 h
  rw [if_neg (by simpa using htail)] at h
  split_ifs at h with hdirectory
  · exact .inl ⟨by simpa using hdirectory, (Except.ok.inj h).symm⟩
  · obtain ⟨ps, hps, h⟩ := bind_eq_ok.1 h
    exact .inr ⟨by simpa using hdirectory, ps, compile_eq_ok.1 hps, (Except.ok.inj h).symm⟩

/-- A pattern with a wildcard is searched for if it can be read, and its tail where that is
needed. -/
theorem exists_expand_iff (htail : globTail pattern ≠ []) :
    (∃ found, expand w f pattern = .ok found) ↔
      check pattern = .ok () ∧ (w.hasDirectory (literalBase w pattern) = true →
        ∃ ps, parse .search ("/".intercalate (globTail pattern)) = .ok ps) := by
  constructor
  · rintro ⟨found, h⟩
    refine ⟨?_, fun hdir => ?_⟩
    · rw [expand_eq_bind] at h
      obtain ⟨⟨⟩, hcheck, -⟩ := bind_eq_ok.1 h
      exact hcheck
    · rcases expand_eq_ok htail h with ⟨hnone, -⟩ | ⟨-, ps, hps, -⟩
      · rw [hdir] at hnone
        cases hnone
      · exact ⟨ps, hps⟩
  · rintro ⟨hcheck, hparse⟩
    rw [expand_eq_bind, hcheck]
    dsimp only [Except.bind]
    rw [if_neg (by simpa using htail)]
    cases hdir : w.hasDirectory (literalBase w pattern) with
    | false => exact ⟨[], rfl⟩
    | true =>
      obtain ⟨ps, hps⟩ := hparse hdir
      rw [compile_eq_ok.2 hps]
      exact ⟨_, rfl⟩

/-- Two searches below one base find nothing, or both search there. -/
theorem expand_cases (hbase : literalBase w x = literalBase w y) (hx : globTail x ≠ [])
    (hy : globTail y ≠ []) (h : expand w f x = .ok found) (h' : expand w f y = .ok found') :
    found = [] ∧ found' = [] ∨
    ∃ ps qs, parse .search ("/".intercalate (globTail x)) = .ok ps ∧
      parse .search ("/".intercalate (globTail y)) = .ok qs ∧
      found = matchesBelow w f (literalBase w x) (globTail x) ps ∧
      found' = matchesBelow w f (literalBase w x) (globTail y) qs := by
  have hx := expand_eq_ok hx h
  have hy := expand_eq_ok hy h'
  rw [← hbase] at hy
  cases hdir : w.hasDirectory (literalBase w x) with
  | false =>
    rw [hdir] at hx hy
    exact .inl ⟨(hx.resolve_right fun h => Bool.false_ne_true h.1).2,
      (hy.resolve_right fun h => Bool.false_ne_true h.1).2⟩
  | true =>
    rw [hdir] at hx hy
    obtain ⟨-, ps, hps, hall⟩ := hx.resolve_left fun h => Bool.false_ne_true h.1.symm
    obtain ⟨-, qs, hqs, hall'⟩ := hy.resolve_left fun h => Bool.false_ne_true h.1.symm
    exact .inr ⟨ps, qs, hps, hqs, hall, hall'⟩

/-- Two patterns with the same base and tail find the same, where both can be read. -/
theorem eq_of_expand (htail : globTail x = globTail y) (hbase : literalBase w x = literalBase w y)
    (hx : expand w f x = .ok found) (hy : expand w f y = .ok found') : found = found' := by
  by_cases hnil : globTail x = []
  · rw [expand_of_plain hnil hx, expand_of_plain (htail ▸ hnil) hy, hbase]
  · rcases expand_cases hbase hnil (htail ▸ hnil) hx hy with
      ⟨hnone, hnone'⟩ | ⟨ps, qs, hps, hqs, hall, hall'⟩
    · rw [hnone, hnone']
    · rw [← htail, hps] at hqs
      rw [hall, hall', htail, Except.ok.inj hqs]

variable {tail : List String} {base : Path} {ps : List Piece}

/-- **What a walk finds increases strictly.** -/
theorem pairwise_matchesBelow (ht : w.tree.IsSound) (hlead : AreNames lead) :
    (matchesBelow w f (ofNames lead) tail ps).Pairwise fun a b => Path.compare a b = .lt := by
  unfold matchesBelow
  split
  · exact .nil
  · rename_i top _
    dsimp only
    refine Path.pairwise_lt_mergeSort (List.pairwise_map.2 ?_)
    refine ((ht.pairwise_below top).filter _).imp_of_mem fun {a b} ha hb hne hsame => hne ?_
    have hnames {e : Names × Node} (he : e ∈ w.tree.below top) : AreNames (lead ++ e.1) :=
      hlead.append (ht.named _ (Tree.mem_below.1 he).1).right
    have ha := hnames (List.mem_of_mem_filter ha)
    have hb := hnames (List.mem_of_mem_filter hb)
    rw [pathBelow_ofNames, pathBelow_ofNames] at hsame
    refine List.append_cancel_left ((Path.same_ofNames ha hb).1 ?_)
    exact beq_iff_eq.2 hsame

theorem all_depth?_iff :
    (depth? tail).all (names.length ≤ ·) = true ↔ IsWithinDepth tail names := by
  unfold depth? IsWithinDepth
  split_ifs with hstars
  · rw [List.any_eq_true] at hstars
    obtain ⟨s, hs, hcontains⟩ := hstars
    refine iff_of_true rfl fun hnone => ?_
    rw [hnone s hs] at hcontains
    cases hcontains
  · simp only [Bool.not_eq_true, List.any_eq_false] at hstars
    rw [Option.all_some, decide_eq_true_eq]
    exact ⟨fun hle _ => hle, fun h => h hstars⟩

/-- **What a pattern with a wildcard finds,** in strictly increasing order: what a search of
everything below its base finds, no deeper than the tail is long unless a `**` is in it.  The
depth matters only to classes that match a slash. -/
theorem expand_iff (hw : w.directory.isAbsolute = true) (ht : w.tree.IsSound)
    (haccess : IsAccessible w (literalBase w pattern)) (htail : globTail pattern ≠ [])
    {found : List Path} (h : expand w f pattern = .ok found) :
    (found.Pairwise fun a b => Path.compare a b = .lt) ∧
    (∀ p, p ∈ found ↔ ∃ names node, Selects w f pattern names node ∧
      IsWithinDepth (globTail pattern) names ∧ p = pathBelow (literalBase w pattern) names) ∧
    ((∀ ps, parse .search ("/".intercalate (globTail pattern)) = .ok ps →
        anyOf Piece.isSlashClass ps = false) →
      ∀ p, p ∈ found ↔ ∃ names node, Selects w f pattern names node ∧
        p = pathBelow (literalBase w pattern) names) := by
  obtain ⟨lead, hlead, hbase⟩ :=
    Path.exists_clean_eq_ofNames (Path.isAbsolute_div hw (baseOf (split (Path.mk pattern).clean.segments).1).text)
  change literalBase w pattern = ofNames lead at hbase
  have hnames {top names : Names} {node : Node} (hbelow : (names, node) ∈ w.tree.below top) :
      AreNames names := (ht.named _ (Tree.mem_below.1 hbelow).1).right
  -- what the walk finds is what the search finds, within the depth
  have hfound : ∀ p, p ∈ found ↔ ∃ names node, Selects w f pattern names node ∧
      IsWithinDepth (globTail pattern) names ∧ p = pathBelow (literalBase w pattern) names := by
    intro p
    rcases expand_eq_ok htail h with ⟨hdirectory, hnone⟩ | ⟨hdirectory, ps, hps, hall⟩
    · rw [hnone]
      refine iff_of_false List.not_mem_nil ?_
      rintro ⟨names, node, hselects, -, -⟩
      obtain ⟨top, htop, -⟩ := hselects.isBelow
      rw [hdirectory] at htop
      cases htop
    rw [hall, mem_matchesBelow]
    constructor
    · rintro ⟨top, names, node, htop, hbelow, hlisted, hdepth, hmatch, hp⟩
      rw [isListed, Bool.and_eq_true, Bool.and_eq_true, Bool.not_eq_true'] at hlisted
      obtain ⟨⟨hfile, hvisited⟩, hkept⟩ := hlisted
      refine ⟨names, node, ⟨⟨top, hdirectory, htop, hbelow⟩, ⟨ps, hps, hmatch⟩, ?_, fun hf => ?_,
        hkept⟩, all_depth?_iff.1 hdepth, hp⟩
      · exact visible_of_isVisited hvisited
      · rw [hf] at hfile
        exact hfile
    · rintro ⟨names, node, hselects, hdepth, hp⟩
      obtain ⟨top, -, htop, hbelow⟩ := hselects.isBelow
      obtain ⟨qs, hqs, hmatch⟩ := hselects.matched
      obtain rfl : qs = ps := Except.ok.inj (hqs.symm.trans hps)
      refine ⟨top, names, node, htop, hbelow, ?_, all_depth?_iff.2 hdepth, hmatch, hp⟩
      have hkept := hselects.kept
      rw [isListed, hkept]
      rw [hbase, pathBelow_ofNames] at hkept
      rw [hbase] at htop haccess hdirectory ⊢
      rw [(isVisited_iff_of_kept ht hlead haccess hdirectory htop hbelow hkept).2 hselects.visible,
        Bool.and_true, Bool.not_false, Bool.and_true, Bool.or_eq_true, Bool.not_eq_true']
      exact (Bool.eq_false_or_eq_true f.filesOnly).symm.imp_right hselects.isFile
  refine ⟨?_, hfound, fun hclass p => ?_⟩
  · rcases expand_eq_ok htail h with ⟨-, hnone⟩ | ⟨-, ps, -, hall⟩
    · rw [hnone]
      exact .nil
    · rw [hall, hbase]
      exact pairwise_matchesBelow ht hlead
  · rw [hfound]
    refine exists_congr fun names => exists_congr fun node => and_congr_right fun hselects => ?_
    rw [and_iff_right]
    intro hstars
    obtain ⟨top, -, -, hbelow⟩ := hselects.isBelow
    obtain ⟨ps, hps, hmatch⟩ := hselects.matched
    exact length_le_of_isMatch (hnames hbelow) (areNames_globTail pattern) htail hstars hps
      (hclass ps hps) hmatch

/-- A repository whose manifests are in a plain, an ignored and a hidden directory. -/
def manifestRepository : Workspace where
  tree := ⟨[(["r"], .directory), (["r", ".git"], .directory),
    (["r", ".gitignore"], .file "out/\n".toUTF8 false),
    (["r", "app"], .directory), (["r", "app", "a.yaml"], .file .empty false),
    (["r", "out"], .directory), (["r", "out", "b.yaml"], .file .empty false),
    (["r", ".ci"], .directory), (["r", ".ci", "c.yaml"], .file .empty false)]⟩
  directory := ⟨"/r"⟩

theorem expand_manifestRepository : ∃ c found,
    Ignore.Checker.load manifestRepository ⟨"."⟩ = .ok (some c) ∧
    expand manifestRepository ⟨true, some c⟩ "**/*.yaml" = .ok found ∧
    found = [⟨"/r/app/a.yaml"⟩] ∧ ∀ p, p ∈ found ↔ ∃ names node,
      Selects manifestRepository ⟨true, some c⟩ "**/*.yaml" names node ∧
      p = pathBelow (literalBase manifestRepository "**/*.yaml") names := by
  obtain ⟨c, hc, hexpand⟩ := Ignore.exists_load_iff.2
    (show ((Ignore.Checker.load manifestRepository ⟨"."⟩).toOption.bind id).any
      (fun c => (expand manifestRepository ⟨true, some c⟩ "**/*.yaml").toOption ==
        some [⟨"/r/app/a.yaml"⟩]) = true by decide +kernel)
  have hfound := toOption_eq_some_iff.1 (beq_iff_eq.1 hexpand)
  obtain ⟨-, -, hiff⟩ := expand_iff (show manifestRepository.directory.isAbsolute = true by decide)
    (show manifestRepository.tree.IsSound by decide +kernel) (by decide +kernel) (by decide +kernel)
    hfound
  refine ⟨c, _, hc, hfound, rfl, hiff fun ps hps => ?_⟩
  have hparse : ((parse .search ("/".intercalate (globTail "**/*.yaml"))).toOption.all
      fun ps => !anyOf Piece.isSlashClass ps) = true := by decide +kernel
  rw [toOption_eq_some_iff.2 hps, Option.all_some, Bool.not_eq_true'] at hparse
  exact hparse

/-- A file below a directory, whose path one class can match. -/
def crossedProject : Workspace where
  tree := ⟨[(["m"], .directory), (["m", "x"], .directory),
    (["m", "x", "y"], .file .empty false)]⟩
  directory := ⟨"/m"⟩

theorem not_mem_expand_of_slashClass :
    expand crossedProject ⟨true, none⟩ "/m/x[!a]y" = .ok [] ∧
    Selects crossedProject ⟨true, none⟩ "/m/x[!a]y" ["x", "y"] (.file .empty false) := by
  refine ⟨toOption_eq_some_iff.1 (by decide +kernel), ⟨["m"], by decide +kernel,
    toOption_eq_some_iff.1 (by decide +kernel), Tree.mem_below.2 ⟨by simp [crossedProject], by simp⟩⟩,
    ?_, by decide, fun _ => rfl, rfl⟩
  have hmatch : ((parse .search ("/".intercalate (globTail "/m/x[!a]y"))).toOption.any
      (isMatch · ("/".intercalate ["x", "y"]))) = true := by decide +kernel
  obtain ⟨ps, hps, hmatch⟩ := (Option.any_eq_true _ _).1 hmatch
  exact ⟨ps, toOption_eq_some_iff.1 hps, hmatch⟩

end Glob
end ReleaseLint
