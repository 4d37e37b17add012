/-
# A project in two places

The same project stands at the names `a` of one workspace and at the names `b` of another one if
the paths below `a` lead to what the paths below `b` lead to, and if a walk passes the same entries
there (`IsRelocated`).  So it is if both trees hold the same entries there, none of which is a link
(`isRelocated_of_find?`).

| access | at `a` and at `b` |
| --- | --- |
| what stands at a path, and its text | the same |
| why there is nothing | may differ |
-/

import ReleaseLint.Proofs.Except
import ReleaseLint.Proofs.Tree.Directories

namespace ReleaseLint

open Path (ofNames)

variable {v w : Workspace} {a b m : Names}

/-- Whether two paths are the same names behind the names `a` and `b`. -/
def Path.IsMoved (a b : Names) (p q : Path) : Prop :=
  ∃ m, AreNames m ∧ p = ofNames (a ++ m) ∧ q = ofNames (b ++ m)

/-- The directories on the way to some names in a project are those above the project, and those
in it. -/
theorem exists_inits_append (a m : Names) : ∃ above, (∀ q ∈ above, q <+: a ∧ q ≠ a) ∧
    (a ++ m).inits = above ++ m.inits.map (a ++ ·) := by
  induction a with
  | nil => exact ⟨[], by simp, by simp⟩
  | cons s a ih =>
    obtain ⟨above, habove, heq⟩ := ih
    refine ⟨[] :: above.map (s :: ·), fun q hq => ?_, ?_⟩
    · rcases List.mem_cons.1 hq with rfl | hq
      · exact ⟨List.nil_prefix, (List.cons_ne_nil s a).symm⟩
      · obtain ⟨t, ht, rfl⟩ := List.mem_map.1 hq
        obtain ⟨hpre, hne⟩ := habove t ht
        exact ⟨List.cons_prefix_cons.2 ⟨rfl, hpre⟩, fun h => hne (List.cons.inj h).2⟩
    · rw [List.cons_append, List.inits_cons, heq, List.map_append, List.map_map]
      rfl

/-- The directories from the path at some names in a project up to the root. -/
theorem exists_ancestors_append (h : AreNames (a ++ m)) : ∃ above,
    (∀ d ∈ above, ∃ q, q <+: a ∧ q ≠ a ∧ d = ofNames q) ∧ (ofNames (a ++ m)).ancestors =
      (m.inits.map fun q => ofNames (a ++ q)).reverse ++ above := by
  obtain ⟨above, habove, hinits⟩ := exists_inits_append a m
  refine ⟨(above.map ofNames).reverse, fun d hd => ?_, ?_⟩
  · obtain ⟨q, hq, rfl⟩ := List.mem_map.1 (List.mem_reverse.1 hd)
    exact ⟨q, (habove q hq).1, (habove q hq).2, rfl⟩
  · rw [← List.reverse_inj, Path.reverse_ancestors_ofNames h, hinits, List.reverse_append,
      List.reverse_reverse, List.reverse_reverse, List.map_append, List.map_map]
    rfl

/-- Whether a walk from a path passes an entry at the names that lead on from there. -/
def Workspace.Walks (w : Workspace) (base : Path) (e : Names × Node) : Prop :=
  ∃ top, w.tree.locate base = .ok top ∧ e ∈ w.tree.below top

/-- Whether the same project stands in the directory at the names `a` of one workspace and in that
at the names `b` of another one. -/
structure IsRelocated (v w : Workspace) (a b : Names) : Prop where
  left : AreNames a
  right : AreNames b
  directory : v.hasDirectory (ofNames a) = true
  node : ∀ m, AreNames m →
    (v.node (ofNames (a ++ m))).toOption = (w.node (ofNames (b ++ m))).toOption
  walks : ∀ m, AreNames m → v.hasDirectory (ofNames (a ++ m)) = true → ∀ e,
    v.Walks (ofNames (a ++ m)) e ↔ w.Walks (ofNames (b ++ m)) e

namespace IsRelocated

theorem has (h : IsRelocated v w a b) (hm : AreNames m) :
    v.has (ofNames (a ++ m)) = w.has (ofNames (b ++ m)) := by
  have hhas (w : Workspace) (p : Path) : w.has p = (w.node p).toOption.isSome := by
    unfold Workspace.has
    cases w.node p <;> rfl
  rw [hhas, hhas, h.node m hm]

theorem hasFile (h : IsRelocated v w a b) (hm : AreNames m) :
    v.hasFile (ofNames (a ++ m)) = w.hasFile (ofNames (b ++ m)) := by
  have hfile (w : Workspace) (p : Path) : w.hasFile p = (w.node p).toOption.any Node.isFile := by
    unfold Workspace.hasFile
    cases w.node p <;> rfl
  rw [hfile, hfile, h.node m hm]

theorem hasDirectory (h : IsRelocated v w a b) (hm : AreNames m) :
    v.hasDirectory (ofNames (a ++ m)) = w.hasDirectory (ofNames (b ++ m)) := by
  have hdirectory (w : Workspace) (p : Path) :
      w.hasDirectory p = (w.node p).toOption.any Node.isDirectory := by
    unfold Workspace.hasDirectory
    cases w.node p <;> rfl
  rw [hdirectory, hdirectory, h.node m hm]

theorem read (h : IsRelocated v w a b) (hm : AreNames m) :
    (v.read (ofNames (a ++ m))).toOption = (w.read (ofNames (b ++ m))).toOption := by
  have hnode := h.node m hm
  unfold Workspace.read
  generalize v.node (ofNames (a ++ m)) = x at hnode ⊢
  generalize w.node (ofNames (b ++ m)) = y at hnode ⊢
  cases x with
  | error f =>
    cases y with
    | error f' => rfl
    | ok n => cases hnode
  | ok n =>
    cases y with
    | error f' => cases hnode
    | ok n' =>
      obtain rfl : n = n' := Option.some.inj hnode
      rfl

theorem readText (h : IsRelocated v w a b) (hm : AreNames m) :
    (v.readText (ofNames (a ++ m))).toOption = (w.readText (ofNames (b ++ m))).toOption := by
  have htext (w : Workspace) (p : Path) :
      (w.readText p).toOption = (w.read p).toOption.bind String.fromUTF8? := by
    unfold Workspace.readText
    cases w.read p with
    | error f => rfl
    | ok data =>
      show ((String.fromUTF8? data).map Except.ok |>.getD _).toOption = String.fromUTF8? data
      cases String.fromUTF8? data <;> rfl
  rw [htext, htext, h.read hm]

end IsRelocated

/-! ### The same entries -/

namespace Tree

variable {t u : Tree} {n : Node}

theorem passes_congr : ∀ {names here here' : Names},
    (∀ m, t.find? (here ++ m) = u.find? (here' ++ m)) →
      (t.Passes here names ↔ u.Passes here' names)
  | [], _, _, _ => Iff.rfl
  | s :: r, here, here', h => by
    have hrest : ∀ m, t.find? (here ++ [s] ++ m) = u.find? (here' ++ [s] ++ m) := fun m => by
      rw [List.append_assoc, List.append_assoc]
      exact h ([s] ++ m)
    rw [Passes, Passes, h [s], passes_congr hrest]

theorem Passes.fits : ∀ {names here : Names}, t.Passes here names → ∀ s ∈ names, Fits s
  | [], _, _, s, hs => absurd hs List.not_mem_nil
  | s :: r, here, ⟨hfits, hrest⟩, x, hx => by
    rcases List.mem_cons.1 hx with rfl | hx
    · exact hfits
    · rcases hrest with ⟨-, hpasses⟩ | ⟨rfl, -⟩
      · exact hpasses.fits x hx
      · exact absurd hx List.not_mem_nil

/-- Names lead on from a directory without links on the way. -/
theorem locate_append_eq_ok (ha : ∀ r, r <+: a → t.find? r = some .directory)
    (hfits : ∀ s ∈ a, Fits s) (hlinks : t.Linkless a m) (h : AreNames (a ++ m)) {names : Names} :
    t.locate (ofNames (a ++ m)) = .ok names ↔ names = a ++ m ∧ t.Passes a m := by
  have hdirectory := ha a (List.prefix_refl a)
  have hfollow : t.follow maxLinks [] (a.map .name) = .ok a := by
    refine (follow_names fun r hr target hlink => ?_).2
      ⟨rfl, passes_of_directories hfits fun r hr => ha r hr⟩
    rw [List.nil_append, ha r hr] at hlink
    cases hlink
  obtain ⟨left, hleft⟩ := follow_append hdirectory (m.map .name) hfollow
  rw [locate_ofNames h, List.map_append, hleft, follow_names hlinks]

/-- Whether the entry at some names is a directory that no link leads to, and the entries below it
are no links and have paths that the system accepts. -/
structure IsPlain (t : Tree) (a : Names) : Prop where
  names : AreNames a
  fits : ∀ s ∈ a, Fits s
  directories : ∀ r, r <+: a → t.find? r = some .directory
  linkless : ∀ m target, t.find? (a ++ m) ≠ some (.link target)
  short : ∀ m, (t.find? (a ++ m)).isSome = true →
    (ofNames (a ++ m)).text.utf8ByteSize < Path.maxSize

/-- The tables of a tree tell so. -/
theorem isPlain_of_entries (hnames : AreNames a) (hfits : ∀ s ∈ a, Fits s)
    (hdirectories : ∀ r ∈ a.inits, (t.find? r).any Node.isDirectory = true)
    (hentries : ∀ e ∈ t.entries, (e.2.isFile || e.2.isDirectory) = true ∧
      (ofNames e.1).text.utf8ByteSize < Path.maxSize) : t.IsPlain a where
  names := hnames
  fits := hfits
  directories r hr := find?_eq_directory_iff.2 (hdirectories r ((List.mem_inits r a).2 hr))
  linkless m target := find?_ne_link (fun e he => (hentries e he).1) (a ++ m) target
  short m hsome := by
    by_cases hne : a ++ m = []
    · rw [hne]
      decide
    · rw [find?_of_ne_nil hne, Option.isSome_map, Option.isSome_iff_exists] at hsome
      obtain ⟨e, he⟩ := hsome
      have hkey : e.1 = a ++ m := by simpa using List.find?_some he
      rw [← hkey]
      exact (hentries e (List.mem_of_find?_eq_some he)).2

end Tree

open Tree in
theorem Workspace.node_eq_ok_of_isPlain {n : Node} (h : w.tree.IsPlain a) (hm : AreNames m) :
    w.node (ofNames (a ++ m)) = .ok n ↔
      w.tree.Passes a m ∧ w.tree.find? (a ++ m) = some n := by
  have hnames := h.names.append hm
  have hlocate {names : Names} :
      w.tree.locate (ofNames (a ++ m)) = .ok names ↔ names = a ++ m ∧ w.tree.Passes a m :=
    locate_append_eq_ok h.directories h.fits (fun r _ => h.linkless r) hnames
  rw [node_ofNames hnames, Path.fault?_ofNames hnames, Tree.node_eq_ok]
  constructor
  · rintro ⟨-, names, hto, hn⟩
    obtain ⟨rfl, hpasses⟩ := hlocate.1 hto
    exact ⟨hpasses, hn⟩
  · rintro ⟨hpasses, hn⟩
    refine ⟨⟨fun s hs => ?_, h.short m (by rw [hn]; rfl)⟩, a ++ m, hlocate.2 ⟨rfl, hpasses⟩, hn⟩
    rcases List.mem_append.1 hs with hs | hs
    · exact (h.fits s hs).1
    · exact (hpasses.fits s hs).1

/-- **The same entries without links are the same project.** -/
theorem isRelocated_of_find? (ha : v.tree.IsPlain a) (hb : w.tree.IsPlain b)
    (hv : v.tree.IsSound) (hw : w.tree.IsSound)
    (hsame : ∀ m, v.tree.find? (a ++ m) = w.tree.find? (b ++ m)) : IsRelocated v w a b where
  left := ha.names
  right := hb.names
  directory := by
    have hnode := (Workspace.node_eq_ok_of_isPlain (n := .directory) ha .nil).2
      ⟨trivial, by rw [List.append_nil, ha.directories a (List.prefix_refl a)]⟩
    rw [List.append_nil] at hnode
    exact Workspace.hasDirectory_iff.2 hnode
  node m hm := by
    refine Option.ext fun n => ?_
    rw [toOption_eq_some_iff, toOption_eq_some_iff, Workspace.node_eq_ok_of_isPlain ha hm,
      Workspace.node_eq_ok_of_isPlain hb hm, Tree.passes_congr hsame, hsame]
  walks m hm hdirectory e := by
    have hpasses : v.tree.Passes a m :=
      ((Workspace.node_eq_ok_of_isPlain ha hm).1 (Workspace.hasDirectory_iff.1 hdirectory)).1
    have hleft : v.tree.locate (ofNames (a ++ m)) = .ok (a ++ m) :=
      (Tree.locate_append_eq_ok ha.directories ha.fits (fun r _ => ha.linkless r)
        (ha.names.append hm)).2 ⟨rfl, hpasses⟩
    have hright : w.tree.locate (ofNames (b ++ m)) = .ok (b ++ m) :=
      (Tree.locate_append_eq_ok hb.directories hb.fits (fun r _ => hb.linkless r)
        (hb.names.append hm)).2 ⟨rfl, (Tree.passes_congr hsame).1 hpasses⟩
    unfold Workspace.Walks
    rw [hleft, hright]
    simp only [Except.ok.injEq, exists_eq_left']
    obtain ⟨names, n⟩ := e
    rw [Tree.mem_below, Tree.mem_below, and_congr_left_iff]
    intro hne
    rw [← hv.find?_iff (by simp [hne]), ← hw.find?_iff (by simp [hne]), List.append_assoc,
      List.append_assoc, hsame]

/-! ### A project in a tree of its own -/

namespace Tree

/-- A tree with a project at some names, and nothing else. -/
def placed (project : Tree) (a : Names) : Tree :=
  ⟨(a.inits.tail.map fun r => (r, .directory)) ++ project.entries.map fun e => (a ++ e.1, e.2)⟩

theorem find?_placed (project : Tree) (a m : Names) :
    (project.placed a).find? (a ++ m) = project.find? m := by
  have htail {r : Names} (hr : r ∈ a.inits.tail) : r <+: a :=
    (List.mem_inits r a).1 (List.mem_of_mem_tail hr)
  by_cases hm : m = []
  · rw [hm, List.append_nil, find?_nil]
    by_cases ha : a = []
    · rw [ha, find?_nil]
    · have hmem : a ∈ a.inits.tail := by
        obtain ⟨s, r, rfl⟩ := List.exists_cons_of_ne_nil ha
        rw [List.inits_cons, List.tail_cons]
        exact List.mem_map.2 ⟨r, (List.mem_inits r r).2 (List.prefix_refl r), rfl⟩
      have hfind : a.inits.tail.find? (· == a) = some a := by
        cases hfind : a.inits.tail.find? (· == a) with
        | none => exact absurd (List.find?_eq_none.1 hfind a hmem) (by simp)
        | some r =>
          have hr := List.find?_some hfind
          rw [beq_iff_eq.1 hr]
      rw [find?_of_ne_nil ha]
      unfold placed
      dsimp only
      rw [List.find?_append, List.find?_map, Function.comp_def, hfind]
      rfl
  · have hnone : (a.inits.tail.map fun r => (r, Node.directory)).find? (·.1 == a ++ m) = none := by
      rw [List.find?_eq_none]
      intro e he heq
      obtain ⟨r, hr, rfl⟩ := List.mem_map.1 he
      obtain rfl : r = a ++ m := beq_iff_eq.1 heq
      have hle := (htail hr).length_le
      rw [List.length_append] at hle
      exact hm (List.length_eq_zero_iff.1 (by omega))
    rw [find?_of_ne_nil (by simp [hm]), find?_of_ne_nil hm]
    unfold placed
    dsimp only
    have hkey : ((fun e : Names × Node => e.1 == a ++ m) ∘ fun e : Names × Node => (a ++ e.1, e.2)) =
        fun e : Names × Node => e.1 == m := by
      funext e
      rw [Bool.eq_iff_iff, Function.comp_apply, beq_iff_eq, beq_iff_eq, List.append_cancel_left_eq]
    rw [List.find?_append, hnone, Option.none_or, List.find?_map, hkey, Option.map_map]
    rfl

end Tree

end ReleaseLint
