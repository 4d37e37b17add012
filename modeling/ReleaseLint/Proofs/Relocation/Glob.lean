/-
# What patterns stand for in two places

A pattern that is seen from a project begins with the names of the directory that the project
stands in.  If these are literal, its first wildcard is in the project, and it stands for the same
paths at both places, in the same order (`expand_alike`).

If they are not, the names of the directory are read as a pattern, which another directory may
match, and this one itself may not.
-/

import ReleaseLint.Proofs.Glob.Walk
import ReleaseLint.Proofs.Relocation.Ignore
import ReleaseLint.Proofs.Relocation.Pattern

namespace ReleaseLint

namespace Path

variable {a b m q : Names}

/-- What two paths have in front does not count in their order. -/
theorem compare_append (hm : AreNames (a ++ m)) (hq : AreNames (a ++ q)) (hm' : AreNames (b ++ m))
    (hq' : AreNames (b ++ q)) : compare (ofNames (a ++ m)) (ofNames (a ++ q)) =
      compare (ofNames (b ++ m)) (ofNames (b ++ q)) := by
  have hgo {a : Names} (s t : List Segment) :
      List.compareLex Segment.compare (.root :: (a.map .name ++ s)) (.root :: (a.map .name ++ t)) =
        List.compareLex Segment.compare s t := by
    have hsame (x : Segment) (s t : List Segment) : List.compareLex Segment.compare (x :: s)
        (x :: t) = List.compareLex Segment.compare s t := by
      have hself : Segment.compare x x = .eq := Std.ReflCmp.compare_self
      rw [List.compareLex_cons_cons, hself]
      rfl
    rw [hsame]
    induction a with
    | nil => rfl
    | cons x a ih => rw [List.map_cons, List.cons_append, List.cons_append, hsame, ih]
  rw [compare_eq_compareLex]
  dsimp only
  rw [segments_ofNames hm, segments_ofNames hq, segments_ofNames hm',
    segments_ofNames hq', List.map_append, List.map_append, List.map_append, List.map_append, hgo,
    hgo]

end Path

namespace Glob

open Path (ofNames)

variable {v w : Workspace} {a b m lead names : Names} {f f' : Filter} {tail : List String}
variable {ps : List Piece}

/-- Whether two filters drop the same paths at both places. -/
structure Filter.IsMoved (a b : Names) (f f' : Filter) : Prop where
  filesOnly : f.filesOnly = f'.filesOnly
  checker : Option.Rel (Ignore.Checker.IsMoved a b) f.checker f'.checker

theorem Filter.IsMoved.ignores (hf : f.IsMoved a b f') (h : IsRelocated v w a b)
    (hm : AreNames m) : f.ignores v (ofNames (a ++ m)) = f'.ignores w (ofNames (b ++ m)) := by
  have hchecker := hf.checker
  unfold Filter.ignores
  generalize f.checker = c at hchecker ⊢
  generalize f'.checker = c' at hchecker ⊢
  cases hchecker with
  | none => rw [Option.any_none, Option.any_none]
  | some hc => rw [Option.any_some, Option.any_some, hc.ignores h hm]

theorem Filter.IsMoved.isVisited (hf : f.IsMoved a b f') (h : IsRelocated v w a b)
    (hnames : AreNames (lead ++ names)) (isDirectory : Bool) :
    isVisited v f (ofNames (a ++ lead)) isDirectory names =
      isVisited w f' (ofNames (b ++ lead)) isDirectory names := by
  induction names generalizing lead with
  | nil => rfl
  | cons s r ih =>
    have hnext : AreNames (lead ++ [s] ++ r) := by rwa [List.append_assoc]
    rw [Glob.isVisited, Glob.isVisited, ← Path.ofNames_concat, ← Path.ofNames_concat,
      List.append_assoc a, List.append_assoc b, hf.ignores h hnext.left, ih hnext]

/-- What all members of a list are, the list is a list of. -/
theorem exists_eq_map {α β : Type} {f : α → β} {P : α → Prop} {l : List β}
    (h : ∀ y ∈ l, ∃ x, P x ∧ y = f x) : ∃ r : List α, (∀ x ∈ r, P x) ∧ l = r.map f := by
  induction l with
  | nil => exact ⟨[], by simp, rfl⟩
  | cons y l ih =>
    obtain ⟨x, hx, rfl⟩ := h y List.mem_cons_self
    obtain ⟨r, hr, rfl⟩ := ih fun y hy => h y (List.mem_cons_of_mem _ hy)
    exact ⟨x :: r, List.forall_mem_cons.2 ⟨hx, hr⟩, rfl⟩

/-- Whether a walk below a base finds some names. -/
def IsFound (w : Workspace) (f : Filter) (base : Path) (tail : List String) (ps : List Piece)
    (names : Names) : Prop :=
  ∃ node, w.Walks base (names, node) ∧ isListed w f base names node = true ∧
    (depth? tail).all (names.length ≤ ·) = true ∧ isMatch ps ("/".intercalate names) = true

theorem mem_matchesBelow_iff {base p : Path} : p ∈ matchesBelow w f base tail ps ↔
    ∃ names, IsFound w f base tail ps names ∧ p = pathBelow base names := by
  rw [mem_matchesBelow]
  constructor
  · rintro ⟨top, names, node, htop, hbelow, hlisted, hdepth, hmatch, rfl⟩
    exact ⟨names, ⟨node, ⟨top, htop, hbelow⟩, hlisted, hdepth, hmatch⟩, rfl⟩
  · rintro ⟨names, ⟨node, ⟨top, htop, hbelow⟩, hlisted, hdepth, hmatch⟩, rfl⟩
    exact ⟨top, names, node, htop, hbelow, hlisted, hdepth, hmatch, rfl⟩

theorem isFound_iff (h : IsRelocated v w a b) (hf : f.IsMoved a b f') (hlead : AreNames lead)
    (hnames : AreNames names) (hdirectory : v.hasDirectory (ofNames (a ++ lead)) = true) :
    IsFound v f (ofNames (a ++ lead)) tail ps names ↔
      IsFound w f' (ofNames (b ++ lead)) tail ps names := by
  have hall := hlead.append hnames
  unfold IsFound isListed
  refine exists_congr fun node => and_congr (h.walks lead hlead hdirectory _) ?_
  rw [hf.filesOnly, hf.isVisited h hall, pathBelow_ofNames, pathBelow_ofNames, List.append_assoc,
    List.append_assoc, hf.ignores h hall]

theorem areNames_of_isFound (hw : w.tree.IsSound) {base : Path}
    (h : IsFound w f base tail ps names) : AreNames names ∧ names ≠ [] := by
  obtain ⟨node, ⟨top, -, hbelow⟩, -⟩ := h
  obtain ⟨hentry, hne⟩ := Tree.mem_below.1 hbelow
  exact ⟨(hw.named _ hentry).right, hne⟩

/-- **A walk finds the same at both places,** in the same order. -/
theorem exists_matchesBelow (h : IsRelocated v w a b) (hf : f.IsMoved a b f')
    (hv : v.tree.IsSound) (hw : w.tree.IsSound) (hlead : AreNames lead)
    (hdirectory : v.hasDirectory (ofNames (a ++ lead)) = true) (tail : List String)
    (ps : List Piece) : ∃ found : List Names, (∀ q ∈ found, AreNames (lead ++ q) ∧ q ≠ []) ∧
      matchesBelow v f (ofNames (a ++ lead)) tail ps =
        found.map (fun q => ofNames (a ++ (lead ++ q))) ∧
      matchesBelow w f' (ofNames (b ++ lead)) tail ps =
        found.map fun q => ofNames (b ++ (lead ++ q)) := by
  have ha := h.left.append hlead
  have hb := h.right.append hlead
  have hbelow (a q : Names) : pathBelow (ofNames (a ++ lead)) q = ofNames (a ++ (lead ++ q)) := by
    rw [pathBelow_ofNames, List.append_assoc]
  obtain ⟨found, hfound, hleft⟩ := exists_eq_map (P := IsFound v f (ofNames (a ++ lead)) tail ps)
    (f := fun q => ofNames (a ++ (lead ++ q))) (l := matchesBelow v f (ofNames (a ++ lead)) tail ps)
    fun p hp => by
      obtain ⟨q, hq, rfl⟩ := mem_matchesBelow_iff.1 hp
      exact ⟨q, hq, hbelow a q⟩
  have hnames : ∀ q ∈ found, AreNames (lead ++ q) ∧ q ≠ [] := fun q hq =>
    (areNames_of_isFound hv (hfound q hq)).imp_left hlead.append
  refine ⟨found, hnames, hleft, ?_⟩
  have hsorted : (matchesBelow v f (ofNames (a ++ lead)) tail ps).Pairwise _ :=
    pairwise_matchesBelow hv ha
  refine Path.eq_of_pairwise_lt (pairwise_matchesBelow hw hb) ?_ fun p => ?_
  · rw [hleft, List.pairwise_map] at hsorted
    rw [List.pairwise_map]
    refine hsorted.imp_of_mem fun {q r} hq hr hlt => ?_
    have hq := (hnames q hq).1
    have hr := (hnames r hr).1
    rwa [← Path.compare_append (h.left.append hq) (h.left.append hr) (h.right.append hq)
      (h.right.append hr)]
  · rw [mem_matchesBelow_iff, List.mem_map]
    constructor
    · rintro ⟨q, hq, rfl⟩
      have hqnames := (areNames_of_isFound hw hq).1
      have hmem : ofNames (a ++ (lead ++ q)) ∈ matchesBelow v f (ofNames (a ++ lead)) tail ps :=
        mem_matchesBelow_iff.2
          ⟨q, (isFound_iff h hf hlead hqnames hdirectory).2 hq, (hbelow a q).symm⟩
      rw [hleft, List.mem_map] at hmem
      obtain ⟨r, hr, hsame⟩ := hmem
      have heq := (Path.ofNames_inj (h.left.append (hnames r hr).1)
        (h.left.append (hlead.append hqnames))).1 hsame
      rw [List.append_cancel_left_eq, List.append_cancel_left_eq] at heq
      exact ⟨q, heq ▸ hr, (hbelow b q).symm⟩
    · rintro ⟨q, hq, rfl⟩
      exact ⟨q, (isFound_iff h hf hlead (hnames q hq).1.right hdirectory).1 (hfound q hq),
        (hbelow b q).symm⟩

theorem check_alike (ha : AreLiteralNames a) (hb : AreLiteralNames b) (hleft : AreNames (a ++ m))
    (hright : AreNames (b ++ m)) :
    Alike (fun _ _ => True) (check (ofNames (a ++ m)).text) (check (ofNames (b ++ m)).text) := by
  have hiff : check (ofNames (a ++ m)).text = .ok () ↔ check (ofNames (b ++ m)).text = .ok () := by
    rw [check_ofNames hleft, check_ofNames hright, exists_parse_iff ha hb hleft hright]
  generalize check (ofNames (a ++ m)).text = x at hiff ⊢
  generalize check (ofNames (b ++ m)).text = y at hiff ⊢
  cases x with
  | ok _ =>
    rw [hiff.1 rfl]
    exact .succeeded trivial
  | error e =>
    cases y with
    | ok _ => cases hiff.2 rfl
    | error e' => exact .failed e e'

/-- **A pattern stands for the same paths at both places,** in the same order. -/
theorem expand_alike (h : IsRelocated v w a b) (hf : f.IsMoved a b f') (hv : v.tree.IsSound)
    (hw : w.tree.IsSound) (ha : AreLiteralNames a) (hb : AreLiteralNames b) (hm : AreNames m) :
    Alike (fun found found' => ∃ ms : List Names, (∀ q ∈ ms, AreNames q ∧ (m ≠ [] → q ≠ [])) ∧
        found = ms.map (fun q => ofNames (a ++ q)) ∧ found' = ms.map fun q => ofNames (b ++ q))
      (expand v f (ofNames (a ++ m)).text) (expand w f' (ofNames (b ++ m)).text) := by
  have hleft := h.left.append hm
  have hright := h.right.append hm
  have hlead := areNames_leadOf hm
  rw [expand_ofNames hleft, expand_ofNames hright, leadOf_append ha, leadOf_append hb,
    tailOf_append ha, tailOf_append hb]
  refine (check_alike ha hb hleft hright).bind fun _ _ _ => ?_
  rw [h.has hlead, h.hasFile hlead, hf.ignores h hlead, hf.filesOnly, h.hasDirectory hlead]
  split
  · rename_i htail
    refine .succeeded ?_
    split
    · refine ⟨[leadOf m], fun q hq => ?_, rfl, rfl⟩
      rw [List.mem_singleton.1 hq]
      refine ⟨hlead, fun hne hnil => hne ?_⟩
      rw [← leadOf_append_tailOf m, hnil, List.isEmpty_iff.1 htail, List.nil_append]
    · exact ⟨[], by simp, rfl, rfl⟩
  · split
    · exact .succeeded ⟨[], by simp, rfl, rfl⟩
    · rename_i hdirectory
      rw [Bool.not_eq_true', Bool.not_eq_false] at hdirectory
      cases compile ("/".intercalate (tailOf m)) with
      | error e => exact .failed e e
      | ok ps =>
        obtain ⟨found, hnames, hfound, hfound'⟩ := exists_matchesBelow
          h hf hv hw hlead (by rw [h.hasDirectory hlead, hdirectory]) (tailOf m) ps
        refine .succeeded ⟨found.map (leadOf m ++ ·), fun q hq => ?_, ?_, ?_⟩
        · obtain ⟨r, hr, rfl⟩ := List.mem_map.1 hq
          exact ⟨(hnames r hr).1, fun _ => by simp [(hnames r hr).2]⟩
        · rw [hfound, List.map_map]
          rfl
        · rw [hfound', List.map_map]
          rfl

end Glob
end ReleaseLint
