/-
# Patterns behind a directory

A pattern is read behind the names of the directory that it is seen from.  If these are literal,
what is read of them counts only as something that ends with a slash: from there two readings go on
in the same way (`IsLike`), so that both patterns can be read or neither (`exists_parse_iff`).
-/

import ReleaseLint.Proofs.Except
import ReleaseLint.Proofs.Glob.Expansion
import ReleaseLint.Proofs.Ignore.Literal

namespace ReleaseLint
namespace Glob

namespace Draft

variable {d e d' e' : Draft} {p q : Piece}

/-- Whether two drafts have levels that are empty alike. -/
structure IsLike (d e : Draft) : Prop where
  level : d.level.current = [] ↔ e.level.current = []
  outer : List.Forall₂ (fun l k : Level => l.current = [] ↔ k.current = []) d.outer e.outer

namespace IsLike

theorem outer_isEmpty (h : d.IsLike e) : d.outer.isEmpty = e.outer.isEmpty := by
  have hlength := h.outer.length_eq
  rw [Bool.eq_iff_iff, List.isEmpty_iff_length_eq_zero, List.isEmpty_iff_length_eq_zero, hlength]

theorem push (h : d.IsLike e) : (d.push p).IsLike (e.push q) :=
  ⟨iff_of_false (List.cons_ne_nil _ _) (List.cons_ne_nil _ _), h.outer⟩

theorem openChoice (h : d.IsLike e) : d.openChoice.IsLike e.openChoice :=
  ⟨Iff.rfl, .cons h.level h.outer⟩

theorem comma (h : d.IsLike e) : d.comma.IsLike e.comma := by
  unfold Draft.comma
  rw [h.outer_isEmpty]
  split_ifs
  · exact h.push
  · exact ⟨Iff.rfl, h.outer⟩

theorem closeChoice (h : d.IsLike e) : Alike IsLike d.closeChoice e.closeChoice := by
  obtain ⟨level, outer⟩ := d
  obtain ⟨level', outer'⟩ := e
  have houter := h.outer
  cases houter with
  | nil => exact .failed _ _
  | cons hlevel houter => exact .succeeded (push ⟨hlevel, houter⟩)

theorem spanLast (h : d.IsLike e) : (d.spanLast p).IsLike (e.spanLast q) := by
  have hne (d : Draft) (p : Piece) : (d.spanLast p).level.current ≠ [] := by
    rcases d.spanLast_cases p with ⟨hsame, hhead⟩ | ⟨hnew, -⟩
    · rw [hsame]
      rintro hnil
      simp [hnil] at hhead
    · rw [hnew]
      exact List.cons_ne_nil _ _
  refine ⟨iff_of_false (hne d p) (hne e q), ?_⟩
  rw [outer_spanLast, outer_spanLast]
  exact h.outer

/-- Two stars are read alike. -/
theorem stars (h : d.IsLike e) (before : Option Char) (r : List Char) :
    (d.stars before r).1.IsLike (e.stars before r).1 ∧
      (d.stars before r).2 = (e.stars before r).2 := by
  have hempty : d.level.current.isEmpty = e.level.current.isEmpty := by
    rw [Bool.eq_iff_iff, List.isEmpty_iff, List.isEmpty_iff, h.level]
  unfold Draft.stars
  dsimp only
  rw [hempty, h.outer_isEmpty]
  split_ifs
  · split
    · exact ⟨h.push, rfl⟩
    · exact ⟨h.push, rfl⟩
    · exact ⟨h.push.push, rfl⟩
  · exact ⟨h.push.push, rfl⟩
  · split
    · exact ⟨h.spanLast, rfl⟩
    · exact ⟨h.spanLast, rfl⟩
    · split_ifs
      · exact ⟨h.spanLast, rfl⟩
      · exact ⟨h.push.push, rfl⟩

end IsLike
end Draft

namespace Reading

variable {x y : Reading}

/-- Whether two readings go on in the same way. -/
structure IsLike (x y : Reading) : Prop where
  classes : x.classes = y.classes
  last : x.last = y.last
  draft : x.draft.IsLike y.draft

theorem IsLike.behind {d e : Draft} (h : x.IsLike y) (hd : d.IsLike e) (c : Char) :
    (x.behind c d).IsLike (y.behind c e) :=
  ⟨h.classes, rfl, hd⟩

/-- Like readings take the same step. -/
theorem IsLike.next (h : x.IsLike y) (c : Char) (r : List Char) :
    Alike (fun p q => p.1.IsLike q.1 ∧ p.2 = q.2) (x.next .search c r) (y.next .search c r) := by
  refine alike_next h.classes (fun d e c s hd => ⟨h.behind hd c, rfl⟩) (fun p _ => h.draft.push)
    h.draft.openChoice h.draft.comma h.draft.closeChoice fun s hs => ?_
  subst hs
  obtain ⟨hstars, hleft⟩ := h.draft.stars x.last s
  rw [h.last] at hstars hleft
  rw [next_stars, next_stars, h.last, hleft]
  exact .succeeded ⟨h.behind hstars _, rfl⟩

/-- Like readings come to the same end. -/
theorem IsLike.finish (h : x.IsLike y) (s : List Char) :
    Alike Draft.IsLike (x.finish .search s) (y.finish .search s) := by
  induction hn : s.length using Nat.strongRecOn generalizing s x y with
  | ind n ih =>
    cases s with
    | nil => exact .succeeded h.draft
    | cons c r =>
      rw [finish_cons_eq_bind, finish_cons_eq_bind]
      have hnext := (h.next c r).and_left (P := fun p => p.2.length ≤ r.length)
        fun p => length_le_of_next
      refine hnext.bind fun p q ⟨⟨hlike, hleft⟩, hle⟩ => ?_
      rw [← hleft]
      have hlt : p.2.length < n := by
        rw [← hn, List.length_cons]
        omega
      exact ih p.2.length hlt hlike p.2 rfl

end Reading

open Path (ofNames slashed)

variable {a b m : Names}

/-- Whether no name of a directory has a character with a meaning in patterns. -/
def AreLiteralNames (a : Names) : Prop :=
  ∀ s ∈ a, AreLiteral s.toList

instance (a : Names) : Decidable (AreLiteralNames a) :=
  inferInstanceAs (Decidable (∀ s ∈ a, AreLiteral s.toList))

theorem isPattern_eq_false (ha : AreLiteralNames a) : ∀ s ∈ a, (!isPattern s) = true := by
  intro s hs
  have hnone : isPattern s = false := by
    unfold isPattern
    rw [List.any_eq_false]
    intro c hc
    have := ha s hs c hc
    simp only [List.mem_cons, not_or, List.not_mem_nil, not_false_eq_true, and_true] at this
    simp [this]
  rw [hnone]
  rfl

/-- The first wildcard stands behind a literal directory. -/
theorem leadOf_append (ha : AreLiteralNames a) : leadOf (a ++ m) = a ++ leadOf m :=
  List.takeWhile_append_of_pos (isPattern_eq_false ha)

theorem tailOf_append (ha : AreLiteralNames a) : tailOf (a ++ m) = tailOf m :=
  List.dropWhile_append_of_pos (isPattern_eq_false ha)

/-- A path is a pattern behind any literal directory or behind none. -/
theorem isPattern_append (ha : AreLiteralNames a) (hb : AreLiteralNames b)
    (hleft : AreNames (a ++ m)) (hright : AreNames (b ++ m)) :
    isPattern (ofNames (a ++ m)).text = isPattern (ofNames (b ++ m)).text := by
  have hiff : isPattern (ofNames (a ++ m)).text = false ↔
      isPattern (ofNames (b ++ m)).text = false := by
    rw [← tailOf_eq_nil_iff hleft, ← tailOf_eq_nil_iff hright, tailOf_append ha, tailOf_append hb]
  rw [← Bool.not_inj_iff, Bool.eq_iff_iff, Bool.not_eq_true', Bool.not_eq_true', hiff]

theorem areLiteral_slashed (h : AreLiteralNames a) : AreLiteral (slashed a) := by
  intro c hc
  unfold slashed at hc
  obtain ⟨s, hs, hc⟩ := List.mem_flatMap.1 hc
  rcases List.mem_cons.1 hc with rfl | hc
  · decide
  · exact h s hs c hc

/-- The reading behind literal characters that end with a slash. -/
theorem exists_behind_slash {cs : List Char} (h : AreLiteral (cs ++ ['/'])) :
    ∃ x : Reading, x.classes = true ∧ x.last = some '/' ∧ x.draft.level.current ≠ [] ∧
      x.draft.outer = [] ∧ ∀ t, Reading.start.finish .search (cs ++ '/' :: t) =
        x.finish .search t := by
  refine ⟨Reading.start.behindAll (cs ++ ['/']), ?_, ?_, ?_, ?_, fun t => ?_⟩
  · exact Reading.classes_behindAll _ _
  · rw [Reading.last_behindAll _ (List.concat_ne_nil _ _), List.getLast?_concat]
  · rw [Reading.draft_behindAll]
    simp
  · rw [Reading.draft_behindAll]
    rfl
  · rw [← Reading.finish_append_literals rfl h, List.append_assoc]
    rfl

/-- **A pattern can be read behind any literal directory or behind none.** -/
theorem exists_parse_iff (ha : AreLiteralNames a) (hb : AreLiteralNames b)
    (hleft : AreNames (a ++ m)) (hright : AreNames (b ++ m)) :
    (∃ ps, parse .search (ofNames (a ++ m)).text = .ok ps) ↔
      ∃ ps, parse .search (ofNames (b ++ m)).text = .ok ps := by
  by_cases hm : m = []
  · subst hm
    have hread {a : Names} (ha : AreLiteralNames a) (hnames : AreNames (a ++ [])) :
        ∃ ps, parse .search (ofNames (a ++ [])).text = .ok ps := by
      have hliteral : AreLiteral (ofNames (a ++ [])).text.toList := by
        rw [Path.text_ofNames hnames, List.append_nil]
        split_ifs
        · decide
        · exact areLiteral_slashed ha
      rw [exists_parse_search, ← List.append_nil (String.toList _),
        Reading.finish_append_literals rfl hliteral]
      refine ⟨_, Reading.finish_nil, ?_⟩
      rw [Reading.draft_behindAll]
      rfl
    exact iff_of_true (hread ha hleft) (hread hb hright)
  · obtain ⟨x, hx, hxlast, hxlevel, hxouter, hxread⟩ :=
      exists_behind_slash (areLiteral_slashed ha).concat_slash
    obtain ⟨y, hy, hylast, hylevel, hyouter, hyread⟩ :=
      exists_behind_slash (areLiteral_slashed hb).concat_slash
    have hlike : x.IsLike y := by
      refine ⟨hx.trans hy.symm, hxlast.trans hylast.symm, iff_of_false hxlevel hylevel, ?_⟩
      rw [hxouter, hyouter]
      exact .nil
    rw [exists_parse_search, exists_parse_search, Path.text_ofNames_append hleft hm,
      Path.text_ofNames_append hright hm, hxread, hyread]
    have hend := hlike.finish ("/".intercalate m).toList
    generalize x.finish .search ("/".intercalate m).toList = d at hend ⊢
    generalize y.finish .search ("/".intercalate m).toList = e at hend ⊢
    cases hend with
    | failed e e' => simp
    | @succeeded d e h =>
      have houter := h.outer_isEmpty
      rw [Bool.eq_iff_iff, List.isEmpty_iff, List.isEmpty_iff] at houter
      simp [houter]

end Glob
end ReleaseLint
