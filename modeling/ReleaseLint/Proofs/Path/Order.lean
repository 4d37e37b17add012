/-
# The order of paths

Paths are compared segment by segment: by the kind of the segment first, then by its name.
Two paths are at one place of the order precisely if their segments are the same
(`compare_eq_iff`), so a sorted list of paths with different segments increases strictly
(`pairwise_lt_mergeSort`), and is the only such list of these paths (`eq_of_pairwise_lt`).
-/

import ReleaseLint.Proofs.Path.Clean
import Mathlib.Data.List.Pairwise
import Mathlib.Data.List.Perm.Basic
import Mathlib.Data.List.Sort

namespace ReleaseLint

namespace Segment

/-- The name of a segment; the others have none. -/
def label : Segment → String
  | name s => s
  | _ => ""

theorem compare_eq : compare = compareLex (compareOn rank) (compareOn label) := by
  funext a b
  cases a <;> cases b <;> rfl

instance : Std.TransCmp compare :=
  compare_eq ▸ inferInstance

theorem eq_of_compare_eq {a b : Segment} (h : compare a b = .eq) : a = b := by
  rw [compare_eq, compareLex_eq_eq] at h
  have hrank : a.rank = b.rank := Std.LawfulEqOrd.eq_of_compare h.1
  have hlabel : a.label = b.label := Std.LawfulEqOrd.eq_of_compare h.2
  cases a <;> cases b <;> simp_all [rank, label]

instance : Std.LawfulEqCmp compare where
  eq_of_compare := eq_of_compare_eq

end Segment

namespace Path

variable {a b : Path} {l l' : List Path}

theorem compare_eq_compareLex :
    compare = fun a b => List.compareLex Segment.compare a.segments b.segments := by
  funext a b
  unfold compare
  generalize a.segments = s
  generalize b.segments = r
  induction s generalizing r with
  | nil => cases r <;> rfl
  | cons x s ih =>
    cases r with
    | nil => rfl
    | cons y r => rw [compare.go, List.compareLex_cons_cons, ih]

theorem compare_eq_iff : compare a b = .eq ↔ a.segments = b.segments := by
  rw [compare_eq_compareLex]
  exact Std.LawfulEqCmp.compare_eq_iff_eq

instance : Std.TransCmp compare := by
  rw [compare_eq_compareLex]
  exact {
    eq_swap := Std.OrientedCmp.eq_swap
    isLE_trans := Std.TransCmp.isLE_trans }

theorem le_eq_isLE : le a b = (compare a b).isLE := by
  unfold le
  cases compare a b <;> rfl

theorem le_trans {a b c : Path} (h : le a b = true) (h' : le b c = true) : le a c = true := by
  rw [le_eq_isLE] at h h' ⊢
  exact Std.TransCmp.isLE_trans h h'

theorem le_total (a b : Path) : (le a b || le b a) = true := by
  rw [le_eq_isLE, le_eq_isLE, @Std.OrientedCmp.eq_swap _ compare _ b a]
  cases compare a b <;> rfl

/-- **Sorted paths with different segments increase strictly.** -/
theorem pairwise_lt_mergeSort (h : l.Pairwise fun a b => a.segments ≠ b.segments) :
    (l.mergeSort le).Pairwise fun a b => compare a b = .lt := by
  have hsorted := @List.pairwise_mergeSort _ le (fun _ _ _ => le_trans) le_total l
  have hdistinct : (l.mergeSort le).Pairwise fun a b => a.segments ≠ b.segments :=
    (List.mergeSort_perm l le).symm.pairwise h fun hne => hne.symm
  refine (hsorted.and hdistinct).imp fun {a b} hab => ?_
  obtain ⟨hle, hne⟩ := hab
  rw [ne_eq, ← compare_eq_iff] at hne
  unfold le at hle
  rw [bne_iff_ne] at hle
  cases hcompare : compare a b with
  | lt => rfl
  | eq => exact absurd hcompare hne
  | gt => exact absurd hcompare hle

theorem eq_of_pairwise_lt (h : l.Pairwise fun a b => compare a b = .lt)
    (h' : l'.Pairwise fun a b => compare a b = .lt) (hmem : ∀ p, p ∈ l ↔ p ∈ l') : l = l' := by
  have hnodup {l : List Path} (h : l.Pairwise fun a b => compare a b = .lt) : l.Nodup :=
    h.imp fun hab heq => by
      rw [heq, compare_eq_iff.2 rfl] at hab
      cases hab
  refine List.Perm.eq_of_pairwise (fun a b _ _ hab hba => ?_) h h' ?_
  · rw [@Std.OrientedCmp.eq_swap _ compare, hab] at hba
    cases hba
  exact (List.perm_ext_iff_of_nodup (hnodup h) (hnodup h')).2 hmem

end Path
end ReleaseLint
