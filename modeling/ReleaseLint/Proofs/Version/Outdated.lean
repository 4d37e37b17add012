/-
# Which versions are outdated

The major and the minor number of a version are its line.  A version is outdated by another one
if its line comes first, whatever else the two have (`isOutdated_iff_line_lt`).

| of a version | |
| --- | --- |
| line | decides |
| patch, pre-release and build | do not count, on either side |
| a number of more than 64 bits | makes the text no version, and such a text is never outdated |

The test asks the full order of versions first, which ranks a pre-release below its release and
compares builds.  That order looks at the line before all else (`compare_eq_lt`), so it holds
nothing back that the line decides.  Hence the test is a strict order of versions, in which two
are alike if their lines are the same.
-/

import ReleaseLint.Proofs.Version.Grammar
import Mathlib.Data.Prod.Lex

namespace ReleaseLint
namespace Version

variable {v w : Semantic} {c r : String}

/-- The major and the minor number of a version, of which the first one that differs decides. -/
def Semantic.line (v : Semantic) : Nat ×ₗ Nat :=
  toLex (v.major, v.minor)

theorem Semantic.line_lt_iff :
    v.line < w.line ↔ v.major < w.major ∨ v.major = w.major ∧ v.minor < w.minor :=
  Prod.Lex.toLex_lt_toLex

/-- An earlier line comes first in the full order, whatever patch, pre-release and build are. -/
theorem Semantic.compare_eq_lt (h : v.line < w.line) : v.compare w = .lt := by
  unfold Semantic.compare
  rcases line_lt_iff.1 h with hmajor | ⟨hmajor, hminor⟩
  · rw [compare_lt_iff_lt.2 hmajor]
    rfl
  · rw [compare_eq_iff_eq.2 hmajor, compare_lt_iff_lt.2 hminor]
    rfl

theorem isOutdated_eq_true_iff : isOutdated c r = true ↔
    ∃ v w, read? c = some v ∧ read? r = some w ∧ v.line < w.line := by
  unfold isOutdated
  cases hc : read? c with
  | none => simp
  | some v =>
    cases hr : read? r with
    | none => simp
    | some w =>
      have hlater : (decide (v.major < w.major) ||
          v.major == w.major && decide (v.minor < w.minor)) = true ↔ v.line < w.line := by
        rw [Semantic.line_lt_iff]
        simp
      dsimp only
      simp only [Option.some.injEq, exists_and_left, exists_eq_left']
      split_ifs with hcompare
      · -- the full order does not put `c` first, and so its line does not come first
        refine iff_of_false id fun hline => ?_
        rw [Semantic.compare_eq_lt hline] at hcompare
        cases hcompare
      · exact hlater

/-- **Lines decide what is outdated.**  One text is outdated by another one if both are semantic
versions, behind any letters `v`, and the line of the first comes before that of the second.  So
nothing else counts of versions with the same lines; no text is outdated by itself, what is
outdated by an outdated version is outdated, and of two versions neither is outdated by the other
precisely if they are on one line. -/
theorem isOutdated_iff_line_lt :
    (∀ c r, isOutdated c r = true ↔ ∃ v w, Writes c v ∧ Writes r w ∧ v.line < w.line) ∧
    (∀ c c' r r' v v' w w', Writes c v → Writes c' v' → Writes r w → Writes r' w' →
      v.line = v'.line → w.line = w'.line → isOutdated c r = isOutdated c' r') ∧
    (∀ c, isOutdated c c = false) ∧
    (∀ a b c, isOutdated a b = true → isOutdated b c = true → isOutdated a c = true) ∧
    ∀ a b v w, Writes a v → Writes b w →
      (isOutdated a b = false ∧ isOutdated b a = false ↔ v.line = w.line) := by
  have houtdated {c r : String} {v w : Semantic} (hc : Writes c v) (hr : Writes r w) :
      isOutdated c r = true ↔ v.line < w.line := by
    rw [isOutdated_eq_true_iff, read?_eq_some_iff.2 hc, read?_eq_some_iff.2 hr]
    simp
  refine ⟨fun c r => ?_, fun c c' r r' v v' w w' hc hc' hr hr' hline hline' => ?_, fun c => ?_,
    fun a b c hab hbc => ?_, fun a b v w ha hb => ?_⟩
  · rw [isOutdated_eq_true_iff]
    simp only [read?_eq_some_iff]
  · rw [Bool.eq_iff_iff, houtdated hc hr, houtdated hc' hr', hline, hline']
  · rw [Bool.eq_false_iff, ne_eq, isOutdated_eq_true_iff]
    rintro ⟨v, w, hv, hw, hlt⟩
    obtain rfl := Option.some.inj (hv.symm.trans hw)
    exact lt_irrefl _ hlt
  · rw [isOutdated_eq_true_iff] at hab hbc ⊢
    obtain ⟨u, v, hu, hv, hlt⟩ := hab
    obtain ⟨v', w, hv', hw, hlt'⟩ := hbc
    obtain rfl := Option.some.inj (hv.symm.trans hv')
    exact ⟨u, w, hu, hw, hlt.trans hlt'⟩
  · rw [Bool.eq_false_iff, Bool.eq_false_iff, ne_eq, ne_eq, houtdated ha hb, houtdated hb ha, not_lt,
      not_lt, le_antisymm_iff, and_comm]

/-- A release is outdated by a pre-release of the next line, and so is a pre-release of the same
line with a build; a pre-release and its release are alike. -/
theorem isOutdated_of_candidates :
    (Writes "v3.14.9" ⟨3, 14, 9, [], []⟩ ∧ Writes "3.15.0-rc.1" ⟨3, 15, 0, ["rc", "1"], []⟩ ∧
      isOutdated "v3.14.9" "3.15.0-rc.1" = true) ∧
    (Writes "3.14.0-rc.1+5" ⟨3, 14, 0, ["rc", "1"], ["5"]⟩ ∧
      isOutdated "v3.14.9" "3.15.0-rc.1" = isOutdated "3.14.0-rc.1+5" "3.15.0-rc.1") ∧
    isOutdated "v3.14.9" "3.14.0-rc.1+5" = false ∧ isOutdated "3.14.0-rc.1+5" "v3.14.9" = false := by
  have hrelease : Writes "v3.14.9" ⟨3, 14, 9, [], []⟩ := read?_eq_some_iff.1 (by decide +kernel)
  have hnext : Writes "3.15.0-rc.1" ⟨3, 15, 0, ["rc", "1"], []⟩ :=
    read?_eq_some_iff.1 (by decide +kernel)
  have hbuild : Writes "3.14.0-rc.1+5" ⟨3, 14, 0, ["rc", "1"], ["5"]⟩ :=
    read?_eq_some_iff.1 (by decide +kernel)
  obtain ⟨hiff, hsame, -, -, halike⟩ := isOutdated_iff_line_lt
  refine ⟨⟨hrelease, hnext, (hiff _ _).2 ⟨_, _, hrelease, hnext, by decide⟩⟩, ⟨hbuild, ?_⟩, ?_⟩
  · exact hsame _ _ _ _ _ _ _ _ hrelease hbuild hnext hnext rfl rfl
  · exact (halike _ _ _ _ hrelease hbuild).2 rfl

example : isOutdated "1.2.3" "18446744073709551615.0.0" = true ∧
    isOutdated "1.2.3" "18446744073709551616.0.0" = false := by decide

end Version
end ReleaseLint
