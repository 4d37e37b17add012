/-
# What pieces leave

A path matches when nothing is left of it behind all pieces.  Pieces one after the other
leave what the later ones leave of what the earlier ones left (`mem_leftOfAll_append`),
and what is left is always an end of the path (`suffix_of_mem_leftOfAll`).

| piece | leaves of a path that |
| --- | --- |
| characters | begins with them, what follows |
| `*` | is `v` and a rest, the rest; `v` has no slash |
| `**` that leads | is the rest, or ends with a slash and the rest |
| `/**` | begins with a slash, any end of what follows |
| `/**/` | begins with a slash, what follows it or a later slash |
-/

import ReleaseLint.Proofs.Glob.Bytes
import Mathlib.Data.List.Dedup

namespace ReleaseLint
namespace Glob

variable {s t u e : Bytes} {texts : List Bytes} {p : Piece} {ps qs : List Piece}

theorem mem_leftOfAll : t ∈ leftOfAll texts ps ↔ ∃ s ∈ texts, t ∈ leftOfAll [s] ps := by
  induction ps generalizing texts with
  | nil => simp [leftOfAll]
  | cons p r ih =>
    rw [leftOfAll, ih]
    constructor
    · rintro ⟨u, hu, ht⟩
      obtain ⟨s, hs, hus⟩ := List.mem_flatMap.1 (List.mem_eraseDups.1 hu)
      refine ⟨s, hs, ?_⟩
      rw [leftOfAll, ih]
      exact ⟨u, List.mem_eraseDups.2 (List.mem_flatMap.2 ⟨s, List.mem_singleton_self s, hus⟩), ht⟩
    · rintro ⟨s, hs, ht⟩
      rw [leftOfAll, ih] at ht
      obtain ⟨u, hu, ht⟩ := ht
      obtain ⟨s', hs', hus⟩ := List.mem_flatMap.1 (List.mem_eraseDups.1 hu)
      rw [List.mem_singleton.1 hs'] at hus
      exact ⟨u, List.mem_eraseDups.2 (List.mem_flatMap.2 ⟨s, hs, hus⟩), ht⟩

@[simp]
theorem mem_leftOfAll_nil : t ∈ leftOfAll [s] [] ↔ t = s := by
  rw [leftOfAll, List.mem_singleton]

theorem mem_leftOfAll_cons :
    t ∈ leftOfAll [s] (p :: ps) ↔ ∃ u ∈ p.left s, t ∈ leftOfAll [u] ps := by
  rw [leftOfAll, mem_leftOfAll]
  simp only [List.mem_eraseDups, List.flatMap_cons, List.flatMap_nil, List.append_nil]

theorem mem_leftOfAll_append :
    t ∈ leftOfAll [s] (ps ++ qs) ↔ ∃ u ∈ leftOfAll [s] ps, t ∈ leftOfAll [u] qs := by
  induction ps generalizing s with
  | nil => simp
  | cons p r ih =>
    simp only [List.cons_append, mem_leftOfAll_cons, ih]
    constructor
    · rintro ⟨v, hv, u, hu, ht⟩
      exact ⟨u, ⟨v, hv, hu⟩, ht⟩
    · rintro ⟨u, ⟨v, hv, hu⟩, ht⟩
      exact ⟨v, hv, u, hu, ht⟩

/-! ### One piece -/

theorem mem_ends : e ∈ ends s ↔ e <:+ s := by
  induction s with
  | nil => simp [ends]
  | cons b r ih => rw [ends, List.mem_cons, ih, List.suffix_cons_iff]

theorem mem_endsInSegment : e ∈ endsInSegment s ↔ ∃ v, slash ∉ v ∧ s = v ++ e := by
  induction s with
  | nil => simp [endsInSegment]
  | cons b r ih =>
    rw [endsInSegment, List.mem_cons]
    constructor
    · rintro (rfl | h)
      · exact ⟨[], List.not_mem_nil, rfl⟩
      · split_ifs at h with hb
        · exact absurd h List.not_mem_nil
        · obtain ⟨v, hv, rfl⟩ := ih.1 h
          exact ⟨b :: v, fun hmem => (List.mem_cons.1 hmem).elim (fun he => hb he.symm) hv, rfl⟩
    · rintro ⟨v, hv, hs⟩
      obtain _ | ⟨a, v⟩ := v
      · exact .inl hs.symm
      · obtain ⟨rfl, rfl⟩ := List.cons.inj hs
        have hb : b ≠ slash := by
          rintro rfl
          exact hv List.mem_cons_self
        refine .inr ?_
        rw [if_neg hb]
        exact ih.2 ⟨v, fun hmem => hv (List.mem_cons_of_mem b hmem), rfl⟩

theorem mem_endsAfterSlash : e ∈ endsAfterSlash s ↔ slash :: e <:+ s := by
  induction s with
  | nil => simp [endsAfterSlash]
  | cons b r ih =>
    rw [endsAfterSlash, List.mem_append, ih, List.suffix_cons_iff, List.cons.injEq]
    split_ifs with hb
    · rw [List.mem_singleton]
      simp [hb]
    · simp [Ne.symm hb]

theorem mem_afterByte {q : UInt8 → Bool} :
    e ∈ afterByte q s ↔ ∃ b, q b = true ∧ s = b :: e := by
  cases s with
  | nil => simp [afterByte]
  | cons b r =>
    rw [afterByte]
    split_ifs with h
    · rw [List.mem_singleton]
      constructor
      · rintro rfl
        exact ⟨b, h, rfl⟩
      · rintro ⟨a, -, hs⟩
        exact (List.cons.inj hs).2.symm
    · constructor
      · exact fun hmem => absurd hmem List.not_mem_nil
      · rintro ⟨a, ha, hs⟩
        rw [(List.cons.inj hs).1] at h
        exact absurd ha h

theorem mem_after? {front : Bytes} : after? front s = some e ↔ s = front ++ e := by
  induction front generalizing s with
  | nil => simp [after?]
  | cons a front ih =>
    cases s with
    | nil => simp [after?]
    | cons b s =>
      rw [after?]
      split_ifs with h
      · rw [ih, h, List.cons_append, List.cons.injEq, and_iff_right rfl]
      · simp [Ne.symm h]

theorem mem_left_literal {c : Char} : t ∈ (Piece.literal c).left s ↔ s = bytesOfChar c ++ t := by
  rw [Piece.left, Option.mem_toList, mem_after?]

theorem mem_left_run : t ∈ Piece.run.left s ↔ ∃ v, slash ∉ v ∧ s = v ++ t := by
  rw [Piece.left, mem_endsInSegment]

theorem mem_left_leading : t ∈ Piece.leading.left s ↔ t = s ∨ slash :: t <:+ s := by
  rw [Piece.left, List.mem_cons, mem_endsAfterSlash]

theorem mem_left_trailing : t ∈ Piece.trailing.left s ↔ ∃ r, s = slash :: r ∧ t <:+ r := by
  rw [Piece.left, List.mem_flatMap]
  simp only [mem_afterByte, mem_ends, beq_iff_eq]
  constructor
  · rintro ⟨r, ⟨_, rfl, hs⟩, ht⟩
    exact ⟨r, hs, ht⟩
  · rintro ⟨r, hs, ht⟩
    exact ⟨r, ⟨_, rfl, hs⟩, ht⟩

theorem mem_left_between :
    t ∈ Piece.between.left s ↔ ∃ r, s = slash :: r ∧ (t = r ∨ slash :: t <:+ r) := by
  rw [Piece.left, List.mem_flatMap]
  simp only [mem_afterByte, List.mem_cons, mem_endsAfterSlash, beq_iff_eq]
  constructor
  · rintro ⟨r, ⟨_, rfl, hs⟩, ht⟩
    exact ⟨r, hs, ht⟩
  · rintro ⟨r, hs, ht⟩
    exact ⟨r, ⟨_, rfl, hs⟩, ht⟩

/-- Characters leave what follows their bytes. -/
theorem mem_leftOfAll_literals {cs : List Char} :
    t ∈ leftOfAll [s] (cs.map .literal) ↔ s = encode cs ++ t := by
  induction cs generalizing s with
  | nil => simp [eq_comm]
  | cons c cs ih =>
    rw [List.map_cons, mem_leftOfAll_cons, encode_cons, List.append_assoc]
    simp only [mem_left_literal, ih, bytesOfChar_eq]
    constructor
    · rintro ⟨u, rfl, rfl⟩
      rfl
    · rintro rfl
      exact ⟨_, rfl, rfl⟩

/-! ### Ends of a path -/

mutual

/-- What a piece leaves is an end of the text. -/
theorem suffix_of_mem_left : ∀ {p : Piece} {s t : Bytes}, t ∈ p.left s → t <:+ s
  | .literal c, s, t, h => ⟨_, (mem_left_literal.1 h).symm⟩
  | .one, s, t, h => by
    rw [Piece.left] at h
    obtain ⟨b, -, rfl⟩ := mem_afterByte.1 h
    exact List.suffix_cons b t
  | .run, s, t, h => by
    obtain ⟨v, -, rfl⟩ := mem_left_run.1 h
    exact List.suffix_append v t
  | .leading, s, t, h => by
    rcases mem_left_leading.1 h with rfl | h
    · exact List.suffix_refl t
    · exact (List.suffix_cons slash t).trans h
  | .trailing, s, t, h => by
    obtain ⟨r, rfl, ht⟩ := mem_left_trailing.1 h
    exact ht.trans (List.suffix_cons slash r)
  | .between, s, t, h => by
    obtain ⟨r, rfl, rfl | ht⟩ := mem_left_between.1 h
    · exact List.suffix_cons slash t
    · exact ((List.suffix_cons slash t).trans ht).trans (List.suffix_cons slash r)
  | .oneOf negated ranges, s, t, h => by
    rw [Piece.left] at h
    obtain ⟨b, -, rfl⟩ := mem_afterByte.1 h
    exact List.suffix_cons b t
  | .choice branches, s, t, h => by
    rw [Piece.left] at h
    exact suffix_of_mem_leftOfBranches h

/-- What pieces leave is an end of the text. -/
theorem suffix_of_mem_leftOfAll : ∀ {ps : List Piece} {s t : Bytes},
    t ∈ leftOfAll [s] ps → t <:+ s
  | [], s, t, h => (mem_leftOfAll_nil.1 h) ▸ List.suffix_refl t
  | p :: r, s, t, h => by
    obtain ⟨u, hu, ht⟩ := mem_leftOfAll_cons.1 h
    exact (suffix_of_mem_leftOfAll ht).trans (suffix_of_mem_left hu)

/-- What alternatives leave is an end of the text. -/
theorem suffix_of_mem_leftOfBranches : ∀ {branches : List (List Piece)} {s t : Bytes},
    t ∈ leftOfBranches s branches → t <:+ s
  | [], s, t, h => by
    rw [leftOfBranches] at h
    exact absurd h List.not_mem_nil
  | b :: r, s, t, h => by
    rw [leftOfBranches, List.mem_append] at h
    rcases h with h | h
    · exact suffix_of_mem_leftOfAll h
    · exact suffix_of_mem_leftOfBranches h

end

end Glob
end ReleaseLint
