/-
# The characters of semantic versions

A semantic version is made of letters, digits, dots, hyphens and plus signs
(`isVersionChar_of_mem`): cut at its first plus sign and its first hyphen, it falls into
dotted identifiers.  So it stands as one name in a path (`isName_of_semantic`): it holds
no slash and is neither empty nor made of dots.
-/

import ReleaseLint.Proofs.Path.Segments
import ReleaseLint.Version.Spec

namespace ReleaseLint
namespace Version

/-- The characters that semantic versions are made of. -/
def isVersionChar (c : Char) : Bool :=
  c.isAlphanum || c == '-' || c == '.' || c == '+'

variable {c : Char} {s front r : List Char}

theorem eq_of_cut_none (h : cut c s = (front, none)) : s = front := by
  unfold cut at h
  split at h
  · exact (Prod.mk.inj h).1
  · cases (Prod.mk.inj h).2

theorem eq_of_cut_some (h : cut c s = (front, some r)) : s = front ++ c :: r := by
  unfold cut at h
  split at h
  · cases (Prod.mk.inj h).2
  · rename_i d r' hd
    obtain ⟨rfl, hr⟩ := Prod.mk.inj h
    obtain rfl := Option.some.inj hr
    have hdc : d = c := by
      have := List.head?_dropWhile_not (· != c) s
      rw [hd] at this
      simpa using this
    rw [← hdc]
    conv_lhs => rw [← List.takeWhile_append_dropWhile (p := (· != c)) (l := s), hd]
    rw [hdc]

/-- A list is made of the characters of its pieces and of the one between them. -/
theorem mem_splitOn_or_eq {d : Char} (hd : d ∈ s) : d = c ∨ ∃ piece ∈ s.splitOn c, d ∈ piece := by
  have hs : List.intercalate [c] (s.splitOn c) = s := List.intercalate_splitOn c
  rw [← hs] at hd
  clear hs
  generalize s.splitOn c = pieces at hd ⊢
  induction pieces with
  | nil => simp [List.intercalate] at hd
  | cons first rest ih =>
    by_cases hrest : rest = []
    · subst hrest
      exact .inr ⟨first, List.mem_cons_self, by simpa [List.intercalate] using hd⟩
    · rw [List.intercalate_cons_of_ne_nil hrest] at hd
      rcases List.mem_append.1 hd with hd | hd
      · rcases List.mem_append.1 hd with hd | hd
        · exact .inr ⟨first, List.mem_cons_self, hd⟩
        · exact .inl (List.mem_singleton.1 hd)
      · rcases ih hd with h | ⟨piece, hp, h⟩
        · exact .inl h
        · exact .inr ⟨piece, List.mem_cons_of_mem _ hp, h⟩

theorem isVersionChar_of_isIdentifier (h : isIdentifier s = true) :
    ∀ d ∈ s, isVersionChar d = true := by
  intro d hd
  unfold isIdentifier at h
  rw [Bool.and_eq_true, List.all_eq_true] at h
  have := h.2 d hd
  unfold isVersionChar
  rw [this]
  rfl

theorem isVersionChar_of_identifiers? {canonical : Bool} {ids : List String}
    (h : identifiers? canonical s = some ids) : ∀ d ∈ s, isVersionChar d = true := by
  intro d hd
  unfold identifiers? at h
  simp only at h
  split_ifs at h with hall
  rcases mem_splitOn_or_eq (c := '.') hd with rfl | ⟨piece, hp, hd⟩
  · rfl
  · have := List.all_eq_true.1 hall piece hp
    rw [Bool.and_eq_true] at this
    exact isVersionChar_of_isIdentifier this.1 d hd

theorem isVersionChar_of_number? {n : Nat} (h : number? s = some n) :
    ∀ d ∈ s, isVersionChar d = true := by
  intro d hd
  unfold number? at h
  split_ifs at h with hs
  unfold isCanonical at hs
  simp only [Bool.and_eq_true, List.all_eq_true] at hs
  have := hs.1.2 d hd
  unfold isVersionChar Char.isAlphanum
  rw [this]
  simp

/-- What stands behind a separator in an optional part. -/
theorem isVersionChar_of_part {canonical : Bool} {part : Option (List Char)} {ids : List String}
    (h : (part.map (identifiers? canonical)).getD (some []) = some ids) :
    ∀ r, part = some r → ∀ d ∈ r, isVersionChar d = true := by
  rintro r rfl
  exact isVersionChar_of_identifiers? h

/-- The pieces of a list that is cut, together. -/
theorem forall_mem_of_cut {P : Char → Prop} {part : Option (List Char)} (h : cut c s = (front, part))
    (hc : P c) (hfront : ∀ d ∈ front, P d) (hpart : ∀ r, part = some r → ∀ d ∈ r, P d) :
    ∀ d ∈ s, P d := by
  intro d hd
  cases part with
  | none => exact hfront d (eq_of_cut_none h ▸ hd)
  | some r =>
    rw [eq_of_cut_some h] at hd
    rcases List.mem_append.1 hd with hd | hd
    · exact hfront d hd
    · rcases List.mem_cons.1 hd with rfl | hd
      · exact hc
      · exact hpart r rfl d hd

/-- **Semantic versions are made of letters, digits, dots, hyphens and plus signs.** -/
theorem isVersionChar_of_mem {v : Semantic} (h : ofChars? s = some v) :
    ∀ d ∈ s, isVersionChar d = true := by
  unfold ofChars? at h
  rcases hb : cut '+' s with ⟨front, build⟩
  rcases hp : cut '-' front with ⟨core, pre⟩
  simp only [hb, hp, Option.bind_eq_bind, Option.bind_eq_some_iff] at h
  obtain ⟨ids, hbuild, ids', hpre, h⟩ := h
  split at h
  · rename_i a b c habc
    simp only [Option.bind_eq_some_iff] at h
    obtain ⟨major, ha, minor, hb', patch, hc, -⟩ := h
    have hcore : ∀ d ∈ core, isVersionChar d = true := by
      intro d hd
      rcases mem_splitOn_or_eq (c := '.') hd with rfl | ⟨piece, hpiece, hd⟩
      · rfl
      · rw [habc] at hpiece
        simp only [List.mem_cons, List.not_mem_nil, or_false] at hpiece
        rcases hpiece with rfl | rfl | rfl
        · exact isVersionChar_of_number? ha d hd
        · exact isVersionChar_of_number? hb' d hd
        · exact isVersionChar_of_number? hc d hd
    exact forall_mem_of_cut hb rfl
      (forall_mem_of_cut hp rfl hcore (isVersionChar_of_part hpre)) (isVersionChar_of_part hbuild)
  · cases h

/-- Whether a text is a semantic version. -/
def IsSemantic (s : String) : Prop :=
  (Semantic.ofText? s).isSome = true

/-- **A semantic version stands as one name in a path.** -/
theorem isName_of_semantic {s : String} (h : IsSemantic s) : Segment.IsName s := by
  obtain ⟨v, hv⟩ := Option.isSome_iff_exists.1 h
  rw [Segment.isName_iff]
  refine ⟨fun hmem => ?_, ?_, ?_, ?_⟩
  · have := isVersionChar_of_mem hv '/' hmem
    exact absurd this (by decide)
  all_goals
    rintro rfl
    exact absurd h (by unfold IsSemantic; decide)

end Version
end ReleaseLint
