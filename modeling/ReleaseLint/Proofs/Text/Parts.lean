/-
# Parts of texts

A text occurs in another one precisely where it is a stretch of its characters
(`occursIn_iff`), and texts that are joined by slashes hold one slash less than there are
texts, if none of them holds one (`count_joined`).
-/

import ReleaseLint.Proofs.Path.Clean
import ReleaseLint.Text.Blank

namespace ReleaseLint

namespace Text

variable {part s : List Char}

theorem occursIn_iff : occursIn part s = true ↔ part <:+: s := by
  induction s with
  | nil => rw [occursIn, List.isEmpty_iff, List.infix_nil]
  | cons c r ih =>
    rw [occursIn, Bool.or_eq_true, List.isPrefixOf_iff_prefix, ih, List.infix_cons_iff]

/-- A text that ends with another character is not shortened. -/
theorem dropEnd_eq_self {c : Char} {s : String} (h : s.toList.getLast? ≠ some c) :
    dropEnd (· == c) s = s := by
  unfold dropEnd dropEndChars
  rcases List.eq_nil_or_concat s.toList with hs | ⟨init, d, hs⟩
  · rw [← String.toList_inj, String.toList_ofList, hs]
    rfl
  · rw [List.concat_eq_append] at hs
    rw [hs, List.getLast?_concat, ne_eq, Option.some.injEq] at h
    rw [← String.toList_inj, String.toList_ofList, hs, List.reverse_concat,
      List.dropWhile_cons_of_neg (by simpa using h), List.reverse_cons, List.reverse_reverse]

/-- What holds no `c` occurs on one side of it. -/
theorem infix_append_cons {c : Char} (hc : c ∉ part) (a b : List Char) :
    part <:+: a ++ c :: b ↔ part <:+: a ∨ part <:+: b := by
  constructor
  · rintro ⟨u, v, h⟩
    rcases List.append_eq_append_iff.1 h with ⟨a', ha, -⟩ | ⟨c', hu, hb⟩
    · exact .inl ⟨u, a', ha.symm⟩
    obtain _ | ⟨_, c'⟩ := c'
    · rw [List.append_nil] at hu
      exact .inl ⟨u, [], by rw [hu, List.append_nil]⟩
    obtain ⟨rfl, rfl⟩ := List.cons.inj hb
    rcases List.append_eq_append_iff.1 hu with ⟨a', -, hpart⟩ | ⟨a', -, hpart⟩
    · exact absurd (hpart ▸ List.mem_append_right a' List.mem_cons_self) hc
    · obtain _ | ⟨_, a'⟩ := a'
      · rw [List.nil_append] at hpart
        exact absurd (hpart ▸ List.mem_cons_self) hc
      · obtain ⟨-, rfl⟩ := List.cons.inj hpart
        exact .inr ⟨a', v, rfl⟩
  · rintro (h | h)
    · exact h.trans (List.prefix_append a _).isInfix
    · exact h.trans ((List.suffix_cons c b).trans (List.suffix_append a _)).isInfix

theorem head?_dropWhile_ne (c : Char) (s : List Char) : (s.dropWhile (· == c)).head? ≠ some c := by
  intro h
  have hfirst := List.head?_dropWhile_not (· == c) s
  rw [h] at hfirst
  simp at hfirst

theorem dropEndChars_prefix (p : Char → Bool) (s : List Char) : dropEndChars p s <+: s := by
  unfold dropEndChars
  rw [← List.reverse_suffix, List.reverse_reverse]
  exact List.dropWhile_suffix p

/-- What stands in front of the rest of a text that does not begin with two of a character. -/
theorem eq_dropWhile_or {c : Char} (h : ¬[c, c] <+: s) :
    s = s.dropWhile (· == c) ∨ s = c :: s.dropWhile (· == c) := by
  obtain _ | ⟨a, s⟩ := s
  · exact .inl rfl
  by_cases ha : a = c
  · subst ha
    right
    rw [List.dropWhile_cons_of_pos (by simp)]
    obtain _ | ⟨b, s⟩ := s
    · rfl
    · have hb : b ≠ a := by
        rintro rfl
        exact h ⟨s, rfl⟩
      rw [List.dropWhile_cons_of_neg (by simpa using hb)]
  · exact .inl (by rw [List.dropWhile_cons_of_neg (by simpa using ha)])

theorem eq_dropEndChars_or {c : Char} (h : ¬[c, c] <:+ s) :
    s = dropEndChars (· == c) s ∨ s = dropEndChars (· == c) s ++ [c] := by
  have hreverse : ¬[c, c] <+: s.reverse := by
    rwa [← List.reverse_suffix, List.reverse_reverse]
  unfold dropEndChars
  rcases eq_dropWhile_or hreverse with heq | heq
  · left
    rw [← heq, List.reverse_reverse]
  · right
    rw [← List.reverse_cons, ← heq, List.reverse_reverse]

/-- The pieces between separators have characters of the text. -/
theorem mem_of_mem_splitOn {a d : Char} : ∀ {s piece : List Char}, piece ∈ s.splitOn a →
    d ∈ piece → d ∈ s
  | [], piece, h, hd => by
    rw [List.splitOn_nil, List.mem_singleton] at h
    rwa [h] at hd
  | c :: s, piece, h, hd => by
    obtain ⟨first, rest, hs⟩ := List.exists_cons_of_ne_nil (List.splitOn_ne_nil a s)
    have ih : ∀ q ∈ first :: rest, d ∈ q → d ∈ s := fun q hq => mem_of_mem_splitOn (hs ▸ hq)
    rw [List.splitOn_cons_eq_if_modifyHead, hs] at h
    split_ifs at h
    · rcases List.mem_cons.1 h with rfl | h
      · exact absurd hd List.not_mem_nil
      · exact List.mem_cons_of_mem c (ih piece h hd)
    · rcases List.mem_cons.1 h with rfl | h
      · rcases List.mem_cons.1 hd with rfl | hd
        · exact List.mem_cons_self
        · exact List.mem_cons_of_mem c (ih first List.mem_cons_self hd)
      · exact List.mem_cons_of_mem c (ih piece (List.mem_cons_of_mem _ h) hd)

end Text

variable {names : Names}

theorem toList_joined_cons {s : String} (h : names ≠ []) :
    ("/".intercalate (s :: names)).toList = s.toList ++ '/' :: ("/".intercalate names).toList := by
  rw [String.intercalate_cons_of_ne_nil h, String.toList_append, String.toList_append,
    List.append_assoc]
  rfl

/-- The characters of joined texts. -/
theorem mem_of_mem_joined {d : Char} (h : d ∈ ("/".intercalate names).toList) :
    d = '/' ∨ ∃ name ∈ names, d ∈ name.toList := by
  induction names with
  | nil => cases h
  | cons name names ih =>
    by_cases hnil : names = []
    · subst hnil
      rw [String.intercalate_singleton] at h
      exact .inr ⟨name, List.mem_cons_self, h⟩
    · rw [toList_joined_cons hnil, List.mem_append, List.mem_cons] at h
      rcases h with h | rfl | h
      · exact .inr ⟨name, List.mem_cons_self, h⟩
      · exact .inl rfl
      · obtain h | ⟨name', hname', h⟩ := ih h
        · exact .inl h
        · exact .inr ⟨name', List.mem_cons_of_mem name hname', h⟩

theorem joined_append {more : Names} (h : names ≠ []) (hmore : more ≠ []) :
    ("/".intercalate (names ++ more)).toList =
      ("/".intercalate names).toList ++ '/' :: ("/".intercalate more).toList := by
  induction names with
  | nil => exact absurd rfl h
  | cons s r ih =>
    by_cases hr : r = []
    · rw [hr, List.singleton_append, toList_joined_cons hmore, String.intercalate_singleton]
    · rw [List.cons_append, toList_joined_cons (by simp [hr]), ih hr, toList_joined_cons hr,
        List.append_assoc, List.cons_append]

/-- The names between the slashes are those that are joined. -/
theorem splitOn_joined (h : AreNames names) (hne : names ≠ []) :
    ("/".intercalate names).toList.splitOn '/' = names.map String.toList := by
  induction names with
  | nil => exact absurd rfl hne
  | cons s r ih =>
    have hs := (Segment.isName_iff.1 (h s List.mem_cons_self)).1
    by_cases hr : r = []
    · rw [hr, String.intercalate_singleton, List.splitOn_eq_singleton hs]
      rfl
    · rw [toList_joined_cons hr, List.splitOn_append_cons_self, List.splitOn_eq_singleton hs,
        ih (fun t ht => h t (List.mem_cons_of_mem s ht)) hr]
      rfl

theorem joined_ne_nil (h : AreNames names) (hne : names ≠ []) :
    ("/".intercalate names).toList ≠ [] := by
  intro hnil
  have hsplit := splitOn_joined h hne
  rw [hnil] at hsplit
  obtain ⟨s, r, rfl⟩ := List.exists_cons_of_ne_nil hne
  exact (h s List.mem_cons_self).text_ne_nil (List.cons.inj hsplit).1.symm

theorem count_joined (h : AreNames names) (hne : names ≠ []) :
    ("/".intercalate names).toList.count '/' + 1 = names.length := by
  induction names with
  | nil => exact absurd rfl hne
  | cons s r ih =>
    have hs : s.toList.count '/' = 0 :=
      List.count_eq_zero.2 (Segment.isName_iff.1 (h s List.mem_cons_self)).1
    by_cases hr : r = []
    · rw [hr, String.intercalate_singleton, hs]
      rfl
    · rw [toList_joined_cons hr, List.count_append, hs, List.count_cons_self, Nat.zero_add,
        ih (fun t ht => h t (List.mem_cons_of_mem s ht)) hr, List.length_cons]

theorem not_infix_joined {part : List Char} (hslash : '/' ∉ part) (hpart : part ≠ [])
    (h : ∀ s ∈ names, ¬part <:+: s.toList) : ¬part <:+: ("/".intercalate names).toList := by
  induction names with
  | nil => exact fun hin => hpart (List.infix_nil.1 hin)
  | cons s r ih =>
    have hs := h s List.mem_cons_self
    by_cases hr : r = []
    · rwa [hr, String.intercalate_singleton]
    · rw [toList_joined_cons hr, Text.infix_append_cons hslash, not_or]
      exact ⟨hs, ih fun t ht => h t (List.mem_cons_of_mem s ht)⟩

namespace Path

theorem slashed_eq_joined (hne : names ≠ []) :
    slashed names = '/' :: ("/".intercalate names).toList := by
  induction names with
  | nil => exact absurd rfl hne
  | cons s r ih =>
    by_cases hr : r = []
    · rw [hr, String.intercalate_singleton]
      simp [slashed]
    · rw [toList_joined_cons hr, ← ih hr]
      rfl

/-- The path of names below others. -/
theorem text_ofNames_append {more : Names} (h : AreNames (names ++ more)) (hmore : more ≠ []) :
    (ofNames (names ++ more)).text.toList =
      slashed names ++ '/' :: ("/".intercalate more).toList := by
  rw [text_ofNames h, if_neg (by simp [hmore]), ← slashed_eq_joined hmore]
  exact List.flatMap_append

theorem splitOn_slashed (h : AreNames names) :
    (slashed names).splitOn '/' = [] :: names.map String.toList := by
  by_cases hne : names = []
  · subst hne
    rfl
  · rw [slashed_eq_joined hne, ← splitOn_joined h hne, ← List.nil_append ('/' :: _),
      List.splitOn_append_cons_self]
    rfl

/-- **Where a slash ends the names in front of it,** they are the first ones of the path. -/
theorem slashed_eq_append_iff {more : Names} {r : List Char} (h : AreNames names)
    (hmore : AreNames more) : slashed more = slashed names ++ '/' :: r ↔
      ∃ rest, rest ≠ [] ∧ more = names ++ rest ∧ r = ("/".intercalate rest).toList := by
  constructor
  · intro heq
    have hsplit := congrArg (List.splitOn '/') heq
    rw [List.splitOn_append_cons_self, splitOn_slashed h, splitOn_slashed hmore, List.cons_append,
      List.cons.injEq, and_iff_right rfl] at hsplit
    obtain ⟨front, rest, rfl, hfront, hrest⟩ := List.map_eq_append_iff.1 hsplit
    obtain rfl : front = names :=
      List.map_injective_iff.2 (fun _ _ => String.toList_inj.1) hfront
    have hne : rest ≠ [] := by
      rintro rfl
      exact List.splitOn_ne_nil '/' r hrest.symm
    refine ⟨rest, hne, rfl, ?_⟩
    rw [← splitOn_joined hmore.right hne] at hrest
    have hjoined := congrArg (List.intercalate ['/']) hrest
    rw [List.intercalate_splitOn, List.intercalate_splitOn] at hjoined
    exact hjoined.symm
  · rintro ⟨rest, hne, rfl, rfl⟩
    rw [← slashed_eq_joined hne]
    exact List.flatMap_append

theorem splitOn_text_ofNames (h : AreNames names) (hne : names ≠ []) :
    (ofNames names).text.toList.splitOn '/' = [] :: names.map String.toList := by
  rw [text_ofNames h, if_neg hne, splitOn_slashed h]

theorem allBlank_ofNames (h : AreNames names) : Text.allBlank (ofNames names).text = false := by
  have hslash : '/' ∈ (ofNames names).text.toList :=
    List.mem_of_mem_head? (beq_iff_eq.1 (isAbsolute_ofNames h))
  exact List.all_eq_false.2 ⟨'/', hslash, by decide⟩

theorem segment?_name {s : String} (h : Segment.IsName s) : segment? s.toList = some (.name s) :=
  h.2

end Path
end ReleaseLint
