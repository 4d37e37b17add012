/-
# Lines and fields

| reading | does not see |
| --- | --- |
| `trimChars` | blanks at the ends (`trimChars_append_blanks`) |
| lines, by what does not see a carriage return at their end | how a line ends (`filterMap_lineChars`) |
| fields | how many blanks divide them (`fieldChars_append_blanks`, `fieldChars_field`) |

So a text is read line by line as it is split at its line feeds, whatever the line endings are
and whether or not the last line has one.
-/

import ReleaseLint.Proofs.Text.Parts
import Mathlib.Data.List.TakeWhile

namespace ReleaseLint
namespace Text

variable {p : Char → Bool} {s front back field rest line : List Char} {α : Type}

/-! ### Blanks at the ends -/

theorem dropEndChars_append (s : List Char) (h : ∀ c ∈ back, p c = true) :
    dropEndChars p (s ++ back) = dropEndChars p s := by
  unfold dropEndChars
  rw [List.reverse_append, List.dropWhile_append_of_pos fun c hc => h c (List.mem_reverse.1 hc)]

/-- **Blanks at the ends are not seen.** -/
theorem trimChars_append_blanks (hfront : ∀ c ∈ front, isBlank c = true)
    (hback : ∀ c ∈ back, isBlank c = true) (s : List Char) :
    trimChars (front ++ (s ++ back)) = trimChars s := by
  unfold trimChars
  rw [List.dropWhile_append_of_pos hfront, List.dropWhile_append]
  split_ifs with hs
  · rw [List.isEmpty_iff] at hs
    rw [hs, List.dropWhile_eq_nil_iff.2 hback]
  · exact dropEndChars_append _ hback

theorem trimChars_cons_blank {c : Char} (hc : isBlank c = true) (s : List Char) :
    trimChars (c :: s) = trimChars s := by
  unfold trimChars
  rw [List.dropWhile_cons_of_pos hc]

theorem trimChars_append_return (line : List Char) : trimChars (line ++ ['\r']) = trimChars line :=
  trimChars_append_blanks (List.forall_mem_nil _) (List.forall_mem_singleton.2 (by decide)) line

/-- Whether a text begins and ends with characters that are no blanks, or is empty. -/
def IsTrim (s : List Char) : Prop :=
  (∀ c ∈ s.head?, isBlank c = false) ∧ ∀ c ∈ s.getLast?, isBlank c = false

theorem dropWhile_eq_self (h : ∀ c ∈ s.head?, p c = false) : s.dropWhile p = s := by
  cases s with
  | nil => rfl
  | cons c r => exact List.dropWhile_cons_of_neg (by simp [h c rfl])

theorem head?_dropWhile : ∀ c ∈ (s.dropWhile p).head?, p c = false := by
  intro c hc
  have hfirst := List.head?_dropWhile_not p s
  rwa [Option.mem_def.1 hc] at hfirst

theorem trimChars_eq_self_iff : trimChars s = s ↔ IsTrim s := by
  unfold trimChars dropEndChars
  constructor
  · intro h
    have hprefix : s <+: s.dropWhile isBlank := by
      conv_lhs => rw [← h]
      exact dropEndChars_prefix isBlank _
    have hfront : s.dropWhile isBlank = s :=
      ((List.dropWhile_suffix isBlank).eq_of_length_le hprefix.length_le)
    rw [hfront, List.reverse_eq_iff] at h
    refine ⟨?_, ?_⟩
    · rw [← hfront]
      exact head?_dropWhile
    · rw [← List.head?_reverse, ← h]
      exact head?_dropWhile
  · rintro ⟨hhead, hlast⟩
    rw [dropWhile_eq_self hhead, dropWhile_eq_self (by rwa [List.head?_reverse]),
      List.reverse_reverse]

theorem trim_eq_self_iff {s : String} : trim s = s ↔ IsTrim s.toList := by
  rw [← trimChars_eq_self_iff, ← String.toList_inj, trim, String.toList_ofList]

/-- Trimming takes blanks away and nothing else. -/
theorem mem_trimChars {c : Char} (hc : isBlank c = false) : c ∈ trimChars s ↔ c ∈ s := by
  have hdrop (s : List Char) : c ∈ s.dropWhile isBlank ↔ c ∈ s := by
    refine ⟨fun h => (List.dropWhile_suffix isBlank).mem h, fun h => ?_⟩
    rw [← List.takeWhile_append_dropWhile (p := isBlank) (l := s), List.mem_append] at h
    refine h.resolve_left fun hblank => ?_
    rw [List.mem_takeWhile_imp hblank] at hc
    cases hc
  unfold trimChars dropEndChars
  rw [List.mem_reverse, hdrop, List.mem_reverse, hdrop]

/-! ### Lines -/

/-- **A reading that does not see a carriage return at the end of a line, and finds nothing in
an empty one, reads what stands between the line feeds.** -/
theorem filterMap_lineChars {f : List Char → Option α}
    (hreturn : ∀ line, f (line ++ ['\r']) = f line) (hempty : f [] = none) (s : List Char) :
    (lineChars s).filterMap f = (s.splitOn '\n').filterMap f := by
  have hstrip : ∀ line, f (stripReturn line) = f line := by
    intro line
    unfold stripReturn
    split_ifs with h
    · obtain ⟨line', rfl⟩ := List.getLast?_eq_some_iff.1 h
      rw [List.dropLast_concat, hreturn]
    · rfl
  obtain ⟨pieces, last, hpieces⟩ :=
    (List.eq_nil_or_concat (s.splitOn '\n')).resolve_left (List.splitOn_ne_nil _ _)
  rw [List.concat_eq_append] at hpieces
  unfold lineChars
  dsimp only
  rw [hpieces, List.dropLast_concat, List.getLast?_concat, List.filterMap_append,
    List.filterMap_append, List.filterMap_map]
  congr 1
  · exact List.filterMap_congr fun piece _ => hstrip piece
  · cases last with
    | nil => rw [List.filterMap_cons_none hempty]; rfl
    | cons c r => rfl

/-! ### Fields -/

/-- The longest runs of characters that are no blanks. -/
def fieldChars (s : List Char) : List (List Char) :=
  (s.splitOnP isBlank).filter (!·.isEmpty)

theorem fieldChars_cons_blank {c : Char} (hc : isBlank c = true) (s : List Char) :
    fieldChars (c :: s) = fieldChars s := by
  unfold fieldChars
  rw [List.splitOnP_cons_eq_if_modifyHead, if_pos hc, List.filter_cons_of_neg (by simp)]

theorem fieldChars_append_blanks (h : ∀ c ∈ front, isBlank c = true) (s : List Char) :
    fieldChars (front ++ s) = fieldChars s := by
  induction front with
  | nil => rfl
  | cons c front ih =>
    rw [List.forall_mem_cons] at h
    rw [List.cons_append, fieldChars_cons_blank h.1, ih h.2]

theorem fieldChars_blanks (h : ∀ c ∈ back, isBlank c = true) : fieldChars back = [] := by
  have := fieldChars_append_blanks h []
  rwa [List.append_nil] at this

/-- **A field ends at the first blank.** -/
theorem fieldChars_field (hne : field ≠ []) (hfield : ∀ c ∈ field, isBlank c = false)
    (hrest : ∀ c ∈ rest.head?, isBlank c = true) :
    fieldChars (field ++ rest) = field :: fieldChars rest := by
  have hkept (fields : List (List Char)) :
      (field :: fields).filter (!·.isEmpty) = field :: fields.filter (!·.isEmpty) :=
    List.filter_cons_of_pos (by simpa using hne)
  cases rest with
  | nil =>
    unfold fieldChars
    rw [List.append_nil, List.splitOnP_eq_singleton hfield, hkept]
    rfl
  | cons c rest =>
    have hc := hrest c rfl
    rw [fieldChars_cons_blank hc]
    unfold fieldChars
    rw [List.splitOnP_append_cons _ _ hc, List.splitOnP_eq_singleton hfield,
      List.singleton_append, hkept]

theorem fields_eq (s : String) : fields s = (fieldChars s.toList).map String.ofList := rfl

end Text
end ReleaseLint
