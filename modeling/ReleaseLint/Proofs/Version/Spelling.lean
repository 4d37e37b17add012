/-
# How versions are spelled

    spelling := blanks  v…v  version  blanks

A semantic version begins with a digit (`head_isDigit`) and holds no blank, so that all of its
spellings come to the version itself (`Spells.dropLeadingV_trim`), and none of them asks for the
recommended version.  A specification that is accepted has no blanks at its ends
(`trim_of_isSpec`).
-/

import ReleaseLint.Proofs.Version.Characters
import Mathlib.Data.List.TakeWhile

namespace ReleaseLint

namespace Text

variable {p : Char → Bool} {s body front back : List Char}

/-- The blanks, one by one. -/
def blanks : List Char :=
  [9, 10, 11, 12, 13, 0x20, 0x85, 0xA0, 0x1680, 0x2000, 0x2001, 0x2002, 0x2003, 0x2004, 0x2005,
    0x2006, 0x2007, 0x2008, 0x2009, 0x200A, 0x2028, 0x2029, 0x202F, 0x205F, 0x3000].map Char.ofNat

theorem mem_blanks {c : Char} (h : isBlank c = true) : c ∈ blanks := by
  refine List.mem_map.2 ⟨c.toNat, ?_, Char.ofNat_toNat c⟩
  unfold isBlank at h
  simp only [Bool.or_eq_true, Bool.and_eq_true, decide_eq_true_eq, beq_iff_eq] at h
  simp only [List.mem_cons, List.not_mem_nil, or_false]
  omega

/-- What is dropped in front stops at the first character that is to be kept. -/
theorem dropWhile_append_of_head (hfront : ∀ c ∈ front, p c = true)
    (hbody : ∀ c ∈ body.head?, p c = false) : (front ++ body).dropWhile p = body := by
  rw [List.dropWhile_append_of_pos hfront]
  cases body with
  | nil => rfl
  | cons c r => exact List.dropWhile_cons_of_neg (by simp [hbody c rfl])

theorem trimChars_append (hfront : ∀ c ∈ front, isBlank c = true)
    (hback : ∀ c ∈ back, isBlank c = true) (hne : body ≠ [])
    (hbody : ∀ c ∈ body, isBlank c = false) : trimChars (front ++ (body ++ back)) = body := by
  have hhead : ∀ c ∈ (body ++ back).head?, isBlank c = false := by
    rw [List.head?_append_of_ne_nil _ hne]
    exact fun c hc => hbody c (List.mem_of_mem_head? hc)
  have hlast : ∀ c ∈ body.reverse.head?, isBlank c = false :=
    fun c hc => hbody c (List.mem_reverse.1 (List.mem_of_mem_head? hc))
  unfold trimChars dropEndChars
  rw [dropWhile_append_of_head hfront hhead, List.reverse_append,
    dropWhile_append_of_head (fun c hc => hback c (List.mem_reverse.1 hc)) hlast,
    List.reverse_reverse]

/-- A text without blanks is not trimmed. -/
theorem trim_of_not_blank {s : String} (h : ∀ c ∈ s.toList, isBlank c = false) : trim s = s := by
  unfold trim
  by_cases hne : s.toList = []
  · rw [hne, ← String.toList_inj, hne]
    rfl
  · have := @trimChars_append s.toList [] [] (by simp) (by simp) hne h
    rw [List.nil_append, List.append_nil] at this
    rw [this, String.ofList_toList]

end Text

namespace Version

variable {s spec v : String}

theorem not_isBlank_of_isVersionChar {c : Char} (h : isVersionChar c = true) :
    Text.isBlank c = false := by
  have hall : Text.blanks.all (fun d => !isVersionChar d) = true := by decide
  by_contra hblank
  have hc := List.all_eq_true.1 hall c (Text.mem_blanks (Bool.not_eq_false _ ▸ hblank))
  rw [h] at hc
  cases hc

theorem not_isBlank_of_semantic (h : IsSemantic v) : ∀ c ∈ v.toList, Text.isBlank c = false := by
  obtain ⟨semantic, hsemantic⟩ := Option.isSome_iff_exists.1 h
  exact fun c hc => not_isBlank_of_isVersionChar (isVersionChar_of_mem hsemantic c hc)

/-- **A semantic version begins with a digit.** -/
theorem head_isDigit {s : List Char} {v : Semantic} (h : ofChars? s = some v) :
    ∃ c r, s = c :: r ∧ c.isDigit = true := by
  unfold ofChars? at h
  rcases hb : cut '+' s with ⟨front, build⟩
  rcases hp : cut '-' front with ⟨core, pre⟩
  simp only [hb, hp, Option.bind_eq_bind, Option.bind_eq_some_iff] at h
  obtain ⟨ids, -, ids', -, h⟩ := h
  have hbegins : ∀ {c : Char} {s front part}, cut c s = (front, part) → front <+: s := by
    intro c s front part hcut
    cases part with
    | none => exact eq_of_cut_none hcut ▸ List.prefix_refl _
    | some r => exact eq_of_cut_some hcut ▸ List.prefix_append _ _
  split at h
  · rename_i a b c habc
    simp only [Option.bind_eq_some_iff] at h
    obtain ⟨major, ha, -⟩ := h
    -- the first number of the core is what everything begins with
    have hdigits : a ≠ [] ∧ ∀ d ∈ a, d.isDigit = true := by
      unfold number? at ha
      split_ifs at ha with hcanonical
      unfold isCanonical at hcanonical
      simpa [List.all_eq_true] using (Bool.and_eq_true_iff.1 hcanonical).1
    have hcore : a <+: core := by
      have hjoined : List.intercalate ['.'] (core.splitOn '.') = core := List.intercalate_splitOn '.'
      rw [← hjoined, habc]
      exact List.prefix_append _ _
    obtain ⟨d, r, rfl⟩ := List.exists_cons_of_ne_nil hdigits.1
    obtain ⟨rest, rfl⟩ := (hcore.trans (hbegins hp)).trans (hbegins hb)
    exact ⟨d, r ++ rest, rfl, hdigits.2 d List.mem_cons_self⟩
  · cases h

/-- Whether a text is a version in blanks, with letters `v` in front of it. -/
def Spells (spec version : String) : Prop :=
  ∃ (count : Nat) (front back : List Char),
    (∀ c ∈ front, Text.isBlank c = true) ∧ (∀ c ∈ back, Text.isBlank c = true) ∧
      spec.toList = front ++ (List.replicate count 'v' ++ version.toList ++ back)

theorem spells_self (v : String) : Spells v v :=
  ⟨0, [], [], by simp, by simp, by simp⟩

/-- Whether a text asks for the recommended version. -/
def AsksForLatest (spec : String) : Prop :=
  Text.trim spec = "" ∨ Text.trim spec = latest

instance (spec : String) : Decidable (AsksForLatest spec) :=
  inferInstanceAs (Decidable (_ ∨ _))

/-- Letters `v` in front of a semantic version do not count. -/
theorem dropLeadingV_of_semantic (h : IsSemantic v) {count : Nat}
    (hs : s.toList = List.replicate count 'v' ++ v.toList) : Text.dropLeadingV s = v := by
  obtain ⟨semantic, hsemantic⟩ := Option.isSome_iff_exists.1 h
  obtain ⟨c, r, hv, hc⟩ := head_isDigit hsemantic
  unfold Text.dropLeadingV Text.dropStart
  rw [hs, Text.dropWhile_append_of_head, String.ofList_toList]
  · intro d hd
    rw [List.eq_of_mem_replicate hd]
    rfl
  · intro d hd
    rw [hv] at hd
    obtain rfl : c = d := by simpa using hd
    rw [beq_eq_false_iff_ne]
    rintro rfl
    exact absurd hc (by decide)

/-- What is left of a spelling without its blanks. -/
theorem Spells.trim (h : Spells spec v) (hv : IsSemantic v) :
    ∃ count, (Text.trim spec).toList = List.replicate count 'v' ++ v.toList := by
  obtain ⟨count, front, back, hfront, hback, hspec⟩ := h
  obtain ⟨semantic, hsemantic⟩ := Option.isSome_iff_exists.1 hv
  obtain ⟨c, r, hcons, -⟩ := head_isDigit hsemantic
  refine ⟨count, ?_⟩
  unfold Text.trim
  rw [hspec, String.toList_ofList, Text.trimChars_append hfront hback (by simp [hcons])]
  intro d hd
  rcases List.mem_append.1 hd with hd | hd
  · rw [List.eq_of_mem_replicate hd]
    rfl
  · exact not_isBlank_of_semantic hv d hd

/-- **Every spelling of a version comes to the version.** -/
theorem Spells.dropLeadingV_trim (h : Spells spec v) (hv : IsSemantic v) :
    Text.dropLeadingV (Text.trim spec) = v := by
  obtain ⟨count, hcount⟩ := h.trim hv
  exact dropLeadingV_of_semantic hv hcount

/-- What asks for the recommended version is no version itself. -/
theorem AsksForLatest.not_isSemantic (h : AsksForLatest spec) :
    ¬IsSemantic (Text.dropLeadingV (Text.trim spec)) := by
  unfold IsSemantic
  rcases h with h | h
  · rw [h]
    decide
  · rw [h]
    decide

/-- **No spelling of a version asks for the recommended one.** -/
theorem Spells.not_asksForLatest (h : Spells spec v) (hv : IsSemantic v) :
    ¬AsksForLatest spec := by
  intro hlatest
  refine hlatest.not_isSemantic ?_
  rwa [h.dropLeadingV_trim hv]

/-- A version that is asked for without blanks around it, or the recommended one. -/
def IsRequest (spec : String) : Prop :=
  Text.trim spec = "" ∨ isSpec (Text.trim spec) = true

/-- What is accepted has no blanks at its ends. -/
theorem trim_of_isSpec (h : isSpec s = true) : Text.trim s = s := by
  unfold isSpec at h
  rw [Bool.or_eq_true, beq_iff_eq] at h
  rcases h with rfl | h
  · decide
  · refine Text.trim_of_not_blank fun c hc => ?_
    have hsplit := List.takeWhile_append_dropWhile (p := (· == 'v')) (l := s.toList)
    rw [← hsplit] at hc
    rcases List.mem_append.1 hc with hc | hc
    · obtain rfl : c = 'v' := by simpa using List.mem_takeWhile_imp hc
      rfl
    · refine not_isBlank_of_semantic (v := Text.dropLeadingV s) h c ?_
      unfold Text.dropLeadingV Text.dropStart
      rwa [String.toList_ofList]

theorem isRequest_of_isSpec (h : isSpec s = true) : IsRequest s :=
  .inr (by rwa [trim_of_isSpec h])

/-- A request for no recommended version is one for a semantic version. -/
theorem IsRequest.isSemantic (h : IsRequest spec) (hpinned : ¬AsksForLatest spec) :
    IsSemantic (Text.dropLeadingV (Text.trim spec)) := by
  unfold AsksForLatest at hpinned
  rw [not_or] at hpinned
  have hspec := h.resolve_left hpinned.1
  unfold isSpec at hspec
  rw [Bool.or_eq_true, beq_iff_eq] at hspec
  exact hspec.resolve_left hpinned.2

end Version
end ReleaseLint
