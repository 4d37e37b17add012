/-
# The grammar of semantic versions

A semantic version has one text: its three numbers, each in decimal digits, then a hyphen and
the identifiers of the pre-release, then a plus sign and those of the build
(`Semantic.chars`).  The reader accepts precisely the texts of valid versions
(`ofChars?_eq_some_iff`).

| of a valid version | |
| --- | --- |
| numbers | have 64 bits |
| identifiers | letters, digits and hyphens, at least one |
| identifiers of digits alone, before the plus sign | write an integer |

Letters `v` in front of a text do not count (`Writes`), and no version begins with one.
-/

import ReleaseLint.Proofs.Text.Digits
import ReleaseLint.Proofs.Version.Spelling

namespace ReleaseLint
namespace Version

variable {c : Char} {s front : List Char} {ids : List String} {n : Nat} {v : Semantic}

/-- Whether a text can stand between the dots of a part of a version. -/
structure IsIdentifier (i : String) : Prop where
  ne_empty : i ≠ ""
  isChar : ∀ c ∈ i.toList, c.isAlphanum = true ∨ c = '-'

/-- Whether a text writes an integer if it is made of digits. -/
def IsPlainNumber (i : String) : Prop :=
  (∀ c ∈ i.toList, c.isDigit = true) → ∃ n, i.toList = Nat.toDigits 10 n

/-- Identifiers with dots between them. -/
def dotted (ids : List String) : List Char :=
  ['.'].intercalate (ids.map String.toList)

/-- Identifiers behind the character that leads them; nothing if there are none. -/
def part (lead : Char) (ids : List String) : List Char :=
  if ids = [] then [] else lead :: dotted ids

namespace Semantic

/-- The numbers of a version. -/
def numbers (v : Semantic) : List Nat :=
  [v.major, v.minor, v.patch]

/-- Whether a version can be written. -/
structure IsValid (v : Semantic) : Prop where
  numbers : ∀ n ∈ v.numbers, n < UInt64.size
  pre : ∀ i ∈ v.pre, IsIdentifier i ∧ IsPlainNumber i
  build : ∀ i ∈ v.build, IsIdentifier i

/-- The numbers of a version in digits, with dots between them. -/
def core (v : Semantic) : List Char :=
  ['.'].intercalate (v.numbers.map (Nat.toDigits 10))

/-- The text of a version. -/
def chars (v : Semantic) : List Char :=
  v.core ++ part '-' v.pre ++ part '+' v.build

end Semantic

/-! ### Numbers -/

theorem isCanonical_iff : isCanonical s = true ↔ ∃ n, s = Nat.toDigits 10 n := by
  unfold isCanonical
  simp only [Bool.and_eq_true, Bool.not_eq_true', List.isEmpty_eq_false_iff, List.all_eq_true,
    Bool.or_eq_true, decide_eq_true_eq, bne_iff_ne, ne_eq]
  constructor
  · rintro ⟨⟨hne, hdigits⟩, hzero⟩
    exact ⟨_, (toDigits_ofDigitChars hdigits hne fun h => hzero.resolve_right (not_not_intro h)).symm⟩
  · rintro ⟨n, rfl⟩
    refine ⟨⟨Nat.toDigits_ne_nil, fun c => isDigit_of_mem_toDigits⟩, ?_⟩
    by_cases hhead : (Nat.toDigits 10 n).head? = some '0'
    · rw [eq_zero_of_head?_toDigits hhead, Nat.toDigits_zero]
      exact .inl rfl
    · exact .inr hhead

/-- A number is read from its digits, if it has 64 bits. -/
theorem number?_eq_some_iff : number? s = some n ↔ n < UInt64.size ∧ s = Nat.toDigits 10 n := by
  have hvalue (s : List Char) : s.foldl (fun n c => n * 10 + (c.toNat - 48)) 0 =
      Nat.ofDigitChars 10 s 0 := by
    have hstep : (fun n (c : Char) => n * 10 + (c.toNat - 48)) =
        fun n c => 10 * n + (c.toNat - '0'.toNat) :=
      funext fun n => funext fun c => by rw [Nat.mul_comm]; rfl
    rw [hstep, Nat.ofDigitChars_eq_foldl]
  unfold number?
  constructor
  · intro h
    split_ifs at h with hcanonical
    obtain ⟨m, rfl⟩ := isCanonical_iff.1 hcanonical
    dsimp only at h
    rw [hvalue, Nat.ofDigitChars_ten_toDigits] at h
    split_ifs at h with hlt
    obtain rfl := Option.some.inj h
    exact ⟨hlt, rfl⟩
  · rintro ⟨hlt, rfl⟩
    rw [if_pos (isCanonical_iff.2 ⟨n, rfl⟩)]
    dsimp only
    rw [hvalue, Nat.ofDigitChars_ten_toDigits, if_pos hlt]

/-! ### Identifiers -/

theorem isIdentifier_iff {i : String} : isIdentifier i.toList = true ↔ IsIdentifier i := by
  have hempty : i.toList = [] ↔ i = "" := by rw [← String.toList_inj, String.toList_empty]
  unfold isIdentifier
  simp only [Bool.and_eq_true, Bool.not_eq_true', List.isEmpty_eq_false_iff, List.all_eq_true,
    Bool.or_eq_true, beq_iff_eq, ne_eq, hempty]
  exact ⟨fun h => ⟨h.1, h.2⟩, fun h => ⟨h.1, h.2⟩⟩

/-- An identifier is accepted where digits alone must write an integer, or anywhere else. -/
theorem accepts_iff {canonical : Bool} {i : String} :
    (isIdentifier i.toList && (!canonical || !isNumeric i.toList || isCanonical i.toList)) = true ↔
      IsIdentifier i ∧ (canonical = true → IsPlainNumber i) := by
  rw [Bool.and_eq_true, isIdentifier_iff, Bool.or_eq_true, Bool.or_eq_true, Bool.not_eq_true',
    Bool.not_eq_true', isCanonical_iff, isNumeric, or_assoc, ← Bool.not_eq_true,
    ← Bool.not_eq_true, List.all_eq_true, ← imp_iff_not_or, ← imp_iff_not_or]
  rfl

theorem IsIdentifier.not_mem {i : String} (h : IsIdentifier i) (halnum : c.isAlphanum = false)
    (hhyphen : c ≠ '-') : c ∉ i.toList := by
  intro hmem
  rcases h.isChar c hmem with h | h
  · rw [halnum] at h
    cases h
  · exact hhyphen h

/-- Identifiers are read from their text, with dots between them. -/
theorem identifiers?_eq_some_iff {canonical : Bool} : identifiers? canonical s = some ids ↔
    ids ≠ [] ∧ s = dotted ids ∧ ∀ i ∈ ids, IsIdentifier i ∧ (canonical = true → IsPlainNumber i) := by
  have htexts (pieces : List (List Char)) :
      (pieces.map String.ofList).map String.toList = pieces := by
    rw [List.map_map]
    exact List.map_id'' (fun _ => String.toList_ofList) _
  unfold identifiers?
  constructor
  · intro h
    dsimp only at h
    split_ifs at h with hall
    obtain rfl := Option.some.inj h
    refine ⟨by simp, ?_, fun i hi => ?_⟩
    · rw [dotted, htexts, List.intercalate_splitOn]
    · obtain ⟨piece, hpiece, rfl⟩ := List.mem_map.1 hi
      rw [← accepts_iff, String.toList_ofList]
      exact List.all_eq_true.1 hall piece hpiece
  · rintro ⟨hne, rfl, hall⟩
    have hdot : ∀ piece ∈ ids.map String.toList, '.' ∉ piece := by
      intro piece hpiece
      obtain ⟨i, hi, rfl⟩ := List.mem_map.1 hpiece
      exact (hall i hi).1.not_mem (by decide) (by decide)
    dsimp only
    rw [dotted, List.splitOn_intercalate '.' hdot (by simpa using hne), if_pos, List.map_map]
    · exact congrArg some (List.map_id'' (fun _ => String.ofList_toList) _)
    · rw [List.all_eq_true]
      intro piece hpiece
      obtain ⟨i, hi, rfl⟩ := List.mem_map.1 hpiece
      exact accepts_iff.2 (hall i hi)

/-! ### Parts -/

theorem cut_of_not_mem (h : c ∉ s) : cut c s = (s, none) := by
  have hdrop : s.dropWhile (· != c) = [] :=
    List.dropWhile_eq_nil_iff.2 fun d hd => bne_iff_ne.2 fun he => h (he ▸ hd)
  unfold cut
  rw [hdrop]

theorem cut_append_cons (h : c ∉ front) (r : List Char) :
    cut c (front ++ c :: r) = (front, some r) := by
  have hfront : ∀ d ∈ front, (d != c) = true := fun d hd => bne_iff_ne.2 fun he => h (he ▸ hd)
  unfold cut
  rw [Text.dropWhile_append_of_head hfront (by simp), List.takeWhile_append_of_pos hfront,
    List.takeWhile_cons_of_neg (by simp), List.append_nil]

/-- The part that a character leads is read from behind the character. -/
theorem exists_cut_part (canonical : Bool) (hfront : c ∉ front)
    (hids : ∀ i ∈ ids, IsIdentifier i ∧ (canonical = true → IsPlainNumber i)) :
    ∃ r, cut c (front ++ part c ids) = (front, r) ∧
      (r.map (identifiers? canonical)).getD (some []) = some ids := by
  unfold part
  split_ifs with hnil
  · exact ⟨none, by rw [List.append_nil, cut_of_not_mem hfront], by rw [hnil]; rfl⟩
  · exact ⟨some (dotted ids), cut_append_cons hfront _, identifiers?_eq_some_iff.2 ⟨hnil, rfl, hids⟩⟩

/-- What is cut off and read is a part. -/
theorem eq_append_part {canonical : Bool} {r : Option (List Char)} (hcut : cut c s = (front, r))
    (hr : (r.map (identifiers? canonical)).getD (some []) = some ids) :
    s = front ++ part c ids ∧
      ∀ i ∈ ids, IsIdentifier i ∧ (canonical = true → IsPlainNumber i) := by
  unfold part
  cases r with
  | none =>
    obtain rfl := Option.some.inj hr
    exact ⟨by rw [if_pos rfl, List.append_nil, eq_of_cut_none hcut], by simp⟩
  | some r =>
    obtain ⟨hne, rfl, hall⟩ := identifiers?_eq_some_iff.1 hr
    exact ⟨by rw [if_neg hne, eq_of_cut_some hcut], hall⟩

theorem not_mem_dotted (hdot : c ≠ '.') (hids : ∀ i ∈ ids, c ∉ i.toList) : c ∉ dotted ids := by
  have hpieces : ∀ piece ∈ ids.map String.toList, c ∉ piece := by simpa using hids
  unfold dotted
  generalize ids.map String.toList = pieces at hpieces
  induction pieces with
  | nil => exact List.not_mem_nil
  | cons first rest ih =>
    rw [List.forall_mem_cons] at hpieces
    by_cases hrest : rest = []
    · rw [hrest, List.intercalate_singleton]
      exact hpieces.1
    · rw [List.intercalate_cons_of_ne_nil hrest]
      simp [hpieces.1, hdot, ih hpieces.2]

/-! ### Versions -/

/-- The numbers of a version hold neither hyphens nor plus signs. -/
theorem Semantic.not_mem_core (hdot : c ≠ '.') (hdigit : c.isDigit = false) : c ∉ v.core := by
  have hnumber : ∀ i ∈ v.numbers.map fun n => String.ofList (Nat.toDigits 10 n), c ∉ i.toList := by
    intro i hi
    obtain ⟨n, -, rfl⟩ := List.mem_map.1 hi
    rw [String.toList_ofList]
    intro hmem
    rw [isDigit_of_mem_toDigits hmem] at hdigit
    cases hdigit
  have hcore : v.core = dotted (v.numbers.map fun n => String.ofList (Nat.toDigits 10 n)) := by
    unfold core dotted
    rw [List.map_map]
    simp only [Function.comp_def, String.toList_ofList]
  rw [hcore]
  exact not_mem_dotted hdot hnumber

theorem Semantic.splitOn_core (v : Semantic) :
    v.core.splitOn '.' = v.numbers.map (Nat.toDigits 10) := by
  refine List.splitOn_intercalate '.' (fun piece hpiece => ?_) (by simp [numbers])
  obtain ⟨n, -, rfl⟩ := List.mem_map.1 hpiece
  exact fun hmem => absurd (isDigit_of_mem_toDigits hmem) (by decide)

/-- **The texts that are read are those of valid versions.** -/
theorem ofChars?_eq_some_iff : ofChars? s = some v ↔ v.IsValid ∧ s = v.chars := by
  unfold ofChars?
  constructor
  · intro h
    rcases hplus : cut '+' s with ⟨front, build⟩
    rcases hhyphen : cut '-' front with ⟨core, pre⟩
    simp only [hplus, hhyphen, Option.bind_eq_bind, Option.bind_eq_some_iff] at h
    obtain ⟨ids, hbuild, ids', hpre, h⟩ := h
    split at h
    · rename_i a b c habc
      simp only [Option.bind_eq_some_iff, number?_eq_some_iff] at h
      obtain ⟨major, ⟨hmajor, rfl⟩, minor, ⟨hminor, rfl⟩, patch, ⟨hpatch, rfl⟩, hv⟩ := h
      obtain rfl := Option.some.inj hv
      obtain ⟨rfl, hbuild⟩ := eq_append_part hplus hbuild
      obtain ⟨rfl, hpre⟩ := eq_append_part hhyphen hpre
      refine ⟨⟨by simp [Semantic.numbers, hmajor, hminor, hpatch], fun i hi => ?_,
        fun i hi => (hbuild i hi).1⟩, ?_⟩
      · exact ⟨(hpre i hi).1, (hpre i hi).2 rfl⟩
      · have hcore : core = ['.'].intercalate (core.splitOn '.') :=
          (List.intercalate_splitOn '.').symm
        rw [habc] at hcore
        rw [hcore]
        rfl
    · cases h
  · rintro ⟨hv, rfl⟩
    have hplus : '+' ∉ v.core ++ part '-' v.pre := by
      unfold part
      refine List.not_mem_append (Semantic.not_mem_core (by decide) (by decide)) ?_
      split_ifs
      · exact List.not_mem_nil
      · rw [List.mem_cons, not_or]
        exact ⟨by decide, not_mem_dotted (by decide) fun i hi =>
          (hv.pre i hi).1.not_mem (by decide) (by decide)⟩
    have hhyphen : '-' ∉ v.core := Semantic.not_mem_core (by decide) (by decide)
    obtain ⟨r, hcut, hbuild⟩ := exists_cut_part false hplus
      fun i hi => ⟨hv.build i hi, fun h => by cases h⟩
    obtain ⟨r', hcut', hpre⟩ := exists_cut_part true hhyphen
      fun i hi => ⟨(hv.pre i hi).1, fun _ => (hv.pre i hi).2⟩
    have hnumbers := hv.numbers
    simp only [Semantic.numbers, List.forall_mem_cons] at hnumbers
    have hread {n : Nat} (hn : n < UInt64.size) : number? (Nat.toDigits 10 n) = some n :=
      number?_eq_some_iff.2 ⟨hn, rfl⟩
    simp only [Semantic.chars, hcut, hcut', hbuild, hpre, Option.bind_eq_bind, Option.bind_some,
      v.splitOn_core, Semantic.numbers, List.map_cons, List.map_nil, hread hnumbers.1,
      hread hnumbers.2.1, hread hnumbers.2.2.1]

/-- Whether a text is that of a valid version, with any number of letters `v` in front of it. -/
def Writes (s : String) (v : Semantic) : Prop :=
  v.IsValid ∧ ∃ count, s.toList = List.replicate count 'v' ++ v.chars

/-- **A text is read as the version that it writes.** -/
theorem read?_eq_some_iff {s : String} : read? s = some v ↔ Writes s v := by
  constructor
  · intro h
    obtain ⟨hv, hchars⟩ := ofChars?_eq_some_iff.1 h
    refine ⟨hv, (s.toList.takeWhile (· == 'v')).length, ?_⟩
    have hletters : s.toList.takeWhile (· == 'v') =
        List.replicate (s.toList.takeWhile (· == 'v')).length 'v' :=
      List.eq_replicate_iff.2 ⟨rfl, fun c hc => by simpa using List.mem_takeWhile_imp hc⟩
    rw [← hchars, Text.dropLeadingV, Text.dropStart, String.toList_ofList, ← hletters,
      List.takeWhile_append_dropWhile]
  · rintro ⟨hv, count, hs⟩
    have hread : Semantic.ofText? (String.ofList v.chars) = some v := by
      rw [Semantic.ofText?, String.toList_ofList]
      exact ofChars?_eq_some_iff.2 ⟨hv, rfl⟩
    have hsemantic : IsSemantic (String.ofList v.chars) := by rw [IsSemantic, hread]; rfl
    have hletters : s.toList = List.replicate count 'v' ++ (String.ofList v.chars).toList := by
      rw [hs, String.toList_ofList]
    rw [read?, dropLeadingV_of_semantic hsemantic hletters]
    exact hread

end Version
end ReleaseLint
