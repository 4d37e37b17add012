/-
# Hexadecimal digits in lower case

A text without blanks is compared with hexadecimal digits, without regard to the case of ASCII
letters, as it is written or in lower case with the same outcome (`eqIgnoringCase_lowercase`):

| character | in lower case |
| --- | --- |
| of ASCII | one of ASCII, the one that the comparison makes of it |
| any other | neither a blank nor a hexadecimal digit, U+212A included, which becomes `k` |

The second row is read off the runs of letters (`lowerRuns_apart`): where a run leads, there is no
blank, and no ASCII character but that `k`.
-/

import ReleaseLint.Proofs.Text.Lines
import ReleaseLint.Proofs.Version.Spelling
import ReleaseLint.Text.Lowercase

namespace ReleaseLint
namespace Text

/-- The digits in which digests are written. -/
def hexDigits : List Char :=
  ['0', '1', '2', '3', '4', '5', '6', '7', '8', '9', 'a', 'b', 'c', 'd', 'e', 'f']

variable {c d : Char} {s : List Char}

/-! ### Characters of ASCII -/

theorem forall_ascii {P : Char → Prop} (h : ∀ n < 0x80, P (Char.ofNat n)) (hc : c.toNat < 0x80) :
    P c := by
  have := h c.toNat hc
  rwa [Char.ofNat_toNat] at this

theorem toLower_of_not_ascii (h : 0x80 ≤ c.toNat) : c.toLower = c := by
  unfold Char.toLower
  rw [dif_neg]
  rintro ⟨-, hle⟩
  rw [UInt32.le_iff_toNat_le] at hle
  have hlast : ('Z'.val).toNat < 0x80 := by decide
  exact absurd (h.trans hle) (by omega)

theorem toLower_toLower (c : Char) : c.toLower.toLower = c.toLower := by
  by_cases hc : c.toNat < 0x80
  · exact forall_ascii (P := fun c => c.toLower.toLower = c.toLower) (by decide) hc
  · rw [toLower_of_not_ascii (Nat.le_of_not_lt hc), toLower_of_not_ascii (Nat.le_of_not_lt hc)]

theorem not_isBlank_toLower (h : isBlank c = false) : isBlank c.toLower = false := by
  by_cases hc : c.toNat < 0x80
  · exact forall_ascii (P := fun c => isBlank c = false → isBlank c.toLower = false)
      (by decide) hc h
  · rwa [toLower_of_not_ascii (Nat.le_of_not_lt hc)]

theorem lowerChars_of_ascii (h : ∀ c ∈ s, c.toNat < 0x80) (before : List Char) :
    lowerChars before s = s.map Char.toLower := by
  induction s generalizing before with
  | nil => rfl
  | cons c s ih =>
    rw [List.forall_mem_cons] at h
    have hsigma : c ≠ 'Σ' := by
      rintro rfl
      exact absurd h.1 (by decide)
    have hlower : lowerChar c = [c.toLower] := by
      unfold lowerChar
      exact if_pos h.1
    rw [lowerChars, if_neg hsigma, hlower, ih h.2]
    rfl

/-! ### Other characters -/

/-- Whether a character stands out among hexadecimal digits, in either case, and blanks. -/
def StandsOut (c : Char) : Prop :=
  isBlank c = false ∧ c.toLower ∉ hexDigits

instance (c : Char) : Decidable (StandsOut c) :=
  inferInstanceAs (Decidable (_ ∧ _))

theorem standsOut_of_not_ascii (hascii : 0x80 ≤ c.toNat) (hblank : isBlank c = false) :
    StandsOut c := by
  refine ⟨hblank, fun hmem => ?_⟩
  have hdigits : hexDigits.all (·.toNat < 0x80) = true := by decide
  have hlow := of_decide_eq_true (List.all_eq_true.1 hdigits _ hmem)
  rw [toLower_of_not_ascii hascii] at hlow
  omega

/-- **No run of letters leads to blanks, and one letter leads to ASCII.** -/
theorem lowerRuns_apart : ∀ r ∈ lowerRuns,
    (0x80 ≤ r.1 + r.2.2.2 ∨ r = (0x212A, 0x212A, 1, -8383)) ∧
      blanks.all (fun b => (b.toNat : Int) < r.1 + r.2.2.2 ∨ r.2.1 + r.2.2.2 < b.toNat) = true := by
  decide +kernel

theorem standsOut_of_run {lo hi step : Nat} {distance : Int}
    (hr : (lo, hi, step, distance) ∈ lowerRuns) (hlow : lo ≤ c.toNat) (hhigh : c.toNat ≤ hi) :
    StandsOut (Char.ofNat ((c.toNat : Int) + distance).toNat) := by
  obtain ⟨hascii, hblanks⟩ := lowerRuns_apart _ hr
  dsimp only at hascii hblanks
  by_cases hvalid : ((c.toNat : Int) + distance).toNat.isValidChar
  · rcases hascii with hascii | hkelvin
    · have hcode : (Char.ofNat ((c.toNat : Int) + distance).toNat).toNat =
          ((c.toNat : Int) + distance).toNat := by
        unfold Char.ofNat
        rw [dif_pos hvalid]
        exact UInt32.toNat_ofNatLT
      refine standsOut_of_not_ascii (by omega) ?_
      rw [← Bool.not_eq_true]
      intro hblank
      have := of_decide_eq_true (List.all_eq_true.1 hblanks _ (mem_blanks hblank))
      omega
    · obtain ⟨rfl, rfl, rfl, rfl⟩ : lo = 0x212A ∧ hi = 0x212A ∧ step = 1 ∧ distance = -8383 := by
        simpa using hkelvin
      rw [Nat.le_antisymm hhigh hlow]
      decide
  · have hzero : Char.ofNat ((c.toNat : Int) + distance).toNat = '\x00' := by
      unfold Char.ofNat
      rw [dif_neg hvalid]
      rfl
    rw [hzero]
    decide

/-- A character beyond ASCII does not become a hexadecimal digit in lower case. -/
theorem exists_mem_lowerChar (hascii : 0x80 ≤ c.toNat) (hblank : isBlank c = false) :
    ∃ d ∈ lowerChar c, StandsOut d := by
  unfold lowerChar
  dsimp only
  rw [if_neg (Nat.not_lt.2 hascii)]
  split_ifs
  · exact ⟨'i', List.mem_cons_self, by decide⟩
  · split
    · rename_i lo hi step distance hrun
      have hr : (lo, hi, step, distance) ∈ lowerRuns := List.mem_of_find?_eq_some hrun
      have hin := List.find?_some hrun
      simp only [Bool.and_eq_true, decide_eq_true_eq] at hin
      exact ⟨_, List.mem_cons_self, standsOut_of_run hr hin.1.1 hin.1.2⟩
    · exact ⟨c, List.mem_cons_self, standsOut_of_not_ascii hascii hblank⟩

theorem exists_mem_lowerChars (hc : c ∈ s) (hascii : 0x80 ≤ c.toNat) (hblank : isBlank c = false)
    (before : List Char) : ∃ d ∈ lowerChars before s, StandsOut d := by
  induction s generalizing before with
  | nil => cases hc
  | cons a s ih =>
    rw [lowerChars]
    rcases List.mem_cons.1 hc with rfl | hc
    · have hhead : ∃ d ∈ (if c = 'Σ' then [lowerSigma before s] else lowerChar c), StandsOut d := by
        split_ifs with hsigma
        · refine ⟨_, List.mem_cons_self, ?_⟩
          unfold lowerSigma
          split_ifs <;> decide
        · exact exists_mem_lowerChar hascii hblank
      obtain ⟨d, hd, hout⟩ := hhead
      exact ⟨d, List.mem_append_left _ hd, hout⟩
    · obtain ⟨d, hd, hout⟩ := ih hc (a :: before)
      exact ⟨d, List.mem_append_right _ hd, hout⟩

/-! ### Comparing with hexadecimal digits -/

theorem eqIgnoringCase_iff {a b : String} :
    eqIgnoringCase a b = true ↔ a.toList.map Char.toLower = b.toList.map Char.toLower := by
  unfold eqIgnoringCase asciiLowercase
  rw [beq_iff_eq, ← String.toList_inj, String.toList_ofList, String.toList_ofList]

/-- A character that stands out keeps a text from being equal to hexadecimal digits. -/
theorem not_eqIgnoringCase {hex text : String} (hhex : ∀ c ∈ hex.toList, c ∈ hexDigits)
    (hd : d ∈ text.toList) (hout : d.toLower ∉ hexDigits) : ¬eqIgnoringCase hex text = true := by
  rw [eqIgnoringCase_iff]
  intro h
  have hmem : d.toLower ∈ hex.toList.map Char.toLower := h ▸ List.mem_map_of_mem hd
  obtain ⟨c, hc, hcd⟩ := List.mem_map.1 hmem
  have hlower : hexDigits.all (fun c => c.toLower = c) = true := by decide
  rw [of_decide_eq_true (List.all_eq_true.1 hlower c (hhex c hc))] at hcd
  exact hout (hcd ▸ hhex c hc)

/-- **Lower case makes no difference to a comparison with hexadecimal digits.** -/
theorem eqIgnoringCase_lowercase {hex text : String} (hhex : ∀ c ∈ hex.toList, c ∈ hexDigits)
    (htext : ∀ c ∈ text.toList, isBlank c = false) :
    eqIgnoringCase hex (trim (lowercase text)) = true ↔ eqIgnoringCase hex text = true := by
  have hchars : (lowercase text).toList = lowerChars [] text.toList := String.toList_ofList
  by_cases hascii : ∀ c ∈ text.toList, c.toNat < 0x80
  · have hlower : (lowercase text).toList = text.toList.map Char.toLower := by
      rw [hchars, lowerChars_of_ascii hascii]
    have htrim : trim (lowercase text) = lowercase text := by
      refine trim_of_not_blank fun c hc => ?_
      rw [hlower] at hc
      obtain ⟨d, hd, rfl⟩ := List.mem_map.1 hc
      exact not_isBlank_toLower (htext d hd)
    have htwice : Char.toLower ∘ Char.toLower = Char.toLower := funext toLower_toLower
    rw [htrim, eqIgnoringCase_iff, eqIgnoringCase_iff, hlower, List.map_map, htwice]
  -- a character beyond ASCII keeps the text from being equal, in either spelling
  · obtain ⟨c, hc, hbeyond⟩ : ∃ c ∈ text.toList, 0x80 ≤ c.toNat := by
      simpa only [not_forall, not_lt, exists_prop] using hascii
    obtain ⟨d, hd, hblank, hout⟩ := exists_mem_lowerChars hc hbeyond (htext c hc) []
    have hdtrim : d ∈ (trim (lowercase text)).toList := by
      rw [trim, String.toList_ofList, mem_trimChars hblank, hchars]
      exact hd
    exact iff_of_false (not_eqIgnoringCase hhex hdtrim hout)
      (not_eqIgnoringCase hhex hc (standsOut_of_not_ascii hbeyond (htext c hc)).2)

end Text
end ReleaseLint
