/-
# Written values are read

The reader reads every text of `Writes` as the value that it writes (`ofText?_of_writes`),
whichever white space and escapes the text chooses.

The proof is by induction on the levels that the readers may open.  A piece that is shorter
than that number is read in full, and reading goes on behind it (`Reads`).

| piece | read in front of |
| --- | --- |
| a string | anything |
| an integer | what neither lengthens it nor makes it a fraction (`EndsNumber`) |
| a value | the same |
| the items of an array | its closing bracket |
| the members of an object | its closing brace |
-/

import ReleaseLint.Json.Reader
import ReleaseLint.Proofs.Json.Grammar
import ReleaseLint.Proofs.Text.Digits
import Mathlib.Data.List.DropRight
import Mathlib.Data.List.TakeWhile
import Mathlib.Tactic.IntervalCases

namespace ReleaseLint
namespace Json

/-! ### White space -/

theorem isSpace_iff {c : Char} : isSpace c = true ↔ c = ' ' ∨ c = '\t' ∨ c = '\n' ∨ c = '\r' := by
  unfold isSpace
  simp [or_assoc]

theorem skipSpace_append {a : List Char} (ha : AreSpaces a) (s : List Char) :
    skipSpace (a ++ s) = skipSpace s :=
  List.dropWhile_append_of_pos fun c hc => isSpace_iff.2 (ha c hc)

theorem skipSpace_cons {c : Char} (hc : isSpace c = false) (s : List Char) :
    skipSpace (c :: s) = c :: s :=
  List.dropWhile_cons_of_neg (by simp [hc])

/-! ### Strings -/

theorem hexDigit?_eq {n : Nat} {c : Char} (h : IsHexDigit n c) : hexDigit? c = some n := by
  obtain ⟨hn, hc⟩ := h
  interval_cases n
  all_goals rcases hc with rfl | rfl <;> rfl

theorem hex4?_eq {n : Nat} {u : List Char} (h : WritesUnit n u) :
    ∃ a b c d, u = [a, b, c, d] ∧ hex4? a b c d = some n := by
  obtain ⟨ha, hb, hc, hd⟩ := h
  refine ⟨_, _, _, _, rfl, ?_⟩
  unfold hex4?
  rw [hexDigit?_eq ha, hexDigit?_eq hb, hexDigit?_eq hc, hexDigit?_eq hd]
  rfl

theorem escape?_eq {c e : Char} (h : (e, c) ∈ shortEscapes) : e ≠ 'u' ∧ escape? e = some c := by
  unfold shortEscapes at h
  simp only [List.mem_cons, Prod.mk.injEq, List.not_mem_nil, or_false] at h
  rcases h with ⟨rfl, rfl⟩ | ⟨rfl, rfl⟩ | ⟨rfl, rfl⟩ | ⟨rfl, rfl⟩ | ⟨rfl, rfl⟩ | ⟨rfl, rfl⟩ |
    ⟨rfl, rfl⟩ | ⟨rfl, rfl⟩
  all_goals exact ⟨by decide, rfl⟩

variable {s t r r' : List Char} {ps : List Piece} {c : Char} {n : Nat}

theorem pieces?_unit {u : List Char} (h : WritesUnit n u) (hr : pieces? r = some (ps, r')) :
    pieces? ('\\' :: 'u' :: u ++ r) = some (.ofUnit n :: ps, r') := by
  obtain ⟨a, b, c, d, rfl, hn⟩ := hex4?_eq h
  simp only [List.cons_append, List.nil_append, pieces?, hn, hr]
  rfl

theorem pieces?_short {e : Char} (h : (e, c) ∈ shortEscapes) (hr : pieces? r = some (ps, r')) :
    pieces? ('\\' :: e :: r) = some (.char c :: ps, r') := by
  obtain ⟨hne, he⟩ := escape?_eq h
  rw [pieces?]
  · rw [he, hr]
    rfl
  · intro a b c d r he' _
    exact hne he'

theorem pieces?_plain (hlow : 0x20 ≤ c.toNat) (hquote : c ≠ '"') (hback : c ≠ '\\')
    (hr : pieces? r = some (ps, r')) : pieces? (c :: r) = some (.char c :: ps, r') := by
  rw [pieces?, if_neg (by simpa [hback] using hlow), hr]
  · rfl
  · exact hquote
  · intro a b c d r he _
    exact hback he
  · intro e r he _
    exact hback he

/-- Reading a string goes on behind each character. -/
theorem pieces?_of_writesChar (h : WritesChar c t) (hr : pieces? r = some (ps, r')) :
    ∃ qs, pieces? (t ++ r) = some (qs, r') ∧ joinPieces qs = (joinPieces ps).map (c :: ·) := by
  cases h with
  | plain hlow hquote hback => exact ⟨_, pieces?_plain hlow hquote hback hr, rfl⟩
  | short h => exact ⟨_, pieces?_short h hr, rfl⟩
  | unit h =>
    refine ⟨_, pieces?_unit h hr, ?_⟩
    have hvalid : c.toNat < 0xD800 ∨ 0xDFFF < c.toNat := c.valid.imp id And.left
    unfold Piece.ofUnit
    rw [if_neg (by simp; omega), if_neg (by simp; omega), Char.ofNat_toNat]
    rfl
  | @pair u v high low hu hv hhigh hlow hc =>
    rw [List.append_assoc]
    refine ⟨_, pieces?_unit hu (pieces?_unit hv hr), ?_⟩
    have h1 : Piece.ofUnit high = .high high := by
      unfold Piece.ofUnit
      rw [if_pos (by simpa using hhigh)]
    have h2 : Piece.ofUnit low = .low low := by
      unfold Piece.ofUnit
      rw [if_neg (by simp; omega), if_pos (by simpa using hlow)]
    rw [h1, h2]
    show (joinPieces ps).map
      (Char.ofNat (0x10000 + (high - 0xD800) * 0x400 + (low - 0xDC00)) :: ·) = _
    rw [← hc, Char.ofNat_toNat]

theorem pieces?_of_writesChars (h : WritesChars s t) (r : List Char) :
    ∃ ps, pieces? (t ++ '"' :: r) = some (ps, r) ∧ joinPieces ps = some s := by
  induction h with
  | nil => exact ⟨[], by rw [List.nil_append, pieces?], rfl⟩
  | cons hc _ ih =>
    obtain ⟨ps, hps, hjoin⟩ := ih
    obtain ⟨qs, hqs, hjoin'⟩ := pieces?_of_writesChar hc hps
    exact ⟨qs, by rw [List.append_assoc, hqs], by rw [hjoin', hjoin]; rfl⟩

/-- **A string literal is read as what it writes.** -/
theorem string?_of_writesChars {text : String} (h : WritesChars text.toList t) (r : List Char) :
    string? (t ++ '"' :: r) = some (some text, r) := by
  obtain ⟨ps, hps, hjoin⟩ := pieces?_of_writesChars h r
  unfold string?
  rw [hps, Option.map_some]
  simp only [hjoin, Option.map_some, String.ofList_toList]

/-! ### Integers -/

/-- Whether a number ends in front of a text. -/
def EndsNumber (r : List Char) : Prop :=
  ∀ c ∈ r.head?, c.isDigit = false ∧ c ≠ '.' ∧ c ≠ 'e' ∧ c ≠ 'E'

/-- The digits in front of a text are those of an integer that ends there. -/
theorem span_isDigit (hr : EndsNumber r) (n : Nat) :
    (Nat.toDigits 10 n ++ r).takeWhile Char.isDigit = Nat.toDigits 10 n ∧
      (Nat.toDigits 10 n ++ r).dropWhile Char.isDigit = r := by
  rw [List.takeWhile_append_of_pos fun c => isDigit_of_mem_toDigits,
    List.dropWhile_append_of_pos fun c => isDigit_of_mem_toDigits]
  cases r with
  | nil => exact ⟨List.append_nil _, rfl⟩
  | cons c r =>
    have hc : ¬c.isDigit = true := by simp [(hr c rfl).1]
    rw [List.takeWhile_cons_of_neg hc, List.dropWhile_cons_of_neg hc]
    exact ⟨List.append_nil _, rfl⟩

/-- Digits are taken as long as what they write has 64 bits. -/
theorem appendDigits_eq {digits : List Char} {init : Nat}
    (h : Nat.ofDigitChars 10 digits init < UInt64.size) :
    appendDigits init digits = (Nat.ofDigitChars 10 digits init, 0) := by
  induction digits generalizing init with
  | nil => rfl
  | cons c digits ih =>
    rw [Nat.ofDigitChars_cons, Nat.mul_comm] at h ⊢
    have hle : init * 10 + (c.toNat - '0'.toNat) ≤
        Nat.ofDigitChars 10 digits (init * 10 + (c.toNat - '0'.toNat)) := by
      rw [Nat.ofDigitChars_eq_ofDigitChars_zero]
      exact Nat.le_add_right_of_le (Nat.le_mul_of_pos_left _ (Nat.pow_pos (by decide)))
    rw [appendDigits]
    exact (if_pos (Nat.lt_of_le_of_lt hle h)).trans (ih h)

theorem appendDigits_toDigits (hn : n < UInt64.size) :
    appendDigits 0 (Nat.toDigits 10 n) = (n, 0) := by
  have hvalue : Nat.ofDigitChars 10 (Nat.toDigits 10 n) 0 = n := Nat.ofDigitChars_ten_toDigits
  rw [appendDigits_eq (by rwa [hvalue]), hvalue]

/-- No zero stands in front of the digits of an integer. -/
theorem no_leading_zero (n : Nat) :
    ¬((Nat.toDigits 10 n).isEmpty || ((Nat.toDigits 10 n).head? == some '0' &&
      decide ((Nat.toDigits 10 n).length > 1))) = true := by
  intro h
  simp only [Bool.or_eq_true, Bool.and_eq_true, List.isEmpty_iff, beq_iff_eq,
    decide_eq_true_iff] at h
  rcases h with h | ⟨h, hlen⟩
  · exact Nat.toDigits_ne_nil h
  · rw [eq_zero_of_head?_toDigits h, Nat.toDigits_zero] at hlen
    exact Nat.lt_irrefl 1 hlen

theorem fraction?_of_endsNumber (hr : EndsNumber r) : fraction? r = some ([], r) := by
  unfold fraction?
  split
  · exact absurd rfl (hr '.' rfl).2.1
  · rfl

theorem exponent?_of_endsNumber (hr : EndsNumber r) : exponent? r = some (none, r) := by
  unfold exponent?
  split
  · rename_i c r
    obtain ⟨-, -, he, he'⟩ := hr c rfl
    rw [if_neg (by simp [he, he'])]
  · rfl

/-- **An integer is read as what it writes,** where it ends. -/
theorem number?_integerChars {negative : Bool} (hn : n < UInt64.size) (hr : EndsNumber r) :
    number? (integerChars negative n ++ r) = some (⟨negative, n, 0, true⟩, r) := by
  obtain ⟨htake, hdrop⟩ := span_isDigit hr n
  unfold number?
  split
  rename_i negative' s hsign
  obtain ⟨rfl, rfl⟩ : negative' = negative ∧ s = Nat.toDigits 10 n ++ r := by
    unfold integerChars at hsign
    cases negative with
    | true =>
      split at hsign
      · rename_i heq
        cases hsign
        exact ⟨rfl, (List.cons.inj heq).2.symm⟩
      · rename_i hne
        exact absurd rfl (hne (Nat.toDigits 10 n ++ r))
    | false =>
      rw [if_neg Bool.false_ne_true, List.nil_append] at hsign
      split at hsign
      · rename_i heq
        obtain ⟨c, u, hcu, hc⟩ := exists_cons_toDigits n
        rw [hcu] at heq
        obtain rfl := (List.cons.inj heq).1
        cases hc
      · cases hsign
        exact ⟨rfl, rfl⟩
  simp only [htake, hdrop]
  rw [if_neg (no_leading_zero n), fraction?_of_endsNumber hr, Option.bind_eq_bind,
    Option.bind_some, exponent?_of_endsNumber hr, Option.bind_eq_bind, Option.bind_some,
    appendDigits_toDigits hn]
  rfl

/-! ### Values -/

/-- An integer begins with a minus sign or a digit. -/
theorem exists_cons_integerChars (negative : Bool) (n : Nat) :
    ∃ c u, integerChars negative n = c :: u ∧ (c = '-' ∨ c.isDigit = true) := by
  cases negative with
  | true => exact ⟨'-', _, rfl, .inl rfl⟩
  | false =>
    obtain ⟨c, u, hcu, hc⟩ := exists_cons_toDigits n
    exact ⟨c, u, by rw [integerChars, hcu]; rfl, .inr hc⟩

theorem not_isSpace_of_number (hc : c = '-' ∨ c.isDigit = true) :
    isSpace c = false ∧ c ≠ ']' ∧ c ≠ '\x7d' := by
  refine ⟨?_, ?_, ?_⟩
  · by_contra hspace
    rcases isSpace_iff.1 (by simpa using hspace) with rfl | rfl | rfl | rfl
    all_goals exact absurd hc (by decide)
  · rintro rfl
    exact absurd hc (by decide)
  · rintro rfl
    exact absurd hc (by decide)

/-- A written value begins with a character that is not white space and closes nothing. -/
theorem exists_cons_of_writes {j : Json} (h : Writes j t) :
    ∃ c u, t = c :: u ∧ isSpace c = false ∧ c ≠ ']' ∧ c ≠ '\x7d' := by
  cases h with
  | null => exact ⟨'n', _, rfl, by decide⟩
  | true => exact ⟨'t', _, rfl, by decide⟩
  | false => exact ⟨'f', _, rfl, by decide⟩
  | string => exact ⟨'"', _, rfl, by decide⟩
  | array => exact ⟨'[', _, rfl, by decide⟩
  | object => exact ⟨'\x7b', _, rfl, by decide⟩
  | @integer negative n hn =>
    obtain ⟨c, u, hcu, hc⟩ := exists_cons_integerChars negative n
    exact ⟨c, u, hcu, not_isSpace_of_number hc⟩

/-- Whether the readers of `n` levels read every text that is short enough as what it writes. -/
structure Reads (n : Nat) : Prop where
  value : ∀ {j t r}, Writes j t → t.length < n → EndsNumber r → value? n (t ++ r) = some (j, r)
  items : ∀ {item items t} r, WritesItems (item :: items) t → t.length + 1 < n →
    items? n (t ++ ']' :: r) = some (item :: items, r)
  members : ∀ {m members t} r, WritesMembers (m :: members) t → t.length + 1 < n →
    members? n (t ++ '\x7d' :: r) = some (m :: members, r)

theorem skipSpace_skipSpace (s : List Char) : skipSpace (skipSpace s) = skipSpace s :=
  List.dropWhile_idempotent isSpace s

@[simp]
theorem value?_skipSpace (n : Nat) (s : List Char) : value? n (skipSpace s) = value? n s := by
  cases n with
  | zero => rfl
  | succ n => rw [value?, value?, skipSpace_skipSpace]

@[simp]
theorem items?_skipSpace (n : Nat) (s : List Char) : items? n (skipSpace s) = items? n s := by
  cases n with
  | zero => rfl
  | succ n => rw [items?, items?, value?_skipSpace]

@[simp]
theorem members?_skipSpace (n : Nat) (s : List Char) :
    members? n (skipSpace s) = members? n s := by
  cases n with
  | zero => rfl
  | succ n => rw [members?, members?, skipSpace_skipSpace]

/-- White space in front of a value does not count. -/
theorem value?_append {a : List Char} (ha : AreSpaces a) (n : Nat) (s : List Char) :
    value? n (a ++ s) = value? n s := by
  rw [← value?_skipSpace, skipSpace_append ha, value?_skipSpace]

theorem value?_string (n : Nat) (s : List Char) :
    value? (n + 1) ('"' :: s) = (string? s).map fun (t, r) => (.string t, r) := rfl

theorem value?_number (hc : c = '-' ∨ c.isDigit = true) (hspace : isSpace c = false) :
    value? (n + 1) (c :: s) = (number? (c :: s)).map fun (x, r) => (.number x, r) := by
  rw [value?, skipSpace_cons hspace]
  split
  · rename_i heq
    obtain rfl := (List.cons.inj heq).1
    exact absurd hc (by decide)
  · rename_i heq
    obtain rfl := (List.cons.inj heq).1
    exact absurd hc (by decide)
  · rename_i heq
    obtain rfl := (List.cons.inj heq).1
    exact absurd hc (by decide)
  · rename_i heq
    obtain ⟨rfl, rfl⟩ := List.cons.inj heq
    rw [if_pos (by simpa using hc)]
  · rename_i heq
    cases heq

theorem value?_bracket (n : Nat) (s : List Char) :
    value? (n + 1) ('[' :: s) = match skipSpace s with
      | ']' :: r => some (.array [], r)
      | r => (items? n r).map fun (items, r) => (.array items, r) := rfl

theorem value?_array_nil (h : skipSpace s = ']' :: r) :
    value? (n + 1) ('[' :: s) = some (.array [], r) := by
  rw [value?_bracket, h]
  rfl

theorem value?_array (h : skipSpace s = c :: t) (hc : c ≠ ']') :
    value? (n + 1) ('[' :: s) = (items? n s).map fun (items, r) => (.array items, r) := by
  rw [value?_bracket, ← items?_skipSpace, h]
  split
  · rename_i heq
    exact absurd (List.cons.inj heq).1 hc
  · rfl

theorem value?_brace (n : Nat) (s : List Char) :
    value? (n + 1) ('\x7b' :: s) = match skipSpace s with
      | '\x7d' :: r => some (.object [], r)
      | r => (members? n r).map fun (members, r) => (.object members, r) := rfl

theorem value?_object_nil (h : skipSpace s = '\x7d' :: r) :
    value? (n + 1) ('\x7b' :: s) = some (.object [], r) := by
  rw [value?_brace, h]
  rfl

theorem value?_object (h : skipSpace s = c :: t) (hc : c ≠ '\x7d') :
    value? (n + 1) ('\x7b' :: s) = (members? n s).map fun (members, r) => (.object members, r) := by
  rw [value?_brace, ← members?_skipSpace, h]
  split
  · rename_i heq
    exact absurd (List.cons.inj heq).1 hc
  · rfl

theorem endsNumber_of_isSpace (hc : isSpace c = true) (r : List Char) : EndsNumber (c :: r) := by
  rintro _ ⟨⟩
  rcases isSpace_iff.1 hc with rfl | rfl | rfl | rfl <;> decide

theorem endsNumber_append {b : List Char} (hb : AreSpaces b) (hr : EndsNumber r) :
    EndsNumber (b ++ r) := by
  cases b with
  | nil => exact hr
  | cons c b => exact endsNumber_of_isSpace (isSpace_iff.2 (hb c List.mem_cons_self)) (b ++ r)

theorem endsNumber_cons (hc : c = ',' ∨ c = ']' ∨ c = '\x7d') (r : List Char) :
    EndsNumber (c :: r) := by
  rintro _ ⟨⟩
  rcases hc with rfl | rfl | rfl <;> decide

/-- Behind white space the items of an array begin with no closing bracket. -/
theorem skipSpace_items {item : Json} {items : List Json} (h : WritesItems (item :: items) t)
    (r : List Char) : ∃ c u, skipSpace (t ++ r) = c :: u ∧ c ≠ ']' := by
  have hskip : ∀ {a t' : List Char}, AreSpaces a → Writes item t' → ∀ x,
      ∃ c u, skipSpace (a ++ (t' ++ x)) = c :: u ∧ c ≠ ']' := by
    intro a t' ha ht x
    obtain ⟨c, u, rfl, hspace, hc, -⟩ := exists_cons_of_writes ht
    exact ⟨c, u ++ x, by rw [skipSpace_append ha, List.cons_append, skipSpace_cons hspace], hc⟩
  cases h with
  | one ha ht _ =>
    rw [List.append_assoc, List.append_assoc]
    exact hskip ha ht _
  | cons ha ht _ _ =>
    rw [List.append_assoc, List.append_assoc]
    exact hskip ha ht _

/-- Behind white space the members of an object begin with a quote. -/
theorem skipSpace_member {m : Option String × Json} (h : WritesMember m t) (r : List Char) :
    ∃ u, skipSpace (t ++ r) = '"' :: u := by
  obtain ⟨ha, -⟩ := h
  rw [List.append_assoc, skipSpace_append ha, List.cons_append, skipSpace_cons (by decide)]
  exact ⟨_, rfl⟩

theorem skipSpace_members {m : Option String × Json} {members : List (Option String × Json)}
    (h : WritesMembers (m :: members) t) (r : List Char) : ∃ u, skipSpace (t ++ r) = '"' :: u := by
  cases h with
  | one ht => exact skipSpace_member ht r
  | cons ht _ =>
    rw [List.append_assoc]
    exact skipSpace_member ht _

namespace Reads

theorem value_succ (ih : Reads n) {j : Json} (h : Writes j t) (ht : t.length < n + 1)
    (hr : EndsNumber r) : value? (n + 1) (t ++ r) = some (j, r) := by
  cases h with
  | null => rfl
  | true => rfl
  | false => rfl
  | @string s t h =>
    rw [List.append_assoc, List.cons_append, value?_string, List.singleton_append,
      string?_of_writesChars h r]
    rfl
  | @integer negative m hm =>
    obtain ⟨c, u, hcu, hc⟩ := exists_cons_integerChars negative m
    obtain ⟨hspace, -⟩ := not_isSpace_of_number hc
    have hnumber : number? (integerChars negative m ++ r) = some (⟨negative, m, 0, true⟩, r) :=
      number?_integerChars hm hr
    rw [hcu, List.cons_append] at hnumber ⊢
    rw [value?_number hc hspace, hnumber]
    rfl
  | @array items t h =>
    rw [List.length_append, List.length_cons, List.length_singleton] at ht
    rw [List.append_assoc, List.cons_append, List.singleton_append]
    cases items with
    | nil =>
      cases h with
      | nil ha => exact value?_array_nil (by rw [skipSpace_append ha, skipSpace_cons (by decide)])
    | cons item items =>
      obtain ⟨c, u, hskip, hc⟩ := skipSpace_items h (']' :: r)
      rw [value?_array hskip hc, ih.items r h (by omega)]
      rfl
  | @object members t h =>
    rw [List.length_append, List.length_cons, List.length_singleton] at ht
    rw [List.append_assoc, List.cons_append, List.singleton_append]
    cases members with
    | nil =>
      cases h with
      | nil ha => exact value?_object_nil (by rw [skipSpace_append ha, skipSpace_cons (by decide)])
    | cons m members =>
      obtain ⟨u, hskip⟩ := skipSpace_members h ('\x7d' :: r)
      rw [value?_object hskip (by decide), ih.members r h (by omega)]
      rfl

/-- Reading the items of an array goes on behind each item. -/
theorem items?_of_item (ih : Reads n) {item : Json} {a b : List Char} (ha : AreSpaces a)
    (hitem : Writes item t) (hb : AreSpaces b) (ht : t.length < n) (hc : c = ',' ∨ c = ']')
    (r : List Char) :
    items? (n + 1) (a ++ (t ++ (b ++ c :: r))) =
      if c = ',' then (items? n r).map fun (rest, r) => (item :: rest, r)
      else some ([item], r) := by
  have hends : EndsNumber (c :: r) := endsNumber_cons (hc.imp_right .inl) r
  rw [items?, value?_append ha, ih.value hitem ht (endsNumber_append hb hends),
    Option.bind_eq_bind, Option.bind_some]
  rcases hc with rfl | rfl
  · rw [if_pos rfl, Option.map_eq_bind]
    simp only [skipSpace_append hb, skipSpace_cons (c := ',') (by decide)]
    rfl
  · rw [if_neg (by decide)]
    simp only [skipSpace_append hb, skipSpace_cons (c := ']') (by decide)]

theorem items_succ (ih : Reads n) {item : Json} {items : List Json}
    (h : WritesItems (item :: items) t) (ht : t.length + 1 < n + 1) (r : List Char) :
    items? (n + 1) (t ++ ']' :: r) = some (item :: items, r) := by
  cases h with
  | one ha hitem hb =>
    simp only [List.length_append] at ht
    rw [List.append_assoc, List.append_assoc,
      items?_of_item ih ha hitem hb (by omega) (.inr rfl), if_neg (by decide)]
  | cons ha hitem hb hu =>
    simp only [List.length_append, List.length_cons] at ht
    rw [List.append_assoc, List.append_assoc, List.append_assoc, List.cons_append,
      items?_of_item ih ha hitem hb (by omega) (.inl rfl), if_pos rfl,
      ih.items r hu (by omega)]
    rfl

/-- Reading the members of an object goes on behind each member. -/
theorem members?_of_member (ih : Reads n) {m : Option String × Json} (h : WritesMember m t)
    (ht : t.length < n) (hc : c = ',' ∨ c = '\x7d') (r : List Char) :
    members? (n + 1) (t ++ c :: r) =
      if c = ',' then (members? n r).map fun (rest, r) => (m :: rest, r) else some ([m], r) := by
  obtain @⟨key, value, a, k, b, b', t, d, ha, hk, hb, hb', hvalue, hd⟩ := h
  simp only [List.length_append, List.length_cons] at ht
  have hread := ih.value hvalue (by omega)
    (endsNumber_append hd (endsNumber_cons (hc.imp_right .inr) r))
  rw [members?]
  simp only [List.append_assoc, List.cons_append, skipSpace_append ha,
    skipSpace_cons (c := '"') (by decide), string?_of_writesChars hk, Option.bind_eq_bind,
    Option.bind_some, skipSpace_append hb, skipSpace_cons (c := ':') (by decide),
    value?_append hb', hread, skipSpace_append hd]
  rcases hc with rfl | rfl
  · rw [skipSpace_cons (by decide), if_pos rfl, Option.map_eq_bind]
    rfl
  · rw [skipSpace_cons (by decide), if_neg (by decide)]
    rfl

theorem members_succ (ih : Reads n) {m : Option String × Json}
    {members : List (Option String × Json)} (h : WritesMembers (m :: members) t)
    (ht : t.length + 1 < n + 1) (r : List Char) :
    members? (n + 1) (t ++ '\x7d' :: r) = some (m :: members, r) := by
  cases h with
  | one hm => rw [members?_of_member ih hm (by omega) (.inr rfl), if_neg (by decide)]
  | @cons _ next members t u hm hu =>
    simp only [List.length_append, List.length_cons] at ht
    rw [List.append_assoc, List.cons_append, members?_of_member ih hm (by omega) (.inl rfl),
      if_pos rfl, ih.members r hu (by omega)]
    rfl

end Reads

theorem reads (n : Nat) : Reads n := by
  induction n with
  | zero =>
    exact ⟨fun _ h => absurd h (Nat.not_lt_zero _), fun _ _ h => absurd h (Nat.not_lt_zero _),
      fun _ _ h => absurd h (Nat.not_lt_zero _)⟩
  | succ n ih =>
    exact ⟨ih.value_succ, fun r h ht => ih.items_succ h ht r, fun r h ht => ih.members_succ h ht r⟩

/-- **A text is read as the value that it writes.** -/
theorem ofText?_of_writes {j : Json} {text : String} (h : Writes j text.toList) :
    ofText? text = some j := by
  have hread := (reads (text.toList.length + 1)).value h (Nat.lt_succ_self _) (r := [])
    (fun c hc => by cases hc)
  rw [List.append_nil] at hread
  unfold ofText? ofChars?
  simp only [hread]
  rfl

end Json
end ReleaseLint
