/-
# Values are balanced

The reader of JSON and the scan for spans agree on where literals end and which braces
count: a value that is read leaves a scan as it was, outside of literals and with the
same braces open.  So the span of an object that is read ends where the object ends,
whatever text stands around it (`spanAt_of_object`).

`Passes a front b` says it of a stretch of text: a scan enters it in the mode `a` and
leaves it in the mode `b`.

| stretch | modes |
| --- | --- |
| white space, words, numbers, brackets, colons and commas | plain to plain |
| the inside of a string, its escapes among it | quoted to quoted |
| an opening brace, members, and the closing brace | plain to plain |
-/

import ReleaseLint.Json.Reader
import ReleaseLint.Proofs.Json.Candidates
import Mathlib.Data.List.TakeWhile

namespace ReleaseLint
namespace Json

/-- Whether a scan that enters a stretch of text in a mode, with any braces open, leaves it
in a mode and with the same braces open. -/
def Passes (a : Mode) (front : List Char) (b : Mode) : Prop :=
  ∀ d i t, 0 < d → closing d a i (front ++ t) = closing d b (i + front.length) t

/-- Whether a character does not count outside of literals. -/
def IsInert (c : Char) : Prop :=
  c ≠ '"' ∧ c ≠ '\x7b' ∧ c ≠ '\x7d'

instance : DecidablePred IsInert :=
  fun c => inferInstanceAs (Decidable (c ≠ '"' ∧ c ≠ '\x7b' ∧ c ≠ '\x7d'))

namespace Passes

variable {a b e : Mode} {front front' : List Char} {c : Char}

theorem nil (a : Mode) : Passes a [] a :=
  fun _ _ _ _ => rfl

theorem append (h : Passes a front b) (h' : Passes b front' e) : Passes a (front ++ front') e := by
  intro d i t hd
  rw [List.append_assoc, h d i _ hd, h' d _ t hd, List.length_append, Nat.add_assoc]

/-- A stretch behind a character. -/
theorem cons (hc : ∀ d i t, 0 < d → closing d a i (c :: t) = closing d b (i + 1) t)
    (h : Passes b front e) : Passes a (c :: front) e := by
  intro d i t hd
  rw [List.cons_append, hc d i _ hd, h d _ t hd, List.length_cons, Nat.add_assoc i 1,
    Nat.add_comm 1]

theorem cons_inert (hc : IsInert c) (h : Passes .plain front e) : Passes .plain (c :: front) e :=
  h.cons fun _ _ _ _ => closing_other hc.1 hc.2.1 hc.2.2

theorem of_inert (h : ∀ c ∈ front, IsInert c) : Passes .plain front .plain := by
  induction front with
  | nil => exact nil .plain
  | cons c front ih =>
    exact (ih fun c' hc' => h c' (List.mem_cons_of_mem c hc')).cons_inert (h c List.mem_cons_self)

theorem cons_quoted (hc : c ≠ '\\') (hc' : c ≠ '"') (h : Passes .quoted front e) :
    Passes .quoted (c :: front) e := by
  refine h.cons fun _ _ _ _ => ?_
  rw [closing_quoted, Mode.next, if_neg hc, if_neg hc']

theorem cons_escape (h : Passes .quoted front e) : Passes .quoted ('\\' :: c :: front) e := by
  have hc : Passes .escaped (c :: front) e := h.cons fun _ _ _ _ => closing_escaped
  exact hc.cons fun _ _ _ _ => closing_quoted

/-- A string literal, with what follows it. -/
theorem string (h : Passes .quoted front .quoted) (h' : Passes .plain front' e) :
    Passes .plain ('"' :: front ++ '"' :: front') e :=
  (h.cons fun _ _ _ _ => closing_quote).append (h'.cons fun _ _ _ _ => closing_quoted)

/-- A stretch between braces. -/
theorem braces (h : Passes .plain front .plain) :
    Passes .plain ('\x7b' :: front ++ ['\x7d']) .plain := by
  intro d i t hd
  obtain _ | d := d
  · omega
  · rw [List.append_assoc, List.cons_append, closing_open, h (d + 2) (i + 1) _ (by omega),
      List.singleton_append, closing_close_more, List.length_append, List.length_cons,
      List.length_singleton, Nat.add_assoc i 1, Nat.add_comm 1, Nat.add_assoc i]

end Passes

/-! ### What the readers take from a text -/

/-- Whether a text ends with another one, and a scan of the first comes to the second as it
was. -/
def Reaches (s r : List Char) : Prop :=
  ∃ front, s = front ++ r ∧ Passes .plain front .plain

namespace Reaches

variable {s r t : List Char} {c : Char} {p : Char → Bool}

theorem refl (s : List Char) : Reaches s s :=
  ⟨[], rfl, .nil .plain⟩

theorem trans (h : Reaches s r) (h' : Reaches r t) : Reaches s t := by
  obtain ⟨front, rfl, hfront⟩ := h
  obtain ⟨front', rfl, hfront'⟩ := h'
  exact ⟨front ++ front', (List.append_assoc front front' t).symm, hfront.append hfront'⟩

theorem cons (hc : IsInert c) (h : Reaches s r) : Reaches (c :: s) r := by
  obtain ⟨front, rfl, hfront⟩ := h
  exact ⟨c :: front, rfl, hfront.cons_inert hc⟩

theorem of_dropWhile (hp : ∀ c, p c = true → IsInert c) (s : List Char) :
    Reaches s (s.dropWhile p) :=
  ⟨s.takeWhile p, List.takeWhile_append_dropWhile.symm,
    .of_inert fun c hc => hp c (List.mem_takeWhile_imp hc)⟩

end Reaches

variable {s r : List Char}

theorem isInert_of_isSpace {c : Char} (h : isSpace c = true) : IsInert c := by
  refine ⟨?_, ?_, ?_⟩
  all_goals
    rintro rfl
    exact absurd h (by decide)

theorem isInert_of_isDigit {c : Char} (h : c.isDigit = true) : IsInert c := by
  refine ⟨?_, ?_, ?_⟩
  all_goals
    rintro rfl
    exact absurd h (by decide)

theorem reaches_skipSpace (s : List Char) : Reaches s (skipSpace s) :=
  .of_dropWhile (fun _ => isInert_of_isSpace) s

theorem reaches_digits (s : List Char) : Reaches s (s.dropWhile Char.isDigit) :=
  .of_dropWhile (fun _ => isInert_of_isDigit) s

theorem ne_of_hexDigit {c : Char} {n : Nat} (h : hexDigit? c = some n) : c ≠ '\\' ∧ c ≠ '"' := by
  refine ⟨?_, ?_⟩
  all_goals
    rintro rfl
    exact absurd h (by simp [hexDigit?])

/-- The inside of a string reaches up to a quote that a scan takes for its end, too. -/
theorem pieces?_eq (s : List Char) : ∀ ps r, pieces? s = some (ps, r) →
    ∃ front, s = front ++ '"' :: r ∧ Passes .quoted front .quoted := by
  fun_induction pieces? s with
  | case1 =>
    intro ps r h
    cases h
  | case2 r' =>
    intro ps r h
    cases h
    exact ⟨[], rfl, .nil .quoted⟩
  | case3 a b c d r' ih =>
    intro ps r h
    obtain ⟨n, hn, h⟩ := Option.bind_eq_some_iff.1 h
    obtain ⟨⟨rest, r₁⟩, hrest, h⟩ := Option.bind_eq_some_iff.1 h
    cases h
    obtain ⟨front, hfront, hpasses⟩ := ih rest r hrest
    -- none of the four digits is a quote or a backslash
    obtain ⟨na, ha, hn⟩ := Option.bind_eq_some_iff.1 hn
    obtain ⟨nb, hb, hn⟩ := Option.bind_eq_some_iff.1 hn
    obtain ⟨nc, hc, hn⟩ := Option.bind_eq_some_iff.1 hn
    obtain ⟨nd, hd, -⟩ := Option.bind_eq_some_iff.1 hn
    have hdigits : Passes .quoted (a :: b :: c :: d :: front) .quoted :=
      (((hpasses.cons_quoted (ne_of_hexDigit hd).1 (ne_of_hexDigit hd).2).cons_quoted
        (ne_of_hexDigit hc).1 (ne_of_hexDigit hc).2).cons_quoted
        (ne_of_hexDigit hb).1 (ne_of_hexDigit hb).2).cons_quoted
        (ne_of_hexDigit ha).1 (ne_of_hexDigit ha).2
    exact ⟨'\\' :: 'u' :: a :: b :: c :: d :: front, by rw [hfront]; rfl, hdigits.cons_escape⟩
  | case4 e r' _ ih =>
    intro ps r h
    obtain ⟨c, -, h⟩ := Option.bind_eq_some_iff.1 h
    obtain ⟨⟨rest, r₁⟩, hrest, h⟩ := Option.bind_eq_some_iff.1 h
    cases h
    obtain ⟨front, hfront, hpasses⟩ := ih rest r hrest
    exact ⟨'\\' :: e :: front, by rw [hfront]; rfl, hpasses.cons_escape⟩
  | case5 =>
    intro ps r h
    cases h
  | case6 c r' hquote _ _ hc ih =>
    intro ps r h
    obtain ⟨⟨rest, r₁⟩, hrest, h⟩ := Option.bind_eq_some_iff.1 h
    cases h
    obtain ⟨front, hfront, hpasses⟩ := ih rest r hrest
    rw [Bool.or_eq_true, not_or, beq_iff_eq] at hc
    exact ⟨c :: front, by rw [hfront]; rfl, hpasses.cons_quoted hc.2 hquote⟩

/-- A string literal is taken whole. -/
theorem reaches_string? {o : Option String} (h : string? s = some (o, r)) :
    Reaches ('"' :: s) r := by
  obtain ⟨⟨ps, r'⟩, hps, heq⟩ := Option.map_eq_some_iff.1 h
  cases heq
  obtain ⟨front, rfl, hfront⟩ := pieces?_eq s ps r hps
  refine ⟨'"' :: front ++ ['"'], ?_, hfront.string (.nil .plain)⟩
  rw [List.append_assoc]
  rfl

theorem reaches_exponent? {o : Option Int} (h : exponent? s = some (o, r)) : Reaches s r := by
  unfold exponent? at h
  split at h
  · rename_i c s'
    split at h
    · rename_i hc
      have he : IsInert c := by
        refine ⟨?_, ?_, ?_⟩
        all_goals
          rintro rfl
          exact absurd hc (by decide)
      split at h
      rename_i negative s₁ hsign
      have hs₁ : Reaches s' s₁ := by
        split at hsign
        all_goals cases hsign
        · exact (Reaches.refl _).cons (by decide)
        · exact (Reaches.refl _).cons (by decide)
        · exact .refl _
      dsimp only at h
      split at h
      · cases h
      · cases h
        exact (hs₁.trans (reaches_digits s₁)).cons he
    · cases h
      exact .refl _
  · cases h
    exact .refl _

theorem reaches_fraction? {digits : List Char} (h : fraction? s = some (digits, r)) :
    Reaches s r := by
  unfold fraction? at h
  split at h
  · rename_i s'
    dsimp only at h
    split at h
    · cases h
    · cases h
      exact (reaches_digits s').cons (by decide)
  · cases h
    exact .refl _

theorem reaches_number? {x : Number} (h : number? s = some (x, r)) : Reaches s r := by
  unfold number? at h
  split at h
  rename_i negative s₁ hsign
  have hs₁ : Reaches s s₁ := by
    split at hsign
    all_goals cases hsign
    · exact (Reaches.refl _).cons (by decide)
    · exact .refl _
  dsimp only at h
  split at h
  · cases h
  · obtain ⟨⟨fraction, s₂⟩, hs₂, h⟩ := Option.bind_eq_some_iff.1 h
    obtain ⟨⟨e, s₃⟩, hs₃, h⟩ := Option.bind_eq_some_iff.1 h
    cases h
    exact ((hs₁.trans (reaches_digits s₁)).trans (reaches_fraction? hs₂)).trans
      (reaches_exponent? hs₃)

theorem reaches_word? {j : Json} (h : word? s = some (j, r)) : Reaches s r := by
  unfold word? at h
  split at h
  · cases h
    exact ⟨['n', 'u', 'l', 'l'], rfl, .of_inert (by simp [IsInert])⟩
  · cases h
    exact ⟨['t', 'r', 'u', 'e'], rfl, .of_inert (by simp [IsInert])⟩
  · cases h
    exact ⟨['f', 'a', 'l', 's', 'e'], rfl, .of_inert (by simp [IsInert])⟩
  · cases h

/-- A stretch between braces is taken whole. -/
theorem Reaches.braces (h : Reaches s ('\x7d' :: r)) : Reaches ('\x7b' :: s) r := by
  obtain ⟨front, rfl, hfront⟩ := h
  refine ⟨'\x7b' :: front ++ ['\x7d'], ?_, hfront.braces⟩
  rw [List.append_assoc]
  rfl

/-- Whether the readers of `n` levels lead a scan to what follows the piece that they read,
and those of members to the closing brace in front of that. -/
structure Balanced (n : Nat) : Prop where
  value : ∀ {s j r}, value? n s = some (j, r) → Reaches s r
  items : ∀ {s items r}, items? n s = some (items, r) → Reaches s r
  members : ∀ {s members r}, members? n s = some (members, r) → Reaches s ('\x7d' :: r)

namespace Balanced

variable {n : Nat} {s r : List Char}

theorem object_succ (ih : Balanced n) {j : Json} (h : value? (n + 1) ('\x7b' :: s) = some (j, r)) :
    Reaches s ('\x7d' :: r) := by
  have hskip : skipSpace ('\x7b' :: s) = '\x7b' :: s := rfl
  simp only [value?, hskip] at h
  refine (reaches_skipSpace s).trans ?_
  generalize skipSpace s = s₁ at h
  split at h
  · cases h
    exact .refl _
  · obtain ⟨⟨members, r'⟩, hr', heq⟩ := Option.map_eq_some_iff.1 h
    cases heq
    exact ih.members hr'

theorem value_succ (ih : Balanced n) {j : Json} (h : value? (n + 1) s = some (j, r)) :
    Reaches s r := by
  rw [value?] at h
  refine (reaches_skipSpace s).trans ?_
  generalize skipSpace s = s₁ at h
  split at h
  · obtain ⟨⟨t, r'⟩, ht, heq⟩ := Option.map_eq_some_iff.1 h
    cases heq
    exact reaches_string? ht
  · rename_i s₂
    refine ((reaches_skipSpace s₂).cons (c := '[') (by decide)).trans ?_
    generalize skipSpace s₂ = s₃ at h
    split at h
    · cases h
      exact (Reaches.refl r).cons (by decide)
    · obtain ⟨⟨items, r'⟩, hr', heq⟩ := Option.map_eq_some_iff.1 h
      cases heq
      exact ih.items hr'
  · -- white space in front has no part in how an object is read
    exact (ih.object_succ (by rw [value?]; exact h)).braces
  · split at h
    · obtain ⟨⟨x, r'⟩, hx, heq⟩ := Option.map_eq_some_iff.1 h
      cases heq
      exact reaches_number? hx
    · exact reaches_word? h
  · cases h

theorem items_succ (ih : Balanced n) {items : List Json} (h : items? (n + 1) s = some (items, r)) :
    Reaches s r := by
  rw [items?] at h
  obtain ⟨⟨item, s₁⟩, hitem, h⟩ := Option.bind_eq_some_iff.1 h
  refine (ih.value hitem).trans ((reaches_skipSpace s₁).trans ?_)
  dsimp only at h
  generalize skipSpace s₁ = s₂ at h
  split at h
  · obtain ⟨⟨rest, r'⟩, hrest, h⟩ := Option.bind_eq_some_iff.1 h
    cases h
    exact (ih.items hrest).cons (by decide)
  · cases h
    exact (Reaches.refl r).cons (by decide)
  · cases h

theorem members_succ (ih : Balanced n) {members : List (Option String × Json)}
    (h : members? (n + 1) s = some (members, r)) : Reaches s ('\x7d' :: r) := by
  rw [members?] at h
  refine (reaches_skipSpace s).trans ?_
  generalize skipSpace s = s₁ at h
  split at h
  · obtain ⟨⟨key, s₂⟩, hkey, h⟩ := Option.bind_eq_some_iff.1 h
    refine (reaches_string? hkey).trans ((reaches_skipSpace s₂).trans ?_)
    dsimp only at h
    generalize skipSpace s₂ = s₃ at h
    split at h
    · obtain ⟨⟨value, s₄⟩, hvalue, h⟩ := Option.bind_eq_some_iff.1 h
      refine ((ih.value hvalue).cons (c := ':') (by decide)).trans
        ((reaches_skipSpace s₄).trans ?_)
      dsimp only at h
      generalize skipSpace s₄ = s₅ at h
      split at h
      · obtain ⟨⟨rest, r'⟩, hrest, h⟩ := Option.bind_eq_some_iff.1 h
        cases h
        exact (ih.members hrest).cons (by decide)
      · cases h
        exact .refl _
      · cases h
    · cases h
  · cases h

end Balanced

/-- **A value that is read leaves a scan as it was,** however deep it is. -/
theorem balanced (n : Nat) : Balanced n := by
  induction n with
  | zero =>
    refine ⟨fun h => ?_, fun h => ?_, fun h => ?_⟩
    · rw [value?] at h
      cases h
    · rw [items?] at h
      cases h
    · rw [members?] at h
      cases h
  | succ n ih => exact ⟨ih.value_succ, ih.items_succ, ih.members_succ⟩

/-! ### Objects in a text -/

/-- The text of an object is what stands between its braces, and those. -/
theorem object_eq {o : List Char} {j : Json} (hfirst : o.head? = some '\x7b')
    (hlast : o.getLast? = some '\x7d') (h : ofChars? o = some j) :
    ∃ front, o = '\x7b' :: front ++ ['\x7d'] ∧ Passes .plain front .plain := by
  obtain _ | ⟨c, s⟩ := o
  · cases hfirst
  · obtain rfl : c = '\x7b' := Option.some.inj hfirst
    unfold ofChars? at h
    split at h
    · rename_i j' r hread
      obtain ⟨front, rfl, hfront⟩ := (balanced _).object_succ hread
      have hr : r = [] := by
        split at h
        · rename_i hspace
          have hall := List.dropWhile_eq_nil_iff.1 (List.isEmpty_iff.1 hspace)
          rcases List.eq_nil_or_concat r with hnil | ⟨r', c, rfl⟩
          · exact hnil
          · -- the last brace would be white space
            have hc : c = '\x7d' := by
              have hsplit : '\x7b' :: (front ++ '\x7d' :: r'.concat c) =
                  ('\x7b' :: front ++ '\x7d' :: r') ++ [c] := by
                rw [List.append_assoc, List.concat_eq_append]
                rfl
              rw [hsplit, List.getLast?_concat] at hlast
              exact Option.some.inj hlast
            have hspace := hall c (by simp)
            rw [hc] at hspace
            exact absurd hspace (by decide)
        · cases h
      exact ⟨front, by rw [hr]; rfl, hfront⟩
    · cases h

/-- **The span of an object is the object,** whatever stands in front of it and behind it. -/
theorem spanAt_of_object {o : List Char} {j : Json} (hfirst : o.head? = some '\x7b')
    (hlast : o.getLast? = some '\x7d') (h : ofChars? o = some j) (before after : List Char) :
    spanAt (before ++ o ++ after) before.length = some o := by
  obtain ⟨front, rfl, hfront⟩ := object_eq hfirst hlast h
  have hdrop : (before ++ ('\x7b' :: front ++ ['\x7d']) ++ after).drop before.length =
      '\x7b' :: (front ++ '\x7d' :: after) := by
    rw [List.append_assoc, List.drop_left, List.append_assoc]
    rfl
  have hclosing : closingOf (before ++ ('\x7b' :: front ++ ['\x7d']) ++ after) before.length =
      some (before.length + 1 + front.length) := by
    unfold closingOf
    rw [hdrop, closing_open, hfront 1 _ _ Nat.one_pos, closing_close_one]
  have hbrace : (before ++ ('\x7b' :: front ++ ['\x7d']) ++ after)[before.length]? = some '\x7b' := by
    rw [← List.head?_drop, hdrop]
    rfl
  have htake : (before ++ ('\x7b' :: front ++ ['\x7d']) ++ after).take
      (before.length + 1 + front.length + 1) = before ++ ('\x7b' :: front ++ ['\x7d']) :=
    List.take_left' (by simp only [List.length_append, List.length_cons, List.length_nil]; omega)
  unfold spanAt
  rw [if_pos hbrace, hclosing, Option.map_some, htake, List.drop_left]

end Json
end ReleaseLint
