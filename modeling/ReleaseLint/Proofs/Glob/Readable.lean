/-
# Which texts are patterns

A search pattern can be read if its brackets are closed, its braces are balanced and no
backslash stands at its end.  `IsReadable n` says so of a text behind `n` open braces, without
the pieces that are read.

| text | can be read behind `n` open braces if |
| --- | --- |
| a class and a rest | the rest can |
| `{` and a rest | the rest can behind one more |
| `}` and a rest | `n` is not 0, and the rest can behind one less |
| a backslash, a character and a rest | the rest can |
| any other character and a rest | the rest can |
| nothing | `n` is 0 |

`exists_parse_iff_isReadable` says that these are the patterns that are read.  So readable texts can be put
one behind the other (`IsReadable.append`), what follows a slash behind a front without wildcards
is readable (`IsReadable.of_front`), and a text without wildcards is read unless a brace or a
backslash in it is a fault (`parse_eq_error_iff`).

An absolute pattern that is read can be looked for in any tree (`expand_eq_error_iff`), since the
tail behind its base is readable, too.
-/

import ReleaseLint.Proofs.Glob.Expansion

namespace ReleaseLint
namespace Glob

open Path (ofNames slashed)

/-- Whether a text can be read to its end behind `n` open braces. -/
inductive IsReadable : (n : Nat) → List Char → Prop
  | nil : IsReadable 0 []
  | plain {n c r} (hc : c ∉ ['[', '\x7b', '\x7d', '\\']) (h : IsReadable n r) : IsReadable n (c :: r)
  | oneOf {n p r r'} (hclass : readClass r = .ok (some (p, r'))) (h : IsReadable n r') :
    IsReadable n ('[' :: r)
  | opened {n r} (h : IsReadable (n + 1) r) : IsReadable n ('\x7b' :: r)
  | closed {n r} (h : IsReadable n r) : IsReadable (n + 1) ('\x7d' :: r)
  | escaped {n c r} (h : IsReadable n r) : IsReadable n ('\\' :: c :: r)

variable {n m : Nat} {c : Char} {r r' s t : List Char} {fault : Fault}

namespace IsReadable

@[simp]
theorem nil_iff : IsReadable n [] ↔ n = 0 := by
  constructor
  · intro h
    cases h
    rfl
  · rintro rfl
    exact .nil

theorem plain_iff (hc : c ∉ ['[', '\x7b', '\x7d', '\\']) :
    IsReadable n (c :: r) ↔ IsReadable n r := by
  refine ⟨fun h => ?_, .plain hc⟩
  cases h with
  | plain _ h => exact h
  | oneOf => exact absurd (by decide) hc
  | opened => exact absurd (by decide) hc
  | closed => exact absurd (by decide) hc
  | escaped => exact absurd (by decide) hc

theorem oneOf_iff :
    IsReadable n ('[' :: r) ↔ ∃ p r', readClass r = .ok (some (p, r')) ∧ IsReadable n r' := by
  constructor
  · intro h
    cases h with
    | plain hc => exact absurd (by decide) hc
    | oneOf hclass h => exact ⟨_, _, hclass, h⟩
  · rintro ⟨p, r', hclass, h⟩
    exact .oneOf hclass h

theorem opened_iff : IsReadable n ('\x7b' :: r) ↔ IsReadable (n + 1) r := by
  refine ⟨fun h => ?_, .opened⟩
  cases h with
  | plain hc => exact absurd (by decide) hc
  | opened h => exact h

theorem closed_iff : IsReadable n ('\x7d' :: r) ↔ ∃ m, n = m + 1 ∧ IsReadable m r := by
  constructor
  · intro h
    cases h with
    | plain hc => exact absurd (by decide) hc
    | closed h => exact ⟨_, rfl, h⟩
  · rintro ⟨m, rfl, h⟩
    exact .closed h

theorem escaped_iff : IsReadable n ('\\' :: r) ↔ ∃ c s, r = c :: s ∧ IsReadable n s := by
  constructor
  · intro h
    cases h with
    | plain hc => exact absurd (by decide) hc
    | escaped h => exact ⟨_, _, rfl, h⟩
  · rintro ⟨c, s, rfl, h⟩
    exact .escaped h

/-- **Readable texts can be put one behind the other.** -/
theorem append (h : IsReadable n s) (h' : IsReadable m t) : IsReadable (n + m) (s ++ t) := by
  induction h with
  | nil => rwa [Nat.zero_add]
  | plain hc _ ih => exact .plain hc ih
  | @oneOf n p r r' hclass _ ih =>
    obtain ⟨r'', -, hr'', hall⟩ := readClass_append (u := r) (y := []) List.not_mem_nil
      (by rwa [List.append_nil])
    rw [List.append_nil] at hr''
    exact .oneOf (hall t) (hr'' ▸ ih)
  | opened _ ih => exact .opened (by rwa [Nat.add_right_comm] at ih)
  | closed _ ih => rw [Nat.add_right_comm]; exact .closed ih
  | escaped _ ih => exact .escaped ih

theorem of_plain (h : ∀ c ∈ s, c ∉ ['[', '\x7b', '\x7d', '\\']) : IsReadable 0 s := by
  induction s with
  | nil => exact .nil
  | cons c r ih =>
    rw [List.forall_mem_cons] at h
    exact .plain h.1 (ih h.2)

/-- What follows a slash behind a front that opens nothing is readable. -/
theorem of_front : ∀ {s : List Char}, '[' ∉ s → '\x7b' ∉ s → IsReadable 0 (s ++ '/' :: t) →
    IsReadable 0 t
  | [], _, _, h => (plain_iff (by decide)).1 h
  | c :: s, hclass, hbrace, h => by
    rw [List.cons_append] at h
    rw [List.mem_cons, not_or] at hclass hbrace
    by_cases h1 : c = '\\'
    · subst h1
      cases s with
      | nil =>
        -- the backslash takes the slash
        obtain ⟨_, _, he, hr⟩ := escaped_iff.1 h
        cases he
        exact hr
      | cons d s =>
        obtain ⟨_, _, he, hr⟩ := escaped_iff.1 h
        cases he
        rw [List.mem_cons, not_or] at hclass hbrace
        exact of_front hclass.2.2 hbrace.2.2 hr
    by_cases h2 : c = '\x7d'
    · subst h2
      obtain ⟨m, hm, -⟩ := closed_iff.1 h
      cases hm
    · refine of_front hclass.2 hbrace.2 ((plain_iff ?_).1 h)
      simp [h1, h2, Ne.symm hclass.1, Ne.symm hbrace.1]

/-- A front that opens and escapes nothing closes nothing. -/
theorem not_mem_of_front (hs : ∀ c ∈ s, c ∉ ['[', '\x7b', '\\']) (h : IsReadable 0 (s ++ t)) :
    '\x7d' ∉ s := by
  induction s with
  | nil => exact List.not_mem_nil
  | cons c s ih =>
    rw [List.forall_mem_cons] at hs
    have hc : c ≠ '\x7d' := by
      rintro rfl
      obtain ⟨m, hm, -⟩ := closed_iff.1 h
      cases hm
    have hplain : c ∉ ['[', '\x7b', '\x7d', '\\'] := by
      have := hs.1
      simp only [List.mem_cons, List.not_mem_nil, or_false, not_or] at this ⊢
      exact ⟨this.1, this.2.1, hc, this.2.2⟩
    exact List.not_mem_cons_of_ne_of_not_mem hc.symm (ih hs.2 ((plain_iff hplain).1 h))

end IsReadable

/-! ### What is read -/

namespace Reading

variable {x x' : Reading}

/-- The number of open braces. -/
def depth (x : Reading) : Nat :=
  x.draft.outer.length

theorem depth_behind_push (x : Reading) (c : Char) (p : Piece) :
    (x.behind c (x.draft.push p)).depth = x.depth :=
  rfl

theorem depth_behind_comma (x : Reading) (c : Char) :
    (x.behind c x.draft.comma).depth = x.depth := by
  unfold depth behind Draft.comma
  split <;> rfl

theorem depth_behind_stars (x : Reading) (c : Char) (r : List Char) :
    (x.behind c (x.draft.stars x.last r).1).depth = x.depth :=
  congrArg List.length (x.draft.outer_stars x.last r)

/-- What two stars leave of a text is readable if the text is. -/
theorem isReadable_stars (d : Draft) (before : Option Char) (r : List Char) :
    IsReadable n (d.stars before r).2 ↔ IsReadable n r := by
  rcases d.stars_cases before r with h | ⟨-, ⟨rfl, h⟩ | ⟨r', rfl, h⟩⟩ | ⟨-, -, h | ⟨r', rfl, h⟩⟩
  · rw [h]
  · rw [h]
  · rw [h, IsReadable.plain_iff (by decide)]
  · rw [h]
  · rw [h, IsReadable.plain_iff (by decide)]

theorem next_closed (x : Reading) (r : List Char) :
    x.next .search '\x7d' r = x.draft.closeChoice.map fun d => (x.behind '\x7d' d, r) := by
  unfold next
  rw [if_neg (by decide), if_neg (by decide), if_neg (by simp), if_neg (by decide), if_pos rfl]
  cases x.draft.closeChoice with
  | error e => rfl
  | ok d => rfl

/-- In a search pattern a bracket always opens a class. -/
theorem classes_of_next (hclasses : x.classes = true)
    (h : x.next .search c r = .ok (x', r')) : x'.classes = true := by
  by_cases h1 : c = '*'
  · subst h1
    by_cases hstar : r.head? = some '*'
    · obtain ⟨r, rfl⟩ := List.head?_eq_some_iff.1 hstar
      rw [next_stars] at h
      cases h
      exact hclasses
    · rw [x.next_star hstar] at h
      cases h
      exact hclasses
  by_cases h2 : c = '\\'
  · subst h2
    cases r with
    | nil => cases h
    | cons e r =>
      cases h
      exact hclasses
  by_cases h3 : c = '['
  · subst h3
    obtain ⟨p, -, rfl⟩ := (next_class_eq_ok hclasses).1 h
    exact hclasses
  · obtain ⟨out, hout, hnext⟩ := x.next_of_ne .search h1 h2 fun h => h3 h.1
    rw [hnext] at h
    cases hx : out with
    | error e =>
      rw [hx] at h
      cases h
    | ok x₁ =>
      rw [hx] at h
      cases h
      exact (hout x' hx).trans hclasses

/-- **A text is readable** if its first step is no fault and what that leaves is readable. -/
theorem isReadable_cons_iff (hclasses : x.classes = true) : IsReadable x.depth (c :: r) ↔
    ∃ x' r', x.next .search c r = .ok (x', r') ∧ IsReadable x'.depth r' := by
  have hstep {x' : Reading} {r' : List Char} (hnext : x.next .search c r = .ok (x', r'))
      (h : IsReadable x.depth (c :: r) ↔ IsReadable x'.depth r') : IsReadable x.depth (c :: r) ↔
        ∃ x' r', x.next .search c r = .ok (x', r') ∧ IsReadable x'.depth r' := by
    rw [h, hnext]
    constructor
    · exact fun h => ⟨x', r', rfl, h⟩
    · rintro ⟨_, _, he, h⟩
      cases he
      exact h
  by_cases h1 : c = '*'
  · subst h1
    by_cases hstar : r.head? = some '*'
    · obtain ⟨r, rfl⟩ := List.head?_eq_some_iff.1 hstar
      refine hstep (x.next_stars r) ?_
      rw [depth_behind_stars, isReadable_stars, IsReadable.plain_iff (by decide),
        IsReadable.plain_iff (by decide)]
    · exact hstep (x.next_star hstar) (IsReadable.plain_iff (by decide))
  by_cases h2 : c = '['
  · subst h2
    simp only [IsReadable.oneOf_iff, next_class_eq_ok hclasses]
    constructor
    · rintro ⟨p, r', hclass, h⟩
      exact ⟨_, r', ⟨p, hclass, rfl⟩, h⟩
    · rintro ⟨_, r', ⟨p, hclass, rfl⟩, h⟩
      exact ⟨p, r', hclass, h⟩
  by_cases h3 : c = '\x7b'
  · subst h3
    exact hstep rfl IsReadable.opened_iff
  by_cases h4 : c = '\x7d'
  · subst h4
    rw [IsReadable.closed_iff, next_closed]
    unfold depth Draft.closeChoice
    cases houter : x.draft.outer with
    | nil =>
      constructor
      · rintro ⟨m, hm, -⟩
        cases hm
      · rintro ⟨x', r', he, -⟩
        cases he
    | cons level outer =>
      constructor
      · rintro ⟨m, hm, h⟩
        rw [← Nat.succ.inj hm] at h
        exact ⟨_, r, rfl, h⟩
      · rintro ⟨x', r', he, h⟩
        cases he
        exact ⟨_, rfl, h⟩
  by_cases h5 : c = '\\'
  · subst h5
    rw [IsReadable.escaped_iff]
    cases r with
    | nil =>
      constructor
      · rintro ⟨_, _, he, -⟩
        cases he
      · rintro ⟨_, _, he, -⟩
        cases he
    | cons e r =>
      constructor
      · rintro ⟨_, _, he, h⟩
        cases he
        exact ⟨_, r, rfl, h⟩
      · rintro ⟨_, _, he, h⟩
        cases he
        exact ⟨e, r, rfl, h⟩
  have hplain : c ∉ ['[', '\x7b', '\x7d', '\\'] := by simp [h2, h3, h4, h5]
  by_cases h6 : c = '?'
  · subst h6
    exact hstep rfl (IsReadable.plain_iff hplain)
  by_cases h7 : c = ','
  · subst h7
    refine hstep rfl ?_
    rw [depth_behind_comma, IsReadable.plain_iff hplain]
  · exact hstep (x.next_literal (by simp [h1, h2, h3, h4, h5, h6, h7])) (IsReadable.plain_iff hplain)

/-- A text is read to its end, without open braces there, if it is readable. -/
theorem exists_finish_iff (hclasses : x.classes = true) :
    (∃ d, x.finish .search s = .ok d ∧ d.outer = []) ↔ IsReadable x.depth s := by
  induction hn : s.length using Nat.strongRecOn generalizing s x with
  | ind n ih =>
    cases s with
    | nil =>
      rw [IsReadable.nil_iff, depth, List.length_eq_zero_iff, finish_nil]
      simp
    | cons c r =>
      rw [List.length_cons] at hn
      have hshort {x' : Reading} {r' : List Char} (hnext : x.next .search c r = .ok (x', r')) :
          r'.length < n := by
        have := length_le_of_next hnext
        omega
      rw [isReadable_cons_iff hclasses]
      constructor
      · rintro ⟨d, hd, houter⟩
        obtain ⟨x', r', hnext, hfinish⟩ := exists_next hd
        have hrest := ih r'.length (hshort hnext) (classes_of_next hclasses hnext) rfl
        exact ⟨x', r', hnext, hrest.1 ⟨d, hfinish, houter⟩⟩
      · rintro ⟨x', r', hnext, h⟩
        have hrest := ih r'.length (hshort hnext) (classes_of_next hclasses hnext) rfl
        rw [finish_cons hnext]
        exact hrest.2 h

end Reading

/-- **The patterns that are read.** -/
theorem exists_parse_iff_isReadable {pattern : String} :
    (∃ ps, parse .search pattern = .ok ps) ↔ IsReadable 0 pattern.toList :=
  exists_parse_search.trans (Reading.exists_finish_iff rfl)

/-! ### Texts without wildcards -/

/-- What keeps a text without wildcards from being a pattern: a closing brace, or a backslash at
its end. -/
def literalFault? : List Char → Option Fault
  | [] => none
  | ['\\'] => some .danglingEscape
  | '\\' :: _ :: r => literalFault? r
  | c :: r => if c = '\x7d' then some .unopenedAlternates else literalFault? r

theorem isPattern_eq_false_iff {pattern : String} : isPattern pattern = false ↔
    ∀ c ∈ pattern.toList, c ∉ ['*', '?', '[', '\x7b'] := by
  unfold isPattern
  rw [List.any_eq_false]
  simp [and_assoc]

/-- A text without wildcards is read, or has a fault. -/
theorem Reading.finish_plain {x : Reading} (hs : ∀ c ∈ s, c ∉ ['*', '?', '[', '\x7b'])
    (houter : x.draft.outer = []) :
    (literalFault? s = none ∧ ∃ d, x.finish .search s = .ok d ∧ d.outer = []) ∨
      ∃ fault, literalFault? s = some fault ∧ x.finish .search s = .error fault := by
  fun_induction literalFault? s generalizing x with
  | case1 => exact .inl ⟨rfl, _, rfl, houter⟩
  | case2 => exact .inr ⟨_, rfl, rfl⟩
  | case3 c r ih =>
    have hnext : x.next .search '\\' (c :: r) = .ok (x.behind c (x.draft.push (.literal c)), r) := rfl
    rw [finish_cons hnext]
    exact ih (fun d hd => hs d (List.mem_cons_of_mem _ (List.mem_cons_of_mem _ hd))) houter
  | case4 r =>
    refine .inr ⟨_, rfl, ?_⟩
    unfold finish
    rw [List.length_cons, readPieces, next_closed, Draft.closeChoice, houter]
    rfl
  | case5 c r h1 h2 h3 ih =>
    have hescape : c ≠ '\\' := by
      rintro rfl
      cases r with
      | nil => exact h1 rfl rfl
      | cons e r => exact h2 e r rfl rfl
    have hc := hs c List.mem_cons_self
    simp only [List.mem_cons, not_or, List.not_mem_nil, not_false_eq_true, and_true] at hc
    have hnext : x.next .search c r = .ok (x.behind c (x.draft.push (.literal c)), r) := by
      by_cases hcomma : c = ','
      · subst hcomma
        have hpush : x.draft.comma = x.draft.push (.literal ',') := by
          unfold Draft.comma
          rw [houter, List.isEmpty_nil, if_pos rfl]
        rw [← hpush]
        rfl
      · exact x.next_literal (by simp [hc, h3, hescape, hcomma])
    rw [finish_cons hnext]
    exact ih (fun d hd => hs d (List.mem_cons_of_mem c hd)) houter

/-- **The fault of a text without wildcards.** -/
theorem parse_eq_error_iff {pattern : String} (h : isPattern pattern = false) :
    parse .search pattern = .error fault ↔ literalFault? pattern.toList = some fault := by
  unfold parse
  rcases Reading.finish_plain (isPattern_eq_false_iff.1 h) (x := .start) rfl with
    ⟨hnone, d, hd, houter⟩ | ⟨fault', hsome, herror⟩
  · rw [hnone, hd]
    dsimp only
    rw [houter, List.isEmpty_nil, if_pos rfl]
    exact iff_of_false (fun he => by cases he) (fun he => by cases he)
  · rw [hsome, herror]
    simp

/-! ### What can be looked for -/

variable {w : Workspace} {f : Filter} {names : Names} {e : Error}

theorem isPattern_of_mem_leadOf {a : String} (hs : a ∈ leadOf names) : isPattern a = false := by
  simpa using List.mem_takeWhile_imp hs

/-- No wildcard stands in the base. -/
theorem not_mem_slashed_leadOf : ∀ c ∈ slashed (leadOf names), c ∉ ['*', '?', '[', '\x7b'] := by
  intro c hc
  obtain ⟨s, hs, hc⟩ := List.mem_flatMap.1 hc
  rcases List.mem_cons.1 hc with rfl | hc
  · decide
  · exact isPattern_eq_false_iff.1 (isPattern_of_mem_leadOf hs) c hc

/-- A pattern is its base, a slash and its tail. -/
theorem text_eq_lead_tail (h : AreNames names) (htail : tailOf names ≠ []) :
    (ofNames names).text.toList =
      slashed (leadOf names) ++ '/' :: ("/".intercalate (tailOf names)).toList := by
  have hsplit := leadOf_append_tailOf names
  rw [← Path.text_ofNames_append (hsplit.symm ▸ h) htail, hsplit]

/-- The tail of a pattern is read if the pattern is. -/
theorem exists_parse_tail (h : AreNames names) (htail : tailOf names ≠ [])
    (hread : ∃ ps, parse .search (ofNames names).text = .ok ps) :
    ∃ ps, parse .search ("/".intercalate (tailOf names)) = .ok ps := by
  rw [exists_parse_iff_isReadable, text_eq_lead_tail h htail] at hread
  rw [exists_parse_iff_isReadable]
  exact hread.of_front (fun hm => not_mem_slashed_leadOf _ hm (by decide))
    fun hm => not_mem_slashed_leadOf _ hm (by decide)

/-- An absolute pattern that is read can be looked for. -/
theorem exists_expand (h : AreNames names) (hread : ∃ ps, parse .search (ofNames names).text = .ok ps) :
    ∃ found, expand w f (ofNames names).text = .ok found := by
  by_cases htail : tailOf names = []
  · exact ⟨_, (expand_explicit h htail).2 ⟨hread, rfl⟩⟩
  cases hdirectory : w.hasDirectory (ofNames (leadOf names)) with
  | false => exact ⟨[], (expand_pattern h htail).2 ⟨hread, .inl ⟨hdirectory, rfl⟩⟩⟩
  | true =>
    obtain ⟨ps, hps⟩ := exists_parse_tail h htail hread
    exact ⟨_, (expand_pattern h htail).2 ⟨hread, .inr ⟨hdirectory, ps, hps, rfl⟩⟩⟩

/-- **An absolute pattern can be looked for unless it cannot be read.** -/
theorem expand_eq_error_iff (h : AreNames names) : expand w f (ofNames names).text = .error e ↔
    ∃ fault, parse .search (ofNames names).text = .error fault ∧
      e = .glob (ofNames names).text fault := by
  cases hparse : parse .search (ofNames names).text with
  | error fault =>
    have hcheck : check (ofNames names).text = .error (.glob (ofNames names).text fault) := by
      unfold check compile
      rw [hparse]
      rfl
    rw [expand_ofNames h, hcheck]
    constructor
    · intro he
      exact ⟨fault, rfl, (Except.error.inj he).symm⟩
    · rintro ⟨_, he, rfl⟩
      rw [Except.error.inj he]
      rfl
  | ok ps =>
    obtain ⟨found, hfound⟩ := exists_expand (w := w) (f := f) h ⟨ps, hparse⟩
    rw [hfound]
    refine iff_of_false (fun he => by cases he) ?_
    rintro ⟨_, he, -⟩
    cases he

/-- A pattern stays readable with a name behind it that opens and closes nothing. -/
theorem isReadable_concat {s : String} (h : AreNames (names ++ [s])) (hne : names ≠ [])
    (hread : IsReadable 0 (ofNames names).text.toList)
    (hs : ∀ c ∈ s.toList, c ∉ ['[', '\x7b', '\x7d', '\\']) :
    IsReadable 0 (ofNames (names ++ [s])).text.toList := by
  rw [Path.text_ofNames h.left, if_neg hne] at hread
  rw [Path.text_ofNames_concat h]
  exact hread.append (.plain (by decide) (.of_plain hs))

end Glob
end ReleaseLint
