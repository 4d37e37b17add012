/-
# Reading patterns piece by piece

The reading of a search pattern does not look far ahead: what stands in front of a slash
or of a letter is read alike whatever follows it, as long as no class is left open there
(`exists_reading`).  So two patterns with the same beginning have the same first pieces.

| behind a slash | |
| --- | --- |
| the last piece | a slash, or `**` that took the slash |
| a leading `**` | is the only piece |

`IsSound` is the invariant behind the table: `**` leads only where nothing is read before,
and where it trails, a star is the character before.

Two readings of one text are compared step by step: a relation between their drafts that no step
breaks is kept to the end (`alike_next`, `finish_cons_eq_bind`).
-/

import ReleaseLint.Glob.Pattern
import ReleaseLint.Proofs.Except
import Mathlib.Data.List.Basic
import Mathlib.Tactic.SplitIfs

namespace ReleaseLint
namespace Glob

variable {r r' u y z : List Char} {c t : Char}

/-! ### Classes -/

namespace ClassBody

variable {b : ClassBody} {ranges : List (Char × Char)}

theorem suffix_of_read (h : read b u = .ok (some (ranges, r))) : r <:+ u := by
  induction u generalizing b with
  | nil =>
    rw [read] at h
    cases h
  | cons c u ih =>
    rw [read] at h
    split_ifs at h with hclose
    · cases h
      exact List.suffix_cons c r
    · split at h
      · cases h
      · exact (ih h).trans (List.suffix_cons c u)

/-- Without a closing bracket no class is closed. -/
theorem read_ne_some (hy : ']' ∉ y) : read b y ≠ .ok (some (ranges, r)) := by
  induction y generalizing b with
  | nil =>
    intro h
    rw [read] at h
    cases h
  | cons c y ih =>
    intro h
    have hopen : ¬(c = ']' ∧ ¬b.first = true) := fun hc => hy (hc.1 ▸ List.mem_cons_self)
    rw [read, if_neg hopen] at h
    split at h
    · cases h
    · exact ih (fun hm => hy (List.mem_cons_of_mem c hm)) h

theorem read_append (hy : ']' ∉ y) (h : read b (u ++ y) = .ok (some (ranges, r))) :
    ∃ r', r'.length < u.length ∧ r = r' ++ y ∧
      ∀ z, read b (u ++ z) = .ok (some (ranges, r' ++ z)) := by
  induction u generalizing b with
  | nil => exact absurd h (read_ne_some hy)
  | cons c u ih =>
    rw [List.cons_append, read] at h
    split_ifs at h with hclose
    · cases h
      refine ⟨u, Nat.lt_succ_self _, rfl, fun z => ?_⟩
      rw [List.cons_append, read, if_pos hclose]
    · split at h
      · cases h
      · rename_i b' hb'
        obtain ⟨r', hlen, hr', hall⟩ := ih h
        refine ⟨r', Nat.lt_succ_of_lt hlen, hr', fun z => ?_⟩
        rw [List.cons_append, read, if_neg hclose, hb']
        exact hall z

end ClassBody

theorem suffix_negation (u : List Char) : (negation u).2 <:+ u := by
  unfold negation
  split
  · exact List.suffix_cons _ _
  · exact List.suffix_cons _ _
  · exact List.suffix_refl _

/-- The sign of negation stands in the first character. -/
theorem negation_append (hu : u ≠ []) (z : List Char) :
    negation (u ++ z) = ((negation u).1, (negation u).2 ++ z) := by
  obtain ⟨c, u, rfl⟩ := List.exists_cons_of_ne_nil hu
  by_cases h1 : c = '!'
  · subst h1
    rfl
  · by_cases h2 : c = '^'
    · subst h2
      rfl
    · have hplain : ∀ r, negation (c :: r) = (false, c :: r) := by
        intro r
        unfold negation
        split
        · rename_i heq
          exact absurd (List.cons.inj heq).1 h1
        · rename_i heq
          exact absurd (List.cons.inj heq).1 h2
        · rfl
      rw [List.cons_append, hplain, hplain]
      rfl

theorem readClass_eq_some {p : Piece} : readClass u = .ok (some (p, r)) ↔
    ∃ ranges, ClassBody.read ⟨[], true, false⟩ (negation u).2 = .ok (some (ranges, r)) ∧
      p = .oneOf (negation u).1 ranges := by
  unfold readClass
  constructor
  · intro h
    dsimp only at h
    split at h
    · cases h
    · cases h
    · rename_i ranges r' hread
      cases h
      exact ⟨ranges, hread, rfl⟩
  · rintro ⟨ranges, hread, rfl⟩
    simp only [hread]

theorem suffix_of_readClass {p : Piece} (h : readClass u = .ok (some (p, r))) : r <:+ u := by
  obtain ⟨ranges, hread, -⟩ := readClass_eq_some.1 h
  exact (ClassBody.suffix_of_read hread).trans (suffix_negation u)

/-- A class that is closed although no bracket closes it later is closed in front. -/
theorem readClass_append {p : Piece} (hy : ']' ∉ y) (h : readClass (u ++ y) = .ok (some (p, r))) :
    ∃ r', r'.length < u.length ∧ r = r' ++ y ∧
      ∀ z, readClass (u ++ z) = .ok (some (p, r' ++ z)) := by
  obtain ⟨ranges, hread, rfl⟩ := readClass_eq_some.1 h
  by_cases hu : u = []
  · rw [hu] at hread
    exact absurd hread (ClassBody.read_ne_some fun hm => hy ((suffix_negation y).subset hm))
  · rw [negation_append hu] at hread ⊢
    obtain ⟨r', hlen, rfl, hall⟩ := ClassBody.read_append hy hread
    refine ⟨r', Nat.lt_of_lt_of_le hlen (suffix_negation u).length_le, rfl, fun z => ?_⟩
    refine readClass_eq_some.2 ⟨ranges, ?_, ?_⟩
    · rw [negation_append hu]
      exact hall z
    · rw [negation_append hu]

/-! ### Stars -/

namespace Draft

variable {d : Draft} {before : Option Char}

/-- What two stars become: two runs, a leading `**`, or one that takes the place of the slash
in front of it. -/
theorem stars_cases (d : Draft) (before : Option Char) (r : List Char) :
    d.stars before r = ((d.push .run).push .run, r) ∨
    (d.level.current = [] ∧ (r = [] ∧ d.stars before r = (d.push .leading, []) ∨
      ∃ r', r = '/' :: r' ∧ d.stars before r = (d.push .leading, r'))) ∨
    (d.level.current ≠ [] ∧ before ≠ some '*' ∧
      (d.stars before r = (d.spanLast .trailing, r) ∨
        ∃ r', r = '/' :: r' ∧ d.stars before r = (d.spanLast .between, r'))) := by
  unfold stars
  dsimp only
  split_ifs with hempty hbefore
  · have hempty' := List.isEmpty_iff.1 hempty
    split
    · exact .inr (.inl ⟨hempty', .inl ⟨rfl, rfl⟩⟩)
    · exact .inr (.inl ⟨hempty', .inr ⟨_, rfl, rfl⟩⟩)
    · exact .inl rfl
  · exact .inl rfl
  · have hcurrent : d.level.current ≠ [] := fun h => hempty (List.isEmpty_iff.2 h)
    have hstar : before ≠ some '*' := by
      rintro rfl
      exact hbefore (by simp)
    split
    · exact .inr (.inr ⟨hcurrent, hstar, .inl rfl⟩)
    · exact .inr (.inr ⟨hcurrent, hstar, .inr ⟨_, rfl, rfl⟩⟩)
    · split_ifs
      · exact .inr (.inr ⟨hcurrent, hstar, .inl rfl⟩)
      · exact .inl rfl

theorem spanLast_cases (d : Draft) (p : Piece) :
    (d.spanLast p = d ∧ (d.level.current.head? = some .leading ∨
      d.level.current.head? = some .trailing)) ∨
    (d.spanLast p = ⟨⟨d.level.done, p :: d.level.current.tail⟩, d.outer⟩ ∧
      d.level.current.head? ≠ some .leading ∧ d.level.current.head? ≠ some .trailing) := by
  unfold spanLast
  split
  · rename_i h
    exact .inl ⟨rfl, .inl (by rw [h]; rfl)⟩
  · rename_i h
    exact .inl ⟨rfl, .inr (by rw [h]; rfl)⟩
  · rename_i h1 h2
    refine .inr ⟨rfl, fun h => ?_, fun h => ?_⟩
    · obtain ⟨r, hr⟩ := List.head?_eq_some_iff.1 h
      exact h1 r hr
    · obtain ⟨r, hr⟩ := List.head?_eq_some_iff.1 h
      exact h2 r hr

theorem outer_spanLast (d : Draft) (p : Piece) : (d.spanLast p).outer = d.outer := by
  rcases d.spanLast_cases p with ⟨h, -⟩ | ⟨h, -⟩
  · rw [h]
  · rw [h]

theorem outer_stars (d : Draft) (before : Option Char) (r : List Char) :
    (d.stars before r).1.outer = d.outer := by
  rcases d.stars_cases before r with h | ⟨-, ⟨-, h⟩ | ⟨r', -, h⟩⟩ | ⟨-, -, h | ⟨r', -, h⟩⟩
  · rw [h]
    rfl
  · rw [h]
    rfl
  · rw [h]
    rfl
  · rw [h, outer_spanLast]
  · rw [h, outer_spanLast]

/-- Two stars read no further than the next character, and of that they take a slash. -/
theorem stars_cons (d : Draft) (before : Option Char) (e : Char) :
    (∃ d', ∀ z, d.stars before (e :: z) = (d', e :: z)) ∨
      e = '/' ∧ ∃ d', ∀ z, d.stars before (e :: z) = (d', z) := by
  by_cases hempty : d.level.current.isEmpty = true
  · by_cases he : e = '/'
    · subst he
      refine .inr ⟨rfl, d.push .leading, fun z => ?_⟩
      unfold stars
      rw [if_pos hempty]
      rfl
    · refine .inl ⟨(d.push .run).push .run, fun z => ?_⟩
      unfold stars
      rw [if_pos hempty]
      split
      · rename_i heq
        cases heq
      · rename_i heq
        exact absurd (List.cons.inj heq).1 he
      · rfl
  by_cases hplain : (before != some '/' &&
      (d.outer.isEmpty || (before != some ',' && before != some '\x7b'))) = true
  · refine .inl ⟨(d.push .run).push .run, fun z => ?_⟩
    unfold stars
    rw [if_neg hempty, if_pos hplain]
  · by_cases he : e = '/'
    · subst he
      refine .inr ⟨rfl, d.spanLast .between, fun z => ?_⟩
      unfold stars
      rw [if_neg hempty, if_neg hplain]
      rfl
    · refine .inl ⟨if (e = ',' ∨ e = '\x7d') ∧ ¬d.outer.isEmpty then d.spanLast .trailing
        else (d.push .run).push .run, fun z => ?_⟩
      unfold stars
      rw [if_neg hempty, if_neg hplain]
      split
      · rename_i heq
        cases heq
      · rename_i heq
        exact absurd (List.cons.inj heq).1 he
      · rename_i heq
        cases heq
        split_ifs <;> rfl

theorem length_stars_le (d : Draft) (before : Option Char) (r : List Char) :
    (d.stars before r).2.length ≤ r.length := by
  rcases d.stars_cases before r with h | ⟨-, ⟨rfl, h⟩ | ⟨r', rfl, h⟩⟩ | ⟨-, -, h | ⟨r', rfl, h⟩⟩
  all_goals simp [h]

/-- Whether each `**` that leads is the first piece of an alternative. -/
def IsSound (d : Draft) : Prop :=
  ∀ level ∈ d.level :: d.outer, Piece.leading ∉ level.current.dropLast

theorem IsSound.push {p : Piece} (h : d.IsSound) (hp : p ≠ .leading) : (d.push p).IsSound := by
  intro level hlevel
  rcases List.mem_cons.1 hlevel with rfl | hlevel
  · show Piece.leading ∉ (p :: d.level.current).dropLast
    cases hcurrent : d.level.current with
    | nil => exact List.not_mem_nil
    | cons q r =>
      have := h d.level List.mem_cons_self
      rw [hcurrent] at this
      rw [List.dropLast_cons_cons]
      exact fun hmem => (List.mem_cons.1 hmem).elim (fun he => hp he.symm) this
  · exact h level (List.mem_cons_of_mem _ hlevel)

theorem IsSound.spanLast {p : Piece} (h : d.IsSound) (hp : p ≠ .leading) :
    (d.spanLast p).IsSound := by
  rcases d.spanLast_cases p with ⟨heq, -⟩ | ⟨heq, -⟩
  · rwa [heq]
  · rw [heq]
    intro level hlevel
    rcases List.mem_cons.1 hlevel with rfl | hlevel
    · show Piece.leading ∉ (p :: d.level.current.tail).dropLast
      have := h d.level List.mem_cons_self
      cases hcurrent : d.level.current with
      | nil => exact List.not_mem_nil
      | cons q r =>
        cases r with
        | nil => exact List.not_mem_nil
        | cons q' r =>
          rw [hcurrent, List.dropLast_cons_cons] at this
          rw [List.tail_cons, List.dropLast_cons_cons]
          exact fun hmem => (List.mem_cons.1 hmem).elim (fun he => hp he.symm)
            fun hmem => this (List.mem_cons_of_mem q hmem)
    · exact h level (List.mem_cons_of_mem _ hlevel)

theorem IsSound.stars (h : d.IsSound) (before : Option Char) (r : List Char) :
    (d.stars before r).1.IsSound := by
  have hlead : d.level.current = [] → (d.push .leading).IsSound := by
    intro hempty level hlevel
    rcases List.mem_cons.1 hlevel with rfl | hlevel
    · show Piece.leading ∉ (Piece.leading :: d.level.current).dropLast
      rw [hempty]
      exact List.not_mem_nil
    · exact h level (List.mem_cons_of_mem _ hlevel)
  rcases d.stars_cases before r with heq | ⟨hempty, ⟨-, heq⟩ | ⟨r', -, heq⟩⟩ |
    ⟨-, -, heq | ⟨r', -, heq⟩⟩
  · rw [heq]
    exact (h.push (by simp)).push (by simp)
  · rw [heq]
    exact hlead hempty
  · rw [heq]
    exact hlead hempty
  · rw [heq]
    exact h.spanLast (by simp)
  · rw [heq]
    exact h.spanLast (by simp)

theorem IsSound.openChoice (h : d.IsSound) : d.openChoice.IsSound := by
  intro level hlevel
  rcases List.mem_cons.1 hlevel with rfl | hlevel
  · exact List.not_mem_nil
  · exact h level hlevel

theorem IsSound.comma (h : d.IsSound) : d.comma.IsSound := by
  unfold Draft.comma
  split_ifs
  · exact h.push (by simp)
  · intro level hlevel
    rcases List.mem_cons.1 hlevel with rfl | hlevel
    · exact List.not_mem_nil
    · exact h level (List.mem_cons_of_mem _ hlevel)

theorem IsSound.closeChoice {d' : Draft} (h : d.IsSound) (hd : d.closeChoice = .ok d') :
    d'.IsSound := by
  unfold Draft.closeChoice at hd
  split at hd
  · cases hd
  · rename_i level outer houter
    cases hd
    refine IsSound.push (fun l hl => h l ?_) (by simp)
    rw [houter]
    exact List.mem_cons_of_mem _ hl

end Draft

namespace Reading

variable {dialect : Dialect} {x x' : Reading}

/-- Whether `**` leads only where nothing is read before, and trails only behind a star. -/
structure IsSound (x : Reading) : Prop where
  draft : x.draft.IsSound
  last : x.draft.level.current.head? = some .trailing → x.last = some '*'

theorem isSound_start : start.IsSound := by
  refine ⟨fun level hlevel => ?_, fun h => ?_⟩
  · rw [List.mem_singleton.1 hlevel]
    exact List.not_mem_nil
  · cases h

theorem next_stars (x : Reading) (r : List Char) :
    x.next dialect '*' ('*' :: r) =
      .ok (x.behind (if (x.draft.stars x.last r).2.length < r.length then '/' else '*')
        (x.draft.stars x.last r).1, (x.draft.stars x.last r).2) := by
  unfold next
  rw [if_neg (by decide), if_pos rfl]
  rfl

theorem next_star (x : Reading) (h : r.head? ≠ some '*') :
    x.next dialect '*' r = .ok (x.behind '*' (x.draft.push .run), r) := by
  unfold next
  rw [if_neg (by decide), if_pos rfl]
  split
  · exact absurd rfl h
  · rfl

theorem next_literal (x : Reading) (hc : c ∉ ['?', '*', '[', '\x7b', '\x7d', ',', '\\']) :
    x.next dialect c r = .ok (x.behind c (x.draft.push (.literal c)), r) := by
  simp only [List.mem_cons, not_or, List.not_mem_nil, not_false_eq_true, and_true] at hc
  obtain ⟨h1, h2, h3, h4, h5, h6, h7⟩ := hc
  unfold next
  rw [if_neg h1, if_neg h2, if_neg (fun h => h3 h.1), if_neg h4, if_neg h5, if_neg h6, if_neg h7]

theorem IsSound.stars (h : x.IsSound) (r : List Char) :
    (x.behind (if (x.draft.stars x.last r).2.length < r.length then '/' else '*')
      (x.draft.stars x.last r).1).IsSound := by
  refine ⟨h.draft.stars x.last r, fun hhead => ?_⟩
  rcases x.draft.stars_cases x.last r with heq | ⟨-, ⟨-, heq⟩ | ⟨r', -, heq⟩⟩ |
    ⟨-, hlast, heq | ⟨r', -, heq⟩⟩
  · rw [heq] at hhead
    cases hhead
  · rw [heq] at hhead
    cases hhead
  · rw [heq] at hhead
    cases hhead
  · -- it trails, and no slash is taken
    rw [heq]
    exact congrArg some (if_neg (Nat.lt_irrefl r.length))
  · rw [heq] at hhead
    rcases x.draft.spanLast_cases .between with ⟨hsame, -⟩ | ⟨hnew, -⟩
    · change (x.draft.spanLast .between).level.current.head? = _ at hhead
      rw [hsame] at hhead
      exact absurd (h.last hhead) hlast
    · change (x.draft.spanLast .between).level.current.head? = _ at hhead
      rw [hnew] at hhead
      cases hhead

/-- Whether a piece is read off the end of some characters in front of `r`. -/
def IsReadOff (p : Piece) (u r : List Char) : Prop :=
  p = .one ∨ p = .run ∨ (∃ negated ranges, p = .oneOf negated ranges) ∨
    ∃ e, p = .literal e ∧ e :: r <:+ u

/-- What a step can do: read a piece, read two stars, or begin or end an alternative. -/
theorem next_cases (hx : x.next dialect c r = .ok (x', r')) :
    (r' <:+ r ∧ ∃ p, IsReadOff p (c :: r) r' ∧ x'.draft = x.draft.push p) ∨
    (∃ s, c :: r = '*' :: '*' :: s ∧ r' = (x.draft.stars x.last s).2 ∧
      x' = x.behind (if (x.draft.stars x.last s).2.length < s.length then '/' else '*')
        (x.draft.stars x.last s).1) ∨
    (r' = r ∧ (x'.draft = x.draft.openChoice ∨ x'.draft = x.draft.comma ∨
      x.draft.closeChoice = .ok x'.draft)) := by
  unfold next at hx
  split at hx
  · cases hx
    exact .inl ⟨List.suffix_refl _, .one, .inl rfl, rfl⟩
  split at hx
  · rename_i hc
    split at hx
    · rename_i s
      cases hx
      exact .inr (.inl ⟨s, by rw [hc], rfl, rfl⟩)
    · cases hx
      exact .inl ⟨List.suffix_refl _, .run, .inr (.inl rfl), rfl⟩
  have hliteral : IsReadOff (.literal c) (c :: r) r := .inr (.inr (.inr ⟨c, rfl, List.suffix_refl _⟩))
  split at hx
  · split at hx
    · cases hx
    · rename_i p s hclass
      cases hx
      obtain ⟨ranges, -, hp⟩ := readClass_eq_some.1 hclass
      exact .inl ⟨suffix_of_readClass hclass, p, .inr (.inr (.inl ⟨_, ranges, hp⟩)), rfl⟩
    · split at hx
      · cases hx
        exact .inl ⟨List.suffix_refl _, .literal c, hliteral, rfl⟩
      · cases hx
  split at hx
  · cases hx
    exact .inr (.inr ⟨rfl, .inl rfl⟩)
  split at hx
  · split at hx
    · cases hx
    · rename_i d hd
      cases hx
      exact .inr (.inr ⟨rfl, .inr (.inr hd)⟩)
  split at hx
  · cases hx
    exact .inr (.inr ⟨rfl, .inr (.inl rfl)⟩)
  split at hx
  · split at hx
    · cases hx
    · rename_i e s
      cases hx
      exact .inl ⟨List.suffix_cons _ _, .literal e,
        .inr (.inr (.inr ⟨e, rfl, List.suffix_cons _ _⟩)), rfl⟩
  · cases hx
    exact .inl ⟨List.suffix_refl _, .literal c, hliteral, rfl⟩

theorem length_le_of_next (hx : x.next dialect c r = .ok (x', r')) : r'.length ≤ r.length := by
  rcases next_cases hx with ⟨hsuffix, -⟩ | ⟨s, hs, rfl, -⟩ | ⟨rfl, -⟩
  · exact hsuffix.length_le
  · rw [(List.cons.inj hs).2]
    exact Nat.le_succ_of_le (x.draft.length_stars_le x.last s)
  · exact Nat.le_refl _

/-- Every step keeps what is sound. -/
theorem IsSound.next (h : x.IsSound) (hx : x.next dialect c r = .ok (x', r')) : x'.IsSound := by
  rcases next_cases hx with ⟨-, p, hp, hdraft⟩ | ⟨s, -, -, rfl⟩ | ⟨-, hdraft⟩
  · obtain ⟨hp, hp'⟩ : p ≠ .leading ∧ p ≠ .trailing := by
      rcases hp with rfl | rfl | ⟨negated, ranges, rfl⟩ | ⟨e, rfl, -⟩ <;> simp
    refine ⟨hdraft ▸ h.draft.push hp, fun hhead => ?_⟩
    rw [hdraft] at hhead
    exact absurd (Option.some.inj hhead) hp'
  · exact h.stars s
  · rcases hdraft with hdraft | hdraft | hdraft
    · refine ⟨hdraft ▸ h.draft.openChoice, fun hhead => ?_⟩
      rw [hdraft] at hhead
      cases hhead
    · refine ⟨hdraft ▸ h.draft.comma, fun hhead => ?_⟩
      rw [hdraft] at hhead
      unfold Draft.comma at hhead
      split_ifs at hhead
      · cases hhead
      · cases hhead
    · refine ⟨h.draft.closeChoice hdraft, fun hhead => ?_⟩
      unfold Draft.closeChoice at hdraft
      split at hdraft
      · cases hdraft
      · rw [← Except.ok.inj hdraft] at hhead
        cases hhead

end Reading

theorem readPieces_nil (dialect : Dialect) (n : Nat) (x : Reading) :
    readPieces dialect n x [] = .ok x.draft := by
  cases n <;> rfl

/-- Any number of steps that suffices gives the same. -/
theorem readPieces_eq {dialect : Dialect} {n m : Nat} {x : Reading} {s : List Char}
    (hn : s.length ≤ n) (hm : s.length ≤ m) :
    readPieces dialect n x s = readPieces dialect m x s := by
  induction n generalizing m x s with
  | zero =>
    rw [List.length_eq_zero_iff.1 (Nat.le_zero.1 hn), readPieces_nil, readPieces_nil]
  | succ n ih =>
    cases s with
    | nil => rw [readPieces_nil, readPieces_nil]
    | cons c r =>
      obtain _ | m := m
      · exact absurd hm (Nat.not_succ_le_zero _)
      · rw [readPieces, readPieces]
        cases hnext : x.next dialect c r with
        | error e => rfl
        | ok out =>
          have hle := Reading.length_le_of_next hnext
          rw [List.length_cons] at hn hm
          exact ih (by omega) (by omega)

namespace Reading

variable {dialect : Dialect} {x x' : Reading} {s : List Char}

@[simp]
theorem finish_nil : x.finish dialect [] = .ok x.draft :=
  rfl

theorem finish_cons (hx : x.next dialect c r = .ok (x', r')) :
    x.finish dialect (c :: r) = x'.finish dialect r' := by
  unfold finish
  rw [List.length_cons, readPieces, hx]
  exact readPieces_eq (length_le_of_next hx) (Nat.le_refl _)

/-- The first step of a reading that comes to an end. -/
theorem exists_next {d : Draft} (h : x.finish dialect (c :: r) = .ok d) :
    ∃ x' r', x.next dialect c r = .ok (x', r') ∧ x'.finish dialect r' = .ok d := by
  cases hx : x.next dialect c r with
  | error e =>
    unfold finish at h
    rw [List.length_cons, readPieces, hx] at h
    cases h
  | ok out =>
    obtain ⟨x', r'⟩ := out
    rw [finish_cons hx] at h
    exact ⟨x', r', rfl, h⟩

theorem finish_cons_eq_bind (dialect : Dialect) (x : Reading) (c : Char) (r : List Char) :
    x.finish dialect (c :: r) = x.next dialect c r >>= fun p => p.1.finish dialect p.2 := by
  cases hx : x.next dialect c r with
  | error fault =>
    unfold finish
    rw [List.length_cons, readPieces, hx]
    rfl
  | ok p => exact finish_cons hx

/-- **Two readings take a step alike** if what it makes of their drafts is related.  A step pushes
a piece that does not lead, begins or ends an alternative, or reads two stars. -/
theorem alike_next {R : Draft → Draft → Prop} {S : Reading × List Char → Reading × List Char → Prop}
    {y : Reading} (hclasses : x.classes = y.classes)
    (hbehind : ∀ d e c s, R d e → S (x.behind c d, s) (y.behind c e, s))
    (hpush : ∀ p, p ≠ .leading → R (x.draft.push p) (y.draft.push p))
    (hopen : R x.draft.openChoice y.draft.openChoice) (hcomma : R x.draft.comma y.draft.comma)
    (hclose : Alike R x.draft.closeChoice y.draft.closeChoice)
    (hstars : ∀ s, r = '*' :: s → Alike S (x.next .search '*' r) (y.next .search '*' r)) :
    Alike S (x.next .search c r) (y.next .search c r) := by
  by_cases hboth : c = '*' ∧ ∃ s, r = '*' :: s
  · obtain ⟨rfl, s, hs⟩ := hboth
    exact hstars s hs
  have hpiece {p : Piece} (hp : p ≠ .leading) (c : Char) (s : List Char) :
      Alike S (.ok (x.behind c (x.draft.push p), s) : Except Fault _)
        (.ok (y.behind c (y.draft.push p), s)) :=
    .succeeded (hbehind _ _ c s (hpush p hp))
  unfold next
  rw [hclasses]
  split
  · exact hpiece (by simp) c r
  split
  · rename_i hc
    split
    · exact absurd ⟨hc, _, rfl⟩ hboth
    · exact hpiece (by simp) c _
  split
  · split
    · exact .failed _ _
    · rename_i p s hclass
      obtain ⟨ranges, -, rfl⟩ := readClass_eq_some.1 hclass
      exact hpiece (by simp) _ s
    · exact .failed _ _
  split
  · exact .succeeded (hbehind _ _ c r hopen)
  split
  · generalize x.draft.closeChoice = d at hclose ⊢
    generalize y.draft.closeChoice = e at hclose ⊢
    cases hclose with
    | failed e e' => exact .failed e e'
    | succeeded hd => exact .succeeded (hbehind _ _ c r hd)
  split
  · exact .succeeded (hbehind _ _ c r hcomma)
  split
  · split
    · exact .failed _ _
    · exact hpiece (by simp) _ _
  · exact hpiece (by simp) c r

/-- Most characters are read without a look at what follows. -/
theorem next_of_ne (dialect : Dialect) (x : Reading) (h1 : c ≠ '*') (h2 : c ≠ '\\')
    (h3 : ¬(c = '[' ∧ x.classes = true)) : ∃ out : Except Fault Reading,
      (∀ x', out = .ok x' → x'.classes = x.classes) ∧
      ∀ r, x.next dialect c r = out.map fun x' => (x', r) := by
  by_cases h4 : c = '?'
  · refine ⟨.ok (x.behind c (x.draft.push .one)), fun x' hx' => ?_, fun r => ?_⟩
    · cases hx'
      rfl
    · unfold next
      rw [if_pos h4]
      rfl
  by_cases h5 : c = '\x7b'
  · refine ⟨.ok (x.behind c x.draft.openChoice), fun x' hx' => ?_, fun r => ?_⟩
    · cases hx'
      rfl
    · unfold next
      rw [if_neg h4, if_neg h1, if_neg h3, if_pos h5]
      rfl
  by_cases h6 : c = '\x7d'
  · refine ⟨x.draft.closeChoice.map (x.behind c), fun x' hx' => ?_, fun r => ?_⟩
    · cases hd : x.draft.closeChoice with
      | error e =>
        rw [hd] at hx'
        cases hx'
      | ok d =>
        rw [hd] at hx'
        cases hx'
        rfl
    · unfold next
      rw [if_neg h4, if_neg h1, if_neg h3, if_neg h5, if_pos h6]
      cases x.draft.closeChoice with
      | error e => rfl
      | ok d => rfl
  by_cases h7 : c = ','
  · refine ⟨.ok (x.behind c x.draft.comma), fun x' hx' => ?_, fun r => ?_⟩
    · cases hx'
      rfl
    · unfold next
      rw [if_neg h4, if_neg h1, if_neg h3, if_neg h5, if_neg h6, if_pos h7]
      rfl
  · refine ⟨.ok (x.behind c (x.draft.push (.literal c))), fun x' hx' => ?_, fun r => ?_⟩
    · cases hx'
      rfl
    · unfold next
      rw [if_neg h4, if_neg h1, if_neg h3, if_neg h5, if_neg h6, if_neg h7, if_neg h2]
      rfl

/-- A class is read as one piece. -/
theorem next_class_eq_ok (hclasses : x.classes = true) : x.next .search '[' u = .ok (x', r) ↔
    ∃ p, readClass u = .ok (some (p, r)) ∧ x' = x.behind ']' (x.draft.push p) := by
  unfold next
  rw [if_neg (by decide), if_neg (by decide), if_pos ⟨rfl, hclasses⟩]
  constructor
  · intro h
    split at h
    · cases h
    · rename_i p r' hclass
      cases h
      exact ⟨p, hclass, rfl⟩
    · cases h
  · rintro ⟨p, hclass, rfl⟩
    rw [hclass]

/-- A step reads alike whatever follows, except for two stars and a backslash at the end. -/
theorem next_append (hy : ']' ∉ y) (hstar : y.head? ≠ some '*') (ht : t ≠ '*')
    (h : x.next .search c (s ++ y) = .ok (x', r)) :
    (∃ s', s'.length ≤ s.length ∧ r = s' ++ y ∧ x'.classes = x.classes ∧
      ∀ z, x.next .search c (s ++ t :: z) = .ok (x', s' ++ t :: z)) ∨
    (c = '*' ∧ s = ['*']) ∨ (c = '\\' ∧ s = []) := by
  by_cases h1 : c = '*'
  · subst h1
    by_cases h2 : s.head? = some '*'
    · obtain ⟨s, rfl⟩ := List.head?_eq_some_iff.1 h2
      obtain _ | ⟨e, s⟩ := s
      · exact .inr (.inl ⟨rfl, rfl⟩)
      · -- the character behind the stars decides
        rw [List.cons_append, List.cons_append, next_stars] at h
        obtain ⟨d', hd'⟩ | ⟨rfl, d', hd'⟩ := x.draft.stars_cons x.last e
        · rw [hd'] at h
          cases h
          refine .inl ⟨e :: s, Nat.le_succ _, rfl, rfl, fun z => ?_⟩
          rw [List.cons_append, List.cons_append, next_stars, hd', if_neg (Nat.lt_irrefl _),
            if_neg (Nat.lt_irrefl _)]
        · rw [hd'] at h
          cases h
          refine .inl ⟨s, Nat.le_succ_of_le (Nat.le_succ _), rfl, rfl, fun z => ?_⟩
          have hlt : ∀ v : List Char, v.length < ('/' :: v).length := fun v => Nat.lt_succ_self _
          rw [List.cons_append, List.cons_append, next_stars, hd']
          dsimp only
          rw [if_pos (hlt _), if_pos (hlt _)]
    · have hhead : ∀ v : List Char, v.head? ≠ some '*' → (s ++ v).head? ≠ some '*' := by
        intro v hv
        obtain _ | ⟨e, s⟩ := s
        · exact hv
        · exact h2
      rw [next_star x (hhead y hstar)] at h
      cases h
      refine .inl ⟨s, Nat.le_refl _, rfl, rfl, fun z => ?_⟩
      rw [next_star x (hhead (t :: z) fun he => ht (Option.some.inj he))]
  by_cases h2 : c = '\\'
  · subst h2
    obtain _ | ⟨e, s⟩ := s
    · exact .inr (.inr ⟨rfl, rfl⟩)
    · cases h
      exact .inl ⟨s, Nat.le_succ _, rfl, rfl, fun z => rfl⟩
  refine .inl ?_
  by_cases h3 : c = '[' ∧ x.classes = true
  · obtain ⟨rfl, hclasses⟩ := h3
    obtain ⟨p, hclass, rfl⟩ := (next_class_eq_ok hclasses).1 h
    obtain ⟨s', hlen, rfl, hall⟩ := readClass_append hy hclass
    exact ⟨s', Nat.le_of_lt hlen, rfl, rfl, fun z =>
      (next_class_eq_ok hclasses).2 ⟨p, hall (t :: z), rfl⟩⟩
  · obtain ⟨out, hclasses, hout⟩ := x.next_of_ne .search h1 h2 h3
    rw [hout] at h
    cases hx : out with
    | error e =>
      rw [hx] at h
      cases h
    | ok x₁ =>
      rw [hx] at h
      cases h
      refine ⟨s, Nat.le_refl _, rfl, hclasses x' hx, fun z => ?_⟩
      rw [hout, hx]
      rfl

/-- Whether pieces, the last one first, end with the character `t`, or with a `**` that took
a slash. -/
def EndsAt (t : Char) (current : List Piece) : Prop :=
  current.head? = some (.literal t) ∨
    t = '/' ∧ (current.head? = some .between ∨ current = [.leading])

theorem IsSound.eq_singleton (h : x.IsSound) (hhead : x.draft.level.current.head? = some .leading) :
    x.draft.level.current = [.leading] := by
  obtain ⟨r, hr⟩ := List.head?_eq_some_iff.1 hhead
  have := h.draft x.draft.level List.mem_cons_self
  rw [hr] at this ⊢
  cases r with
  | nil => rfl
  | cons p r => exact absurd List.mem_cons_self this

/-- A slash that two stars take is one that `**` ends with. -/
theorem IsSound.endsAt_stars {d : Draft} (h : x.IsSound)
    (hd : x.draft.stars x.last ['/'] = (d, [])) : EndsAt '/' d.level.current := by
  rcases x.draft.stars_cases x.last ['/'] with heq | ⟨hempty, ⟨hr, -⟩ | ⟨r', -, heq⟩⟩ |
    ⟨-, hlast, heq | ⟨r', -, heq⟩⟩
  · rw [hd] at heq
    cases heq
  · cases hr
  · rw [hd] at heq
    cases heq
    refine .inr ⟨rfl, .inr ?_⟩
    show Piece.leading :: x.draft.level.current = _
    rw [hempty]
  · rw [hd] at heq
    cases heq
  · rw [hd] at heq
    cases heq
    refine .inr ⟨rfl, ?_⟩
    rcases x.draft.spanLast_cases .between with ⟨hsame, hhead | hhead⟩ | ⟨hnew, -⟩
    · rw [hsame]
      exact .inr (h.eq_singleton hhead)
    · exact absurd (h.last hhead) hlast
    · rw [hnew]
      exact .inl rfl

/-- **What stands in front of a character is read alike whatever follows it.** -/
theorem exists_reading {d : Draft} (hx : x.IsSound) (hclasses : x.classes = true)
    (ht : t ∉ ['?', '*', '[', '\x7b', '\x7d', ',', '\\']) (hy : ']' ∉ y)
    (hstar : y.head? ≠ some '*') (h : x.finish .search (s ++ y) = .ok d) :
    ∃ x' : Reading, x'.IsSound ∧ x'.last = some t ∧ EndsAt t x'.draft.level.current ∧
      (y = [] → x'.draft.outer = d.outer) ∧
      ∀ z, x.finish .search (s ++ t :: z) = x'.finish .search z := by
  have hnotstar : t ≠ '*' := by
    rintro rfl
    exact ht (by simp)
  induction hn : s.length using Nat.strongRecOn generalizing s x with
  | ind n ih =>
    obtain _ | ⟨c, s⟩ := s
    · have hnext : ∀ z, x.next .search t z = .ok (x.behind t (x.draft.push (.literal t)), z) :=
        fun z => x.next_literal ht
      refine ⟨x.behind t (x.draft.push (.literal t)), hx.next (hnext []), rfl, .inl rfl, ?_,
        fun z => finish_cons (hnext z)⟩
      rintro rfl
      cases h
      rfl
    · rw [List.cons_append] at h
      obtain ⟨x₁, r₁, hnext, hfinish⟩ := exists_next h
      rcases next_append hy hstar hnotstar hnext with ⟨s', hlen, rfl, hc, hall⟩ | ⟨rfl, rfl⟩ |
        ⟨rfl, rfl⟩
      · have hlt : s'.length < n := by
          rw [List.length_cons] at hn
          omega
        obtain ⟨x', hsound, hlast, hends, houter, hread⟩ :=
          ih s'.length hlt (hx.next hnext) (hc.trans hclasses) hfinish rfl
        refine ⟨x', hsound, hlast, hends, houter, fun z => ?_⟩
        rw [List.cons_append, finish_cons (hall z)]
        exact hread z
      · -- two stars at the end look at the character
        rw [List.singleton_append] at hnext
        have houter : y = [] → x.draft.outer = d.outer := by
          rintro rfl
          rw [next_stars] at hnext
          cases hnext
          have hnil : (x.draft.stars x.last []).2 = [] :=
            List.length_eq_zero_iff.1 (Nat.le_zero.1 (x.draft.length_stars_le x.last []))
          rw [hnil] at hfinish
          cases hfinish
          exact (x.draft.outer_stars x.last []).symm
        obtain ⟨d', hd'⟩ | ⟨rfl, d', hd'⟩ := x.draft.stars_cons x.last t
        · have hstars : ∀ z, x.next .search '*' ('*' :: t :: z) = .ok (x.behind '*' d', t :: z) := by
            intro z
            rw [next_stars, hd', if_neg (Nat.lt_irrefl _)]
          have hliteral : ∀ z, (x.behind '*' d').next .search t z =
              .ok ((x.behind '*' d').behind t (d'.push (.literal t)), z) :=
            fun z => (x.behind '*' d').next_literal ht
          refine ⟨_, (hx.next (hstars [])).next (hliteral []), rfl, .inl rfl, fun hnil => ?_,
            fun z => ?_⟩
          · rw [← houter hnil, ← x.draft.outer_stars x.last [t], hd']
            rfl
          · exact (finish_cons (hstars z)).trans (finish_cons (hliteral z))
        · have hstars : ∀ z, x.next .search '*' ('*' :: '/' :: z) = .ok (x.behind '/' d', z) := by
            intro z
            have hlt : z.length < ('/' :: z).length := Nat.lt_succ_self _
            rw [next_stars, hd', if_pos hlt]
          refine ⟨_, hx.next (hstars []), rfl, hx.endsAt_stars (hd' []), fun hnil => ?_,
            fun z => finish_cons (hstars z)⟩
          rw [← houter hnil, ← x.draft.outer_stars x.last ['/'], hd']
          rfl
      · -- a backslash at the end takes the character as it is
        have hnext' : ∀ z, x.next .search '\\' (t :: z) =
            .ok (x.behind t (x.draft.push (.literal t)), z) := fun z => rfl
        refine ⟨_, hx.next (hnext' []), rfl, .inl rfl, ?_, fun z => finish_cons (hnext' z)⟩
        rintro rfl
        cases hnext

end Reading

end Glob
end ReleaseLint
