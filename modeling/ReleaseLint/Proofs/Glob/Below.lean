/-
# Patterns with a name behind them

A slash behind a pattern is read in one of three ways (`TakesSlash`): as a character, or by the
two stars in front of it, which then lead or stand between slashes.

| pattern | last piece | with a slash |
| --- | --- | --- |
| `**` | leads | leads |
| `a/**` | trails | stands between slashes |
| `a` | any other | and the slash |

What is left of a path is left of it with more bytes behind it (`mem_left_append`), so a pattern
with a plain name behind it matches what the pattern matches with that name behind it
(`isMatch_below`).
-/

import ReleaseLint.Proofs.Glob.Suffix

namespace ReleaseLint
namespace Glob

variable {s t v : Bytes} {p : Piece} {ps qs : List Piece} {cs : List Char} {a path : String}

/-! ### More of a path -/

mutual

/-- What a piece leaves of a text it leaves with more behind it. -/
theorem mem_left_append : ∀ {p : Piece} {s t : Bytes} (v : Bytes), t ∈ p.left s →
    t ++ v ∈ p.left (s ++ v)
  | .literal c, s, t, v, h => by
    rw [mem_left_literal] at h ⊢
    rw [h, List.append_assoc]
  | .one, s, t, v, h => by
    rw [Piece.left, mem_afterByte] at h ⊢
    obtain ⟨b, hb, rfl⟩ := h
    exact ⟨b, hb, rfl⟩
  | .run, s, t, v, h => by
    obtain ⟨u, hu, rfl⟩ := mem_left_run.1 h
    exact mem_left_run.2 ⟨u, hu, List.append_assoc u t v⟩
  | .leading, s, t, v, h => by
    refine mem_left_leading.2 ((mem_left_leading.1 h).imp (congrArg (· ++ v)) ?_)
    rintro ⟨u, rfl⟩
    exact ⟨u, by simp⟩
  | .trailing, s, t, v, h => by
    obtain ⟨r, rfl, u, rfl⟩ := mem_left_trailing.1 h
    exact mem_left_trailing.2 ⟨u ++ t ++ v, rfl, u, by simp⟩
  | .between, s, t, v, h => by
    obtain ⟨r, rfl, rfl | ⟨u, rfl⟩⟩ := mem_left_between.1 h
    · exact mem_left_between.2 ⟨t ++ v, rfl, .inl rfl⟩
    · exact mem_left_between.2 ⟨_, rfl, .inr ⟨u, by simp⟩⟩
  | .oneOf negated ranges, s, t, v, h => by
    rw [Piece.left, mem_afterByte] at h ⊢
    obtain ⟨b, hb, rfl⟩ := h
    exact ⟨b, hb, rfl⟩
  | .choice branches, s, t, v, h => by
    rw [Piece.left] at h ⊢
    exact mem_leftOfBranches_append v h

/-- What pieces leave of a text they leave with more behind it. -/
theorem mem_leftOfAll_more : ∀ {ps : List Piece} {s t : Bytes} (v : Bytes),
    t ∈ leftOfAll [s] ps → t ++ v ∈ leftOfAll [s ++ v] ps
  | [], s, t, v, h => by
    rw [mem_leftOfAll_nil] at h ⊢
    rw [h]
  | p :: r, s, t, v, h => by
    obtain ⟨u, hu, ht⟩ := mem_leftOfAll_cons.1 h
    exact mem_leftOfAll_cons.2 ⟨u ++ v, mem_left_append v hu, mem_leftOfAll_more v ht⟩

/-- What alternatives leave of a text they leave with more behind it. -/
theorem mem_leftOfBranches_append : ∀ {branches : List (List Piece)} {s t : Bytes} (v : Bytes),
    t ∈ leftOfBranches s branches → t ++ v ∈ leftOfBranches (s ++ v) branches
  | [], s, t, v, h => by
    rw [leftOfBranches] at h
    exact absurd h List.not_mem_nil
  | b :: r, s, t, v, h => by
    rw [leftOfBranches, List.mem_append] at h ⊢
    exact h.imp (mem_leftOfAll_more v) (mem_leftOfBranches_append v)

end

/-! ### A slash -/

/-- How some pieces, the last one first, are read with a slash behind them. -/
inductive TakesSlash : (current behind : List Piece) → Prop
  | literal {ps : List Piece} (h : ps.head? ≠ some .leading) : TakesSlash ps (.literal '/' :: ps)
  | leading : TakesSlash [.leading] [.leading]
  | trailing {ps : List Piece} : TakesSlash (.trailing :: ps) (.between :: ps)

namespace Reading

variable {x x' : Reading} {d : Draft} {c : Char} {r r' z : List Char}

/-- Two stars take a slash or nothing. -/
theorem left_stars (d : Draft) (before : Option Char) (r : List Char) :
    (d.stars before r).2 = r ∨ r = '/' :: (d.stars before r).2 := by
  rcases d.stars_cases before r with h | ⟨-, ⟨rfl, h⟩ | ⟨r', rfl, h⟩⟩ | ⟨-, -, h | ⟨r', rfl, h⟩⟩
  · exact .inl (by rw [h])
  · exact .inl (by rw [h])
  · exact .inr (by rw [h])
  · exact .inl (by rw [h])
  · exact .inr (by rw [h])

/-- What a step leaves is an end of the text. -/
theorem suffix_of_next (h : x.next .search c r = .ok (x', r')) : r' <:+ r := by
  rcases next_cases h with ⟨hsuffix, -⟩ | ⟨s, hs, rfl, -⟩ | ⟨rfl, -⟩
  · exact hsuffix
  · rw [(List.cons.inj hs).2]
    refine List.IsSuffix.trans ?_ (List.suffix_cons '*' s)
    rcases left_stars x.draft x.last s with hleft | hleft
    · exact hleft.symm ▸ List.suffix_refl s
    · exact ⟨['/'], hleft.symm⟩
  · exact List.suffix_refl r'

/-- A step other than two stars reads no `**` that leads. -/
theorem head_ne_leading (hstars : ¬['*', '*'] <+: c :: r) (h : x.next .search c r = .ok (x', r')) :
    x'.draft.level.current.head? ≠ some .leading := by
  rcases next_cases h with ⟨-, p, hp, hdraft⟩ | ⟨s, hs, -, -⟩ | ⟨-, hdraft⟩
  · rw [hdraft]
    rcases hp with rfl | rfl | ⟨negated, ranges, rfl⟩ | ⟨e, rfl, -⟩ <;> exact fun he => by cases he
  · exact absurd ⟨s, hs.symm⟩ hstars
  · rcases hdraft with hdraft | hdraft | hdraft
    · rw [hdraft]
      exact fun he => by cases he
    · rw [hdraft]
      unfold Draft.comma
      split_ifs <;> exact fun he => by cases he
    · unfold Draft.closeChoice at hdraft
      split at hdraft
      · cases hdraft
      · rw [← Except.ok.inj hdraft]
        exact fun he => by cases he

/-- **A slash behind a text that does not end with one** is read behind the pieces of the text. -/
theorem exists_finish_slash {s : List Char} (hx : x.IsSound) (hclasses : x.classes = true)
    (hlast : s.getLast? ≠ some '/') (hnil : s = [] → x.draft.level.current.head? ≠ some .leading)
    (h : x.finish .search s = .ok d) :
    ∃ x' : Reading, x'.draft.outer = d.outer ∧
      TakesSlash d.level.current x'.draft.level.current ∧
      ∀ z, x.finish .search (s ++ '/' :: z) = x'.finish .search z := by
  have hslash (x : Reading) (z : List Char) : x.finish .search ('/' :: z) =
      (x.behind '/' (x.draft.push (.literal '/'))).finish .search z :=
    finish_cons (x.next_literal (by decide))
  induction hn : s.length using Nat.strongRecOn generalizing s x with
  | ind n ih =>
    obtain _ | ⟨c, s⟩ := s
    · cases h
      exact ⟨x.behind '/' (x.draft.push (.literal '/')), rfl, .literal (hnil rfl), hslash x⟩
    by_cases hboth : c = '*' ∧ s = ['*']
    · -- two stars at the end look at the slash
      obtain ⟨rfl, rfl⟩ := hboth
      rw [finish_cons (x.next_stars [])] at h
      rcases hx.stars_slash with ⟨-, -, hplain⟩ | ⟨d₁, d₂, hd₁, houter, houter', hd₂, htakes⟩
      · rw [hplain] at h
        cases h
        have hliteral (z : List Char) : x.finish .search (['*', '*'] ++ '/' :: z) =
            (x.behind '*' ((x.draft.push .run).push .run)).finish .search ('/' :: z) := by
          refine (finish_cons (x.next_stars ('/' :: z))).trans ?_
          rw [hplain, if_neg (Nat.lt_irrefl _)]
        refine ⟨_, ?_, ?_, fun z => (hliteral z).trans (hslash _ z)⟩
        · rfl
        · exact .literal (by simp [behind, Draft.push])
      · rw [hd₁] at h
        cases h
        refine ⟨x.behind '/' d₂, houter'.trans houter.symm, ?_, fun z => ?_⟩
        · rcases htakes with ⟨h, h'⟩ | ⟨r, h, h'⟩
          · exact h ▸ h' ▸ .leading
          · exact h ▸ h' ▸ .trailing
        have hlt : z.length < ('/' :: z).length := Nat.lt_succ_self _
        refine (finish_cons (x.next_stars ('/' :: z))).trans ?_
        rw [hd₂, if_pos hlt]
    obtain ⟨x₁, r₁, hnext, hfinish⟩ := exists_next h
    have hnext' := hnext
    rw [← List.append_nil s] at hnext'
    rcases next_append List.not_mem_nil (by simp) (t := '/') (by decide) hnext' with
      ⟨s', hlen, hs', hc, hall⟩ | hstars | ⟨rfl, rfl⟩
    · rw [List.append_nil] at hs'
      subst hs'
      rw [List.length_cons] at hn
      have hlast' : r₁.getLast? ≠ some '/' := by
        obtain ⟨u, hu⟩ := (suffix_of_next hnext).trans (List.suffix_cons c s)
        intro he
        have hne : r₁ ≠ [] := by
          rintro rfl
          cases he
        rw [← hu, List.getLast?_append_of_ne_nil _ hne] at hlast
        exact hlast he
      have hnil' : r₁ = [] → x₁.draft.level.current.head? ≠ some .leading := by
        rintro rfl
        refine head_ne_leading ?_ hnext
        rintro ⟨s₀, hs₀⟩
        obtain ⟨rfl, rfl⟩ := List.cons.inj hs₀
        rw [show ['*'].append s₀ = '*' :: s₀ from rfl, next_stars] at hnext
        obtain ⟨-, hleft⟩ := Prod.mk.inj (Except.ok.inj hnext)
        rcases left_stars x.draft x.last s₀ with h | h
        · rw [hleft] at h
          exact hboth ⟨rfl, by rw [← h]; rfl⟩
        · rw [hleft] at h
          rw [h] at hlast
          exact hlast rfl
      obtain ⟨x', houter, htakes, hread⟩ := ih r₁.length (by omega) (hx.next hnext)
        (hc.trans hclasses) hlast' hnil' hfinish rfl
      refine ⟨x', houter, htakes, fun z => ?_⟩
      rw [List.cons_append, finish_cons (hall z)]
      exact hread z
    · exact absurd hstars hboth
    · cases hnext

end Reading

/-- What is matched with a slash behind the pattern. -/
theorem TakesSlash.isMatch {current behind : List Piece} (h : TakesSlash current behind)
    (hcs : cs ≠ []) (hslash : bytesOf path = bytesOf a ++ slash :: encode cs)
    (hmatch : isMatch current.reverse a = true) :
    isMatch (behind.reverse ++ cs.map .literal) path = true := by
  obtain ⟨c, r, rfl⟩ := List.exists_cons_of_ne_nil hcs
  rw [isMatch_iff (ne_leading_of_mem (p := .literal c) (by simp) (by simp)), mem_leftOfAll_append,
    hslash]
  refine ⟨encode (c :: r), ?_, mem_leftOfAll_literals.2 (List.append_nil _).symm⟩
  cases h with
  | leading =>
    rw [List.reverse_singleton, mem_leftOfAll_cons]
    exact ⟨_, mem_left_leading.2 (.inr (List.suffix_append _ _)), mem_leftOfAll_nil.2 rfl⟩
  | literal hhead =>
    rw [isMatch_iff fun he => hhead (by rw [← List.reverse_reverse current, he]; rfl)] at hmatch
    have hmore := mem_leftOfAll_more (slash :: encode (c :: r)) hmatch
    rw [List.reverse_cons, mem_leftOfAll_append]
    refine ⟨_, hmore, ?_⟩
    exact (mem_leftOfAll_literals : _ ∈ leftOfAll [_] (['/'].map .literal) ↔ _).2 rfl
  | @trailing ps =>
    rw [List.reverse_cons, isMatch_iff (ne_leading_of_mem (p := .trailing) (by simp) (by simp)),
      mem_leftOfAll_append] at hmatch
    obtain ⟨u, hu, hend⟩ := hmatch
    obtain ⟨u', hu', -⟩ := mem_leftOfAll_cons.1 hend
    obtain ⟨v, rfl, -⟩ := mem_left_trailing.1 hu'
    rw [List.reverse_cons, mem_leftOfAll_append]
    refine ⟨_, mem_leftOfAll_more (slash :: encode (c :: r)) hu, mem_leftOfAll_cons.2
      ⟨_, mem_left_between.2 ⟨_, rfl, .inr (List.suffix_append v _)⟩, mem_leftOfAll_nil.2 rfl⟩⟩

/-- **A pattern with a plain name behind it matches what the pattern matches with that name behind
it.** -/
theorem isMatch_below {text : List Char} (hcs : ArePlain cs) (hne : cs ≠ [])
    (hlast : text.getLast? ≠ some '/')
    (hps : parse .search (String.ofList text) = .ok ps)
    (hqs : parse .search (String.ofList (text ++ '/' :: cs)) = .ok qs)
    (hslash : bytesOf path = bytesOf a ++ slash :: encode cs) (hmatch : isMatch ps a = true) :
    isMatch qs path = true := by
  obtain ⟨d, hd, houter, rfl⟩ := (parse_eq_ok _).1 hps
  obtain ⟨x, -, htakes, hread⟩ := Reading.exists_finish_slash Reading.isSound_start rfl hlast
    (fun _ he => by cases he) hd
  obtain ⟨d', hd', -, rfl⟩ := (parse_eq_ok _).1 hqs
  rw [hread, Reading.finish_literals hcs] at hd'
  rw [← Except.ok.inj hd', List.reverse_append, List.reverse_reverse]
  exact htakes.isMatch hne hslash hmatch

end Glob
end ReleaseLint
