/-
# How patterns end

What a pattern matches is known of its last segment alone, where that is a star, two
stars, or ends with plain characters.

| pattern | matches |
| --- | --- |
| `front*e` | what `front*` matches and ends with `e` (`isMatch_star_iff`) |
| `front**` | what `front**/*` matches (`isMatch_stars_iff`) |
| `fronte` | only what ends with `e` (`suffix_of_isMatch`) |
| `front/e` | only `e` and what ends with `/e` (`suffix_of_isMatch_name`) |

The front of a star is empty or ends with a slash, so that the star begins a segment of the path,
and `e` holds no slash.
-/

import ReleaseLint.Proofs.Glob.Matching
import ReleaseLint.Proofs.Glob.Reading
import ReleaseLint.Proofs.Path.Segments

namespace ReleaseLint
namespace Glob

variable {s t u v : Bytes} {ps qs : List Piece} {cs front : List Char} {path : String}

/-- Whether characters stand for themselves in a pattern. -/
def ArePlain (cs : List Char) : Prop :=
  ∀ c ∈ cs, c ∉ ['?', '*', '[', '\x7b', '\x7d', ',', '\\']

/-! ### The pieces of a pattern -/

theorem Reading.finish_literals {x : Reading} (hcs : ArePlain cs) :
    x.finish .search cs =
      .ok ⟨⟨x.draft.level.done, (cs.map Piece.literal).reverse ++ x.draft.level.current⟩,
        x.draft.outer⟩ := by
  induction cs generalizing x with
  | nil => rfl
  | cons c cs ih =>
    rw [finish_cons (x.next_literal (hcs c List.mem_cons_self)),
      ih fun d hd => hcs d (List.mem_cons_of_mem c hd), List.map_cons, List.reverse_cons,
      List.append_assoc]
    rfl

/-- A pattern is read when it is read to its end and no alternative is open there. -/
theorem parse_eq_ok (s : List Char) :
    parse .search (String.ofList s) = .ok ps ↔
      ∃ d, Reading.start.finish .search s = .ok d ∧ d.outer = [] ∧
        ps = d.level.current.reverse := by
  unfold parse
  rw [String.toList_ofList]
  cases h : Reading.start.finish .search s with
  | error e =>
    constructor
    · intro hp
      cases hp
    · rintro ⟨d, hd, -⟩
      cases hd
  | ok d =>
    dsimp only
    constructor
    · intro hp
      split at hp
      · rename_i houter
        exact ⟨d, rfl, List.isEmpty_iff.1 houter, (Except.ok.inj hp).symm⟩
      · cases hp
    · rintro ⟨d', hd, houter, rfl⟩
      cases hd
      rw [houter]
      rfl

theorem exists_parse_search {s : String} : (∃ ps, parse .search s = .ok ps) ↔
    ∃ d, Reading.start.finish .search s.toList = .ok d ∧ d.outer = [] := by
  unfold parse
  cases Reading.start.finish .search s.toList with
  | error e => simp
  | ok d => by_cases houter : d.outer = [] <;> simp [houter]

/-- Whether characters neither close a class nor begin or end alternatives, wherever they are
read. -/
structure IsFlat (cs : List Char) : Prop where
  noClass : ']' ∉ cs
  outer : ∀ {x : Reading} {d : Draft}, x.finish .search cs = .ok d → d.outer = x.draft.outer

theorem ArePlain.isFlat (hcs : ArePlain cs) (hclass : ']' ∉ cs) : IsFlat cs := by
  refine ⟨hclass, fun {x d} h => ?_⟩
  rw [Reading.finish_literals hcs] at h
  rw [← Except.ok.inj h]

theorem ArePlain.isFlat_star (hcs : ArePlain cs) (hclass : ']' ∉ cs) : IsFlat ('*' :: cs) := by
  have hstar : cs.head? ≠ some '*' := fun h => hcs '*' (List.mem_of_mem_head? h) (by decide)
  refine ⟨fun hm => (List.mem_cons.1 hm).elim (by decide) hclass, fun {x d} h => ?_⟩
  rw [Reading.finish_cons (x.next_star hstar), Reading.finish_literals hcs] at h
  rw [← Except.ok.inj h]
  rfl

theorem isFlat_stars : IsFlat ['*', '*'] := by
  refine ⟨by decide, fun {x d} h => ?_⟩
  rw [Reading.finish_cons (x.next_stars []), List.length_eq_zero_iff.1 (Nat.le_zero.1
    (x.draft.length_stars_le x.last [])), Reading.finish_nil] at h
  rw [← Except.ok.inj h]
  exact x.draft.outer_stars x.last []

/-- Whether a reading stands at the end of `front`, outside of alternatives, and at the
beginning of a segment. -/
structure Reading.IsBehind (x : Reading) (front : List Char) : Prop where
  isSound : x.IsSound
  outer : x.draft.outer = []
  segment : x.draft.level.current = [] ∨
    (x.last = some '/' ∧ EndsAt '/' x.draft.level.current)
  finish : ∀ z, start.finish .search (front ++ z) = x.finish .search z

theorem Reading.isBehind_start : start.IsBehind [] :=
  ⟨isSound_start, rfl, .inl rfl, fun _ => rfl⟩

namespace Reading

variable {x : Reading}

/-- Behind a slash, outside of alternatives, a segment begins. -/
theorem exists_isBehind {stem y : List Char} (hy : y = [] ∨ ∃ cs, IsFlat cs ∧ y = '/' :: cs)
    (h : parse .search (String.ofList (stem ++ y)) = .ok ps) :
    ∃ x : Reading, x.IsBehind (stem ++ ['/']) ∧ x.last = some '/' := by
  obtain ⟨d, hd, houter, -⟩ := (parse_eq_ok _).1 h
  have hclass : ']' ∉ y := by
    rcases hy with rfl | ⟨cs, hcs, rfl⟩
    · exact List.not_mem_nil
    · exact fun hm => (List.mem_cons.1 hm).elim (by decide) hcs.noClass
  have hstar : y.head? ≠ some '*' := by
    rcases hy with rfl | ⟨cs, -, rfl⟩
    · simp
    · simp
  obtain ⟨x, hsound, hlast, hends, hnil, hall⟩ :=
    exists_reading isSound_start rfl (t := '/') (by decide) hclass hstar hd
  refine ⟨x, ⟨hsound, ?_, .inr ⟨hlast, hends⟩, fun z => ?_⟩, hlast⟩
  · rcases hy with rfl | ⟨cs, hcs, rfl⟩
    · exact (hnil rfl).trans houter
    · rw [hall] at hd
      exact (hcs.outer hd).symm.trans houter
  · rw [List.append_assoc]
    exact hall z

/-- A star at the beginning of a segment, with plain characters behind it. -/
theorem IsBehind.parse_star (hx : x.IsBehind front) (hcs : ArePlain cs) :
    parse .search (String.ofList (front ++ '*' :: cs)) =
      .ok (x.draft.level.current.reverse ++ .run :: cs.map .literal) := by
  have hstar : cs.head? ≠ some '*' := by
    intro h
    exact hcs '*' (List.mem_of_mem_head? h) (by decide)
  have hfinish : start.finish .search (front ++ '*' :: cs) = .ok
      ⟨⟨x.draft.level.done, (cs.map Piece.literal).reverse ++ .run :: x.draft.level.current⟩,
        x.draft.outer⟩ := by
    rw [hx.finish, finish_cons (x.next_star hstar), finish_literals hcs]
    rfl
  refine (parse_eq_ok _).2 ⟨_, hfinish, hx.outer, ?_⟩
  rw [List.reverse_append, List.reverse_reverse, List.reverse_cons, List.append_assoc]
  rfl

/-- What a pattern leaves where a segment of it begins is where a segment of the path
begins. -/
theorem IsBehind.suffix_of_mem (hx : x.IsBehind front)
    (hu : u ∈ leftOfAll [s] x.draft.level.current.reverse) : u = s ∨ slash :: u <:+ s := by
  rcases hx.segment with hnil | ⟨-, hhead | ⟨-, hhead | hlead⟩⟩
  · rw [hnil] at hu
    exact .inl (mem_leftOfAll_nil.1 hu)
  · obtain ⟨r, hr⟩ := List.head?_eq_some_iff.1 hhead
    rw [hr, List.reverse_cons, mem_leftOfAll_append] at hu
    obtain ⟨v, hv, hu⟩ := hu
    have hliteral : v = slash :: u :=
      (mem_leftOfAll_literals : u ∈ leftOfAll [v] (['/'].map .literal) ↔ _).1 hu
    exact .inr (hliteral ▸ suffix_of_mem_leftOfAll hv)
  · obtain ⟨r, hr⟩ := List.head?_eq_some_iff.1 hhead
    rw [hr, List.reverse_cons, mem_leftOfAll_append] at hu
    obtain ⟨v, hv, hu⟩ := hu
    rw [mem_leftOfAll_cons] at hu
    obtain ⟨u', hu', hu⟩ := hu
    rw [mem_leftOfAll_nil.1 hu]
    obtain ⟨r, rfl, rfl | hr⟩ := mem_left_between.1 hu'
    · exact .inr (suffix_of_mem_leftOfAll hv)
    · exact .inr ((hr.trans (List.suffix_cons slash r)).trans (suffix_of_mem_leftOfAll hv))
  · rw [hlead, List.reverse_singleton, mem_leftOfAll_cons] at hu
    obtain ⟨u', hu', hu⟩ := hu
    rw [mem_leftOfAll_nil.1 hu]
    exact mem_left_leading.1 hu'

end Reading

/-! ### What the patterns match -/

theorem isMatch_iff (hps : ps ≠ [.leading]) :
    isMatch ps path = true ↔ [] ∈ leftOfAll [bytesOf path] ps := by
  unfold isMatch
  split
  · exact absurd rfl hps
  · rw [List.contains_iff_mem]

theorem ne_leading_of_mem {p : Piece} (hp : p ∈ ps) (hne : p ≠ .leading) : ps ≠ [.leading] := by
  rintro rfl
  exact hne (List.mem_singleton.1 hp)

/-- The last segment of a path. -/
theorem exists_lastSegment (s : Bytes) : ∃ b, slash ∉ b ∧ (b = s ∨ slash :: b <:+ s) := by
  induction s with
  | nil => exact ⟨[], List.not_mem_nil, .inl rfl⟩
  | cons a s ih =>
    obtain ⟨b, hb, rfl | hsuffix⟩ := ih
    · by_cases ha : a = slash
      · exact ⟨b, hb, .inr (ha ▸ List.suffix_refl _)⟩
      · refine ⟨a :: b, fun hmem => ?_, .inl rfl⟩
        exact (List.mem_cons.1 hmem).elim (fun he => ha he.symm) hb
    · exact ⟨b, hb, .inr (hsuffix.trans (List.suffix_cons a s))⟩

/-- **A star with an ending matches what the star matches and has the ending.** -/
theorem isMatch_star_iff {x : Reading} (hx : x.IsBehind front)
    (hslash : '/' ∉ cs) :
    isMatch (x.draft.level.current.reverse ++ .run :: cs.map .literal) path = true ↔
      isMatch (x.draft.level.current.reverse ++ [.run]) path = true ∧
        encode cs <:+ bytesOf path := by
  have hslash' : slash ∉ encode cs := fun h => hslash ((mem_encode (c := '/') (by decide)).1 h)
  rw [isMatch_iff (ne_leading_of_mem (p := .run) (by simp) (by simp)),
    isMatch_iff (ne_leading_of_mem (p := .run) (by simp) (by simp)),
    mem_leftOfAll_append, mem_leftOfAll_append]
  constructor
  · rintro ⟨u, hu, hend⟩
    obtain ⟨w, hw, hrest⟩ := mem_leftOfAll_cons.1 hend
    obtain ⟨v, hv, rfl⟩ := mem_left_run.1 hw
    rw [mem_leftOfAll_literals, List.append_nil] at hrest
    subst hrest
    refine ⟨⟨_, hu, mem_leftOfAll_cons.2 ⟨[], mem_left_run.2 ⟨v ++ encode cs, ?_, ?_⟩, ?_⟩⟩, ?_⟩
    · exact fun h => (List.mem_append.1 h).elim hv hslash'
    · rw [List.append_nil]
    · exact mem_leftOfAll_nil.2 rfl
    · exact (List.suffix_append v _).trans (suffix_of_mem_leftOfAll hu)
  · rintro ⟨⟨u, hu, hend⟩, hsuffix⟩
    obtain ⟨w, hw, hrest⟩ := mem_leftOfAll_cons.1 hend
    obtain ⟨v, hv, rfl⟩ := mem_left_run.1 hw
    obtain rfl := mem_leftOfAll_nil.1 hrest
    rw [List.append_nil] at hu
    have hcs' : encode cs <:+ v := by
      rcases hx.suffix_of_mem hu with rfl | h
      · exact hsuffix
      · exact Path.suffix_of_cons_suffix hslash' hsuffix h
    obtain ⟨v', rfl⟩ := hcs'
    refine ⟨_, hu, mem_leftOfAll_cons.2 ⟨encode cs, mem_left_run.2 ⟨v', ?_, rfl⟩, ?_⟩⟩
    · exact fun h => hv (List.mem_append_left _ h)
    · exact mem_leftOfAll_literals.2 (List.append_nil _).symm

/-- A leading `**` matches what it matches with a star behind it: everything. -/
theorem isMatch_leading_run : isMatch [.leading, .run] path = true := by
  rw [isMatch_iff (ne_leading_of_mem (p := .run) (by simp) (by simp)), mem_leftOfAll_cons]
  obtain ⟨b, hb, hend⟩ := exists_lastSegment (bytesOf path)
  refine ⟨b, mem_left_leading.2 hend, mem_leftOfAll_cons.2 ⟨[], ?_, mem_leftOfAll_nil.2 rfl⟩⟩
  exact mem_left_run.2 ⟨b, hb, (List.append_nil b).symm⟩

/-- So does one that trails. -/
theorem isMatch_trailing_iff :
    isMatch (ps ++ [.trailing]) path = true ↔ isMatch (ps ++ [.between, .run]) path = true := by
  rw [isMatch_iff (ne_leading_of_mem (p := .trailing) (by simp) (by simp)),
    isMatch_iff (ne_leading_of_mem (p := .run) (by simp) (by simp)),
    mem_leftOfAll_append, mem_leftOfAll_append]
  constructor
  · rintro ⟨u, hu, hend⟩
    obtain ⟨w, hw, -⟩ := mem_leftOfAll_cons.1 hend
    obtain ⟨r, rfl, -⟩ := mem_left_trailing.1 hw
    obtain ⟨b, hb, hlast⟩ := exists_lastSegment r
    refine ⟨_, hu, mem_leftOfAll_cons.2 ⟨b, mem_left_between.2 ⟨r, rfl, hlast⟩, ?_⟩⟩
    refine mem_leftOfAll_cons.2 ⟨[], ?_, mem_leftOfAll_nil.2 rfl⟩
    exact mem_left_run.2 ⟨b, hb, (List.append_nil b).symm⟩
  · rintro ⟨u, hu, hend⟩
    obtain ⟨w, hw, -⟩ := mem_leftOfAll_cons.1 hend
    obtain ⟨r, rfl, -⟩ := mem_left_between.1 hw
    refine ⟨_, hu, mem_leftOfAll_cons.2 ⟨[], ?_, mem_leftOfAll_nil.2 rfl⟩⟩
    exact mem_left_trailing.2 ⟨r, rfl, List.nil_suffix⟩

/-- What two stars become, with nothing or with a slash behind them: two runs inside a segment,
else they span directories. -/
theorem Reading.IsSound.stars_slash {x : Reading} (hx : x.IsSound) :
    (x.draft.level.current ≠ [] ∧ x.last ≠ some '/' ∧
      ∀ z, x.draft.stars x.last z = ((x.draft.push .run).push .run, z)) ∨
    ∃ d d' : Draft, x.draft.stars x.last [] = (d, []) ∧ d.outer = x.draft.outer ∧
      d'.outer = x.draft.outer ∧ (∀ z, x.draft.stars x.last ('/' :: z) = (d', z)) ∧
      (d.level.current = [.leading] ∧ d'.level.current = [.leading] ∨
        ∃ r, d.level.current = .trailing :: r ∧ d'.level.current = .between :: r) := by
  by_cases hempty : x.draft.level.current = []
  · refine .inr ⟨x.draft.push .leading, x.draft.push .leading, ?_, rfl, rfl, fun z => ?_, .inl ?_⟩
    · unfold Draft.stars
      rw [if_pos (List.isEmpty_iff.2 hempty)]
    · unfold Draft.stars
      rw [if_pos (List.isEmpty_iff.2 hempty)]
      rfl
    · have hpush : (x.draft.push .leading).level.current = [.leading] := by
        show Piece.leading :: x.draft.level.current = _
        rw [hempty]
      exact ⟨hpush, hpush⟩
  have hne : ¬x.draft.level.current.isEmpty = true := fun h => hempty (List.isEmpty_iff.1 h)
  by_cases hplain : (x.last != some '/' &&
      (x.draft.outer.isEmpty || (x.last != some ',' && x.last != some '\x7b'))) = true
  · refine .inl ⟨hempty, fun hlast => ?_, fun z => ?_⟩
    · rw [hlast] at hplain
      cases hplain
    · unfold Draft.stars
      rw [if_neg hne, if_pos hplain]
  · refine .inr ⟨x.draft.spanLast .trailing, x.draft.spanLast .between, ?_,
      x.draft.outer_spanLast _, x.draft.outer_spanLast _, fun z => ?_, ?_⟩
    · unfold Draft.stars
      rw [if_neg hne, if_neg hplain]
    · unfold Draft.stars
      rw [if_neg hne, if_neg hplain]
      rfl
    · have htrailing : x.draft.level.current.head? ≠ some .trailing := by
        intro h
        rw [hx.last h] at hplain
        exact hplain (by simp)
      rcases x.draft.spanLast_cases .trailing with ⟨hsame, hhead⟩ | ⟨hnew, hhead, -⟩
      · have hlead := hhead.resolve_right htrailing
        rcases x.draft.spanLast_cases .between with ⟨hsame', -⟩ | ⟨-, hhead', -⟩
        · rw [hsame, hsame']
          exact .inl ⟨hx.eq_singleton hlead, hx.eq_singleton hlead⟩
        · exact absurd hlead hhead'
      · rcases x.draft.spanLast_cases .between with ⟨-, hhead'⟩ | ⟨hnew', -⟩
        · exact absurd (hhead'.resolve_right htrailing) hhead
        · rw [hnew, hnew']
          exact .inr ⟨x.draft.level.current.tail, rfl, rfl⟩

/-- **Two stars match what they match with a star in a segment of its own behind them.** -/
theorem isMatch_stars_iff {x : Reading} (hx : x.IsBehind front) :
    ∃ ps qs, parse .search (String.ofList (front ++ ['*', '*'])) = .ok ps ∧
      parse .search (String.ofList (front ++ ['*', '*', '/', '*'])) = .ok qs ∧
      ∀ path, isMatch ps path = true ↔ isMatch qs path = true := by
  obtain ⟨d, d', hd, houter, houter', hd', hcases⟩ := hx.isSound.stars_slash.resolve_left
    fun h => hx.segment.elim h.1 fun hslash => h.2.1 hslash.1
  rw [hx.outer] at houter houter'
  have hfinish : Reading.start.finish .search (front ++ ['*', '*']) = .ok d := by
    rw [hx.finish, Reading.finish_cons (x.next_stars []), hd]
    rfl
  have hfinish' : Reading.start.finish .search (front ++ ['*', '*', '/', '*']) =
      .ok (d'.push .run) := by
    rw [hx.finish, Reading.finish_cons (x.next_stars ['/', '*']), hd',
      Reading.finish_cons (Reading.next_star _ (by decide))]
    rfl
  refine ⟨_, _, (parse_eq_ok _).2 ⟨d, hfinish, houter, rfl⟩,
    (parse_eq_ok _).2 ⟨d'.push .run, hfinish', houter', rfl⟩, fun path => ?_⟩
  have hpush : (d'.push .run).level.current = .run :: d'.level.current := rfl
  rcases hcases with ⟨h, h'⟩ | ⟨r, h, h'⟩
  · rw [hpush, h, h']
    exact iff_of_true rfl isMatch_leading_run
  · rw [hpush, h, h', List.reverse_cons, List.reverse_cons, List.reverse_cons, List.append_assoc]
    exact isMatch_trailing_iff

/-- **A pattern that ends with plain characters matches only what ends with them.** -/
theorem suffix_of_isMatch {c : Char} (hcs : ArePlain (c :: cs)) (hc : c ≠ '/')
    (h : parse .search (String.ofList (front ++ c :: cs)) = .ok ps)
    (hclass : ']' ∉ c :: cs) (hmatch : isMatch ps path = true) :
    encode (c :: cs) <:+ bytesOf path := by
  obtain ⟨d, hd, -, rfl⟩ := (parse_eq_ok _).1 h
  have hplain := hcs c List.mem_cons_self
  have hstar : (c :: cs).head? ≠ some '*' := by
    rintro hhead
    cases hhead
    exact hplain (by decide)
  obtain ⟨x, -, -, hends, -, hall⟩ := Reading.exists_reading Reading.isSound_start rfl hplain
    hclass hstar hd
  rw [hall, Reading.finish_literals fun d hd => hcs d (List.mem_cons_of_mem c hd)] at hd
  rw [← Except.ok.inj hd] at hmatch
  rcases hends with hhead | ⟨hslash, -⟩
  · obtain ⟨r, hr⟩ := List.head?_eq_some_iff.1 hhead
    have hpieces : ((cs.map Piece.literal).reverse ++ x.draft.level.current).reverse =
        r.reverse ++ (c :: cs).map Piece.literal := by
      rw [List.reverse_append, List.reverse_reverse, hr, List.reverse_cons, List.append_assoc]
      rfl
    rw [hpieces, isMatch_iff (ne_leading_of_mem (p := .literal c) (by simp) (by simp)),
      mem_leftOfAll_append] at hmatch
    obtain ⟨u, hu, hend⟩ := hmatch
    rw [mem_leftOfAll_literals, List.append_nil] at hend
    exact hend ▸ suffix_of_mem_leftOfAll hu
  · exact absurd hslash hc

/-- **A pattern that ends with a plain name matches only that name and what ends with it behind a
slash.** -/
theorem suffix_of_isMatch_name (hcs : ArePlain cs) (hclass : ']' ∉ cs) (hne : cs ≠ [])
    (h : parse .search (String.ofList (front ++ '/' :: cs)) = .ok ps)
    (hmatch : isMatch ps path = true) :
    bytesOf path = encode cs ∨ slash :: encode cs <:+ bytesOf path := by
  obtain ⟨x, hx, -⟩ := Reading.exists_isBehind (.inr ⟨cs, hcs.isFlat hclass, rfl⟩) h
  obtain ⟨d, hd, -, rfl⟩ := (parse_eq_ok _).1 h
  rw [List.append_cons, hx.finish, Reading.finish_literals hcs] at hd
  obtain ⟨c, r, rfl⟩ := List.exists_cons_of_ne_nil hne
  rw [← Except.ok.inj hd, List.reverse_append, List.reverse_reverse,
    isMatch_iff (ne_leading_of_mem (p := .literal c) (by simp) (by simp)),
    mem_leftOfAll_append] at hmatch
  obtain ⟨u, hu, hend⟩ := hmatch
  rw [mem_leftOfAll_literals, List.append_nil] at hend
  rw [← hend]
  exact (hx.suffix_of_mem hu).imp_left Eq.symm

end Glob
end ReleaseLint
