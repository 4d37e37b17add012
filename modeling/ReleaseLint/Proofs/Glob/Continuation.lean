/-
# Tails behind a base

Behind a base and a slash a tail is read as it is read alone, except for two stars at its
beginning, which take the slash.

| tail | alone | behind a base and a slash |
| --- | --- | --- |
| `**` | leads | trails, and takes the slash |
| `**/` and more | leads, in front of more | is between, and takes the slash, in front of more |
| any other | its pieces | a slash and its pieces |

`Follows` relates the pieces that are read so far, and `Completes` those of a whole tail, which
does not end with a slash.  Every step keeps them related (`Reading.Follows.next`), so both
readings fail or both come to related pieces (`Reading.Follows.finish`).  What related pieces
match differs by the base in front (`Completes.isMatch_iff`).
-/

import ReleaseLint.Proofs.Except
import ReleaseLint.Proofs.Glob.Below
import ReleaseLint.Proofs.Ignore.Literal

namespace ReleaseLint
namespace Glob

variable {base alone behind : List Piece} {p q : Piece} {path : String}

/-- How pieces of a tail, the last one first, follow a base. -/
inductive Follows (base : List Piece) : (alone behind : List Piece) → Prop
  | slash {ps : List Piece} (h : .leading ∉ ps) : Follows base ps (ps ++ .literal '/' :: base)
  | between {ps : List Piece} : Follows base (ps ++ [.leading]) (ps ++ .between :: base)

/-- How the pieces of a whole tail, the last one first, follow a base: a `**` that leads alone
trails behind it. -/
inductive Completes (base : List Piece) : (alone behind : List Piece) → Prop
  | follows {alone behind : List Piece} (h : Follows base alone behind) (hne : alone ≠ [.leading]) :
    Completes base alone behind
  | trailing : Completes base [.leading] (.trailing :: base)

theorem Follows.cons (h : Follows base alone behind) (hp : p ≠ .leading) :
    Follows base (p :: alone) (p :: behind) := by
  cases h with
  | slash h => exact @Follows.slash _ (p :: alone) (by simp [h, hp.symm])
  | @between ps => exact @Follows.between _ (p :: ps)

theorem cons_ne_leading (hp : p ≠ .leading) : p :: alone ≠ [.leading] :=
  fun he => hp (List.cons.inj he).1

/-! ### Drafts -/

namespace Draft

variable {d e : Draft} {before before' : Option Char} {level : Level} {outer : List Level}
  {done : List (List Piece)}

/-- Whether a draft of a tail follows a base: outside of alternatives its pieces do, and inside
nothing differs. -/
inductive Follows (base : List Piece) : (alone behind : Draft) → Prop
  | outside {done ps qs : _} (h : Glob.Follows base ps qs) :
    Follows base ⟨⟨done, ps⟩, []⟩ ⟨⟨done, qs⟩, []⟩
  | inside {level l k : Level} {outer outer' : List Level}
    (h : Follows base ⟨l, outer⟩ ⟨k, outer'⟩) :
    Follows base ⟨level, l :: outer⟩ ⟨level, k :: outer'⟩

/-- Whether a draft of a whole tail follows a base, if no alternative is open in it. -/
structure Completes (base : List Piece) (d e : Draft) : Prop where
  outer : d.outer = [] ↔ e.outer = []
  pieces : d.outer = [] → Glob.Completes base d.level.current e.level.current

/-- Whether nothing is read. -/
def IsBlank (d : Draft) : Prop :=
  d.outer = [] ∧ d.level.current = []

/-- Whether a draft with something in it follows a base, whether the tail goes on or not. -/
structure Stands (base : List Piece) (d e : Draft) : Prop where
  follows : d.Follows base e
  completes : d.Completes base e
  notBlank : ¬d.IsBlank

namespace Follows

theorem stands_of_inside {l k : Level} {outer outer' : List Level}
    (h : Follows base ⟨l, outer⟩ ⟨k, outer'⟩) (level : Level) :
    Stands base ⟨level, l :: outer⟩ ⟨level, k :: outer'⟩ :=
  ⟨.inside h, ⟨by simp, fun hnil => absurd hnil (List.cons_ne_nil _ _)⟩,
    fun hblank => List.cons_ne_nil _ _ hblank.1⟩

theorem stands_of_outside (h : Glob.Follows base (p :: alone) (q :: behind))
    (hne : p :: alone ≠ [.leading]) :
    Stands base ⟨⟨done, p :: alone⟩, []⟩ ⟨⟨done, q :: behind⟩, []⟩ :=
  ⟨.outside h, ⟨Iff.rfl, fun _ => .follows h hne⟩, fun hblank => List.cons_ne_nil _ _ hblank.2⟩

theorem push (h : d.Follows base e) (hp : p ≠ .leading) : (d.push p).Stands base (e.push p) := by
  cases h with
  | outside h => exact stands_of_outside (h.cons hp) (cons_ne_leading hp)
  | inside h => exact h.stands_of_inside _

theorem openChoice (h : d.Follows base e) : d.openChoice.Stands base e.openChoice :=
  h.stands_of_inside _

theorem comma (h : d.Follows base e) : d.comma.Stands base e.comma := by
  cases h with
  | outside h => exact (Follows.outside h).push (by simp)
  | inside h => exact h.stands_of_inside _

theorem closeChoice (h : d.Follows base e) :
    Alike (Stands base) d.closeChoice e.closeChoice := by
  cases h with
  | outside h => exact .failed _ _
  | inside h => exact .succeeded (h.push (by simp))

end Follows

/-! ### Two stars -/

/-- Inside of alternatives two stars are read without regard to what is outside. -/
theorem exists_stars (level : Level) (before : Option Char) (r : List Char) :
    ∃ level' left, ∀ l outer,
      stars ⟨level, l :: outer⟩ before r = (⟨level', l :: outer⟩, left) := by
  refine ⟨(stars ⟨level, [level]⟩ before r).1.level, (stars ⟨level, [level]⟩ before r).2,
    fun l outer => ?_⟩
  have hspan (p : Piece) : spanLast ⟨level, l :: outer⟩ p =
      ⟨(spanLast ⟨level, [level]⟩ p).level, l :: outer⟩ := by
    unfold spanLast
    dsimp only
    split <;> rfl
  unfold stars
  dsimp only [List.isEmpty_cons]
  split_ifs
  · split <;> rfl
  · rfl
  · split
    · rw [hspan]
    · rw [hspan]
    · split_ifs
      · rw [hspan]
      · rfl

/-- Outside of alternatives two stars span directories at the end or in front of a slash only. -/
theorem stars_of_ne {c : Char} (hc : c ≠ '/') (current : List Piece) (before : Option Char)
    (r : List Char) :
    stars ⟨⟨done, current⟩, []⟩ before (c :: r) =
      (push (push ⟨⟨done, current⟩, []⟩ .run) .run, c :: r) := by
  unfold stars
  simp [hc]

variable {current : List Piece}

/-- Behind other pieces two stars span directories behind a slash only. -/
theorem stars_of_before_ne (hne : current ≠ []) (hbefore : before ≠ some '/') (r : List Char) :
    stars ⟨⟨done, current⟩, []⟩ before r =
      (push (push ⟨⟨done, current⟩, []⟩ .run) .run, r) := by
  unfold stars
  simp [hne, hbefore]

theorem stars_slash_nil (hne : current ≠ []) : stars ⟨⟨done, current⟩, []⟩ (some '/') [] =
    (spanLast ⟨⟨done, current⟩, []⟩ .trailing, []) := by
  unfold stars
  simp [hne]

theorem stars_slash_cons (hne : current ≠ []) (r : List Char) :
    stars ⟨⟨done, current⟩, []⟩ (some '/') ('/' :: r) =
      (spanLast ⟨⟨done, current⟩, []⟩ .between, r) := by
  unfold stars
  simp [hne]

theorem spanLast_of_spans (hq : q = .leading ∨ q = .trailing) (done : List (List Piece))
    (ps : List Piece) : spanLast ⟨⟨done, q :: ps⟩, outer⟩ p = ⟨⟨done, q :: ps⟩, outer⟩ := by
  rcases hq with rfl | rfl <;> rfl

theorem spanLast_of_not_spans (hq : ¬(q = .leading ∨ q = .trailing)) (done : List (List Piece))
    (ps : List Piece) : spanLast ⟨⟨done, q :: ps⟩, outer⟩ p = ⟨⟨done, p :: ps⟩, outer⟩ := by
  rcases spanLast_cases ⟨⟨done, q :: ps⟩, outer⟩ p with ⟨-, hhead⟩ | ⟨hnew, -⟩
  · exact absurd (hhead.imp Option.some.inj Option.some.inj) hq
  · exact hnew

/-- A `**` takes the place of the last piece at both places, unless that is a `**` which leads
alone. -/
theorem spanLast_cases_of_follows (h : Glob.Follows base alone behind) (hne : alone ≠ [])
    (hp : p ≠ .leading) :
    (spanLast ⟨⟨done, alone⟩, []⟩ p).Stands base (spanLast ⟨⟨done, behind⟩, []⟩ p) ∨
      spanLast ⟨⟨done, alone⟩, []⟩ p = ⟨⟨done, [.leading]⟩, []⟩ ∧
        spanLast ⟨⟨done, behind⟩, []⟩ p = ⟨⟨done, p :: base⟩, []⟩ := by
  cases h with
  | slash h =>
    obtain ⟨q, ps, rfl⟩ := List.exists_cons_of_ne_nil hne
    have hrest : Glob.Follows base ps (ps ++ .literal '/' :: base) :=
      .slash fun hmem => h (List.mem_cons_of_mem q hmem)
    rw [List.cons_append]
    by_cases hq : q = .leading ∨ q = .trailing
    · rw [spanLast_of_spans hq, spanLast_of_spans hq]
      have hlead : q ≠ .leading := fun he => h (he ▸ List.mem_cons_self)
      exact .inl (Follows.stands_of_outside (hrest.cons hlead) (cons_ne_leading hlead))
    · rw [spanLast_of_not_spans hq, spanLast_of_not_spans hq]
      exact .inl (Follows.stands_of_outside (hrest.cons hp) (cons_ne_leading hp))
  | @between ps =>
    obtain _ | ⟨q, ps⟩ := ps
    · exact .inr ⟨rfl, spanLast_of_not_spans (by simp) done base⟩
    · rw [List.cons_append, List.cons_append]
      by_cases hq : q = .leading ∨ q = .trailing
      · rw [spanLast_of_spans hq, spanLast_of_spans hq]
        exact .inl (Follows.stands_of_outside (@Glob.Follows.between _ (q :: ps)) (by simp))
      · rw [spanLast_of_not_spans hq, spanLast_of_not_spans hq]
        have hrest : Glob.Follows base (ps ++ [.leading]) (ps ++ .between :: base) := .between
        exact .inl (Follows.stands_of_outside (hrest.cons hp) (cons_ne_leading hp))

/-- What two stars in front of `r` come to: the same is left, in front of which the drafts follow
the base, and they complete the tail if nothing is left and no slash was taken at its end. -/
structure GoOn (base : List Piece) (r : List Char) (x y : Draft × List Char) : Prop where
  left : x.2 = y.2
  follows : x.2 ≠ [] → x.1.Follows base y.1 ∧ ¬x.1.IsBlank
  completes : x.2 = [] → r ≠ ['/'] → x.1.Completes base y.1

theorem Stands.goOn (h : d.Stands base e) (r left : List Char) : GoOn base r (d, left) (e, left) :=
  ⟨rfl, fun _ => ⟨h.follows, h.notBlank⟩, fun _ _ => h.completes⟩

/-- A `**` that leads alone trails behind a base, if nothing follows. -/
theorem goOn_trailing (r : List Char) :
    GoOn base r (⟨⟨done, [.leading]⟩, []⟩, []) (⟨⟨done, .trailing :: base⟩, []⟩, []) :=
  ⟨rfl, fun hne => absurd rfl hne, fun _ _ => ⟨Iff.rfl, fun _ => .trailing⟩⟩

/-- A `**` that leads alone is between behind a base, if something follows. -/
theorem goOn_between (r : List Char) :
    GoOn base ('/' :: r) (⟨⟨done, [.leading]⟩, []⟩, r) (⟨⟨done, .between :: base⟩, []⟩, r) :=
  ⟨rfl, fun _ => ⟨.outside (@Glob.Follows.between _ []), fun hblank => List.cons_ne_nil _ _ hblank.2⟩,
    fun hnil hne => absurd (congrArg _ hnil) hne⟩

theorem goOn_plain (h : Glob.Follows base alone behind) (r : List Char) :
    GoOn base r (push (push ⟨⟨done, alone⟩, []⟩ .run) .run, r)
      (push (push ⟨⟨done, behind⟩, []⟩ .run) .run, r) :=
  (((Follows.outside h).push (by simp)).follows.push (by simp)).goOn r r

/-- At the beginning of a tail two stars take the slash in front of it. -/
theorem goOn_stars_of_nil (before : Option Char) (r : List Char) :
    GoOn base r (stars ⟨⟨done, []⟩, []⟩ before r)
      (stars ⟨⟨done, .literal '/' :: base⟩, []⟩ (some '/') r) := by
  obtain _ | ⟨c, r⟩ := r
  · exact goOn_trailing []
  by_cases hc : c = '/'
  · subst hc
    exact goOn_between r
  · rw [stars_of_ne hc, stars_of_ne hc]
    exact goOn_plain (@Glob.Follows.slash _ [] List.not_mem_nil) (c :: r)

/-- Behind other pieces two stars are read in the same way. -/
theorem goOn_stars_of_ne_nil (h : Glob.Follows base alone behind) (hne : alone ≠ [])
    (before : Option Char) (r : List Char) :
    GoOn base r (stars ⟨⟨done, alone⟩, []⟩ before r) (stars ⟨⟨done, behind⟩, []⟩ before r) := by
  have hne' : behind ≠ [] := by cases h <;> simp
  by_cases hbefore : before = some '/'
  · subst hbefore
    obtain _ | ⟨c, r⟩ := r
    · rw [stars_slash_nil hne, stars_slash_nil hne']
      rcases spanLast_cases_of_follows h hne (p := .trailing) (by simp) with hstands | ⟨hd, he⟩
      · exact hstands.goOn [] []
      · rw [hd, he]
        exact goOn_trailing []
    by_cases hc : c = '/'
    · subst hc
      rw [stars_slash_cons hne, stars_slash_cons hne']
      rcases spanLast_cases_of_follows h hne (p := .between) (by simp) with hstands | ⟨hd, he⟩
      · exact hstands.goOn ('/' :: r) r
      · rw [hd, he]
        exact goOn_between r
    · rw [stars_of_ne hc, stars_of_ne hc]
      exact goOn_plain h (c :: r)
  · rw [stars_of_before_ne hne hbefore, stars_of_before_ne hne' hbefore]
    exact goOn_plain h r

/-- **Two stars are read in the same way,** a slash in front of them counting as nothing. -/
theorem Follows.stars (h : d.Follows base e) (hblank : d.IsBlank → before' = some '/')
    (hbefore : ¬d.IsBlank → before = before') (r : List Char) :
    GoOn base r (d.stars before r) (e.stars before' r) := by
  cases h with
  | @inside level l k outer outer' h =>
    obtain rfl := hbefore fun hblank => List.cons_ne_nil _ _ hblank.1
    obtain ⟨level', left, hstars⟩ := exists_stars level before r
    rw [hstars, hstars]
    exact (h.stands_of_inside level').goOn r left
  | @outside done alone behind h =>
    by_cases hne : alone = []
    · obtain rfl : behind = .literal '/' :: base := by
        cases h with
        | slash => rw [hne]; rfl
        | between => exact absurd hne (by simp)
      rw [hne, hblank ⟨rfl, hne⟩]
      exact goOn_stars_of_nil before r
    · obtain rfl := hbefore fun hblank => hne hblank.2
      exact goOn_stars_of_ne_nil h hne before r

end Draft

/-! ### Readings -/

namespace Reading

variable {x y : Reading} {c : Char} {r s : List Char}

/-- Whether a reading behind a base and a slash goes on as one of the tail alone. -/
structure Follows (base : List Piece) (x y : Reading) : Prop where
  classes : x.classes = y.classes
  draft : x.draft.Follows base y.draft
  blank : x.draft.IsBlank → y.last = some '/'
  last : ¬x.draft.IsBlank → x.last = y.last

/-- What a step of both readings comes to in front of `r`. -/
structure Steps (base : List Piece) (r : List Char) (p q : Reading × List Char) : Prop where
  left : p.2 = q.2
  follows : p.2 ≠ [] → p.1.Follows base q.1
  completes : p.2 = [] → r.getLast? ≠ some '/' → p.1.draft.Completes base q.1.draft

theorem Follows.steps {d e : Draft} (h : x.Follows base y) (hd : d.Stands base e) (c : Char)
    (r s : List Char) : Steps base r (x.behind c d, s) (y.behind c e, s) :=
  ⟨rfl, fun _ => ⟨h.classes, hd.follows, fun hblank => absurd hblank hd.notBlank, fun _ => rfl⟩,
    fun _ _ => hd.completes⟩

/-- **A reading behind a base takes the step of the tail alone.** -/
theorem Follows.next (h : x.Follows base y) (c : Char) (r : List Char) :
    Alike (Steps base r) (x.next .search c r) (y.next .search c r) := by
  refine alike_next h.classes (fun d e c s hd => h.steps hd c r s) (fun p hp => h.draft.push hp)
    h.draft.openChoice h.draft.comma h.draft.closeChoice fun s hs => ?_
  subst hs
  have hgoOn := h.draft.stars h.blank h.last s
  rw [next_stars, next_stars, ← hgoOn.left]
  refine .succeeded ⟨rfl, fun hne => ?_, fun hnil hlast => ?_⟩
  · obtain ⟨hfollows, hblank⟩ := hgoOn.follows hne
    exact ⟨h.classes, hfollows, fun he => absurd he hblank, fun _ => rfl⟩
  · exact hgoOn.completes hnil fun hs => hlast (by rw [hs]; rfl)

/-- **A reading behind a base comes to the end of the tail alone.** -/
theorem Follows.finish (h : x.Follows base y) (hne : s ≠ []) (hlast : s.getLast? ≠ some '/') :
    Alike (Draft.Completes base) (x.finish .search s) (y.finish .search s) := by
  induction hn : s.length using Nat.strongRecOn generalizing s x y with
  | ind n ih =>
    obtain ⟨c, r, rfl⟩ := List.exists_cons_of_ne_nil hne
    rw [finish_cons_eq_bind, finish_cons_eq_bind]
    have hnext := (h.next c r).and_left (P := fun p => p.2 <:+ r) fun p => suffix_of_next
    refine hnext.bind fun p q ⟨hsteps, hsuffix⟩ => ?_
    rw [← hsteps.left]
    have hrest : r ≠ [] → r.getLast? ≠ some '/' := by
      intro hr
      rwa [← List.singleton_append, List.getLast?_append_of_ne_nil _ hr] at hlast
    by_cases hnil : p.2 = []
    · rw [hnil]
      refine .succeeded (hsteps.completes hnil ?_)
      by_cases hr : r = []
      · simp [hr]
      · exact hrest hr
    · obtain ⟨taken, htaken⟩ := hsuffix
      have hr : r ≠ [] := by
        rintro rfl
        exact hnil (List.append_eq_nil_iff.1 htaken).2
      have hlast' : p.2.getLast? ≠ some '/' := by
        rw [← List.getLast?_append_of_ne_nil taken hnil, htaken]
        exact hrest hr
      have hlen : p.2.length < n := by
        rw [← hn, ← htaken, List.length_cons, List.length_append]
        omega
      exact ih p.2.length hlen (hsteps.follows hnil) hnil hlast' rfl

/-- Behind literal characters and a slash a tail begins. -/
theorem follows_start (cs : List Char) : start.Follows ((cs.map Piece.literal).reverse)
    (start.behindAll (cs ++ ['/'])) := by
  refine ⟨(classes_behindAll _ _).symm, ?_, fun _ => ?_, fun h => absurd ⟨rfl, rfl⟩ h⟩
  · rw [draft_behindAll, List.map_append, List.reverse_append]
    show start.draft.Follows _ ⟨⟨[], (Piece.literal '/' :: (cs.map Piece.literal).reverse) ++ []⟩, []⟩
    rw [List.append_nil]
    exact .outside (@Glob.Follows.slash _ [] List.not_mem_nil)
  · rw [last_behindAll _ (List.concat_ne_nil _ _), List.getLast?_concat]

end Reading

/-! ### What is matched -/

variable {ps qs : List Piece} {cs t : List Char}

/-- A path goes on with a slash behind some characters if its bytes do. -/
theorem bytesOf_eq_append_slash {u : Bytes} : bytesOf path = encode cs ++ slash :: u ↔
    ∃ r, path.toList = cs ++ '/' :: r ∧ u = encode r := by
  have hslash : encode cs ++ slash :: u = encode (cs ++ ['/']) ++ u := by
    rw [encode_append, List.append_assoc]
    rfl
  rw [bytesOf_eq_encode, hslash, eq_comm, encode_append_eq_encode]
  simp

/-- What is matched behind literal characters, if the next piece takes a slash. -/
theorem isMatch_behind {P : Bytes → Prop} (hp : p ≠ .leading)
    (htakes : ∀ u, [] ∈ leftOfAll [u] (p :: ps) ↔ ∃ v, u = slash :: v ∧ P v) :
    isMatch (cs.map .literal ++ p :: ps) path = true ↔
      ∃ r, path.toList = cs ++ '/' :: r ∧ P (encode r) := by
  have hmem : p ∈ cs.map .literal ++ p :: ps := by simp
  rw [Glob.isMatch_iff (ne_leading_of_mem hmem hp), mem_leftOfAll_append]
  simp only [mem_leftOfAll_literals, htakes]
  constructor
  · rintro ⟨u, hu, v, rfl, hv⟩
    obtain ⟨r, hr, rfl⟩ := bytesOf_eq_append_slash.1 hu
    exact ⟨r, hr, hv⟩
  · rintro ⟨r, hr, hv⟩
    exact ⟨_, bytesOf_eq_append_slash.2 ⟨r, hr, rfl⟩, _, rfl, hv⟩

/-- **What the pieces behind a base match** is the base, a slash, and what they match alone. -/
theorem Completes.isMatch_iff (h : Completes (cs.map Piece.literal).reverse ps qs) :
    isMatch qs.reverse path = true ↔ ∃ r, path.toList = cs ++ '/' :: r ∧
      isMatch ps.reverse (String.ofList r) = true := by
  have halone (ps : List Piece) (hps : ps ≠ [.leading]) (r : List Char) :
      isMatch ps (String.ofList r) = true ↔ [] ∈ leftOfAll [encode r] ps := by
    rw [Glob.isMatch_iff hps, bytesOf_eq_encode, String.toList_ofList]
  cases h with
  | trailing =>
    have hall (r : List Char) : isMatch [.leading] (String.ofList r) = true := rfl
    simp only [List.reverse_singleton, hall]
    rw [List.reverse_cons, List.reverse_reverse]
    refine isMatch_behind (P := fun _ => True) Piece.noConfusion fun u => ?_
    simp only [mem_leftOfAll_cons, mem_leftOfAll_nil, mem_left_trailing]
    constructor
    · rintro ⟨_, ⟨r, hu, -⟩, -⟩
      exact ⟨r, hu, trivial⟩
    · rintro ⟨r, hu, -⟩
      exact ⟨[], ⟨r, hu, List.nil_suffix⟩, rfl⟩
  | follows h hne =>
    have hps : ps.reverse ≠ [.leading] := fun he => hne (List.reverse_injective he)
    simp only [halone _ hps]
    cases h with
    | slash h =>
      rw [List.reverse_append, List.reverse_cons, List.reverse_reverse, List.append_assoc,
        List.singleton_append]
      refine isMatch_behind (P := fun v => [] ∈ leftOfAll [v] ps.reverse) Piece.noConfusion
        fun u => ?_
      have hchar : bytesOfChar '/' = [slash] := bytesOfChar_eq '/'
      simp only [mem_leftOfAll_cons, mem_left_literal, hchar, List.singleton_append]
    | @between ps =>
      rw [List.reverse_append, List.reverse_append, List.reverse_cons, List.reverse_reverse,
        List.append_assoc, List.singleton_append]
      refine isMatch_behind (P := fun v => [] ∈ leftOfAll [v] (.leading :: ps.reverse))
        Piece.noConfusion fun u => ?_
      simp only [mem_leftOfAll_cons, mem_left_between, mem_left_leading]
      constructor
      · rintro ⟨v, ⟨r, hu, hv⟩, hrest⟩
        exact ⟨r, hu, v, hv, hrest⟩
      · rintro ⟨r, hu, v, hv, hrest⟩
        exact ⟨v, ⟨r, hu, hv⟩, hrest⟩

/-- **A tail is read behind a base if it is read alone,** and matches there what it matches alone
behind the base and a slash. -/
theorem alike_parse_append (hcs : AreLiteral cs) (hne : t ≠ []) (hlast : t.getLast? ≠ some '/') :
    Alike (fun ps qs => ∀ path : String, isMatch qs path = true ↔
        ∃ r, path.toList = cs ++ '/' :: r ∧ isMatch ps (String.ofList r) = true)
      (parse .search (String.ofList t)) (parse .search (String.ofList (cs ++ '/' :: t))) := by
  have hend := (Reading.follows_start cs).finish hne hlast
  rw [← Reading.finish_append_literals rfl hcs.concat_slash, List.append_assoc,
    List.singleton_append] at hend
  unfold parse
  rw [String.toList_ofList, String.toList_ofList]
  generalize Reading.start.finish .search t = d at hend ⊢
  generalize Reading.start.finish .search (cs ++ '/' :: t) = e at hend ⊢
  cases hend with
  | failed e e' => exact .failed e e'
  | @succeeded d e h =>
    have houter : d.outer.isEmpty = e.outer.isEmpty := by
      rw [Bool.eq_iff_iff, List.isEmpty_iff, List.isEmpty_iff, h.outer]
    dsimp only
    rw [houter]
    by_cases hclosed : e.outer.isEmpty = true
    · rw [if_pos hclosed, if_pos hclosed]
      rw [List.isEmpty_iff, ← h.outer] at hclosed
      exact .succeeded fun path => (h.pieces hclosed).isMatch_iff
    · rw [if_neg hclosed, if_neg hclosed]
      exact .failed _ _

end Glob
end ReleaseLint
