/-
# Literal rules

A rule is literal if it is written with plain characters, but for a slash in front, stars at
the end and a slash behind them.

| rule | matches, below the directory of its file |
| --- | --- |
| `name` | only what has this name |
| `/name`, `a/name` | only this path |
| `text*`, `text**`, … | only paths in which the text occurs |
-/

import ReleaseLint.Ignore.Rule
import ReleaseLint.Proofs.Glob.Suffix
import ReleaseLint.Proofs.Text.Parts

namespace ReleaseLint
namespace Glob

variable {cs : List Char} {path : String} {dialect : Dialect} {ps : List Piece}

/-- Whether characters stand for themselves outside of alternatives. -/
def AreLiteral (cs : List Char) : Prop :=
  ∀ c ∈ cs, c ∉ ['?', '*', '[', '\x7b', '\x7d', '\\']

instance (cs : List Char) : Decidable (AreLiteral cs) :=
  List.decidableBAll (fun c => c ∉ ['?', '*', '[', '\x7b', '\x7d', '\\']) cs

theorem AreLiteral.concat_slash (h : AreLiteral cs) : AreLiteral (cs ++ ['/']) := by
  intro c hc
  rcases List.mem_append.1 hc with hc | hc
  · exact h c hc
  · rw [List.mem_singleton.1 hc]
    decide

/-! ### How they are read -/

namespace Reading

variable {x : Reading}

/-- A reading behind characters that stand for themselves. -/
def behindAll (x : Reading) (cs : List Char) : Reading :=
  cs.foldl (fun x c => x.behind c (x.draft.push (.literal c))) x

theorem draft_behindAll (x : Reading) (cs : List Char) : (x.behindAll cs).draft =
    ⟨⟨x.draft.level.done, (cs.map Piece.literal).reverse ++ x.draft.level.current⟩,
      x.draft.outer⟩ := by
  unfold behindAll
  induction cs generalizing x with
  | nil => rfl
  | cons c cs ih =>
    rw [List.foldl_cons, ih, List.map_cons, List.reverse_cons, List.append_assoc]
    rfl

theorem classes_behindAll (x : Reading) (cs : List Char) : (x.behindAll cs).classes = x.classes := by
  unfold behindAll
  induction cs generalizing x with
  | nil => rfl
  | cons c cs ih => exact ih _

theorem last_behindAll (x : Reading) (hne : cs ≠ []) : (x.behindAll cs).last = cs.getLast? := by
  obtain ⟨init, c, rfl⟩ := (List.eq_nil_or_concat cs).resolve_left hne
  unfold behindAll
  rw [List.concat_eq_append, List.foldl_append, List.getLast?_concat]
  rfl

theorem finish_append_literals (houter : x.draft.outer = []) (hcs : AreLiteral cs) (r : List Char) :
    x.finish dialect (cs ++ r) = (x.behindAll cs).finish dialect r := by
  induction cs generalizing x with
  | nil => rfl
  | cons c cs ih =>
    have hnext : x.next dialect c (cs ++ r) =
        .ok (x.behind c (x.draft.push (.literal c)), cs ++ r) := by
      by_cases hc : c = ','
      · have hcomma : x.draft.comma = x.draft.push (.literal ',') := by
          unfold Draft.comma
          rw [houter]
          rfl
        rw [hc, ← hcomma]
        rfl
      · refine x.next_literal fun hmem => hcs c List.mem_cons_self ?_
        simp only [List.mem_cons, List.not_mem_nil, or_false] at hmem ⊢
        tauto
    rw [List.cons_append, finish_cons hnext]
    exact ih (x := x.behind c (x.draft.push (.literal c))) houter
      fun d hd => hcs d (List.mem_cons_of_mem c hd)

/-- Stars that do not follow a slash are read one by one. -/
theorem finish_stars (dialect : Dialect) (houter : x.draft.outer = [])
    (hcurrent : x.draft.level.current ≠ []) (hlast : x.last ≠ some '/') (n : Nat) :
    x.finish dialect (List.replicate n '*') =
      .ok ⟨⟨x.draft.level.done, List.replicate n .run ++ x.draft.level.current⟩,
        x.draft.outer⟩ := by
  induction n using Nat.strongRecOn generalizing x with
  | ind n ih =>
    obtain _ | _ | n := n
    · rfl
    · exact finish_cons (x.next_star (by decide))
    · have hstars : ∀ r, x.draft.stars x.last r = ((x.draft.push .run).push .run, r) := by
        intro r
        unfold Draft.stars
        rw [if_neg (by simpa using hcurrent), houter]
        simp [hlast]
      have hnext : x.next dialect '*' ('*' :: List.replicate n '*') = _ := x.next_stars _
      rw [hstars, if_neg (Nat.lt_irrefl _)] at hnext
      have hmore := ih n (by omega) (x := x.behind '*' ((x.draft.push .run).push .run)) houter
        (List.cons_ne_nil _ _) (by simp [behind])
      rw [List.replicate_succ, List.replicate_succ, finish_cons hnext, hmore]
      simp only [behind, Draft.push, List.replicate_succ', List.append_assoc, List.cons_append,
        List.nil_append]

/-- The reading behind a `**` that leads. -/
def behindLeading : Reading :=
  start.behind '/' (start.draft.push .leading)

theorem finish_leading (r : List Char) :
    start.finish dialect ('*' :: '*' :: '/' :: r) = behindLeading.finish dialect r := by
  refine finish_cons ((start.next_stars ('/' :: r)).trans ?_)
  have hlt : r.length < ('/' :: r).length := Nat.lt_succ_self _
  show Except.ok (start.behind (if r.length < ('/' :: r).length then '/' else '*') _, r) = _
  rw [if_pos hlt]
  rfl

end Reading

/-- Pieces without alternatives lose none of them. -/
theorem dropEmptyPieces_eq (h : ∀ p ∈ ps, p.dropEmpty = some p) : dropEmptyPieces ps = ps := by
  induction ps with
  | nil => rfl
  | cons p r ih =>
    rw [dropEmptyPieces, h p List.mem_cons_self, ih fun q hq => h q (List.mem_cons_of_mem p hq)]
    rfl

theorem parse_ignore_eq_ok {s : List Char} {d : Draft} (h : Reading.start.finish .ignore s = .ok d)
    (houter : d.outer = []) (hplain : ∀ p ∈ d.level.current, p.dropEmpty = some p) :
    parse .ignore (String.ofList s) = .ok d.level.current.reverse := by
  unfold parse
  rw [String.toList_ofList, h]
  dsimp only
  rw [houter, List.isEmpty_nil, if_pos rfl, if_neg (by decide),
    dropEmptyPieces_eq fun p hp => hplain p (List.mem_reverse.1 hp)]

/-- What stands in front of the characters of a rule: nothing, or a `**` that leads. -/
inductive IsLead : List Char → List Piece → Prop
  | none : IsLead [] []
  | leading : IsLead ['*', '*', '/'] [.leading]

variable {lead : List Char} {front : List Piece}

/-- The reading behind what stands in front, and behind literal characters. -/
theorem IsLead.exists_reading (h : IsLead lead front) (dialect : Dialect) (hcs : AreLiteral cs) :
    ∃ x : Reading, x.draft = ⟨⟨[], (cs.map Piece.literal).reverse ++ front⟩, []⟩ ∧
      (cs ≠ [] → x.last = cs.getLast?) ∧ ∀ r, Reading.start.finish dialect (lead ++ cs ++ r) =
        x.finish dialect r := by
  cases h with
  | none =>
    refine ⟨Reading.start.behindAll cs, Reading.draft_behindAll _ cs, Reading.last_behindAll _,
      fun r => ?_⟩
    rw [List.nil_append]
    exact Reading.finish_append_literals rfl hcs r
  | leading =>
    refine ⟨Reading.behindLeading.behindAll cs, Reading.draft_behindAll _ cs,
      Reading.last_behindAll _, fun r => ?_⟩
    rw [List.append_assoc]
    exact (Reading.finish_leading (cs ++ r)).trans (Reading.finish_append_literals rfl hcs r)

theorem IsLead.dropEmpty (h : IsLead lead front) {rest : List Piece}
    (hrest : ∀ p ∈ rest, p.dropEmpty = some p) :
    ∀ p ∈ rest ++ ((cs.map Piece.literal).reverse ++ front), p.dropEmpty = some p := by
  intro p hp
  rcases List.mem_append.1 hp with hp | hp
  · exact hrest p hp
  rcases List.mem_append.1 hp with hp | hp
  · obtain ⟨c, -, rfl⟩ := List.mem_map.1 (List.mem_reverse.1 hp)
    rfl
  · cases h with
    | none => exact absurd hp List.not_mem_nil
    | leading =>
      rw [List.mem_singleton.1 hp]
      rfl

theorem IsLead.reverse (h : IsLead lead front) : front.reverse = front := by
  cases h <;> rfl

/-- Stars behind literal characters are read one by one, unless a rule ends with a slash and
two stars. -/
theorem parse_stars (h : IsLead lead front) (hcs : AreLiteral cs) (hne : cs ≠ []) {n : Nat}
    (hn : cs.getLast? ≠ some '/' ∨ n ≠ 2) :
    parse .ignore (String.ofList (lead ++ cs ++ List.replicate n '*')) =
      .ok (front ++ cs.map .literal ++ List.replicate n .run) := by
  obtain ⟨x, hdraft, hlast, hfinish⟩ := h.exists_reading .ignore hcs
  have hcurrent : x.draft.level.current ≠ [] := by
    rw [hdraft]
    simp [hne]
  have houter : x.draft.outer = [] := by rw [hdraft]
  have hd : x.finish .ignore (List.replicate n '*') =
      .ok ⟨⟨[], List.replicate n .run ++ ((cs.map Piece.literal).reverse ++ front)⟩, []⟩ := by
    have hall : x.finish .ignore (List.replicate n '*') =
        .ok ⟨⟨x.draft.level.done, List.replicate n .run ++ x.draft.level.current⟩,
          x.draft.outer⟩ := by
      by_cases hslash : cs.getLast? = some '/'
      · obtain _ | _ | _ | n := n
        · rfl
        · exact Reading.finish_cons (x.next_star (by decide))
        · exact absurd rfl (hn.resolve_left (not_not_intro hslash))
        · -- behind the slash the first two stars stand alone, as a third one follows
          have hstars : x.draft.stars x.last (List.replicate (n + 1) '*') =
              ((x.draft.push .run).push .run, List.replicate (n + 1) '*') := by
            unfold Draft.stars
            rw [if_neg (by simpa using hcurrent), houter]
            simp [List.replicate_succ]
          have hnext : x.next .ignore '*' ('*' :: List.replicate (n + 1) '*') = _ :=
            x.next_stars _
          rw [hstars, if_neg (Nat.lt_irrefl _)] at hnext
          have hmore := Reading.finish_stars .ignore
            (x := x.behind '*' ((x.draft.push .run).push .run)) houter (List.cons_ne_nil _ _)
            (by simp [Reading.behind]) (n + 1)
          rw [List.replicate_succ, List.replicate_succ, Reading.finish_cons hnext, hmore]
          simp only [Reading.behind, Draft.push, List.replicate_succ', List.append_assoc,
            List.cons_append, List.nil_append]
      · exact Reading.finish_stars .ignore houter hcurrent (by rwa [hlast hne]) n
    rw [hall, hdraft]
  rw [← hfinish] at hd
  rw [parse_ignore_eq_ok hd rfl (h.dropEmpty fun p hp => by rw [List.eq_of_mem_replicate hp]; rfl),
    List.reverse_append, List.reverse_append, List.reverse_reverse, h.reverse,
    List.reverse_replicate]

/-- A slash and two stars, with what lets them not match the directory. -/
theorem parse_slash_stars (h : IsLead lead front) (hcs : AreLiteral cs) :
    parse .ignore (String.ofList (lead ++ (cs ++ ['/']) ++ ['*', '*', '/', '*'])) =
      .ok (front ++ cs.map .literal ++ [.between, .run]) := by
  obtain ⟨x, hdraft, hlast, hfinish⟩ := h.exists_reading .ignore hcs.concat_slash
  have hstars : x.draft.stars x.last ['/', '*'] = (x.draft.spanLast .between, ['*']) := by
    rw [hlast (List.concat_ne_nil _ _), List.getLast?_concat, hdraft]
    unfold Draft.stars
    rw [if_neg (by simp)]
    simp
  have hspan : x.draft.spanLast .between =
      ⟨⟨[], .between :: ((cs.map Piece.literal).reverse ++ front)⟩, []⟩ := by
    rw [hdraft, List.map_append, List.reverse_append]
    rfl
  have hnext : x.next .ignore '*' ['*', '/', '*'] = _ := x.next_stars _
  rw [hstars, hspan] at hnext
  have hd := hfinish ['*', '*', '/', '*']
  rw [Reading.finish_cons hnext, Reading.finish_cons (Reading.next_star _ (by decide)),
    Reading.finish_nil] at hd
  have hplain : ∀ p ∈ [.run, .between] ++ ((cs.map Piece.literal).reverse ++ front),
      p.dropEmpty = some p := h.dropEmpty (by simp [Piece.dropEmpty])
  refine (parse_ignore_eq_ok hd rfl hplain).trans (congrArg Except.ok ?_)
  show (Piece.run :: .between :: ((cs.map Piece.literal).reverse ++ front)).reverse = _
  simp [h.reverse]

/-! ### What they match -/

variable {rest : List Piece}

/-- What stands in front leaves the path, or what follows a slash of it. -/
theorem IsLead.exists_of_mem (h : IsLead lead front) {s : List Char} {t : Bytes}
    (ht : t ∈ leftOfAll [encode s] front) :
    ∃ r, t = encode r ∧ (r = s ∨ front = [.leading] ∧ '/' :: r <:+ s) := by
  cases h with
  | none => exact ⟨s, mem_leftOfAll_nil.1 ht, .inl rfl⟩
  | leading =>
    obtain ⟨u, hu, ht⟩ := mem_leftOfAll_cons.1 ht
    obtain rfl := mem_leftOfAll_nil.1 ht
    rcases mem_left_leading.1 hu with rfl | hsuffix
    · exact ⟨s, rfl, .inl rfl⟩
    · obtain ⟨r, hr, hu⟩ := slash_cons_suffix_encode hsuffix
      exact ⟨r, hu, .inr ⟨rfl, hr⟩⟩

/-- What literal characters match, in front of other pieces. -/
theorem exists_of_isMatch (h : IsLead lead front) (hne : cs ≠ [])
    (hmatch : isMatch (front ++ cs.map .literal ++ rest) path = true) :
    ∃ r, (cs ++ r = path.toList ∨ front = [.leading] ∧ '/' :: (cs ++ r) <:+ path.toList) ∧
      [] ∈ leftOfAll [encode r] rest := by
  have hlead : front ++ cs.map .literal ++ rest ≠ [.leading] := by
    obtain ⟨c, cs, rfl⟩ := List.exists_cons_of_ne_nil hne
    cases h <;> simp
  rw [isMatch_iff hlead, bytesOf_eq_encode, List.append_assoc, mem_leftOfAll_append] at hmatch
  obtain ⟨t, ht, hmatch⟩ := hmatch
  obtain ⟨s, rfl, hs⟩ := h.exists_of_mem ht
  obtain ⟨u, hu, hmatch⟩ := mem_leftOfAll_append.1 hmatch
  obtain ⟨r, rfl, rfl⟩ := encode_append_eq_encode.1 (mem_leftOfAll_literals.1 hu).symm
  exact ⟨r, hs, hmatch⟩

/-- Literal characters match themselves, or what ends with a slash and them. -/
theorem eq_of_isMatch (h : IsLead lead front) (hne : cs ≠ [])
    (hmatch : isMatch (front ++ cs.map .literal) path = true) :
    path.toList = cs ∨ front = [.leading] ∧ '/' :: cs <:+ path.toList := by
  rw [← List.append_nil (front ++ _)] at hmatch
  obtain ⟨r, hr, hrest⟩ := exists_of_isMatch h hne hmatch
  obtain rfl : r = [] := by
    have := mem_leftOfAll_nil.1 hrest
    cases r with
    | nil => rfl
    | cons c r => simp [encode_cons, String.utf8EncodeChar_ne_nil] at this
  rw [List.append_nil] at hr
  exact hr.imp_left Eq.symm

/-- Literal characters match themselves. -/
theorem isMatch_literals (h : IsLead lead front) (hne : cs ≠ []) :
    isMatch (front ++ cs.map .literal) (String.ofList cs) = true := by
  obtain ⟨c, cs, rfl⟩ := List.exists_cons_of_ne_nil hne
  rw [isMatch_iff (by cases h <;> simp), bytesOf_eq_encode, String.toList_ofList,
    mem_leftOfAll_append]
  refine ⟨encode (c :: cs), ?_, mem_leftOfAll_literals.2 (List.append_nil _).symm⟩
  cases h with
  | none => exact mem_leftOfAll_nil.2 rfl
  | leading =>
    exact mem_leftOfAll_cons.2 ⟨_, mem_left_leading.2 (.inl rfl), mem_leftOfAll_nil.2 rfl⟩

theorem infix_of_isMatch (h : IsLead lead front) (hne : cs ≠ [])
    (hmatch : isMatch (front ++ cs.map .literal ++ rest) path = true) : cs <:+: path.toList := by
  obtain ⟨r, hr | ⟨-, hr⟩, -⟩ := exists_of_isMatch h hne hmatch
  · exact hr ▸ (List.prefix_append cs r).isInfix
  · exact (List.prefix_append cs r).isInfix.trans ((List.suffix_cons '/' _).trans hr).isInfix

theorem infix_of_isMatch_between (h : IsLead lead front) (hne : cs ≠ [])
    (hmatch : isMatch (front ++ cs.map .literal ++ [.between, .run]) path = true) :
    cs ++ ['/'] <:+: path.toList := by
  obtain ⟨r, hr, hrest⟩ := exists_of_isMatch h hne hmatch
  obtain ⟨u, hu, -⟩ := mem_leftOfAll_cons.1 hrest
  obtain ⟨v, hv, -⟩ := mem_left_between.1 hu
  obtain ⟨r', rfl, -⟩ := encode_append_eq_encode.1 (show encode ['/'] ++ v = encode r from hv.symm)
  have hpre : cs ++ ['/'] <+: cs ++ (['/'] ++ r') := by
    rw [← List.append_assoc]
    exact List.prefix_append _ r'
  rcases hr with hr | ⟨-, hr⟩
  · exact hr ▸ hpre.isInfix
  · exact hpre.isInfix.trans ((List.suffix_cons '/' _).trans hr).isInfix

end Glob

namespace Ignore

open Glob (AreLiteral IsLead)

/-- A literal rule: a slash if it is bound, plain characters, stars, and a slash if it is for
directories only. -/
def literalRule (bound : Bool) (body : List Char) (stars : Nat) (directoriesOnly : Bool) :
    List Char :=
  (if bound then ['/'] else []) ++ (body ++ List.replicate stars '*') ++
    if directoriesOnly then ['/'] else []

/-- Whether characters are the plain ones of a literal rule: the slashes around them are not
theirs. -/
structure IsBody (body : List Char) (stars : Nat) : Prop where
  literal : AreLiteral body
  ne_nil : body ≠ []
  head : body.head? ≠ some '/'
  last : stars = 0 → body.getLast? ≠ some '/'

variable {body line : List Char} {stars : Nat} {bound directoriesOnly : Bool} {r : Rule}

theorem IsBody.getLast?_ne (h : IsBody body stars) :
    (body ++ List.replicate stars '*').getLast? ≠ some '/' := by
  cases stars with
  | zero => simpa using h.last rfl
  | succ n =>
    rw [List.replicate_succ', ← List.append_assoc, List.getLast?_concat]
    decide

namespace Rule

theorem leader_literalRule (bound directoriesOnly : Bool) (h : IsBody body stars) :
    (leader (literalRule bound body stars directoriesOnly)).1 = true ∨
      leader (literalRule bound body stars directoriesOnly) =
        (false, bound, body ++ List.replicate stars '*' ++ if directoriesOnly then ['/'] else []) := by
  cases bound with
  | true => exact .inr rfl
  | false =>
    obtain ⟨c, cs, rfl⟩ := List.exists_cons_of_ne_nil h.ne_nil
    have hslash : c ≠ '/' := fun hc => h.head (congrArg some hc)
    have hback : c ≠ '\\' := fun hc => h.literal c List.mem_cons_self (by rw [hc]; decide)
    have hrule : literalRule false (c :: cs) stars directoriesOnly = c :: (cs ++
        List.replicate stars '*' ++ if directoriesOnly then ['/'] else []) := rfl
    rw [hrule]
    unfold leader
    split
    · rename_i heq
      exact absurd (List.cons.inj heq).1 hback
    · rename_i heq
      exact absurd (List.cons.inj heq).1 hback
    · exact .inl rfl
    · exact .inl rfl
    · rename_i heq
      exact absurd (List.cons.inj heq).1 hslash
    · exact .inr rfl

theorem trailer_literal (h : IsBody body stars) :
    trailer (body ++ List.replicate stars '*' ++ if directoriesOnly then ['/'] else []) =
      (directoriesOnly, body ++ List.replicate stars '*') := by
  have hback : (body ++ List.replicate stars '*').getLast? ≠ some '\\' := by
    intro hlast
    rcases List.mem_append.1 (List.mem_of_getLast? hlast) with hmem | hmem
    · exact h.literal _ hmem (by decide)
    · exact absurd (List.eq_of_mem_replicate hmem) (by decide)
  unfold trailer
  cases directoriesOnly with
  | false => rw [if_neg Bool.false_ne_true, List.append_nil, if_neg h.getLast?_ne]
  | true =>
    rw [if_pos rfl, List.getLast?_concat, if_pos rfl, List.dropLast_concat]
    dsimp only
    rw [if_neg hback]

/-- What the rule of a line is made of. -/
theorem ofLine?_eq_some (h : ofLine? line = some r) :
    line.head? ≠ some '#' ∧ trimLine line ≠ [] ∧ r.reincludes = (leader (trimLine line)).1 ∧
      Glob.parse .ignore (String.ofList (descend (float (leader (trimLine line)).2.1
        (trailer (leader (trimLine line)).2.2).2))) = .ok r.pieces := by
  unfold ofLine? at h
  dsimp only at h
  split_ifs at h with hnone
  rw [Bool.or_eq_true, decide_eq_true_eq, List.isEmpty_iff, not_or] at hnone
  split at h
  · rename_i pieces hpieces
    obtain rfl := Option.some.inj h
    exact ⟨hnone.1, hnone.2, rfl, hpieces⟩
  · cases h

/-- The pieces of a literal rule. -/
theorem parse_of_ofLine? (hbody : IsBody body stars)
    (htrim : trimLine line = literalRule bound body stars directoriesOnly)
    (h : ofLine? line = some r) (hr : r.reincludes = false) :
    Glob.parse .ignore (String.ofList (descend (float bound (body ++ List.replicate stars '*')))) =
      .ok r.pieces := by
  obtain ⟨-, -, hreincludes, hpieces⟩ := ofLine?_eq_some h
  rw [htrim] at hreincludes hpieces
  rcases leader_literalRule bound directoriesOnly hbody with hback | hleader
  · rw [← hreincludes, hr] at hback
    cases hback
  · rwa [hleader, trailer_literal hbody] at hpieces

theorem exists_isLead_float (bound : Bool) (s : List Char) : ∃ lead front, IsLead lead front ∧
    float bound s = lead ++ s ∧ ('/' ∈ s → front = []) := by
  unfold float
  split_ifs with hfloat
  · exact ⟨[], [], .none, rfl, fun _ => rfl⟩
  · refine ⟨_, [.leading], .leading, rfl, fun hs => absurd ?_ hfloat⟩
    simp [hs]

/-- A rule ends with `/**` if a slash stands in front of just two stars. -/
theorem descend_stars (hbody : IsBody body stars) (lead : List Char) :
    descend (lead ++ body ++ List.replicate stars '*') =
      if body.getLast? = some '/' ∧ stars = 2 then
        lead ++ body ++ List.replicate stars '*' ++ ['/', '*']
      else lead ++ body ++ List.replicate stars '*' := by
  obtain ⟨init, c, rfl⟩ := (List.eq_nil_or_concat body).resolve_left hbody.ne_nil
  rw [List.concat_eq_append] at hbody ⊢
  have hc : c ≠ '*' := fun hc => hbody.literal c (by simp) (by rw [hc]; decide)
  have hends : ['/', '*', '*'].isSuffixOf (lead ++ (init ++ [c]) ++ List.replicate stars '*') = true ↔
      (init ++ [c]).getLast? = some '/' ∧ stars = 2 := by
    have hreverse : (lead ++ (init ++ [c]) ++ List.replicate stars '*').reverse =
        List.replicate stars '*' ++ c :: (lead ++ init).reverse := by simp
    unfold List.isSuffixOf
    rw [List.getLast?_concat, Option.some.injEq, hreverse]
    show ['*', '*', '/'].isPrefixOf _ = true ↔ _
    generalize (lead ++ init).reverse = back
    obtain _ | _ | _ | n := stars
    · simp [List.isPrefixOf, hc.symm]
    · simp [List.replicate_succ, List.isPrefixOf, hc.symm]
    · simp [List.replicate_succ, List.isPrefixOf, @eq_comm _ '/' c]
    · simp [List.replicate_succ, List.isPrefixOf]
  unfold descend
  exact if_congr hends rfl rfl

/-- **What a literal rule matches.** -/
theorem isMatch_literal (hbody : IsBody body stars)
    (htrim : trimLine line = literalRule bound body stars directoriesOnly)
    (h : ofLine? line = some r) (hr : r.reincludes = false) {path : String} {isDirectory : Bool}
    (hmatch : r.isMatch path isDirectory = true) :
    (stars = 0 → path.toList = body ∨ '/' ∉ body ∧ '/' :: body <:+ path.toList) ∧
      (0 < stars → body <:+: path.toList) := by
  have hparse := parse_of_ofLine? hbody htrim h hr
  obtain ⟨lead, front, hlead, hfloat, hfront⟩ :=
    exists_isLead_float bound (body ++ List.replicate stars '*')
  rw [hfloat, ← List.append_assoc, descend_stars hbody] at hparse
  unfold isMatch at hmatch
  rw [Bool.and_eq_true] at hmatch
  split_ifs at hparse with hslash
  · obtain ⟨hlast, rfl⟩ := hslash
    obtain ⟨init, hinit⟩ := List.getLast?_eq_some_iff.1 hlast
    obtain rfl := hinit
    have hne : init ≠ [] := by
      rintro rfl
      exact hbody.head rfl
    have hpieces := Glob.parse_slash_stars hlead
      (fun c hc => hbody.literal c (List.mem_append_left _ hc) : AreLiteral init)
    have htext : lead ++ (init ++ ['/']) ++ List.replicate 2 '*' ++ ['/', '*'] =
        lead ++ (init ++ ['/']) ++ ['*', '*', '/', '*'] := by simp
    rw [htext] at hparse
    rw [Except.ok.inj (hparse.symm.trans hpieces)] at hmatch
    exact ⟨fun h0 => absurd h0 (by decide), fun _ => Glob.infix_of_isMatch_between hlead hne hmatch.2⟩
  · have hpieces := Glob.parse_stars hlead hbody.literal hbody.ne_nil (not_and_or.1 hslash)
    rw [hpieces] at hparse
    rw [← Except.ok.inj hparse] at hmatch
    refine ⟨fun h0 => ?_, fun _ => Glob.infix_of_isMatch hlead hbody.ne_nil hmatch.2⟩
    rw [h0, List.replicate_zero, List.append_nil] at hmatch
    refine (Glob.eq_of_isMatch hlead hbody.ne_nil hmatch.2).imp_right fun ⟨hfloats, hsuffix⟩ => ?_
    refine ⟨fun hmem => ?_, hsuffix⟩
    rw [hfront (List.mem_append_left _ hmem)] at hfloats
    cases hfloats

end Rule

end Ignore
end ReleaseLint
