/-
# Patterns that are derived from others

What is looked for is written behind a configured pattern once it is cleaned: the name of a file
that marks a directory, or a star with an ending.  `Extends m s x` says that `x` is the pattern `m`
with the name `s` behind it, both cleaned, whether `m` is written from the root or not.

| `m` | `s` | tail of `x` | base of `x` |
| --- | --- | --- | --- |
| has a wildcard | any | that of `m`, and `s` | that of `m` |
| has none | has a wildcard | `s` | that of `m` |
| has none | has none | nothing | that of `m`, and `s` |

So what `x` finds is known from the base and the tail of `m` (`Extends.globTail_eq`,
`Extends.literalBase_eq`, `Extends.literalBase_of_plain`).
-/

import ReleaseLint.Proofs.Except
import ReleaseLint.Proofs.Glob.Walk
import ReleaseLint.Proofs.Path.Derived
import ReleaseLint.Proofs.Tree.Making

namespace ReleaseLint
namespace Glob

open Path (ofNames ofSegments cleanSegments AreClean)
open Segment (IsName)

variable {w : Workspace} {f : Filter} {m x y s stem : String} {lead : Names} {p : Path}
variable {segments : List Segment} {found found' : List Path} {e e' : List Char} {c : Char}

/-! ### Base and tail -/

/-- Of a pattern only the clean segments count. -/
theorem globTail_clean (m : String) :
    globTail m = (split (cleanSegments (Path.mk m).segments)).2 := by
  unfold globTail
  by_cases h : cleanSegments (Path.mk m).segments = []
  · rw [Path.clean_eq, h, if_pos rfl]
    decide
  · rw [Path.segments_clean_of_ne_nil h]

theorem literalBase_clean (w : Workspace) (m : String) :
    literalBase w m = w.absolutize (baseOf (split (cleanSegments (Path.mk m).segments)).1) := by
  unfold literalBase
  by_cases h : cleanSegments (Path.mk m).segments = []
  · rw [Path.clean_eq, h, if_pos rfl]
    exact congrArg w.absolutize (show _ = _ by decide)
  · rw [Path.segments_clean_of_ne_nil h]

theorem fst_split_of_snd (h : (split segments).2 = []) : (split segments).1 = segments := by
  have hnone : segments.dropWhile (fun s => !isPattern s.text) = [] := List.map_eq_nil_iff.1 h
  have hall := List.takeWhile_append_dropWhile (p := fun s : Segment => !isPattern s.text)
    (l := segments)
  rwa [hnone, List.append_nil] at hall

theorem split_concat (segments : List Segment) (a : Segment) : split (segments ++ [a]) =
    if (split segments).2 = [] then
      if isPattern a.text then (segments, [a.text]) else (segments ++ [a], [])
    else ((split segments).1, (split segments).2 ++ [a.text]) := by
  unfold split
  by_cases h : segments.dropWhile (fun s => !isPattern s.text) = []
  · have hall : ∀ s ∈ segments, (!isPattern s.text) = true := List.dropWhile_eq_nil_iff.1 h
    rw [List.takeWhile_append_of_pos hall, List.dropWhile_append_of_pos hall, h, List.map_nil,
      if_pos rfl]
    cases hp : isPattern a.text with
    | true => simp [hp]
    | false => simp [hp]
  · rw [if_neg (by simpa using h)]
    obtain ⟨b, r, hr⟩ := List.exists_cons_of_ne_nil h
    have hsplit := List.takeWhile_append_dropWhile (p := fun s : Segment => !isPattern s.text)
      (l := segments)
    have hb : ¬(!isPattern b.text) = true := by
      have := List.head?_dropWhile_not (fun s : Segment => !isPattern s.text) segments
      rw [hr] at this
      simpa using this
    have hfront : ∀ s ∈ segments.takeWhile (fun s => !isPattern s.text), (!isPattern s.text) = true :=
      fun s hs => List.mem_takeWhile_imp (p := fun s : Segment => !isPattern s.text) hs
    rw [hr] at hsplit ⊢
    conv_lhs => rw [← hsplit, List.append_assoc, List.takeWhile_append_of_pos hfront,
      List.dropWhile_append_of_pos hfront, List.cons_append,
      List.takeWhile_cons_of_neg (p := fun s : Segment => !isPattern s.text) hb,
      List.dropWhile_cons_of_neg (p := fun s : Segment => !isPattern s.text) hb, List.append_nil]
    simp

/-- Whether the pattern `x` is the pattern `m` with the name `s` behind it, both cleaned. -/
structure Extends (m s x : String) : Prop where
  isName : IsName s
  segments : cleanSegments (Path.mk x).segments = cleanSegments (Path.mk m).segments ++ [.name s]

namespace Extends

/-- Where there is a wildcard, the name stands in the tail. -/
theorem globTail_eq (h : Extends m s x) (hp : globTail m ≠ [] ∨ isPattern s = true) :
    globTail x = globTail m ++ [s] := by
  have hs : (Segment.name s).text = s := rfl
  rw [globTail_clean m] at hp
  rw [globTail_clean x, globTail_clean m, h.segments, split_concat, hs]
  split_ifs with hnil hpattern
  · rw [hnil, List.nil_append]
  · exact absurd (hp.resolve_left (not_not_intro hnil)) hpattern
  · rfl

theorem literalBase_eq (h : Extends m s x) (hp : globTail m ≠ [] ∨ isPattern s = true) :
    literalBase w x = literalBase w m := by
  have hs : (Segment.name s).text = s := rfl
  rw [globTail_clean m] at hp
  rw [literalBase_clean w x, literalBase_clean w m, h.segments, split_concat, hs]
  split_ifs with hnil hpattern
  · rw [fst_split_of_snd hnil]
  · exact absurd (hp.resolve_left (not_not_intro hnil)) hpattern
  · rfl

/-- Where there is none, the name stands in the base. -/
theorem globTail_of_plain (h : Extends m s x) (hm : globTail m = []) (hs : isPattern s = false) :
    globTail x = [] := by
  have hs' : (Segment.name s).text = s := rfl
  rw [globTail_clean m] at hm
  rw [globTail_clean x, h.segments, split_concat, hs', if_pos hm, hs, if_neg Bool.false_ne_true]

theorem literalBase_of_plain (hw : w.directory.isAbsolute = true) (h : Extends m s x)
    (hm : globTail m = []) (hs : isPattern s = false) (hlead : AreNames lead)
    (hbase : literalBase w m = ofNames lead) : literalBase w x = ofNames (lead ++ [s]) := by
  have hs' : (Segment.name s).text = s := rfl
  rw [globTail_clean m] at hm
  rw [literalBase_clean w m, fst_split_of_snd hm] at hbase
  rw [literalBase_clean w x, h.segments, split_concat, hs', if_pos hm, hs,
    if_neg Bool.false_ne_true]
  have hconcat : baseOf (cleanSegments (Path.mk m).segments ++ [.name s]) =
      ofSegments (cleanSegments (Path.mk m).segments) / s := by
    unfold baseOf
    rw [if_neg (by simp)]
    exact Path.along_concat ⟨""⟩ _ (.name s)
  rw [hconcat]
  by_cases hnil : cleanSegments (Path.mk m).segments = []
  · -- the pattern is a dot, and the base the directory that it is seen from
    rw [hnil] at hbase ⊢
    have hdirectory : w.directory.clean = ofNames lead :=
      (Path.clean_div_dot hw).symm.trans hbase
    have hname : ofSegments [] / s = ⟨s⟩ := if_pos (.inr rfl)
    rw [hname]
    exact Path.clean_div_name hdirectory hw hlead h.isName
  · have hbaseOf : baseOf (cleanSegments (Path.mk m).segments) =
        ofSegments (cleanSegments (Path.mk m).segments) := if_neg (by simpa using hnil)
    rw [hbaseOf] at hbase
    unfold Workspace.absolutize
    rw [show w.absolute (ofSegments (cleanSegments (Path.mk m).segments) / s) =
      w.absolute (ofSegments (cleanSegments (Path.mk m).segments)) / s from
      Path.absolute_div w _ (x := .name s) h.isName]
    exact Path.clean_div_name hbase (Path.isAbsolute_div hw _) hlead h.isName

end Extends

/-! ### What is found -/

/-- What a pattern stands for, seen from its base. -/
structure IsHit (w : Workspace) (f : Filter) (base p : Path) (names : Names) : Prop where
  areNames : AreNames names
  path : p = pathBelow base names
  visible : ∀ s ∈ names, s.toList.head? ≠ some '.'
  kept : f.ignores w p = false
  isFile : f.filesOnly = true → ∃ n, w.tree.node p = .ok n ∧ n.isFile = true

theorem isHit_of_mem_matchesBelow (ht : w.tree.IsSound) (hlead : AreNames lead)
    {tail : List String} {ps : List Piece} (hp : p ∈ matchesBelow w f (ofNames lead) tail ps) :
    ∃ names, names ≠ [] ∧ IsHit w f (ofNames lead) p names := by
  obtain ⟨top, names, node, htop, hbelow, hlisted, -, -, rfl⟩ := mem_matchesBelow.1 hp
  obtain ⟨hnames, hne⟩ := areNames_below ht.named hbelow
  rw [isListed, Bool.and_eq_true, Bool.and_eq_true, Bool.not_eq_true'] at hlisted
  obtain ⟨⟨hfile, hvisited⟩, hkept⟩ := hlisted
  refine ⟨names, hne, hnames, rfl, visible_of_isVisited hvisited, hkept, fun hf => ?_⟩
  rw [hf] at hfile
  obtain ⟨hlocate, hfind⟩ := ht.locate_below (hlead.append hnames) htop hbelow fun target he => by
    rw [he] at hfile
    cases hfile
  rw [pathBelow_ofNames]
  exact ⟨node, Tree.node_eq_ok.2 ⟨_, hlocate, hfind⟩, hfile⟩

/-- **What a pattern stands for** is its base, or stands below it if it has a wildcard. -/
theorem isHit_of_mem_expand (hw : w.directory.isAbsolute = true) (ht : w.tree.IsSound)
    (h : expand w f m = .ok found) (hp : p ∈ found) :
    ∃ names, (names = [] ↔ globTail m = []) ∧ IsHit w f (literalBase w m) p names := by
  obtain ⟨lead, hlead, hbase⟩ := exists_literalBase_eq hw m
  by_cases htail : globTail m = []
  · refine ⟨[], iff_of_true rfl htail, ?_⟩
    rw [expand_of_plain htail h] at hp
    split_ifs at hp with hkept
    · rw [Bool.and_eq_true, Bool.and_eq_true, Bool.not_eq_true'] at hkept
      rw [List.mem_singleton.1 hp]
      refine ⟨fun s hs => absurd hs List.not_mem_nil, (pathBelow_nil _).symm, fun s hs => absurd hs List.not_mem_nil,
        hkept.2, fun hf => ?_⟩
      rw [hf] at hkept
      rw [hbase] at hkept ⊢
      exact Workspace.exists_node_of_hasFile hlead hkept.1.2
    · exact absurd hp List.not_mem_nil
  · rcases expand_eq_ok htail h with ⟨-, hnone⟩ | ⟨-, ps, -, hall⟩
    · rw [hnone] at hp
      exact absurd hp List.not_mem_nil
    · rw [hall, hbase] at hp
      obtain ⟨names, hne, hfound⟩ := isHit_of_mem_matchesBelow ht hlead hp
      exact ⟨names, iff_of_false hne htail, hbase ▸ hfound⟩

/-- What is found, seen from the root. -/
theorem IsHit.exists_ofNames {names : Names} (h : IsHit w f (literalBase w m) p names)
    (hw : w.directory.isAbsolute = true) :
    ∃ lead, AreNames (lead ++ names) ∧ p = ofNames (lead ++ names) := by
  obtain ⟨lead, hlead, hbase⟩ := exists_literalBase_eq hw m
  refine ⟨lead, hlead.append h.areNames, ?_⟩
  rw [h.path, hbase, pathBelow_ofNames]

namespace Extends

/-- What a pattern without wildcards stands for has its last name. -/
theorem fileName?_of_plain (hw : w.directory.isAbsolute = true) (hx : Extends m s x)
    (hm : globTail m = []) (hs : isPattern s = false) (h : expand w f x = .ok found)
    (hp : p ∈ found) : p.fileName? = some s := by
  obtain ⟨lead, hlead, hbase⟩ := exists_literalBase_eq hw m
  rw [expand_of_plain (hx.globTail_of_plain hm hs) h,
    hx.literalBase_of_plain hw hm hs hlead hbase] at hp
  split_ifs at hp
  · rw [List.mem_singleton.1 hp]
    exact Path.fileName?_ofNames (hlead.concat hx.isName)
  · exact absurd hp List.not_mem_nil

/-- **What a pattern finds ends as its last name does,** if that ends with plain characters. -/
theorem endsWith_of_mem (hw : w.directory.isAbsolute = true) (ht : w.tree.IsSound)
    (hx : Extends m s x) (he : IsEnding (c :: e)) (hclass : ']' ∉ c :: e)
    (hs : c :: e <:+ s.toList) (h : expand w f x = .ok found) (hp : p ∈ found) :
    EndsWith p (c :: e) := by
  by_cases hpattern : globTail m ≠ [] ∨ isPattern s = true
  · have htail := hx.globTail_eq hpattern
    obtain ⟨lead, hlead, hbase⟩ := exists_literalBase_eq hw x
    rcases expand_eq_ok (by rw [htail]; simp) h with ⟨-, hnone⟩ | ⟨-, ps, hps, hall⟩
    · rw [hnone] at hp
      exact absurd hp List.not_mem_nil
    · rw [htail] at hps
      rw [hall, hbase, htail] at hp
      exact endsWith_of_mem_matchesBelow ht.named hlead he hclass hs hps hp
  · rw [not_or, not_not, Bool.not_eq_true] at hpattern
    exact ⟨s, hx.fileName?_of_plain hw hpattern.1 hpattern.2 h hp, hs⟩

/-- A plain name behind a pattern is the name of all that is found. -/
theorem fileName?_of_mem (hw : w.directory.isAbsolute = true) (ht : w.tree.IsSound)
    (hx : Extends m s x) (he : IsEnding s.toList) (hclass : ']' ∉ s.toList)
    (hs : isPattern s = false) (h : expand w f x = .ok found) (hp : p ∈ found) :
    p.fileName? = some s := by
  by_cases hm : globTail m = []
  · exact hx.fileName?_of_plain hw hm hs h hp
  · have htail := hx.globTail_eq (.inl hm)
    obtain ⟨lead, hlead, hbase⟩ := exists_literalBase_eq hw x
    rcases expand_eq_ok (by rw [htail]; simp) h with ⟨-, hnone⟩ | ⟨-, ps, hps, hall⟩
    · rw [hnone] at hp
      exact absurd hp List.not_mem_nil
    · rw [htail] at hps
      rw [hall, hbase, htail] at hp
      exact fileName?_of_mem_matchesBelow ht.named hlead hm he hclass (Segment.isName_iff.1 hx.isName).2.1 hps hp

/-- What climbs is the front of a pattern. -/
theorem climbs_eq (h : Extends m s x) :
    climbs x = ((cleanSegments (Path.mk m).segments).head? == some .parent) := by
  unfold climbs
  rw [Path.segments_clean_of_ne_nil (by rw [h.segments]; exact List.concat_ne_nil _ _), h.segments]
  cases cleanSegments (Path.mk m).segments with
  | nil => rfl
  | cons a r => rfl

/-- Whatever its ending, a star behind a pattern is searched for if one is. -/
theorem exists_expand_star (hx : Extends m (star e) (stem ++ "/" ++ star e))
    (hy : Extends m (star e') (stem ++ "/" ++ star e')) (he : IsEnding e) (hclass : ']' ∉ e)
    (he' : IsEnding e') (h : expand w f (stem ++ "/" ++ star e) = .ok found) :
    ∃ found', expand w f (stem ++ "/" ++ star e') = .ok found' := by
  have hwild (e : List Char) : isPattern (star e) = true := isPattern_star e
  have htail := hx.globTail_eq (.inr (hwild e))
  have htail' := hy.globTail_eq (.inr (hwild e'))
  obtain ⟨hcheck, hparse⟩ := (exists_expand_iff (by rw [htail]; simp)).1 ⟨found, h⟩
  obtain ⟨⟨ps, hps⟩, hclimbs⟩ := check_eq_ok.1 hcheck
  refine (exists_expand_iff (by rw [htail']; simp)).2 ⟨check_eq_ok.2 ⟨?_, ?_⟩, fun hdir => ?_⟩
  · have htext (e : List Char) :
        stem ++ "/" ++ star e = String.ofList (stem.toList ++ '/' :: (star e).toList) := by
      rw [← String.toList_inj]
      simp
    rw [htext] at hps ⊢
    obtain ⟨z, hz, -⟩ := Reading.exists_isBehind (.inr ⟨_, isFlat_star he hclass, rfl⟩) hps
    rw [List.append_cons, toList_star]
    exact ⟨_, hz.parse_star he'.plain⟩
  · rw [hy.climbs_eq, ← hx.climbs_eq, hclimbs]
  · rw [hy.literalBase_eq (.inr (hwild e')), ← hx.literalBase_eq (.inr (hwild e))] at hdir
    rw [htail] at hparse
    rw [htail']
    obtain ⟨ps, hps⟩ := hparse hdir
    exact exists_parse_star he he' hclass hps

/-- **A star with an ending behind a pattern finds what a star finds and has the ending.** -/
theorem mem_expand_star (hw : w.directory.isAbsolute = true) (ht : IsNamed w.tree)
    (hx : Extends m (star []) x) (hy : Extends m (star e) y) (he : IsEnding e)
    (h : expand w f x = .ok found) (h' : expand w f y = .ok found') :
    p ∈ found' ↔ p ∈ found ∧ EndsWith p e := by
  have htail := hx.globTail_eq (.inr (isPattern_star []))
  have htail' := hy.globTail_eq (.inr (isPattern_star e))
  have hbase : literalBase w x = literalBase w y :=
    (hx.literalBase_eq (.inr (isPattern_star []))).trans
      (hy.literalBase_eq (.inr (isPattern_star e))).symm
  rcases expand_cases hbase (by rw [htail]; simp) (by rw [htail']; simp) h h' with
    ⟨hnone, hnone'⟩ | ⟨ps, qs, hps, hqs, hall, hall'⟩
  · rw [hnone, hnone']
    simp
  · obtain ⟨lead, hlead, hx⟩ := exists_literalBase_eq hw x
    rw [htail] at hps
    rw [htail'] at hqs
    rw [hall, hall', hx, htail, htail']
    exact mem_matchesBelow_star ht hlead he hps hqs

/-- **A star behind two stars finds what they find.** -/
theorem mem_expand_stars (hx : Extends m "**" x) (hy : Extends x (star []) y)
    (h : expand w f x = .ok found) (h' : expand w f y = .ok found') : p ∈ found' ↔ p ∈ found := by
  have htail : globTail x = globTail m ++ ["**"] := hx.globTail_eq (.inr (by decide))
  have htail' := hy.globTail_eq (.inr (isPattern_star []))
  have hbase : literalBase w x = literalBase w y :=
    (hy.literalBase_eq (.inr (isPattern_star []))).symm
  rcases expand_cases hbase (by rw [htail]; simp) (by rw [htail']; simp) h h' with
    ⟨hnone, hnone'⟩ | ⟨ps, qs, hps, hqs, hall, hall'⟩
  · rw [hnone, hnone']
  · rw [htail] at hps
    rw [htail', htail] at hqs
    rw [hall, hall', htail', htail]
    exact mem_matchesBelow_stars hps hqs

end Extends

/-! ### Which patterns are derived -/

/-- A name that is written behind a clean pattern. -/
theorem extends_clean (m : String) (hs : IsName s) :
    Extends m s (Text.dropEnd (· == '/') (Path.mk m).clean.text ++ "/" ++ s) := by
  refine ⟨hs, ?_⟩
  rw [Path.div_of_clean (Path.clean_clean _) hs,
    show ((Path.mk m).clean / s).segments = (Path.mk m).clean.segments ++ [.name s] from
      Path.segments_div _ (x := .name s) hs, Path.cleanSegments_concat_name,
    Path.cleanSegments_clean]

theorem globTail_text_clean (m : String) : globTail (Path.mk m).clean.text = globTail m := by
  rw [globTail_clean, globTail_clean m]
  exact congrArg (fun segments => (split segments).2) (Path.cleanSegments_clean ⟨m⟩)

theorem literalBase_text_clean (w : Workspace) (m : String) :
    literalBase w (Path.mk m).clean.text = literalBase w m := by
  rw [literalBase_clean, literalBase_clean w m]
  exact congrArg (fun segments => w.absolutize (baseOf (split segments).1))
    (Path.cleanSegments_clean ⟨m⟩)

/-- The last name of a clean pattern stands behind what is written before it. -/
theorem exists_extends_of_fileName (h : (Path.mk m).clean.fileName? = some s) :
    ∃ q, Extends q s m ∧ (q ≠ "" → (Path.mk q).clean = ⟨q⟩) ∧ (Path.mk m).clean = Path.mk q / s := by
  have hclean := Path.clean_eq ⟨m⟩
  obtain ⟨floor, names, hfloor, hnames, hsegments⟩ := Path.areClean_cleanSegments ⟨m⟩
  have hne : cleanSegments (Path.mk m).segments ≠ [] := by
    intro hnil
    rw [hclean, if_pos hnil] at h
    cases h
  unfold Path.fileName? at h
  rw [Path.segments_clean_of_ne_nil hne, hsegments] at h
  rw [if_neg hne, hsegments] at hclean
  rcases List.eq_nil_or_concat names with rfl | ⟨init, t, rfl⟩
  · -- only dots or a root
    rcases hfloor with rfl | ⟨_ | n, rfl⟩
    · cases h
    · cases h
    · rw [List.map_nil, List.append_nil, List.replicate_succ', List.getLast?_concat] at h
      cases h
  · rw [List.concat_eq_append] at hnames hsegments hclean h
    rw [List.map_append, List.map_singleton, ← List.append_assoc] at hsegments hclean h
    rw [List.getLast?_concat] at h
    obtain rfl := Option.some.inj h
    have hfront : AreClean (floor ++ init.map .name) := ⟨floor, init, hfloor, hnames.left, rfl⟩
    have hq : cleanSegments (Path.mk (ofSegments (floor ++ init.map .name)).text).segments =
        floor ++ init.map .name := by
      show cleanSegments (ofSegments _).segments = _
      rw [hfront.segments_ofSegments, hfront.cleanSegments_eq]
    refine ⟨(ofSegments (floor ++ init.map .name)).text, ⟨hnames.last, by rw [hsegments, hq]⟩,
      fun hempty => ?_, ?_⟩
    · have hnil : floor ++ init.map Segment.name ≠ [] := fun he => hempty (by rw [he]; rfl)
      rw [Path.clean_eq, hq, if_neg hnil]
    · rw [hclean]
      exact Path.along_concat ⟨""⟩ _ (.name t)

/-- A clean pattern has a last name if it ends neither with a dot nor with a slash. -/
theorem exists_fileName_of_getLast {c : Char}
    (hlast : (Path.mk m).clean.text.toList.getLast? = some c) (hdot : c ≠ '.') (hslash : c ≠ '/') :
    ∃ s, (Path.mk m).clean.fileName? = some s := by
  obtain ⟨floor, names, hfloor, hnames, hsegments⟩ := Path.areClean_cleanSegments ⟨m⟩
  rw [Path.clean_eq, hsegments] at hlast ⊢
  rcases List.eq_nil_or_concat names with rfl | ⟨init, s, rfl⟩
  · rcases hfloor with rfl | ⟨_ | n, rfl⟩
    · exact absurd (Option.some.inj hlast).symm hslash
    · exact absurd (Option.some.inj hlast).symm hdot
    · rw [List.map_nil, List.append_nil, if_neg (by simp), Path.ofSegments_eq_along,
        List.replicate_succ', Path.along_concat, Path.getLast?_text_div Segment.isStep_parent] at hlast
      exact absurd (Option.some.inj hlast).symm hdot
  · rw [List.concat_eq_append] at hnames ⊢
    rw [if_neg (by simp), List.map_append, List.map_singleton, ← List.append_assoc]
    exact ⟨s, (congrArg Path.fileName? (Path.along_concat ⟨""⟩ _ (.name s))).trans
      (Path.fileName?_div hnames.last)⟩

end Glob
end ReleaseLint
