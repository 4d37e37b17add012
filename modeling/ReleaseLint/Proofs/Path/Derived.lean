/-
# Clean paths with a name behind them

Cleaning a path leaves a clean one as it is (`clean_clean`), and cleaning it with one more name
behind it is cleaning it first (`clean_div_name`).  So a name that is written behind the text of a
clean path, with a slash between them, is one more segment (`div_of_clean`,
`segments_clean_div`), be the path a dot, the root or any other.

| clean path | with `/a` behind its text | cleaned |
| --- | --- | --- |
| `.` | `./a` | `a` |
| `/` | `/a` | `/a` |
| `../b` | `../b/a` | `../b/a` |
-/

import ReleaseLint.Proofs.Path.Clean
import ReleaseLint.Proofs.Text.Parts

namespace ReleaseLint
namespace Path

open Segment (IsName)

variable {p : Path} {segments : List Segment} {names : Names} {s : String}

/-! ### Clean lists of segments -/

theorem cleanSegments_concat_name (segments : List Segment) (s : String) :
    cleanSegments (segments ++ [.name s]) = cleanSegments segments ++ [.name s] := by
  unfold cleanSegments
  rw [List.foldl_append, List.foldl_cons, List.foldl_nil]
  exact List.reverse_cons

theorem AreClean.concat (h : AreClean segments) (hs : IsName s) : AreClean (segments ++ [.name s]) := by
  obtain ⟨floor, names, hfloor, hnames, rfl⟩ := h
  exact ⟨floor, names ++ [s], hfloor, hnames.concat hs, by simp⟩

/-- Cleaning leaves clean segments as they are. -/
theorem AreClean.cleanSegments_eq (h : AreClean segments) : cleanSegments segments = segments := by
  obtain ⟨floor, names, rfl | ⟨n, rfl⟩, -, rfl⟩ := h
  · exact cleanSegments_ofNames names
  · have hparents : (List.replicate n Segment.parent).foldl follow [] = List.replicate n .parent := by
      induction n with
      | zero => rfl
      | succ n ih =>
        rw [List.replicate_succ', List.foldl_append, ih, ← List.replicate_succ']
        cases n <;> rfl
    unfold cleanSegments
    rw [List.foldl_append, hparents, foldl_follow_names, List.reverse_append, List.map_reverse,
      List.reverse_reverse, List.reverse_replicate]

/-! ### Clean paths -/

/-- What cleaning leaves is a dot, or written by the clean segments. -/
theorem clean_eq (p : Path) :
    p.clean = if cleanSegments p.segments = [] then ⟨"."⟩ else ofSegments (cleanSegments p.segments) := by
  unfold clean
  cases cleanSegments p.segments with
  | nil => rfl
  | cons x r => rfl

theorem segments_clean_of_ne_nil (h : cleanSegments p.segments ≠ []) :
    p.clean.segments = cleanSegments p.segments := by
  rw [clean_eq, if_neg h, (areClean_cleanSegments p).segments_ofSegments]

/-- **A clean path is cleaned to itself.** -/
theorem cleanSegments_clean (p : Path) :
    cleanSegments p.clean.segments = cleanSegments p.segments := by
  by_cases h : cleanSegments p.segments = []
  · rw [clean_eq, h, if_pos rfl]
    decide
  · rw [segments_clean_of_ne_nil h, (areClean_cleanSegments p).cleanSegments_eq]

theorem clean_clean (p : Path) : p.clean.clean = p.clean := by
  rw [clean_eq p.clean, cleanSegments_clean, ← clean_eq]

theorem text_clean_ne_empty (p : Path) : p.clean.text ≠ "" := by
  intro h
  have hsegments : p.clean.segments = [] := by
    unfold segments
    rw [h]
    rfl
  by_cases hnil : cleanSegments p.segments = []
  · rw [clean_eq, if_pos hnil] at h
    exact absurd h (by decide)
  · rw [segments_clean_of_ne_nil hnil] at hsegments
    exact hnil hsegments

/-- Only the root ends with a slash. -/
theorem clean_eq_slash (h : p.clean.text.toList.getLast? = some '/') : p.clean = ⟨"/"⟩ := by
  rw [clean_eq] at h ⊢
  split_ifs at h ⊢ with hnil
  · exact absurd h (by decide)
  obtain ⟨floor, names, hfloor, hnames, heq⟩ := areClean_cleanSegments p
  rw [heq] at h hnil ⊢
  rw [ofSegments_eq_along] at h ⊢
  rcases List.eq_nil_or_concat names with rfl | ⟨init, s, rfl⟩
  · rcases hfloor with rfl | ⟨n, rfl⟩
    · rfl
    · obtain _ | n := n
      · exact absurd rfl hnil
      · rw [List.map_nil, List.append_nil, List.replicate_succ', along_concat] at h
        exact absurd h (getLast_text_div Segment.isStep_parent)
  · rw [List.concat_eq_append, List.map_append, List.map_singleton, ← List.append_assoc,
      along_concat] at h
    rw [List.concat_eq_append] at hnames
    exact absurd h (getLast_text_div (x := .name s) hnames.last)

/-- A slash and a name behind the text of a clean path are one more name. -/
theorem div_of_clean (hp : p.clean = p) (hs : IsName s) :
    ⟨Text.dropEnd (· == '/') p.text ++ "/" ++ s⟩ = p / s := by
  have hne := text_clean_ne_empty p
  rw [hp] at hne
  refine congrArg Path.mk (String.toList_inj.1 ?_)
  rw [String.toList_append, String.toList_append]
  refine Eq.trans ?_ (text_div_of_isStep (x := .name s) hs).symm
  rw [if_neg hne]
  by_cases hlast : p.text.toList.getLast? = some '/'
  · have hslash : p = ⟨"/"⟩ := by
      rw [← hp] at hlast ⊢
      exact clean_eq_slash hlast
    rw [if_pos hlast, hslash]
    rfl
  · rw [if_neg hlast, Text.dropEnd_eq_self hlast, List.append_assoc]
    rfl

/-- The last name decides how a path ends. -/
theorem suffix_text_div_iff {e : List Char} (hs : IsName s) (he : '/' ∉ e) :
    e <:+ (p / s).text.toList ↔ e <:+ s.toList := by
  have htext := text_div_of_isStep (a := p) (x := .name s) hs
  change (p / s).text.toList = _ at htext
  rw [htext]
  split_ifs with hempty hlast
  · exact Iff.rfl
  · obtain ⟨ys, hys⟩ := List.getLast?_eq_some_iff.1 hlast
    rw [hys, List.append_assoc]
    exact suffix_append_cons_iff he
  · exact suffix_append_cons_iff he

theorem fileName?_div (hs : IsName s) : (p / s).fileName? = some s := by
  unfold fileName?
  rw [show (p / s).segments = p.segments ++ [.name s] from segments_div p (x := .name s) hs,
    List.getLast?_concat]

/-- A path from the root ends with its last name. -/
theorem exists_eq_concat (h : AreNames names) (hs : (ofNames names).fileName? = some s) :
    ∃ init, names = init ++ [s] := by
  rcases List.eq_nil_or_concat names with rfl | ⟨init, t, rfl⟩
  · cases hs
  · rw [List.concat_eq_append] at h hs ⊢
    rw [fileName?_ofNames h] at hs
    exact ⟨init, by rw [Option.some.inj hs]⟩

/-- **A name behind a path stays there when both are cleaned.** -/
theorem segments_clean_div (p : Path) (hs : IsName s) :
    (p / s).clean.segments = cleanSegments p.segments ++ [.name s] := by
  have hsegments : cleanSegments (p / s).segments = cleanSegments p.segments ++ [.name s] := by
    rw [show (p / s).segments = p.segments ++ [.name s] from segments_div p (x := .name s) hs,
      cleanSegments_concat_name]
  rw [segments_clean_of_ne_nil (by rw [hsegments]; exact List.concat_ne_nil _ _), hsegments]

/-- **Cleaning an absolute path and a name behind it.** -/
theorem clean_div_name (h : p.clean = ofNames names) (habsolute : p.isAbsolute = true)
    (hnames : AreNames names) (hs : IsName s) : (p / s).clean = ofNames (names ++ [s]) := by
  obtain ⟨more, hmore, hclean⟩ := exists_clean_eq_ofNames (isAbsolute_div habsolute s)
  have hsegments := segments_clean_div p hs
  have hp : cleanSegments p.segments = .root :: names.map .name := by
    rw [← cleanSegments_clean, h, segments_ofNames hnames, cleanSegments_ofNames]
  rw [hclean, segments_ofNames hmore, hp, List.cons_append, List.cons.injEq] at hsegments
  have hsame : more = names ++ [s] := by
    refine List.map_injective_iff.2 (fun _ _ => Segment.name.inj) ?_
    rw [hsegments.2, List.map_append]
    rfl
  rw [hclean, hsame]

/-- A dot behind an absolute path is dropped. -/
theorem clean_div_dot (h : p.isAbsolute = true) : (p / ".").clean = p.clean := by
  have hne : p.text ≠ "" := by
    intro he
    unfold isAbsolute at h
    rw [he] at h
    cases h
  have hsegments : (p / ".").segments = p.segments := by
    rw [segments_div_text hne (by decide), show steps "." = [] by decide, List.append_nil]
  unfold clean
  rw [hsegments]

/-- More names make a path no shorter. -/
theorem size_ofNames_le {more : Names} (h : AreNames (names ++ more)) :
    (ofNames names).text.utf8ByteSize ≤ (ofNames (names ++ more)).text.utf8ByteSize := by
  obtain ⟨r, hr⟩ : ∃ r, (ofNames (names ++ more)).text.toList = (ofNames names).text.toList ++ r := by
    rw [text_ofNames h, text_ofNames h.left]
    split_ifs with hboth hnames hnames
    · exact ⟨[], rfl⟩
    · exact absurd (List.append_eq_nil_iff.1 hboth).1 hnames
    · obtain ⟨s, rest, rfl⟩ := List.exists_cons_of_ne_nil (show more ≠ [] by
        rintro rfl
        exact hboth (by rw [hnames, List.append_nil]))
      exact ⟨s.toList ++ slashed rest, by simp [hnames, slashed]⟩
    · exact ⟨slashed more, by simp [slashed]⟩
  have htext : (ofNames (names ++ more)).text = (ofNames names).text ++ String.ofList r := by
    rw [← String.toList_inj, String.toList_append, hr, String.toList_ofList]
  rw [htext, String.utf8ByteSize_append]
  exact Nat.le_add_right _ _

end Path
end ReleaseLint
