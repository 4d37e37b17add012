/-
# The canonical form of a path

A path leads from a directory to a place, one segment after the other (`placeFrom`).  Cleaning
keeps that place from wherever one starts, and paths that lead to the same place from everywhere
are cleaned to the same text (`clean_eq_clean_iff`).

| segment | leads from `/a/b` to |
| --- | --- |
| the root | `/` |
| `.` | `/a/b` |
| `..` | `/a`, and from `/` to `/` |
| `c` | `/a/b/c` |

So equations between cleaned paths are equations between places.  A joined path leads to where its
second part leads from the place of the first (`placeFrom_div`), and therefore both parts may be
cleaned before they are joined.
-/

import ReleaseLint.Proofs.Path.Derived
import Mathlib.Algebra.Order.BigOperators.Group.List
import Mathlib.Algebra.Order.Group.Nat

namespace ReleaseLint
namespace Path

open Segment (IsName)

variable {p a b : Path} {segments : List Segment} {names start : Names}

/-! ### Places -/

/-- The directory to which one segment leads: a parent leaves the last name, and stays at the
root. -/
def enter (here : Names) : Segment → Names
  | .root => []
  | .here => here
  | .parent => here.dropLast
  | .name s => here ++ [s]

/-- The place to which a path leads from the directory at some names. -/
def placeFrom (p : Path) (start : Names) : Names :=
  p.segments.foldl enter start

/-- One more segment leads on from where the segments so far lead. -/
theorem foldl_enter_follow (start : Names) (back : List Segment) (x : Segment) :
    (follow back x).reverse.foldl enter start = enter (back.reverse.foldl enter start) x := by
  cases x with
  | here => rfl
  | root => simp [follow]
  | name s => simp [follow]
  | parent =>
    cases back with
    | nil => rfl
    | cons y back => cases y <;> simp [follow, enter]

/-- **Cleaning keeps the place,** from wherever one starts. -/
theorem foldl_enter_cleanSegments (start : Names) (segments : List Segment) :
    (cleanSegments segments).foldl enter start = segments.foldl enter start := by
  unfold cleanSegments
  induction segments using List.reverseRecOn with
  | nil => rfl
  | append_singleton segments x ih =>
    rw [List.foldl_append, List.foldl_append, List.foldl_cons, List.foldl_nil,
      foldl_enter_follow, ih]
    rfl

theorem placeFrom_clean (p : Path) (start : Names) : p.clean.placeFrom start = p.placeFrom start := by
  unfold placeFrom
  rw [← foldl_enter_cleanSegments, cleanSegments_clean, foldl_enter_cleanSegments]

theorem foldl_enter_names (start names : Names) :
    (names.map Segment.name).foldl enter start = start ++ names := by
  induction names generalizing start with
  | nil => simp
  | cons s names ih => simp [enter, ih]

theorem foldl_enter_parents (start : Names) (n : Nat) :
    (List.replicate n Segment.parent).foldl enter start = start.take (start.length - n) := by
  induction n generalizing start with
  | zero => simp
  | succ n ih =>
    rw [List.replicate_succ, List.foldl_cons, ih, enter, List.dropLast_eq_take, List.take_take,
      List.length_take]
    congr 1
    omega

theorem placeFrom_ofNames (h : AreNames names) (start : Names) :
    (ofNames names).placeFrom start = names := by
  unfold placeFrom
  rw [segments_ofNames h, List.foldl_cons, foldl_enter_names]
  rfl

/-- **An absolute path is cleaned to the names of its place.** -/
theorem clean_eq_ofNames_placeFrom (h : p.isAbsolute = true) (start : Names) :
    AreNames (p.placeFrom start) ∧ p.clean = ofNames (p.placeFrom start) := by
  obtain ⟨names, hnames, hclean⟩ := exists_clean_eq_ofNames h
  rw [← placeFrom_clean, hclean, placeFrom_ofNames hnames]
  exact ⟨hnames, rfl⟩

/-! ### Joined paths -/

/-- A relative path leads to where its steps lead. -/
theorem placeFrom_eq_steps (h : p.text.toList.head? ≠ some '/') (start : Names) :
    p.placeFrom start = (steps p.text).foldl enter start := by
  unfold placeFrom
  rcases segments_of_relative h with h | h <;> rw [h]
  rfl

/-- **A joined path leads to where its second part leads from the place of the first.** -/
theorem placeFrom_div (a b : Path) (start : Names) :
    (a / b.text).placeFrom start = b.placeFrom (a.placeFrom start) := by
  by_cases hb : b.text.toList.head? = some '/'
  · obtain ⟨tail, htail⟩ := exists_segments_of_isAbsolute (p := b) (beq_iff_eq.2 hb)
    rw [div_of_absolute hb]
    unfold placeFrom
    rw [htail, List.foldl_cons, List.foldl_cons]
    rfl
  · by_cases ha : a.text = ""
    · have hjoin : a / b.text = b := by
        show join a b.text = b
        unfold join
        rw [if_pos (.inr ha)]
      have hhere : a.segments = [] := by
        unfold segments
        rw [ha]
        rfl
      rw [hjoin]
      unfold placeFrom
      rw [hhere]
      rfl
    · rw [placeFrom_eq_steps hb]
      unfold placeFrom
      rw [segments_div_text ha hb, List.foldl_append]

/-! ### Paths that lead to the same place -/

/-- A name that is not among some others. -/
theorem exists_isName_not_mem (names : Names) : ∃ s, IsName s ∧ s ∉ names := by
  let s := String.ofList (List.replicate ((names.map String.length).sum + 1) 'a')
  have hlength : s.length = (names.map String.length).sum + 1 := by simp [s]
  refine ⟨s, Segment.isName_iff.2 ⟨by simp [s], ?_, ?_, ?_⟩, fun hs => ?_⟩
  · intro he
    rw [he] at hlength
    simp at hlength
  · intro he
    have := congrArg (fun t => t.toList.head?) he
    simp [s, List.replicate_succ] at this
  · intro he
    have := congrArg (fun t => t.toList.head?) he
    simp [s, List.replicate_succ] at this
  · have := List.le_sum_of_mem (List.mem_map_of_mem (f := String.length) hs)
    omega

/-- Copies of a name in front of names without it are counted. -/
theorem replicate_append_inj {s : String} {k l : Nat} {names more : Names} (hs : s ∉ names)
    (hmore : s ∉ more) (h : List.replicate k s ++ names = List.replicate l s ++ more) :
    k = l ∧ names = more := by
  have hcount := congrArg (List.count s) h
  rw [List.count_append, List.count_append, List.count_replicate_self, List.count_replicate_self,
    List.count_eq_zero_of_not_mem hs, List.count_eq_zero_of_not_mem hmore] at hcount
  obtain rfl : k = l := by omega
  exact ⟨rfl, List.append_cancel_left h⟩

/-- **Clean segments that lead to the same place from everywhere are the same:** from a directory
that is deep enough, with a name that they do not have, one sees how far they lead up. -/
theorem AreClean.eq_of_foldl_enter {other : List Segment} (h : AreClean segments)
    (h' : AreClean other)
    (hplace : ∀ start, AreNames start → segments.foldl enter start = other.foldl enter start) :
    segments = other := by
  obtain ⟨floor, names, hfloor, hnames, rfl⟩ := h
  obtain ⟨floor', more, hfloor', hmore, rfl⟩ := h'
  obtain ⟨s, hs, hfresh⟩ := exists_isName_not_mem (names ++ more)
  obtain ⟨hin, hin'⟩ := not_or.1 (List.mem_append.not.1 hfresh)
  have hdeep : ∀ k, AreNames (List.replicate k s) := fun k t ht => List.eq_of_mem_replicate ht ▸ hs
  have hparents : ∀ k n (q : Names), (List.replicate n Segment.parent ++ q.map Segment.name).foldl enter
      (List.replicate k s) = List.replicate (k - n) s ++ q := by
    intro k n q
    rw [List.foldl_append, foldl_enter_parents, foldl_enter_names, List.length_replicate,
      List.take_replicate, Nat.min_eq_left (Nat.sub_le k n)]
  have hroot : ∀ k (q : Names), ([Segment.root] ++ q.map Segment.name).foldl enter
      (List.replicate k s) = List.replicate 0 s ++ q := by
    intro k q
    rw [List.foldl_append, foldl_enter_names]
    rfl
  rcases hfloor with rfl | ⟨n, rfl⟩ <;> rcases hfloor' with rfl | ⟨m, rfl⟩
  · have hsame := hplace _ (hdeep 0)
    rw [hroot, hroot] at hsame
    rw [(replicate_append_inj hin hin' hsame).2]
  · have hsame := hplace _ (hdeep (m + 1))
    rw [hroot, hparents] at hsame
    have := (replicate_append_inj hin hin' hsame).1
    omega
  · have hsame := hplace _ (hdeep (n + 1))
    rw [hroot, hparents] at hsame
    have := (replicate_append_inj hin hin' hsame).1
    omega
  · have hsame := hplace _ (hdeep (n + m))
    rw [hparents, hparents] at hsame
    obtain ⟨hdepth, rfl⟩ := replicate_append_inj hin hin' hsame
    rw [show n = m by omega]

theorem clean_eq_clean_iff (a b : Path) :
    a.clean = b.clean ↔ ∀ start, AreNames start → a.placeFrom start = b.placeFrom start := by
  constructor
  · intro h start _
    rw [← placeFrom_clean, h, placeFrom_clean]
  · intro h
    have hsegments : cleanSegments a.segments = cleanSegments b.segments := by
      refine (areClean_cleanSegments a).eq_of_foldl_enter (areClean_cleanSegments b) ?_
      intro start hstart
      rw [foldl_enter_cleanSegments, foldl_enter_cleanSegments]
      exact h start hstart
    rw [clean_eq, clean_eq, hsegments]

/-! ### The form -/

/-- Whether a path is written in canonical form: it is not empty, has no dot unless it is one, its
parents precede its names, a root has no parent behind it, and one slash stands between segments. -/
structure IsCanonical (p : Path) : Prop where
  text_ne_empty : p.text ≠ ""
  eq_dot : .here ∈ p.segments → p = ⟨"."⟩
  no_parent_behind_name : p.segments.Pairwise fun x y => (∃ s, x = .name s) → y ≠ .parent
  no_parent_of_isAbsolute : p.isAbsolute = true → .parent ∉ p.segments
  ofSegments_segments : ofSegments p.segments = p

theorem AreClean.isCanonical (h : AreClean segments) (hne : segments ≠ []) :
    IsCanonical (ofSegments segments) := by
  have hsegments := h.segments_ofSegments
  obtain ⟨floor, names, hfloor, hnames, rfl⟩ := h
  have hnames' : ∀ y ∈ names.map Segment.name, y ≠ .parent := by simp
  have hhere : .here ∉ floor ++ names.map Segment.name := by
    rcases hfloor with rfl | ⟨n, rfl⟩ <;> simp
  refine ⟨fun hempty => ?_, fun hmem => ?_, ?_, fun habsolute => ?_, by rw [hsegments]⟩
  · unfold Path.segments at hsegments
    rw [hempty] at hsegments
    exact hne hsegments.symm
  · rw [hsegments] at hmem
    exact absurd hmem hhere
  · rw [hsegments, List.pairwise_append]
    refine ⟨?_, ?_, ?_⟩
    · rcases hfloor with rfl | ⟨n, rfl⟩
      · exact List.pairwise_singleton _ _
      · exact List.pairwise_replicate.2 (.inr (by simp))
    · exact List.pairwise_of_forall_mem_list fun x _ y hy _ => hnames' y hy
    · exact fun x _ y hy _ => hnames' y hy
  · obtain ⟨tail, htail⟩ := exists_segments_of_isAbsolute habsolute
    rw [hsegments] at htail ⊢
    rcases hfloor with rfl | ⟨n, rfl⟩
    · simp
    · obtain _ | n := n
      · cases names <;> cases htail
      · cases htail

theorem isCanonical_clean (p : Path) : IsCanonical p.clean := by
  rw [clean_eq]
  split_ifs with hnil
  · have hsegments : (Path.mk ".").segments = [.here] := by decide
    exact ⟨by decide, fun _ => rfl, hsegments ▸ List.pairwise_singleton _ _, by decide, by decide⟩
  · exact (areClean_cleanSegments p).isCanonical hnil

/-- Following a segment brings no other one. -/
theorem mem_follow {back : List Segment} {x y : Segment} (h : y ∈ follow back x) :
    y = x ∨ y ∈ back := by
  cases x with
  | root | name s => exact List.mem_cons.1 h
  | here => exact .inr h
  | parent =>
    cases back with
    | nil => exact List.mem_cons.1 h
    | cons z back =>
      cases z with
      | name s => exact .inr (List.mem_cons_of_mem _ h)
      | root => exact .inr h
      | here | parent => exact List.mem_cons.1 h

theorem mem_cleanSegments {y : Segment} (h : y ∈ cleanSegments segments) : y ∈ segments := by
  unfold cleanSegments at h
  rw [List.mem_reverse] at h
  induction segments using List.reverseRecOn with
  | nil => exact h
  | append_singleton segments x ih =>
    rw [List.foldl_append] at h
    rcases mem_follow h with rfl | h
    · exact List.mem_append_right _ List.mem_cons_self
    · exact List.mem_append_left _ (ih h)

theorem root_not_mem_of_relative (h : p.text.toList.head? ≠ some '/') : .root ∉ p.segments := by
  have hsteps : Segment.root ∉ steps p.text := fun hmem =>
    absurd (isStep_of_mem_steps hmem).1 (by decide)
  rcases segments_of_relative h with h | h
  · rwa [h]
  · rw [h, List.mem_cons, not_or]
    exact ⟨by decide, hsteps⟩

/-- Cleaning drops no root and adds none. -/
theorem isAbsolute_clean (p : Path) : p.clean.isAbsolute = p.isAbsolute := by
  by_cases h : p.isAbsolute = true
  · obtain ⟨names, hnames, hclean⟩ := exists_clean_eq_ofNames h
    rw [hclean, h, isAbsolute_ofNames hnames]
  · rw [Bool.eq_false_iff.2 h, Bool.eq_false_iff]
    intro hclean
    have hroot := root_not_mem_of_relative (p := p) fun hhead => h (beq_iff_eq.2 hhead)
    obtain ⟨tail, htail⟩ := exists_segments_of_isAbsolute hclean
    have hmem : Segment.root ∈ p.clean.segments := htail ▸ List.mem_cons_self
    by_cases hnil : cleanSegments p.segments = []
    · rw [Path.clean_eq, if_pos hnil] at hmem
      exact absurd hmem (by decide)
    · rw [segments_clean_of_ne_nil hnil] at hmem
      exact hroot (mem_cleanSegments hmem)

theorem isAbsolute_along {q : List Segment} (h : a.isAbsolute = true) :
    (a.along q).isAbsolute = true := by
  induction q generalizing a with
  | nil => exact h
  | cons x q ih => exact ih (isAbsolute_div h x.text)

/-- Steps without parents are names. -/
theorem exists_names_of_isStep (h : ∀ x ∈ segments, x.IsStep) (hparent : .parent ∉ segments) :
    ∃ names, AreNames names ∧ segments = names.map .name := by
  induction segments with
  | nil => exact ⟨[], .nil, rfl⟩
  | cons x segments ih =>
    rw [List.mem_cons, not_or] at hparent
    obtain ⟨names, hnames, rfl⟩ := ih (fun y hy => h y (List.mem_cons_of_mem x hy)) hparent.2
    have hx := h x List.mem_cons_self
    cases x with
    | root => exact absurd hx.1 (by decide)
    | here => exact absurd rfl hx.text_ne_dot
    | parent => exact absurd rfl hparent.1
    | name s => exact ⟨s :: names, List.forall_mem_cons.2 ⟨hx, hnames⟩, rfl⟩

/-- Steps of which no parent follows a name are parents and then names. -/
theorem areClean_of_isStep (h : ∀ x ∈ segments, x.IsStep)
    (hparent : segments.Pairwise fun x y => (∃ s, x = .name s) → y ≠ .parent) :
    ∃ n names, AreNames names ∧ segments = List.replicate n .parent ++ names.map .name := by
  induction segments with
  | nil => exact ⟨0, [], .nil, rfl⟩
  | cons x segments ih =>
    rw [List.pairwise_cons] at hparent
    have hsteps : ∀ y ∈ segments, y.IsStep := fun y hy => h y (List.mem_cons_of_mem x hy)
    have hx := h x List.mem_cons_self
    cases x with
    | root => exact absurd hx.1 (by decide)
    | here => exact absurd rfl hx.text_ne_dot
    | parent =>
      obtain ⟨n, names, hnames, rfl⟩ := ih hsteps hparent.2
      exact ⟨n + 1, names, hnames, rfl⟩
    | name s =>
      have hmem : .parent ∉ segments := fun hmem => hparent.1 _ hmem ⟨s, rfl⟩ rfl
      obtain ⟨names, hnames, rfl⟩ := exists_names_of_isStep hsteps hmem
      exact ⟨0, s :: names, List.forall_mem_cons.2 ⟨hx, hnames⟩, rfl⟩

theorem IsCanonical.areClean (h : IsCanonical p) (hdot : p ≠ ⟨"."⟩) : AreClean p.segments := by
  obtain ⟨front, tail, hsegments, hfront, htail⟩ := p.segments_cases
  rcases hfront with rfl | rfl | rfl
  · obtain ⟨n, names, hnames, heq⟩ := areClean_of_isStep htail <| by
      have := h.no_parent_behind_name
      rwa [hsegments] at this
    exact ⟨_, names, .inr ⟨n, rfl⟩, hnames, hsegments.trans heq⟩
  · have habsolute : p.isAbsolute = true := by
      rw [← h.ofSegments_segments, hsegments, ofSegments_eq_along, List.singleton_append, along_root]
      exact isAbsolute_along (by decide)
    have hparent := h.no_parent_of_isAbsolute habsolute
    rw [hsegments, List.mem_append, not_or] at hparent
    obtain ⟨names, hnames, rfl⟩ := exists_names_of_isStep htail hparent.2
    exact ⟨_, names, .inl rfl, hnames, hsegments⟩
  · exact absurd (h.eq_dot (by rw [hsegments]; simp)) hdot

/-- A path in canonical form is cleaned to itself. -/
theorem IsCanonical.clean_eq (h : IsCanonical p) : p.clean = p := by
  by_cases hdot : p = ⟨"."⟩
  · rw [hdot]
    decide
  · rw [Path.clean_eq, (h.areClean hdot).cleanSegments_eq, if_neg, h.ofSegments_segments]
    intro hnil
    have hempty := h.ofSegments_segments
    rw [hnil] at hempty
    exact h.text_ne_empty (by rw [← hempty]; rfl)

/-- **Cleaning computes a canonical form.**  Its results are the paths in that form, and it leaves
these as they are; paths have the same one if they lead to the same place from every directory; and
the parts of a joined path may be cleaned first. -/
theorem clean_laws :
    (∀ p : Path, p.clean.clean = p.clean ∧ IsCanonical p.clean ∧
      p.clean.isAbsolute = p.isAbsolute ∧ (p.clean = p ↔ IsCanonical p)) ∧
    (∀ a b : Path, a.clean = b.clean ↔
      ∀ start, AreNames start → a.placeFrom start = b.placeFrom start) ∧
    ∀ base p : Path, (base / p.text).clean = (base.clean / p.clean.text).clean ∧
      anchor base p.text = anchor base.clean p.clean.text := by
  have hpiecewise : ∀ base p : Path,
      (base / p.text).clean = (base.clean / p.clean.text).clean := by
    intro base p
    rw [clean_eq_clean_iff]
    intro start _
    rw [placeFrom_div, placeFrom_div, placeFrom_clean, placeFrom_clean]
  refine ⟨fun p => ⟨clean_clean p, isCanonical_clean p, isAbsolute_clean p, ?_⟩,
    clean_eq_clean_iff, fun base p => ⟨hpiecewise base p, hpiecewise base p⟩⟩
  exact ⟨fun h => h ▸ isCanonical_clean p, IsCanonical.clean_eq⟩

example : (Path.mk "a/./..//../b/c/../").clean = ⟨"../b"⟩ := by decide

end Path
end ReleaseLint
