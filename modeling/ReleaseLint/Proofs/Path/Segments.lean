/-
# Segments of joined paths

A path is a text, and its meaning the list of its segments.  Joining a path with one
more piece appends one segment (`segments_div`), the result never asks for a directory
(`route_div`), and its parent is the path that was joined (`parent?_div_div`).

| piece | segment that it appends |
| --- | --- |
| `..` | parent |
| any other without slashes, neither empty nor a dot | name |

`along` joins a whole list of such pieces, and any text without a slash in front appends the
`steps` that it writes (`segments_div_of_relative`).

Every segment behind a root is written by such a piece (`isStep_of_segments_eq`), so that a
path is rebuilt from its segments one by one.
-/

import ReleaseLint.Tree
import Mathlib.Tactic.SplitIfs
import Mathlib.Data.List.Basic

namespace ReleaseLint

namespace Segment

/-- A segment that one piece between slashes writes, behind others. -/
def IsStep (x : Segment) : Prop :=
  '/' ∉ x.text.toList ∧ Path.segment? x.text.toList = some x

theorem IsStep.text_ne_nil {x : Segment} (h : x.IsStep) : x.text.toList ≠ [] := by
  intro he
  have := h.2
  rw [he] at this
  simp [Path.segment?] at this

theorem IsStep.text_ne_dot {x : Segment} (h : x.IsStep) : x.text.toList ≠ ['.'] := by
  intro he
  have := h.2
  rw [he] at this
  simp [Path.segment?] at this

theorem IsStep.head_ne_slash {x : Segment} (h : x.IsStep) : x.text.toList.head? ≠ some '/' :=
  fun he => h.1 (List.mem_of_mem_head? he)

theorem IsStep.getLast_ne_slash {x : Segment} (h : x.IsStep) :
    x.text.toList.getLast? ≠ some '/' :=
  fun he => h.1 (List.mem_of_getLast? he)

theorem isStep_parent : parent.IsStep := by
  constructor <;> decide

/-- A text that stands as one name between slashes. -/
def IsName (s : String) : Prop :=
  (name s).IsStep

theorem isName_iff {s : String} :
    IsName s ↔ '/' ∉ s.toList ∧ s ≠ "" ∧ s ≠ "." ∧ s ≠ ".." := by
  have hs : ∀ t : String, s.toList = t.toList ↔ s = t := fun t => String.toList_inj
  have h0 := hs ""
  have h1 := hs "."
  have h2 := hs ".."
  simp only [String.toList_empty] at h0
  rw [show ".".toList = ['.'] from rfl] at h1
  rw [show "..".toList = ['.', '.'] from rfl] at h2
  unfold IsName IsStep Path.segment?
  simp only [text, h0, h1, h2, String.ofList_toList]
  constructor
  · rintro ⟨h, hx⟩
    refine ⟨h, ?_⟩
    split_ifs at hx with ha hb
    · simp at hx
    · exact ⟨fun he => ha (.inl he), fun he => ha (.inr he), hb⟩
  · rintro ⟨h, ha, hb, hc⟩
    refine ⟨h, ?_⟩
    simp [ha, hb, hc]

end Segment

namespace Path

open Segment

variable {a : Path} {x y : Segment}

theorem text_div_of_relative {b : String} (hb : b.toList.head? ≠ some '/') :
    (a / b).text.toList =
      if a.text = "" then b.toList
      else if a.text.toList.getLast? = some '/' then a.text.toList ++ b.toList
      else a.text.toList ++ '/' :: b.toList := by
  show (join a b).text.toList = _
  unfold join
  simp only [hb, false_or]
  split_ifs <;> simp

theorem text_div_of_isStep (hx : x.IsStep) :
    (a / x.text).text.toList =
      if a.text = "" then x.text.toList
      else if a.text.toList.getLast? = some '/' then a.text.toList ++ x.text.toList
      else a.text.toList ++ '/' :: x.text.toList :=
  text_div_of_relative hx.head_ne_slash

/-- The pieces between slashes of a path with one more piece: the new one comes last,
and an empty one that a slash left at the end is gone. -/
theorem pieces_div (hx : x.IsStep) :
    (a / x.text).text.toList.splitOn '/' =
      (if a.text = "" then []
        else if a.text.toList.getLast? = some '/' then (a.text.toList.splitOn '/').dropLast
        else a.text.toList.splitOn '/') ++ [x.text.toList] := by
  rw [text_div_of_isStep hx]
  split_ifs with h0 h1
  · rw [List.splitOn_eq_singleton hx.1, List.nil_append]
  · obtain ⟨ys, hys⟩ := List.getLast?_eq_some_iff.1 h1
    rw [hys, List.append_assoc, List.singleton_append, List.splitOn_append_cons_self,
      List.splitOn_append_cons_self, List.splitOn_eq_singleton hx.1, List.splitOn_nil,
      List.dropLast_concat]
  · rw [List.splitOn_append_cons_self, List.splitOn_eq_singleton hx.1]

theorem splitOn_text_ne_nil_singleton (h : a.text ≠ "") : a.text.toList.splitOn '/' ≠ [[]] := by
  intro he
  have := congrArg (List.intercalate ['/']) he
  rw [List.intercalate_splitOn] at this
  exact h (String.toList_inj.1 (by simpa [List.intercalate] using this))

/-- **Joining one more piece appends one segment.** -/
theorem segments_div (a : Path) (hx : x.IsStep) :
    (a / x.text).segments = a.segments ++ [x] := by
  have hsome := hx.2
  unfold segments segmentsOf
  rw [pieces_div hx]
  by_cases h0 : a.text = ""
  · simp [h0, hx.text_ne_nil, hx.text_ne_dot, hsome]
  · rw [if_neg h0]
    have hone := splitOn_text_ne_nil_singleton h0
    split_ifs with h1
    · -- the text ends with a slash, so that the last piece is empty
      obtain ⟨ys, hys⟩ := List.getLast?_eq_some_iff.1 h1
      have hsplit : a.text.toList.splitOn '/' = ys.splitOn '/' ++ [[]] := by
        rw [hys, List.splitOn_append_cons_self, List.splitOn_nil]
      rw [hsplit, List.dropLast_concat]
      obtain ⟨first, rest, hfr⟩ := List.exists_cons_of_ne_nil (List.splitOn_ne_nil '/' ys)
      rw [hfr]
      simp only [List.cons_append, List.filterMap_append, List.filterMap_cons, List.filterMap_nil,
        hsome]
      split_ifs <;> simp_all [segment?]
    · obtain ⟨first, rest, hfr⟩ := List.exists_cons_of_ne_nil (List.splitOn_ne_nil '/' a.text.toList)
      rw [hfr] at hone ⊢
      simp only [List.cons_append, List.filterMap_append, List.filterMap_cons, List.filterMap_nil,
        hsome]
      split_ifs <;> simp_all

@[simp]
theorem div_slash (a : Path) : a / "/" = ⟨"/"⟩ := by
  show join a "/" = _
  simp [join]

@[simp]
theorem segments_slash : (Path.mk "/").segments = [.root] := by
  decide

/-- A path that ends with a piece does not ask for a directory. -/
theorem route_div (a : Path) (hx : x.IsStep) :
    Tree.route (a / x.text) = a.segments ++ [x] := by
  have hlast : ((a / x.text).text.toList.splitOn '/').getLast? = some x.text.toList := by
    rw [pieces_div hx, List.getLast?_concat]
  unfold Tree.route Tree.asksForDirectory
  rw [hlast, segments_div a hx]
  have h0 := hx.text_ne_nil
  have h1 := hx.text_ne_dot
  simp [h0, h1]

theorem text_div_ne_empty (hx : x.IsStep) : (a / x.text).text ≠ "" := by
  intro he
  have h := text_div_of_isStep (a := a) hx
  have h0 := hx.text_ne_nil
  rw [he] at h
  split_ifs at h <;> simp_all

theorem getLast?_text_div (hx : x.IsStep) :
    (a / x.text).text.toList.getLast? = x.text.toList.getLast? := by
  have h0 := hx.text_ne_nil
  rw [text_div_of_isStep hx]
  split_ifs
  · rfl
  · rw [List.getLast?_append_of_ne_nil _ h0]
  · rw [List.getLast?_append_of_ne_nil _ (List.cons_ne_nil _ _), List.getLast?_cons_of_ne_nil h0]

theorem getLast_text_div (hx : x.IsStep) : (a / x.text).text.toList.getLast? ≠ some '/' := by
  rw [getLast?_text_div hx]
  exact hx.getLast_ne_slash

theorem div_of_absolute {b : String} (hb : b.toList.head? = some '/') : a / b = ⟨b⟩ := by
  show join a b = _
  unfold join
  rw [if_pos (.inl hb)]

theorem head?_text_div (hx : x.IsStep) :
    (a / x.text).text.toList.head? = some '/' ↔ a.text.toList.head? = some '/' := by
  have h0 := hx.text_ne_nil
  have h1 := hx.head_ne_slash
  rw [text_div_of_isStep hx]
  split_ifs with ha hb
  · simp [ha, h1]
  all_goals
    have : a.text.toList ≠ [] := fun he => ha (String.toList_inj.1 he)
    rw [List.head?_append_of_ne_nil _ this]

/-- Seeing a joined path from the root is joining to what is seen. -/
theorem absolute_div (w : Workspace) (a : Path) (hx : x.IsStep) :
    w.absolute (a / x.text) = w.absolute a / x.text := by
  unfold Workspace.absolute
  by_cases ha : a.text.toList.head? = some '/'
  · rw [div_of_absolute ha, div_of_absolute ((head?_text_div hx).2 ha)]
  · have hax := (head?_text_div (a := a) hx).not.2 ha
    have hempty : ∀ p : Path, p.text = "" ↔ p.text.toList = [] := fun p => by simp
    have hinj : ∀ p q : Path, p.text.toList = q.text.toList → p = q := fun p q h =>
      congrArg Path.mk (String.toList_inj.1 h)
    apply hinj
    rw [text_div_of_isStep hx, text_div_of_relative hax, text_div_of_isStep hx]
    simp only [hempty, text_div_of_relative ha]
    generalize x.text.toList = c
    generalize a.text.toList = b
    generalize w.directory.text.toList = d
    rcases List.eq_nil_or_concat b with rfl | ⟨b, e, rfl⟩
    · by_cases hd : d = [] <;> by_cases hd' : d.getLast? = some '/' <;> simp [hd, hd']
    · by_cases hd : d = [] <;> by_cases hd' : d.getLast? = some '/' <;> by_cases he : e = '/' <;>
        simp [hd, hd', he, List.getLast?_cons]

/-- A path with more segments behind it. -/
def along (a : Path) (q : List Segment) : Path :=
  q.foldl (fun p s => p / s.text) a

theorem ofSegments_eq_along (q : List Segment) : ofSegments q = along ⟨""⟩ q :=
  rfl

theorem along_concat (a : Path) (q : List Segment) (x : Segment) :
    a.along (q ++ [x]) = a.along q / x.text := by
  simp [along]

theorem along_root (a : Path) (q : List Segment) : a.along (.root :: q) = along ⟨"/"⟩ q := by
  show (a / "/").along q = _
  rw [div_slash]

theorem absolute_along (w : Workspace) {q : List Segment} : ∀ {a : Path}, (∀ x ∈ q, x.IsStep) →
    w.absolute (a.along q) = (w.absolute a).along q := by
  induction q with
  | nil => intro a _; rfl
  | cons x q ih =>
    intro a h
    have := absolute_div w a (h x List.mem_cons_self)
    show w.absolute ((a / x.text).along q) = (w.absolute a / x.text).along q
    rw [ih fun y hy => h y (List.mem_cons_of_mem x hy), this]

theorem segments_along {q : List Segment} : ∀ {a : Path}, (∀ x ∈ q, x.IsStep) →
    (a.along q).segments = a.segments ++ q := by
  induction q with
  | nil => intro a _; simp [along]
  | cons x q ih =>
    intro a h
    show ((a / x.text).along q).segments = _
    rw [ih fun y hy => h y (List.mem_cons_of_mem x hy), segments_div a (h x List.mem_cons_self),
      List.append_assoc]
    rfl

theorem route_along {q : List Segment} (h : ∀ x ∈ q, x.IsStep) (hq : q ≠ []) :
    Tree.route (a.along q) = a.segments ++ q := by
  obtain ⟨q, x, rfl⟩ := List.eq_nil_or_concat q |>.resolve_left hq
  rw [List.concat_eq_append] at h ⊢
  rw [along_concat, route_div _ (h x (by simp)),
    segments_along fun y hy => h y (List.mem_append_left _ hy), List.append_assoc]

theorem text_along_ne_empty {q : List Segment} (h : ∀ x ∈ q, x.IsStep) (hq : q ≠ []) :
    (a.along q).text ≠ "" := by
  obtain ⟨q, x, rfl⟩ := List.eq_nil_or_concat q |>.resolve_left hq
  rw [List.concat_eq_append] at h ⊢
  rw [along_concat]
  exact text_div_ne_empty (h x (by simp))

theorem dropIdle_concat (pieces : List (List Char)) {piece : List Char} (h0 : piece ≠ [])
    (h1 : piece ≠ ['.']) : dropIdle (pieces ++ [piece]) = pieces ++ [piece] := by
  simp [dropIdle, h0, h1]

/-- **The parent of a joined path is the path that was joined.** -/
theorem parent?_div_div (a : Path) (hx : x.IsStep) (hy : y.IsStep) :
    (a / x.text / y.text).parent? = some (a / x.text) := by
  have hsegments : (a / x.text / y.text).segments = a.segments ++ [x, y] := by
    rw [segments_div _ hy, segments_div _ hx, List.append_assoc]
    rfl
  have hpieces : (a / x.text / y.text).text.toList.splitOn '/' =
      (a / x.text).text.toList.splitOn '/' ++ [y.text.toList] := by
    rw [pieces_div hy, if_neg (text_div_ne_empty hx), if_neg (getLast_text_div hx)]
  have hcut : dropIdle (dropIdle ((a / x.text / y.text).text.toList.splitOn '/')).dropLast =
      (a / x.text).text.toList.splitOn '/' := by
    rw [hpieces, dropIdle_concat _ hy.text_ne_nil hy.text_ne_dot, List.dropLast_concat,
      pieces_div hx, dropIdle_concat _ hx.text_ne_nil hx.text_ne_dot]
  have hx0 : x ≠ .root := by
    rintro rfl
    exact absurd hx.1 (by decide)
  unfold parent?
  rw [hsegments]
  split
  · rename_i h
    simp at h
  · rename_i h
    have := congrArg List.length h
    simp at this
  · rename_i h
    have := congrArg List.length h
    simp at this
  · rename_i h
    rw [List.append_eq_cons_iff] at h
    rcases h with ⟨-, h⟩ | ⟨r, -, h⟩
    · exact absurd (List.cons.inj h).1 hx0
    · have := congrArg List.length h
      simp at this
  · simp only [hcut]
    split
    · rename_i h
      exact absurd h (List.splitOn_ne_nil _ _)
    · rw [List.intercalate_splitOn, String.ofList_toList]

theorem parent?_along {q : List Segment} (a : Path) (h : ∀ x ∈ q, x.IsStep) (hq : q ≠ [])
    (hy : y.IsStep) : (a.along (q ++ [y])).parent? = some (a.along q) := by
  obtain ⟨q, x, rfl⟩ := List.eq_nil_or_concat q |>.resolve_left hq
  rw [List.concat_eq_append] at h ⊢
  rw [along_concat, along_concat]
  exact parent?_div_div _ (h x (by simp)) hy

/-- An end without separators lies behind every separator. -/
theorem suffix_of_cons_suffix {α : Type*} {a : α} {s t u : List α} (ht : a ∉ t) (hts : t <:+ s)
    (hus : a :: u <:+ s) : t <:+ u := by
  rcases List.suffix_or_suffix_of_suffix hts hus with h | h
  · rcases List.suffix_cons_iff.1 h with rfl | h
    · exact absurd List.mem_cons_self ht
    · exact h
  · exact absurd (h.subset List.mem_cons_self) ht

theorem suffix_append_cons_iff {α : Type*} {a : α} {s t u : List α} (ht : a ∉ t) :
    t <:+ s ++ a :: u ↔ t <:+ u :=
  ⟨fun h => suffix_of_cons_suffix ht h (List.suffix_append s _),
    fun h => (h.trans (List.suffix_cons a u)).trans (List.suffix_append s _)⟩

/-- What follows the last separator is the only end that begins behind one and has none. -/
theorem cons_suffix_append_cons_iff {α : Type*} {a : α} {s t u : List α} (ht : a ∉ t)
    (hu : a ∉ u) : a :: t <:+ s ++ a :: u ↔ t = u := by
  constructor
  · intro h
    have htu : t <:+ u := (suffix_append_cons_iff ht).1 ((List.suffix_cons a t).trans h)
    have hut : u <:+ t :=
      suffix_of_cons_suffix hu ((List.suffix_cons a u).trans (List.suffix_append s _)) h
    exact htu.eq_of_length_le hut.length_le
  · rintro rfl
    exact List.suffix_append s _

/-- No piece between separators holds one. -/
theorem not_mem_of_mem_splitOn {α : Type*} [BEq α] [LawfulBEq α] {a : α} :
    ∀ {s piece : List α}, piece ∈ s.splitOn a → a ∉ piece
  | [], piece, h => by
    rw [List.splitOn_nil, List.mem_singleton] at h
    rw [h]
    exact List.not_mem_nil
  | c :: s, piece, h => by
    obtain ⟨first, rest, hs⟩ := List.exists_cons_of_ne_nil (List.splitOn_ne_nil a s)
    have ih : ∀ q ∈ first :: rest, a ∉ q := fun q hq => not_mem_of_mem_splitOn (hs ▸ hq)
    rw [List.splitOn_cons_eq_if_modifyHead, hs] at h
    split_ifs at h with hc
    · rcases List.mem_cons.1 h with rfl | h
      · exact List.not_mem_nil
      · exact ih piece h
    · rcases List.mem_cons.1 h with rfl | h
      · rw [beq_iff_eq] at hc
        intro hm
        rcases List.mem_cons.1 hm with rfl | hm
        · exact hc rfl
        · exact ih first List.mem_cons_self hm
      · exact ih piece (List.mem_cons_of_mem _ h)

theorem isStep_of_segment? {piece : List Char} (hp : '/' ∉ piece) (h : segment? piece = some x) :
    x.IsStep := by
  have htext : x.text.toList = piece := by
    unfold segment? at h
    split_ifs at h with _ hb
    · rw [← Option.some.inj h, hb]
      rfl
    · rw [← Option.some.inj h]
      exact String.toList_ofList
  exact ⟨htext ▸ hp, htext ▸ h⟩

/-- The segments that a text without a slash in front appends to a path. -/
def steps (text : String) : List Segment :=
  (text.toList.splitOn '/').filterMap segment?

theorem isStep_of_mem_steps {b : String} (h : x ∈ steps b) : x.IsStep := by
  obtain ⟨piece, hpiece, hx⟩ := List.mem_filterMap.1 h
  exact isStep_of_segment? (not_mem_of_mem_splitOn hpiece) hx

/-- A relative path has the segments that its text writes, behind a dot if it begins with one. -/
theorem segments_of_relative {p : Path} (h : p.text.toList.head? ≠ some '/') :
    p.segments = steps p.text ∨ p.segments = .here :: steps p.text := by
  have hjoin : List.intercalate ['/'] (p.text.toList.splitOn '/') = p.text.toList :=
    List.intercalate_splitOn '/'
  unfold segments segmentsOf steps
  cases hsplit : p.text.toList.splitOn '/' with
  | nil => exact absurd hsplit (List.splitOn_ne_nil '/' _)
  | cons first rest =>
    rw [hsplit] at hjoin
    dsimp only
    split_ifs with hfirst hrest hdot
    · left
      rw [hfirst, hrest]
      rfl
    · -- an empty piece in front of others is a slash in front
      obtain ⟨second, rest, rfl⟩ := List.exists_cons_of_ne_nil hrest
      rw [hfirst] at hjoin
      exact absurd (by rw [← hjoin]; rfl) h
    · right
      rw [hdot, List.filterMap_cons_none (by simp [segment?])]
    · left
      cases hsome : segment? first with
      | none => rw [List.filterMap_cons_none hsome]; rfl
      | some x => rw [List.filterMap_cons_some hsome]; rfl

/-- **Joining a relative text appends the segments that it writes.** -/
theorem segments_div_text {b : String} (ha : a.text ≠ "") (hb : b.toList.head? ≠ some '/') :
    (a / b).segments = a.segments ++ steps b := by
  have hone := splitOn_text_ne_nil_singleton ha
  unfold segments segmentsOf steps
  rw [text_div_of_relative hb, if_neg ha]
  split_ifs with h1
  · -- the text ends with a slash, so that the last piece is empty
    obtain ⟨ys, hys⟩ := List.getLast?_eq_some_iff.1 h1
    obtain ⟨first, rest, hfr⟩ := List.exists_cons_of_ne_nil (List.splitOn_ne_nil '/' ys)
    obtain ⟨piece, pieces, hb'⟩ := List.exists_cons_of_ne_nil (List.splitOn_ne_nil '/' b.toList)
    rw [hys, List.append_assoc, List.singleton_append, List.splitOn_append_cons_self,
      List.splitOn_append_cons_self, List.splitOn_nil, hfr, hb']
    simp only [List.cons_append, List.filterMap_append, List.filterMap_cons, List.filterMap_nil]
    split_ifs <;> simp_all [segment?]
  · obtain ⟨first, rest, hfr⟩ :=
      List.exists_cons_of_ne_nil (List.splitOn_ne_nil '/' a.text.toList)
    obtain ⟨piece, pieces, hb'⟩ := List.exists_cons_of_ne_nil (List.splitOn_ne_nil '/' b.toList)
    rw [List.splitOn_append_cons_self, hb']
    rw [hfr] at hone ⊢
    simp only [List.cons_append, List.filterMap_append]
    split_ifs <;> simp_all

theorem segments_div_of_relative (a : Path) (hx : x.IsStep) {b : String}
    (hb : b.toList.head? ≠ some '/') :
    (a / x.text / b).segments = a.segments ++ x :: steps b := by
  rw [segments_div_text (text_div_ne_empty hx) hb, segments_div a hx, List.append_assoc,
    List.singleton_append]

/-- Every segment is written by a piece, but for a root or a dot in front. -/
theorem segments_cases (p : Path) : ∃ front tail, p.segments = front ++ tail ∧
    (front = [] ∨ front = [.root] ∨ front = [.here]) ∧ ∀ x ∈ tail, x.IsStep := by
  have hbelow : ∀ rest : List (List Char), (∀ piece ∈ rest, '/' ∉ piece) →
      ∀ x ∈ rest.filterMap segment?, x.IsStep := by
    intro rest hrest x hx
    obtain ⟨piece, hp, hsome⟩ := List.mem_filterMap.1 hx
    exact isStep_of_segment? (hrest piece hp) hsome
  have hpieces : ∀ piece ∈ p.text.toList.splitOn '/', '/' ∉ piece :=
    fun _ => not_mem_of_mem_splitOn
  unfold segments segmentsOf
  split
  · exact ⟨[], [], rfl, .inl rfl, by simp⟩
  · rename_i first rest hfr
    rw [hfr] at hpieces
    have hrest := hbelow rest fun piece hp => hpieces piece (List.mem_cons_of_mem _ hp)
    simp only
    split_ifs
    · exact ⟨[], [], rfl, .inl rfl, by simp⟩
    · exact ⟨[.root], _, rfl, .inr (.inl rfl), hrest⟩
    · exact ⟨[.here], _, rfl, .inr (.inr rfl), hrest⟩
    · refine ⟨[], _, rfl, .inl rfl, fun x hx => ?_⟩
      rcases List.mem_append.1 hx with hx | hx
      · exact isStep_of_segment? (hpieces first List.mem_cons_self) (Option.mem_toList.1 hx)
      · exact hrest x hx

/-- Every segment behind a root is written by a piece. -/
theorem isStep_of_segments_eq {p : Path} {tail : List Segment} (h : p.segments = .root :: tail) :
    ∀ x ∈ tail, x.IsStep := by
  obtain ⟨front, steps, hsegments, hfront, hsteps⟩ := p.segments_cases
  rw [h] at hsegments
  rcases hfront with rfl | rfl | rfl
  · rw [List.nil_append] at hsegments
    have hroot : Segment.root.IsStep := hsteps _ (hsegments ▸ List.mem_cons_self)
    exact absurd hroot.1 (by decide)
  · rwa [(List.cons.inj hsegments).2]
  · exact absurd (List.cons.inj hsegments).1 (by decide)

end Path
end ReleaseLint
