/-
# Cleaned absolute paths

An absolute path is cleaned to a slash and names with slashes between them.  `ofNames`
writes that form, and nothing else comes out of `clean` (`exists_clean_eq_ofNames`).

| of `ofNames names` | |
| --- | --- |
| segments | the root and the names |
| characters | each name with a slash in front; a slash if there is none |
| cleaned, or seen from any directory | itself |

So such paths are the same precisely when their texts are, and a text with a slash and
a name behind it is the path of one more name.
-/

import ReleaseLint.Proofs.Path.Segments
import Mathlib.Data.List.Induction
import Mathlib.Data.List.Infix

namespace ReleaseLint

open Segment (IsName IsStep)

/-- Whether each of some names can stand between slashes. -/
def AreNames (names : Names) : Prop :=
  ∀ s ∈ names, IsName s

instance (names : Names) : Decidable (AreNames names) :=
  decidable_of_iff (∀ s ∈ names, '/' ∉ s.toList ∧ s ≠ "" ∧ s ≠ "." ∧ s ≠ "..") <|
    forall₂_congr fun _ _ => Segment.isName_iff.symm

namespace AreNames

variable {names more : Names} {s : String}

theorem nil : AreNames [] :=
  fun _ h => absurd h List.not_mem_nil

theorem append (h : AreNames names) (h' : AreNames more) : AreNames (names ++ more) := by
  intro s hs
  rcases List.mem_append.1 hs with hs | hs
  · exact h s hs
  · exact h' s hs

theorem concat (h : AreNames names) (hs : IsName s) : AreNames (names ++ [s]) :=
  h.append fun _ ht => List.mem_singleton.1 ht ▸ hs

theorem left (h : AreNames (names ++ more)) : AreNames names :=
  fun s hs => h s (List.mem_append_left more hs)

theorem right (h : AreNames (names ++ more)) : AreNames more :=
  fun s hs => h s (List.mem_append_right names hs)

theorem last (h : AreNames (names ++ [s])) : IsName s :=
  h s (List.mem_append_right names (List.mem_singleton_self s))

theorem isStep (h : AreNames names) : ∀ x ∈ names.map Segment.name, x.IsStep := by
  intro x hx
  obtain ⟨s, hs, rfl⟩ := List.mem_map.1 hx
  exact h s hs

end AreNames

namespace Path

variable {names more : Names} {s : String} {p : Path}

/-- The path at some names from the root. -/
def ofNames (names : Names) : Path :=
  along ⟨"/"⟩ (names.map .name)

theorem ofNames_concat (names : Names) (s : String) : ofNames (names ++ [s]) = ofNames names / s := by
  unfold ofNames
  rw [List.map_append, List.map_singleton, along_concat]
  rfl

theorem segments_ofNames (h : AreNames names) :
    (ofNames names).segments = .root :: names.map .name := by
  unfold ofNames
  rw [segments_along h.isStep, segments_slash]
  rfl

theorem same_ofNames (h : AreNames names) (h' : AreNames more) :
    (ofNames names).same (ofNames more) = true ↔ names = more := by
  unfold same
  rw [segments_ofNames h, segments_ofNames h', beq_iff_eq]
  refine ⟨fun he => ?_, fun he => by rw [he]⟩
  exact List.map_injective_iff.2 (fun _ _ => Segment.name.inj) (List.cons.inj he).2

theorem ofNames_inj (h : AreNames names) (h' : AreNames more) :
    ofNames names = ofNames more ↔ names = more := by
  refine ⟨fun he => (same_ofNames h h').1 ?_, fun he => by rw [he]⟩
  rw [he]
  exact beq_self_eq_true _

/-- Some names, each with a slash in front. -/
def slashed (names : Names) : List Char :=
  names.flatMap fun s => '/' :: s.toList

theorem slashed_concat (names : Names) (s : String) :
    slashed (names ++ [s]) = slashed names ++ '/' :: s.toList := by
  simp [slashed]

theorem text_ofNames (h : AreNames names) :
    (ofNames names).text.toList = if names = [] then ['/'] else slashed names := by
  induction names using List.reverseRecOn with
  | nil => rfl
  | append_singleton names s ih =>
    rw [if_neg (by simp), ofNames_concat, slashed_concat]
    refine (text_div_of_isStep (a := ofNames names) (x := .name s) h.last).trans ?_
    rcases List.eq_nil_or_concat names with rfl | ⟨init, t, rfl⟩
    · have hslash : (ofNames []).text = "/" := rfl
      have hchars : "/".toList = ['/'] := rfl
      rw [hslash, if_neg (by decide), hchars, if_pos List.getLast?_singleton]
      rfl
    · rw [List.concat_eq_append] at h ih ⊢
      have hne : (ofNames (init ++ [t])).text ≠ "" := by
        rw [ofNames_concat]
        exact text_div_ne_empty (x := .name t) h.left.last
      have hlast : (ofNames (init ++ [t])).text.toList.getLast? ≠ some '/' := by
        rw [ofNames_concat]
        exact getLast_text_div (x := .name t) h.left.last
      rw [if_neg hne, if_neg hlast, ih h.left, if_neg (by simp)]
      rfl

/-- The path at some names is absolute. -/
theorem text_ofNames_concat (h : AreNames (names ++ [s])) :
    (ofNames (names ++ [s])).text.toList = slashed names ++ '/' :: s.toList := by
  rw [text_ofNames h, if_neg (by simp), slashed_concat]

/-- The last name decides how a path ends. -/
theorem suffix_text_iff (h : AreNames (names ++ [s])) {e : List Char} (he : '/' ∉ e) :
    e <:+ (ofNames (names ++ [s])).text.toList ↔ e <:+ s.toList := by
  rw [text_ofNames_concat h, suffix_append_cons_iff he]

theorem slash_suffix_text_iff (h : AreNames (names ++ [s])) {e : List Char} (he : '/' ∉ e) :
    '/' :: e <:+ (ofNames (names ++ [s])).text.toList ↔ e = s.toList := by
  rw [text_ofNames_concat h]
  exact cons_suffix_append_cons_iff he h.last.1

theorem isAbsolute_ofNames (h : AreNames names) : (ofNames names).isAbsolute = true := by
  unfold isAbsolute
  rw [text_ofNames h]
  split_ifs with hnil
  · rfl
  · obtain ⟨s, r, rfl⟩ := List.exists_cons_of_ne_nil hnil
    rfl

/-- Names are followed one by one. -/
theorem foldl_follow_names (names : Names) (back : List Segment) :
    (names.map Segment.name).foldl follow back = names.reverse.map .name ++ back := by
  induction names generalizing back with
  | nil => rfl
  | cons s r ih =>
    rw [List.map_cons, List.foldl_cons, ih, List.reverse_cons, List.map_append, List.append_assoc]
    rfl

theorem cleanSegments_ofNames (names : Names) :
    cleanSegments (.root :: names.map .name) = .root :: names.map .name := by
  unfold cleanSegments
  rw [List.foldl_cons, foldl_follow_names, List.reverse_append, List.map_reverse,
    List.reverse_reverse]
  rfl

@[simp]
theorem clean_ofNames (h : AreNames names) : (ofNames names).clean = ofNames names := by
  unfold clean
  rw [segments_ofNames h, cleanSegments_ofNames]
  exact along_root ⟨""⟩ (names.map .name)

/-- What names can follow in a clean path: the root, or parents. -/
def IsFloor (floor : List Segment) : Prop :=
  floor = [.root] ∨ ∃ n, floor = .replicate n .parent

/-- Following steps from a floor leads to names on a floor, on the root from the root. -/
theorem exists_foldl_follow {tail floor : List Segment} (h : ∀ x ∈ tail, x.IsStep)
    (hfloor : IsFloor floor) : ∃ names floor', AreNames names ∧ IsFloor floor' ∧
      (floor = [.root] → floor' = [.root]) ∧
      tail.foldl follow floor = (names.map Segment.name).reverse ++ floor' := by
  have hfold : ∀ names floor', AreNames names → IsFloor floor' → (floor = [.root] → floor' = [.root]) →
      ∃ names' floor'', AreNames names' ∧ IsFloor floor'' ∧ (floor = [.root] → floor'' = [.root]) ∧
        tail.foldl follow ((names.map Segment.name).reverse ++ floor') =
          (names'.map Segment.name).reverse ++ floor'' := by
    induction tail with
    | nil => exact fun names floor' hnames hfloor' hroot => ⟨names, floor', hnames, hfloor', hroot, rfl⟩
    | cons x r ih =>
      intro names floor' hnames hfloor' hroot
      have hx := h x List.mem_cons_self
      have ih := ih fun y hy => h y (List.mem_cons_of_mem x hy)
      rw [List.foldl_cons]
      cases x with
      | root => exact absurd hx.1 (by decide)
      | here => exact absurd rfl hx.text_ne_dot
      | parent =>
        rcases List.eq_nil_or_concat names with rfl | ⟨init, s, rfl⟩
        · rcases hfloor' with rfl | ⟨n, rfl⟩
          · exact ih [] [.root] .nil (.inl rfl) fun _ => rfl
          · have hnext : follow (List.replicate n .parent) .parent =
                List.replicate (n + 1) .parent := by
              cases n <;> rfl
            have hnotroot : floor ≠ [.root] := fun he => by
              cases n <;> cases hroot he
            have hmore := ih [] (.replicate (n + 1) .parent) .nil (.inr ⟨_, rfl⟩)
              fun he => absurd he hnotroot
            rwa [List.map_nil, List.reverse_nil, List.nil_append, ← hnext] at hmore
        · rw [List.concat_eq_append] at hnames ⊢
          have hnext : follow (((init ++ [s]).map Segment.name).reverse ++ floor') .parent =
              (init.map Segment.name).reverse ++ floor' := by simp [follow]
          rw [hnext]
          exact ih init floor' hnames.left hfloor' hroot
      | name s =>
        have hnext : follow ((names.map Segment.name).reverse ++ floor') (.name s) =
            ((names ++ [s]).map Segment.name).reverse ++ floor' := by simp [follow]
        rw [hnext]
        exact ih (names ++ [s]) floor' (hnames.concat hx) hfloor' hroot
  exact hfold [] floor .nil hfloor id

/-- Cleaning segments behind a root leaves the root and names among them. -/
theorem exists_cleanSegments_eq {tail : List Segment} (h : ∀ x ∈ tail, x.IsStep) :
    ∃ names, AreNames names ∧ cleanSegments (.root :: tail) = .root :: names.map .name := by
  obtain ⟨names, floor, hnames, -, hroot, hfold⟩ := exists_foldl_follow h (.inl rfl)
  refine ⟨names, hnames, ?_⟩
  unfold cleanSegments
  rw [List.foldl_cons, show follow [] .root = [.root] from rfl, hfold, hroot rfl,
    List.reverse_append, List.reverse_reverse]
  rfl

/-- Whether segments are those of a clean path: names behind the root or behind parents. -/
def AreClean (segments : List Segment) : Prop :=
  ∃ floor names, IsFloor floor ∧ AreNames names ∧ segments = floor ++ names.map .name

theorem areClean_cleanSegments (p : Path) : AreClean (cleanSegments p.segments) := by
  obtain ⟨front, tail, hsegments, hfront, htail⟩ := p.segments_cases
  obtain ⟨floor, hfloor, hstart⟩ : ∃ floor, IsFloor floor ∧ front.foldl follow [] = floor := by
    rcases hfront with rfl | rfl | rfl
    · exact ⟨[], .inr ⟨0, rfl⟩, rfl⟩
    · exact ⟨[.root], .inl rfl, rfl⟩
    · exact ⟨[], .inr ⟨0, rfl⟩, rfl⟩
  obtain ⟨names, floor', hnames, hfloor', -, hfold⟩ := exists_foldl_follow htail hfloor
  have hreverse : floor'.reverse = floor' := by
    rcases hfloor' with rfl | ⟨n, rfl⟩
    · rfl
    · exact List.reverse_replicate
  refine ⟨floor', names, hfloor', hnames, ?_⟩
  unfold cleanSegments
  rw [hsegments, List.foldl_append, hstart, hfold, List.reverse_append, List.reverse_reverse,
    hreverse]

theorem AreClean.segments_ofSegments {segments : List Segment} (h : AreClean segments) :
    (ofSegments segments).segments = segments := by
  obtain ⟨floor, names, rfl | ⟨n, rfl⟩, hnames, rfl⟩ := h
  · rw [ofSegments_eq_along, List.singleton_append, along_root, segments_along hnames.isStep,
      segments_slash]
    rfl
  · have hsteps : ∀ x ∈ List.replicate n .parent ++ names.map Segment.name, x.IsStep := by
      intro x hx
      rcases List.mem_append.1 hx with hx | hx
      · rw [List.eq_of_mem_replicate hx]
        exact Segment.isStep_parent
      · exact hnames.isStep x hx
    rw [ofSegments_eq_along, segments_along hsteps]
    rfl

/-- **What a clean path is:** names behind a root, a dot, or parents. -/
theorem exists_segments_clean (p : Path) : ∃ front names, AreNames names ∧
    (front = [.here] ∨ IsFloor front) ∧ p.clean.segments = front ++ names.map .name := by
  have hclean := areClean_cleanSegments p
  unfold clean
  split
  · exact ⟨[.here], [], .nil, .inl rfl, by decide⟩
  · obtain ⟨floor, names, hfloor, hnames, heq⟩ := hclean
    exact ⟨floor, names, hnames, .inr hfloor, by rw [(areClean_cleanSegments p).segments_ofSegments, heq]⟩

theorem exists_segments_of_isAbsolute (h : p.isAbsolute = true) :
    ∃ tail, p.segments = .root :: tail := by
  obtain ⟨r, hr⟩ : ∃ r, p.text.toList = '/' :: r := by
    unfold isAbsolute at h
    exact List.head?_eq_some_iff.1 (beq_iff_eq.1 h)
  have hsplit : ('/' :: r).splitOn '/' = [] :: r.splitOn '/' := by
    simp [List.splitOn, List.splitOnP_cons_eq_if_modifyHead]
  unfold segments segmentsOf
  simp only [hr, hsplit, if_true]
  rw [if_neg (List.splitOn_ne_nil '/' r)]
  exact ⟨_, rfl⟩

/-- **What a clean absolute path is.** -/
theorem exists_clean_eq_ofNames (h : p.isAbsolute = true) :
    ∃ names, AreNames names ∧ p.clean = ofNames names := by
  obtain ⟨tail, htail⟩ := exists_segments_of_isAbsolute h
  obtain ⟨names, hnames, hclean⟩ := exists_cleanSegments_eq (isStep_of_segments_eq htail)
  refine ⟨names, hnames, ?_⟩
  unfold clean
  rw [htail, hclean]
  exact along_root ⟨""⟩ (names.map .name)

/-- What a path is joined to decides whether it begins at the root. -/
theorem isAbsolute_div (h : p.isAbsolute = true) (b : String) : (p / b).isAbsolute = true := by
  have hp : p.text.toList.head? = some '/' := beq_iff_eq.1 h
  have hne : p.text ≠ "" := by
    intro he
    rw [he] at hp
    cases hp
  obtain ⟨r, hr⟩ := List.head?_eq_some_iff.1 hp
  refine beq_iff_eq.2 ?_
  show (join p b).text.toList.head? = _
  unfold join
  split_ifs with hb
  · exact hb.resolve_right hne
  · rw [String.toList_append, hr]
    rfl
  · rw [String.toList_append, String.toList_append, hr]
    rfl

theorem parent?_ofNames_nil : (ofNames []).parent? = none := by
  unfold parent?
  rw [segments_ofNames .nil]
  rfl

@[simp]
theorem parent?_ofNames (h : AreNames (names ++ [s])) :
    (ofNames (names ++ [s])).parent? = some (ofNames names) := by
  rcases eq_or_ne names [] with rfl | hne
  · unfold parent?
    rw [segments_ofNames h]
    rfl
  · have hparent := parent?_along ⟨"/"⟩ h.left.isStep (by simpa using hne) h.last
    unfold ofNames
    rw [List.map_append]
    exact hparent

/-- The directories above some names are those at the first ones of them. -/
theorem exists_eq_ofNames_of_mem_ancestors (h : AreNames names) {d : Path}
    (hd : d ∈ (ofNames names).ancestors) : ∃ q, AreNames q ∧ d = ofNames q := by
  unfold ancestors at hd
  revert hd
  generalize (ofNames names).segments.length = n
  intro hd
  induction n generalizing names with
  | zero => exact ⟨names, h, List.mem_singleton.1 hd⟩
  | succ n ih =>
    rcases List.eq_nil_or_concat names with rfl | ⟨q, s, rfl⟩
    · rw [ancestors.go, parent?_ofNames_nil] at hd
      exact ⟨[], .nil, List.mem_singleton.1 hd⟩
    · rw [List.concat_eq_append] at h hd
      rw [ancestors.go, parent?_ofNames h] at hd
      rcases List.mem_cons.1 hd with rfl | hd
      · exact ⟨_, h, rfl⟩
      · exact ih h.left hd

/-- Outermost first, they begin with the root and take one name more each. -/
theorem reverse_ancestors_ofNames (h : AreNames names) :
    (ofNames names).ancestors.reverse = names.inits.map ofNames := by
  have hgo : ∀ n, names.length ≤ n →
      (ancestors.go n (ofNames names)).reverse = names.inits.map ofNames := by
    induction names using List.reverseRecOn with
    | nil =>
      rintro (_ | n) -
      · rfl
      · rw [ancestors.go, parent?_ofNames_nil]
        rfl
    | append_singleton names s ih =>
      rintro (_ | n) hn
      · simp at hn
      · rw [List.length_append, List.length_singleton] at hn
        rw [ancestors.go, parent?_ofNames h, List.reverse_cons, ih h.left n (by omega)]
        simp [List.inits_append]
  exact hgo _ (by rw [segments_ofNames h, List.length_cons, List.length_map]; omega)

/-- Whether a path is written as names from the root. -/
def IsRooted (p : Path) : Prop :=
  ∃ names, AreNames names ∧ p = ofNames names

theorem isRooted_ofNames (h : AreNames names) : (ofNames names).IsRooted :=
  ⟨names, h, rfl⟩

theorem isRooted_clean (h : p.isAbsolute = true) : p.clean.IsRooted :=
  exists_clean_eq_ofNames h

/-- Such paths are the same if they are written the same. -/
theorem IsRooted.same_iff {q : Path} (hp : p.IsRooted) (hq : q.IsRooted) :
    p.same q = true ↔ p = q := by
  obtain ⟨names, hnames, rfl⟩ := hp
  obtain ⟨more, hmore, rfl⟩ := hq
  rw [same_ofNames hnames hmore, ofNames_inj hnames hmore]

theorem absolute_of_isAbsolute (w : Workspace) (h : p.isAbsolute = true) : w.absolute p = p :=
  div_of_absolute (beq_iff_eq.1 h)

@[simp]
theorem absolutize_ofNames (w : Workspace) (h : AreNames names) :
    w.absolutize (ofNames names) = ofNames names := by
  unfold Workspace.absolutize
  rw [absolute_of_isAbsolute w (isAbsolute_ofNames h), clean_ofNames h]

theorem fileName?_ofNames (h : AreNames (names ++ [s])) :
    (ofNames (names ++ [s])).fileName? = some s := by
  unfold fileName?
  rw [segments_ofNames h, List.map_append, List.map_singleton, ← List.cons_append,
    List.getLast?_concat]

/-- A name has the extension that follows its last dot, unless that is its first
character. -/
theorem extension?_eq_some_iff {e : String} (hp : p.fileName? = some s) (he : '.' ∉ e.toList) :
    p.extension? = some e ↔ ∃ stem, stem ≠ [] ∧ s.toList = stem ++ '.' :: e.toList := by
  have hsplit := List.takeWhile_append_dropWhile (p := (· != '.')) (l := s.toList.reverse)
  unfold extension?
  rw [hp]
  constructor
  · intro h
    simp only at h
    split_ifs at h with hlt
    have htail := congrArg String.toList (Option.some.inj h)
    rw [String.toList_ofList] at htail
    have hlen := congrArg List.length hsplit
    cases hdrop : s.toList.reverse.dropWhile (· != '.') with
    | nil =>
      rw [hdrop] at hlen
      simp only [List.length_append, List.length_nil, List.length_reverse] at hlen hlt
      omega
    | cons c r =>
      have hc : c = '.' := by
        have := List.head?_dropWhile_not (· != '.') s.toList.reverse
        rw [hdrop] at this
        simpa using this
      refine ⟨r.reverse, fun hr => ?_, ?_⟩
      · rw [List.reverse_eq_nil_iff] at hr
        rw [hdrop, hr] at hlen
        simp only [List.length_append, List.length_singleton, List.length_reverse] at hlen hlt
        omega
      · have := congrArg List.reverse hsplit
        rw [List.reverse_append, List.reverse_reverse, hdrop, htail, hc, List.reverse_cons,
          List.append_assoc] at this
        exact this.symm
  · rintro ⟨stem, hstem, hs⟩
    have htail : (s.toList.reverse.takeWhile (· != '.')).reverse = e.toList := by
      rw [hs, List.reverse_append, List.reverse_cons, List.append_assoc,
        List.takeWhile_append_of_pos, List.singleton_append, List.takeWhile_cons_of_neg (by simp),
        List.append_nil, List.reverse_reverse]
      intro c hc
      rw [bne_iff_ne]
      rintro rfl
      exact he (List.mem_reverse.1 hc)
    have hlen : 0 < stem.length := List.length_pos_iff.2 hstem
    simp only [htail]
    rw [if_pos (by rw [hs, List.length_append, List.length_cons]; omega), String.ofList_toList]

end Path
end ReleaseLint
