/-
# Patterns that stay below their directory

A relative pattern is refused if it climbs: if following its segments leads above the directory at
which one starts, wherever it leads afterwards.

| pattern | segments | refused |
| --- | --- | --- |
| `a/../b/*` | down, up, down, down | no |
| `a/../../b/*` | down, up, up above the start | yes |
| `\x7b../x,y\x7d/*` | three names with a wildcard | no |

The check looks at the first segment of the cleaned pattern only.  That is enough, since cleaning
keeps a parent that has no name in front of it, and nothing behind undoes it
(`foldl_follow_cases`).  What climbs leads outside of some directory (`climbs_iff`), and what does
not leads below every one, its literal base as well as all that a walk finds there
(`traversal_is_refused`).
-/

import ReleaseLint.Proofs.Glob.Walk
import ReleaseLint.Proofs.Path.Canonical

namespace ReleaseLint

namespace Path

open Segment (IsName)

variable {p d : Path} {segments : List Segment} {names start : Names}

/-- Whether following segments leads above a directory, from as many names below it. -/
def risesFrom : (depth : Nat) → List Segment → Bool
  | _, [] => false
  | 0, .parent :: _ => true
  | depth + 1, .parent :: r => risesFrom depth r
  | depth, .name _ :: r => risesFrom (depth + 1) r
  | depth, _ :: r => risesFrom depth r

/-- A parent below names on parents is never undone. -/
theorem exists_foldl_follow_of_parents (hroot : .root ∉ segments) (names : Names) (n : Nat) :
    ∃ (names' : Names) (n' : Nat),
      segments.foldl follow (names.map .name ++ List.replicate (n + 1) .parent) =
        names'.map .name ++ List.replicate (n' + 1) .parent := by
  induction segments generalizing names n with
  | nil => exact ⟨names, n, rfl⟩
  | cons x r ih =>
    rw [List.mem_cons, not_or] at hroot
    cases x with
    | root => exact absurd rfl hroot.1
    | here => exact ih hroot.2 names n
    | name s => exact ih hroot.2 (s :: names) n
    | parent =>
      cases names with
      | nil => exact ih hroot.2 [] (n + 1)
      | cons s names => exact ih hroot.2 names n

/-- **Following segments from some names** leads to parents if it leads above them at one point,
and to names otherwise. -/
theorem foldl_follow_cases (hroot : .root ∉ segments) (names : Names) :
    risesFrom names.length segments = true ∧ (∃ (names' : Names) (n : Nat),
        segments.foldl follow (names.map .name) =
          names'.map .name ++ List.replicate (n + 1) .parent) ∨
      risesFrom names.length segments = false ∧
        ∃ names' : Names, segments.foldl follow (names.map .name) = names'.map .name := by
  induction segments generalizing names with
  | nil => exact .inr ⟨rfl, names, rfl⟩
  | cons x r ih =>
    rw [List.mem_cons, not_or] at hroot
    cases x with
    | root => exact absurd rfl hroot.1
    | here => exact ih hroot.2 names
    | name s => exact ih hroot.2 (s :: names)
    | parent =>
      cases names with
      | nil => exact .inl ⟨rfl, exists_foldl_follow_of_parents hroot.2 [] 0⟩
      | cons s names => exact ih hroot.2 names

/-- A relative path is cleaned to parents and names. -/
theorem exists_cleanSegments_of_relative (h : p.isAbsolute = false) :
    ∃ n names, AreNames names ∧ cleanSegments p.segments = List.replicate n .parent ++ names.map .name := by
  obtain ⟨floor, names, rfl | ⟨n, rfl⟩, hnames, heq⟩ := areClean_cleanSegments p
  · have hroot : Segment.root ∈ p.segments := mem_cleanSegments (heq ▸ List.mem_cons_self)
    exact absurd hroot (root_not_mem_of_relative fun hhead => by simp [isAbsolute, hhead] at h)
  · exact ⟨n, names, hnames, heq⟩

/-- Where parents and names lead. -/
theorem placeFrom_of_cleanSegments {n : Nat}
    (h : cleanSegments p.segments = List.replicate n .parent ++ names.map .name) (start : Names) :
    p.placeFrom start = start.take (start.length - n) ++ names := by
  unfold placeFrom
  rw [← foldl_enter_cleanSegments, h, List.foldl_append, foldl_enter_parents, foldl_enter_names]

/-- **A cleaned path lies below another one** if its place does. -/
theorem segments_clean_prefix_iff (hd : d.isAbsolute = true) (hp : p.isAbsolute = true) :
    d.clean.segments <+: p.clean.segments ↔ d.placeFrom [] <+: p.placeFrom [] := by
  obtain ⟨hnames, hclean⟩ := clean_eq_ofNames_placeFrom hd []
  obtain ⟨hnames', hclean'⟩ := clean_eq_ofNames_placeFrom hp []
  rw [hclean, hclean', segments_ofNames hnames, segments_ofNames hnames', List.cons_prefix_cons,
    and_iff_right rfl]
  exact List.prefix_map_iff_of_injective fun _ _ => Segment.name.inj

end Path

namespace Glob

open Path (ofNames risesFrom placeFrom)

variable {w : Workspace} {f : Filter} {pattern : String} {names : Names}

/-! ### What climbs -/

theorem climbs_of_cleanSegments {n : Nat} (h : Path.cleanSegments (Path.mk pattern).segments =
    List.replicate n .parent ++ names.map .name) : climbs pattern = true ↔ 0 < n := by
  unfold climbs
  by_cases hnil : Path.cleanSegments (Path.mk pattern).segments = []
  · rw [Path.clean_eq, if_pos hnil]
    rw [hnil, eq_comm, List.append_eq_nil_iff, List.replicate_eq_nil_iff] at h
    rw [h.1]
    decide
  · rw [Path.segments_clean_of_ne_nil hnil, h]
    cases n with
    | zero => cases names <;> simp
    | succ n => simp [List.replicate_succ]

/-- **What climbs leads above its start** at one point. -/
theorem climbs_eq_risesFrom (hrelative : (Path.mk pattern).isAbsolute = false) :
    climbs pattern = risesFrom 0 (Path.mk pattern).segments := by
  have hroot : Segment.root ∉ (Path.mk pattern).segments :=
    Path.root_not_mem_of_relative fun hhead => by simp [Path.isAbsolute, hhead] at hrelative
  obtain ⟨n, names, -, hclean⟩ := Path.exists_cleanSegments_of_relative hrelative
  have hparents := climbs_of_cleanSegments hclean
  have hfold : (Path.mk pattern).segments.foldl Path.follow [] =
      names.reverse.map .name ++ List.replicate n .parent := by
    rw [← List.reverse_inj]
    simpa [Path.cleanSegments] using hclean
  rcases Path.foldl_follow_cases hroot [] with ⟨hrises, more, m, heq⟩ | ⟨hrises, more, heq⟩
  · rw [show risesFrom 0 _ = true from hrises, hparents]
    rw [List.map_nil] at heq
    rw [heq] at hfold
    have hmem : Segment.parent ∈ names.reverse.map Segment.name ++ List.replicate n .parent := by
      rw [← hfold]
      simp
    by_contra hn
    obtain rfl : n = 0 := by omega
    simp at hmem
  · rw [show risesFrom 0 _ = false from hrises, Bool.eq_false_iff, Ne, hparents]
    rw [List.map_nil] at heq
    rw [heq] at hfold
    have hmem : Segment.parent ∉ names.reverse.map Segment.name ++ List.replicate n .parent := by
      rw [← hfold]
      simp
    intro hn
    exact hmem (by simp; omega)

/-- **What climbs leads outside of some directory,** and what does not leads below every one. -/
theorem climbs_iff (hrelative : (Path.mk pattern).isAbsolute = false) :
    climbs pattern = true ↔
      ∃ d : Path, d.isAbsolute = true ∧ ¬d.clean.segments <+: (d / pattern).clean.segments := by
  obtain ⟨n, names, hnames, hclean⟩ := Path.exists_cleanSegments_of_relative hrelative
  have houtside (d : Path) (hd : d.isAbsolute = true) :
      d.clean.segments <+: (d / pattern).clean.segments ↔
        d.placeFrom [] <+: (d.placeFrom []).take ((d.placeFrom []).length - n) ++ names := by
    rw [Path.segments_clean_prefix_iff hd (Path.isAbsolute_div hd pattern),
      Path.placeFrom_div d ⟨pattern⟩, Path.placeFrom_of_cleanSegments hclean]
  rw [climbs_of_cleanSegments hclean]
  constructor
  · intro hn
    -- from a directory with one name, one parent leads to the root
    obtain ⟨s, hs, hfresh⟩ := Path.exists_isName_not_mem names
    have hone : AreNames [s] := List.forall_mem_singleton.2 hs
    refine ⟨ofNames [s], Path.isAbsolute_ofNames hone, ?_⟩
    rw [houtside _ (Path.isAbsolute_ofNames hone), Path.placeFrom_ofNames hone,
      show [s].length - n = 0 by simp; omega, List.take_zero, List.nil_append]
    exact fun hpre => hfresh (hpre.subset List.mem_cons_self)
  · rintro ⟨d, hd, hnot⟩
    by_contra hn
    obtain rfl : n = 0 := by omega
    rw [houtside d hd, Nat.sub_zero, List.take_length] at hnot
    exact hnot (List.prefix_append _ _)

/-! ### What is found -/

/-- The base of a pattern that does not climb leads below the directory from which it is seen. -/
theorem exists_placeFrom_baseOf (hrelative : (Path.mk pattern).isAbsolute = false)
    (hclimbs : climbs pattern = false) :
    ∃ lead, ∀ start, (baseOf (split (Path.mk pattern).clean.segments).1).placeFrom start =
      start ++ lead := by
  obtain ⟨n, names, hnames, hclean⟩ := Path.exists_cleanSegments_of_relative hrelative
  obtain rfl : n = 0 := by
    have := (climbs_of_cleanSegments hclean).not.1 (by simp [hclimbs])
    omega
  rw [List.replicate_zero, List.nil_append] at hclean
  by_cases hnil : names = []
  · -- the pattern is a dot
    rw [hnil, List.map_nil] at hclean
    refine ⟨[], fun start => ?_⟩
    rw [Path.clean_eq, if_pos hclean, List.append_nil,
      show (baseOf (split (Path.mk ".").segments).1) = ⟨"."⟩ by decide]
    rfl
  · rw [Path.segments_clean_of_ne_nil (by simpa [hclean] using hnil), hclean]
    have hsplit : (split (names.map .name)).1 = (leadOf names).map .name := by
      unfold split leadOf
      exact List.takeWhile_map
    have hlead : Path.AreClean ((leadOf names).map .name) :=
      ⟨[], _, .inr ⟨0, rfl⟩, areNames_leadOf hnames, rfl⟩
    refine ⟨leadOf names, fun start => ?_⟩
    rw [hsplit]
    unfold baseOf
    split_ifs with hempty
    · have hleadnil : leadOf names = [] := by simpa using hempty
      rw [hleadnil, List.append_nil]
      rfl
    · unfold placeFrom
      rw [hlead.segments_ofSegments, Path.foldl_enter_names]

/-- **What a pattern that does not climb finds** lies below the directory from which it is seen. -/
theorem exists_eq_ofNames_of_expand (hw : w.directory.isAbsolute = true) (ht : IsNamed w.tree)
    (hrelative : (Path.mk pattern).isAbsolute = false) {found : List Path}
    (h : expand w f pattern = .ok found) {p : Path} (hp : p ∈ found) :
    ∃ names, AreNames names ∧ p = ofNames names ∧ w.directory.placeFrom [] <+: names := by
  have hclimbs : climbs pattern = false := by
    rw [expand_eq_bind] at h
    obtain ⟨⟨⟩, hcheck, -⟩ := bind_eq_ok.1 h
    exact (check_eq_ok.1 hcheck).2
  obtain ⟨lead, hlead⟩ := exists_placeFrom_baseOf hrelative hclimbs
  have hbase : AreNames (w.directory.placeFrom [] ++ lead) ∧
      literalBase w pattern = ofNames (w.directory.placeFrom [] ++ lead) := by
    rw [← hlead, ← Path.placeFrom_div]
    exact Path.clean_eq_ofNames_placeFrom (Path.isAbsolute_div hw _) []
  obtain ⟨hnames, hbase⟩ := hbase
  by_cases htail : globTail pattern = []
  · have hfound := expand_of_plain htail h
    rw [hbase] at hfound
    rw [hfound] at hp
    split_ifs at hp
    · exact ⟨_, hnames, List.mem_singleton.1 hp, List.prefix_append _ _⟩
    · exact absurd hp List.not_mem_nil
  · rcases expand_eq_ok htail h with ⟨-, hnone⟩ | ⟨-, ps, -, hall⟩
    · rw [hnone] at hp
      exact absurd hp List.not_mem_nil
    · rw [hall] at hp
      obtain ⟨top, below, node, -, hbelow, -, -, -, heq⟩ := mem_matchesBelow.1 hp
      rw [heq, hbase, pathBelow_ofNames, List.append_assoc]
      refine ⟨_, ?_, rfl, List.prefix_append _ _⟩
      rw [← List.append_assoc]
      exact hnames.append (areNames_below ht hbelow).1

/-- **Traversal is refused.**  A relative pattern that can be read is refused exactly if it leads
outside of some directory, which is if following its segments leads above the start at one point.
All that an accepted one finds lies at or below the directory from which it is seen, at an absolute
path without dots and parents. -/
theorem traversal_is_refused (hrelative : (Path.mk pattern).isAbsolute = false) :
    ((∃ pieces, compile pattern = .ok pieces) →
      (check pattern = .error (.traversal pattern) ↔
        ∃ d : Path, d.isAbsolute = true ∧ ¬d.clean.segments <+: (d / pattern).clean.segments) ∧
      (check pattern = .error (.traversal pattern) ↔
        risesFrom 0 (Path.mk pattern).segments = true) ∧
      (check pattern = .ok () ↔ risesFrom 0 (Path.mk pattern).segments = false)) ∧
    ∀ (w : Workspace) (f : Filter), w.directory.isAbsolute = true → IsNamed w.tree →
      ∀ found, expand w f pattern = .ok found → ∀ p ∈ found,
        p.isAbsolute = true ∧ .here ∉ p.segments ∧ .parent ∉ p.segments ∧
          w.directory.clean.segments <+: p.segments := by
  refine ⟨?_, fun w f hw ht found h p hp => ?_⟩
  · rintro ⟨pieces, hpieces⟩
    have hrefused : check pattern = .error (.traversal pattern) ↔ climbs pattern = true := by
      have hcheck : check pattern = if climbs pattern then .error (.traversal pattern) else .ok () := by
        unfold check
        rw [hpieces]
        cases climbs pattern <;> rfl
      rw [hcheck]
      split_ifs with hclimbs
      · exact iff_of_true rfl hclimbs
      · exact iff_of_false (fun he => by cases he) hclimbs
    have haccepted : check pattern = .ok () ↔ climbs pattern = false := by
      rw [check_eq_ok, and_iff_right ⟨pieces, compile_eq_ok.1 hpieces⟩]
    rw [hrefused, haccepted, ← climbs_eq_risesFrom hrelative]
    exact ⟨climbs_iff hrelative, Iff.rfl, Iff.rfl⟩
  · obtain ⟨names, hnames, rfl, hprefix⟩ := exists_eq_ofNames_of_expand hw ht hrelative h hp
    have hclean := Path.segments_clean_prefix_iff hw (Path.isAbsolute_ofNames hnames)
    rw [Path.clean_ofNames hnames, Path.placeFrom_ofNames hnames] at hclean
    refine ⟨Path.isAbsolute_ofNames hnames, ?_, ?_, hclean.2 hprefix⟩
    all_goals
      rw [Path.segments_ofNames hnames]
      simp

/-- A project with a manifest in it and one beside it. -/
def neighbours : Workspace where
  tree := ⟨[(["r"], .directory), (["r", "m"], .directory),
    (["r", "m", "a.yaml"], .file .empty false), (["x"], .directory),
    (["x", "a.yaml"], .file .empty false)]⟩
  directory := ⟨"/r"⟩

/-- A parent in braces does not lead to the manifest beside the project, and one that climbs is
refused although it leads back. -/
theorem traversal_is_refused_in_neighbours :
    (check "m/../\x7b../x,m\x7d/*.yaml" = .ok () ∧
      expand neighbours ⟨true, none⟩ "m/../\x7b../x,m\x7d/*.yaml" = .ok [⟨"/r/m/a.yaml"⟩] ∧
      neighbours.directory.clean.segments <+: (Path.mk "/r/m/a.yaml").segments) ∧
    check "../r/m/*" = .error (.traversal "../r/m/*") := by
  have hfound : expand neighbours ⟨true, none⟩ "m/../\x7b../x,m\x7d/*.yaml" =
      .ok [⟨"/r/m/a.yaml"⟩] := toOption_eq_some_iff.1 (by decide +kernel)
  have hsound : neighbours.tree.IsSound := by decide +kernel
  obtain ⟨hchecked, hcontained⟩ := @traversal_is_refused "m/../\x7b../x,m\x7d/*.yaml" (by decide)
  obtain ⟨hchecked', -⟩ := @traversal_is_refused "../r/m/*" (by decide)
  have hreads (pattern : String) (h : (compile pattern).toOption.isSome = true) :
      ∃ pieces, compile pattern = .ok pieces := by
    obtain ⟨pieces, hpieces⟩ := Option.isSome_iff_exists.1 h
    exact ⟨pieces, toOption_eq_some_iff.1 hpieces⟩
  refine ⟨⟨?_, hfound, ?_⟩, ?_⟩
  · exact (hchecked (hreads _ (by decide +kernel))).2.2.2 (by decide +kernel)
  · exact (hcontained neighbours ⟨true, none⟩ (by decide) hsound.named _ hfound _
      List.mem_cons_self).2.2.2
  · exact (hchecked' (hreads _ (by decide +kernel))).2.1.2 (by decide +kernel)

end Glob
end ReleaseLint
