/-
# Which ignore files apply

The checker for a directory belongs to the nearest directory at or above it that holds
`.git`, the root of the repository.  Its files are, the weakest first:

| file | its rules are read from |
| --- | --- |
| `.git/info/exclude` of the root | the root |
| `.gitignore` of the root | the root |
| `.gitignore` of each directory from there down to the start | that directory |

`load_eq_ok` says so of every checker that is loaded, and `rulesAlong` lists the rules of
these files in that order, each with the names that lead from the root to its directory.
-/

import ReleaseLint.Ignore.Checker
import ReleaseLint.Proofs.Except
import ReleaseLint.Proofs.Path.Clean

namespace ReleaseLint
namespace Ignore

open Segment (IsName)
open Path (ofNames)

variable {w : Workspace} {root along names : Names} {c : Checker}

/-- The ignore files for a directory at the names `along` below the root: the names of the
directory and of the file, both from the root, the weakest file first. -/
def filesAlong (along : Names) : List (Names × Names) :=
  ([], [".git", "info", "exclude"]) :: along.inits.map fun d => (d, d ++ [".gitignore"])

/-- The ignore file at some names below a root, if there is one. -/
def sourceAt (w : Workspace) (root : Names) (e : Names × Names) : Option Source :=
  if w.hasFile (ofNames (root ++ e.2)) then
    some (.ofData (ofNames (root ++ e.1))
      ((w.read (ofNames (root ++ e.2))).toOption.getD .empty))
  else none

/-- The rules for a directory at the names `along` below the root, the weakest first, with
the names from the root to the directory of each one's file. -/
def rulesAlong (w : Workspace) (root along : Names) : List (Names × Rule) :=
  (filesAlong along).flatMap fun e =>
    ((sourceAt w root e).map (·.rules)).getD [] |>.map fun r => (e.1, r)

/-! ### The root of the repository -/

theorem ancestors_ofNames_nil : (ofNames []).ancestors = [ofNames []] := by
  have h := Path.reverse_ancestors_ofNames AreNames.nil
  rw [← List.reverse_inj, h]
  rfl

theorem ancestors_ofNames_concat {s : String} (h : AreNames (names ++ [s])) :
    (ofNames (names ++ [s])).ancestors = ofNames (names ++ [s]) :: (ofNames names).ancestors := by
  rw [← List.reverse_inj, Path.reverse_ancestors_ofNames h, List.reverse_cons,
    Path.reverse_ancestors_ofNames h.left]
  simp [List.inits_append]

/-- Whether the names `root` lead to the nearest directory at or above `root ++ along` that
holds `.git`. -/
structure IsRootOf (w : Workspace) (root along : Names) : Prop where
  has : w.has (ofNames root / ".git") = true
  nearest : ∀ m, m <+: along → m ≠ [] → w.has (ofNames (root ++ m) / ".git") = false

instance (w : Workspace) (root along : Names) : Decidable (IsRootOf w root along) :=
  decidable_of_iff (w.has (ofNames root / ".git") = true ∧
      ∀ m ∈ along.inits, m ≠ [] → w.has (ofNames (root ++ m) / ".git") = false) <|
    ⟨fun h => ⟨h.1, fun m hm => h.2 m ((List.mem_inits m along).2 hm)⟩,
      fun h => ⟨h.has, fun m hm => h.nearest m ((List.mem_inits m along).1 hm)⟩⟩

/-- There is one root. -/
theorem IsRootOf.eq {root' along' : Names} (h : IsRootOf w root along)
    (h' : IsRootOf w root' along') (heq : root ++ along = root' ++ along') : root = root' := by
  wlog hle : root.length ≤ root'.length generalizing root root' along along'
  · exact (this h' h heq.symm (Nat.le_of_not_le hle)).symm
  obtain ⟨m, rfl⟩ : root <+: root' :=
    List.prefix_of_prefix_length_le (List.prefix_append root along)
      (heq ▸ List.prefix_append root' along') hle
  rw [List.append_assoc, List.append_cancel_left_eq] at heq
  by_cases hm : m = []
  · rw [hm, List.append_nil]
  · have hnone := h.nearest m (heq ▸ List.prefix_append m along') hm
    rw [h'.has] at hnone
    cases hnone

/-- **The root is the nearest directory with `.git`.** -/
theorem repositoryRoot?_eq_some {p : Path} (h : AreNames names)
    (hroot : repositoryRoot? w (ofNames names) = some p) :
    ∃ root along, names = root ++ along ∧ p = ofNames root ∧ IsRootOf w root along := by
  unfold repositoryRoot? at hroot
  induction names using List.reverseRecOn with
  | nil =>
    rw [ancestors_ofNames_nil, List.find?_singleton] at hroot
    split_ifs at hroot with hhas
    exact ⟨[], [], rfl, (Option.some.inj hroot).symm, hhas,
      fun m hm hne => absurd (List.prefix_nil.1 hm) hne⟩
  | append_singleton names s ih =>
    rw [ancestors_ofNames_concat h, List.find?_cons] at hroot
    split at hroot
    · rename_i hhas
      exact ⟨names ++ [s], [], (List.append_nil _).symm, (Option.some.inj hroot).symm, hhas,
        fun m hm hne => absurd (List.prefix_nil.1 hm) hne⟩
    · rename_i hnone
      obtain ⟨root, along, rfl, hp, hhas, hnearest⟩ := ih h.left hroot
      refine ⟨root, along ++ [s], List.append_assoc .., hp, hhas, fun m hm hne => ?_⟩
      rcases List.prefix_concat_iff.1 hm with rfl | hm
      · rwa [← List.append_assoc]
      · exact hnearest m hm hne

/-! ### The files -/

theorem below?_ofNames (h : AreNames names) (hroot : AreNames root) :
    (ofNames names).below? (ofNames root) =
      if root <+: names then some ((names.drop root.length).map .name) else none := by
  have hpre : (Segment.root :: root.map Segment.name).isPrefixOf
      (Segment.root :: names.map .name) = true ↔ root <+: names := by
    rw [List.isPrefixOf_iff_prefix, List.cons_prefix_cons, and_iff_right rfl,
      List.prefix_map_iff_of_injective fun _ _ => Segment.name.inj]
  unfold Path.below?
  rw [Path.segments_ofNames h, Path.segments_ofNames hroot]
  by_cases hr : root <+: names
  · rw [if_pos (hpre.2 hr), if_pos hr, List.length_cons, List.length_map, List.drop_succ_cons,
      List.map_drop]
  · rw [if_neg (hpre.not.2 hr), if_neg hr]

theorem below?_append {q d : Names} (hq : AreNames (root ++ q)) (hd : AreNames (root ++ d)) :
    (ofNames (root ++ q)).below? (ofNames (root ++ d)) =
      if d <+: q then some ((q.drop d.length).map .name) else none := by
  rw [below?_ofNames hq hd, List.length_append, List.drop_append, Nat.add_sub_cancel_left,
    List.drop_eq_nil_of_le (Nat.le_add_right _ _), List.nil_append]
  exact if_congr (List.prefix_append_right_inj root) rfl rfl

theorem directoriesAlong_ofNames (root along : Names) :
    directoriesAlong (ofNames root) (along.map .name) =
      along.inits.map fun d => ofNames (root ++ d) := by
  induction along generalizing root with
  | nil =>
    rw [List.inits, List.map_singleton, List.append_nil]
    rfl
  | cons s r ih =>
    have hstep : ofNames root / (Segment.name s).text = ofNames (root ++ [s]) :=
      (Path.ofNames_concat root s).symm
    rw [List.map_cons, directoriesAlong, hstep, ih, List.inits_cons, List.map_cons, List.map_map,
      List.append_nil]
    refine congrArg _ (List.map_congr_left fun d _ => ?_)
    exact congrArg ofNames (List.append_assoc root [s] d)

theorem source?_eq_ok {directory file : Path} {o : Option Source}
    (h : Checker.source? w directory file = .ok o) :
    o = if w.hasFile file then some (.ofData directory ((w.read file).toOption.getD .empty))
      else none := by
  unfold Checker.source? at h
  split_ifs at h ⊢ with hfile
  · dsimp only at h
    split_ifs at h with hdeep
    exact (Except.ok.inj h).symm
  · exact (Except.ok.inj h).symm

theorem mapM_source?_eq_ok {directories : List Path} {files : List (Option Source)}
    (h : (directories.mapM fun d => Checker.source? w d (d / ".gitignore")) = .ok files) :
    files = directories.map fun d => if w.hasFile (d / ".gitignore") then
      some (.ofData d ((w.read (d / ".gitignore")).toOption.getD .empty)) else none := by
  induction directories generalizing files with
  | nil => exact mapM_nil_eq_ok.1 h
  | cons d r ih =>
    obtain ⟨o, s, ho, hs, rfl⟩ := mapM_cons_eq_ok.1 h
    rw [List.map_cons, ← ih hs, source?_eq_ok ho]

/-- **What is loaded** are the files from the root down to the start, and there is one. -/
theorem load_eq_ok {base : Path} (hw : w.directory.isAbsolute = true)
    (h : Checker.load w base = .ok (some c)) :
    ∃ root along, AreNames (root ++ along) ∧ w.absolutize base = ofNames (root ++ along) ∧
      IsRootOf w root along ∧ c = ⟨ofNames root, (filesAlong along).filterMap (sourceAt w root)⟩ := by
  obtain ⟨names, hnames, hbase⟩ :=
    Path.exists_clean_eq_ofNames (Path.isAbsolute_div hw base.text)
  change w.absolutize base = ofNames names at hbase
  unfold Checker.load at h
  dsimp only at h
  rw [hbase] at h
  cases hroot : repositoryRoot? w (ofNames names) with
  | none =>
    rw [hroot] at h
    cases h
  | some p =>
    obtain ⟨root, along, rfl, rfl, hisRoot⟩ := repositoryRoot?_eq_some hnames hroot
    rw [hroot] at h
    obtain ⟨exclude, hexclude, h⟩ := bind_eq_ok.1 h
    rw [below?_ofNames hnames hnames.left, if_pos (List.prefix_append root along),
      List.drop_left, Option.getD_some, directoriesAlong_ofNames] at h
    obtain ⟨files, hfiles, h⟩ := bind_eq_ok.1 h
    refine ⟨root, along, hnames, hbase, hisRoot, ?_⟩
    have hsources : exclude :: files = (filesAlong along).map (sourceAt w root) := by
      have hexcludePath : ofNames root / ".git" / "info" / "exclude" =
          ofNames (root ++ [".git", "info", "exclude"]) := by
        rw [← Path.ofNames_concat, ← Path.ofNames_concat, ← Path.ofNames_concat]
        simp
      rw [source?_eq_ok hexclude, mapM_source?_eq_ok hfiles, hexcludePath]
      unfold filesAlong
      rw [List.map_cons, List.map_map, List.map_map]
      refine congrArg₂ _ ?_ (List.map_congr_left fun d _ => ?_)
      · unfold sourceAt
        rw [List.append_nil]
      · dsimp only [Function.comp_apply]
        rw [← Path.ofNames_concat, List.append_assoc]
        rfl
    rw [hsources, List.filterMap_map] at h
    split_ifs at h with hnone
    · cases h
    · exact (Option.some.inj (Except.ok.inj h)).symm

end Ignore
end ReleaseLint
