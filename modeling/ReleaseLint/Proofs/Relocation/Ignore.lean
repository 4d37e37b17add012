/-
# What is ignored in two places

The ignore files that apply in a project without a repository above it stand in the project.  So
they are the same at both places, and say the same there (`load_alike`, `Checker.IsMoved.ignores`).

A configured path is compared with their rules as it is seen from the root of the repository, or as
a whole if it lies outside: so in both places alike only if it lies in the repository
(`Checker.IsMoved.isBypassedBy`).
-/

import ReleaseLint.Proofs.Ignore.Naming
import ReleaseLint.Proofs.Relocation.Tree

namespace ReleaseLint
namespace Ignore

open Path (ofNames)

variable {v w : Workspace} {a b m q r : Names} {isDirectory : Bool}

/-- Whether two ignore files are the same but for the places of their directories. -/
structure Source.IsMoved (a b : Names) (s s' : Source) : Prop where
  directory : Path.IsMoved a b s.directory s'.directory
  rules : s.rules = s'.rules
  patterns : s.patterns = s'.patterns

/-- Whether two checkers are the same but for the places of their repositories. -/
structure Checker.IsMoved (a b : Names) (c c' : Checker) : Prop where
  root : Path.IsMoved a b c.root c'.root
  sources : List.Forall₂ (Source.IsMoved a b) c.sources c'.sources

/-! ### What is loaded -/

theorem source?_alike (h : IsRelocated v w a b) (hq : AreNames q) (hm : AreNames m) :
    Alike (Option.Rel (Source.IsMoved a b))
      (Checker.source? v (ofNames (a ++ q)) (ofNames (a ++ m)))
      (Checker.source? w (ofNames (b ++ q)) (ofNames (b ++ m))) := by
  unfold Checker.source?
  rw [h.hasFile hm, h.read hm]
  split_ifs with hfile
  · dsimp only
    have hrules : (Source.ofData (ofNames (a ++ q)) (((w.read (ofNames (b ++ m))).toOption).getD
        .empty)).rules = (Source.ofData (ofNames (b ++ q)) (((w.read (ofNames (b ++ m))).toOption).getD
        .empty)).rules := rfl
    rw [hrules]
    split_ifs
    · exact .failed _ _
    · exact .succeeded (.some ⟨⟨q, hq, rfl, rfl⟩, rfl, rfl⟩)
  · exact .succeeded .none

/-- Whether no directory above the names `a` holds `.git`. -/
def IsUnversioned (w : Workspace) (a : Names) : Prop :=
  ∀ q, q <+: a → q ≠ a → w.has (ofNames q / ".git") = false

instance (w : Workspace) (a : Names) : Decidable (IsUnversioned w a) :=
  decidable_of_iff (∀ q ∈ a.inits, q ≠ a → w.has (ofNames q / ".git") = false) <|
    forall_congr' fun q => by rw [List.mem_inits]

theorem repositoryRoot?_append (hw : IsUnversioned w a) (h : AreNames (a ++ r)) :
    repositoryRoot? w (ofNames (a ++ r)) =
      (r.inits.reverse.find? fun q => w.has (ofNames (a ++ (q ++ [".git"])))).map
        fun q => ofNames (a ++ q) := by
  obtain ⟨above, habove, hancestors⟩ := exists_ancestors_append h
  have hnone : above.find? (fun d => w.has (d / ".git")) = none := by
    rw [List.find?_eq_none]
    intro d hd
    obtain ⟨q, hpre, hne, rfl⟩ := habove d hd
    rw [hw q hpre hne]
    exact Bool.false_ne_true
  unfold repositoryRoot?
  rw [hancestors, List.find?_append, hnone, Option.or_none, ← List.map_reverse, List.find?_map]
  refine congrArg (Option.map _) (congrArg (List.find? · _) (funext fun q => ?_))
  rw [Function.comp_apply, ← Path.ofNames_concat, List.append_assoc]

/-- **The same ignore files are loaded at both places.** -/
theorem load_alike (h : IsRelocated v w a b) (hv : IsUnversioned v a) (hw : IsUnversioned w b)
    (hr : AreNames r) {base base' : Path} (hbase : v.absolutize base = ofNames (a ++ r))
    (hbase' : w.absolutize base' = ofNames (b ++ r)) :
    Alike (Option.Rel (Checker.IsMoved a b)) (Checker.load v base) (Checker.load w base') := by
  unfold Checker.load
  dsimp only
  rw [hbase, hbase', repositoryRoot?_append hv (h.left.append hr),
    repositoryRoot?_append hw (h.right.append hr)]
  have hupper {q : Names} (hq : q ∈ r.inits.reverse) : AreNames q := by
    obtain ⟨more, rfl⟩ := (List.mem_inits q r).1 (List.mem_reverse.1 hq)
    exact hr.left
  have hsame : (r.inits.reverse.find? fun q => v.has (ofNames (a ++ (q ++ [".git"])))) =
      r.inits.reverse.find? fun q => w.has (ofNames (b ++ (q ++ [".git"]))) := by
    refine List.find?_congr fun q hq => h.has ((hupper hq).append (by decide))
  rw [hsame]
  cases hroot : r.inits.reverse.find? fun q => w.has (ofNames (b ++ (q ++ [".git"]))) with
  | none => exact .succeeded .none
  | some q =>
    obtain ⟨along, rfl⟩ : q <+: r :=
      (List.mem_inits q r).1 (List.mem_reverse.1 (List.mem_of_find?_eq_some hroot))
    have hbelow {a : Names} (ha : AreNames a) :
        directoriesAlong (ofNames (a ++ q)) (((ofNames (a ++ (q ++ along))).below?
          (ofNames (a ++ q))).getD []) = along.inits.map fun d => ofNames (a ++ (q ++ d)) := by
      rw [← List.append_assoc, below?_ofNames (by rw [List.append_assoc]; exact ha.append hr)
        (ha.append hr.left), if_pos (List.prefix_append _ _), List.drop_left, Option.getD_some,
        directoriesAlong_ofNames]
      exact List.map_congr_left fun d _ => by rw [List.append_assoc]
    have hexclude (a : Names) : ofNames (a ++ q) / ".git" / "info" / "exclude" =
        ofNames (a ++ (q ++ [".git", "info", "exclude"])) := by
      rw [← Path.ofNames_concat, ← Path.ofNames_concat, ← Path.ofNames_concat]
      simp
    dsimp only [Option.map_some]
    rw [hbelow h.left, hbelow h.right, hexclude, hexclude]
    refine (source?_alike h hr.left (hr.left.append (by decide))).bind fun o o' ho => ?_
    have hfiles : Alike (List.Forall₂ (Option.Rel (Source.IsMoved a b)))
        ((along.inits.map fun d => ofNames (a ++ (q ++ d))).mapM fun d =>
          Checker.source? v d (d / ".gitignore"))
        ((along.inits.map fun d => ofNames (b ++ (q ++ d))).mapM fun d =>
          Checker.source? w d (d / ".gitignore")) := by
      refine Alike.mapM ?_
      rw [List.forall₂_map_left_iff, List.forall₂_map_right_iff, List.forall₂_same]
      intro d hd
      obtain ⟨more, rfl⟩ := (List.mem_inits d along).1 hd
      have hd : AreNames (q ++ d) := hr.left.append hr.right.left
      rw [← Path.ofNames_concat, ← Path.ofNames_concat, List.append_assoc a, List.append_assoc b]
      exact source?_alike h hd (hd.append (by decide))
    refine hfiles.bind fun files files' hfiles => ?_
    have hsources : List.Forall₂ (Source.IsMoved a b) ((o :: files).filterMap id)
        ((o' :: files').filterMap id) :=
      List.rel_filterMap (fun {_ _} h => h) (List.Forall₂.cons ho hfiles)
    have hempty : ((o :: files).filterMap id).isEmpty = ((o' :: files').filterMap id).isEmpty := by
      rw [Bool.eq_iff_iff, List.isEmpty_iff_length_eq_zero, List.isEmpty_iff_length_eq_zero,
        hsources.length_eq]
    rw [hempty]
    split_ifs
    · exact .succeeded .none
    · exact .succeeded (.some ⟨⟨q, hr.left, rfl, rfl⟩, hsources⟩)

/-! ### What it ignores -/

theorem Source.IsMoved.verdict? {s s' : Source} (h : s.IsMoved a b s') (ha : AreNames (a ++ m))
    (hb : AreNames (b ++ m)) (isDirectory : Bool) :
    s.verdict? (ofNames (a ++ m)) isDirectory = s'.verdict? (ofNames (b ++ m)) isDirectory := by
  obtain ⟨d, hd, hleft, hright⟩ := h.directory
  unfold Source.verdict?
  rw [hleft, hright, below?_append ha (ha.left.append hd), below?_append hb (hb.left.append hd),
    h.rules]

namespace Checker.IsMoved

variable {c c' : Checker}

/-- What two ignore files have in common, the checkers have in common. -/
theorem map_sources {α : Type} {f g : Source → α} (hc : c.IsMoved a b c')
    (hfg : ∀ s s', s.IsMoved a b s' → f s = g s') : c.sources.map f = c'.sources.map g := by
  rw [← List.forall₂_eq_eq_eq, List.forall₂_map_left_iff, List.forall₂_map_right_iff]
  exact hc.sources.imp hfg

theorem isExcluded (hc : c.IsMoved a b c') (ha : AreNames (a ++ m)) (hb : AreNames (b ++ m)) :
    c.isExcluded (ofNames (a ++ m)) isDirectory = c'.isExcluded (ofNames (b ++ m)) isDirectory := by
  have hverdicts : c.sources.filterMap (·.verdict? (ofNames (a ++ m)) isDirectory) =
      c'.sources.filterMap (·.verdict? (ofNames (b ++ m)) isDirectory) := by
    have hmap := congrArg (List.filterMap id)
      (hc.map_sources fun s s' hs => hs.verdict? ha hb isDirectory)
    rwa [List.filterMap_map, List.filterMap_map] at hmap
  unfold Checker.isExcluded
  rw [hverdicts]

/-- **The same is ignored at both places.** -/
theorem ignores (hc : c.IsMoved a b c') (h : IsRelocated v w a b) (hm : AreNames m) :
    c.ignores v (ofNames (a ++ m)) = c'.ignores w (ofNames (b ++ m)) := by
  have ha := h.left.append hm
  have hb := h.right.append hm
  obtain ⟨r, hr, hroot, hroot'⟩ := hc.root
  unfold Checker.ignores
  dsimp only
  rw [Path.absolutize_ofNames v ha, Path.absolutize_ofNames w hb, hroot, hroot',
    below?_append ha (h.left.append hr), below?_append hb (h.right.append hr), h.hasDirectory hm]
  split_ifs with hpre
  · obtain ⟨q, rfl⟩ := hpre
    rw [← List.append_assoc] at ha hb
    rw [List.drop_left, Bool.eq_iff_iff]
    dsimp only
    rw [isExcludedBelow_iff hroot ha, isExcludedBelow_iff hroot' hb]
    refine exists_congr fun m => and_congr_right fun hpre => and_congr_right fun _ => ?_
    obtain ⟨more, rfl⟩ := hpre
    rw [← List.append_assoc] at ha hb
    have hleft := ha.left
    have hright := hb.left
    rw [List.append_assoc] at hleft hright
    rw [List.append_assoc, List.append_assoc, hc.isExcluded hleft hright]
  · rfl

/-- **A path in the repository names ignored content at both places or at neither.** -/
theorem isBypassedBy (hc : c.IsMoved a b c') (ha : AreNames (a ++ m)) (hb : AreNames (b ++ m))
    (hin : ((ofNames (a ++ m)).below? c.root).isSome = true) :
    c.isBypassedBy (ofNames (a ++ m)).text = c'.isBypassedBy (ofNames (b ++ m)).text := by
  obtain ⟨r, hr, hroot, hroot'⟩ := hc.root
  have hpatterns : c.patterns = c'.patterns := by
    unfold Checker.patterns
    rw [List.flatMap_def, List.flatMap_def, hc.map_sources fun s s' hs => hs.patterns]
  rw [hroot, below?_append ha (ha.left.append hr)] at hin
  split_ifs at hin with hpre
  · obtain ⟨q, rfl⟩ := hpre
    rw [← List.append_assoc] at ha hb ⊢
    rw [← List.append_assoc, isBypassedBy_ofNames hroot ha, isBypassedBy_ofNames hroot' hb,
      hpatterns]
  · cases hin

end Checker.IsMoved

/-- Outside of the repository the name of a directory above the project may be a pattern. -/
example :
    (Checker.mk (ofNames ["p", "web"]) [⟨ofNames ["p", "web"], [], ["p"]⟩]).isBypassedBy
      "/p/*/a.yaml" = true ∧
    (Checker.mk (ofNames ["q", "web"]) [⟨ofNames ["q", "web"], [], ["p"]⟩]).isBypassedBy
      "/q/*/a.yaml" = false := by
  decide

end Ignore
end ReleaseLint
