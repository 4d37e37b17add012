/-
# Storing binaries in a cache without links

| storing a binary | |
| --- | --- |
| its directories cannot be made | `unprepared` |
| the binary cannot be put into its directory | `refused` |
| else | `stored` |

`Stores` is this table.  While no link stands in the cache nor on the way to it (`HoldsNoLinks`),
storing lets the workspace grow, whether it succeeds or not (`Stores.growsTo`), so that no link
comes there, and a binary that has been stored is found at its path (`Stores.hasFile`).
-/

import ReleaseLint.Proofs.Cache.Placement
import ReleaseLint.Proofs.Cache.Session
import ReleaseLint.Proofs.Tree.Growth

namespace ReleaseLint

/-- Whether an error of a resolve comes before anything is stored. -/
def Error.comesBeforeStoring : Error → Bool
  | .lookup .. | .download .. | .checksumMissing .. | .checksumMismatch .. | .archive _
  | .entryMissing _ | .unsupportedTool _ | .unsupportedPlatform _ => true
  | _ => false

namespace Tool
namespace Cache

open Session
open Segment (IsName)

variable {c : Place} {w w' : Workspace} {tree tree' : Tree} {root : Path} {t : Tool} {v : String}
  {p : Platform} {names : Names} {binary : ByteArray} {m m' : Machine}

theorem Place.Leads.growsTo (h : c.Leads tree) (hgrows : tree.GrowsTo tree') : c.Leads tree' where
  leads := Tree.follow_mono hgrows.keeps h.leads
  directory := hgrows.directory h.directory
  linkless names hnames target htarget := h.linkless names hnames target (hgrows.link htarget)

/-- Whether the root of a cache has a place, with no link from the top of the place on. -/
structure Place.Stands (c : Place) (w : Workspace) (root : Path) : Prop where
  segments_eq : (w.absolute root).segments = .root :: (c.front ++ c.missing.map .name)
  leads : c.Leads w.tree

theorem Place.Stands.growsTo (h : c.Stands w root) (hgrows : w.GrowsTo w') : c.Stands w' root where
  segments_eq := by
    rw [hgrows.absolute_eq]
    exact h.segments_eq
  leads := h.leads.growsTo hgrows.tree

/-- Whether no link stands in a cache, nor on the way to it where it is still to be made. -/
def HoldsNoLinks (w : Workspace) (root : Path) : Prop :=
  ∃ c : Place, c.Stands w root

theorem StartsEmpty.holdsNoLinks (h : StartsEmpty w root) : HoldsNoLinks w root := by
  obtain ⟨c, hv⟩ := h
  refine ⟨c, hv.segments_eq, hv.leads, hv.directory, fun names hnames target htarget => ?_⟩
  rw [hv.vacant names hnames] at htarget
  cases htarget

/-- Directories that have been made are there. -/
theorem Place.Leads.find?_of_makeDirectories (h : c.Leads tree) (hne : names ≠ [])
    (hsteps : ∀ x ∈ c.front ++ (c.missing ++ names).map Segment.name, x.IsStep)
    (hmake : tree.makeDirectories ⟨"/"⟩ (.root :: (c.front ++ (c.missing ++ names).map .name)) =
      (tree', none)) : tree'.find? (c.root ++ names) = some .directory := by
  obtain ⟨names, s, rfl⟩ := List.eq_nil_or_concat names |>.resolve_left hne
  rw [List.concat_eq_append] at hsteps hmake ⊢
  have hsplit : Segment.root :: (c.front ++ (c.missing ++ (names ++ [s])).map Segment.name) =
      (Segment.root :: (c.front ++ (c.missing ++ names).map .name)) ++ [.name s] := by
    simp
  rw [hsplit] at hmake
  obtain ⟨before, hbefore, hlast⟩ := Tree.makeDirectories_concat hmake
  have hgrows := Tree.makeDirectories_growsTo tree
    (Segment.root :: (c.front ++ (c.missing ++ names).map .name)) ⟨"/"⟩
  rw [hbefore] at hgrows
  have hleads := h.growsTo hgrows
  rcases Tree.makeDirectory_ok hlast with ⟨rfl, hnode⟩ | ⟨m, hm, rfl⟩
  · obtain ⟨m, hm, hdirectory⟩ := Tree.node_eq_ok.1 hnode
    rw [← Path.along_concat, ← hsplit] at hm
    rw [hleads.locate_slash_along (List.prefix_refl _) hsteps hm] at hdirectory
    rwa [← List.append_assoc] at hdirectory
  · have hpre : c.missing ++ names <+: c.missing ++ (names ++ [s]) := by
      rw [← List.append_assoc]
      exact List.prefix_append _ _
    have hsteps' : ∀ x ∈ c.front ++ (c.missing ++ names).map Segment.name, x.IsStep := by
      intro x hx
      refine hsteps x ?_
      rw [← List.append_assoc, List.map_append, ← List.append_assoc]
      exact List.mem_append_left _ hx
    rw [hleads.locate_slash_along hpre hsteps' hm, Tree.find?_put (by simp), if_pos]
    unfold Place.root
    simp only [List.append_assoc]
    rfl

/-! ### One binary -/

theorem putFile_eq_ok {directory path : Path} {name : String} {data : ByteArray}
    (h : putFile w directory path name data = .ok w') :
    path.fault? = none ∧ ∃ names, w.tree.locate (w.absolute directory) = .ok names ∧
      w.tree.find? (names ++ [name]) ≠ some .directory ∧
      w' = { w with tree := w.tree.put (names ++ [name]) (.file data true) } := by
  unfold putFile at h
  cases hfault : path.fault? with
  | some f =>
    rw [hfault] at h
    cases h
  | none =>
    refine ⟨rfl, ?_⟩
    rw [hfault] at h
    cases hlocate : w.tree.locate (w.absolute directory) with
    | error f =>
      rw [hlocate] at h
      cases h
    | ok names =>
      rw [hlocate] at h
      refine ⟨names, rfl, ?_⟩
      simp only [bind, Except.bind, pure, Except.pure] at h
      split at h
      · cases h
      · rename_i hdirectory
        exact ⟨hdirectory, (Except.ok.inj h).symm⟩

/-- What storing a binary comes to. -/
inductive Stores (root : Path) (t : Tool) (v : String) (p : Platform) (binary : ByteArray)
    (m : Machine) : Except Error Path × Machine → Prop
  | unprepared {w : Workspace} {f : SystemFault} :
      m.workspace.makeDirectories (directory root t v p) = (w, some f) →
      Stores root t v p binary m
        (.error (.cacheDirectory (directory root t v p)), { m with workspace := w })
  | refused {w : Workspace} {f : SystemFault} :
      m.workspace.makeDirectories (directory root t v p) = (w, none) →
      putFile w (directory root t v p) (binaryPath root t v p) (t.binaryName p) binary = .error f →
      Stores root t v p binary m
        (.error (.cacheFile (binaryPath root t v p)), { m with workspace := w })
  | stored {w w' : Workspace} :
      m.workspace.makeDirectories (directory root t v p) = (w, none) →
      putFile w (directory root t v p) (binaryPath root t v p) (t.binaryName p) binary = .ok w' →
      Stores root t v p binary m (.ok (binaryPath root t v p), { m with workspace := w' })

theorem stores_store (root : Path) (t : Tool) (v : String) (p : Platform) (binary : ByteArray)
    (m : Machine) : Stores root t v p binary m ((store root t v p binary).runOn m) := by
  have hdirectory : (binaryPath root t v p).parent?.getD root = directory root t v p := rfl
  unfold store
  simp only [runOn_bind, runOn_workspace, hdirectory]
  rcases hmake : m.workspace.makeDirectories (directory root t v p) with ⟨w, f⟩
  cases f with
  | some f => exact .unprepared hmake
  | none =>
    simp only [runOn_modify, Option.isSome_none, Bool.false_eq_true, if_false]
    cases hput : putFile w (directory root t v p) (binaryPath root t v p) (t.binaryName p)
      binary with
    | error f => exact .refused hmake hput
    | ok w' => exact .stored hmake hput

/-- What is stored depends on the workspace only. -/
theorem workspace_store_congr {n : Machine} (h : n.workspace = m.workspace) :
    ((store root t v p binary).runOn n).2.workspace =
      ((store root t v p binary).runOn m).2.workspace := by
  unfold store
  simp only [runOn_bind, runOn_workspace, h]
  rcases m.workspace.makeDirectories ((binaryPath root t v p).parent?.getD root) with ⟨w, f⟩
  cases f with
  | some f => rfl
  | none =>
    simp only [runOn_modify, Option.isSome_none, Bool.false_eq_true, if_false]
    cases putFile w ((binaryPath root t v p).parent?.getD root) (binaryPath root t v p)
      (t.binaryName p) binary <;> rfl

theorem Stores.exists_eq {result : Except Error Path × Machine}
    (h : Stores root t v p binary m result) : ∃ w, result.2 = { m with workspace := w } := by
  cases h <;> exact ⟨_, rfl⟩

/-- Storing has errors of its own. -/
theorem Stores.not_comesBeforeStoring {e : Error} (h : Stores root t v p binary m (.error e, m')) :
    e.comesBeforeStoring = false := by
  cases h <;> rfl

theorem Place.Stands.segments_directory (h : c.Stands w root) (t : Tool) (hv : IsName v)
    (hp : p.IsPlain) : (w.absolute (directory root t v p)).segments =
      .root :: (c.front ++ (c.missing ++ home t v p).map .name) := by
  have hsteps := isStep_of_mem_home (t := t) hv hp
  rw [directory_eq root t hv hp, Path.absolute_along w hsteps, Path.segments_along hsteps,
    h.segments_eq, List.map_append, List.cons_append, List.append_assoc]

theorem Place.Stands.locate_directory (h : c.Stands w root) (t : Tool) (hv : IsName v)
    (hp : p.IsPlain) : w.tree.locate (w.absolute (directory root t v p)) = .ok names ↔
      names = c.root ++ home t v p ∧ w.tree.Passes c.top (c.missing ++ home t v p) := by
  have hsteps := isStep_of_mem_home (t := t) hv hp
  rw [directory_eq root t hv hp, Path.absolute_along w hsteps]
  exact h.leads.locate_along h.segments_eq hsteps (by simp [home])

theorem Place.Stands.find?_of_makeDirectories (h : c.Stands w root) (hv : IsName v)
    (hp : p.IsPlain) (hmake : w.makeDirectories (directory root t v p) = (w', none)) :
    w'.tree.find? (c.root ++ home t v p) = some .directory := by
  have hsegments := h.segments_directory t hv hp
  unfold Workspace.makeDirectories at hmake
  split at hmake
  · cases (Prod.mk.inj hmake).2
  · rw [hsegments] at hmake
    rcases hmade : w.tree.makeDirectories ⟨"/"⟩
      (.root :: (c.front ++ (c.missing ++ home t v p).map .name)) with ⟨tree, f⟩
    rw [hmade] at hmake
    obtain ⟨rfl, rfl⟩ := Prod.mk.inj hmake
    exact h.leads.find?_of_makeDirectories (by simp [home])
      (Path.isStep_of_segments_eq hsegments) hmade

/-- **Putting a binary into its directory lets the workspace grow.** -/
theorem Place.Stands.putFile (h : c.Stands w root) (hv : IsName v) (hp : p.IsPlain)
    (hput : putFile w (directory root t v p) (binaryPath root t v p) (t.binaryName p) binary =
      .ok w') :
    w.GrowsTo w' ∧ w'.tree.find? (c.root ++ key t v p) = some (.file binary true) ∧
      (binaryPath root t v p).fault? = none ∧ w.tree.Passes c.top (c.missing ++ home t v p) := by
  obtain ⟨hfault, names, hlocate, hdirectory, rfl⟩ := putFile_eq_ok hput
  obtain ⟨rfl, hpasses⟩ := (h.locate_directory t hv hp).1 hlocate
  have hkey : c.root ++ home t v p ++ [t.binaryName p] = c.root ++ key t v p := List.append_assoc ..
  rw [hkey] at hdirectory ⊢
  have hne : key t v p ≠ [] := by simp [key]
  refine ⟨⟨rfl, Tree.growsTo_put (by simp [key]) (.stored fun n hn => ?_)⟩, ?_, hfault, hpasses⟩
  · -- neither a directory nor a link stands in place of the binary
    cases n with
    | file data x => rfl
    | directory => exact absurd hn hdirectory
    | link target => exact absurd hn (h.leads.linkless _ (Place.covers_below hne) target)
  · show (w.tree.put _ _).find? _ = _
    rw [Tree.find?_put (by simp [key]), if_pos rfl]

/-- **Storing lets the workspace grow,** whether it succeeds or not. -/
theorem Stores.growsTo {result : Except Error Path × Machine}
    (h : Stores root t v p binary m result) (hc : c.Stands m.workspace root) (hv : IsName v)
    (hp : p.IsPlain) : m.workspace.GrowsTo result.2.workspace := by
  have hgrows := m.workspace.makeDirectories_growsTo (directory root t v p)
  cases h with
  | unprepared hmake | refused hmake =>
    rw [hmake] at hgrows
    exact hgrows
  | stored hmake hput =>
    rw [hmake] at hgrows
    exact hgrows.trans ((hc.growsTo hgrows).putFile hv hp hput).1

/-- **A binary that has been stored is at its path.** -/
theorem Stores.hasFile {path : Path} (h : Stores root t v p binary m (.ok path, m'))
    (hc : c.Stands m.workspace root) (hv : IsName v) (hp : p.IsPlain) :
    path = binaryPath root t v p ∧ m'.workspace.hasFile path = true := by
  have hgrows := m.workspace.makeDirectories_growsTo (directory root t v p)
  cases h with
  | @stored w w' hmake hput =>
    rw [hmake] at hgrows
    have hcw := hc.growsTo hgrows
    obtain ⟨hgrows', hfile, hfault, hpasses⟩ := hcw.putFile hv hp hput
    have hcw' := hcw.growsTo hgrows'
    refine ⟨rfl, (hasFile_iff hcw'.leads hcw'.segments_eq hv hp).2 ⟨hfault, ?_, _, _, hfile⟩⟩
    -- the directory of the binary has been made, and the binary stands in it
    have hdirectory := hgrows'.tree.directory (hc.find?_of_makeDirectories hv hp hmake)
    unfold Place.root at hdirectory hfile
    rw [List.append_assoc] at hdirectory
    unfold key at hfile ⊢
    rw [List.append_assoc, ← List.append_assoc c.missing, ← List.append_assoc] at hfile
    rw [← List.append_assoc]
    have hpasses' := hpasses.mono (fun _ _ hd => hgrows'.tree.directory hd)
      fun _ _ hf => hgrows'.tree.file hf
    exact hpasses'.concat hdirectory (fits_binaryName t p) (.inr ⟨_, _, hfile⟩)

end Cache
end Tool
end ReleaseLint
