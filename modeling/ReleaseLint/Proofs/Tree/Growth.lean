/-
# Trees that grow

Making directories and storing binaries only lets a tree grow: a directory or a file comes where
nothing stood, and a file may take the place of a file.

| an entry | becomes |
| --- | --- |
| none | none, a directory or a file |
| a file | that file or another one |
| a directory, a link | the same |

Whatever a path leads to in a tree, it leads to in a tree that has grown (`GrowsTo.keeps`), so
that a file that is there stays (`hasFile_mono`).  Making directories lets every tree grow
(`makeDirectories_growsTo`), whether it succeeds or not.
-/

import ReleaseLint.Proofs.Path.Segments
import ReleaseLint.Proofs.Tree.Lookup

namespace ReleaseLint
namespace Tree

variable {t t' t'' : Tree} {names m : Names} {n : Node}

/-- What may become of an entry in a tree that grows. -/
inductive Grows : Option Node → Option Node → Prop
  | same (o : Option Node) : Grows o o
  | made : Grows none (some .directory)
  | stored {o : Option Node} {data x} : (∀ n, o = some n → n.isFile = true) →
      Grows o (some (.file data x))

/-- Whether one tree has grown out of another. -/
def GrowsTo (t t' : Tree) : Prop :=
  ∀ m, Grows (t.find? m) (t'.find? m)

theorem Grows.trans {o o' o'' : Option Node} (h : Grows o o') (h' : Grows o' o'') :
    Grows o o'' := by
  cases h with
  | same => exact h'
  | made =>
    cases h' with
    | same => exact .made
    | stored hfile => exact absurd (hfile _ rfl) (by decide)
  | stored hfile =>
    cases h' with
    | same => exact .stored hfile
    | stored _ => exact .stored hfile

theorem GrowsTo.refl (t : Tree) : t.GrowsTo t :=
  fun _ => .same _

theorem GrowsTo.trans (h : t.GrowsTo t') (h' : t'.GrowsTo t'') : t.GrowsTo t'' :=
  fun m => (h m).trans (h' m)

/-- **A tree that grows keeps what it has.** -/
theorem GrowsTo.keeps (h : t.GrowsTo t') : t.Keeps t' := by
  intro m n hn
  have hm := h m
  rw [hn] at hm
  generalize t'.find? m = o at hm ⊢
  cases hm with
  | same => exact .inl rfl
  | stored hfile => exact .inr ⟨hfile n rfl, _, _, rfl⟩

theorem GrowsTo.directory (h : t.GrowsTo t') (hm : t.find? m = some .directory) :
    t'.find? m = some .directory := by
  rcases h.keeps m _ hm with hm' | ⟨hfile, -⟩
  · exact hm'
  · cases hfile

theorem GrowsTo.file {data : ByteArray} {x : Bool} (h : t.GrowsTo t')
    (hm : t.find? m = some (.file data x)) : ∃ data x, t'.find? m = some (.file data x) := by
  rcases h.keeps m _ hm with hm' | ⟨-, hm'⟩
  · exact ⟨data, x, hm'⟩
  · exact hm'

/-- **No link comes into a tree that grows.** -/
theorem GrowsTo.link {target : Path} (h : t.GrowsTo t') (hm : t'.find? m = some (.link target)) :
    t.find? m = some (.link target) := by
  have hgrows := h m
  rw [hm] at hgrows
  generalize t.find? m = o at hgrows ⊢
  cases hgrows with
  | same => rfl

theorem growsTo_put (hne : names ≠ []) (h : Grows (t.find? names) (some n)) :
    t.GrowsTo (t.put names n) := by
  intro m
  rw [find?_put hne]
  split_ifs with hm
  · rw [hm]
    exact h
  · exact .same _

theorem growsTo_of_makeDirectory {here : Path} {s : Segment} {f : Option SystemFault}
    (h : t.makeDirectory here s = (t', f)) : t.GrowsTo t' := by
  obtain rfl | ⟨names, -, -, hnone, rfl⟩ := makeDirectory_cases h
  · exact .refl _
  · exact growsTo_put (by simp) (hnone ▸ .made)

/-- **Making directories lets a tree grow.** -/
theorem makeDirectories_growsTo (t : Tree) (segments : List Segment) (here : Path) :
    t.GrowsTo (t.makeDirectories here segments).1 := by
  induction segments generalizing t here with
  | nil => exact .refl t
  | cons s rest ih =>
    rw [makeDirectories_cons]
    rcases hmake : t.makeDirectory here s with ⟨t', f⟩
    have hstep := growsTo_of_makeDirectory hmake
    cases f with
    | some f => exact hstep
    | none => exact hstep.trans (ih t' _)

/-- Making directories along some segments and one more is making the last one behind the
others. -/
theorem makeDirectories_concat {q : List Segment} {s : Segment} : ∀ {t : Tree} {here : Path},
    t.makeDirectories here (q ++ [s]) = (t', none) →
      ∃ t'', t.makeDirectories here q = (t'', none) ∧
        t''.makeDirectory (here.along q) s = (t', none) := by
  induction q with
  | nil =>
    intro t here h
    rw [List.nil_append, makeDirectories_cons] at h
    refine ⟨t, rfl, ?_⟩
    rcases hmake : t.makeDirectory here s with ⟨t'', f⟩
    rw [hmake] at h
    cases f with
    | some f => cases h
    | none =>
      rw [show t' = t'' from (Prod.mk.inj h).1.symm]
      exact hmake
  | cons x q ih =>
    intro t here h
    rw [List.cons_append, makeDirectories_cons] at h
    rw [makeDirectories_cons]
    rcases hmake : t.makeDirectory here x with ⟨t'', f⟩
    rw [hmake] at h
    cases f with
    | some f => cases h
    | none => exact ih h

/-- A directory that has been made stands at its place. -/
theorem makeDirectory_ok {here : Path} {s : Segment} (h : t.makeDirectory here s = (t', none)) :
    (t' = t ∧ t.node (here / s.text) = .ok .directory) ∨
      ∃ names, t.locate here = .ok names ∧ t' = t.put (names ++ [s.text]) .directory := by
  unfold makeDirectory at h
  split at h
  · rename_i hnode
    exact .inl ⟨(Prod.mk.inj h).1.symm, hnode⟩
  · cases h
  · split at h
    · cases h
    · rename_i names hnames
      split at h
      · cases h
      · exact .inr ⟨names, hnames, (Prod.mk.inj h).1.symm⟩
  · cases h

end Tree

namespace Workspace

variable {w w' w'' : Workspace} {p : Path}

/-- Whether one workspace has grown out of another. -/
structure GrowsTo (w w' : Workspace) : Prop where
  directory_eq : w'.directory = w.directory
  tree : w.tree.GrowsTo w'.tree

theorem GrowsTo.refl (w : Workspace) : w.GrowsTo w :=
  ⟨rfl, .refl _⟩

theorem GrowsTo.trans (h : w.GrowsTo w') (h' : w'.GrowsTo w'') : w.GrowsTo w'' :=
  ⟨h'.directory_eq.trans h.directory_eq, h.tree.trans h'.tree⟩

theorem GrowsTo.absolute_eq (h : w.GrowsTo w') (p : Path) : w'.absolute p = w.absolute p := by
  unfold absolute
  rw [h.directory_eq]

theorem makeDirectories_growsTo (w : Workspace) (p : Path) : w.GrowsTo (w.makeDirectories p).1 := by
  have hgrows := w.tree.makeDirectories_growsTo (w.absolute p).segments ⟨"/"⟩
  unfold makeDirectories
  cases p.fault? with
  | some f => exact .refl w
  | none => exact ⟨rfl, hgrows⟩

/-- **A file that is there stays in a workspace that grows.** -/
theorem hasFile_mono (h : w.GrowsTo w') (hfile : w.hasFile p = true) : w'.hasFile p = true := by
  obtain ⟨hfault, m, data, x, hm, hdata⟩ := hasFile_iff.1 hfile
  obtain ⟨data', x', hdata'⟩ := h.tree.file hdata
  refine hasFile_iff.2 ⟨hfault, m, data', x', ?_, hdata'⟩
  rw [h.absolute_eq]
  exact Tree.locate_mono h.tree.keeps hm

end Workspace
end ReleaseLint
