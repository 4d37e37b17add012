/-
# A cache that many processes share

Any number of processes resolve binaries in one cache that starts empty, in any order of
their steps and with any answers of the servers.  At every moment the path of a binary is
either absent or holds a binary whole and executable that one of the processes has
extracted from an archive with the published digest (`cache_is_intact`).

`Intact` is the invariant: nothing that stood there before has changed, everything new is
a directory on the way to the root or an `Entry` of the cache, and each process has what
its stage says.

| entry | names below the root |
| --- | --- |
| directory | at most three |
| temporary file | three and a temporary name |
| binary | its key |
-/

import ReleaseLint.Proofs.Cache.Placement
import ReleaseLint.Proofs.Cache.Resolution
import ReleaseLint.Proofs.Except

namespace ReleaseLint
namespace Tool

open Cache Session
open Segment (IsName)

variable {ι : Type} {s s' : System ι} {c : Place} {w : Workspace} {cache : Path}
  {names rel : Names} {n : Node}

namespace System

/-- What stands below the root of a cache. -/
inductive Entry (s : System ι) (rel : Names) : Node → Prop
  | directory : rel.length ≤ 3 → Entry s rel .directory
  | temporary {home : Names} {name : String} {data : ByteArray} {x : Bool} : home.length = 3 →
      Process.IsTemporaryName name → rel = home ++ [name] → Entry s rel (.file data x)
  | binary (i : ι) {version : String} {data : ByteArray} : (s.process i).Stores version data →
      rel = (s.process i).task.key version → Entry s rel (.file data true)

theorem Entry.eq_directory (h : Entry s rel n) (hrel : rel.length ≤ 3) : n = .directory := by
  cases h with
  | directory => rfl
  | temporary hhome _ heq =>
    rw [heq, List.length_append, hhome, List.length_singleton] at hrel
    omega
  | binary i _ heq =>
    rw [heq] at hrel
    exact absurd hrel (by simp [Task.key, Cache.key, Cache.home])

theorem Entry.length_le (h : Entry s rel n) : rel.length ≤ 4 := by
  cases h with
  | directory h => omega
  | temporary hhome _ heq => simp [heq, hhome]
  | binary i _ heq => simp [heq, Task.key, Cache.key, Cache.home]

theorem Entry.isDirectory_or_isFile (h : Entry s rel n) : n = .directory ∨ n.isFile = true := by
  cases h with
  | directory => exact .inl rfl
  | temporary => exact .inr rfl
  | binary => exact .inr rfl

/-- What processes that share a cache keep to. -/
structure Intact (c : Place) (w : Workspace) (s : System ι) : Prop where
  directory_eq : s.workspace.directory = w.directory
  kept : ∀ names n, w.tree.find? names = some n → s.workspace.tree.find? names = some n
  grown : ∀ names n, s.workspace.tree.find? names = some n → w.tree.find? names = some n ∨
    (∃ r, names = c.top ++ r ∧ r <+: c.missing ∧ n = .directory) ∨
      ∃ rel, names = c.root ++ rel ∧ Entry s rel n
  traced : ∀ i, (s.process i).Traced
  placed : ∀ i, (s.process i).Placed c s.workspace
  apart : ∀ i j m, i ≠ j → (s.process i).stage.temporary? = some m →
    (s.process j).stage.temporary? ≠ some m

namespace Intact

theorem absolute_eq (h : Intact c w s) (a : Path) : s.workspace.absolute a = w.absolute a := by
  unfold Workspace.absolute
  rw [h.directory_eq]

/-- Below the root, only entries of the cache stand. -/
theorem entry (h : Intact c w s) (hv : c.IsVacant w cache) (hrel : rel ≠ [])
    (hn : s.workspace.tree.find? (c.root ++ rel) = some n) : Entry s rel n := by
  rcases h.grown _ _ hn with h0 | ⟨r, heq, hr, -⟩ | ⟨rel', heq, he⟩
  · rw [hv.vacant _ (Place.covers_below hrel)] at h0
    cases h0
  · unfold Place.root at heq
    rw [List.append_assoc] at heq
    have hlen := hr.length_le
    rw [← List.append_cancel_left heq, List.length_append] at hlen
    exact absurd (List.eq_nil_of_length_eq_zero (by omega)) hrel
  · rw [List.append_cancel_left heq]
    exact he

/-- The root is a directory, and so are the directories of binaries. -/
theorem eq_directory (h : Intact c w s) (hv : c.IsVacant w cache) (hrel : rel.length ≤ 3)
    (hn : s.workspace.tree.find? (c.root ++ rel) = some n) : n = .directory := by
  by_cases h0 : rel = []
  · subst h0
    rw [List.append_nil] at hn
    rcases h.grown _ _ hn with hn | ⟨r, -, -, hr⟩ | ⟨rel', heq, he⟩
    · by_cases hm : c.missing = []
      · unfold Place.root at hn
        rw [hm, List.append_nil, hv.directory] at hn
        exact (Option.some.inj hn).symm
      · rw [hv.vacant c.root ⟨c.missing, hm, rfl, .inl (List.prefix_refl _)⟩] at hn
        cases hn
    · exact hr
    · obtain rfl := List.self_eq_append_right.1 heq
      exact he.eq_directory hrel
  · exact (h.entry hv h0 hn).eq_directory hrel

theorem leads (h : Intact c w s) (hv : c.IsVacant w cache) : c.Leads s.workspace.tree where
  leads := Tree.follow_mono (fun _ _ hn => .inl (h.kept _ _ hn)) hv.leads
  directory := h.kept _ _ hv.directory
  linkless := by
    intro names hcov target hn
    rcases h.grown _ _ hn with h0 | ⟨r, -, -, hr⟩ | ⟨rel, -, he⟩
    · rw [hv.vacant _ hcov] at h0
      cases h0
    · cases hr
    · rcases he.isDirectory_or_isFile with he | he <;> cases he

/-- Nothing stands below a temporary file. -/
theorem below_temporary (h : Intact c w s) (hv : c.IsVacant w cache) {i : ι} {temporary m : Names}
    (ht : (s.process i).stage.temporary? = some temporary) (hpre : temporary <+: m)
    (hne : m ≠ temporary) : s.workspace.tree.find? m = none := by
  obtain ⟨⟨version, name, -, -, -, rfl⟩, -⟩ := (h.placed i).isTemporary ht
  obtain ⟨tail, rfl⟩ := hpre
  cases hn : s.workspace.tree.find? (c.root ++ ((s.process i).task.home version ++ [name]) ++ tail)
    with
  | none => rfl
  | some n =>
    rw [List.append_assoc] at hn
    have hlen := (h.entry hv (by simp) hn).length_le
    simp only [List.length_append, Task.home, Cache.home, List.length_cons, List.length_nil] at hlen
    have htail : tail = [] := List.eq_nil_of_length_eq_zero (by omega)
    rw [htail, List.append_nil] at hne
    exact absurd rfl hne

theorem shares (h : Intact c w s) (hv : c.IsVacant w cache) {i : ι}
    (hroot : (s.process i).task.resolver.cacheRoot = cache)
    (hname : ∀ version, (s.process i).version = some version → IsName version) :
    (s.process i).Shares c s.workspace where
  segments_eq := by rw [hroot, h.absolute_eq]; exact hv.segments_eq
  isName := hname

end Intact

/-- Nothing has happened yet. -/
theorem intact_start (c : Place) (w : Workspace) (task : ι → Task)
    (known : ι → Option Recommended) : Intact c w (start w task known) where
  directory_eq := rfl
  kept := fun _ _ h => h
  grown := fun _ _ h => .inl h
  traced := fun i => Process.traced_start (task i) (known i)
  placed := fun _ => trivial
  apart := fun _ _ _ _ h => by cases h

open Classical in
/-- What stands there still does so after a step. -/
theorem Entry.mono {p : Process} {i : ι} {w' : Workspace} (h : Entry s rel n)
    (hp : (s.process i).stage.isFinal = false) :
    Entry ⟨w', Function.update s.process i p⟩ rel n := by
  cases h with
  | directory h => exact .directory h
  | temporary h1 h2 h3 => exact .temporary h1 h2 h3
  | binary j hstores heq =>
    -- a process that has stored its binary has come to its end
    have hj : j ≠ i := by
      rintro rfl
      rw [hstores.2] at hp
      cases hp
    have hsame : Function.update s.process i p j = s.process j := Function.update_of_ne hj _ _
    rename_i version data
    have hstores' : (Function.update s.process i p j).Stores version data := hsame ▸ hstores
    have heq' : rel = (Function.update s.process i p j).task.key version := hsame ▸ heq
    exact .binary j hstores' heq'

namespace Intact

/-- **The invariant holds after each step of each process.** -/
theorem step (h : Intact c w s) (hv : c.IsVacant w cache)
    (hroot : ∀ i, (s.process i).task.resolver.cacheRoot = cache)
    (hname : ∀ i version, (s.process i).version = some version → IsName version)
    (hstep : s.Step s') : Intact c w s' := by
  classical
  obtain ⟨i, hi⟩ := hstep
  rename_i w' p
  have hleads := h.leads hv
  have hshares := h.shares hv (hroot i) (hname i)
  have hchange := hi.change hshares hleads (h.traced i) (h.placed i)
    fun temporary ht m hpre hne => h.below_temporary hv ht hpre hne
  have hself : Function.update s.process i p i = p := Function.update_self ..
  have hother : ∀ j, j ≠ i → Function.update s.process i p j = s.process j :=
    fun j hj => Function.update_of_ne hj _ _
  refine ⟨hi.directory_eq.trans h.directory_eq, ?_, ?_, ?_, ?_, ?_⟩
  · intro names n hn
    have hm := hchange names
    rw [h.kept names n hn] at hm
    have hfree : ∀ rel, rel ≠ [] → names ≠ c.root ++ rel := by
      rintro rel hrel rfl
      rw [hv.vacant _ (Place.covers_below hrel)] at hn
      cases hn
    generalize w'.tree.find? names = o at hm
    cases hm with
    | same => rfl
    | temporary hist =>
      obtain ⟨version, name, -, -, -, heq⟩ := hist
      exact absurd heq (hfree _ (by simp))
    | binary heq => exact absurd heq (hfree _ (by simp [Task.key, Cache.key]))
  · intro names n hn
    have hm := hchange names
    rw [hn] at hm
    generalize ho : s.workspace.tree.find? names = o at hm
    cases hm with
    | same =>
      rcases h.grown names n ho with h0 | hway | ⟨rel, heq, he⟩
      · exact .inl h0
      · exact .inr (.inl hway)
      · exact .inr (.inr ⟨rel, heq, he.mono hi.isFinal_eq_false⟩)
    | directory hr heq hpre =>
      rename_i r version
      rcases List.prefix_or_prefix_of_prefix hpre (List.prefix_append _ _) with hr | ⟨rel, rfl⟩
      · exact .inr (.inl ⟨r, heq, hr, rfl⟩)
      · refine .inr (.inr ⟨rel, by rw [heq, Place.root, List.append_assoc], .directory ?_⟩)
        exact ((List.prefix_append_right_inj _).1 hpre).length_le
    | temporary hist _ _ hfile =>
      obtain ⟨version, name, -, -, hname, heq⟩ := hist
      cases n with
      | file data x => exact .inr (.inr ⟨_, heq, .temporary rfl hname rfl⟩)
      | directory => cases hfile _ rfl
      | link target => cases hfile _ rfl
    | binary heq _ hstores =>
      rename_i version data _
      have hstores' : (Function.update s.process i p i).Stores version data := hself.symm ▸ hstores
      have heq' : (s.process i).task.key version =
          (Function.update s.process i p i).task.key version := by rw [hself, hi.task_eq]
      exact .inr (.inr ⟨_, heq, .binary i hstores' heq'⟩)
  · intro j
    by_cases hj : j = i
    · subst hj
      show (Function.update s.process j p j).Traced
      rw [hself]
      exact hi.traced (h.traced j)
    · show (Function.update s.process i p j).Traced
      rw [hother j hj]
      exact h.traced j
  · intro j
    by_cases hj : j = i
    · subst hj
      show (Function.update s.process j p j).Placed c w'
      rw [hself]
      exact hi.placed hshares hleads (h.traced j) (h.placed j) hchange
        fun rel n hrel hn => h.eq_directory hv hrel hn
    · show (Function.update s.process i p j).Placed c w'
      rw [hother j hj]
      exact (h.placed j).mono hi hchange fun m hm => h.apart j i m hj hm
  · -- a new temporary file is put where nothing stood, so it is nobody else's
    have hnew : ∀ j m, j ≠ i → p.stage.temporary? = some m →
        (s.process j).stage.temporary? ≠ some m := by
      intro j m hj hm hjm
      obtain ⟨-, data, x, hfile⟩ := (h.placed j).isTemporary hjm
      rcases hi.temporary? hm with hmine | hnone
      · exact h.apart j i m hj hjm hmine
      · rw [hnone] at hfile
        cases hfile
    intro a b m hab ha
    show (Function.update s.process i p b).stage.temporary? ≠ some m
    replace ha : (Function.update s.process i p a).stage.temporary? = some m := ha
    by_cases hai : a = i
    · subst hai
      rw [hself] at ha
      rw [hother b (Ne.symm hab)]
      exact hnew b m (Ne.symm hab) ha
    · rw [hother a hai] at ha
      by_cases hbi : b = i
      · subst hbi
        rw [hself]
        exact fun hb => hnew a m hai hb ha
      · rw [hother b hbi]
        exact h.apart a b m hab ha

/-- A cached binary, under its key, is one that a process has stored there. -/
theorem binary (h : Intact c w s) (hv : c.IsVacant w cache) {t : Tool} {version : String}
    {p : Platform} (hn : s.workspace.tree.find? (c.root ++ Cache.key t version p) = some n) :
    ∃ i data, n = .file data true ∧ (s.process i).task.tool = t ∧
      (s.process i).task.resolver.platform = p ∧ (s.process i).Stores version data := by
  cases h.entry hv (by simp [Cache.key]) hn with
  | directory hlen => exact absurd hlen (by simp [Cache.key, Cache.home])
  | temporary _ hname heq =>
    rw [Cache.key] at heq
    obtain ⟨-, hlast⟩ := List.append_inj' heq rfl
    exact absurd ((List.cons.inj hlast).1 ▸ hname) (not_isTemporaryName_binaryName t p)
  | binary i hstores heq =>
    obtain ⟨rfl, rfl, rfl⟩ := key_injective hstores.1.isSupported heq
    exact ⟨i, _, rfl, rfl, rfl, hstores⟩

theorem segments_eq (h : Intact c w s) (hv : c.IsVacant w cache) :
    (s.workspace.absolute cache).segments = .root :: (c.front ++ c.missing.map .name) := by
  rw [h.absolute_eq]
  exact hv.segments_eq

/-- The path of a binary is absent or holds what a process has stored. -/
theorem absent_or_stored (h : Intact c w s) (hv : c.IsVacant w cache) (t : Tool)
    {version : String} {p : Platform} (hname : IsName version) (hp : p.IsPlain) :
    s.workspace.has (binaryPath cache t version p) = false ∨
      ∃ i data, s.workspace.node (binaryPath cache t version p) = .ok (.file data true) ∧
        (s.process i).task.tool = t ∧ (s.process i).task.resolver.platform = p ∧
        (s.process i).Stores version data := by
  unfold Workspace.has
  cases hn : s.workspace.node (binaryPath cache t version p) with
  | error f => exact .inl rfl
  | ok n =>
    unfold Workspace.node at hn
    split at hn
    · cases hn
    · obtain ⟨m, hm, hfind⟩ := Tree.node_eq_ok.1 hn
      obtain ⟨rfl, -⟩ := ((h.leads hv).locate_binaryPath (h.segments_eq hv) hname hp).1 hm
      obtain ⟨i, data, rfl, ht, hq, hstores⟩ := h.binary hv hfind
      exact .inr ⟨i, data, rfl, ht, hq, hstores⟩

/-- What is present is a binary that can be reached. -/
theorem has_iff (h : Intact c w s) (hv : c.IsVacant w cache) (t : Tool) {version : String}
    {p : Platform} (hname : IsName version) (hp : p.IsPlain) :
    s.workspace.has (binaryPath cache t version p) = true ↔
      (binaryPath cache t version p).fault? = none ∧
        HasBinary c s.workspace.tree (Cache.key t version p) := by
  rw [← hasFile_iff (h.leads hv) (h.segments_eq hv) hname hp]
  unfold Workspace.hasFile
  rcases h.absent_or_stored hv t hname hp with habsent | ⟨i, data, hn, -⟩
  · rw [habsent]
    unfold Workspace.has at habsent
    cases hn : s.workspace.node (binaryPath cache t version p) with
    | error f => simp
    | ok n => rw [hn] at habsent; cases habsent
  · unfold Workspace.has
    rw [hn]
    exact ⟨fun _ => rfl, fun _ => rfl⟩

/-- A process that fails has made no temporary file and stored nothing. -/
theorem not_stores_of_fails (h : Intact c w s) {i : ι} (hf : (s.process i).Fails) :
    (s.process i).stage.temporary? = none ∧
      ∀ version data, ¬(s.process i).Stores version data := by
  refine ⟨?_, fun version data hstores => hf.not_extracts version data hstores.1⟩
  have htraced := h.traced i
  have hplaced := h.placed i
  unfold Process.Traced at htraced
  unfold Process.Placed at hplaced
  cases hs : (s.process i).stage with
  | write binary temporary count =>
    rw [hs] at htraced
    obtain ⟨version, he⟩ := htraced
    exact absurd he (hf.not_extracts version binary)
  | rename temporary =>
    rw [hs] at hplaced
    obtain ⟨-, version, data, he, -⟩ := hplaced
    exact absurd he (hf.not_extracts version data)
  | _ => rfl

end Intact

/-! ### Whole runs -/

variable {task : ι → Task} {known : ι → Option Recommended}

theorem Step.task_eq (h : s.Step s') (j : ι) : (s'.process j).task = (s.process j).task := by
  classical
  obtain ⟨i, hi⟩ := h
  rename_i w' p
  show (Function.update s.process i p j).task = _
  by_cases hj : j = i
  · subst hj
    rw [Function.update_self, hi.task_eq]
  · rw [Function.update_of_ne hj]

theorem Step.traced (h : s.Step s') (hs : ∀ i, (s.process i).Traced) (j : ι) :
    (s'.process j).Traced := by
  classical
  obtain ⟨i, hi⟩ := h
  rename_i w' p
  show (Function.update s.process i p j).Traced
  by_cases hj : j = i
  · subst hj
    rw [Function.update_self]
    exact hi.traced (hs j)
  · rw [Function.update_of_ne hj]
    exact hs j

theorem Step.version_eq (h : s.Step s') (hs : ∀ i, (s.process i).Traced) (j : ι)
    {version : String} (hv : (s.process j).version = some version) :
    (s'.process j).version = some version := by
  classical
  obtain ⟨i, hi⟩ := h
  rename_i w' p
  show (Function.update s.process i p j).version = _
  by_cases hj : j = i
  · subst hj
    rw [Function.update_self]
    exact hi.version_eq (hs j) hv
  · rw [Function.update_of_ne hj]
    exact hv

theorem Step.version_exact (h : s.Step s') (j : ι) {version : String}
    (ht : ∀ known, (s.process j).task.version? known = some (.ok version))
    (hs : ∀ v, (s.process j).version = some v → v = version) :
    ∀ v, (s'.process j).version = some v → v = version := by
  classical
  obtain ⟨i, hi⟩ := h
  rename_i w' p
  show ∀ v, (Function.update s.process i p j).version = some v → v = version
  by_cases hj : j = i
  · subst hj
    rw [Function.update_self]
    exact hi.version_exact ht hs
  · rw [Function.update_of_ne hj]
    exact hs

theorem Run.task_eq (h : Run s s') (i : ι) : (s'.process i).task = (s.process i).task := by
  induction h with
  | refl => rfl
  | tail _ hstep ih => exact (hstep.task_eq i).trans ih

theorem Run.traced (h : Run s s') (hs : ∀ i, (s.process i).Traced) :
    ∀ i, (s'.process i).Traced := by
  induction h with
  | refl => exact hs
  | tail _ hstep ih => exact hstep.traced ih

theorem Run.version_eq (h : Run s s') (hs : ∀ i, (s.process i).Traced) (i : ι) {version : String}
    (hv : (s.process i).version = some version) : (s'.process i).version = some version := by
  induction h with
  | refl => exact hv
  | tail hrun hstep ih => exact hstep.version_eq (Run.traced hrun hs) i ih

/-- A process whose specification names one version comes to no other. -/
theorem Run.version_exact (h : Run (start w task known) s) (i : ι) {version : String}
    (ht : ∀ known, (task i).version? known = some (.ok version)) :
    ∀ v, (s.process i).version = some v → v = version := by
  induction h with
  | refl =>
    intro v hv
    cases hv
  | tail hrun hstep ih =>
    refine hstep.version_exact i (fun known => ?_) ih
    rw [Run.task_eq hrun i]
    exact ht known

/-- **The invariant holds after every run.** -/
theorem Run.intact (h : Run s s') (hs : Intact c w s) (hv : c.IsVacant w cache)
    (hroot : ∀ i, (s.process i).task.resolver.cacheRoot = cache)
    (hname : ∀ i version, (s'.process i).version = some version → IsName version) :
    Intact c w s' := by
  induction h with
  | refl => exact hs
  | tail hrun hstep ih =>
    have htraced := Run.traced hrun hs.traced
    have hname' := fun i version hi => hname i version (hstep.version_eq htraced i hi)
    exact (ih hname').step hv (fun i => (Run.task_eq hrun i) ▸ hroot i) hname' hstep

/-- What can be reached in the cache stays so. -/
theorem Run.hasBinary (h : Run s s') (hs : Intact c w s) (hv : c.IsVacant w cache)
    (hroot : ∀ i, (s.process i).task.resolver.cacheRoot = cache)
    (hname : ∀ i version, (s'.process i).version = some version → IsName version)
    {t : Tool} {version : String} {p : Platform}
    (hb : HasBinary c s.workspace.tree (Cache.key t version p)) :
    HasBinary c s'.workspace.tree (Cache.key t version p) := by
  induction h with
  | refl => exact hb
  | tail hrun hstep ih =>
    have htraced := Run.traced hrun hs.traced
    have hname' := fun i version hi => hname i version (hstep.version_eq htraced i hi)
    have hintact := Run.intact hrun hs hv hroot hname'
    obtain ⟨i, hi⟩ := hstep
    have hshares := hintact.shares hv ((Run.task_eq hrun i) ▸ hroot i) (hname' i)
    exact Process.hasBinary_mono (ih hname') <|
      hi.change hshares (hintact.leads hv) (hintact.traced i) (hintact.placed i)
        fun temporary ht m hpre hne => hintact.below_temporary hv ht hpre hne

end System

/-- **A cache that starts empty stays intact.**  However the steps of the processes are
ordered and whatever the servers answer: the path of a binary is absent or holds, whole
and executable, what one of the processes has extracted from an archive with the
published digest; once present it stays so; a process that ends with a path leaves it
present; and a process whose archive or checksum fails a test puts nothing there.  All
this covers `Resolver.resolve`, which is a process that nobody interrupts. -/
theorem cache_is_intact (hempty : StartsEmpty w cache) {task : ι → Task}
    {known : ι → Option Recommended} (hroot : ∀ i, (task i).resolver.cacheRoot = cache)
    (hrun : System.Run (.start w task known) s) (hlater : System.Run s s')
    (hsemantic : ∀ i version, (s'.process i).version = some version →
      Version.IsSemantic version) :
    (∀ t version p, Version.IsSemantic version → p.IsPlain →
      s.workspace.has (binaryPath cache t version p) = false ∨
      ∃ i data, s.workspace.node (binaryPath cache t version p) = .ok (.file data true) ∧
        (s.process i).task.tool = t ∧ (s.process i).task.resolver.platform = p ∧
        (s.process i).Stores version data) ∧
    (∀ t version p, Version.IsSemantic version → p.IsPlain →
      s.workspace.has (binaryPath cache t version p) = true →
      s'.workspace.has (binaryPath cache t version p) = true) ∧
    (∀ i path, (s.process i).stage = .ended (.ok path) →
      (s.process i).task.resolver.platform.IsPlain →
      ∃ version, (s.process i).version = some version ∧
        path = (s.process i).task.target version ∧ s.workspace.has path = true) ∧
    (∀ i, (s.process i).Fails → (s.process i).stage.temporary? = none ∧
      ∀ version data, ¬(s.process i).Stores version data) ∧
    ∀ i (m : Machine), m.workspace = s.workspace →
      s.process i = .start (task i) m.recommended →
      ∃ s'', System.Run s s'' ∧ s''.workspace = (((task i).resolver.resolve (task i).tool
          (task i).spec).runOn m).2.workspace ∧
        (s''.process i).stage =
          .ended (((task i).resolver.resolve (task i).tool (task i).spec).runOn m).1 := by
  obtain ⟨c, hv⟩ := hempty
  have hname' : ∀ i version, (s'.process i).version = some version → IsName version :=
    fun i version h => Version.isName_of_semantic (hsemantic i version h)
  have htraced := System.Run.traced hrun fun i => Process.traced_start (task i) (known i)
  have hname := fun i version h => hname' i version (System.Run.version_eq hlater htraced i h)
  have hroot' : ∀ i, (s.process i).task.resolver.cacheRoot = cache :=
    fun i => System.Run.task_eq hrun i ▸ hroot i
  have hintact := System.Run.intact hrun (System.intact_start c w task known) hv hroot hname
  have hintact' := System.Run.intact hlater hintact hv hroot' hname'
  refine ⟨fun t version p hver hp => ?_, fun t version p hver hp hhas => ?_,
    fun i path hend hplain => ?_, fun i hfails => hintact.not_stores_of_fails hfails,
    fun i m hm hp => ?_⟩
  · exact hintact.absent_or_stored hv t (Version.isName_of_semantic hver) hp
  · have hn := Version.isName_of_semantic hver
    obtain ⟨hfault, hb⟩ := (hintact.has_iff hv t hn hp).1 hhas
    exact (hintact'.has_iff hv t hn hp).2
      ⟨hfault, System.Run.hasBinary hlater hintact hv hroot' hname' hb⟩
  · have hplaced := hintact.placed i
    unfold Process.Placed at hplaced
    rw [hend] at hplaced
    obtain ⟨version, hver, rfl, hfault, hb⟩ := hplaced
    refine ⟨version, hver, rfl, ?_⟩
    unfold Task.target at hfault ⊢
    rw [hroot' i] at hfault ⊢
    exact (hintact.has_iff hv _ (hname i version hver) hplain).2 ⟨hfault, hb hplain⟩
  · obtain ⟨s'', hrun', hw, hend, -⟩ := resolve_run s i m hm hp
    exact ⟨s'', hrun', hw, hend⟩

/-- An archive that holds one file, `preflight.exe`, of one byte. -/
def sampleArchive : ByteArray := ⟨#[
  80, 75, 3, 4, 10, 0, 0, 0, 0, 0, 0, 0, 0, 0, 131, 22, 220, 140, 1, 0, 0, 0, 1, 0, 0, 0, 13, 0,
  0, 0, 112, 114, 101, 102, 108, 105, 103, 104, 116, 46, 101, 120, 101, 120, 80, 75, 1, 2, 10, 0,
  10, 0, 0, 0, 0, 0, 0, 0, 0, 0, 131, 22, 220, 140, 1, 0, 0, 0, 1, 0, 0, 0, 13, 0, 0, 0, 0, 0, 0,
  0, 0, 0, 0, 0, 0, 0, 0, 0, 0, 0, 112, 114, 101, 102, 108, 105, 103, 104, 116, 46, 101, 120, 101,
  80, 75, 5, 6, 0, 0, 0, 0, 1, 0, 1, 0, 59, 0, 0, 0, 44, 0, 0, 0, 0, 0]⟩

/-- The digest of this archive. -/
def sampleDigest : String :=
  "dc6dcbd5ac8d74c4e269e13737d247a88fe0cf37249253278e9cd20bf6a96e36"

/-- The checksums that are published with it. -/
def sampleChecksums : String :=
  sampleDigest ++ "  preflight_windows_amd64.zip"

/-- The release that it is the archive of. -/
def sampleRelease : Release :=
  .ofTroubleshoot .preflight "1.0.0" ⟨"windows", "amd64"⟩ "http://h"

/-- The requests of its download. -/
def sampleRequests : List Request :=
  [⟨sampleRelease.archiveUrl, .response 200 sampleArchive⟩,
    ⟨sampleRelease.checksum.url, .response 200 sampleChecksums.toUTF8⟩]

theorem verify_sampleArchive (file : String) :
    Checksum.verify sampleArchive sampleDigest file = .ok () := by
  have hdigest : Sha256.hex sampleArchive = sampleDigest := by decide +kernel
  unfold Checksum.verify
  rw [hdigest]
  exact if_pos (by decide +kernel)

theorem digestIn_sampleChecksums :
    sampleRelease.digestIn (textOf sampleChecksums.toUTF8) = .ok sampleDigest := by
  rw [textOf_toUTF8]
  exact toOption_eq_some_iff.1 (by decide +kernel)

/-- Where servers publish this archive, its binary is what is stored. -/
theorem runOn_resolve_sampleArchive {r : Resolver} {m : Machine}
    (hplatform : r.platform = ⟨"windows", "amd64"⟩) (hsites : r.sites = .single "http://h")
    (harchive : m.world.reply m.requests.length sampleRelease.archiveUrl =
      .response 200 sampleArchive)
    (hchecksums : m.world.reply (m.requests.length + 1) sampleRelease.checksum.url =
      .response 200 sampleChecksums.toUTF8)
    (hmissed : isCached m.workspace r.cacheRoot .preflight "1.0.0" r.platform = false) :
    (r.resolve .preflight "1.0.0").runOn m =
      (store r.cacheRoot .preflight "1.0.0" r.platform ⟨#[120]⟩).runOn
        { m with requests := m.requests ++ sampleRequests } := by
  have hrelease : Task.release ⟨r, .preflight, ""⟩ "1.0.0" = .ok sampleRelease := by
    unfold Task.release
    simp only [hplatform, hsites]
    exact toOption_eq_some_iff.1 (by decide +kernel)
  have hshort : (Url.ofText sampleRelease.archiveUrl).isTooLong = false ∧
      (Url.ofText sampleRelease.checksum.url).isTooLong = false := by decide +kernel
  have hunpack : sampleRelease.unpack sampleArchive = .ok ⟨#[120]⟩ :=
    toOption_eq_some_iff.1 (by decide +kernel)
  have hversion : (r.version .preflight "1.0.0").runOn m = (.ok "1.0.0", m) := by
    rw [runOn_version_pinned (by unfold Version.AsksForLatest; decide +kernel)]
    exact congrArg (fun v => (Except.ok v, m)) (by decide +kernel)
  have hfirst := runOn_fetch_of_reply hshort.1 harchive
  have hsecond := runOn_fetch_of_reply (m := { m with requests := m.requests ++
    [⟨sampleRelease.archiveUrl, .response 200 sampleArchive⟩] }) hshort.2
    (by rw [List.length_append, List.length_singleton, hchecksums])
  have hdownload := runOn_download_of_verify hrelease hfirst hsecond digestIn_sampleChecksums
    (verify_sampleArchive _) hunpack
  rw [List.append_assoc] at hdownload
  rw [runOn_resolve_of_missed hversion hmissed, runOn_bind]
  simp only [hdownload]
  rfl

/-- A server that has the archive and its digest. -/
def sampleWorld : World where
  reply number _ := .response 200 (if number = 0 then sampleArchive else
    "dc6dcbd5ac8d74c4e269e13737d247a88fe0cf37249253278e9cd20bf6a96e36  preflight_windows_amd64.zip"
      |>.toUTF8)
  run _ _ _ := .error .execFormat

/-- What is to be resolved from that server. -/
def sampleTask : Task where
  resolver := ⟨⟨"/c"⟩, fun _ => none, "", .single "http://h", ⟨"windows", "amd64"⟩⟩
  tool := .preflight
  spec := "1.0.0"

/-- Two processes resolve a binary in a cache that is missing at first. -/
theorem cache_is_intact_sample :
    ∃ s, System.Run (.start ⟨.empty, ⟨"/"⟩⟩ (fun _ : Bool => sampleTask) fun _ => none) s ∧
      s.workspace.has ⟨"/c/preflight/1.0.0/windows-amd64/preflight.exe"⟩ = true ∧
      ∃ i data, s.workspace.node ⟨"/c/preflight/1.0.0/windows-amd64/preflight.exe"⟩ =
        .ok (.file data true) ∧ (s.process i).Stores "1.0.0" data := by
  obtain ⟨s, hrun, hw, -, -⟩ :=
    resolve_run (.start ⟨.empty, ⟨"/"⟩⟩ (fun _ : Bool => sampleTask) fun _ => none) true
      (.fresh sampleWorld ⟨.empty, ⟨"/"⟩⟩) rfl rfl
  have hempty : StartsEmpty ⟨.empty, ⟨"/"⟩⟩ ⟨"/c"⟩ := by
    refine ⟨⟨[], [], ["c"]⟩, by decide, rfl, rfl, ?_⟩
    rintro names ⟨r, hr, rfl, -⟩
    exact Tree.find?_of_ne_nil (t := .empty) hr
  have hsemantic : ∀ i version, (s.process i).version = some version →
      Version.IsSemantic version := by
    intro i version hver
    rw [System.Run.version_exact hrun i (fun _ => by rfl) version hver]
    unfold Version.IsSemantic
    decide
  have hhas : s.workspace.has ⟨"/c/preflight/1.0.0/windows-amd64/preflight.exe"⟩ = true := by
    have hchecksums : sampleWorld.reply 1 sampleRelease.checksum.url =
        .response 200 sampleChecksums.toUTF8 :=
      congrArg (fun s : String => Reply.response 200 s.toUTF8) (by decide +kernel)
    rw [hw, show sampleTask.tool = .preflight from rfl, show sampleTask.spec = "1.0.0" from rfl,
      runOn_resolve_sampleArchive rfl rfl rfl hchecksums (by decide +kernel)]
    decide +kernel
  obtain ⟨hpath, -⟩ := cache_is_intact hempty (fun _ => rfl) hrun .refl hsemantic
  rcases hpath .preflight "1.0.0" ⟨"windows", "amd64"⟩ (by unfold Version.IsSemantic; decide)
    ⟨by decide, by decide⟩ with habsent | ⟨i, data, hnode, -, -, hstores⟩
  · exact absurd (hhas.symm.trans habsent) (by decide)
  · exact ⟨s, hrun, hhas, i, data, hnode, hstores⟩

end Tool
end ReleaseLint
