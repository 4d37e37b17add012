/-
# What a process does to the tree

A process keeps to its own part of the cache: directories on the way to its binary, its
temporary file, and the binary itself.  `Placed` states what stands in the tree on behalf
of a process at its stage, and `Step.change` what one step does to each entry:

| entry | before | after |
| --- | --- | --- |
| a directory of the binary | missing | a directory |
| the temporary file | missing, or a file | a file, or missing |
| the binary | no directory | the extracted binary, executable |
| any other | | the same |
-/

import ReleaseLint.Proofs.Cache.Place
import ReleaseLint.Proofs.Cache.Trace

namespace ReleaseLint
namespace Tool

open Cache
open Segment (IsName)

namespace Task

variable {task : Task} {version : String} {release : Release}

theorem isSupported_of_release (h : task.release version = .ok release) :
    task.resolver.platform.isSupported = true := by
  unfold Task.release at h
  split_ifs at h with hs
  simpa using hs

/-- The names of the directory of a binary below the root of the cache. -/
def home (task : Task) (version : String) : Names :=
  Cache.home task.tool version task.resolver.platform

/-- The names of a binary below the root of the cache. -/
def key (task : Task) (version : String) : Names :=
  Cache.key task.tool version task.resolver.platform

theorem key_eq (task : Task) (version : String) :
    task.key version = task.home version ++ [task.binaryName] := rfl

theorem directory_eq (hv : IsName version) (hp : task.resolver.platform.IsPlain) :
    task.directory version = task.resolver.cacheRoot.along ((task.home version).map .name) :=
  Cache.directory_eq _ _ hv hp

end Task

section

variable {c : Place} {w : Workspace} {cache : Path} {t : Tool} {version : String} {q : Platform}

/-- Whether a binary can be reached at its names below the root. -/
def HasBinary (c : Place) (t : Tree) (key : Names) : Prop :=
  t.Passes c.top (c.missing ++ key) ∧ ∃ data x, t.find? (c.root ++ key) = some (.file data x)

/-- **A binary is there if the system takes its path and it can be reached.** -/
theorem hasFile_iff (hc : c.Leads w.tree)
    (ha : (w.absolute cache).segments = .root :: (c.front ++ c.missing.map .name))
    (hv : IsName version) (hq : q.IsPlain) :
    w.hasFile (binaryPath cache t version q) = true ↔
      (binaryPath cache t version q).fault? = none ∧
        HasBinary c w.tree (Cache.key t version q) := by
  have hlocate : ∀ m, w.tree.locate (w.absolute (binaryPath cache t version q)) = .ok m ↔
      m = c.root ++ Cache.key t version q ∧
        w.tree.Passes c.top (c.missing ++ Cache.key t version q) :=
    fun m => hc.locate_binaryPath ha hv hq
  rw [Workspace.hasFile_iff]
  refine and_congr_right fun _ => ?_
  constructor
  · rintro ⟨m, data, x, hm, hfind⟩
    obtain ⟨rfl, hpass⟩ := (hlocate m).1 hm
    exact ⟨hpass, data, x, hfind⟩
  · rintro ⟨hpass, data, x, hfind⟩
    exact ⟨_, data, x, (hlocate _).2 ⟨rfl, hpass⟩, hfind⟩

end

namespace Process

variable {p p' : Process} {c : Place} {w w' : Workspace} {names : Names}
  {version : String} {binary data : ByteArray}

theorem Extracts.isSupported (h : p.Extracts version binary) :
    p.task.resolver.platform.isSupported = true := by
  obtain ⟨release, archive, checksum, digest, -, hr, -⟩ := h
  exact Task.isSupported_of_release hr

theorem Extracts.isPlain (h : p.Extracts version binary) : p.task.resolver.platform.IsPlain :=
  Platform.isPlain_of_isSupported h.isSupported

theorem Extracts.version_eq (h : p.Extracts version binary) : p.version = some version := by
  obtain ⟨release, archive, checksum, digest, hv, -⟩ := h
  exact hv

/-- Whether a process shares the cache at a place, with a version that is one name. -/
structure Shares (p : Process) (c : Place) (w : Workspace) : Prop where
  segments_eq : (w.absolute p.task.resolver.cacheRoot).segments =
    .root :: (c.front ++ c.missing.map .name)
  isName : ∀ version, p.version = some version → IsName version

/-- Whether names are those of a temporary file beside the binary of a process, which has
a path that the system takes. -/
def IsTemporary (p : Process) (c : Place) (names : Names) : Prop :=
  ∃ version name, p.version = some version ∧ (p.task.target version).fault? = none ∧
    IsTemporaryName name ∧ names = c.root ++ (p.task.home version ++ [name])

/-- What stands in the tree on behalf of a process. -/
def Placed (p : Process) (c : Place) (w : Workspace) : Prop :=
  match p.stage with
  | .prepare _ here rest =>
    ∃ version done, p.version = some version ∧ here = Path.along ⟨"/"⟩ done ∧
      done ++ rest = (w.absolute (p.task.directory version)).segments
  | .write binary temporary count =>
    p.IsTemporary c temporary ∧
      w.tree.find? temporary = some (.file (binary.extract 0 count) false)
  | .rename temporary =>
    p.IsTemporary c temporary ∧ ∃ version data, p.Extracts version data ∧
      w.tree.find? temporary = some (.file data true)
  | .ended (.ok path) =>
    ∃ version, p.version = some version ∧ path = p.task.target version ∧ path.fault? = none ∧
      (p.task.resolver.platform.IsPlain → HasBinary c w.tree (p.task.key version))
  | _ => True

/-- Whether a process has put a binary that it extracted into the cache. -/
def Stores (p : Process) (version : String) (data : ByteArray) : Prop :=
  p.Extracts version data ∧ p.stage = .ended (.ok (p.task.target version))

/-- What a step of a process does to the entry at some names. -/
inductive Change (c : Place) (p p' : Process) (names : Names) : Option Node → Option Node → Prop
  | same (o : Option Node) : Change c p p' names o o
  | directory {r version} : r ≠ [] → names = c.top ++ r → r <+: c.missing ++ p.task.home version →
      Change c p p' names none (some .directory)
  | temporary {o o' : Option Node} : p.IsTemporary c names →
      (p.stage.temporary? = some names ∨ o = none ∧ p'.stage.temporary? = some names) →
      (∀ n, o = some n → n.isFile = true) → (∀ n, o' = some n → n.isFile = true) →
      Change c p p' names o o'
  | binary {o : Option Node} {version data} : names = c.root ++ p.task.key version →
      o ≠ some .directory → p'.Stores version data → Change c p p' names o (some (.file data true))

/-- What has been put in place of an entry. -/
theorem Change.put {t : Tree} {n : Node} {m : Names} (hne : names ≠ [])
    (h : Change c p p' names (t.find? names) (some n)) :
    Change c p p' m (t.find? m) ((t.put names n).find? m) := by
  rw [Tree.find?_put hne]
  split_ifs with hm
  · exact hm ▸ h
  · exact .same _

/-- What has been removed, when nothing stood below it. -/
theorem Change.remove {t : Tree} {m : Names} (hne : names ≠ [])
    (hbelow : ∀ m, names <+: m → m ≠ names → t.find? m = none)
    (h : Change c p p' names (t.find? names) none) :
    Change c p p' m (t.find? m) ((t.remove names).find? m) := by
  rw [Tree.find?_remove hne]
  split_ifs with hm
  · by_cases heq : m = names
    · exact heq ▸ h
    · rw [hbelow m hm heq]
      exact .same _
  · exact .same _

theorem IsTemporary.ne_nil (h : p.IsTemporary c names) : names ≠ [] := by
  obtain ⟨version, name, -, -, -, rfl⟩ := h
  simp

/-- The temporary file of a process stands beside its binary, and is a file. -/
theorem Placed.isTemporary (h : p.Placed c w) (ht : p.stage.temporary? = some names) :
    p.IsTemporary c names ∧ ∃ data x, w.tree.find? names = some (.file data x) := by
  unfold Placed at h
  unfold Stage.temporary? at ht
  split at ht
  · rename_i hs
    obtain rfl := Option.some.inj ht
    rw [hs] at h
    exact ⟨h.1, _, _, h.2⟩
  · rename_i hs
    obtain rfl := Option.some.inj ht
    rw [hs] at h
    obtain ⟨htemp, version, data, -, hf⟩ := h
    exact ⟨htemp, data, true, hf⟩
  · cases ht

/-- The directory of a binary is looked up name by name. -/
theorem Shares.locate_directory (h : p.Shares c w) (hc : c.Leads w.tree)
    (he : p.Extracts version binary) :
    w.tree.locate (w.absolute (p.task.directory version)) = .ok names ↔
      names = c.root ++ p.task.home version ∧
        w.tree.Passes c.top (c.missing ++ p.task.home version) := by
  have hv := h.isName _ he.version_eq
  have hsteps : ∀ x ∈ (p.task.home version).map Segment.name, x.IsStep :=
    isStep_of_mem_home hv he.isPlain
  rw [Task.directory_eq hv he.isPlain, Path.absolute_along w hsteps]
  exact hc.locate_along h.segments_eq hsteps (by simp [Task.home, Cache.home])

/-- Directories are made on the way to the binary only. -/
theorem change_makeDirectory (h : p.Shares c w) (hc : c.Leads w.tree)
    (he : p.Extracts version binary) {done rest : List Segment} {s : Segment} {tree : Tree}
    {f : Option SystemFault}
    (hdone : done ++ s :: rest = (w.absolute (p.task.directory version)).segments)
    (hmake : w.tree.makeDirectory (Path.along ⟨"/"⟩ done) s = (tree, f)) (m : Names) :
    Change c p p' m (w.tree.find? m) (tree.find? m) := by
  have hv := h.isName _ he.version_eq
  have hsteps : ∀ x ∈ (p.task.home version).map Segment.name, x.IsStep :=
    isStep_of_mem_home hv he.isPlain
  have hsegments : (w.absolute (p.task.directory version)).segments =
      .root :: (c.front ++ (c.missing ++ p.task.home version).map .name) := by
    rw [Task.directory_eq hv he.isPlain, Path.absolute_along w hsteps,
      Path.segments_along hsteps, h.segments_eq]
    simp [Task.home]
  have hall := Path.isStep_of_segments_eq hsegments
  rw [hsegments] at hdone
  rcases hc.makeDirectory_along hall hdone hmake with rfl | ⟨r, hr, hpre, hnone, rfl⟩
  · exact .same _
  · refine Change.put (by simp [hr]) ?_
    rw [hnone]
    exact .directory hr rfl hpre

/-- **What a step does to each entry.** -/
theorem Step.change (h : p.Step w w' p') (hs : p.Shares c w) (hc : c.Leads w.tree)
    (ht : p.Traced) (hp : p.Placed c w)
    (hbelow : ∀ temporary, p.stage.temporary? = some temporary →
      ∀ m, temporary <+: m → m ≠ temporary → w.tree.find? m = none) (m : Names) :
    Change c p p' m (w.tree.find? m) (w'.tree.find? m) := by
  -- the temporary file may go at any stage that has one
  have hremove : ∀ temporary, p.stage.temporary? = some temporary →
      Change c p p' m (w.tree.find? m) ((w.tree.remove temporary).find? m) := by
    intro temporary htemp
    obtain ⟨hist, data, x, hfile⟩ := hp.isTemporary htemp
    refine Change.remove hist.ne_nil (hbelow temporary htemp) ?_
    refine .temporary hist (.inl htemp) (fun n hn => ?_) (fun n hn => by cases hn)
    rw [hfile] at hn
    rw [← Option.some.inj hn]
    rfl
  have hput : ∀ temporary data x, p.stage.temporary? = some temporary →
      Change c p p' m (w.tree.find? m) ((w.tree.put temporary (.file data x)).find? m) := by
    intro temporary data x htemp
    obtain ⟨hist, data', x', hfile⟩ := hp.isTemporary htemp
    refine Change.put hist.ne_nil ?_
    refine .temporary hist (.inl htemp) (fun n hn => ?_) (fun n hn => ?_)
    · rw [hfile] at hn
      rw [← Option.some.inj hn]
      rfl
    · rw [← Option.some.inj hn]
      rfl
  unfold Traced at ht
  unfold Placed at hp
  cases h with
  | settle | lookUp | hit | miss | plan | fetch | sum | verify | unpack | prepared | uncreated =>
    exact .same _
  | prepare hstage hv hmake | unprepared hstage hv hmake =>
    rw [hstage] at ht hp
    obtain ⟨version, he⟩ := ht
    obtain ⟨version', done, hv', rfl, hdone⟩ := hp
    obtain rfl : version' = version := Option.some.inj (hv'.symm.trans he.version_eq)
    exact change_makeDirectory hs hc he hdone hmake m
  | create hstage hv hfault hl hname hnone =>
    rw [hstage] at ht
    obtain ⟨version, he⟩ := ht
    obtain rfl := Option.some.inj (hv.symm.trans he.version_eq)
    obtain ⟨rfl, -⟩ := (hs.locate_directory hc he).1 hl
    rename_i name
    refine Change.put (by simp) ?_
    rw [hnone]
    refine .temporary ⟨_, name, hv, hfault, hname, List.append_assoc ..⟩ (.inr ⟨rfl, rfl⟩)
      (fun n hn => by cases hn) (fun n hn => ?_)
    rw [← Option.some.inj hn]
    rfl
  | write hstage => exact hput _ _ _ (by rw [hstage]; rfl)
  | permit hstage => exact hput _ _ _ (by rw [hstage]; rfl)
  | rename hstage hv hl hf hd =>
    rename_i temporary version names n
    have hgone := hremove temporary (by rw [hstage]; rfl)
    rw [hstage] at hp
    obtain ⟨hist, version', data, he, hdata⟩ := hp
    obtain rfl : version' = version := Option.some.inj (he.version_eq.symm.trans hv)
    obtain ⟨rfl, -⟩ := (hs.locate_directory hc he).1 hl
    obtain rfl : n = .file data true := Option.some.inj (hf.symm.trans hdata)
    show Change c p _ m _ (((w.tree.remove temporary).put _ _).find? m)
    rw [Tree.find?_put (by simp)]
    split_ifs with hm
    · refine .binary ?_ (hm ▸ hd) ⟨he, rfl⟩
      rw [hm, List.append_assoc]
      rfl
    · exact hgone
  | unrenamed hstage => exact hremove _ (by rw [hstage]; rfl)
  | stop removes =>
    cases removes with
    | false => exact .same _
    | true =>
      unfold cleaned
      cases htemp : p.stage.temporary? with
      | none => exact .same _
      | some temporary => exact hremove _ htemp

theorem temporary?_after {α : Type} {result : Except Error α} {next : α → Stage}
    (h : ∀ a, (next a).temporary? = none) : (Stage.after result next).temporary? = none := by
  cases result with
  | error e => rfl
  | ok a => exact h a

theorem temporary?_settle (p : Process) (result : Except Error String) :
    (p.settle result).stage.temporary? = none := by
  cases result <;> rfl

/-- A temporary file is either the one that a process had or put where nothing stood. -/
theorem Step.temporary? (h : p.Step w w' p') (ht : p'.stage.temporary? = some names) :
    p.stage.temporary? = some names ∨ w.tree.find? names = none := by
  cases h with
  | settle =>
    rw [temporary?_settle] at ht
    cases ht
  | lookUp =>
    rename_i log result _ _ _
    cases hr : p.task.versionsIn result with
    | error e => rw [hr] at ht; cases ht
    | ok versions => rw [hr, learn, temporary?_settle] at ht; cases ht
  | plan =>
    rename_i version _ _
    generalize p.task.release version = result at ht
    exact absurd ((temporary?_after fun _ => rfl).symm.trans ht) (by simp)
  | fetch => exact absurd ((temporary?_after fun _ => rfl).symm.trans ht) (by simp)
  | sum => exact absurd ((temporary?_after fun _ => rfl).symm.trans ht) (by simp)
  | verify =>
    rename_i release archive digest _
    generalize Checksum.verify archive digest release.archiveName = result at ht
    exact absurd ((temporary?_after fun _ => rfl).symm.trans ht) (by simp)
  | unpack =>
    rename_i release archive version _ _
    generalize release.unpack archive = result at ht
    refine absurd ((temporary?_after fun binary => ?_).symm.trans ht) (by simp)
    unfold preparation
    split <;> rfl
  | create _ _ _ _ _ hnone => exact .inr (Option.some.inj ht ▸ hnone)
  | write hstage => exact .inl (by rw [hstage]; exact ht)
  | permit hstage => exact .inl (by rw [hstage]; exact ht)
  | _ => cases ht

/-! ### What stays -/

theorem Step.directory_eq (h : p.Step w w' p') : w'.directory = w.directory := by
  cases h <;> rfl

theorem Step.absolute_eq (h : p.Step w w' p') (a : Path) : w'.absolute a = w.absolute a := by
  unfold Workspace.absolute
  rw [h.directory_eq]

theorem Change.eq_directory {o' : Option Node} (h : Change c p p' names (some .directory) o') :
    o' = some .directory := by
  cases h with
  | same => rfl
  | temporary _ _ hfile _ => exact absurd (hfile _ rfl) (by decide)
  | binary _ hd _ => exact absurd rfl hd

/-- No binary stands where a process has its temporary file. -/
theorem not_isTemporary_key (t : Tool) (version : String) (q : Platform) :
    ¬p.IsTemporary c (c.root ++ Cache.key t version q) := by
  rintro ⟨version', name, -, -, hname, heq⟩
  have hkey := List.append_cancel_left heq
  rw [Cache.key] at hkey
  obtain ⟨-, hlast⟩ := List.append_inj' hkey rfl
  obtain rfl : t.binaryName q = name := (List.cons.inj hlast).1
  exact not_isTemporaryName_binaryName t q hname

/-- **A binary that can be reached stays so.** -/
theorem hasBinary_mono {t t' : Tree} {k : Tool} {q : Platform}
    (h : HasBinary c t (Cache.key k version q))
    (hchange : ∀ m, Change c p p' m (t.find? m) (t'.find? m)) :
    HasBinary c t' (Cache.key k version q) := by
  obtain ⟨hpass, data, x, hfile⟩ := h
  have hstays : ∃ data x, t'.find? (c.root ++ Cache.key k version q) = some (.file data x) := by
    have hm := hchange (c.root ++ Cache.key k version q)
    rw [hfile] at hm
    generalize t'.find? (c.root ++ Cache.key k version q) = o at hm
    cases hm with
    | same => exact ⟨data, x, rfl⟩
    | temporary hist => exact absurd hist (not_isTemporary_key k version q)
    | binary _ _ _ => exact ⟨_, true, rfl⟩
  refine ⟨hpass.mono (fun m _ hdir => ?_) fun _ _ _ => ?_, hstays⟩
  · have hm := hchange (c.top ++ m)
    rw [hdir] at hm
    exact hm.eq_directory
  · rw [← List.append_assoc]
    exact hstays

/-- What stands on behalf of a process stays when another one takes a step. -/
theorem Placed.mono {q : Process} (hq : q.Placed c w) (h : p.Step w w' p')
    (hchange : ∀ m, Change c p p' m (w.tree.find? m) (w'.tree.find? m))
    (hapart : ∀ m, q.stage.temporary? = some m → p.stage.temporary? ≠ some m) :
    q.Placed c w' := by
  have hkept : ∀ m n, q.stage.temporary? = some m → q.IsTemporary c m →
      w.tree.find? m = some n → w'.tree.find? m = some n := by
    intro m n hm hist hn
    have hc := hchange m
    rw [hn] at hc
    generalize w'.tree.find? m = o at hc
    cases hc with
    | same => rfl
    | temporary _ hmine _ _ =>
      rcases hmine with hmine | ⟨hnone, -⟩
      · exact absurd hmine (hapart m hm)
      · cases hnone
    | binary heq _ _ => exact absurd (heq ▸ hist) (not_isTemporary_key _ _ _)
  unfold Placed at hq ⊢
  cases hs : q.stage with
  | prepare binary here rest =>
    rw [hs] at hq
    obtain ⟨version, done, hv, hhere, hdone⟩ := hq
    exact ⟨version, done, hv, hhere, by rw [h.absolute_eq]; exact hdone⟩
  | write binary temporary count =>
    rw [hs] at hq
    exact ⟨hq.1, hkept _ _ (by rw [hs]; rfl) hq.1 hq.2⟩
  | rename temporary =>
    rw [hs] at hq
    obtain ⟨hist, version, data, he, hf⟩ := hq
    exact ⟨hist, version, data, he, hkept _ _ (by rw [hs]; rfl) hist hf⟩
  | ended outcome =>
    rw [hs] at hq
    cases outcome with
    | error e => exact trivial
    | ok path =>
      obtain ⟨version, hv, hpath, hfault, hbin⟩ := hq
      exact ⟨version, hv, hpath, hfault, fun hplain => hasBinary_mono (hbin hplain) hchange⟩
  | _ => exact trivial

/-! ### The process that takes the step -/

theorem placed_after {α : Type} {task : Task} {known : Option Recommended}
    {version : Option String} {requests : List Request} {result : Except Error α}
    {next : α → Stage}
    (h : ∀ a, result = .ok a → Placed ⟨task, known, version, requests, next a⟩ c w) :
    Placed ⟨task, known, version, requests, .after result next⟩ c w := by
  cases result with
  | error e => exact trivial
  | ok a => exact h a rfl

theorem placed_settle (p : Process) (c : Place) (w : Workspace) (result : Except Error String) :
    (p.settle result).Placed c w := by
  cases result <;> exact trivial

/-- **A step leaves in the tree what the next stage says.** -/
theorem Step.placed (h : p.Step w w' p') (hs : p.Shares c w) (hc : c.Leads w.tree)
    (ht : p.Traced) (hp : p.Placed c w)
    (hchange : ∀ m, Change c p p' m (w.tree.find? m) (w'.tree.find? m))
    (hshallow : ∀ rel n, rel.length ≤ 3 → w.tree.find? (c.root ++ rel) = some n → n = .directory) :
    p'.Placed c w' := by
  unfold Traced at ht
  have hp' := hp
  unfold Placed at hp
  cases h with
  | settle => exact placed_settle _ _ _ _
  | lookUp =>
    rename_i log result _ _ _
    cases p.task.versionsIn result with
    | error e => exact trivial
    | ok versions => exact placed_settle _ _ _ _
  | hit hstage hv hf =>
    rename_i version
    have hbin : p.task.resolver.platform.IsPlain → HasBinary c w.tree (p.task.key version) :=
      fun hplain => ((hasFile_iff hc hs.segments_eq (hs.isName _ hv) hplain).1 hf).2
    exact ⟨version, hv, rfl, (Workspace.hasFile_iff.1 hf).1, hbin⟩
  | miss => exact trivial
  | plan => exact placed_after fun _ _ => trivial
  | fetch => exact placed_after fun _ _ => trivial
  | sum => exact placed_after fun _ _ => trivial
  | verify hstage =>
    rename_i release archive digest
    generalize Checksum.verify archive digest release.archiveName = result
    exact placed_after fun _ _ => trivial
  | unpack hstage hv =>
    rename_i release archive version
    generalize release.unpack archive = result
    refine placed_after fun binary _ => ?_
    unfold preparation
    split
    · exact trivial
    · exact ⟨version, [], hv, rfl, List.nil_append _⟩
  | prepare hstage hv hmake =>
    rename_i binary here s rest version tree
    rw [hstage] at hp
    obtain ⟨version, done, hv, rfl, hdone⟩ := hp
    refine ⟨version, done ++ [s], hv, (Path.along_concat ..).symm, ?_⟩
    rw [List.append_assoc]
    exact hdone
  | unprepared => exact trivial
  | prepared => exact trivial
  | create hstage hv hfault hl hname hnone =>
    rw [hstage] at ht
    obtain ⟨version, he⟩ := ht
    obtain rfl := Option.some.inj (hv.symm.trans he.version_eq)
    obtain ⟨rfl, -⟩ := (hs.locate_directory hc he).1 hl
    refine ⟨⟨_, _, hv, hfault, hname, List.append_assoc ..⟩, ?_⟩
    show (w.tree.put _ _).find? _ = _
    rw [Tree.find?_put (by simp), if_pos rfl, ByteArray.extract_same]
  | uncreated => exact trivial
  | write hstage hless hmore =>
    rw [hstage] at hp
    refine ⟨hp.1, ?_⟩
    show (w.tree.put _ _).find? _ = _
    rw [Tree.find?_put hp.1.ne_nil, if_pos rfl]
  | permit hstage hfile =>
    rename_i binary temporary data x
    rw [hstage] at hp ht
    obtain ⟨hist, hwhole⟩ := hp
    obtain ⟨version, he⟩ := ht
    rw [ByteArray.extract_zero_size] at hwhole
    obtain ⟨rfl, -⟩ := Node.file.inj (Option.some.inj (hfile.symm.trans hwhole))
    refine ⟨hist, version, data, he, ?_⟩
    show (w.tree.put _ _).find? _ = _
    rw [Tree.find?_put hist.ne_nil, if_pos rfl]
  | rename hstage hv hl hf hd =>
    rename_i temporary version names n
    rw [hstage] at hp
    obtain ⟨hist, version', data, he, hdata⟩ := hp
    obtain rfl : version' = version := Option.some.inj (he.version_eq.symm.trans hv)
    obtain ⟨rfl, hpass⟩ := (hs.locate_directory hc he).1 hl
    obtain rfl : n = .file data true := Option.some.inj (hf.symm.trans hdata)
    have hfault : (p.task.target version').fault? = none := by
      obtain ⟨v, name, hv', hfault, -⟩ := hist
      exact Option.some.inj (hv'.symm.trans hv) ▸ hfault
    refine ⟨version', hv, rfl, hfault, fun _ => ?_⟩
    -- the directory of the binary is there and stays, and the binary comes into it
    obtain ⟨n, hdir⟩ := Tree.locate_found hl
    obtain rfl := hshallow (p.task.home version') n (by simp [Task.home, Cache.home]) hdir
    have hdir' := hchange (c.root ++ p.task.home version')
    rw [hdir] at hdir'
    replace hdir' := hdir'.eq_directory
    have hfile : ((w.tree.remove temporary).put (c.root ++ p.task.home version' ++
        [p.task.binaryName]) (.file data true)).find? (c.root ++ p.task.home version' ++
          [p.task.binaryName]) = some (.file data true) := by
      rw [Tree.find?_put (by simp), if_pos rfl]
    unfold Place.root at hdir hdir' hfile
    rw [Task.key_eq]
    refine ⟨?_, data, true, ?_⟩
    · rw [← List.append_assoc]
      refine Tree.Passes.concat ?_ ?_ (fits_binaryName ..) (.inr ⟨data, true, ?_⟩)
      · refine hpass.mono (fun m _ hm => ?_) fun d x hm => ?_
        · have hkept := hchange (c.top ++ m)
          rw [hm] at hkept
          exact hkept.eq_directory
        · rw [← List.append_assoc, hdir] at hm
          cases hm
      · rw [← List.append_assoc]
        exact hdir'
      · rw [← List.append_assoc c.top]
        exact hfile
    · unfold Place.root
      rw [← List.append_assoc]
      exact hfile
  | unrenamed => exact trivial
  | stop => exact trivial

end Process
end Tool
end ReleaseLint
