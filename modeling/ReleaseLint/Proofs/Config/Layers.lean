/-
# The config files that apply

A start is cleaned, and what stands at the cleaned path decides which files apply (`AreLayers`):

| at the path | files that apply |
| --- | --- |
| a regular file | this one |
| anything else, or nothing | those of the directories at and above it, the root first |

Either all of them can be loaded, and the config is what they say together, the innermost on top
(`AreLayers.resolve_eq`), or there is an error about one of them (`isFileError_of_gather`).
-/

import ReleaseLint.Proofs.Config.Chain

namespace ReleaseLint

open Path (ofNames)

namespace Config

variable {w : Workspace} {c g : Config} {names : Names} {layers : List Layer} {start : Path}
variable {e : Error}

/-- The config files above some names are those of the directories at the first ones of them. -/
theorem filesAbove_ofNames (h : AreNames names) :
    filesAbove w (ofNames names) = (names.inits.map ofNames).filterMap (fileIn? w) := by
  unfold filesAbove
  rw [← List.filterMap_reverse, Path.reverse_ancestors_ofNames h]

theorem isRooted_of_mem_inits (h : AreNames names) : ∀ d ∈ names.inits.map ofNames, d.IsRooted := by
  intro d hd
  obtain ⟨q, hq, rfl⟩ := List.mem_map.1 hd
  obtain ⟨more, rfl⟩ := (List.mem_inits q names).1 hq
  exact Path.isRooted_ofNames h.left

/-- Whether layers are the config files that apply to the path at some names: a regular file there,
or else those of the directories at and above it. -/
inductive AreLayers (w : Workspace) : Names → List Layer → Prop
  | alone {q : Names} {s content : String} {own : Config} (hnames : AreNames (q ++ [s]))
      (hfile : w.hasFile (ofNames (q ++ [s])) = true)
      (htext : w.readText (ofNames (q ++ [s])) = .ok content) (hparse : ofText content = .ok own) :
      AreLayers w (q ++ [s]) [⟨ofNames q, own⟩]
  | chain {names : Names} {layers : List Layer} (hfile : w.hasFile (ofNames names) = false)
      (hchain : Chain w (names.inits.map ofNames) layers) : AreLayers w names layers

theorem Chain.directory_mem {directories : List Path} (hchain : Chain w directories layers) :
    ∀ f ∈ layers, f.directory ∈ directories := by
  induction hchain with
  | nil => exact fun f hf => absurd hf List.not_mem_nil
  | skip _ _ ih => exact fun f hf => List.mem_cons_of_mem _ (ih f hf)
  | file _ _ _ _ ih =>
    refine List.forall_mem_cons.2 ⟨List.mem_cons_self, fun f hf => List.mem_cons_of_mem _ (ih f hf)⟩

theorem load_cases (w : Workspace) (p : Path) :
    (∃ content own, w.readText p = .ok content ∧ ofText content = .ok own ∧
      load w p = .ok ((p.parent?.map fun d => own.anchor d).getD own)) ∨
    (∃ fault, load w p = .error (.config p fault)) ∨ ∃ fault, load w p = .error (.system fault) := by
  unfold load parse
  cases htext : w.readText p with
  | error fault => exact .inr (.inr ⟨fault, rfl⟩)
  | ok content =>
    cases hparse : ofText content with
    | error fault => exact .inr (.inl ⟨fault, by simp only [hparse]⟩)
    | ok own => exact .inl ⟨content, own, rfl, hparse, by simp only [hparse]⟩

theorem exists_text_of_load {p : Path} (h : load w p = .ok c) :
    ∃ content own, w.readText p = .ok content ∧ ofText content = .ok own := by
  rcases load_cases w p with ⟨content, own, htext, hparse, -⟩ | ⟨_, he⟩ | ⟨_, he⟩
  · exact ⟨content, own, htext, hparse⟩
  · cases he.symm.trans h
  · cases he.symm.trans h

/-- Files that can be loaded are a chain. -/
theorem exists_chain_of_mapM_load {configs : List Config} (directories : List Path)
    (h : (directories.filterMap (fileIn? w)).mapM (load w) = .ok configs) :
    ∃ layers, Chain w directories layers := by
  induction directories generalizing configs with
  | nil => exact ⟨[], .nil⟩
  | cons d r ih =>
    by_cases hname : ∃ name, HasConfigFile w d name
    · obtain ⟨name, hname⟩ := hname
      rw [List.filterMap_cons_some (fileIn?_eq_some hname), mapM_cons_eq_ok] at h
      obtain ⟨c, rest, hload, hrest, -⟩ := h
      obtain ⟨layers, hlayers⟩ := ih hrest
      obtain ⟨content, own, htext, hparse⟩ := exists_text_of_load hload
      exact ⟨_, .file hname htext hparse hlayers⟩
    · rw [not_exists] at hname
      rw [List.filterMap_cons_none (fileIn?_eq_none hname)] at h
      obtain ⟨layers, hlayers⟩ := ih h
      exact ⟨layers, .skip hname hlayers⟩

namespace AreLayers

theorem isRooted (h : AreNames names) (hlayers : AreLayers w names layers) :
    ∀ f ∈ layers, f.directory.IsRooted := by
  cases hlayers with
  | alone hnames _ _ _ =>
    exact List.forall_mem_singleton.2 (Path.isRooted_ofNames hnames.left)
  | chain _ hchain => exact fun f hf => isRooted_of_mem_inits h _ (hchain.directory_mem f hf)

theorem namesOnce (hlayers : AreLayers w names layers) : ∀ f ∈ layers, f.own.NamesOnce := by
  cases hlayers with
  | alone _ _ _ hparse => exact List.forall_mem_singleton.2 (namesOnce_of_ofText hparse)
  | chain _ hchain => exact hchain.namesOnce

/-- Each file is seen from its own directory. -/
theorem gather_eq (h : AreNames names) (hlayers : AreLayers w names layers) :
    gather w (ofNames names) = .ok (gathered layers) := by
  unfold gather
  cases hlayers with
  | alone hnames hfile htext hparse =>
    rw [if_pos hfile, load_eq_ok hnames htext hparse]
    exact congrArg Except.ok (unset_merge _).symm
  | chain hfile hchain =>
    rw [if_neg (by simp [hfile]), filesAbove_ofNames h, hchain.mapM_load (isRooted_of_mem_inits h)]
    rfl

/-- **What the files say together applies,** unless it has issues. -/
theorem resolve_eq (h : AreNames names) (hstart : w.absolutize start = ofNames names)
    (hlayers : AreLayers w names layers) :
    resolve w start = (validate (gathered layers).withDefaults.distinct).map
      fun _ => (gathered layers).withDefaults.distinct := by
  unfold resolve
  rw [hstart, hlayers.gather_eq h]
  rfl

end AreLayers

/-- What is gathered are the layers of files. -/
theorem exists_areLayers_of_gather (h : AreNames names)
    (hgather : gather w (ofNames names) = .ok g) : ∃ layers, AreLayers w names layers := by
  unfold gather at hgather
  cases hfile : w.hasFile (ofNames names) with
  | true =>
    rw [if_pos hfile] at hgather
    obtain ⟨content, own, htext, hparse⟩ := exists_text_of_load hgather
    rcases List.eq_nil_or_concat names with rfl | ⟨q, s, rfl⟩
    · rw [hasFile_root] at hfile
      cases hfile
    · rw [List.concat_eq_append] at h hfile htext ⊢
      exact ⟨_, .alone h hfile htext hparse⟩
  | false =>
    rw [if_neg (by simp [hfile]), bind_eq_ok] at hgather
    obtain ⟨configs, hload, -⟩ := hgather
    rw [filesAbove_ofNames h] at hload
    obtain ⟨layers, hchain⟩ := exists_chain_of_mapM_load _ hload
    exact ⟨layers, .chain hfile hchain⟩

/-- Whether an error is about the content of one of the files that apply to a path, or about reading
one of them. -/
def IsFileError (w : Workspace) (start : Path) (e : Error) : Prop :=
  (∃ file fault, (file = start ∨ file ∈ filesAbove w start) ∧ e = .config file fault) ∨
    ∃ fault, e = .system fault

theorem isFileError_of_gather (hgather : gather w start = .error e) : IsFileError w start e := by
  have hload {file : Path} (hfile : file = start ∨ file ∈ filesAbove w start)
      (h : load w file = .error e) : IsFileError w start e := by
    rcases load_cases w file with ⟨_, _, -, -, hok⟩ | ⟨fault, he⟩ | ⟨fault, he⟩
    · cases hok.symm.trans h
    · exact .inl ⟨file, fault, hfile, Except.error.inj (h.symm.trans he)⟩
    · exact .inr ⟨fault, Except.error.inj (h.symm.trans he)⟩
  unfold gather at hgather
  split_ifs at hgather with hfile
  · exact hload (.inl rfl) hgather
  · rcases bind_eq_error.1 hgather with hfiles | ⟨_, -, hpure⟩
    · obtain ⟨file, hfile, he⟩ := exists_of_mapM_eq_error hfiles
      exact hload (.inr hfile) he
    · cases hpure

end Config
end ReleaseLint
