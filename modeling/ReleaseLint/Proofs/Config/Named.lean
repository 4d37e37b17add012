/-
# The config file that is named

A command may name its config file.  The path is cleaned, and what stands at the cleaned path
decides:

| at the path | config |
| --- | --- |
| a regular file | that of the file, and of no other one |
| a directory | what the files in it and above it say together |
| nothing, or something below a file | what those in and above the innermost directory say |

So a path with nothing at it is no error: the files of the directories that are there apply, just
as if the innermost one were the project (`loadConfig_of_named`).
-/

import ReleaseLint.Command.Lint
import ReleaseLint.Proofs.Config.Layers
import ReleaseLint.Proofs.Path.Canonical
import ReleaseLint.Proofs.Resource.Discovery
import ReleaseLint.Proofs.Tree.Making

namespace ReleaseLint

open Path (ofNames)

/-! ### Directories above a path -/

namespace Workspace

variable {w : Workspace} {names more : Names} {p : Path}

/-- What is found below a path is below a directory. -/
theorem hasDirectory_of_has_append (h : AreNames (names ++ more)) (hne : more ≠ [])
    (hhas : w.has (ofNames (names ++ more)) = true) : w.hasDirectory (ofNames names) = true := by
  unfold has at hhas
  cases hnode : w.node (ofNames (names ++ more)) with
  | error f =>
    rw [hnode] at hhas
    cases hhas
  | ok n =>
    obtain ⟨hfault, hnode⟩ := (node_ofNames h).1 hnode
    obtain ⟨m, hm, -⟩ := Tree.node_eq_ok.1 hnode
    rw [Tree.locate_ofNames h, List.map_append] at hm
    obtain ⟨m', hm', hdirectory⟩ :=
      Tree.exists_directory_of_follow_append (by simpa using hne) (Tree.rooted_nil _) hm
    rw [hasDirectory_iff, node_ofNames h.left, Path.fault?_ofNames h.left]
    obtain ⟨hzero, hsize⟩ := (Path.fault?_ofNames h).1 hfault
    refine ⟨⟨fun s hs => hzero s (List.mem_append_left more hs),
      (Path.size_ofNames_le h).trans_lt hsize⟩, Tree.node_eq_ok.2 ⟨m', ?_, hdirectory⟩⟩
    rw [Tree.locate_ofNames h.left, hm']

theorem hasDirectory_root : w.hasDirectory (ofNames []) = true := by
  have habsolute : w.absolute (ofNames []) = ofNames [] :=
    Path.absolute_of_isAbsolute w (Path.isAbsolute_ofNames .nil)
  unfold hasDirectory node
  rw [show (ofNames []).fault? = none by decide, habsolute]
  rfl

/-- Whether some names lead to the innermost directory that is at or above others. -/
structure IsInnermostDirectory (w : Workspace) (names q : Names) : Prop where
  above : q <+: names
  directory : w.hasDirectory (ofNames q) = true
  innermost : ∀ m, m <+: names → w.hasDirectory (ofNames m) = true → m <+: q

/-- A dot leads nowhere from a file. -/
theorem locate_of_file {t : Tree} {names m : Names} {n : Node}
    (h : p.segments = .root :: names.map .name) (hlocate : t.locate p = .ok m)
    (hfind : t.find? m = some n) (hfile : n.isFile = true) :
    t.follow Tree.maxLinks [] (names.map .name) = .ok m := by
  have hne : p.text ≠ "" := by
    intro he
    rw [Path.segments, he] at h
    cases h
  have hroot (q : List Segment) : t.follow Tree.maxLinks [] (.root :: q) =
      t.follow Tree.maxLinks [] q := by
    rw [Tree.follow_eq, Tree.follow_eq t _ [] q]
    rfl
  rw [Tree.locate_of_ne_empty hne, Tree.route, h, List.cons_append, hroot] at hlocate
  split_ifs at hlocate
  · -- the dot behind the names stays where they lead, and that is a directory
    obtain ⟨m', hm', hdirectory⟩ :=
      Tree.exists_directory_of_follow_append (by simp) (Tree.rooted_nil t) hlocate
    obtain ⟨left, hleft⟩ := Tree.follow_append hdirectory [.here] hm'
    have hdot : t.follow left m' [.here] = .ok m' := by
      rw [Tree.follow_eq]
      rfl
    obtain rfl : m' = m := Except.ok.inj (hdot.symm.trans (hleft.symm.trans hlocate))
    rw [hdirectory] at hfind
    rw [← Option.some.inj hfind] at hfile
    cases hfile
  · rwa [List.append_nil] at hlocate

/-- **A regular file is where the system finds it,** unless its path goes back to a parent: the
path may be cleaned as long as the system takes it. -/
theorem node_absolutize (hw : w.directory.isAbsolute = true) (hfile : w.hasFile p = true)
    (hparent : .parent ∉ (w.absolute p).segments) (hfault : (w.absolutize p).fault? = none) :
    w.node (w.absolutize p) = w.node p := by
  obtain ⟨tail, htail⟩ := Path.exists_segments_of_isAbsolute (Path.isAbsolute_div hw p.text)
  have hsegments : (w.absolute p).segments = .root :: tail := htail
  rw [hsegments, List.mem_cons, not_or] at hparent
  obtain ⟨names, hnames, rfl⟩ :=
    Path.exists_names_of_isStep (Path.isStep_of_segments_eq hsegments) hparent.2
  have hclean : w.absolutize p = ofNames names := by
    unfold absolutize Path.clean
    rw [hsegments, Path.cleanSegments_ofNames]
    exact Path.along_root ⟨""⟩ (names.map .name)
  obtain ⟨hp, m, data, x, hm, hdata⟩ := hasFile_iff.1 hfile
  have hlocate : w.tree.locate (w.absolute (ofNames names)) = w.tree.locate (w.absolute p) := by
    rw [Path.absolute_of_isAbsolute w (Path.isAbsolute_ofNames hnames), Tree.locate_ofNames hnames,
      locate_of_file hsegments hm hdata rfl, hm]
  rw [hclean] at hfault ⊢
  unfold node Tree.node
  rw [hfault, hp, hlocate]

end Workspace

/-- An error about the content of a file, as one about the file at another path. -/
def Error.about (p : Path) : Error → Error
  | .config _ fault => .config p fault
  | e => e

/-! ### What is found above a path -/

namespace Config

variable {w w' : Workspace} {names q : Names} {start start' p p' : Path}

theorem fileIn?_eq_none_of_not_hasDirectory (h : AreNames names)
    (hdirectory : w.hasDirectory (ofNames names) = false) : fileIn? w (ofNames names) = none := by
  refine fileIn?_eq_none fun name hname => ?_
  have hnames : AreNames (names ++ [name]) := h.concat <| isName_of_mem_fileNames <| by
    obtain ⟨-, rfl | ⟨rfl, -⟩⟩ := hname <;> decide
  have hfile := hname.1
  rw [← Path.ofNames_concat] at hfile
  rw [Workspace.hasDirectory_of_has_append hnames (by simp) (Resource.has_of_hasFile hfile).1]
    at hdirectory
  cases hdirectory

/-- **The innermost directory is enough:** nothing behind it has a config file. -/
theorem exists_innermostDirectory (w : Workspace) (h : AreNames names) :
    ∃ q, w.IsInnermostDirectory names q ∧
      filesAbove w (ofNames names) = filesAbove w (ofNames q) := by
  induction names using List.reverseRecOn with
  | nil =>
    exact ⟨[], ⟨List.prefix_rfl, Workspace.hasDirectory_root, fun m hm _ => hm⟩, rfl⟩
  | append_singleton names s ih =>
    cases hdirectory : w.hasDirectory (ofNames (names ++ [s])) with
    | true => exact ⟨_, ⟨List.prefix_rfl, hdirectory, fun m hm _ => hm⟩, rfl⟩
    | false =>
      -- what is no directory has no config file in it, so the names in front of it decide
      obtain ⟨q, hq, hfiles⟩ := ih h.left
      refine ⟨q, ⟨hq.above.trans (List.prefix_append _ _), hq.directory, fun m hm hm' => ?_⟩, ?_⟩
      · rcases List.prefix_concat_iff.1 hm with rfl | hm
        · rw [hdirectory] at hm'
          cases hm'
        · exact hq.innermost m hm hm'
      · rw [← hfiles, filesAbove_ofNames h, filesAbove_ofNames h.left, List.inits_append]
        simp [fileIn?_eq_none_of_not_hasDirectory h hdirectory]

/-! ### One file -/

theorem load_congr (hparent : p'.parent? = p.parent?) (htext : w'.readText p' = w.readText p) :
    load w' p' = (load w p).mapError (Error.about p') := by
  unfold load parse
  rw [hparent, htext]
  cases w.readText p with
  | error f => rfl
  | ok content => cases hcontent : ofText content <;> simp only [hcontent] <;> rfl

/-- **The config of a file** depends on its directory and on its content. -/
theorem resolve_congr (hfile : w.hasFile (w.absolutize start) = true)
    (hfile' : w'.hasFile (w'.absolutize start') = true)
    (hparent : (w'.absolutize start').parent? = (w.absolutize start).parent?)
    (htext : w'.readText (w'.absolutize start') = w.readText (w.absolutize start)) :
    resolve w' start' = (resolve w start).mapError (Error.about (w'.absolutize start')) := by
  unfold resolve gather
  rw [if_pos hfile, if_pos hfile', load_congr hparent htext]
  cases load w (w.absolutize start) with
  | error e => rfl
  | ok c =>
    simp only [Except.mapError, bind, Except.bind, validate]
    cases c.withDefaults.distinct.issues <;> rfl

/-- What is no file has the config of the files above it. -/
theorem resolve_of_not_hasFile (hq : AreNames q) (hdirectory : w.hasDirectory (ofNames q) = true)
    (hfile : w.hasFile (w.absolutize start) = false)
    (hfiles : filesAbove w (w.absolutize start) = filesAbove w (ofNames q)) :
    resolve w start = resolve w (ofNames q) := by
  have hfile' := Workspace.hasFile_eq_false_of_hasDirectory hdirectory
  have hgather : gather w (w.absolutize start) = gather w (ofNames q) := by
    unfold gather
    rw [if_neg (by simp [hfile]), if_neg (by simp [hfile']), hfiles]
  unfold resolve
  rw [Path.absolutize_ofNames w hq, hgather]

end Config

namespace Command

open Config (AreLayers validate)

variable {o : Options} {w : Workspace} {p : Path}

theorem loadConfig_of_config (hp : o.config = some p) : loadConfig o w = Config.resolve w p := by
  unfold loadConfig
  rw [hp]
  rfl

/-- **The config of a command that names its file.**  Reports always name this file.  A regular
file is found under its cleaned path, unless the path goes back to a parent.  If there is a regular
file at the cleaned path, it is the only layer of the config, which depends on its directory and
content alone: any other command with such a file has the same config, or the same error about its
own path.  If there is none, the layers are all config files that apply to the innermost directory
at or above the path, whether or not there is anything at the path, and the config is the one that
this directory has as a project. -/
theorem loadConfig_of_named (hp : o.config = some p) (hw : w.directory.isAbsolute = true) :
    configFile o w = some p ∧
    (w.hasFile p = true → .parent ∉ (w.absolute p).segments → (w.absolutize p).fault? = none →
      w.node (w.absolutize p) = w.node p) ∧
    ∃ names, AreNames names ∧ w.absolutize p = ofNames names ∧
      (∀ layers, AreLayers w names layers →
        ∃ c, c.IsInnermost layers ∧ loadConfig o w = (validate c).map fun _ => c) ∧
      (w.hasFile (ofNames names) = true →
        ∀ o' w' p', o'.config = some p' → w'.hasFile (w'.absolutize p') = true →
          (w'.absolutize p').parent? = (ofNames names).parent? →
          w'.readText (w'.absolutize p') = w.readText (ofNames names) →
          loadConfig o' w' = (loadConfig o w).mapError (Error.about (w'.absolutize p'))) ∧
      (w.hasFile (ofNames names) = false →
        ∃ q, w.IsInnermostDirectory names q ∧
          ∀ o', o'.config = none → o'.project = ofNames q → loadConfig o w = loadConfig o' w) := by
  obtain ⟨names, hnames, hnormal⟩ :=
    Path.exists_clean_eq_ofNames (Path.isAbsolute_div hw p.text)
  have hnormal : w.absolutize p = ofNames names := hnormal
  refine ⟨?_, Workspace.node_absolutize hw, names, hnames, hnormal, fun layers hlayers => ?_, ?_, ?_⟩
  · unfold configFile
    rw [hp]
    rfl
  · refine ⟨_, Config.isInnermost_gathered hlayers.namesOnce, ?_⟩
    rw [loadConfig_of_config hp, hlayers.resolve_eq hnames hnormal]
  · rw [← hnormal]
    intro hfile o' w' p' hp' hfile' hparent htext
    rw [loadConfig_of_config hp, loadConfig_of_config hp']
    exact Config.resolve_congr hfile hfile' hparent htext
  · intro hfile
    obtain ⟨q, hq, hfiles⟩ := Config.exists_innermostDirectory w hnames
    refine ⟨q, hq, fun o' ho' hproject => ?_⟩
    have hqnames : AreNames q := by
      obtain ⟨more, rfl⟩ := hq.above
      exact hnames.left
    rw [← hnormal] at hfile hfiles
    unfold loadConfig
    rw [hp, ho', Option.getD_some, Option.getD_none, hproject,
      Config.resolve_of_not_hasFile hqnames hq.directory hfile hfiles]

/-- A project with the file `release.yaml` in a directory, and with some entries beside. -/
def releaseProject (beside : List (Names × Node)) : Workspace where
  tree := ⟨[(["p"], .directory), (["p", "web"], .directory),
    (["p", "web", "release.yaml"], .file "appSlug: web\n".toUTF8 false)] ++ beside⟩
  directory := ⟨"/p"⟩

/-- The config file of the project itself. -/
def ownConfig : Names × Node :=
  (["p", ".replicated"], .file "appSlug: other\n".toUTF8 false)

/-- A command that names a config file. -/
def naming (config : String) : Options where
  project := ⟨"/p"⟩
  config := some ⟨config⟩
  format := .human
  strict := false

/-- The config file of the project does not count beside a file that is named. -/
theorem loadConfig_of_releaseProject :
    (releaseProject []).node ⟨"/p/web/release.yaml"⟩ =
        (releaseProject []).node ⟨"./web/release.yaml"⟩ ∧
      loadConfig (naming "./web/release.yaml") (releaseProject [ownConfig]) =
        (loadConfig (naming "./web/release.yaml") (releaseProject [])).mapError
          (Error.about ⟨"/p/web/release.yaml"⟩) := by
  have hpath (beside : List (Names × Node)) :
      (releaseProject beside).absolutize ⟨"./web/release.yaml"⟩ = ⟨"/p/web/release.yaml"⟩ := by
    show ((⟨"/p"⟩ : Path) / "./web/release.yaml").clean = _
    decide +kernel
  have hread : ((releaseProject [ownConfig]).readText ⟨"/p/web/release.yaml"⟩) =
      .ok "appSlug: web\n" := toOption_eq_some_iff.1 (by decide +kernel)
  have hread' : ((releaseProject []).readText ⟨"/p/web/release.yaml"⟩) = .ok "appSlug: web\n" :=
    toOption_eq_some_iff.1 (by decide +kernel)
  obtain ⟨-, hnode, names, -, hnames, -, hfile, -⟩ :=
    loadConfig_of_named (o := naming "./web/release.yaml") (w := releaseProject []) rfl rfl
  rw [← hnames, hpath] at hfile
  rw [hpath] at hnode
  refine ⟨hnode (by decide +kernel) (by decide +kernel) (by decide +kernel), ?_⟩
  have hsame := hfile (by decide +kernel) (naming "./web/release.yaml") (releaseProject [ownConfig])
    _ rfl (by rw [hpath]; decide +kernel) (by rw [hpath]) (by rw [hpath, hread, hread'])
  rwa [hpath] at hsame

/-- **A misspelled config file is no error.**  There is nothing at the path that is named, and the
command has the config of the project's own file, while reports name the file that is missing. -/
theorem loadConfig_of_misspelled :
    (releaseProject [ownConfig]).has ⟨"./release.yml"⟩ = false ∧
      configFile (naming "./release.yml") (releaseProject [ownConfig]) = some ⟨"./release.yml"⟩ ∧
      ∃ c, loadConfig (naming "./release.yml") (releaseProject [ownConfig]) = .ok c ∧
        c.appSlug = "other" := by
  have hmissing : (releaseProject [ownConfig]).has ⟨"./release.yml"⟩ = false := by decide +kernel
  have hconfig : ∃ c, Config.resolve (releaseProject [ownConfig]) ⟨"./release.yml"⟩ = .ok c ∧
      (c.appSlug == "other") = true := Config.exists_resolve_such_iff.1 (by decide +kernel)
  obtain ⟨c, hc, hslug⟩ := hconfig
  exact ⟨hmissing, rfl, c, hc, beq_iff_eq.1 hslug⟩

end Command
end ReleaseLint
