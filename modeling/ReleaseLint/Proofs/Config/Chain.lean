/-
# What a chain of config files says together

The config files from the root down to the start are a chain, with at most one file for each
directory (`Chain`).  Laid over each other they say for each setting what the innermost file
says that does not leave it open, and the lists of all files stand one after the other, each
path seen from the directory of its file (`resolve_of_chain`).

| setting of the config | from the chain |
| --- | --- |
| texts, channel lists | the innermost that is not empty |
| version, enabled, switches | the innermost that is set, or else the default |
| version of a tool | the innermost for its name, or else `latest` |
| charts, preflights, manifests | all in order, and the first of those with one path |

One lemma is behind the first three rows: a setting that `merge` takes from the upper config
unless that leaves it open is the innermost one of any list (`setting_mergeAll`).
-/

import ReleaseLint.Proofs.Config.Merge
import ReleaseLint.Proofs.Config.Paths

namespace ReleaseLint

open Path (ofNames)

namespace Config

/-! ### The innermost setting -/

/-- The innermost one of the settings that are not left open; the outermost stands first. -/
def innermost? {α β : Type} (setting : α → Option β) (outermostFirst : List α) : Option β :=
  (outermostFirst.filterMap setting).getLast?

variable {α β : Type}

theorem innermost?_concat {setting : α → Option β} (l : List α) (a : α) :
    innermost? setting (l ++ [a]) = (setting a).or (innermost? setting l) := by
  unfold innermost?
  cases h : setting a <;> simp [h]

/-- A setting that is taken from the upper config, unless that leaves it open, is the innermost
one of any list of configs. -/
theorem setting_mergeAll (setting : Config → Option β) {P : Config → Prop}
    (hunset : setting unset = none)
    (hmerge : ∀ a b, P b → setting (merge a b) = (setting b).or (setting a)) {configs : List Config}
    (h : ∀ c ∈ configs, P c) : setting (mergeAll configs) = innermost? setting configs := by
  induction configs using List.reverseRecOn with
  | nil => exact hunset
  | append_singleton configs c ih =>
    rw [mergeAll_concat, innermost?_concat, hmerge _ _ (h c (by simp)),
      ih fun d hd => h d (by simp [hd])]

/-- A text, unless it is empty. -/
def text? (s : String) : Option String :=
  if s = "" then none else some s

/-- A list, unless it is empty. -/
def list? (l : List String) : Option (List String) :=
  if l = [] then none else some l

theorem text?_pickText (a b : String) : text? (pickText a b) = (text? b).or (text? a) := by
  unfold text? pickText
  split_ifs <;> rfl

theorem getD_text? (s : String) : (text? s).getD "" = s := by
  unfold text?
  split_ifs with h
  · exact h.symm
  · rfl

theorem list?_pickList (a b : List String) : list? (pickList a b) = (list? b).or (list? a) := by
  cases b <;> rfl

theorem getD_list? (l : List String) : (list? l).getD [] = l := by
  cases l <;> rfl

/-- A setting of the lint block. -/
def lint? (setting : Lint → Option β) (c : Config) : Option β :=
  c.lint.bind setting

theorem lint?_merge {setting : Lint → Option β} {a b : Config}
    (h : ∀ l ∈ b.lint, ∀ m, setting (l.onTopOf m) = (setting l).or (setting m)) :
    lint? setting (merge a b) = (lint? setting b).or (lint? setting a) := by
  show (mergeLint a.lint b.lint).bind setting = _
  unfold lint?
  cases hb : b.lint with
  | none => cases a.lint <;> rfl
  | some l =>
    cases a.lint with
    | none => exact (Option.or_none).symm
    | some m => exact h l hb m

theorem bind_lintSettings {setting : Lint → Option β} (h : setting .unset = none) (c : Config) :
    setting c.lintSettings = lint? setting c := by
  unfold lintSettings lint?
  cases c.lint with
  | none => exact h
  | some l => rfl

/-- What is left of some entries is each one whose path no entry in front of it has. -/
theorem firsts_eq_eraseDupsBy {path : α → String} {seen : List String} (l : List α) :
    firsts path seen l =
      (l.filter fun e => !seen.contains (path e)).eraseDupsBy fun a b => path a == path b := by
  induction l generalizing seen with
  | nil => rfl
  | cons e r ih =>
    by_cases he : seen.contains (path e) = true
    · rw [firsts, if_pos he, List.filter_cons_of_neg (by simpa using he), ih]
    · rw [firsts, if_neg he, List.filter_cons_of_pos (by simpa using he), List.eraseDupsBy_cons,
        List.filter_filter, ih]
      congr 3
      funext f
      simp [Bool.eq_false_iff]

/-! ### What a file writes -/

/-- Whether each tool has at most one version in the lint block of a config. -/
def NamesOnce (c : Config) : Prop :=
  ∀ l ∈ c.lint, (l.tools.map (·.1)).Nodup

namespace NamesOnce

variable {a b : Config}

theorem merge (ha : a.NamesOnce) (hb : b.NamesOnce) : (merge a b).NamesOnce := by
  show ∀ l ∈ mergeLint a.lint b.lint, _
  intro l hl
  cases hlower : a.lint with
  | none =>
    rw [hlower] at hl
    exact hb l hl
  | some lower =>
    cases hupper : b.lint with
    | none =>
      rw [hlower, hupper] at hl
      exact ha l (hlower.trans hl)
    | some upper =>
      rw [hlower, hupper] at hl
      obtain rfl := Option.some.inj hl
      exact Versions.nodup_putAll (ha lower hlower)

theorem mergeAll {configs : List Config} (h : ∀ c ∈ configs, c.NamesOnce) :
    (mergeAll configs).NamesOnce := by
  induction configs using List.reverseRecOn with
  | nil =>
    intro l hl
    cases hl
  | append_singleton configs c ih =>
    rw [mergeAll_concat]
    exact (ih fun d hd => h d (by simp [hd])).merge (h c (by simp))

end NamesOnce

theorem nodup_of_versions {v : Yaml.Value} {t : Versions} (h : Reader.versions v = .ok t) :
    (t.map (·.1)).Nodup := by
  unfold Reader.versions at h
  split at h
  · obtain ⟨named, -, h⟩ := bind_eq_ok.1 h
    obtain ⟨entries, -, h⟩ := bind_eq_ok.1 h
    cases h
    exact Versions.nodup_putAll List.nodup_nil
  · cases h
    exact List.nodup_nil
  · cases h

theorem nodup_of_lint {v : Yaml.Value} {l : Lint} (h : Reader.lint v = .ok l) :
    (l.tools.map (·.1)).Nodup := by
  unfold Reader.lint at h
  obtain ⟨values, -, h⟩ := bind_eq_ok.1 h
  split at h
  · obtain ⟨version, -, h⟩ := bind_eq_ok.1 h
    obtain ⟨enabled, -, h⟩ := bind_eq_ok.1 h
    obtain ⟨switches, -, h⟩ := bind_eq_ok.1 h
    obtain ⟨tools, htools, h⟩ := bind_eq_ok.1 h
    cases h
    unfold Reader.orDefault at htools
    split at htools
    · cases htools
      exact List.nodup_nil
    · exact nodup_of_versions htools
  · cases h

theorem namesOnce_of_config {v : Yaml.Value} {c : Config} (h : Reader.config v = .ok c) :
    c.NamesOnce := by
  unfold Reader.config at h
  obtain ⟨values, -, h⟩ := bind_eq_ok.1 h
  split at h
  · obtain ⟨appId, -, h⟩ := bind_eq_ok.1 h
    obtain ⟨appSlug, -, h⟩ := bind_eq_ok.1 h
    obtain ⟨ids, -, h⟩ := bind_eq_ok.1 h
    obtain ⟨channels, -, h⟩ := bind_eq_ok.1 h
    obtain ⟨charts, -, h⟩ := bind_eq_ok.1 h
    obtain ⟨preflights, -, h⟩ := bind_eq_ok.1 h
    obtain ⟨label, -, h⟩ := bind_eq_ok.1 h
    obtain ⟨manifests, -, h⟩ := bind_eq_ok.1 h
    obtain ⟨lint, hlint, h⟩ := bind_eq_ok.1 h
    cases h
    rintro l rfl
    unfold Reader.orDefault at hlint
    split at hlint
    · cases hlint
    · unfold Reader.optional at hlint
      split at hlint
      · cases hlint
      · obtain ⟨l', hl', heq⟩ := bind_eq_ok.1 hlint
        cases heq
        exact nodup_of_lint hl'
  · cases h

theorem namesOnce_of_ofText {content : String} {c : Config} (h : ofText content = .ok c) :
    c.NamesOnce := by
  unfold ofText at h
  obtain ⟨v, -, h⟩ := bind_eq_ok.1 h
  split at h
  · cases h
    rintro l hl
    cases hl
  · exact namesOnce_of_config h

/-! ### Chains of files -/

/-- A config file that applies: the directory it stands in, and what it writes. -/
structure Layer where
  directory : Path
  own : Config

variable {w : Workspace}

/-- Whether the config file of a directory has a name: `.replicated`, or else
`.replicated.yaml`. -/
def HasConfigFile (w : Workspace) (directory : Path) (name : String) : Prop :=
  w.hasFile (directory / name) = true ∧
    (name = ".replicated" ∨
      name = ".replicated.yaml" ∧ w.hasFile (directory / ".replicated") = false)

/-- The config files of some directories, each of which can be read and parsed. -/
inductive Chain (w : Workspace) : List Path → List Layer → Prop
  | nil : Chain w [] []
  | skip {directory directories layers} (hnone : ∀ name, ¬HasConfigFile w directory name)
      (rest : Chain w directories layers) : Chain w (directory :: directories) layers
  | file {directory directories layers name content own}
      (hname : HasConfigFile w directory name)
      (htext : w.readText (directory / name) = .ok content) (hparse : ofText content = .ok own)
      (rest : Chain w directories layers) :
      Chain w (directory :: directories) (⟨directory, own⟩ :: layers)

theorem fileIn?_eq_some {directory : Path} {name : String} (h : HasConfigFile w directory name) :
    fileIn? w directory = some (directory / name) := by
  unfold fileIn? fileNames
  obtain ⟨hfile, rfl | ⟨rfl, hprimary⟩⟩ := h
  · simp [hfile]
  · simp [hfile, hprimary]

theorem fileIn?_eq_none {directory : Path} (h : ∀ name, ¬HasConfigFile w directory name) :
    fileIn? w directory = none := by
  have hprimary : w.hasFile (directory / ".replicated") = false := by
    by_contra hfile
    exact h _ ⟨by simpa using hfile, .inl rfl⟩
  have hsecondary : w.hasFile (directory / ".replicated.yaml") = false := by
    by_contra hfile
    exact h _ ⟨by simpa using hfile, .inr ⟨rfl, hprimary⟩⟩
  unfold fileIn? fileNames
  simp [hprimary, hsecondary]

theorem load_eq_ok {q : Names} {name content : String} {own : Config} (h : AreNames (q ++ [name]))
    (htext : w.readText (ofNames (q ++ [name])) = .ok content) (hparse : ofText content = .ok own) :
    load w (ofNames (q ++ [name])) = .ok (own.anchor (ofNames q)) := by
  unfold load parse
  simp only [htext, hparse, Path.parent?_ofNames h, Option.map_some, Option.getD_some]

/-- The files of a chain are those that are loaded. -/
theorem Chain.mapM_load {directories : List Path} {layers : List Layer}
    (hchain : Chain w directories layers) (h : ∀ d ∈ directories, d.IsRooted) :
    (directories.filterMap (fileIn? w)).mapM (load w) =
      .ok (layers.map fun f => f.own.anchor f.directory) := by
  induction hchain with
  | nil => rfl
  | skip hnone _ ih =>
    rw [List.filterMap_cons_none (fileIn?_eq_none hnone)]
    exact ih fun d hd => h d (List.mem_cons_of_mem _ hd)
  | @file directory directories layers name content own hname htext hparse _ ih =>
    obtain ⟨q, hq, rfl⟩ := h directory List.mem_cons_self
    have hnames : AreNames (q ++ [name]) :=
      hq.concat (isName_of_mem_fileNames (by obtain ⟨-, rfl | ⟨rfl, -⟩⟩ := hname <;> decide))
    rw [List.filterMap_cons_some (fileIn?_eq_some hname), ← Path.ofNames_concat]
    rw [← Path.ofNames_concat] at htext
    refine mapM_cons_eq_ok.2 ⟨_, _, load_eq_ok hnames htext hparse,
      ih fun d hd => h d (List.mem_cons_of_mem _ hd), rfl⟩

/-! ### The defaults -/

namespace Lint

variable {l : Lint} {name : String}

/-- A tool without a version gets the latest one, and other names keep theirs. -/
theorem get?_withDefaults : l.withDefaults.tools.get? name =
    (l.tools.get? name).or
      (if name ∈ Tool.all.map (·.name) then some Version.latest else none) := by
  have hmissing : ∀ tools : List Tool,
      Versions.get? (tools.map fun t => (t.name, Version.latest)) name =
        if name ∈ tools.map (·.name) then some Version.latest else none := by
    intro tools
    induction tools with
    | nil => rfl
    | cons t tools ih =>
      by_cases ht : t.name = name
      · simp [Versions.get?, ht]
      · have hcons : Versions.get? ((t :: tools).map fun t => (t.name, Version.latest)) name =
            Versions.get? (tools.map fun t => (t.name, Version.latest)) name := by
          simp [Versions.get?, ht]
        rw [hcons, ih]
        simp [Ne.symm ht]
  show Versions.get? (l.tools ++ _) name = _
  rw [Versions.get?_append, hmissing]
  cases hname : l.tools.get? name with
  | some x => rfl
  | none =>
    have hiff : name ∈ (Tool.all.filter fun t => (l.tools.get? t.name).isNone).map (·.name) ↔
        name ∈ Tool.all.map (·.name) := by
      simp only [List.mem_map, List.mem_filter]
      constructor
      · rintro ⟨t, ⟨ht, -⟩, rfl⟩
        exact ⟨t, ht, rfl⟩
      · rintro ⟨t, ht, rfl⟩
        exact ⟨t, ⟨ht, by rw [hname]; rfl⟩, rfl⟩
    simp only [hiff]

theorem nodup_withDefaults (h : (l.tools.map (·.1)).Nodup) :
    (l.withDefaults.tools.map (·.1)).Nodup := by
  show ((l.tools ++ _).map (·.1)).Nodup
  rw [List.map_append, List.map_map, List.nodup_append]
  refine ⟨h, ?_, ?_⟩
  · have hall : (Tool.all.map (·.name)).Nodup := by decide
    exact hall.sublist (List.filter_sublist.map _)
  · rintro a ha b hb rfl
    obtain ⟨t, ht, rfl⟩ := List.mem_map.1 hb
    have hnone : l.tools.get? t.name = none := by simpa using (List.mem_filter.1 ht).2
    exact Versions.get?_eq_none_iff.1 hnone ha

end Lint

/-! ### The config of a chain -/

/-- Whether lint settings are the innermost ones that the files of a chain set, or else the
defaults. -/
structure Lint.IsInnermost (layers : List Layer) (l : Lint) : Prop where
  version : l.version = some ((innermost? (fun f => lint? (·.version) f.own) layers).getD 1)
  enabled : l.enabled = some ((innermost? (fun f => lint? (·.enabled) f.own) layers).getD true)
  disabled : ∀ t, (l.switches t).disabled =
    some ((innermost? (fun f => lint? (fun l => (l.switches t).disabled) f.own) layers).getD
      (!t.enabledByDefault))
  strict : ∀ t, (l.switches t).strict =
    some ((innermost? (fun f => lint? (fun l => (l.switches t).strict) f.own) layers).getD false)
  names : (l.tools.map (·.1)).Nodup
  tools : ∀ name, l.tools.get? name =
    (innermost? (fun f => lint? (·.tools.get? name) f.own) layers).or
      (if name ∈ Tool.all.map (·.name) then some "latest" else none)

/-- Whether a config is what the files of a chain say together. -/
structure IsInnermost (layers : List Layer) (c : Config) : Prop where
  appId : c.appId = (innermost? (fun f => text? f.own.appId) layers).getD ""
  appSlug : c.appSlug = (innermost? (fun f => text? f.own.appSlug) layers).getD ""
  releaseLabel : c.releaseLabel = (innermost? (fun f => text? f.own.releaseLabel) layers).getD ""
  channelIds : c.channelIds = (innermost? (fun f => list? f.own.channelIds) layers).getD []
  channelNames : c.channelNames = (innermost? (fun f => list? f.own.channelNames) layers).getD []
  charts : c.charts =
    (layers.flatMap fun f => f.own.charts.map fun e =>
      ⟨anchorText f.directory e.path, e.chartVersion, e.appVersion⟩).eraseDupsBy
        fun a b => a.path == b.path
  preflights : c.preflights =
    (layers.flatMap fun f => f.own.preflights.map fun e =>
      ⟨anchorText f.directory e.path, e.valuesPath.map (anchorText f.directory)⟩).eraseDupsBy
        fun a b => a.path == b.path
  manifests : c.manifests =
    (layers.flatMap fun f => f.own.manifests.map (anchorText f.directory)).eraseDups
  lint : ∃ l, c.lint = some l ∧ l.IsInnermost layers

section Gathered

variable {layers : List Layer}

/-- The files of a chain laid over each other, each seen from its directory. -/
def gathered (layers : List Layer) : Config :=
  mergeAll (layers.map fun f => f.own.anchor f.directory)

/-- A setting that directories do not change is the innermost one of the files. -/
theorem setting_gathered (setting : Config → Option β)
    (hanchor : ∀ d c, setting (anchor d c) = setting c) (hunset : setting unset = none)
    (hmerge : ∀ a b, b.NamesOnce → setting (merge a b) = (setting b).or (setting a))
    (h : ∀ f ∈ layers, f.own.NamesOnce) :
    setting (gathered layers) = innermost? (fun f => setting f.own) layers := by
  have honce : ∀ c ∈ layers.map fun f => f.own.anchor f.directory, c.NamesOnce := by
    intro c hc
    obtain ⟨f, hf, rfl⟩ := List.mem_map.1 hc
    exact h f hf
  unfold gathered
  rw [setting_mergeAll setting hunset hmerge honce]
  unfold innermost?
  rw [List.filterMap_map]
  congr 2
  funext f
  exact hanchor f.directory f.own

theorem text_gathered (text : Config → String) (hanchor : ∀ d c, text (anchor d c) = text c)
    (hunset : text unset = "") (hmerge : ∀ a b, text (merge a b) = pickText (text a) (text b))
    (h : ∀ f ∈ layers, f.own.NamesOnce) :
    text (gathered layers) = (innermost? (fun f => text? (text f.own)) layers).getD "" := by
  rw [← setting_gathered (fun c => text? (text c)) (fun d c => by rw [hanchor])
    (by rw [hunset]; rfl) (fun a b _ => by rw [hmerge, text?_pickText]) h, getD_text?]

theorem list_gathered (list : Config → List String) (hanchor : ∀ d c, list (anchor d c) = list c)
    (hunset : list unset = []) (hmerge : ∀ a b, list (merge a b) = pickList (list a) (list b))
    (h : ∀ f ∈ layers, f.own.NamesOnce) :
    list (gathered layers) = (innermost? (fun f => list? (list f.own)) layers).getD [] := by
  rw [← setting_gathered (fun c => list? (list c)) (fun d c => by rw [hanchor])
    (by rw [hunset]; rfl) (fun a b _ => by rw [hmerge, list?_pickList]) h, getD_list?]

/-- A setting of the lint block is the innermost one that a file sets. -/
theorem lint_gathered (setting : Lint → Option β) (hunset : setting .unset = none)
    (honTop : ∀ l m : Lint, (l.tools.map (·.1)).Nodup →
      setting (l.onTopOf m) = (setting l).or (setting m))
    (h : ∀ f ∈ layers, f.own.NamesOnce) :
    setting (gathered layers).lintSettings =
      innermost? (fun f => lint? setting f.own) layers := by
  rw [bind_lintSettings hunset]
  exact setting_gathered (lint? setting) (fun _ _ => rfl) rfl
    (fun a b hb => lint?_merge fun l hl m => honTop l m (hb l hl)) h

/-- The entries of a list are those of all files. -/
theorem entries_gathered (entries : Config → List α) (hunset : entries unset = [])
    (hmerge : ∀ a b, entries (merge a b) = entries a ++ entries b) :
    entries (gathered layers) = layers.flatMap fun f => entries (f.own.anchor f.directory) := by
  induction layers using List.reverseRecOn with
  | nil => exact hunset
  | append_singleton layers f ih =>
    unfold gathered at ih ⊢
    rw [List.map_append, List.map_singleton, mergeAll_concat, hmerge, ih, List.flatMap_append,
      List.flatMap_singleton]

theorem nodup_gathered (h : ∀ f ∈ layers, f.own.NamesOnce) :
    ((gathered layers).lintSettings.tools.map (·.1)).Nodup := by
  have honce : (gathered layers).NamesOnce := by
    refine .mergeAll fun c hc => ?_
    obtain ⟨f, hf, rfl⟩ := List.mem_map.1 hc
    exact h f hf
  unfold lintSettings
  cases hlint : (gathered layers).lint with
  | none => exact List.nodup_nil
  | some l => exact honce l hlint

theorem firsts_nil {path : α → String} (l : List α) :
    firsts path [] l = l.eraseDupsBy fun a b => path a == path b := by
  rw [firsts_eq_eraseDupsBy]
  simp

/-- **What the files of a chain say together.** -/
theorem isInnermost_gathered (h : ∀ f ∈ layers, f.own.NamesOnce) :
    IsInnermost layers (gathered layers).withDefaults.distinct where
  appId := text_gathered (·.appId) (fun _ _ => rfl) rfl (fun _ _ => rfl) h
  appSlug := text_gathered (·.appSlug) (fun _ _ => rfl) rfl (fun _ _ => rfl) h
  releaseLabel := text_gathered (·.releaseLabel) (fun _ _ => rfl) rfl (fun _ _ => rfl) h
  channelIds := list_gathered (·.channelIds) (fun _ _ => rfl) rfl (fun _ _ => rfl) h
  channelNames := list_gathered (·.channelNames) (fun _ _ => rfl) rfl (fun _ _ => rfl) h
  charts := by
    show firsts (·.path) [] (gathered layers).charts = _
    rw [firsts_nil, entries_gathered (·.charts) rfl fun _ _ => rfl]
    rfl
  preflights := by
    show firsts (·.path) [] (gathered layers).preflights = _
    rw [firsts_nil, entries_gathered (·.preflights) rfl fun _ _ => rfl]
    rfl
  manifests := by
    show firsts id [] (gathered layers).manifests = _
    rw [firsts_nil, entries_gathered (·.manifests) rfl fun _ _ => rfl]
    rfl
  lint := ⟨_, rfl, {
    version := by
      rw [← lint_gathered (·.version) rfl (fun _ _ _ => rfl) h]
      rfl
    enabled := by
      rw [← lint_gathered (·.enabled) rfl (fun _ _ _ => rfl) h]
      rfl
    disabled := fun t => by
      rw [← lint_gathered (fun l => (l.switches t).disabled) rfl (fun _ _ _ => rfl) h]
      rfl
    strict := fun t => by
      rw [← lint_gathered (fun l => (l.switches t).strict) rfl (fun _ _ _ => rfl) h]
      rfl
    names := Lint.nodup_withDefaults (nodup_gathered h)
    tools := fun name => by
      rw [Lint.get?_withDefaults, ← lint_gathered (·.tools.get? name) rfl
        (fun l m hl => Versions.get?_putAll hl) h]
      rfl }⟩

end Gathered

theorem Chain.namesOnce {directories : List Path} {layers : List Layer}
    (hchain : Chain w directories layers) : ∀ f ∈ layers, f.own.NamesOnce := by
  induction hchain with
  | nil => exact fun f hf => absurd hf List.not_mem_nil
  | skip _ _ ih => exact ih
  | file _ _ hparse _ ih => exact List.forall_mem_cons.2 ⟨namesOnce_of_ofText hparse, ih⟩

/-- **A chain of config files says what its innermost files say.**  The start is at some names
from the root, and the directories that may hold config files are those at the first ones of
them, the root first.  If each of their config files can be parsed, the config before
validation is the innermost one, and it applies unless it has issues. -/
theorem resolve_of_chain (hw : w.directory.isAbsolute = true) {start : Path}
    (hstart : w.hasFile (w.absolutize start) = false) :
    ∃ names, AreNames names ∧ w.absolutize start = ofNames names ∧
      ∀ layers, Chain w (names.inits.map ofNames) layers →
        ∃ c, (gather w (w.absolutize start)).map (·.withDefaults.distinct) = .ok c ∧
          c.IsInnermost layers ∧ resolve w start = (validate c).map fun _ => c := by
  obtain ⟨names, hnames, hnormal⟩ :=
    Path.exists_clean_eq_ofNames (Path.isAbsolute_div hw start.text)
  have hnormal : w.absolutize start = ofNames names := hnormal
  refine ⟨names, hnames, hnormal, fun layers hchain => ?_⟩
  have hrooted : ∀ d ∈ names.inits.map ofNames, d.IsRooted := by
    intro d hd
    obtain ⟨q, hq, rfl⟩ := List.mem_map.1 hd
    obtain ⟨more, rfl⟩ := (List.mem_inits q names).1 hq
    exact Path.isRooted_ofNames hnames.left
  have hgather : gather w (w.absolutize start) = .ok (gathered layers) := by
    unfold gather filesAbove
    rw [if_neg (by simp [hstart]), hnormal, ← List.filterMap_reverse,
      Path.reverse_ancestors_ofNames hnames, hchain.mapM_load hrooted]
    rfl
  refine ⟨_, by rw [hgather]; rfl, isInnermost_gathered hchain.namesOnce, ?_⟩
  unfold resolve
  rw [hgather]
  rfl

/-- A config that names a release, a chart and the versions of a known and an unknown tool. -/
def topConfig : String :=
  "appSlug: top\nreleaseLabel: r\ncharts:\n- path: ./common\n" ++
    "repl-lint:\n  tools:\n    helm: 3.13.0\n    other: 1.0.0\n"

/-- A config that names the same chart from another directory, and another version. -/
def webConfig : String :=
  "appSlug: web\ncharts:\n- path: ../common\n- path: ./chart\n" ++
    "repl-lint:\n  tools:\n    helm: 3.14.4\n"

/-- A project with a config file at its top, and one of the other name in a directory below. -/
def nestedProject : Workspace where
  tree := ⟨[(["p"], .directory), (["p", ".replicated"], .file topConfig.toUTF8 false),
    (["p", "web"], .directory), (["p", "web", ".replicated.yaml"], .file webConfig.toUTF8 false)]⟩
  directory := ⟨"/p"⟩

theorem chain_nestedProject {top web : Config} (htop : ofText topConfig = .ok top)
    (hweb : ofText webConfig = .ok web) :
    Chain nestedProject (["p", "web"].inits.map ofNames)
      [⟨ofNames ["p"], top⟩, ⟨ofNames ["p", "web"], web⟩] := by
  refine .skip ?_ (.file (?_ : HasConfigFile _ _ ".replicated") ?_ htop
    (.file (?_ : HasConfigFile _ _ ".replicated.yaml") ?_ hweb .nil))
  · rintro name ⟨hfile, rfl | ⟨rfl, -⟩⟩
    · exact absurd hfile (by decide +kernel)
    · exact absurd hfile (by decide +kernel)
  · exact ⟨by decide +kernel, .inl rfl⟩
  · exact toOption_eq_some_iff.1 (by decide +kernel)
  · exact ⟨by decide +kernel, .inr ⟨rfl, by decide +kernel⟩⟩
  · exact toOption_eq_some_iff.1 (by decide +kernel)

theorem exists_ofText {content : String} {P : Config → Bool}
    (h : (ofText content).toOption.any P = true) : ∃ c, ofText content = .ok c ∧ P c = true := by
  obtain ⟨c, hc, hP⟩ := (Option.any_eq_true _ _).1 h
  exact ⟨c, toOption_eq_some_iff.1 hc, hP⟩

theorem exists_topConfig : ∃ c, ofText topConfig = .ok c ∧ c.appSlug = "top" ∧
    c.releaseLabel = "r" ∧ c.charts = [⟨"./common", none, none⟩] ∧ lint? (·.enabled) c = none ∧
    lint? (fun l => (l.switches .kots).disabled) c = none ∧
    c.lintSettings.tools = [("helm", "3.13.0"), ("other", "1.0.0")] := by
  obtain ⟨c, hc, hsays⟩ := exists_ofText (show (ofText topConfig).toOption.any (fun c =>
    c.appSlug == "top" && (c.releaseLabel == "r" && (c.charts == [⟨"./common", none, none⟩] &&
      (lint? (·.enabled) c == none && (lint? (fun l => (l.switches .kots).disabled) c == none &&
        c.lintSettings.tools == [("helm", "3.13.0"), ("other", "1.0.0")]))))) = true by
          decide +kernel)
  simp only [Bool.and_eq_true, beq_iff_eq] at hsays
  exact ⟨c, hc, hsays⟩

theorem exists_webConfig : ∃ c, ofText webConfig = .ok c ∧ c.appSlug = "web" ∧
    c.releaseLabel = "" ∧ c.charts = [⟨"../common", none, none⟩, ⟨"./chart", none, none⟩] ∧
    lint? (·.enabled) c = none ∧ lint? (fun l => (l.switches .kots).disabled) c = none ∧
    c.lintSettings.tools = [("helm", "3.14.4")] := by
  obtain ⟨c, hc, hsays⟩ := exists_ofText (show (ofText webConfig).toOption.any (fun c =>
    c.appSlug == "web" && (c.releaseLabel == "" &&
      (c.charts == [⟨"../common", none, none⟩, ⟨"./chart", none, none⟩] &&
      (lint? (·.enabled) c == none && (lint? (fun l => (l.switches .kots).disabled) c == none &&
        c.lintSettings.tools == [("helm", "3.14.4")]))))) = true by decide +kernel)
  simp only [Bool.and_eq_true, beq_iff_eq] at hsays
  exact ⟨c, hc, hsays⟩

theorem resolve_of_chain_nestedProject :
    ∃ c l, (gather nestedProject (nestedProject.absolutize ⟨"web"⟩)).map
        (·.withDefaults.distinct) = .ok c ∧
      c.appSlug = "web" ∧ c.releaseLabel = "r" ∧
      c.charts.map (·.path) = ["/p/common", "/p/web/chart"] ∧ c.lint = some l ∧
      l.enabled = some true ∧ (l.switches .kots).disabled = some true ∧
      l.tools.get? "helm" = some "3.14.4" ∧ l.tools.get? "other" = some "1.0.0" ∧
      l.tools.get? "kots" = some "latest" := by
  obtain ⟨top, htop, hslug, hlabel, hcharts, henabled, hkots, htools⟩ := exists_topConfig
  obtain ⟨web, hweb, hslug', hlabel', hcharts', henabled', hkots', htools'⟩ := exists_webConfig
  have hversion (name : String) : lint? (·.tools.get? name) top =
      Versions.get? [("helm", "3.13.0"), ("other", "1.0.0")] name := by
    rw [← bind_lintSettings rfl, htools]
  have hversion' (name : String) : lint? (·.tools.get? name) web =
      Versions.get? [("helm", "3.14.4")] name := by
    rw [← bind_lintSettings rfl, htools']
  have hnormal : nestedProject.absolutize ⟨"web"⟩ = ofNames ["p", "web"] := by decide +kernel
  have hdirectory : nestedProject.directory.isAbsolute = true := by decide
  have hfile : nestedProject.hasFile (nestedProject.absolutize ⟨"web"⟩) = false := by
    decide +kernel
  obtain ⟨names, hnames, hstart, hchain⟩ := resolve_of_chain hdirectory hfile
  obtain rfl : names = ["p", "web"] :=
    (Path.ofNames_inj hnames (by decide)).1 (hstart.symm.trans hnormal)
  obtain ⟨c, hc, hinner, -⟩ := hchain _ (chain_nestedProject htop hweb)
  obtain ⟨l, hl, hlint⟩ := hinner.lint
  refine ⟨c, l, hc, ?_, ?_, ?_, hl, ?_, ?_, ?_, ?_, ?_⟩
  · rw [hinner.appSlug]
    simp [innermost?, text?, hslug']
  · rw [hinner.releaseLabel]
    simp [innermost?, text?, hlabel, hlabel']
  · have hcommon : anchorText (ofNames ["p"]) "./common" = "/p/common" := by decide +kernel
    have hsame : anchorText (ofNames ["p", "web"]) "../common" = "/p/common" := by decide +kernel
    have hchart : anchorText (ofNames ["p", "web"]) "./chart" = "/p/web/chart" := by decide +kernel
    rw [hinner.charts]
    simp [hcharts, hcharts', hcommon, hsame, hchart, List.eraseDupsBy_cons]
  · rw [hlint.enabled]
    simp [innermost?, henabled, henabled']
  · rw [hlint.disabled]
    simp only [innermost?, List.filterMap_cons, hkots, hkots']
    rfl
  · rw [hlint.tools]
    simp only [innermost?, List.filterMap_cons, hversion, hversion']
    rfl
  · rw [hlint.tools]
    simp only [innermost?, List.filterMap_cons, hversion, hversion']
    rfl
  · rw [hlint.tools]
    simp only [innermost?, List.filterMap_cons, hversion, hversion']
    rfl

end Config
end ReleaseLint
