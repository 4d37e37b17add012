/-
# What is found where nothing has changed

Two workspaces agree below a directory if the same stands at every path there, and a walk passes
the same entries (`AgreeBelow`).  Then every configured path that leads into the directory finds
the same resources in both of them, or the same error.

| configured path | leads into |
| --- | --- |
| explicit | the directory it names a resource in |
| pattern | the directory that its names before the first wildcard lead to |
-/

import ReleaseLint.Proofs.Relocation.Resource

namespace ReleaseLint

open Path (ofNames)

variable {v w : Workspace} {a m names : Names} {s x : String}

/-- Whether the same stands below some names of two workspaces, and a walk passes the same there. -/
structure AgreeBelow (v w : Workspace) (a : Names) : Prop where
  left : v.tree.IsSound
  right : w.tree.IsSound
  node : ∀ m, AreNames (a ++ m) → v.node (ofNames (a ++ m)) = w.node (ofNames (a ++ m))
  walks : ∀ m, AreNames (a ++ m) → w.hasDirectory (ofNames (a ++ m)) = true → ∀ e,
    v.Walks (ofNames (a ++ m)) e ↔ w.Walks (ofNames (a ++ m)) e

namespace AgreeBelow

theorem has_eq (h : AgreeBelow v w a) (hm : AreNames (a ++ m)) :
    v.has (ofNames (a ++ m)) = w.has (ofNames (a ++ m)) := by
  unfold Workspace.has
  rw [h.node m hm]

theorem hasFile_eq (h : AgreeBelow v w a) (hm : AreNames (a ++ m)) :
    v.hasFile (ofNames (a ++ m)) = w.hasFile (ofNames (a ++ m)) := by
  unfold Workspace.hasFile
  rw [h.node m hm]

theorem hasDirectory_eq (h : AgreeBelow v w a) (hm : AreNames (a ++ m)) :
    v.hasDirectory (ofNames (a ++ m)) = w.hasDirectory (ofNames (a ++ m)) := by
  unfold Workspace.hasDirectory
  rw [h.node m hm]

end AgreeBelow

namespace Glob

variable {f : Filter} {tail : List String} {ps : List Piece}

theorem ignores_congr (h : AgreeBelow v w a) (hm : AreNames (a ++ m)) (f : Filter) :
    f.ignores v (ofNames (a ++ m)) = f.ignores w (ofNames (a ++ m)) := by
  unfold Filter.ignores Ignore.Checker.ignores
  rw [Path.absolutize_ofNames v hm, Path.absolutize_ofNames w hm]
  simp only [h.hasDirectory_eq hm]

theorem isVisited_congr (h : AgreeBelow v w a) (f : Filter) (isDirectory : Bool) :
    ∀ {m names : Names}, AreNames (a ++ m ++ names) →
      isVisited v f (ofNames (a ++ m)) isDirectory names =
        isVisited w f (ofNames (a ++ m)) isDirectory names
  | _, [], _ => rfl
  | m, s :: r, hnames => by
    rw [List.append_cons] at hnames
    rw [isVisited, isVisited, ← Path.ofNames_concat, List.append_assoc]
    rw [List.append_assoc a m] at hnames
    rw [ignores_congr h hnames.left, isVisited_congr h f isDirectory hnames]

theorem isFound_congr (h : AgreeBelow v w a) (hnames : AreNames (a ++ m ++ names))
    (hdirectory : w.hasDirectory (ofNames (a ++ m)) = true) :
    IsFound v f (ofNames (a ++ m)) tail ps names ↔ IsFound w f (ofNames (a ++ m)) tail ps names := by
  have hall : AreNames (a ++ (m ++ names)) := List.append_assoc a m names ▸ hnames
  unfold IsFound isListed
  refine exists_congr fun node => and_congr (h.walks m hnames.left hdirectory _) ?_
  rw [isVisited_congr h f _ hnames, pathBelow_ofNames, List.append_assoc, ignores_congr h hall]

/-- **A walk finds the same,** in the same order. -/
theorem matchesBelow_congr (h : AgreeBelow v w a) (hm : AreNames (a ++ m))
    (hdirectory : w.hasDirectory (ofNames (a ++ m)) = true) :
    matchesBelow v f (ofNames (a ++ m)) tail ps = matchesBelow w f (ofNames (a ++ m)) tail ps := by
  refine Path.eq_of_pairwise_lt (pairwise_matchesBelow h.left hm)
    (pairwise_matchesBelow h.right hm) fun p => ?_
  rw [mem_matchesBelow_iff, mem_matchesBelow_iff]
  refine exists_congr fun names => and_congr_left fun _ => ?_
  constructor
  · exact fun hfound =>
      (isFound_congr h (hm.append (areNames_of_isFound h.left hfound).1) hdirectory).1 hfound
  · exact fun hfound =>
      (isFound_congr h (hm.append (areNames_of_isFound h.right hfound).1) hdirectory).2 hfound

theorem leadOf_append_of_plain (ha : ∀ s ∈ a, isPattern s = false) (m : Names) :
    leadOf (a ++ m) = a ++ leadOf m :=
  List.takeWhile_append_of_pos fun s hs => by rw [ha s hs]; rfl

/-- **A pattern stands for the same paths.** -/
theorem expand_congr (h : AgreeBelow v w a) (ha : ∀ s ∈ a, isPattern s = false)
    (hm : AreNames (a ++ m)) (f : Filter) :
    expand v f (ofNames (a ++ m)).text = expand w f (ofNames (a ++ m)).text := by
  have hlead : AreNames (a ++ leadOf m) := leadOf_append_of_plain ha m ▸ areNames_leadOf hm
  rw [expand_ofNames hm, expand_ofNames hm, leadOf_append_of_plain ha]
  refine congrArg _ (funext fun _ => ?_)
  rw [h.has_eq hlead, h.hasFile_eq hlead, ignores_congr h hlead, h.hasDirectory_eq hlead]
  cases hdirectory : w.hasDirectory (ofNames (a ++ leadOf m)) with
  | false => rfl
  | true =>
    have hfound : matchesBelow v f (ofNames (a ++ leadOf m)) (tailOf (a ++ m)) =
        matchesBelow w f (ofNames (a ++ leadOf m)) (tailOf (a ++ m)) :=
      funext fun ps => matchesBelow_congr h hlead hdirectory
    rw [hfound]

/-- What a pattern stands for lies in the directory that it leads into. -/
theorem exists_of_mem_expand (hw : w.tree.IsSound) (ha : ∀ s ∈ a, isPattern s = false)
    (hm : AreNames (a ++ m ++ [s])) {found : List Path}
    (hfound : expand w f (ofNames (a ++ m ++ [s])).text = .ok found) {p : Path} (hp : p ∈ found) :
    ∃ q s', AreNames (a ++ q ++ [s']) ∧ p = ofNames (a ++ q ++ [s']) := by
  by_cases htail : tailOf (a ++ m ++ [s]) = []
  · obtain ⟨-, rfl⟩ := (expand_explicit hm htail).1 hfound
    split_ifs at hp
    · exact ⟨m, s, hm, List.mem_singleton.1 hp⟩
    · exact absurd hp List.not_mem_nil
  · obtain ⟨-, ⟨-, rfl⟩ | ⟨-, ps, -, rfl⟩⟩ := (expand_pattern hm htail).1 hfound
    · exact absurd hp List.not_mem_nil
    · obtain ⟨names, hnames, rfl⟩ := mem_matchesBelow_iff.1 hp
      obtain ⟨hnames, hne⟩ := areNames_of_isFound hw hnames
      obtain ⟨q, s', rfl⟩ := (List.eq_nil_or_concat names).resolve_left hne
      rw [List.concat_eq_append] at hnames ⊢
      have hlead := areNames_leadOf hm
      rw [List.append_assoc, leadOf_append_of_plain ha] at hlead ⊢
      refine ⟨leadOf (m ++ [s]) ++ q, s', ?_, ?_⟩
      · rw [← List.append_assoc, List.append_assoc]
        exact hlead.append hnames
      · rw [pathBelow_ofNames, ← List.append_assoc, ← List.append_assoc]

end Glob

/-! ### One path -/

/-- Whether a path lies in the directory at some names. -/
def Path.LiesIn (a : Names) (p : Path) : Prop :=
  ∃ m s, AreNames (a ++ m ++ [s]) ∧ p = ofNames (a ++ m ++ [s])

theorem AgreeBelow.node_eq {p : Path} (h : AgreeBelow v w a) (hp : p.LiesIn a) :
    v.node p = w.node p := by
  obtain ⟨m, s, hm, rfl⟩ := hp
  rw [List.append_assoc] at hm ⊢
  exact h.node _ hm

theorem AgreeBelow.node_parent {p q : Path} (h : AgreeBelow v w a) (hp : p.LiesIn a)
    (hq : p.parent? = some q) : v.node q = w.node q := by
  obtain ⟨m, s, hm, rfl⟩ := hp
  rw [Path.parent?_ofNames hm] at hq
  rw [← Option.some.inj hq]
  exact h.node m hm.left

theorem Workspace.readText_congr {p : Path} (h : v.node p = w.node p) :
    v.readText p = w.readText p := by
  unfold readText read
  rw [h]

namespace Resource

open Glob (isPattern)

variable {k : Option Ignore.Checker} {kind : Kind} {found : List Path} {p : Path} {l : List String}
  {configured : String}

theorem declares_congr (h : v.node p = w.node p) (kind : Kind) :
    declares v kind p = declares w kind p := by
  unfold declares
  rw [Workspace.readText_congr h]

theorem clusterVersion_congr (h : v.node p = w.node p) : clusterVersion v p = clusterVersion w p := by
  unfold clusterVersion
  rw [Workspace.readText_congr h]

theorem isTemplatedPreflight_congr (h : v.node p = w.node p) :
    isTemplatedPreflight v p = isTemplatedPreflight w p := by
  unfold isTemplatedPreflight
  rw [Workspace.readText_congr h]

/-- The chart in a directory is told by its marker files. -/
theorem chart_congr (h : ∀ marker ∈ Chart.markers, v.node (p / marker) = w.node (p / marker)) :
    isChart v p = isChart w p ∧ chartAt v p = chartAt w p := by
  have hfirst := h "Chart.yaml" (by decide)
  have hsecond := h "Chart.yml" (by decide)
  unfold isChart chartAt Chart.markers
  simp only [List.any_cons, List.any_nil, List.findSome?_cons, List.findSome?_nil,
    Workspace.readText_congr hfirst, Workspace.readText_congr hsecond]
  unfold Workspace.hasFile
  rw [hfirst, hsecond]
  exact ⟨rfl, trivial⟩

/-! ### Configured paths -/

/-- Whether a configured path leads into the directory at some names, none of which is a pattern. -/
def LeadsInto (a : Names) (x : String) : Prop :=
  (∀ s ∈ a, isPattern s = false) ∧ (Path.mk x).LiesIn a

theorem files_congr (h : AgreeBelow v w a) (hx : LeadsInto a x) (k : Option Ignore.Checker)
    (configured : String) : files v k configured x = files w k configured x := by
  obtain ⟨ha, m, s, hm, hx⟩ := hx
  obtain rfl : x = (ofNames (a ++ m ++ [s])).text := congrArg Path.text hx
  rw [List.append_assoc] at hm ⊢
  exact Glob.expand_congr h ha hm _

theorem liesIn_of_mem_files (hw : w.tree.IsSound) (hx : LeadsInto a x)
    (hfound : files w k configured x = .ok found) (hp : p ∈ found) : p.LiesIn a := by
  obtain ⟨ha, m, s, hm, hx⟩ := hx
  obtain rfl : x = (ofNames (a ++ m ++ [s])).text := congrArg Path.text hx
  exact Glob.exists_of_mem_expand hw ha hm hfound hp

theorem mem_of_mem_distinctPaths {seen : List Path} (hp : p ∈ distinctPaths seen found) :
    p ∈ found := by
  induction found generalizing seen with
  | nil => exact hp
  | cons q r ih =>
    rw [distinctPaths] at hp
    split_ifs at hp
    · exact List.mem_cons_of_mem q (ih hp)
    · rcases List.mem_cons.1 hp with rfl | hp
      · exact List.mem_cons_self
      · exact List.mem_cons_of_mem q (ih hp)

variable {find find' : String → Except Error (List Path)}

theorem collect_congr (h : ∀ x ∈ l, find x = find' x) : collect find l = collect find' l := by
  unfold collect
  rw [mapM_congr h]

theorem exists_of_mem_collect (hfound : collect find l = .ok found) (hp : p ∈ found) :
    ∃ x ∈ l, ∃ part, find x = .ok part ∧ p ∈ part := by
  obtain ⟨parts, hparts, rfl⟩ := collect_eq_ok.1 hfound
  obtain ⟨part, hpart, hp⟩ := List.mem_flatten.1 (mem_of_mem_distinctPaths hp)
  obtain ⟨x, hx, hfind⟩ := (mem_of_mapM hparts).1 hpart
  exact ⟨x, hx, part, hfind, hp⟩

theorem leadsInto_of_mem_yamlBelow (ha : ∀ s ∈ a, isPattern s = false) (hm : AreNames (a ++ m))
    {y : String} (hy : y ∈ yamlBelow (a ++ m)) : LeadsInto a y := by
  rcases List.mem_pair.1 hy with rfl | rfl
  · exact ⟨ha, m, _, hm.concat (Glob.isName_star isEnding_yaml), rfl⟩
  · exact ⟨ha, m, _, hm.concat (Glob.isName_star isEnding_yml), rfl⟩

/-- The patterns for YAML files lead into the directory that their pattern leads into. -/
theorem leadsInto_of_mem_yamlPatterns (hx : LeadsInto a x) (h : yamlPatterns x = .ok l)
    {y : String} (hy : y ∈ l) : LeadsInto a y := by
  have hx' := hx
  obtain ⟨ha, m, s, hm, heq⟩ := hx'
  obtain rfl : x = (ofNames (a ++ m ++ [s])).text := congrArg Path.text heq
  rw [yamlPatterns_ofNames hm] at h
  split_ifs at h
  · rw [← Except.ok.inj h, List.mem_singleton] at hy
    exact hy ▸ hx
  · rw [← Except.ok.inj h] at hy
    exact leadsInto_of_mem_yamlBelow ha hm.left hy
  · rw [← Except.ok.inj h, List.append_assoc] at hy
    exact leadsInto_of_mem_yamlBelow ha (List.append_assoc a m [s] ▸ hm) hy

theorem clean_of_leadsInto (hx : LeadsInto a x) : (Path.mk x).clean = ⟨x⟩ := by
  obtain ⟨-, m, s, hm, hx⟩ := hx
  rw [hx, Path.clean_ofNames hm]

/-- **The same resources of a kind are found.** -/
theorem ofKind_congr (h : AgreeBelow v w a) (hx : LeadsInto a x) (k : Option Ignore.Checker)
    (kind : Kind) : ofKind v k kind x = ofKind w k kind x := by
  have hnode := h.node_eq hx.2
  unfold ofKind
  split_ifs with hblank hexplicit
  · rfl
  · unfold explicitOfKind
    simp only [clean_of_leadsInto hx]
    unfold Workspace.has Workspace.hasDirectory
    rw [hnode, declares_congr hnode]
  · rw [clean_of_leadsInto hx]
    refine bind_congr_ok fun ps hps => ?_
    have hall : ∀ y ∈ ps, LeadsInto a y := fun y hy => leadsInto_of_mem_yamlPatterns hx hps hy
    rw [collect_congr fun y hy => files_congr h (hall y hy) k x]
    refine bind_congr_ok fun found hfound => congrArg Except.ok (List.filter_congr fun p hp => ?_)
    obtain ⟨y, hy, part, hpart, hp⟩ := exists_of_mem_collect hfound hp
    rw [declares_congr (h.node_eq (liesIn_of_mem_files h.right (hall y hy) hpart hp))]

theorem liesIn_of_mem_ofKind (hw : w.tree.IsSound) (hx : LeadsInto a x)
    (hfound : ofKind w k kind x = .ok found) (hp : p ∈ found) : p.LiesIn a := by
  unfold ofKind at hfound
  split_ifs at hfound with hblank hexplicit
  · unfold explicitOfKind at hfound
    simp only [clean_of_leadsInto hx, unless_eq_ok, bind_eq_ok] at hfound
    obtain ⟨-, -, -, declared, -, -, hfound⟩ := hfound
    rw [← Except.ok.inj hfound, List.mem_singleton] at hp
    exact hp ▸ hx.2
  · rw [clean_of_leadsInto hx] at hfound
    obtain ⟨ps, hpatterns, hfound⟩ := bind_eq_ok.1 hfound
    obtain ⟨all, hall, hfound⟩ := bind_eq_ok.1 hfound
    rw [← Except.ok.inj hfound] at hp
    obtain ⟨y, hy, part, hpart, hp⟩ := exists_of_mem_collect hall (List.mem_of_mem_filter hp)
    exact liesIn_of_mem_files hw (leadsInto_of_mem_yamlPatterns hx hpatterns hy) hpart hp

/-! ### All configured paths -/

/-- Whether configured paths lead into directories below which two workspaces agree. -/
def AreShared (v w : Workspace) (l : List String) : Prop :=
  ∀ x ∈ l, ∃ a, AgreeBelow v w a ∧ LeadsInto a x

theorem supportBundles_congr (h : AreShared v w l) (k : Option Ignore.Checker) :
    supportBundles v k l = supportBundles w k l :=
  collect_congr fun x hx =>
    let ⟨_, hagree, hlies⟩ := h x hx
    ofKind_congr hagree hlies k _

theorem node_eq_of_mem_supportBundles (h : AreShared v w l)
    (hfound : supportBundles w k l = .ok found) (hp : p ∈ found) : v.node p = w.node p := by
  obtain ⟨x, hx, part, hpart, hp⟩ := exists_of_mem_collect hfound hp
  obtain ⟨a, hagree, hlies⟩ := h x hx
  exact hagree.node_eq (liesIn_of_mem_ofKind hagree.right hlies hpart hp)

theorem manifestFiles_congr (h : AreShared v w l) (k : Option Ignore.Checker) :
    manifestFiles v k l = manifestFiles w k l :=
  collect_congr fun x hx =>
    let ⟨_, hagree, hlies⟩ := h x hx
    files_congr hagree hlies k x

theorem exists_liesIn_of_mem_manifestFiles (h : AreShared v w l)
    (hfound : manifestFiles w k l = .ok found) (hp : p ∈ found) :
    ∃ a, AgreeBelow v w a ∧ p.LiesIn a := by
  obtain ⟨x, hx, part, hpart, hp⟩ := exists_of_mem_collect hfound hp
  obtain ⟨a, hagree, hlies⟩ := h x hx
  exact ⟨a, hagree, liesIn_of_mem_files hagree.right hlies hpart hp⟩

theorem clusterConfigs_congr (h : AreShared v w l) (k : Option Ignore.Checker) :
    clusterConfigs v k l = clusterConfigs w k l := by
  unfold clusterConfigs
  rw [manifestFiles_congr h k]
  refine bind_congr_ok fun files hfiles => congrArg Except.ok (List.filter_congr fun p hp => ?_)
  obtain ⟨a, hagree, hlies⟩ := exists_liesIn_of_mem_manifestFiles h hfiles hp
  rw [Workspace.readText_congr (hagree.node_eq hlies)]

theorem node_eq_of_mem_clusterConfigs (h : AreShared v w l)
    (hfound : clusterConfigs w k l = .ok found) (hp : p ∈ found) : v.node p = w.node p := by
  obtain ⟨files, hfiles, hfound⟩ := bind_eq_ok.1 hfound
  rw [← Except.ok.inj hfound] at hp
  obtain ⟨a, hagree, hlies⟩ :=
    exists_liesIn_of_mem_manifestFiles h hfiles (List.mem_of_mem_filter hp)
  exact hagree.node_eq hlies

theorem manifestDirectories_congr (h : AreShared v w l) (k : Option Ignore.Checker) :
    manifestDirectories v k l = manifestDirectories w k l := by
  unfold manifestDirectories
  rw [manifestFiles_congr h k]

theorem node_eq_of_mem_manifestDirectories (h : AreShared v w l)
    (hfound : manifestDirectories w k l = .ok found) (hp : p ∈ found) : v.node p = w.node p := by
  obtain ⟨files, hfiles, hfound⟩ := bind_eq_ok.1 hfound
  rw [← Except.ok.inj hfound] at hp
  obtain ⟨file, hfile, hparent⟩ := List.mem_filterMap.1 (mem_of_mem_distinctPaths hp)
  obtain ⟨a, hagree, hlies⟩ := exists_liesIn_of_mem_manifestFiles h hfiles hfile
  exact hagree.node_parent hlies hparent

end Resource

end ReleaseLint
