/-
# Configs in two places

A config file is read as seen from its directory.  If what it names stays in the project
(`StaysInside`), it names the same there wherever the project stands, and if no config file stands
above the project, the same config applies at both places (`resolve_alike`).

| path in a file of the directory `web` | stays inside |
| --- | --- |
| `./chart`, `../common`, `a/../b/*.yaml` | yes, and names `web/chart`, `common`, `web/b/*.yaml` |
| `../../other`, `../../here/web`, `/etc` | no |
-/

import ReleaseLint.Proofs.Config.Paths
import ReleaseLint.Proofs.Relocation.Pattern
import ReleaseLint.Proofs.Relocation.Tree
import Mathlib.Data.List.Find
import Mathlib.Data.Set.List

namespace ReleaseLint

namespace Path

variable {segments : List Segment} {names a d m : Names} {value : String}

/-- What is no name is never undone. -/
theorem foldl_follow_ne {x : Segment} {back : List Segment} (hx : ∀ s, x ≠ .name s) (h : x ∈ back)
    (segments : List Segment) (names : Names) : segments.foldl follow back ≠ names.map .name := by
  have hstep (back : List Segment) (y : Segment) (h : x ∈ back) : x ∈ follow back y := by
    unfold follow
    split
    · exact h
    · split
      · exact (List.mem_cons.1 h).resolve_left (hx _)
      · exact h
      · exact List.mem_cons_of_mem _ h
    · exact List.mem_cons_of_mem _ h
  induction segments generalizing back with
  | nil =>
    rintro rfl
    obtain ⟨s, -, hs⟩ := List.mem_map.1 h
    exact hx s hs.symm
  | cons y r ih => exact ih (hstep back y h)

/-- Segments that lead from names to names do so wherever the names stand. -/
theorem foldl_follow_append {r : Names} (h : segments.foldl follow (names.map .name) = r.map .name)
    (floor : List Segment) :
    segments.foldl follow (names.map .name ++ floor) = r.map .name ++ floor := by
  induction segments generalizing names with
  | nil => exact congrArg (· ++ floor) h
  | cons y segments ih =>
    rw [List.foldl_cons] at h ⊢
    cases y with
    | root => exact absurd h (foldl_follow_ne (by simp) List.mem_cons_self segments r)
    | here => exact ih h
    | name s =>
      have hnext : segments.foldl follow ((s :: names).map .name) = r.map .name := h
      exact ih hnext
    | parent =>
      cases names with
      | nil => exact absurd h (foldl_follow_ne (by simp) List.mem_cons_self segments r)
      | cons s names => exact ih h

/-- The segments of a relative path lead where its pieces do. -/
theorem foldl_follow_segments (hrel : value.toList.head? ≠ some '/') (back : List Segment) :
    (Path.mk value).segments.foldl follow back =
      ((value.toList.splitOn '/').filterMap segment?).foldl follow back := by
  rcases segments_of_relative (p := ⟨value⟩) hrel with h | h
  all_goals
    rw [h]
    rfl

theorem filterMap_segment? (h : AreNames names) :
    (names.map String.toList).filterMap segment? = names.map .name := by
  rw [List.filterMap_map, ← List.filterMap_eq_map]
  exact List.filterMap_congr fun s hs => segment?_name (h s hs)

theorem splitOn_text_ofNames_div (h : AreNames names) (hrel : value.toList.head? ≠ some '/') :
    (ofNames names / value).text.toList.splitOn '/' =
      [] :: (names.map String.toList ++ value.toList.splitOn '/') := by
  rw [text_div_of_relative hrel]
  rcases List.eq_nil_or_concat names with rfl | ⟨q, s, rfl⟩
  · rw [if_neg (by decide), if_pos (by rfl), show (ofNames []).text.toList = [] ++ ['/'] from rfl,
      List.append_assoc, List.singleton_append, List.splitOn_append_cons_self]
    rfl
  · rw [List.concat_eq_append] at h ⊢
    have hlast : (ofNames (q ++ [s])).text.toList.getLast? ≠ some '/' := by
      rw [ofNames_concat]
      exact getLast_text_div (x := .name s) h.last
    have hne : (ofNames (q ++ [s])).text ≠ "" := by
      rw [ofNames_concat]
      exact text_div_ne_empty (x := .name s) h.last
    rw [if_neg hne, if_neg hlast, List.splitOn_append_cons_self,
      splitOn_text_ofNames h (by simp), List.cons_append]

/-- A relative path behind some names goes on from them. -/
theorem segments_ofNames_div (h : AreNames names) (hrel : value.toList.head? ≠ some '/') :
    (ofNames names / value).segments =
      .root :: (names.map .name ++ (value.toList.splitOn '/').filterMap segment?) := by
  unfold segments segmentsOf
  rw [splitOn_text_ofNames_div h hrel]
  dsimp only
  rw [if_pos rfl, if_neg (by simp [List.splitOn_ne_nil]), List.filterMap_append,
    filterMap_segment? h]

end Path

namespace Config

open Path (ofNames)

/-- Whether a path, as seen from the directory at the names `d` of a project, stays in the project.
It leads to names, without undoing more of them than there are. -/
def StaysInside (d : Names) (value : String) : Prop :=
  ∃ m : Names, Path.cleanSegments (d.map .name ++ (Path.mk value).segments) = m.map .name

instance (d : Names) (value : String) : Decidable (StaysInside d value) :=
  decidable_of_iff (∀ x ∈ Path.cleanSegments (d.map Segment.name ++ (Path.mk value).segments),
    x.rank = 3) <| by
    have hname (x : Segment) : x.rank = 3 ↔ x ∈ Set.range Segment.name := by
      cases x <;> simp [Segment.rank]
    have hrange := Set.ext_iff.1 (Set.range_list_map Segment.name)
      (Path.cleanSegments (d.map Segment.name ++ (Path.mk value).segments))
    simp only [hname]
    exact hrange.symm.trans (exists_congr fun m => eq_comm)

instance {P : String → Prop} [DecidablePred P] (c : Config) : Decidable (AllPaths P c) :=
  decidable_of_iff ((∀ e ∈ c.charts, P e.path) ∧ (∀ e ∈ c.preflights, P e.path) ∧
      (∀ e ∈ c.preflights, ∀ value ∈ e.valuesPath.toList, P value) ∧ ∀ m ∈ c.manifests, P m) <| by
    simp only [Option.mem_toList]
    exact ⟨fun h => ⟨h.1, h.2.1, h.2.2.1, h.2.2.2⟩, fun h => ⟨h.1, h.2, h.3, h.4⟩⟩

variable {a b d : Names} {value : String}

/-- **What stays in a project names the same there** wherever it stands. -/
theorem StaysInside.exists_anchor (h : StaysInside d value) (hd : AreNames d) :
    ∃ m, ∀ a, AreNames a →
      AreNames (a ++ m) ∧ Path.anchor (ofNames (a ++ d)) value = ofNames (a ++ m) := by
  obtain ⟨m, hm⟩ := h
  rw [Path.cleanSegments, List.foldl_append, Path.foldl_follow_names, List.append_nil,
    List.reverse_eq_iff, ← List.map_reverse] at hm
  have hrel : value.toList.head? ≠ some '/' := by
    intro habsolute
    obtain ⟨tail, htail⟩ :=
      Path.exists_segments_of_isAbsolute (p := ⟨value⟩) (beq_iff_eq.2 habsolute)
    rw [htail, List.foldl_cons] at hm
    exact Path.foldl_follow_ne (by simp) List.mem_cons_self tail m.reverse hm
  rw [Path.foldl_follow_segments hrel] at hm
  refine ⟨m, fun a ha => ?_⟩
  have hsegments := Path.segments_ofNames_div (ha.append hd) hrel
  have hclean : Path.cleanSegments (ofNames (a ++ d) / value).segments =
      .root :: (a ++ m).map .name := by
    rw [hsegments, Path.cleanSegments, List.foldl_cons, List.foldl_append,
      Path.foldl_follow_names, List.reverse_append, List.map_append, List.append_assoc,
      Path.foldl_follow_append hm]
    simp [Path.follow]
  obtain ⟨names, hnames, hsame⟩ :=
    Path.exists_cleanSegments_eq (Path.isStep_of_segments_eq hsegments)
  rw [← hsegments, hclean, List.cons_eq_cons,
    (List.map_injective_iff.2 fun _ _ => Segment.name.inj).eq_iff] at hsame
  obtain ⟨-, rfl⟩ := hsame
  refine ⟨hnames, ?_⟩
  unfold Path.anchor Path.clean
  rw [hclean]
  exact Path.along_root ⟨""⟩ _

/-! ### Configs with moved paths -/

variable {v w : Workspace} {c c' e e' : Config} {x y : String}

/-- Whether two texts are both empty, or the same names in a project at both places. -/
def IsMovedText (a b : Names) (x y : String) : Prop :=
  x = "" ∧ y = "" ∨ Path.IsMoved a b ⟨x⟩ ⟨y⟩

/-- Whether two charts are the same but for the places of their paths. -/
structure ChartEntry.IsMoved (a b : Names) (e e' : ChartEntry) : Prop where
  path : IsMovedText a b e.path e'.path
  chartVersion : e.chartVersion = e'.chartVersion
  appVersion : e.appVersion = e'.appVersion

/-- Whether two preflights are the same but for the places of their paths. -/
structure PreflightEntry.IsMoved (a b : Names) (e e' : PreflightEntry) : Prop where
  path : IsMovedText a b e.path e'.path
  valuesPath : Option.Rel (IsMovedText a b) e.valuesPath e'.valuesPath

/-- A config without the lists that hold paths. -/
def pathless (c : Config) : Config :=
  { c with charts := [], preflights := [], manifests := [] }

/-- Whether two configs are the same but for the places of their paths. -/
structure IsMoved (a b : Names) (c c' : Config) : Prop where
  charts : List.Forall₂ (ChartEntry.IsMoved a b) c.charts c'.charts
  preflights : List.Forall₂ (PreflightEntry.IsMoved a b) c.preflights c'.preflights
  manifests : List.Forall₂ (IsMovedText a b) c.manifests c'.manifests
  rest : c.pathless = c'.pathless

theorem isMovedText_anchorText (ha : AreNames a) (hb : AreNames b) (hd : AreNames d)
    (h : StaysInside d value) : IsMovedText a b (anchorText (ofNames (a ++ d)) value)
      (anchorText (ofNames (b ++ d)) value) := by
  unfold anchorText
  split_ifs with hempty
  · exact .inl ⟨hempty, hempty⟩
  · obtain ⟨m, hm⟩ := h.exists_anchor hd
    rw [(hm a ha).2, (hm b hb).2]
    exact .inr ⟨m, (hm a ha).1.right, rfl, rfl⟩

/-- What stays in a project is moved with it. -/
theorem isMoved_anchor (ha : AreNames a) (hb : AreNames b) (hd : AreNames d)
    (h : AllPaths (StaysInside d) c) :
    IsMoved a b (anchor (ofNames (a ++ d)) c) (anchor (ofNames (b ++ d)) c) where
  charts := by
    unfold anchor
    rw [List.forall₂_map_left_iff, List.forall₂_map_right_iff, List.forall₂_same]
    exact fun e he => ⟨isMovedText_anchorText ha hb hd (h.charts e he), rfl, rfl⟩
  preflights := by
    unfold anchor
    rw [List.forall₂_map_left_iff, List.forall₂_map_right_iff, List.forall₂_same]
    refine fun e he => ⟨isMovedText_anchorText ha hb hd (h.preflights e he), ?_⟩
    cases hvalues : e.valuesPath with
    | none => exact .none
    | some value => exact .some (isMovedText_anchorText ha hb hd (h.values e he value hvalues))
  manifests := by
    unfold anchor
    rw [List.forall₂_map_left_iff, List.forall₂_map_right_iff, List.forall₂_same]
    exact fun m hm => isMovedText_anchorText ha hb hd (h.manifests m hm)
  rest := by
    unfold anchor pathless
    dsimp only

namespace IsMoved

theorem unset : IsMoved a b unset unset :=
  ⟨.nil, .nil, .nil, rfl⟩

theorem merge (hc : IsMoved a b c c') (he : IsMoved a b e e') :
    IsMoved a b (merge c e) (merge c' e') where
  charts := List.rel_append hc.charts he.charts
  preflights := List.rel_append hc.preflights he.preflights
  manifests := List.rel_append hc.manifests he.manifests
  rest := by
    show Config.merge c.pathless e.pathless = Config.merge c'.pathless e'.pathless
    rw [hc.rest, he.rest]

theorem mergeAll {configs configs' : List Config}
    (h : List.Forall₂ (IsMoved a b) configs configs') :
    IsMoved a b (mergeAll configs) (mergeAll configs') := by
  have hfold {c c' : Config} (hc : IsMoved a b c c') :
      IsMoved a b (configs.foldl Config.merge c) (configs'.foldl Config.merge c') := by
    induction h generalizing c c' with
    | nil => exact hc
    | cons he _ ih => exact ih (hc.merge he)
  exact hfold .unset

theorem withDefaults (h : IsMoved a b c c') : IsMoved a b c.withDefaults c'.withDefaults where
  charts := h.charts
  preflights := h.preflights
  manifests := h.manifests
  rest := by
    show c.pathless.withDefaults = c'.pathless.withDefaults
    rw [h.rest]

end IsMoved

theorem IsMovedText.symm (h : IsMovedText a b x y) : IsMovedText b a y x := by
  rcases h with ⟨hx, hy⟩ | ⟨m, hm, hx, hy⟩
  · exact .inl ⟨hy, hx⟩
  · exact .inr ⟨m, hm, hy, hx⟩

theorem rightUnique_isMovedText (ha : AreNames a) : Relator.RightUnique (IsMovedText a b) := by
  have hne {m : Names} (hm : AreNames m) : Path.mk "" ≠ ofNames (a ++ m) := by
    intro hempty
    have habsolute := Path.isAbsolute_ofNames (ha.append hm)
    rw [← hempty] at habsolute
    cases habsolute
  rintro x y z (⟨rfl, rfl⟩ | ⟨m, hm, hx, hy⟩) (⟨hx', rfl⟩ | ⟨q, hq, hx', hz⟩)
  · rfl
  · exact absurd hx' (hne hq)
  · exact absurd (hx' ▸ hx) (hne hm)
  · have hsame := (Path.ofNames_inj (ha.append hm) (ha.append hq)).1 (hx.symm.trans hx')
    rw [List.append_cancel_left_eq] at hsame
    exact congrArg Path.text (hy.trans (hsame ▸ hz.symm))

/-- Two moved texts are the same precisely if the texts are. -/
theorem biUnique_isMovedText (ha : AreNames a) (hb : AreNames b) :
    Relator.BiUnique (IsMovedText a b) :=
  ⟨fun _ _ _ h h' => rightUnique_isMovedText hb h.symm h'.symm, rightUnique_isMovedText ha⟩

/-- What is kept of entries with paths that correspond. -/
theorem forall₂_firsts {α : Type} {R : α → α → Prop} {T : String → String → Prop}
    {path : α → String} (hT : Relator.BiUnique T) (hpath : ∀ e e', R e e' → T (path e) (path e'))
    {l l' : List α} (hl : List.Forall₂ R l l') {seen seen' : List String}
    (hseen : List.Forall₂ T seen seen') :
    List.Forall₂ R (firsts path seen l) (firsts path seen' l') := by
  induction hl generalizing seen seen' with
  | nil => exact .nil
  | @cons e e' l l' he _ ih =>
    have hcontains : seen.contains (path e) = seen'.contains (path e') := by
      rw [Bool.eq_iff_iff, List.contains_iff_mem, List.contains_iff_mem]
      exact List.rel_mem hT (hpath e e' he) hseen
    rw [firsts, firsts, hcontains]
    split_ifs
    · exact ih hseen
    · exact .cons he (ih (.cons (hpath e e' he) hseen))

theorem IsMoved.distinct (h : IsMoved a b c c') (ha : AreNames a) (hb : AreNames b) :
    IsMoved a b c.distinct c'.distinct where
  charts := forall₂_firsts (biUnique_isMovedText ha hb) (fun _ _ he => he.path) h.charts .nil
  preflights :=
    forall₂_firsts (biUnique_isMovedText ha hb) (fun _ _ he => he.path) h.preflights .nil
  manifests := forall₂_firsts (biUnique_isMovedText ha hb) (fun _ _ he => he) h.manifests .nil
  rest := h.rest

/-! ### Issues -/

theorem pathIssue?_ofNames_eq_none_iff {names : Names} (h : AreNames names) (list : Section)
    (index : Nat) : pathIssue? list index (ofNames names).text = none ↔
      (Glob.isPattern (ofNames names).text = true →
        ∃ ps, Glob.parse .search (ofNames names).text = .ok ps) := by
  unfold pathIssue?
  rw [Path.allBlank_ofNames h, if_neg Bool.false_ne_true]
  cases Glob.isPattern (ofNames names).text with
  | false => simp
  | true => cases Glob.parse .search (ofNames names).text <;> simp

/-- A moved path has an issue at both places or at neither. -/
theorem pathIssue?_isMovedText (ha : AreNames a) (hb : AreNames b) (hla : Glob.AreLiteralNames a)
    (hlb : Glob.AreLiteralNames b) (h : IsMovedText a b x y) (list : Section) (index : Nat) :
    pathIssue? list index x = none ↔ pathIssue? list index y = none := by
  rcases h with ⟨rfl, rfl⟩ | ⟨m, hm, hx, hy⟩
  · exact Iff.rfl
  · obtain rfl : x = (ofNames (a ++ m)).text := congrArg Path.text hx
    obtain rfl : y = (ofNames (b ++ m)).text := congrArg Path.text hy
    have hleft := ha.append hm
    have hright := hb.append hm
    rw [pathIssue?_ofNames_eq_none_iff hleft, pathIssue?_ofNames_eq_none_iff hright,
      Glob.isPattern_append hla hlb hleft hright, Glob.exists_parse_iff hla hlb hleft hright]

theorem pathIssues_isMovedText (ha : AreNames a) (hb : AreNames b) (hla : Glob.AreLiteralNames a)
    (hlb : Glob.AreLiteralNames b) {paths paths' : List String}
    (h : List.Forall₂ (IsMovedText a b) paths paths') (list : Section) (index : Nat) :
    pathIssues list index paths = [] ↔ pathIssues list index paths' = [] := by
  induction h generalizing index with
  | nil => exact Iff.rfl
  | cons hxy _ ih =>
    rw [pathIssues, pathIssues, List.append_eq_nil_iff, List.append_eq_nil_iff,
      Option.toList_eq_nil_iff, Option.toList_eq_nil_iff, ih,
      pathIssue?_isMovedText ha hb hla hlb hxy]

theorem IsMoved.issues_eq_nil_iff (h : IsMoved a b c c') (ha : AreNames a) (hb : AreNames b)
    (hla : Glob.AreLiteralNames a) (hlb : Glob.AreLiteralNames b) :
    c.issues = [] ↔ c'.issues = [] := by
  have hcharts : List.Forall₂ (IsMovedText a b) (c.charts.map (·.path)) (c'.charts.map (·.path)) :=
    List.forall₂_map_left_iff.2 (List.forall₂_map_right_iff.2 (h.charts.imp fun _ _ he => he.path))
  have hpreflights : List.Forall₂ (IsMovedText a b) (c.preflights.map (·.path))
      (c'.preflights.map (·.path)) :=
    List.forall₂_map_left_iff.2
      (List.forall₂_map_right_iff.2 (h.preflights.imp fun _ _ he => he.path))
  have hlint : c.lint = c'.lint := by
    show c.pathless.lint = c'.pathless.lint
    rw [h.rest]
  rw [Config.issues_eq_nil_iff, Config.issues_eq_nil_iff, hlint,
    pathIssues_isMovedText ha hb hla hlb hcharts, pathIssues_isMovedText ha hb hla hlb hpreflights,
    pathIssues_isMovedText ha hb hla hlb h.manifests]

/-! ### The config that applies -/

variable {s : Names}

/-- Whether no config file stands in a directory above the names `a`. -/
def IsOutermost (w : Workspace) (a : Names) : Prop :=
  ∀ q, q <+: a → q ≠ a → fileIn? w (ofNames q) = none

instance (w : Workspace) (a : Names) : Decidable (IsOutermost w a) :=
  decidable_of_iff (∀ q ∈ a.inits, q ≠ a → fileIn? w (ofNames q) = none) <|
    forall_congr' fun q => by rw [List.mem_inits]

/-- The names of the config file in a directory of a project. -/
def configIn? (w : Workspace) (a d : Names) : Option Names :=
  (fileNames.find? fun f => w.hasFile (ofNames (a ++ (d ++ [f])))).map fun f => d ++ [f]

theorem fileIn?_append (w : Workspace) (a d : Names) :
    fileIn? w (ofNames (a ++ d)) = (configIn? w a d).map fun q => ofNames (a ++ q) := by
  unfold fileIn? configIn?
  rw [List.find?_map, Option.map_map]
  have hdiv (f : String) : ofNames (a ++ d) / f = ofNames (a ++ (d ++ [f])) := by
    rw [← Path.ofNames_concat, List.append_assoc]
  simp only [Function.comp_def, hdiv]

/-- The config files that apply in a project stand in it. -/
theorem filesAbove_append (hw : IsOutermost w a) (h : AreNames (a ++ s)) :
    filesAbove w (ofNames (a ++ s)) =
      (s.inits.filterMap (configIn? w a)).map fun q => ofNames (a ++ q) := by
  obtain ⟨above, habove, hancestors⟩ := exists_ancestors_append h
  have hnone : above.filterMap (fileIn? w) = [] := by
    rw [List.filterMap_eq_nil_iff]
    intro d hd
    obtain ⟨q, hpre, hne, rfl⟩ := habove d hd
    exact hw q hpre hne
  unfold filesAbove
  rw [hancestors, List.filterMap_append, hnone, List.append_nil, List.filterMap_reverse,
    List.reverse_reverse, List.filterMap_map, List.map_filterMap]
  exact List.filterMap_congr fun d _ => fileIn?_append w a d

/-- Whether the config file at the names `d` and `f` of a project applies to the names `s`. -/
def Applies (s d : Names) (f : String) : Prop :=
  s = d ++ [f] ∨ d <+: s ∧ f ∈ fileNames

/-- Whether all paths in the config files that apply to the names `s` of a project stay in it. -/
def AreInside (w : Workspace) (a s : Names) : Prop :=
  ∀ d f, Applies s d f → ∀ content, w.readText (ofNames (a ++ (d ++ [f]))) = .ok content →
    ∀ c, ofText content = .ok c → AllPaths (StaysInside d) c

theorem Applies.areNames {f : String} (h : Applies s d f) (hs : AreNames s) :
    AreNames (d ++ [f]) := by
  rcases h with rfl | ⟨⟨more, rfl⟩, hf⟩
  · exact hs
  · exact hs.left.concat (isName_of_mem_fileNames hf)

theorem load_alike (h : IsRelocated v w a b) (hs : AreNames s) (hinside : AreInside v a s)
    {f : String} (happlies : Applies s d f) :
    Alike (IsMoved a b) (load v (ofNames (a ++ (d ++ [f]))))
      (load w (ofNames (b ++ (d ++ [f])))) := by
  have hnames := happlies.areNames hs
  have htext := h.readText hnames
  have hread := hinside d f happlies
  have hparent {a : Names} (ha : AreNames a) :
      (ofNames (a ++ (d ++ [f]))).parent? = some (ofNames (a ++ d)) := by
    have := ha.append hnames
    rw [← List.append_assoc] at this ⊢
    exact Path.parent?_ofNames this
  unfold load
  rw [hparent h.left, hparent h.right]
  generalize v.readText (ofNames (a ++ (d ++ [f]))) = x at htext hread ⊢
  generalize w.readText (ofNames (b ++ (d ++ [f]))) = y at htext ⊢
  cases x with
  | error e =>
    cases y with
    | error e' => exact .failed _ _
    | ok content => cases htext
  | ok content =>
    cases y with
    | error e' => cases htext
    | ok content' =>
      obtain rfl : content = content' := Option.some.inj htext
      have hwritten := hread content rfl
      unfold parse
      dsimp only
      cases hcontent : ofText content with
      | error e => exact .failed _ _
      | ok c =>
        exact .succeeded (isMoved_anchor h.left h.right hnames.left (hwritten c hcontent))

theorem gather_alike (h : IsRelocated v w a b) (hv : IsOutermost v a) (hw : IsOutermost w b)
    (hs : AreNames s) (hinside : AreInside v a s) :
    Alike (IsMoved a b) (gather v (ofNames (a ++ s))) (gather w (ofNames (b ++ s))) := by
  have happlies {d : Names} (hd : d ∈ s.inits) {f : String} (hf : f ∈ fileNames) : Applies s d f :=
    .inr ⟨(List.mem_inits d s).1 hd, hf⟩
  unfold gather
  cases hfile : v.hasFile (ofNames (a ++ s)) with
  | true =>
    rw [← h.hasFile hs, hfile, if_pos rfl, if_pos rfl]
    rcases List.eq_nil_or_concat s with rfl | ⟨d, f, rfl⟩
    · rw [List.append_nil, Workspace.hasFile_eq_false_of_hasDirectory h.directory] at hfile
      cases hfile
    · rw [List.concat_eq_append] at hs hinside ⊢
      exact load_alike h hs hinside (.inl rfl)
  | false =>
    have hsame : s.inits.filterMap (configIn? v a) = s.inits.filterMap (configIn? w b) := by
      refine List.filterMap_congr fun d hd => congrArg (Option.map _) ?_
      exact List.find?_congr fun f hf => h.hasFile ((happlies hd hf).areNames hs)
    rw [← h.hasFile hs, hfile, if_neg Bool.false_ne_true, if_neg Bool.false_ne_true,
      filesAbove_append hv (h.left.append hs), filesAbove_append hw (h.right.append hs), hsame]
    refine Alike.bind (R := List.Forall₂ (IsMoved a b)) (.mapM ?_) fun configs configs' hconfigs =>
      .succeeded (.mergeAll hconfigs)
    rw [List.forall₂_map_left_iff, List.forall₂_map_right_iff, List.forall₂_same]
    intro q hq
    obtain ⟨d, hd, hsome⟩ := List.mem_filterMap.1 hq
    obtain ⟨f, hf, rfl⟩ := Option.map_eq_some_iff.1 hsome
    exact load_alike h hs hinside (happlies hd (List.mem_of_find?_eq_some hf))

theorem IsMoved.validate_alike (h : IsMoved a b c c') (ha : AreNames a) (hb : AreNames b)
    (hla : Glob.AreLiteralNames a) (hlb : Glob.AreLiteralNames b) :
    Alike (fun _ _ => True) (validate c) (validate c') := by
  have hissues := h.issues_eq_nil_iff ha hb hla hlb
  unfold validate
  cases hc : c.issues with
  | nil =>
    rw [hissues.1 hc]
    exact .succeeded trivial
  | cons i r =>
    cases hc' : c'.issues with
    | nil =>
      rw [hissues.2 hc'] at hc
      cases hc
    | cons i' r' => exact .failed _ _

/-- **The same config applies at both places.** -/
theorem resolve_alike (h : IsRelocated v w a b) (hv : IsOutermost v a) (hw : IsOutermost w b)
    (hla : Glob.AreLiteralNames a) (hlb : Glob.AreLiteralNames b) (hs : AreNames s)
    (hinside : AreInside v a s) {start start' : Path}
    (hstart : v.absolutize start = ofNames (a ++ s))
    (hstart' : w.absolutize start' = ofNames (b ++ s)) :
    Alike (IsMoved a b) (resolve v start) (resolve w start') := by
  unfold resolve
  rw [hstart, hstart']
  refine (gather_alike h hv hw hs hinside).bind fun c c' hc => ?_
  have hfinal := hc.withDefaults.distinct h.left h.right
  exact (hfinal.validate_alike h.left h.right hla hlb).bind fun _ _ _ => .succeeded hfinal

end Config
end ReleaseLint
