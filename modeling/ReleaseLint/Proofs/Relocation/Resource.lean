/-
# What is found in two places

What a config finds depends on where the project stands only through the names of the directories
above it, which are read with every configured path.  If these are literal, each kind of resource
is found at both places or an error at both, with the same paths as seen from the project, in the
same order (`discovery_alike`).

| directory of the project | explicit path `chart` in a config file |
| --- | --- |
| `/p` | the chart there, or an error |
| `/p[1]` | a pattern: the charts `/p1/chart`, if there are any, and never an error |

With ignore files the configured paths have to lie in their repository: elsewhere they are compared
with its patterns as a whole, directories above the project included.
-/

import ReleaseLint.Proofs.Relocation.Config
import ReleaseLint.Proofs.Relocation.Glob
import ReleaseLint.Proofs.Resource.Discovery

namespace ReleaseLint

namespace Path

variable {a b : Names} {p p' q q' : Path}

/-- Whether two paths are the same names behind the names `a` and `b`, at least one. -/
def IsMovedBelow (a b : Names) (p q : Path) : Prop :=
  ∃ m s, AreNames (m ++ [s]) ∧ p = ofNames (a ++ m ++ [s]) ∧ q = ofNames (b ++ m ++ [s])

theorem IsMovedBelow.isMoved (h : IsMovedBelow a b p q) : IsMoved a b p q := by
  obtain ⟨m, s, hm, hp, hq⟩ := h
  rw [List.append_assoc] at hp hq
  exact ⟨m ++ [s], hm, hp, hq⟩

theorem IsMovedBelow.parent? (h : IsMovedBelow a b p q) (ha : AreNames a) (hb : AreNames b) :
    Option.Rel (IsMoved a b) p.parent? q.parent? := by
  obtain ⟨m, s, hm, rfl, rfl⟩ := h
  rw [parent?_ofNames ((ha.append hm.left).concat hm.last),
    parent?_ofNames ((hb.append hm.left).concat hm.last)]
  exact .some ⟨m, hm.left, rfl, rfl⟩

/-- Moved paths are the same if the paths are. -/
theorem IsMoved.same (h : IsMoved a b p q) (h' : IsMoved a b p' q') (ha : AreNames a)
    (hb : AreNames b) : p.same p' = q.same q' := by
  obtain ⟨m, hm, rfl, rfl⟩ := h
  obtain ⟨m', hm', rfl, rfl⟩ := h'
  rw [Bool.eq_iff_iff, same_ofNames (ha.append hm) (ha.append hm'),
    same_ofNames (hb.append hm) (hb.append hm'), List.append_cancel_left_eq,
    List.append_cancel_left_eq]

end Path

namespace Resource

open Path (ofNames slashed)
open Glob (isPattern AreLiteralNames)

variable {v w : Workspace} {a b m names : Names} {k k' : Option Ignore.Checker} {kind : Kind}
variable {x y s : String}

/-! ### Collected paths -/

theorem forall₂_distinctPaths (ha : AreNames a) (hb : AreNames b) {l l' : List Path}
    (hl : List.Forall₂ (Path.IsMoved a b) l l') {seen seen' : List Path}
    (hseen : List.Forall₂ (Path.IsMoved a b) seen seen') :
    List.Forall₂ (Path.IsMoved a b) (distinctPaths seen l) (distinctPaths seen' l') := by
  induction hl generalizing seen seen' with
  | nil => exact .nil
  | @cons p q l l' hpq _ ih =>
    have hany : seen.any p.same = seen'.any q.same := by
      clear ih
      induction hseen with
      | nil => rfl
      | cons h _ ih => rw [List.any_cons, List.any_cons, hpq.same h ha hb, ih]
    rw [distinctPaths, distinctPaths, hany]
    split_ifs
    · exact ih hseen
    · exact .cons hpq (ih (.cons hpq hseen))

theorem collect_alike {α : Type} {find find' : α → Except Error (List Path)} (ha : AreNames a)
    (hb : AreNames b) {l l' : List α}
    (h : List.Forall₂ (fun x y =>
      Alike (List.Forall₂ (Path.IsMoved a b)) (find x) (find' y)) l l') :
    Alike (List.Forall₂ (Path.IsMoved a b)) (collect find l) (collect find' l') :=
  (Alike.mapM h).bind fun _ _ hparts =>
    .succeeded (forall₂_distinctPaths ha hb (List.rel_flatten hparts) .nil)

/-! ### The files that patterns stand for -/

/-- Whether a configured path lies in the repository of a checker. -/
def IsVersioned (k : Option Ignore.Checker) (configured : String) : Prop :=
  ∀ c ∈ k, ((Path.mk configured).below? c.root).isSome = true

theorem checkerFor_isMoved (hk : Option.Rel (Ignore.Checker.IsMoved a b) k k')
    (ha : AreNames (a ++ m)) (hb : AreNames (b ++ m))
    (hin : IsVersioned k (ofNames (a ++ m)).text) :
    Option.Rel (Ignore.Checker.IsMoved a b) (checkerFor k (ofNames (a ++ m)).text)
      (checkerFor k' (ofNames (b ++ m)).text) := by
  unfold checkerFor
  cases hk with
  | none => exact .none
  | some hc =>
    rw [Option.filter_some, Option.filter_some, hc.isBypassedBy ha hb (hin _ rfl)]
    split_ifs
    · exact .some hc
    · exact .none

/-- Whether nothing that stands above the names `a` of a tree reaches below them: no config file,
no repository, and no name that is read as a pattern. -/
structure StandsAlone (w : Workspace) (a : Names) : Prop where
  sound : w.tree.IsSound
  outermost : Config.IsOutermost w a
  unversioned : Ignore.IsUnversioned w a
  literal : AreLiteralNames a

section

variable (h : IsRelocated v w a b) (hv : StandsAlone v a) (hw : StandsAlone w b)
variable (hk : Option.Rel (Ignore.Checker.IsMoved a b) k k')
include h hv hw hk

theorem exists_files_alike (hm : AreNames m) (hin : IsVersioned k (ofNames (a ++ m)).text)
    (hnames : AreNames names) :
    Alike (List.Forall₂ fun p q => ∃ r, AreNames r ∧ (names ≠ [] → r ≠ []) ∧
        p = ofNames (a ++ r) ∧ q = ofNames (b ++ r))
      (files v k (ofNames (a ++ m)).text (ofNames (a ++ names)).text)
      (files w k' (ofNames (b ++ m)).text (ofNames (b ++ names)).text) := by
  have hf : Glob.Filter.IsMoved a b ⟨true, checkerFor k (ofNames (a ++ m)).text⟩
      ⟨true, checkerFor k' (ofNames (b ++ m)).text⟩ :=
    ⟨rfl, checkerFor_isMoved hk (h.left.append hm) (h.right.append hm) hin⟩
  refine (Glob.expand_alike h hf hv.sound hw.sound hv.literal hw.literal hnames).mono ?_
  rintro _ _ ⟨ms, hms, rfl, rfl⟩
  rw [List.forall₂_map_left_iff, List.forall₂_map_right_iff, List.forall₂_same]
  exact fun q hq => ⟨q, (hms q hq).1, (hms q hq).2, rfl, rfl⟩

/-- **A pattern stands for the same files at both places.** -/
theorem files_alike (hm : AreNames m) (hin : IsVersioned k (ofNames (a ++ m)).text)
    (hxy : Path.IsMoved a b ⟨x⟩ ⟨y⟩) :
    Alike (List.Forall₂ (Path.IsMoved a b)) (files v k (ofNames (a ++ m)).text x)
      (files w k' (ofNames (b ++ m)).text y) := by
  obtain ⟨q, hq, hx, hy⟩ := hxy
  obtain rfl : x = (ofNames (a ++ q)).text := congrArg Path.text hx
  obtain rfl : y = (ofNames (b ++ q)).text := congrArg Path.text hy
  refine (exists_files_alike h hv hw hk hm hin hq).mono fun _ _ hall => hall.imp ?_
  rintro _ _ ⟨r, hr, -, hp, hq⟩
  exact ⟨r, hr, hp, hq⟩

/-- Below a project a pattern stands for what is below it. -/
theorem files_alike_below (hm : AreNames m) (hin : IsVersioned k (ofNames (a ++ m)).text)
    (hxy : Path.IsMovedBelow a b ⟨x⟩ ⟨y⟩) :
    Alike (List.Forall₂ (Path.IsMovedBelow a b)) (files v k (ofNames (a ++ m)).text x)
      (files w k' (ofNames (b ++ m)).text y) := by
  obtain ⟨q, s, hq, hx, hy⟩ := hxy
  rw [List.append_assoc] at hx hy
  obtain rfl : x = (ofNames (a ++ (q ++ [s]))).text := congrArg Path.text hx
  obtain rfl : y = (ofNames (b ++ (q ++ [s]))).text := congrArg Path.text hy
  refine (exists_files_alike h hv hw hk hm hin hq).mono fun _ _ hall => hall.imp ?_
  rintro _ _ ⟨r, hr, hne, hp, hq⟩
  obtain ⟨r, t, rfl⟩ := (List.eq_nil_or_concat r).resolve_left (hne (List.concat_ne_nil _ _))
  rw [List.concat_eq_append] at hr hp hq
  rw [← List.append_assoc] at hp hq
  exact ⟨r, t, hr, hp, hq⟩

end

/-! ### How patterns end -/

theorem contains_brace_append (hla : AreLiteralNames a) (h : AreNames (a ++ m)) (hm : m ≠ []) :
    (ofNames (a ++ m)).text.toList.contains '\x7b' = m.any (·.toList.contains '\x7b') := by
  have hnone : '\x7b' ∉ slashed a := fun hmem =>
    absurd (Glob.areLiteral_slashed hla _ hmem) (by decide)
  have hsplit : slashed (a ++ m) = slashed a ++ slashed m := List.flatMap_append
  rw [Path.text_ofNames h, if_neg (by simp [hm]), hsplit, Bool.eq_iff_iff, List.contains_iff_mem,
    List.mem_append, or_iff_right hnone, List.any_eq_true]
  unfold slashed
  rw [List.mem_flatMap]
  refine exists_congr fun s => and_congr_right fun _ => ?_
  rw [List.contains_iff_mem, List.mem_cons, or_iff_right (by decide)]

theorem markerPatterns_moved (ha : AreNames (a ++ m ++ [s])) (hb : AreNames (b ++ m ++ [s])) :
    List.Forall₂ (fun x y => Path.IsMovedBelow a b ⟨x⟩ ⟨y⟩)
      (markerPatterns (ofNames (a ++ m ++ [s]))) (markerPatterns (ofNames (b ++ m ++ [s]))) := by
  have hm : AreNames (m ++ [s]) := (List.append_assoc a m [s] ▸ ha).right
  rw [markerPatterns_ofNames ha, markerPatterns_ofNames hb]
  split_ifs
  · exact .cons ⟨m, s, hm, rfl, rfl⟩ .nil
  · rw [List.forall₂_map_left_iff, List.forall₂_map_right_iff, List.forall₂_same]
    refine fun marker hmarker =>
      ⟨m ++ [s], marker, hm.concat (isName_of_mem_markers hmarker), ?_, ?_⟩
    · rw [← List.append_assoc]
    · rw [← List.append_assoc]

theorem yamlBelow_moved (hm : AreNames m) :
    List.Forall₂ (fun x y => Path.IsMovedBelow a b ⟨x⟩ ⟨y⟩) (yamlBelow (a ++ m))
      (yamlBelow (b ++ m)) :=
  .cons ⟨m, _, hm.concat (Glob.isName_star isEnding_yaml), rfl, rfl⟩
    (.cons ⟨m, _, hm.concat (Glob.isName_star isEnding_yml), rfl, rfl⟩ .nil)

theorem yamlPatterns_alike (hla : AreLiteralNames a) (hlb : AreLiteralNames b)
    (ha : AreNames (a ++ m ++ [s])) (hb : AreNames (b ++ m ++ [s])) :
    Alike (List.Forall₂ fun x y => Path.IsMovedBelow a b ⟨x⟩ ⟨y⟩)
      (yamlPatterns (ofNames (a ++ m ++ [s])).text)
      (yamlPatterns (ofNames (b ++ m ++ [s])).text) := by
  have hm : AreNames (m ++ [s]) := (List.append_assoc a m [s] ▸ ha).right
  have hbrace : (ofNames (a ++ m ++ [s])).text.toList.contains '\x7b' =
      (ofNames (b ++ m ++ [s])).text.toList.contains '\x7b' := by
    rw [List.append_assoc] at ha hb
    rw [List.append_assoc, List.append_assoc, contains_brace_append hla ha (by simp),
      contains_brace_append hlb hb (by simp)]
  rw [yamlPatterns_ofNames ha, yamlPatterns_ofNames hb, hbrace]
  split_ifs
  · exact .succeeded (.cons ⟨m, s, hm, rfl, rfl⟩ .nil)
  · exact .succeeded (yamlBelow_moved hm.left)
  · rw [List.append_assoc, List.append_assoc]
    exact .succeeded (yamlBelow_moved hm)
  · exact .failed _ _

/-! ### Resources of each kind -/

section

variable (h : IsRelocated v w a b) (hv : StandsAlone v a) (hw : StandsAlone w b)
variable (hk : Option.Rel (Ignore.Checker.IsMoved a b) k k')

include h in
theorem isChart_moved (hm : AreNames m) :
    isChart v (ofNames (a ++ m)) = isChart w (ofNames (b ++ m)) := by
  unfold isChart
  rw [Bool.eq_iff_iff, List.any_eq_true, List.any_eq_true]
  refine exists_congr fun marker => and_congr_right fun hmarker => ?_
  rw [← Path.ofNames_concat, ← Path.ofNames_concat, List.append_assoc, List.append_assoc,
    h.hasFile (hm.concat (isName_of_mem_markers hmarker))]

include h in
theorem explicitChart_alike (hm : AreNames m) : Alike (List.Forall₂ (Path.IsMoved a b))
    (explicitChart v (ofNames (a ++ m)).text) (explicitChart w (ofNames (b ++ m)).text) := by
  unfold explicitChart
  dsimp only
  rw [Path.clean_ofNames (h.left.append hm), Path.clean_ofNames (h.right.append hm), h.has hm,
    h.hasDirectory hm, isChart_moved h hm]
  split_ifs
  · exact .failed _ _
  · exact .failed _ _
  · exact .failed _ _
  · exact .succeeded (.cons ⟨m, hm, rfl, rfl⟩ .nil)

include hv in
/-- A pattern has a name in the project. -/
theorem exists_eq_concat_of_isPattern (hpattern : isPattern (ofNames (a ++ m)).text = true)
    (hm : AreNames (a ++ m)) : ∃ q s, m = q ++ [s] := by
  rcases List.eq_nil_or_concat m with rfl | ⟨q, s, hqs⟩
  · have hnone : Glob.tailOf (a ++ []) = [] := by
      rw [Glob.tailOf_append hv.literal]
      rfl
    rw [Glob.tailOf_eq_nil_iff hm, hpattern] at hnone
    cases hnone
  · exact ⟨q, s, hqs.trans (List.concat_eq_append ..)⟩

include h hv hw hk in
/-- **The same charts are found at both places.** -/
theorem charts_alike (hxy : Config.IsMovedText a b x y) (hin : IsVersioned k x) :
    Alike (List.Forall₂ (Path.IsMoved a b)) (charts v k x) (charts w k' y) := by
  rcases hxy with ⟨rfl, rfl⟩ | ⟨m, hm, hx, hy⟩
  · exact .failed _ _
  obtain rfl : x = (ofNames (a ++ m)).text := congrArg Path.text hx
  obtain rfl : y = (ofNames (b ++ m)).text := congrArg Path.text hy
  have ha := h.left.append hm
  have hb := h.right.append hm
  unfold charts
  rw [Path.allBlank_ofNames ha, Path.allBlank_ofNames hb, if_neg Bool.false_ne_true,
    if_neg Bool.false_ne_true, Path.clean_ofNames ha, Path.clean_ofNames hb,
    ← Glob.isPattern_append hv.literal hw.literal ha hb]
  cases hpattern : isPattern (ofNames (a ++ m)).text with
  | false =>
    rw [Bool.not_false, if_pos rfl, if_pos rfl]
    exact explicitChart_alike h hm
  | true =>
    rw [Bool.not_true, if_neg Bool.false_ne_true, if_neg Bool.false_ne_true]
    obtain ⟨q, s, rfl⟩ := exists_eq_concat_of_isPattern hv hpattern ha
    have hmarkers := markerPatterns_moved (List.append_assoc a q [s] ▸ ha)
      (List.append_assoc b q [s] ▸ hb)
    rw [List.append_assoc, List.append_assoc] at hmarkers
    have hfound := Alike.mapM (hmarkers.imp fun _ _ hxy =>
      files_alike_below h hv hw hk hm hin hxy)
    refine hfound.bind fun found found' hfound => .succeeded ?_
    refine forall₂_distinctPaths h.left h.right ?_ .nil
    exact List.rel_filterMap (fun _ _ hpq => hpq.parent? h.left h.right) (List.rel_flatten hfound)

include h in
theorem declares_moved (hm : AreNames m) : (declares v kind (ofNames (a ++ m))).toOption =
    (declares w kind (ofNames (b ++ m))).toOption := by
  have hdeclares (w : Workspace) (p : Path) :
      (declares w kind p).toOption = (w.readText p).toOption.map kind.isDeclaredBy := by
    unfold declares
    cases w.readText p <;> rfl
  rw [hdeclares, hdeclares, h.readText hm]

include h in
/-- A file of the project is of a kind at both places or at neither. -/
theorem isOfKind_moved (hm : AreNames m) :
    IsOfKind v kind (ofNames (a ++ m)) ↔ IsOfKind w kind (ofNames (b ++ m)) := by
  have hdeclared : declares v kind (ofNames (a ++ m)) = .ok true ↔
      declares w kind (ofNames (b ++ m)) = .ok true := by
    rw [← toOption_eq_some_iff, ← toOption_eq_some_iff, declares_moved h hm]
  rcases List.eq_nil_or_concat m with rfl | ⟨q, s, rfl⟩
  · -- the project is a directory, which declares nothing
    have hnone : declares v kind (ofNames (a ++ [])) ≠ .ok true := by
      intro hkind
      have hfile := hasFile_of_declares hkind
      rw [List.append_nil, Workspace.hasFile_eq_false_of_hasDirectory h.directory] at hfile
      cases hfile
    exact iff_of_false (fun hkind => hnone hkind.declared)
      fun hkind => hnone (hdeclared.2 hkind.declared)
  · rw [List.concat_eq_append] at hm hdeclared ⊢
    have hname {a : Names} (ha : AreNames a) : (ofNames (a ++ (q ++ [s]))).fileName? = some s := by
      have := ha.append hm
      rw [← List.append_assoc] at this ⊢
      exact Path.fileName?_ofNames this
    have hextension : hasYamlExtension (ofNames (a ++ (q ++ [s]))) =
        hasYamlExtension (ofNames (b ++ (q ++ [s]))) := by
      unfold hasYamlExtension Path.extension?
      rw [hname h.left, hname h.right]
    constructor
    · exact fun hkind => ⟨hextension ▸ hkind.extension, hdeclared.1 hkind.declared⟩
    · exact fun hkind => ⟨hextension ▸ hkind.extension, hdeclared.2 hkind.declared⟩

include h in
theorem explicitOfKind_alike (hm : AreNames m) : Alike (List.Forall₂ (Path.IsMoved a b))
    (explicitOfKind v kind (ofNames (a ++ m)).text)
    (explicitOfKind w kind (ofNames (b ++ m)).text) := by
  have ha : (ofNames (a ++ m)).IsRooted := Path.isRooted_ofNames (h.left.append hm)
  have hb : (ofNames (b ++ m)).IsRooted := Path.isRooted_ofNames (h.right.append hm)
  have hkind : IsOfKind v kind (ofNames (a ++ m)) ↔ IsOfKind w kind (ofNames (b ++ m)) :=
    isOfKind_moved h hm
  refine .of_eq_ok (fun found hfound => ?_) fun found hfound => ?_
  · obtain ⟨hof, rfl⟩ := (explicitOfKind_eq_ok ha).1 hfound
    exact ⟨_, (explicitOfKind_eq_ok hb).2 ⟨hkind.1 hof, rfl⟩, .cons ⟨m, hm, rfl, rfl⟩ .nil⟩
  · obtain ⟨hof, rfl⟩ := (explicitOfKind_eq_ok hb).1 hfound
    exact ⟨_, (explicitOfKind_eq_ok ha).2 ⟨hkind.2 hof, rfl⟩⟩

include h hv hw hk in
/-- **The same resources of a kind are found at both places.** -/
theorem ofKind_alike (hxy : Config.IsMovedText a b x y) (hin : IsVersioned k x) :
    Alike (List.Forall₂ (Path.IsMoved a b)) (ofKind v k kind x) (ofKind w k' kind y) := by
  rcases hxy with ⟨rfl, rfl⟩ | ⟨m, hm, hx, hy⟩
  · exact .failed _ _
  obtain rfl : x = (ofNames (a ++ m)).text := congrArg Path.text hx
  obtain rfl : y = (ofNames (b ++ m)).text := congrArg Path.text hy
  have ha := h.left.append hm
  have hb := h.right.append hm
  unfold ofKind
  rw [Path.allBlank_ofNames ha, Path.allBlank_ofNames hb, if_neg Bool.false_ne_true,
    if_neg Bool.false_ne_true, Path.clean_ofNames ha, Path.clean_ofNames hb,
    ← Glob.isPattern_append hv.literal hw.literal ha hb]
  cases hpattern : isPattern (ofNames (a ++ m)).text with
  | false =>
    rw [Bool.not_false, if_pos rfl, if_pos rfl]
    exact explicitOfKind_alike h hm
  | true =>
    rw [Bool.not_true, if_neg Bool.false_ne_true, if_neg Bool.false_ne_true]
    obtain ⟨q, s, rfl⟩ := exists_eq_concat_of_isPattern hv hpattern ha
    have hyaml := yamlPatterns_alike hv.literal hw.literal (List.append_assoc a q [s] ▸ ha)
      (List.append_assoc b q [s] ▸ hb)
    rw [List.append_assoc, List.append_assoc] at hyaml
    refine hyaml.bind fun ps ps' hps => ?_
    refine (collect_alike h.left h.right (hps.imp fun _ _ hxy => ?_)).bind
      fun found found' hfound => .succeeded (List.rel_filter ?_ hfound)
    · exact (files_alike_below h hv hw hk hm hin hxy).mono fun _ _ hall =>
        hall.imp fun _ _ hpq => hpq.isMoved
    · rintro _ _ ⟨r, hr, rfl, rfl⟩
      dsimp only
      rw [declares_moved h hr]

include h hv hw hk in
theorem supportBundles_alike {l l' : List String} (hl : List.Forall₂ (Config.IsMovedText a b) l l')
    (hin : ∀ x ∈ l, IsVersioned k x) :
    Alike (List.Forall₂ (Path.IsMoved a b)) (supportBundles v k l) (supportBundles w k' l') :=
  collect_alike h.left h.right <| ((List.forall₂_and_left l l').2 ⟨hin, hl⟩).imp
    fun _ _ hxy => ofKind_alike h hv hw hk hxy.2 hxy.1

include h hv hw hk in
theorem manifestFiles_alike {l l' : List String} (hl : List.Forall₂ (Config.IsMovedText a b) l l')
    (hin : ∀ x ∈ l, IsVersioned k x) (hne : ∀ x ∈ l, x ≠ "") :
    Alike (List.Forall₂ (Path.IsMoved a b)) (manifestFiles v k l) (manifestFiles w k' l') := by
  have hall := (List.forall₂_and_left l l').2 ⟨fun x hx => And.intro (hin x hx) (hne x hx), hl⟩
  refine collect_alike h.left h.right (hall.imp ?_)
  rintro x y ⟨⟨hin, hne⟩, ⟨hx, -⟩ | ⟨m, hm, hx, hy⟩⟩
  · exact absurd hx hne
  · obtain rfl : x = (ofNames (a ++ m)).text := congrArg Path.text hx
    obtain rfl : y = (ofNames (b ++ m)).text := congrArg Path.text hy
    exact files_alike h hv hw hk hm hin ⟨m, hm, rfl, rfl⟩

end

/-! ### What a config finds -/

/-- Whether the paths of two configs find the same at both places, each list of paths or an error
instead of it. -/
structure FindAlike (a b : Names) (v w : Workspace) (k k' : Option Ignore.Checker)
    (c c' : Config) : Prop where
  charts : List.Forall₂ (fun e e' => Alike (List.Forall₂ (Path.IsMoved a b)) (charts v k e.path)
    (charts w k' e'.path)) c.charts c'.charts
  preflights : List.Forall₂ (fun e e' => Alike (List.Forall₂ (Path.IsMoved a b))
    (ofKind v k .preflight e.path) (ofKind w k' .preflight e'.path)) c.preflights c'.preflights
  supportBundles : Alike (List.Forall₂ (Path.IsMoved a b)) (supportBundles v k c.manifests)
    (supportBundles w k' c'.manifests)
  manifests : Alike (List.Forall₂ (Path.IsMoved a b)) (manifestFiles v k c.manifests)
    (manifestFiles w k' c'.manifests)

/-- Whether the paths of a config that resources are looked for with lie in the repository of a
checker. -/
structure AreVersioned (k : Option Ignore.Checker) (c : Config) : Prop where
  charts : ∀ e ∈ c.charts, IsVersioned k e.path
  preflights : ∀ e ∈ c.preflights, IsVersioned k e.path
  manifests : ∀ x ∈ c.manifests, IsVersioned k x

theorem areVersioned_none (c : Config) : AreVersioned none c := by
  constructor <;> exact fun _ _ _ hk => by cases hk

variable {c c' : Config} {s : Names}

theorem findAlike_of_isMoved (h : IsRelocated v w a b) (hv : StandsAlone v a) (hw : StandsAlone w b)
    (hk : Option.Rel (Ignore.Checker.IsMoved a b) k k') (hc : c.IsMoved a b c')
    (hissues : c.issues = []) (hin : AreVersioned k c) : FindAlike a b v w k k' c c' where
  charts := ((List.forall₂_and_left _ _).2 ⟨hin.charts, hc.charts⟩).imp
    fun _ _ he => charts_alike h hv hw hk he.2.path he.1
  preflights := ((List.forall₂_and_left _ _).2 ⟨hin.preflights, hc.preflights⟩).imp
    fun _ _ he => ofKind_alike h hv hw hk he.2.path he.1
  supportBundles := supportBundles_alike h hv hw hk hc.manifests hin.manifests
  manifests := by
    refine manifestFiles_alike h hv hw hk hc.manifests hin.manifests fun x hx hempty => ?_
    obtain ⟨-, -, hmanifests, -⟩ := Config.issues_eq_nil_iff.1 hissues
    have hblank := Config.allBlank_eq_false_of_pathIssues hmanifests x hx
    rw [hempty] at hblank
    exact absurd hblank (by decide)

/-- **What is found does not depend on where the project stands,** if no name above it is read as a
pattern: it is the same without ignore files, and with those that apply to a directory of the
project if the configured paths lie in its repository. -/
theorem discovery_alike (h : IsRelocated v w a b) (hv : StandsAlone v a) (hw : StandsAlone w b)
    (hs : AreNames s) (hinside : Config.AreInside v a s) {start start' : Path}
    (hstart : v.absolutize start = ofNames (a ++ s))
    (hstart' : w.absolutize start' = ofNames (b ++ s)) :
    Alike (fun c c' => FindAlike a b v w none none c c' ∧
        ∀ r base base', AreNames r → v.absolutize base = ofNames (a ++ r) →
          w.absolutize base' = ofNames (b ++ r) →
          Alike (fun k k' => AreVersioned k c → FindAlike a b v w k k' c c')
            (Ignore.Checker.load v base) (Ignore.Checker.load w base'))
      (Config.resolve v start) (Config.resolve w start') := by
  have hresolve := Config.resolve_alike h hv.outermost hw.outermost hv.literal hw.literal hs hinside
    hstart hstart'
  have hissues : ∀ c, Config.resolve v start = .ok c → c.issues = [] := by
    intro c hc
    obtain ⟨g, -, hissues, rfl⟩ := Config.resolve_eq_ok.1 hc
    exact hissues
  refine (hresolve.and_left hissues).mono fun c c' ⟨hc, hissues⟩ => ⟨?_, ?_⟩
  · exact findAlike_of_isMoved h hv hw .none hc hissues (areVersioned_none c)
  · intro r base base' hr hbase hbase'
    refine (Ignore.load_alike h hv.unversioned hw.unversioned hr hbase hbase').mono ?_
    exact fun k k' hk hin => findAlike_of_isMoved h hv hw hk hc hissues hin

/-- A project with a chart and a manifest, at some names. -/
def chartProject (a : Names) : Workspace where
  tree := Tree.placed ⟨[([".replicated"],
      .file "charts:\n- path: chart\nmanifests:\n- a.yaml\n".toUTF8 false),
    (["a.yaml"], .file .empty false), (["chart"], .directory),
    (["chart", "Chart.yaml"], .file .empty false)]⟩ a
  directory := ⟨"/"⟩

theorem isRelocated_chartProject (ha : (chartProject a).tree.IsPlain a)
    (hb : (chartProject b).tree.IsPlain b) (hv : (chartProject a).tree.IsSound)
    (hw : (chartProject b).tree.IsSound) : IsRelocated (chartProject a) (chartProject b) a b :=
  isRelocated_of_find? ha hb hv hw fun m => by
    unfold chartProject
    rw [Tree.find?_placed, Tree.find?_placed]

theorem isPlain_chartProject : (chartProject ["p"]).tree.IsPlain ["p"] :=
  Tree.isPlain_of_entries (by decide) (by decide +kernel) (by decide +kernel) (by decide +kernel)

theorem areInside_chartProject : Config.AreInside (chartProject ["p"]) ["p"] [] := by
  have hpaths : (Config.ofText "charts:\n- path: chart\nmanifests:\n- a.yaml\n").toOption.all
      (fun c => Config.AllPaths (Config.StaysInside []) c) = true := by decide +kernel
  rintro d f (hnil | ⟨hd, hf⟩) content hread c hc
  · exact absurd hnil (List.concat_ne_nil _ _).symm
  · obtain rfl := List.prefix_nil.1 hd
    rw [← toOption_eq_some_iff] at hread
    rcases List.mem_pair.1 hf with rfl | rfl
    · obtain rfl : content = "charts:\n- path: chart\nmanifests:\n- a.yaml\n" :=
        Option.some.inj (hread.symm.trans (by decide +kernel))
      rw [hc] at hpaths
      exact of_decide_eq_true hpaths
    · cases hread.symm.trans (by decide +kernel : _ = none)

theorem exists_resolve_chartProject : ∃ c,
    Config.resolve (chartProject ["p"]) ⟨"/p"⟩ = .ok c ∧ c.manifests = ["/p/a.yaml"] :=
  Config.exists_resolve_iff.1
    (show Config.writes (chartProject ["p"]) ⟨"/p"⟩ ["/p/a.yaml"] = true by decide +kernel)

theorem discovery_alike_chartProject : ∃ c c',
    Config.resolve (chartProject ["p"]) ⟨"/p"⟩ = .ok c ∧ c.manifests = ["/p/a.yaml"] ∧
    Config.resolve (chartProject ["srv", "q"]) ⟨"/srv/q/"⟩ = .ok c' ∧
    FindAlike ["p"] ["srv", "q"] (chartProject ["p"]) (chartProject ["srv", "q"]) none none
      c c' := by
  obtain ⟨c, hc, hmanifests⟩ := exists_resolve_chartProject
  have hplain : (chartProject ["srv", "q"]).tree.IsPlain ["srv", "q"] :=
    Tree.isPlain_of_entries (by decide) (by decide +kernel) (by decide +kernel) (by decide +kernel)
  have hstart : (chartProject ["p"]).absolutize ⟨"/p"⟩ = ofNames (["p"] ++ []) := by decide +kernel
  have hstart' : (chartProject ["srv", "q"]).absolutize ⟨"/srv/q/"⟩ =
      ofNames (["srv", "q"] ++ []) := by decide +kernel
  have halike := discovery_alike
    (isRelocated_chartProject isPlain_chartProject hplain (by decide +kernel) (by decide +kernel))
    ⟨by decide +kernel, by decide +kernel, by decide +kernel, by decide +kernel⟩
    ⟨by decide +kernel, by decide +kernel, by decide +kernel, by decide +kernel⟩
    .nil areInside_chartProject hstart hstart'
  generalize hc' : Config.resolve (chartProject ["srv", "q"]) ⟨"/srv/q/"⟩ = y at halike ⊢
  rw [hc] at halike
  cases halike with
  | succeeded h => exact ⟨c, _, hc, hmanifests, rfl, h.1⟩

/-- Behind a name with a wildcard an explicit path is no error, and finds nothing. -/
theorem not_findAlike_of_wildcard :
    IsRelocated (chartProject ["p"]) (chartProject ["p[1]"]) ["p"] ["p[1]"] ∧
    Config.AreInside (chartProject ["p"]) ["p"] [] ∧
    Config.IsOutermost (chartProject ["p[1]"]) ["p[1]"] ∧
    Ignore.IsUnversioned (chartProject ["p[1]"]) ["p[1]"] ∧
    charts (chartProject ["p[1]"]) none "/p[1]/chart" = .ok [] ∧
    ¬Alike (FindAlike ["p"] ["p[1]"] (chartProject ["p"]) (chartProject ["p[1]"]) none none)
      (Config.resolve (chartProject ["p"]) ⟨"/p"⟩)
      (Config.resolve (chartProject ["p[1]"]) ⟨"/p[1]"⟩) := by
  have hplain : (chartProject ["p[1]"]).tree.IsPlain ["p[1]"] :=
    Tree.isPlain_of_entries (by decide) (by decide +kernel) (by decide +kernel) (by decide +kernel)
  refine ⟨isRelocated_chartProject isPlain_chartProject hplain (by decide +kernel)
    (by decide +kernel), areInside_chartProject, by decide +kernel, by decide +kernel,
    toOption_eq_some_iff.1 (by decide +kernel), fun halike => ?_⟩
  obtain ⟨c, hc, hmanifests⟩ := exists_resolve_chartProject
  obtain ⟨c', hc', hmanifests'⟩ := Config.exists_resolve_iff.1
    (show Config.writes (chartProject ["p[1]"]) ⟨"/p[1]"⟩ ["/p[1]/a.yaml"] = true by decide +kernel)
  have hfound : manifestFiles (chartProject ["p"]) none ["/p/a.yaml"] = .ok [⟨"/p/a.yaml"⟩] :=
    toOption_eq_some_iff.1 (by decide +kernel)
  have hnone : manifestFiles (chartProject ["p[1]"]) none ["/p[1]/a.yaml"] = .ok [] :=
    toOption_eq_some_iff.1 (by decide +kernel)
  rw [hc, hc'] at halike
  cases halike with
  | succeeded h =>
    have hmoved := h.manifests
    rw [hmanifests, hmanifests', hfound, hnone] at hmoved
    cases hmoved with
    | succeeded h => cases h

end Resource
end ReleaseLint
