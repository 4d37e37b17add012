/-
# What is found

`collect` finds each path once: the paths that one of the patterns stands for
(`mem_of_collect`), no two of them the same (`pairwise_of_collect`).  What is found for one
configured path depends on how it ends.

| configured path | resources of a kind |
| --- | --- |
| explicit | it, if it is one; an error otherwise (`explicitOfKind_eq_ok`) |
| `….yaml`, `….yml`, `…/*` | those among the files that it stands for |
| other with `**` at the end or with braces | those that `/*` behind it stands for |
| any other pattern | an error |

The last three are `ofKind_pattern` and `ofKind_openPattern`.
-/

import ReleaseLint.Resource.Discovery
import ReleaseLint.Proofs.Except
import ReleaseLint.Proofs.Glob.Expansion
import ReleaseLint.Proofs.Text.Parts

namespace ReleaseLint
namespace Resource

open Glob (star tailOf isPattern EndsWith IsNamed IsEnding)
open Path (ofNames slashed)

variable {w : Workspace} {checker : Option Ignore.Checker} {kind : Kind} {m : String}
variable {names stem : Names} {s : String} {p : Path} {found : List Path}

/-! ### Collected paths -/

theorem same_comm (p q : Path) : p.same q = q.same p :=
  Bool.beq_comm

/-- **No two of the paths that are left are the same.** -/
theorem pairwise_distinctPaths (paths : List Path) : ∀ seen,
    (distinctPaths seen paths).Pairwise (fun p q => p.same q = false) ∧
      ∀ p ∈ distinctPaths seen paths, ∀ q ∈ seen, p.same q = false := by
  induction paths with
  | nil => exact fun seen => ⟨.nil, fun p hp => absurd hp List.not_mem_nil⟩
  | cons p r ih =>
    intro seen
    rw [distinctPaths]
    split
    · exact ih seen
    · rename_i hnew
      obtain ⟨hpairwise, hseen⟩ := ih (p :: seen)
      refine ⟨List.pairwise_cons.2 ⟨fun q hq => ?_, hpairwise⟩, fun q hq a ha => ?_⟩
      · rw [same_comm]
        exact hseen q hq p List.mem_cons_self
      · rcases List.mem_cons.1 hq with rfl | hq
        · exact Bool.eq_false_iff.2 fun hsame => hnew (List.any_eq_true.2 ⟨a, ha, hsame⟩)
        · exact hseen q hq a (List.mem_cons_of_mem p ha)

/-- Paths from the root are left unless they were seen. -/
theorem mem_distinctPaths {paths : List Path} (hpaths : ∀ p ∈ paths, p.IsRooted) :
    ∀ {seen : List Path}, (∀ q ∈ seen, q.IsRooted) →
      (p ∈ distinctPaths seen paths ↔ p ∈ paths ∧ p ∉ seen) := by
  induction paths with
  | nil => exact fun _ => iff_of_false List.not_mem_nil fun h => List.not_mem_nil h.1
  | cons q r ih =>
    intro seen hseen
    have hq := hpaths q List.mem_cons_self
    have hr := fun p hp => hpaths p (List.mem_cons_of_mem q hp)
    have hany : seen.any q.same = true ↔ q ∈ seen := by
      rw [List.any_eq_true]
      constructor
      · rintro ⟨a, ha, hsame⟩
        rwa [(hq.same_iff (hseen a ha)).1 hsame]
      · exact fun h => ⟨q, h, (hq.same_iff hq).2 rfl⟩
    rw [distinctPaths]
    split
    · rename_i hold
      rw [ih hr hseen, List.mem_cons]
      constructor
      · exact fun h => ⟨.inr h.1, h.2⟩
      · rintro ⟨rfl | hmem, hnot⟩
        · exact absurd (hany.1 hold) hnot
        · exact ⟨hmem, hnot⟩
    · rename_i hnew
      rw [List.mem_cons, ih hr (List.forall_mem_cons.2 ⟨hq, hseen⟩), List.mem_cons, List.mem_cons]
      constructor
      · rintro (rfl | ⟨hmem, hnot⟩)
        · exact ⟨.inl rfl, fun h => hnew (hany.2 h)⟩
        · exact ⟨.inr hmem, fun h => hnot (.inr h)⟩
      · rintro ⟨rfl | hmem, hnot⟩
        · exact .inl rfl
        · by_cases hpq : p = q
          · exact .inl hpq
          · exact .inr ⟨hmem, fun h => h.elim hpq hnot⟩

variable {α : Type} {find : α → Except Error (List Path)} {patterns : List α}

theorem collect_eq_ok : collect find patterns = .ok found ↔
    ∃ parts, patterns.mapM find = .ok parts ∧ found = distinctPaths [] parts.flatten := by
  unfold collect
  rw [bind_eq_ok]
  constructor
  · rintro ⟨parts, hparts, hfound⟩
    exact ⟨parts, hparts, (Except.ok.inj hfound).symm⟩
  · rintro ⟨parts, hparts, rfl⟩
    exact ⟨parts, hparts, rfl⟩

theorem exists_collect_iff : (∃ found, collect find patterns = .ok found) ↔
    ∀ a ∈ patterns, ∃ part, find a = .ok part := by
  rw [← exists_mapM_iff]
  constructor
  · rintro ⟨found, h⟩
    obtain ⟨parts, hparts, -⟩ := collect_eq_ok.1 h
    exact ⟨parts, hparts⟩
  · rintro ⟨parts, hparts⟩
    exact ⟨_, collect_eq_ok.2 ⟨parts, hparts, rfl⟩⟩

theorem pairwise_of_collect (h : collect find patterns = .ok found) :
    found.Pairwise fun p q => p.same q = false := by
  obtain ⟨parts, -, rfl⟩ := collect_eq_ok.1 h
  exact (pairwise_distinctPaths _ []).1

/-- **What is collected is what some pattern stands for.** -/
theorem mem_of_collect (h : collect find patterns = .ok found)
    (hrooted : ∀ a ∈ patterns, ∀ part, find a = .ok part → ∀ p ∈ part, p.IsRooted) :
    p ∈ found ↔ ∃ a ∈ patterns, ∃ part, find a = .ok part ∧ p ∈ part := by
  obtain ⟨parts, hparts, rfl⟩ := collect_eq_ok.1 h
  have hall : ∀ p ∈ parts.flatten, p.IsRooted := by
    intro p hp
    obtain ⟨part, hpart, hp⟩ := List.mem_flatten.1 hp
    obtain ⟨a, ha, hfind⟩ := (mem_of_mapM hparts).1 hpart
    exact hrooted a ha part hfind p hp
  rw [mem_distinctPaths hall fun q hq => absurd hq List.not_mem_nil, List.mem_flatten]
  constructor
  · rintro ⟨⟨part, hpart, hp⟩, -⟩
    obtain ⟨a, ha, hfind⟩ := (mem_of_mapM hparts).1 hpart
    exact ⟨a, ha, part, hfind, hp⟩
  · rintro ⟨a, ha, part, hfind, hp⟩
    exact ⟨⟨part, (mem_of_mapM hparts).2 ⟨a, ha, hfind⟩, hp⟩, List.not_mem_nil⟩

/-! ### Files of a kind -/

/-- Whether the file at a path has the extension of YAML files and declares a kind. -/
structure IsOfKind (w : Workspace) (kind : Kind) (p : Path) : Prop where
  extension : hasYamlExtension p = true
  declared : declares w kind p = .ok true

/-- The endings of YAML files. -/
theorem hasYamlExtension_iff (hp : p.fileName? = some s) (hs : s.toList.head? ≠ some '.') :
    hasYamlExtension p = true ↔ EndsWith p ".yaml".toList ∨ EndsWith p ".yml".toList := by
  have hends : ∀ e : String, '.' ∉ e.toList →
      (p.extension? = some e ↔ EndsWith p ('.' :: e.toList)) := by
    intro e he
    rw [Path.extension?_eq_some_iff hp he]
    constructor
    · rintro ⟨front, -, hfront⟩
      exact ⟨s, hp, front, hfront.symm⟩
    · rintro ⟨s', hs', front, hfront⟩
      obtain rfl := Option.some.inj (hp.symm.trans hs')
      refine ⟨front, ?_, hfront.symm⟩
      rintro rfl
      exact hs (hfront ▸ rfl)
  unfold hasYamlExtension
  rw [Bool.or_eq_true, beq_iff_eq, beq_iff_eq, hends "yaml" (by decide), hends "yml" (by decide)]
  exact Iff.rfl

theorem getD_declares : ((declares w kind p).toOption).getD false = true ↔
    declares w kind p = .ok true := by
  cases declares w kind p with
  | error e => exact iff_of_false Bool.false_ne_true fun he => by cases he
  | ok b => exact Except.ok.injEq b true ▸ Iff.rfl

theorem hasFile_of_declares (h : declares w kind p = .ok true) : w.hasFile p = true := by
  unfold declares Workspace.readText Workspace.read at h
  unfold Workspace.hasFile
  cases hnode : w.node p with
  | error f =>
    simp only [hnode] at h
    cases h
  | ok node =>
    cases node with
    | file data executable => rfl
    | directory =>
      simp only [hnode] at h
      cases h
    | link target =>
      simp only [hnode] at h
      cases h

theorem has_of_hasFile (h : w.hasFile p = true) : w.has p = true ∧ w.hasDirectory p = false := by
  unfold Workspace.hasFile at h
  unfold Workspace.has Workspace.hasDirectory
  cases hnode : w.node p with
  | error f =>
    rw [hnode] at h
    cases h
  | ok node =>
    rw [hnode] at h
    cases node with
    | file data executable => exact ⟨rfl, rfl⟩
    | directory => cases h
    | link target => cases h

/-- **An explicit path is found if it is of the kind,** and is an error otherwise. -/
theorem explicitOfKind_eq_ok (hm : (Path.mk m).IsRooted) :
    explicitOfKind w kind m = .ok found ↔ IsOfKind w kind ⟨m⟩ ∧ found = [⟨m⟩] := by
  have hclean : (Path.mk m).clean = ⟨m⟩ := by
    obtain ⟨names, hnames, heq⟩ := hm
    rw [heq, Path.clean_ofNames hnames]
  unfold explicitOfKind
  rw [hclean]
  dsimp only
  rw [unless_eq_ok, unless_eq_ok, unless_eq_ok, bind_eq_ok]
  constructor
  · rintro ⟨hext, -, -, declared, hdeclared, h⟩
    rw [unless_eq_ok] at h
    obtain ⟨hkind, hfound⟩ := h
    rw [Bool.not_eq_false'] at hext hkind
    exact ⟨⟨hext, hkind ▸ hdeclared⟩, (Except.ok.inj hfound).symm⟩
  · rintro ⟨h, rfl⟩
    obtain ⟨hhas, hdir⟩ := has_of_hasFile (hasFile_of_declares h.declared)
    refine ⟨by rw [h.extension]; rfl, by rw [hhas]; rfl, hdir, true, h.declared, rfl⟩

/-! ### Patterns for files of a kind -/

theorem allBlank_of_isRooted (hm : (Path.mk m).IsRooted) : Text.allBlank m = false := by
  obtain ⟨names, hnames, heq⟩ := hm
  obtain rfl : m = (ofNames names).text := congrArg Path.text heq
  exact Path.allBlank_ofNames hnames

/-- Whether files of a kind can be looked for below a pattern. -/
def isSearchable (m : String) : Bool :=
  Text.endsWith m ".yaml" || Text.endsWith m ".yml" || Text.endsWith m "/*" ||
    Text.endsWith m "**" || m.toList.contains '\x7b'

/-- The pattern that stands for the files among which those of a kind are found. -/
def searched (m : String) : String :=
  if Text.endsWith m ".yaml" || Text.endsWith m ".yml" || Text.endsWith m "/*" then m
  else m ++ "/*"

theorem clean_of_isRooted (hm : (Path.mk m).IsRooted) : (Path.mk m).clean = ⟨m⟩ := by
  obtain ⟨names, hnames, heq⟩ := hm
  rw [heq, Path.clean_ofNames hnames]

/-- The files that a pattern finds are those found for its endings that declare the kind. -/
theorem ofKind_eq_ok (hm : (Path.mk m).IsRooted) (hpattern : isPattern m = true) :
    ofKind w checker kind m = .ok found ↔
      ∃ patterns all, yamlPatterns m = .ok patterns ∧
        collect (files w checker m) patterns = .ok all ∧
        found = all.filter fun p => ((declares w kind p).toOption).getD false := by
  unfold ofKind
  rw [if_neg (by simp [allBlank_of_isRooted hm]), if_neg (by simp [hpattern]), bind_eq_ok,
    clean_of_isRooted hm]
  constructor
  · rintro ⟨patterns, hpatterns, h⟩
    obtain ⟨all, hall, hfound⟩ := bind_eq_ok.1 h
    exact ⟨patterns, all, hpatterns, hall, (Except.ok.inj hfound).symm⟩
  · rintro ⟨patterns, all, hpatterns, hall, rfl⟩
    exact ⟨patterns, hpatterns, bind_eq_ok.2 ⟨all, hall, rfl⟩⟩

theorem exists_yamlPatterns_iff :
    (∃ patterns, yamlPatterns m = .ok patterns) ↔ isSearchable m = true := by
  unfold yamlPatterns isSearchable
  dsimp only
  rw [Bool.or_assoc]
  split_ifs with hend hstar hopen
  · exact iff_of_true ⟨_, rfl⟩ (by rw [hend, Bool.true_or, Bool.true_or])
  · exact iff_of_true ⟨_, rfl⟩ (by rw [hstar, Bool.or_true, Bool.true_or])
  · exact iff_of_true ⟨_, rfl⟩ (by rw [hopen, Bool.or_true])
  · rw [Bool.not_eq_true] at hend hstar hopen
    refine iff_of_false (fun ⟨_, he⟩ => by cases he) ?_
    rw [hend, hstar, hopen]
    decide

/-- Any other pattern is an error. -/
theorem ofKind_openPattern (hm : (Path.mk m).IsRooted) (hpattern : isPattern m = true)
    (hs : isSearchable m = false) : ofKind w checker kind m = .error (.discovery m .openPattern) := by
  unfold isSearchable at hs
  simp only [Bool.or_eq_false_iff] at hs
  obtain ⟨⟨⟨⟨hyaml, hyml⟩, hstar⟩, hstars⟩, hbrace⟩ := hs
  have hpatterns : yamlPatterns m = .error (.discovery m .openPattern) := by
    unfold yamlPatterns
    dsimp only
    rw [hyaml, hyml, hstar, hstars, hbrace]
    rfl
  unfold ofKind
  rw [if_neg (by simp [allBlank_of_isRooted hm]), if_neg (by simp [hpattern]),
    clean_of_isRooted hm, hpatterns]
  rfl

theorem isEnding_yaml : IsEnding ".yaml".toList :=
  ⟨by simp [Glob.ArePlain], by simp, by decide⟩

theorem isEnding_yml : IsEnding ".yml".toList :=
  ⟨by simp [Glob.ArePlain], by simp, by decide⟩

/-- The patterns for YAML files in the directories that `stem` stands for. -/
def yamlBelow (stem : Names) : List String :=
  [(ofNames (stem ++ [star ".yaml".toList])).text, (ofNames (stem ++ [star ".yml".toList])).text]

theorem text_star (h : AreNames stem) {e : List Char} (he : IsEnding e) :
    (ofNames (stem ++ [star e])).text = String.ofList (slashed stem) ++ String.ofList ('/' :: '*' :: e) := by
  rw [← String.toList_inj, Path.text_ofNames_concat (h.concat (Glob.isName_star he)),
    Glob.toList_star, String.toList_append, String.toList_ofList, String.toList_ofList]

theorem text_eq (h : AreNames names) (hne : names ≠ []) :
    (ofNames names).text = String.ofList (slashed names) := by
  rw [← String.toList_inj, Path.text_ofNames h, if_neg hne, String.toList_ofList]

theorem isRooted_searched (hm : (Path.mk m).IsRooted) (hpattern : isPattern m = true) :
    (Path.mk (searched m)).IsRooted := by
  unfold searched
  split
  · exact hm
  · obtain ⟨names, hnames, heq⟩ := hm
    obtain rfl : m = (ofNames names).text := congrArg Path.text heq
    have hne : names ≠ [] := by
      rintro rfl
      exact absurd hpattern (by decide)
    have htext : (ofNames names).text ++ "/*" = (ofNames (names ++ [star []])).text := by
      rw [text_star hnames Glob.isEnding_nil, text_eq hnames hne]
    rw [htext]
    exact Path.isRooted_ofNames (hnames.concat (Glob.isName_star Glob.isEnding_nil))

/-- **The YAML files in the directories that `stem` stands for** are those among all files
there. -/
theorem collect_yamlBelow (ht : IsNamed w.tree) (h : AreNames stem) {f : Glob.Filter}
    (hfound : Glob.expand w f (ofNames (stem ++ [star []])).text = .ok found) :
    ∃ all, collect (Glob.expand w f) (yamlBelow stem) = .ok all ∧
      ∀ p, p ∈ all ↔ p ∈ found ∧ hasYamlExtension p = true := by
  obtain ⟨yaml, hyaml, hmem⟩ := Glob.expand_star ht h isEnding_yaml hfound
  obtain ⟨yml, hyml, hmem'⟩ := Glob.expand_star ht h isEnding_yml hfound
  obtain ⟨all, hall⟩ : ∃ all, collect (Glob.expand w f) (yamlBelow stem) = .ok all := by
    refine exists_collect_iff.2 fun a ha => ?_
    rcases List.mem_pair.1 ha with rfl | rfl
    · exact ⟨yaml, hyaml⟩
    · exact ⟨yml, hyml⟩
  have hrooted : ∀ a ∈ yamlBelow stem, ∀ part, Glob.expand w f a = .ok part →
      ∀ p ∈ part, p.IsRooted := by
    intro a ha part hpart p hp
    rcases List.mem_pair.1 ha with rfl | rfl
    · exact Glob.isRooted_of_mem_expand ht (h.concat (Glob.isName_star isEnding_yaml)) hpart hp
    · exact Glob.isRooted_of_mem_expand ht (h.concat (Glob.isName_star isEnding_yml)) hpart hp
  refine ⟨all, hall, fun p => ?_⟩
  have htail : tailOf (stem ++ [star []]) ≠ [] := by
    rw [Glob.tailOf_concat (Glob.isPattern_star [])]
    exact List.concat_ne_nil _ _
  have hyamls : p ∈ found → (hasYamlExtension p = true ↔
      EndsWith p ".yaml".toList ∨ EndsWith p ".yml".toList) := by
    intro hp
    obtain ⟨q, s, rfl, hnames, hvisible⟩ := Glob.exists_eq_ofNames ht
      (h.concat (Glob.isName_star Glob.isEnding_nil)) htail hfound hp
    exact hasYamlExtension_iff (Path.fileName?_ofNames hnames) hvisible
  rw [mem_of_collect hall hrooted]
  constructor
  · rintro ⟨a, ha, part, hpart, hp⟩
    rcases List.mem_pair.1 ha with rfl | rfl
    · cases hpart.symm.trans hyaml
      obtain ⟨hp, hend⟩ := (hmem p).1 hp
      exact ⟨hp, (hyamls hp).2 (.inl hend)⟩
    · cases hpart.symm.trans hyml
      obtain ⟨hp, hend⟩ := (hmem' p).1 hp
      exact ⟨hp, (hyamls hp).2 (.inr hend)⟩
  · rintro ⟨hp, hext⟩
    rcases (hyamls hp).1 hext with hend | hend
    · exact ⟨_, List.mem_cons_self, yaml, hyaml, (hmem p).2 ⟨hp, hend⟩⟩
    · exact ⟨_, List.mem_pair.2 (.inr rfl), yml, hyml, (hmem' p).2 ⟨hp, hend⟩⟩

theorem yamlBelow_eq (h : AreNames stem) :
    yamlBelow stem =
      [String.ofList (slashed stem) ++ "/*.yaml", String.ofList (slashed stem) ++ "/*.yml"] := by
  unfold yamlBelow
  rw [text_star h isEnding_yaml, text_star h isEnding_yml]
  rfl

theorem endsWith_star (h : AreNames (names ++ [s])) :
    Text.endsWith (ofNames (names ++ [s])).text "/*" = true ↔ s = star [] := by
  unfold Text.endsWith
  rw [List.isSuffixOf_iff_suffix, show "/*".toList = '/' :: ['*'] from rfl,
    Path.slash_suffix_text_iff h (by decide), ← Glob.toList_star, String.toList_inj, eq_comm]

theorem endsWith_ofNames {e : String} (h : AreNames (names ++ [s])) (he : '/' ∉ e.toList) :
    Text.endsWith (ofNames (names ++ [s])).text e = Text.endsWith s e := by
  unfold Text.endsWith
  rw [Bool.eq_iff_iff, List.isSuffixOf_iff_suffix, List.isSuffixOf_iff_suffix,
    Path.suffix_text_iff h he]

/-- A pattern that ends with a star in a segment of its own. -/
theorem exists_eq_star (h : AreNames names) (hstar : Text.endsWith (ofNames names).text "/*" = true) :
    ∃ stem, names = stem ++ [star []] := by
  rcases List.eq_nil_or_concat names with rfl | ⟨stem, s, rfl⟩
  · exact absurd hstar (by decide)
  · rw [List.concat_eq_append] at h hstar ⊢
    exact ⟨stem, by rw [(endsWith_star h).1 hstar]⟩

/-- What is left of such a pattern without its end. -/
theorem take_text_star (h : AreNames stem) :
    String.ofList ((ofNames (stem ++ [star []])).text.toList.take
      ((ofNames (stem ++ [star []])).text.length - 2)) = String.ofList (slashed stem) := by
  rw [text_star h Glob.isEnding_nil]
  simp [show "/*".length = 2 by decide]

/-- The YAML files that a pattern matches. -/
theorem yamlPatterns_ofNames (h : AreNames (names ++ [s])) :
    yamlPatterns (ofNames (names ++ [s])).text =
      if Text.endsWith s ".yaml" || Text.endsWith s ".yml" then .ok [(ofNames (names ++ [s])).text]
      else if s = Glob.star [] then .ok (yamlBelow names)
      else if Text.endsWith s "**" || (ofNames (names ++ [s])).text.toList.contains '\x7b' then
        .ok (yamlBelow (names ++ [s]))
      else .error (.discovery (ofNames (names ++ [s])).text .openPattern) := by
  unfold yamlPatterns
  dsimp only
  simp only [endsWith_star h]
  rw [endsWith_ofNames h (by decide), endsWith_ofNames h (by decide),
    endsWith_ofNames h (by decide)]
  split_ifs with hend hstar
  · rfl
  · subst hstar
    rw [take_text_star h.left, yamlBelow_eq h.left]
  · rw [yamlBelow_eq h, text_eq h (List.concat_ne_nil _ _)]
  · rfl

/-- A pattern that ends like a YAML file finds only YAML files. -/
theorem hasYamlExtension_of_mem (ht : IsNamed w.tree) (h : AreNames names)
    (htail : tailOf names ≠ [])
    (hend : Text.endsWith (ofNames names).text ".yaml" ||
      Text.endsWith (ofNames names).text ".yml")
    {f : Glob.Filter} (hfound : Glob.expand w f (ofNames names).text = .ok found) (hp : p ∈ found) :
    hasYamlExtension p = true := by
  obtain ⟨q, s, rfl, hnames, hvisible⟩ := Glob.exists_eq_ofNames ht h htail hfound hp
  rw [hasYamlExtension_iff (Path.fileName?_ofNames hnames) hvisible]
  obtain ⟨stem, t, rfl⟩ := (List.eq_nil_or_concat names).resolve_left fun hnil =>
    htail (by rw [hnil]; rfl)
  rw [List.concat_eq_append] at h htail hend hfound
  rw [Bool.or_eq_true] at hend
  unfold Text.endsWith at hend
  rw [List.isSuffixOf_iff_suffix, List.isSuffixOf_iff_suffix,
    Path.suffix_text_iff h (by decide), Path.suffix_text_iff h (by decide)] at hend
  rcases hend with hend | hend
  · exact .inl (Glob.endsWith_of_mem_expand ht h htail isEnding_yaml (by decide) hend hfound hp)
  · exact .inr (Glob.endsWith_of_mem_expand ht h htail isEnding_yml (by decide) hend hfound hp)

/-- **The files that are looked through for a pattern.** -/
theorem exists_yamlPatterns (ht : IsNamed w.tree) (h : AreNames names)
    (htail : tailOf names ≠ []) (hs : isSearchable (ofNames names).text = true) {f : Glob.Filter}
    (hfound : Glob.expand w f (ofNames names).text = .ok found) :
    ∃ patterns all looked, yamlPatterns (ofNames names).text = .ok patterns ∧
      collect (Glob.expand w f) patterns = .ok all ∧
      Glob.expand w f (searched (ofNames names).text) = .ok looked ∧
      ∀ p, p ∈ all ↔ p ∈ looked ∧ hasYamlExtension p = true := by
  have hne : names ≠ [] := by
    rintro rfl
    exact htail rfl
  by_cases hend : (Text.endsWith (ofNames names).text ".yaml" ||
      Text.endsWith (ofNames names).text ".yml") = true
  · obtain ⟨all, hall⟩ : ∃ all, collect (Glob.expand w f) [(ofNames names).text] = .ok all :=
      exists_collect_iff.2 fun a ha => ⟨found, List.mem_singleton.1 ha ▸ hfound⟩
    refine ⟨[(ofNames names).text], all, found, ?_, hall, ?_, fun p => ?_⟩
    · unfold yamlPatterns
      exact if_pos hend
    · unfold searched
      rwa [hend, Bool.true_or, if_pos rfl]
    · rw [mem_of_collect hall fun a ha part hpart p hp => by
        rw [List.mem_singleton.1 ha] at hpart
        exact Glob.isRooted_of_mem_expand ht h hpart hp]
      simp only [List.mem_singleton, exists_eq_left, hfound, Except.ok.injEq, exists_eq_left']
      exact ⟨fun hp => ⟨hp, hasYamlExtension_of_mem ht h htail hend hfound hp⟩, fun hp => hp.1⟩
  by_cases hstar : Text.endsWith (ofNames names).text "/*" = true
  · obtain ⟨stem, rfl⟩ := exists_eq_star h hstar
    obtain ⟨all, hall, hmem⟩ := collect_yamlBelow ht h.left hfound
    refine ⟨_, all, found, ?_, hall, ?_, hmem⟩
    · unfold yamlPatterns
      dsimp only
      rw [if_neg hend, if_pos hstar, take_text_star h.left, yamlBelow_eq h.left]
    · unfold searched
      rwa [hstar, Bool.or_true, if_pos rfl]
  · obtain ⟨found', hfound'⟩ := Glob.exists_expand_below h htail hfound
    obtain ⟨all, hall, hmem⟩ := collect_yamlBelow ht h hfound'
    refine ⟨_, all, found', ?_, hall, ?_, hmem⟩
    · unfold isSearchable at hs
      unfold yamlPatterns
      dsimp only
      rw [Bool.not_eq_true] at hend hstar
      rw [hend, hstar, Bool.or_false, Bool.false_or] at hs
      rw [if_neg (by simp [hend]), if_neg (by simp [hstar]), if_pos hs, yamlBelow_eq h,
        text_eq h hne]
    · rw [Bool.not_eq_true] at hend hstar
      unfold searched
      rw [hend, hstar, if_neg (by decide)]
      rw [text_star h Glob.isEnding_nil, ← text_eq h hne] at hfound'
      exact hfound'

/-- **What a pattern finds** are the files of the kind among those that are looked through. -/
theorem ofKind_pattern (kind : Kind) (ht : IsNamed w.tree) (hm : (Path.mk m).IsRooted)
    (hpattern : isPattern m = true) (hs : isSearchable m = true)
    (hfiles : files w checker m m = .ok found) :
    ∃ looked part, files w checker m (searched m) = .ok looked ∧
      ofKind w checker kind m = .ok part ∧
      ∀ p, p ∈ part ↔ IsOfKind w kind p ∧ p ∈ looked := by
  obtain ⟨names, hnames, heq⟩ := hm
  obtain rfl : m = (ofNames names).text := congrArg Path.text heq
  have htail : tailOf names ≠ [] := by
    rw [ne_eq, Glob.tailOf_eq_nil_iff hnames, hpattern]
    decide
  obtain ⟨patterns, all, looked, hpatterns, hall, hlooked, hmem⟩ :=
    exists_yamlPatterns ht hnames htail hs hfiles
  refine ⟨looked, _, hlooked, (ofKind_eq_ok ⟨names, hnames, rfl⟩ hpattern).2
    ⟨patterns, all, hpatterns, hall, rfl⟩, fun p => ?_⟩
  rw [List.mem_filter, hmem, getD_declares]
  constructor
  · rintro ⟨⟨hp, hext⟩, hdeclared⟩
    exact ⟨⟨hext, hdeclared⟩, hp⟩
  · rintro ⟨⟨hext, hdeclared⟩, hp⟩
    exact ⟨⟨hp, hext⟩, hdeclared⟩

/-! ### Marker files -/

theorem isName_of_mem_markers {marker : String} (h : marker ∈ Chart.markers) :
    Segment.IsName marker := by
  rcases List.mem_pair.1 h with rfl | rfl <;> exact Segment.isName_iff.2 (by decide)

/-- The marker files of the charts that a pattern matches. -/
theorem markerPatterns_ofNames (h : AreNames (names ++ [s])) :
    markerPatterns (ofNames (names ++ [s])) =
      if Chart.markers.any (Text.endsWith s) then [(ofNames (names ++ [s])).text]
      else Chart.markers.map fun marker => (ofNames (names ++ [s] ++ [marker])).text := by
  have hlast : (ofNames (names ++ [s])).text.toList.getLast? ≠ some '/' := by
    rw [Path.ofNames_concat]
    exact Path.getLast_text_div (x := .name s) h.last
  have hany : Chart.markers.any (Text.endsWith (ofNames (names ++ [s])).text) =
      Chart.markers.any (Text.endsWith s) := by
    rw [Bool.eq_iff_iff, List.any_eq_true, List.any_eq_true]
    refine exists_congr fun marker => and_congr_right fun hmarker => ?_
    have hslash : '/' ∉ marker.toList := (isName_of_mem_markers hmarker).1
    rw [endsWith_ofNames h hslash]
  unfold markerPatterns
  dsimp only
  rw [hany, Text.dropEnd_eq_self hlast]
  split_ifs
  · rfl
  · refine List.map_congr_left fun marker hmarker => ?_
    rw [← String.toList_inj, Path.text_ofNames_concat (h.concat (isName_of_mem_markers hmarker)),
      String.toList_append, String.toList_append, Path.text_ofNames h, if_neg (by simp),
      List.append_assoc]
    rfl

end Resource
end ReleaseLint
