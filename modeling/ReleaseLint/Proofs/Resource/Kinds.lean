/-
# Files of a kind that a pattern stands for

A pattern is searched for as it is if it ends with an ending of YAML files.  Any other is searched
for with a star and each ending, in place of a star at its end or behind it.

| cleaned pattern | is searched for | what it matches |
| --- | --- | --- |
| `….yaml`, `….yml` | as it is | is found |
| `…/*` | as `…/*.yaml` and `…/*.yml` | is found |
| `**`, `…/**` | with `/*.yaml` and `/*.yml` behind it | is found |
| other with `**` at the end or with braces | with `/*.yaml` and `/*.yml` behind it | is not found |

`ofKind_of_pattern` says, of every pattern, that what is returned is a file of the kind where the
pattern asks for it (`IsMatch`), and that nothing is left out: of what the pattern matches in the
first three lines (`isCovered`), and else of what it matches with a star behind it.
-/

import ReleaseLint.Proofs.Glob.Derived
import ReleaseLint.Proofs.Resource.Discovery

namespace ReleaseLint
namespace Resource

open Glob (isPattern literalBase globTail Extends IsEnding EndsWith star)
open Path (ofNames)

variable {w : Workspace} {checker : Option Ignore.Checker} {kind : Kind} {f : Glob.Filter}
variable {m x stem searchedFor : String} {patterns : List String} {p : Path}
variable {found looked all : List Path}

/-- Whether a clean pattern finds what it matches: it ends with an ending of YAML files, or its
last name is one star or two. -/
def isCovered (p : Path) : Bool :=
  Text.endsWith p.text ".yaml" || Text.endsWith p.text ".yml" || Text.endsWith p.text "/*" ||
    p.fileName? == some "**"

/-- Whether a path is a file of a kind where a pattern looks for one.  A pattern that is left
without wildcards when it is cleaned stands for its path, whatever the name. -/
structure IsMatch (w : Workspace) (f : Glob.Filter) (kind : Kind) (m : String) (p : Path) : Prop where
  isFile : w.hasFile p = true
  declared : declares w kind p = .ok true
  ending : EndsWith p ".yaml".toList ∨ EndsWith p ".yml".toList
  extension : globTail m ≠ [] → hasYamlExtension p = true
  kept : f.ignores w p = false
  visible : ∃ names, AreNames names ∧ p = Glob.pathBelow (literalBase w m) names ∧
    ∀ s ∈ names, s.toList.head? ≠ some '.'

/-- What is searched for in place of a pattern: a pattern with the ending of YAML files, or a star
with each ending in place of a star. -/
inductive Derives (m : String) : String → List String → Prop
  | itself {q s x : String} (hx : Extends q s x) (hbase : ∀ w, literalBase w x = literalBase w m)
    (htail : globTail x = globTail m)
    (hends : ".yaml".toList <:+ s.toList ∨ ".yml".toList <:+ s.toList) : Derives m x [x]
  | below {q stem : String} (h : ∀ e, IsEnding e → Extends q (star e) (stem ++ "/" ++ star e))
    (hbase : ∀ w, literalBase w q = literalBase w m) :
    Derives m (stem ++ "/" ++ star [])
      [stem ++ "/" ++ star ".yaml".toList, stem ++ "/" ++ star ".yml".toList]

/-! ### What is searched for -/

theorem noClass_yaml : ']' ∉ ".yaml".toList := by
  decide

theorem noClass_yml : ']' ∉ ".yml".toList := by
  decide

/-- A clean pattern that ends with a star in a segment of its own. -/
theorem exists_extends_star (h : Text.endsWith (Path.mk m).clean.text "/*" = true) :
    ∃ q stem, Extends q (star []) m ∧ (Path.mk m).clean.text = stem ++ "/*" ∧
      ∀ e, IsEnding e → Extends q (star e) (stem ++ "/" ++ star e) := by
  rw [Text.endsWith, List.isSuffixOf_iff_suffix] at h
  obtain ⟨front, hfront⟩ := h
  have hlast : (Path.mk m).clean.text.toList.getLast? = some '*' := by
    rw [← hfront]
    exact List.getLast?_append_of_ne_nil front (show "/*".toList ≠ [] by decide)
  obtain ⟨s, hname⟩ := Glob.exists_fileName_of_getLast hlast (by decide) (by decide)
  obtain ⟨q, hextends, hq, hdiv⟩ := Glob.exists_extends_of_fileName hname
  have hslash := (Segment.isName_iff.1 hextends.isName).1
  have hne : q ≠ "" := by
    rintro rfl
    have htext : (Path.mk m).clean.text = s := congrArg Path.text (hdiv.trans (if_pos (.inr rfl)))
    rw [htext] at hfront
    exact hslash (hfront ▸ by simp)
  have hclean := hq hne
  rw [← Path.div_of_clean hclean hextends.isName] at hdiv
  have htext : (Path.mk m).clean.text = Text.dropEnd (· == '/') q ++ "/" ++ s :=
    congrArg Path.text hdiv
  obtain rfl : s = star [] := by
    rw [htext, String.toList_append, String.toList_append, List.append_assoc] at hfront
    rw [← String.toList_inj]
    exact ((Path.cons_suffix_append_cons_iff (a := '/') (by decide) hslash).1 ⟨front, hfront⟩).symm
  refine ⟨q, Text.dropEnd (· == '/') q, hextends, ?_, fun e he => ?_⟩
  · rw [htext, String.append_assoc]
    rfl
  · have hx := Glob.extends_clean q (Glob.isName_star he)
    rwa [hclean] at hx

/-- A star with an ending behind a clean pattern. -/
theorem extends_star (h : (Path.mk m).clean.text.toList.getLast? ≠ some '/') {e : List Char}
    (he : IsEnding e) : Extends m (star e) ((Path.mk m).clean.text ++ "/" ++ star e) := by
  have hx := Glob.extends_clean m (Glob.isName_star he)
  rwa [Text.dropEnd_eq_self h] at hx

/-- A clean pattern that ends with an ending of YAML files. -/
theorem derives_itself
    (h : Text.endsWith (Path.mk m).clean.text ".yaml" || Text.endsWith (Path.mk m).clean.text ".yml") :
    Derives m (Path.mk m).clean.text [(Path.mk m).clean.text] := by
  rw [Bool.or_eq_true, Text.endsWith, Text.endsWith, List.isSuffixOf_iff_suffix,
    List.isSuffixOf_iff_suffix] at h
  have hlast : (Path.mk m).clean.text.toList.getLast? = some 'l' := by
    rcases h with ⟨front, hfront⟩ | ⟨front, hfront⟩ <;> rw [← hfront]
    · exact List.getLast?_append_of_ne_nil front (show ".yaml".toList ≠ [] by decide)
    · exact List.getLast?_append_of_ne_nil front (show ".yml".toList ≠ [] by decide)
  obtain ⟨s, hname⟩ := Glob.exists_fileName_of_getLast hlast (by decide) (by decide)
  have hclean : (Path.mk (Path.mk m).clean.text).clean = (Path.mk m).clean := Path.clean_clean ⟨m⟩
  obtain ⟨q, hextends, -, hdiv⟩ :=
    Glob.exists_extends_of_fileName (m := (Path.mk m).clean.text) (by rwa [hclean])
  rw [hclean] at hdiv
  rw [hdiv, Path.suffix_text_div_iff hextends.isName isEnding_yaml.slash,
    Path.suffix_text_div_iff hextends.isName isEnding_yml.slash] at h
  exact .itself hextends (fun w => Glob.literalBase_text_clean w m) (Glob.globTail_text_clean m) h

/-- A star with each ending behind a stem. -/
theorem derives_below {q : String}
    (h : ∀ e, IsEnding e → Extends q (star e) (stem ++ "/" ++ star e))
    (hbase : ∀ w, literalBase w q = literalBase w m) :
    Derives m (stem ++ "/*") [stem ++ "/*.yaml", stem ++ "/*.yml"] := by
  have htext (e : List Char) : stem ++ "/" ++ star e = stem ++ ("/" ++ star e) :=
    String.append_assoc
  have hbelow := Derives.below h hbase
  rw [htext, htext, htext] at hbelow
  exact hbelow

/-- **What is searched for in place of a clean pattern.** -/
theorem derives_of_yamlPatterns (h : yamlPatterns (Path.mk m).clean.text = .ok patterns) :
    Derives m (searched (Path.mk m).clean.text) patterns := by
  unfold yamlPatterns at h
  unfold searched
  dsimp only at h
  split_ifs at h with hends hstar hopen
  · rw [hends, Bool.true_or, if_pos rfl, ← Except.ok.inj h]
    exact derives_itself hends
  · obtain ⟨q, stem, hextends, htext, hall⟩ := exists_extends_star hstar
    have hlength : (stem ++ "/*").length - 2 = stem.toList.length := by
      rw [String.length_append, String.length_toList, show "/*".length = 2 by decide,
        Nat.add_sub_cancel]
    rw [htext, hlength, String.toList_append, List.take_left, String.ofList_toList] at h
    rw [hstar, Bool.or_true, if_pos rfl, htext, ← Except.ok.inj h]
    exact derives_below hall fun w =>
      (hextends.literalBase_eq (.inr (Glob.isPattern_star []))).symm
  · rw [Bool.not_eq_true] at hends hstar
    rw [hends, hstar, Bool.or_false, if_neg Bool.false_ne_true, ← Except.ok.inj h]
    have hlast : (Path.mk m).clean.text.toList.getLast? ≠ some '/' := by
      intro hslash
      rw [Path.clean_eq_slash hslash] at hopen
      exact absurd hopen (by decide)
    exact derives_below (fun e he => extends_star hlast he) fun w => rfl

/-! ### What is found -/

/-- What stands below a base has the extension of YAML files if it ends like one. -/
theorem hasYamlExtension_iff_of_isHit (hw : w.directory.isAbsolute = true) {names : Names}
    (h : Glob.IsHit w f (literalBase w m) p names) (hne : names ≠ []) :
    hasYamlExtension p = true ↔ EndsWith p ".yaml".toList ∨ EndsWith p ".yml".toList := by
  obtain ⟨lead, hnames, hpath⟩ := h.exists_ofNames hw
  obtain ⟨init, s, rfl⟩ := (List.eq_nil_or_concat names).resolve_left hne
  rw [List.concat_eq_append] at h hnames hpath
  rw [← List.append_assoc] at hnames hpath
  have hname : p.fileName? = some s := hpath ▸ Path.fileName?_ofNames hnames
  exact hasYamlExtension_iff hname (h.visible s (by simp))

namespace Derives

/-- Each derived pattern has the base of the pattern and ends like a YAML file. -/
theorem exists_extends (h : Derives m searchedFor patterns) (hx : x ∈ patterns) :
    (∀ w, literalBase w x = literalBase w m) ∧ (globTail m ≠ [] → globTail x ≠ []) ∧
      ∃ q s, Extends q s x ∧ (".yaml".toList <:+ s.toList ∨ ".yml".toList <:+ s.toList) := by
  cases h with
  | itself hextends hbase htail hends =>
    obtain rfl := List.mem_singleton.1 hx
    exact ⟨hbase, fun hne => by rwa [htail], _, _, hextends, hends⟩
  | @below q stem hall hbase =>
    have hstar {e : List Char} (he : IsEnding e) : (∀ w, literalBase w (stem ++ "/" ++ star e) =
        literalBase w m) ∧ globTail (stem ++ "/" ++ star e) ≠ [] := by
      have hwild := Glob.isPattern_star e
      refine ⟨fun w => ((hall e he).literalBase_eq (.inr hwild)).trans (hbase w), ?_⟩
      rw [(hall e he).globTail_eq (.inr hwild)]
      simp
    rcases List.mem_pair.1 hx with rfl | rfl
    · exact ⟨(hstar isEnding_yaml).1, fun _ => (hstar isEnding_yaml).2, q, _, hall _ isEnding_yaml,
        .inl (Glob.toList_star _ ▸ List.suffix_cons _ _)⟩
    · exact ⟨(hstar isEnding_yml).1, fun _ => (hstar isEnding_yml).2, q, _, hall _ isEnding_yml,
        .inr (Glob.toList_star _ ▸ List.suffix_cons _ _)⟩

/-- **All that is found for a derived pattern** stands below the base of the pattern, and ends
like a YAML file. -/
theorem exists_names (h : Derives m searchedFor patterns) (hw : w.directory.isAbsolute = true)
    (ht : w.tree.IsSound) (hx : x ∈ patterns) (hfound : Glob.expand w f x = .ok found)
    (hp : p ∈ found) :
    (EndsWith p ".yaml".toList ∨ EndsWith p ".yml".toList) ∧
      ∃ names, (globTail m ≠ [] → names ≠ []) ∧ Glob.IsHit w f (literalBase w m) p names := by
  obtain ⟨hbase, htail, q, s, hextends, hends⟩ := h.exists_extends hx
  obtain ⟨names, hnil, hbelow⟩ := Glob.isHit_of_mem_expand hw ht hfound hp
  refine ⟨hends.imp (fun hs => ?_) (fun hs => ?_), names, fun hne => ?_, hbase w ▸ hbelow⟩
  · exact hextends.endsWith_of_mem hw ht isEnding_yaml noClass_yaml hs hfound hp
  · exact hextends.endsWith_of_mem hw ht isEnding_yml noClass_yml hs hfound hp
  · exact fun h => htail hne (hnil.1 h)

/-- **The derived patterns find the YAML files** among what is found for the pattern that they
stand for, which can be searched for if they can. -/
theorem exists_looked (h : Derives m searchedFor patterns) (hw : w.directory.isAbsolute = true)
    (ht : w.tree.IsSound) (hall : ∀ x ∈ patterns, ∃ part, Glob.expand w f x = .ok part) :
    ∃ looked, Glob.expand w f searchedFor = .ok looked ∧
      (∀ x ∈ patterns, ∀ part, Glob.expand w f x = .ok part → ∀ p ∈ part, p ∈ looked) ∧
      ∀ p ∈ looked, hasYamlExtension p = true →
        ∃ x ∈ patterns, ∃ part, Glob.expand w f x = .ok part ∧ p ∈ part := by
  cases h with
  | itself hextends hbase htail hends =>
    obtain ⟨looked, hlooked⟩ := hall _ List.mem_cons_self
    refine ⟨looked, hlooked, fun x hx part hpart p hp => ?_, fun p hp _ =>
      ⟨_, List.mem_cons_self, looked, hlooked, hp⟩⟩
    rw [List.mem_singleton.1 hx] at hpart
    cases hpart.symm.trans hlooked
    exact hp
  | @below q stem hstar hbase =>
    obtain ⟨yaml, hyaml⟩ := hall _ List.mem_cons_self
    obtain ⟨yml, hyml⟩ := hall _ (List.mem_pair.2 (.inr rfl))
    have hnil := hstar [] Glob.isEnding_nil
    obtain ⟨looked, hlooked⟩ := (hstar _ isEnding_yaml).exists_expand_star hnil isEnding_yaml
      noClass_yaml Glob.isEnding_nil hyaml
    have hmem (p : Path) := hnil.mem_expand_star (p := p) hw ht.named (hstar _ isEnding_yaml)
      isEnding_yaml hlooked hyaml
    have hmem' (p : Path) := hnil.mem_expand_star (p := p) hw ht.named (hstar _ isEnding_yml)
      isEnding_yml hlooked hyml
    refine ⟨looked, hlooked, fun x hx part hpart p hp => ?_, fun p hp hext => ?_⟩
    · rcases List.mem_pair.1 hx with rfl | rfl
      · cases hpart.symm.trans hyaml
        exact ((hmem p).1 hp).1
      · cases hpart.symm.trans hyml
        exact ((hmem' p).1 hp).1
    · obtain ⟨names, hnames, hbelow⟩ := Glob.isHit_of_mem_expand hw ht hlooked hp
      have htail : globTail (stem ++ "/" ++ star []) ≠ [] := by
        rw [hnil.globTail_eq (.inr (Glob.isPattern_star []))]
        simp
      rcases (hasYamlExtension_iff_of_isHit hw hbelow fun h => htail (hnames.1 h)).1 hext with
        hend | hend
      · exact ⟨_, List.mem_cons_self, yaml, hyaml, (hmem p).2 ⟨hp, hend⟩⟩
      · exact ⟨_, List.mem_pair.2 (.inr rfl), yml, hyml, (hmem' p).2 ⟨hp, hend⟩⟩

end Derives

/-- What a covered pattern matches is what is searched for in place of it. -/
theorem mem_looked_iff (hcovered : isCovered (Path.mk m).clean = true) {written : List Path}
    (hlooked : Glob.expand w f (searched (Path.mk m).clean.text) = .ok looked)
    (hwritten : Glob.expand w f m = .ok written) : p ∈ looked ↔ p ∈ written := by
  unfold searched at hlooked
  split_ifs at hlooked with hends
  · rw [Glob.eq_of_expand (Glob.globTail_text_clean m) (Glob.literalBase_text_clean w m) hlooked
      hwritten]
  · rw [isCovered, Bool.eq_false_iff.2 hends, Bool.false_or, beq_iff_eq] at hcovered
    obtain ⟨q, hextends, -⟩ := Glob.exists_extends_of_fileName hcovered
    have hlast : (Path.mk m).clean.text.toList.getLast? ≠ some '/' := by
      intro hslash
      rw [Path.clean_eq_slash hslash] at hcovered
      exact absurd hcovered (by decide)
    have hbelow := extends_star hlast Glob.isEnding_nil
    rw [String.append_assoc] at hbelow
    exact hextends.mem_expand_stars hbelow hwritten hlooked

theorem exists_yamlPatterns_of_ofKind (hpattern : isPattern m = true)
    (h : ofKind w checker kind m = .ok found) :
    ∃ patterns all, yamlPatterns (Path.mk m).clean.text = .ok patterns ∧
      collect (files w checker m) patterns = .ok all ∧ found.Sublist all ∧
      ∀ p, p ∈ found ↔ p ∈ all ∧ declares w kind p = .ok true := by
  unfold ofKind at h
  split_ifs at h with hblank hplain
  · rw [hpattern] at hplain
    cases hplain
  · obtain ⟨patterns, hpatterns, h⟩ := bind_eq_ok.1 h
    obtain ⟨all, hall, h⟩ := bind_eq_ok.1 h
    refine ⟨patterns, all, hpatterns, hall, ?_, fun p => ?_⟩
    · rw [← Except.ok.inj h]
      exact List.filter_sublist
    · rw [← Except.ok.inj h, List.mem_filter, getD_declares]

/-- **The files of a kind that a pattern stands for.**  No path is returned twice; each is a file
of the kind where the pattern looks for one; each of those is returned that is found for what is
searched for; and so is each that the pattern matches, if it is covered. -/
theorem ofKind_of_pattern (hw : w.directory.isAbsolute = true) (ht : w.tree.IsSound)
    (hpattern : isPattern m = true) (h : ofKind w checker kind m = .ok found) :
    found.Pairwise (fun p q => p.same q = false) ∧
    (∀ p ∈ found, IsMatch w ⟨true, checkerFor checker m⟩ kind m p) ∧
    (∃ looked, files w checker m (searched (Path.mk m).clean.text) = .ok looked ∧
      (∀ p ∈ found, p ∈ looked) ∧ ∀ p ∈ looked, IsOfKind w kind p → p ∈ found) ∧
    (isCovered (Path.mk m).clean = true → ∀ written, files w checker m m = .ok written →
      (∀ p ∈ found, p ∈ written) ∧ ∀ p ∈ written, IsOfKind w kind p → p ∈ found) := by
  obtain ⟨patterns, all, hpatterns, hall, hsublist, hmem⟩ := exists_yamlPatterns_of_ofKind hpattern h
  have hderives := derives_of_yamlPatterns hpatterns
  obtain ⟨looked, hlooked, hsub, hsup⟩ :=
    hderives.exists_looked hw ht (exists_collect_iff.1 ⟨all, hall⟩)
  have hparts (p : Path) : p ∈ all ↔
      ∃ x ∈ patterns, ∃ part, files w checker m x = .ok part ∧ p ∈ part := by
    refine mem_of_collect hall fun x hx part hpart p hp => ?_
    obtain ⟨-, names, -, hbelow⟩ := hderives.exists_names hw ht hx hpart hp
    obtain ⟨lead, hnames, rfl⟩ := hbelow.exists_ofNames hw
    exact Path.isRooted_ofNames hnames
  have hsound : ∀ p ∈ found, p ∈ looked := by
    intro p hp
    obtain ⟨x, hx, part, hpart, hp⟩ := (hparts p).1 ((hmem p).1 hp).1
    exact hsub x hx part hpart p hp
  have hcomplete : ∀ p ∈ looked, IsOfKind w kind p → p ∈ found :=
    fun p hp hkind => (hmem p).2 ⟨(hparts p).2 (hsup p hp hkind.extension), hkind.declared⟩
  refine ⟨(pairwise_of_collect hall).sublist hsublist, fun p hp => ?_,
    ⟨looked, hlooked, hsound, hcomplete⟩, fun hcovered written hwritten => ?_⟩
  · obtain ⟨hp, hdeclared⟩ := (hmem p).1 hp
    obtain ⟨x, hx, part, hpart, hp⟩ := (hparts p).1 hp
    obtain ⟨hends, names, hne, hbelow⟩ := hderives.exists_names hw ht hx hpart hp
    exact ⟨hasFile_of_declares hdeclared, hdeclared, hends,
      fun hm => (hasYamlExtension_iff_of_isHit hw hbelow (hne hm)).2 hends, hbelow.kept, names,
      hbelow.areNames, hbelow.path, hbelow.visible⟩
  · have hsame (p : Path) : p ∈ looked ↔ p ∈ written := mem_looked_iff hcovered hlooked hwritten
    exact ⟨fun p hp => (hsame p).1 (hsound p hp), fun p hp => hcomplete p ((hsame p).2 hp)⟩

/-- A project with a preflight in a directory, one in a hidden directory and a file of another
kind. -/
def nestedProject : Workspace where
  tree := ⟨[(["m"], .directory), (["m", "a"], .directory),
    (["m", "a", "p.yaml"], .file "kind: Preflight\n".toUTF8 false),
    (["m", ".b"], .directory), (["m", ".b", "q.yml"], .file "kind: Preflight\n".toUTF8 false),
    (["m", "s.yml"], .file "kind: SupportBundle\n".toUTF8 false)]⟩
  directory := ⟨"/m"⟩

theorem ofKind_nestedProject : ∃ found, ofKind nestedProject none .preflight "**" = .ok found ∧
    found = [⟨"/m/a/p.yaml"⟩] ∧ found.Pairwise (fun p q => p.same q = false) ∧
    (∀ p ∈ found, IsMatch nestedProject ⟨true, none⟩ .preflight "**" p) ∧
    isCovered (Path.mk "**").clean = true ∧
    ∀ written, files nestedProject none "**" "**" = .ok written →
      (∀ p ∈ found, p ∈ written) ∧
        ∀ p ∈ written, IsOfKind nestedProject .preflight p → p ∈ found := by
  have hfound : ofKind nestedProject none .preflight "**" = .ok [⟨"/m/a/p.yaml"⟩] :=
    toOption_eq_some_iff.1 (by decide +kernel)
  have hcovered : isCovered (Path.mk "**").clean = true := by decide +kernel
  obtain ⟨hdistinct, hmatch, -, hall⟩ := ofKind_of_pattern
    (show nestedProject.directory.isAbsolute = true by decide)
    (show nestedProject.tree.IsSound by decide +kernel) (by decide) hfound
  exact ⟨_, hfound, rfl, hdistinct, hmatch, hcovered, hall hcovered⟩

/-- A directory with a preflight, and one whose name is only the ending. -/
def bareProject : Workspace where
  tree := ⟨[(["m"], .directory), (["m", "a.yaml"], .file "kind: Preflight\n".toUTF8 false),
    (["m", ".yaml"], .file "kind: Preflight\n".toUTF8 false)]⟩
  directory := ⟨"/m"⟩

/-- **Braces lose what they match,** and a pattern that cleaning leaves without wildcards stands
for a file without an extension. -/
theorem ofKind_bareProject :
    (files bareProject none "*.\x7byaml,yml\x7d" "*.\x7byaml,yml\x7d" = .ok [⟨"/m/a.yaml"⟩] ∧
      hasYamlExtension ⟨"/m/a.yaml"⟩ = true ∧
      declares bareProject .preflight ⟨"/m/a.yaml"⟩ = .ok true ∧
      ofKind bareProject none .preflight "*.\x7byaml,yml\x7d" = .ok []) ∧
    ofKind bareProject none .preflight "*/../.yaml" = .ok [⟨"/m/.yaml"⟩] ∧
      hasYamlExtension ⟨"/m/.yaml"⟩ = false :=
  ⟨⟨toOption_eq_some_iff.1 (by decide +kernel), by decide +kernel,
    toOption_eq_some_iff.1 (by decide +kernel), toOption_eq_some_iff.1 (by decide +kernel)⟩,
    toOption_eq_some_iff.1 (by decide +kernel), by decide +kernel⟩

end Resource
end ReleaseLint
