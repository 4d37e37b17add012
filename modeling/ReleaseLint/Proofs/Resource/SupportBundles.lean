/-
# Support bundles among the manifests

The manifest patterns of a config stand for files, and the support bundle specs are looked for
with the same patterns.  An explicit path has to be such a spec, whereas of what a pattern
stands for everything else is passed over.

| manifest pattern | is an error | finds |
| --- | --- | --- |
| explicit | unless it is a support bundle | itself, also if it is ignored |
| `….yaml`, `….yml`, `…/*`, `…/**` | never | the bundles among the files that it stands for |
| other with `**` at the end or with braces | never | those directly below what it stands for |
| any other | always | |

`supportBundles_of_manifestFiles` says so of all patterns of a config together.
-/

import ReleaseLint.Proofs.Config.Paths
import ReleaseLint.Proofs.Resource.Discovery

namespace ReleaseLint
namespace Resource

open Glob (star isPattern IsNamed)
open Path (ofNames)

variable {v w : Workspace} {checker : Option Ignore.Checker} {c : Config} {m : String}
variable {p start : Path} {found manifests : List Path}

/-- Whether the support bundles can be looked for with a manifest pattern. -/
def IsAccepted (w : Workspace) (m : String) : Prop :=
  if isPattern m then isSearchable m = true else IsOfKind w .supportBundle ⟨m⟩

/-- Whether a manifest pattern leads to a path. -/
def IsReached (w : Workspace) (checker : Option Ignore.Checker) (m : String) (p : Path) : Prop :=
  if isPattern m then ∃ looked, files w checker m (searched m) = .ok looked ∧ p ∈ looked
  else p = ⟨m⟩

/-- Whether a pattern ends like a YAML file, or with a star or two in a segment of its own. -/
def isPlainSearch (m : String) : Bool :=
  Text.endsWith m ".yaml" || Text.endsWith m ".yml" || Text.endsWith m "/*" ||
    Text.endsWith m "/**"

/-- Whether a configured path is dropped because it is ignored. -/
def isDropped (w : Workspace) (checker : Option Ignore.Checker) (m : String) : Bool :=
  Glob.Filter.ignores ⟨true, checkerFor checker m⟩ w ⟨m⟩

theorem ofKind_explicit {kind : Kind} (hm : (Path.mk m).IsRooted) (hpattern : isPattern m = false) :
    ofKind w checker kind m = explicitOfKind w kind m := by
  unfold ofKind
  rw [if_neg (by simp [allBlank_of_isRooted hm]), if_pos (by simp [hpattern])]

theorem exists_ofKind_iff (ht : IsNamed w.tree) (hm : (Path.mk m).IsRooted)
    (hfiles : files w checker m m = .ok found) :
    (∃ part, ofKind w checker .supportBundle m = .ok part) ↔ IsAccepted w m := by
  unfold IsAccepted
  cases hpattern : isPattern m with
  | false =>
    rw [ofKind_explicit hm hpattern, if_neg (by decide)]
    simp only [explicitOfKind_eq_ok hm]
    exact ⟨fun ⟨_, h, _⟩ => h, fun h => ⟨_, h, rfl⟩⟩
  | true =>
    rw [if_pos rfl]
    cases hs : isSearchable m with
    | false =>
      rw [ofKind_openPattern hm hpattern hs]
      refine iff_of_false ?_ Bool.false_ne_true
      rintro ⟨part, hpart⟩
      cases hpart
    | true =>
      obtain ⟨looked, part, -, hpart, -⟩ := ofKind_pattern .supportBundle ht hm hpattern hs hfiles
      exact iff_of_true ⟨part, hpart⟩ rfl

theorem isRooted_of_isReached (ht : IsNamed w.tree) (hm : (Path.mk m).IsRooted)
    (h : IsReached w checker m p) : p.IsRooted := by
  unfold IsReached at h
  split at h
  · rename_i hpattern
    obtain ⟨looked, hlooked, hp⟩ := h
    obtain ⟨names, hnames, heq⟩ := isRooted_searched hm hpattern
    unfold files at hlooked
    rw [show searched m = (ofNames names).text from congrArg Path.text heq] at hlooked
    exact Glob.isRooted_of_mem_expand ht hnames hlooked hp
  · exact h ▸ hm

theorem mem_ofKind_iff (ht : IsNamed w.tree) (hm : (Path.mk m).IsRooted)
    (hfiles : files w checker m m = .ok manifests)
    (hfound : ofKind w checker .supportBundle m = .ok found) :
    p ∈ found ↔ IsOfKind w .supportBundle p ∧ IsReached w checker m p := by
  have haccepted := (exists_ofKind_iff ht hm hfiles).1 ⟨found, hfound⟩
  unfold IsAccepted at haccepted
  unfold IsReached
  cases hpattern : isPattern m with
  | false =>
    rw [ofKind_explicit hm hpattern, explicitOfKind_eq_ok hm] at hfound
    obtain ⟨hkind, rfl⟩ := hfound
    rw [List.mem_singleton, if_neg (by decide)]
    exact ⟨fun h => ⟨h ▸ hkind, h⟩, fun h => h.2⟩
  | true =>
    rw [hpattern, if_pos rfl] at haccepted
    obtain ⟨looked, part, hlooked, hpart, hmem⟩ :=
      ofKind_pattern .supportBundle ht hm hpattern haccepted hfiles
    cases hfound.symm.trans hpart
    rw [hmem, if_pos rfl, hlooked]
    simp

/-! ### Patterns with plain endings -/

/-- An explicit file is among the manifests unless it is dropped. -/
theorem mem_files_explicit (hm : (Path.mk m).IsRooted) (hpattern : isPattern m = false)
    (hfiles : files w checker m m = .ok manifests) (hfile : w.hasFile ⟨m⟩ = true) :
    p ∈ manifests ↔ p = ⟨m⟩ ∧ isDropped w checker m = false := by
  obtain ⟨names, hnames, heq⟩ := hm
  obtain rfl : m = (ofNames names).text := congrArg Path.text heq
  obtain ⟨-, rfl⟩ :=
    (Glob.expand_explicit hnames ((Glob.tailOf_eq_nil_iff hnames).2 hpattern)).1 hfiles
  have hhas : w.has (ofNames names) = true := (has_of_hasFile hfile).1
  have hhasFile : w.hasFile (ofNames names) = true := hfile
  rw [hhas, hhasFile]
  unfold isDropped
  cases Glob.Filter.ignores ⟨true, checkerFor checker (ofNames names).text⟩ w (ofNames names) with
  | true => exact iff_of_false List.not_mem_nil fun h => by cases h.2
  | false => exact ⟨fun h => ⟨List.mem_singleton.1 h, rfl⟩, fun h => List.mem_singleton.2 h.1⟩

/-- What is looked through for a pattern with a plain ending is what it stands for. -/
theorem mem_searched_iff (hm : (Path.mk m).IsRooted) (hplain : isPlainSearch m = true)
    (hfiles : files w checker m m = .ok manifests)
    (hlooked : files w checker m (searched m) = .ok found) : p ∈ found ↔ p ∈ manifests := by
  unfold searched at hlooked
  split at hlooked
  · cases hlooked.symm.trans hfiles
    exact Iff.rfl
  · rename_i hend
    rw [Bool.not_eq_true] at hend
    unfold isPlainSearch at hplain
    rw [hend, Bool.false_or] at hplain
    obtain ⟨names, hnames, heq⟩ := hm
    obtain rfl : m = (ofNames names).text := congrArg Path.text heq
    rcases List.eq_nil_or_concat names with rfl | ⟨stem, s, rfl⟩
    · exact absurd hplain (by decide)
    · rw [List.concat_eq_append] at hnames hplain hfiles hlooked
      unfold Text.endsWith at hplain
      have hs : ['*', '*'] = s.toList :=
        (Path.slash_suffix_text_iff hnames (by decide)).1 (List.isSuffixOf_iff_suffix.1 hplain)
      obtain rfl : "**" = s := String.toList_inj.1 hs
      refine Glob.expand_stars hnames hfiles ?_
      rw [text_star hnames Glob.isEnding_nil, ← text_eq hnames (List.concat_ne_nil _ _)]
      exact hlooked

/-- What a manifest pattern with a plain ending leads to. -/
theorem isReached_iff (ht : IsNamed w.tree) (hm : (Path.mk m).IsRooted)
    (hplain : isPattern m = true → isPlainSearch m = true)
    (hfiles : files w checker m m = .ok manifests) (haccepted : IsAccepted w m) :
    IsReached w checker m p ↔
      p ∈ manifests ∨ isPattern m = false ∧ p = ⟨m⟩ ∧ isDropped w checker m = true := by
  unfold IsAccepted at haccepted
  unfold IsReached
  cases hpattern : isPattern m with
  | false =>
    rw [hpattern, if_neg (by decide)] at haccepted
    rw [if_neg (by decide),
      mem_files_explicit hm hpattern hfiles (hasFile_of_declares haccepted.declared)]
    cases isDropped w checker m with
    | true => simp
    | false => simp
  | true =>
    rw [hpattern, if_pos rfl] at haccepted
    obtain ⟨looked, -, hlooked, -⟩ :=
      ofKind_pattern .supportBundle ht hm hpattern haccepted hfiles
    rw [if_pos rfl, hlooked]
    simp [mem_searched_iff hm (hplain hpattern) hfiles hlooked]

/-! ### All patterns together -/

/-- **The support bundles among the manifests.**  Where the manifests are found, so are the
support bundles unless an explicit path is none or a pattern ends otherwise.  They are found
once, and with plain endings they are the bundles among the manifests, and the explicit ones
that are ignored. -/
theorem supportBundles_of_manifestFiles (hv : v.directory.isAbsolute = true)
    (hc : Config.resolve v start = .ok c) (ht : IsNamed w.tree)
    (hfiles : manifestFiles w checker c.manifests = .ok manifests) :
    ((∃ found, supportBundles w checker c.manifests = .ok found) ↔
      ∀ m ∈ c.manifests, IsAccepted w m) ∧
    ∀ found, supportBundles w checker c.manifests = .ok found →
      (found.Pairwise fun p q => p.same q = false) ∧
      (∀ p, p ∈ found ↔ IsOfKind w .supportBundle p ∧
        ∃ m ∈ c.manifests, IsReached w checker m p) ∧
      ((∀ m ∈ c.manifests, isPattern m = true → isPlainSearch m = true) →
        ∀ p, p ∈ found ↔ IsOfKind w .supportBundle p ∧
          (p ∈ manifests ∨ ∃ m ∈ c.manifests, isPattern m = false ∧ p = ⟨m⟩ ∧
            isDropped w checker m = true)) := by
  have hrooted : ∀ m ∈ c.manifests, (Path.mk m).IsRooted :=
    fun m hm => (Config.isRooted_of_mem_manifests hv hc hm).1
  have hfiles' : ∀ m ∈ c.manifests, ∃ part, files w checker m m = .ok part :=
    exists_collect_iff.1 ⟨manifests, hfiles⟩
  have hmanifests : ∀ p, p ∈ manifests ↔
      ∃ m ∈ c.manifests, ∃ part, files w checker m m = .ok part ∧ p ∈ part := by
    intro p
    refine mem_of_collect hfiles fun m hm part hpart p hp => ?_
    obtain ⟨names, hnames, heq⟩ := hrooted m hm
    obtain rfl : m = (ofNames names).text := congrArg Path.text heq
    exact Glob.isRooted_of_mem_expand ht hnames hpart hp
  have hsome : (∃ found, supportBundles w checker c.manifests = .ok found) ↔
      ∀ m ∈ c.manifests, IsAccepted w m := by
    unfold supportBundles
    rw [exists_collect_iff]
    refine forall₂_congr fun m hm => ?_
    obtain ⟨part, hpart⟩ := hfiles' m hm
    exact exists_ofKind_iff ht (hrooted m hm) hpart
  refine ⟨hsome, fun found hfound => ?_⟩
  have haccepted := hsome.1 ⟨found, hfound⟩
  have hmem : ∀ p, p ∈ found ↔ IsOfKind w .supportBundle p ∧
      ∃ m ∈ c.manifests, IsReached w checker m p := by
    intro p
    have hiff : ∀ m ∈ c.manifests, ∀ part, ofKind w checker .supportBundle m = .ok part →
        ∀ p, p ∈ part ↔ IsOfKind w .supportBundle p ∧ IsReached w checker m p := by
      intro m hm part hpart p
      obtain ⟨all, hall⟩ := hfiles' m hm
      exact mem_ofKind_iff ht (hrooted m hm) hall hpart
    have hparts : ∀ m ∈ c.manifests, ∀ part, ofKind w checker .supportBundle m = .ok part →
        ∀ p ∈ part, p.IsRooted := fun m hm part hpart p hp =>
      isRooted_of_isReached ht (hrooted m hm) ((hiff m hm part hpart p).1 hp).2
    rw [mem_of_collect hfound hparts]
    constructor
    · rintro ⟨m, hm, part, hpart, hp⟩
      obtain ⟨hkind, hreached⟩ := (hiff m hm part hpart p).1 hp
      exact ⟨hkind, m, hm, hreached⟩
    · rintro ⟨hkind, m, hm, hreached⟩
      obtain ⟨part, hpart⟩ := exists_collect_iff.1 ⟨found, hfound⟩ m hm
      exact ⟨m, hm, part, hpart, (hiff m hm part hpart p).2 ⟨hkind, hreached⟩⟩
  refine ⟨pairwise_of_collect hfound, hmem, fun hplain p => ?_⟩
  rw [hmem, hmanifests]
  refine and_congr_right fun hkind => ?_
  constructor
  · rintro ⟨m, hm, hreached⟩
    obtain ⟨part, hpart⟩ := hfiles' m hm
    rcases (isReached_iff ht (hrooted m hm) (hplain m hm) hpart (haccepted m hm)).1 hreached with
      hp | hp
    · exact .inl ⟨m, hm, part, hpart, hp⟩
    · exact .inr ⟨m, hm, hp⟩
  · rintro (⟨m, hm, part, hpart, hp⟩ | ⟨m, hm, hp⟩)
    · exact ⟨m, hm, (isReached_iff ht (hrooted m hm) (hplain m hm) hpart (haccepted m hm)).2
        (.inl hp)⟩
    · obtain ⟨part, hpart⟩ := hfiles' m hm
      exact ⟨m, hm, (isReached_iff ht (hrooted m hm) (hplain m hm) hpart (haccepted m hm)).2
        (.inr hp)⟩

/-- A project in the directory `/p` with this config and these files beside it. -/
def project (config : String) (files : List (String × String)) : Workspace where
  tree := ⟨(["p"], .directory) :: (["p", ".replicated"], .file config.toUTF8 false) ::
    files.map fun e => (["p", e.1], .file e.2.toUTF8 false)⟩
  directory := ⟨"/p"⟩

/-- A bundle beside the config, which names it and every YAML file. -/
def bundleProject : Workspace :=
  project "manifests:\n- '*.yaml'\n- sb.yaml\n"
    [("app.yaml", "kind: Deployment\n"), ("sb.yaml", "kind: SupportBundle\n")]

/-- A manifest of another kind, which the config names. -/
def deploymentProject : Workspace :=
  project "manifests:\n- app.yaml\n" [("app.yaml", "kind: Deployment\n")]

theorem isNamed_bundleProject : IsNamed bundleProject.tree := by
  have hnames : ∀ e ∈ bundleProject.tree.entries, ∀ s ∈ e.1,
      '/' ∉ s.toList ∧ s ≠ "" ∧ s ≠ "." ∧ s ≠ ".." := by decide
  exact fun e he s hs => Segment.isName_iff.2 (hnames e he s hs)

theorem supportBundles_of_bundleProject :
    ∃ c manifests found, Config.resolve bundleProject ⟨"."⟩ = .ok c ∧
      c.manifests = ["/p/*.yaml", "/p/sb.yaml"] ∧
      manifestFiles bundleProject none c.manifests = .ok manifests ∧
      supportBundles bundleProject none c.manifests = .ok found ∧
      ∀ p, p ∈ found ↔ IsOfKind bundleProject .supportBundle p ∧ p ∈ manifests := by
  obtain ⟨c, hc, hpatterns⟩ := Config.exists_resolve_iff.1
    (show Config.writes bundleProject ⟨"."⟩ ["/p/*.yaml", "/p/sb.yaml"] = true by decide +kernel)
  obtain ⟨manifests, hfiles⟩ : ∃ manifests,
      manifestFiles bundleProject none c.manifests = .ok manifests := by
    have hsome : (manifestFiles bundleProject none ["/p/*.yaml", "/p/sb.yaml"]).toOption.isSome =
        true := by decide +kernel
    obtain ⟨manifests, hmanifests⟩ := Option.isSome_iff_exists.1 hsome
    exact ⟨manifests, hpatterns ▸ toOption_eq_some_iff.1 hmanifests⟩
  obtain ⟨hsome, hfound⟩ := supportBundles_of_manifestFiles
    (show bundleProject.directory.isAbsolute = true by decide) hc isNamed_bundleProject hfiles
  have haccepted : ∀ m ∈ c.manifests, IsAccepted bundleProject m := by
    rw [hpatterns]
    intro m hm
    rcases List.mem_pair.1 hm with rfl | rfl
    · exact show isSearchable "/p/*.yaml" = true by decide
    · exact show IsOfKind bundleProject .supportBundle ⟨"/p/sb.yaml"⟩ from
        ⟨by decide, toOption_eq_some_iff.1 (by decide +kernel)⟩
  obtain ⟨found, hbundles⟩ := hsome.2 haccepted
  refine ⟨c, manifests, found, hc, hpatterns, hfiles, hbundles, fun p => ?_⟩
  obtain ⟨-, -, hplain⟩ := hfound found hbundles
  rw [hplain (by rw [hpatterns]; decide) p]
  constructor
  · rintro ⟨hp, hmem | ⟨m, -, -, -, hdropped⟩⟩
    · exact ⟨hp, hmem⟩
    · cases hdropped
  · exact fun h => ⟨h.1, .inl h.2⟩

theorem not_supportBundles_of_deploymentProject :
    ∃ c, Config.resolve deploymentProject ⟨"."⟩ = .ok c ∧
      manifestFiles deploymentProject none c.manifests = .ok [⟨"/p/app.yaml"⟩] ∧
      ∀ found, supportBundles deploymentProject none c.manifests ≠ .ok found := by
  obtain ⟨c, hc, hpatterns⟩ := Config.exists_resolve_iff.1
    (show Config.writes deploymentProject ⟨"."⟩ ["/p/app.yaml"] = true by decide +kernel)
  refine ⟨c, hc, hpatterns ▸ toOption_eq_some_iff.1 (by decide +kernel), fun found hfound => ?_⟩
  have hnone : (supportBundles deploymentProject none ["/p/app.yaml"]).toOption = none := by
    decide +kernel
  rw [hpatterns, ← toOption_eq_some_iff, hnone] at hfound
  cases hfound

end Resource
end ReleaseLint
