/-
# One place for each binary

    v…v version  →  version  →  root / tool / version / os-arch / binary

A specification that names a version comes to that version without a request, and the version
comes to itself (`version_idem`).  For supported platforms

| two requests differ in | path of the binary | URLs |
| --- | --- | --- |
| letters `v` in front | the same | the same |
| version, pre-release and build included | another | others |
| tool or platform | another | |

so that the path of a binary stands for its tool, its version and its platform
(`binaryPath_eq_iff`).  Two spellings of one version are resolved alike (`runOn_resolve_eq`).
-/

import ReleaseLint.Proofs.Cache.Resolution

namespace ReleaseLint

namespace Version

variable {s s' : String}

/-- Whether a text is an accepted specification that names a version. -/
def IsPinned (s : String) : Prop :=
  isSpec s = true ∧ s ≠ latest

instance (s : String) : Decidable (IsPinned s) :=
  inferInstanceAs (Decidable (_ ∧ _))

namespace IsPinned

theorem isSemantic (h : IsPinned s) : IsSemantic (Text.dropLeadingV s) := by
  have hspec := h.1
  unfold isSpec at hspec
  rw [Bool.or_eq_true, beq_iff_eq] at hspec
  exact hspec.resolve_left h.2

theorem trim (h : IsPinned s) : Text.trim s = s :=
  trim_of_isSpec h.1

theorem not_asksForLatest (h : IsPinned s) : ¬AsksForLatest s := by
  rintro (hempty | hlatest)
  · rw [h.trim] at hempty
    have hsemantic := h.isSemantic
    rw [hempty] at hsemantic
    exact absurd hsemantic (by unfold IsSemantic; decide)
  · exact h.2 (h.trim ▸ hlatest)

/-- A version has no letters `v` in front that could be dropped once more. -/
theorem dropLeadingV_idem (h : IsPinned s) :
    Text.dropLeadingV (Text.dropLeadingV s) = Text.dropLeadingV s := by
  have hnone : (Text.dropLeadingV s).toList =
      List.replicate 0 'v' ++ (Text.dropLeadingV s).toList := rfl
  exact dropLeadingV_of_semantic h.isSemantic hnone

/-- **The version that a specification names is such a specification itself.** -/
theorem dropLeadingV (h : IsPinned s) : IsPinned (Text.dropLeadingV s) := by
  constructor
  · unfold isSpec read?
    rw [h.dropLeadingV_idem, Bool.or_eq_true]
    exact .inr h.isSemantic
  · intro hlatest
    have hsemantic := h.isSemantic
    rw [hlatest] at hsemantic
    exact absurd hsemantic (by unfold IsSemantic; decide)

end IsPinned
end Version

namespace Tool

open Session
open Version (IsPinned)
open Segment (IsName)

variable {s s' : String} {t u : Tool} {p q : Platform}

/-! ### The version -/

/-- **A version that is named is not looked up.** -/
theorem runOn_version_of_isPinned (h : IsPinned s) (r : Resolver) (t : Tool) (m : Machine) :
    (r.version t s).runOn m = (.ok (Text.dropLeadingV s), m) := by
  rw [runOn_version_pinned h.not_asksForLatest, h.trim]

/-- **Looking up a version twice is looking it up once,** for whatever tools. -/
theorem version_idem (h : IsPinned s) (r r' : Resolver) (t u : Tool) (m : Machine) :
    (r.version t s >>= r'.version u).runOn m = (r.version t s).runOn m := by
  rw [runOn_bind, runOn_version_of_isPinned h]
  dsimp only
  rw [runOn_version_of_isPinned h.dropLeadingV, h.dropLeadingV_idem]

/-- **Specifications of one version are resolved alike,** in whatever state the machine is. -/
theorem runOn_resolve_eq (h : IsPinned s) (h' : IsPinned s')
    (hversion : Text.dropLeadingV s = Text.dropLeadingV s') (r : Resolver) (t : Tool) (m : Machine) :
    (r.resolve t s).runOn m = (r.resolve t s').runOn m := by
  unfold Resolver.resolve
  rw [runOn_bind, runOn_bind, runOn_version_of_isPinned h, runOn_version_of_isPinned h', hversion]

/-! ### The path -/

namespace Cache

theorem same_binaryPath_iff {v v' : String} (hv : IsName v) (hv' : IsName v')
    (hp : p.isSupported = true) (hq : q.isSupported = true) (root : Path) :
    (binaryPath root t v p).same (binaryPath root u v' q) = true ↔ t = u ∧ v = v' ∧ p = q := by
  unfold Path.same
  rw [beq_iff_eq, binaryPath_eq, binaryPath_eq,
    Path.segments_along (isStep_of_mem_key hv (Platform.isPlain_of_isSupported hp)),
    Path.segments_along (isStep_of_mem_key hv' (Platform.isPlain_of_isSupported hq)),
    List.append_cancel_left_eq]
  constructor
  · intro h
    exact key_injective hq (List.map_injective_iff.2 (fun _ _ => Segment.name.inj) h)
  · rintro ⟨rfl, rfl, rfl⟩
    rfl

/-- **A tool, a version and a supported platform are read back from the path of a binary.** -/
theorem binaryPath_eq_iff {v v' : String} (hv : IsName v) (hv' : IsName v')
    (hp : p.isSupported = true) (hq : q.isSupported = true) (root : Path) :
    binaryPath root t v p = binaryPath root u v' q ↔ t = u ∧ v = v' ∧ p = q := by
  constructor
  · intro h
    rw [← same_binaryPath_iff hv hv' hp hq root, h]
    exact beq_self_eq_true _
  · rintro ⟨rfl, rfl, rfl⟩
    rfl

end Cache

/-! ### The addresses -/

/-- Whether releases of a tool are published. -/
def IsPublished : Tool → Prop
  | helm | preflight | supportBundle => True
  | embeddedCluster | kots => False

namespace Release

variable {v v' : String}

/-- A version that is written twice is read back from the text around it. -/
theorem twice_inj {a b c d : String} :
    a ++ v ++ b ++ c ++ v ++ d = a ++ v' ++ b ++ c ++ v' ++ d ↔ v = v' := by
  constructor
  · intro h
    have hchars := congrArg String.toList h
    simp only [String.toList_append, List.append_assoc, List.append_cancel_left_eq] at hchars
    -- without it the first version could reach into what follows
    have hlength : v.toList.length = v'.toList.length := by
      have := congrArg List.length hchars
      simp only [List.length_append] at this
      omega
    exact String.toList_inj.1 (List.append_inj hchars hlength).1
  · rintro rfl
    rfl

/-- The addresses of two releases of `helm` for one platform. -/
theorem ofHelm_urls (v v' : String) (p : Platform) (site : String) :
    ((ofHelm v p site).archiveUrl = (ofHelm v' p site).archiveUrl ↔ v = v') ∧
      ((ofHelm v p site).checksum.url = (ofHelm v' p site).checksum.url ↔ v = v') := by
  have harchive : (ofHelm v p site).archiveUrl = (ofHelm v' p site).archiveUrl ↔ v = v' := by
    simp only [ofHelm, String.append_right_inj, String.append_left_inj]
    exact Iff.rfl
  refine ⟨harchive, ?_⟩
  rw [← harchive]
  exact String.append_left_inj _

/-- The addresses of two releases of a troubleshoot tool for one platform. -/
theorem ofTroubleshoot_urls (t : Tool) (v v' : String) (p : Platform) (site : String) :
    ((ofTroubleshoot t v p site).archiveUrl = (ofTroubleshoot t v' p site).archiveUrl ↔ v = v') ∧
      ((ofTroubleshoot t v p site).checksum.url = (ofTroubleshoot t v' p site).checksum.url ↔
        v = v') := by
  constructor
  · simp only [ofTroubleshoot, String.append_right_inj, String.append_left_inj]
    exact Iff.rfl
  · exact twice_inj

/-- **Two versions of a published tool have different addresses,** and a version has the same ones
however it is spelled. -/
theorem find_urls (ht : t.IsPublished) (s s' : String) (p : Platform) (sites : Sites) :
    ∃ release release', find t s p sites = .ok release ∧ find t s' p sites = .ok release' ∧
      (release.archiveUrl = release'.archiveUrl ↔ Text.dropLeadingV s = Text.dropLeadingV s') ∧
      (release.checksum.url = release'.checksum.url ↔
        Text.dropLeadingV s = Text.dropLeadingV s') := by
  cases t with
  | helm => exact ⟨_, _, rfl, rfl, ofHelm_urls ..⟩
  | preflight => exact ⟨_, _, rfl, rfl, ofTroubleshoot_urls ..⟩
  | supportBundle => exact ⟨_, _, rfl, rfl, ofTroubleshoot_urls ..⟩
  | embeddedCluster => exact ht.elim
  | kots => exact ht.elim

end Release

/-! ### All together -/

/-- **The path of a binary is canonical.**  A specification that names a version comes to it
without a request, and the version to itself; two binaries share a path if and only if tool,
version and platform are the same; and the addresses of a release depend on the version alone. -/
theorem cache_key_is_canonical (h : IsPinned s) (h' : IsPinned s') (hp : p.isSupported = true)
    (hq : q.isSupported = true) :
    (∀ (r : Resolver) (t : Tool) (m : Machine),
      (r.version t s).runOn m = (.ok (Text.dropLeadingV s), m) ∧
      (r.version t s >>= r.version t).runOn m = (r.version t s).runOn m) ∧
    (∀ (root : Path) (t u : Tool),
      let path := Cache.binaryPath root t (Text.dropLeadingV s) p
      let path' := Cache.binaryPath root u (Text.dropLeadingV s') q
      (path = path' ↔ t = u ∧ Text.dropLeadingV s = Text.dropLeadingV s' ∧ p = q) ∧
      (path.same path' = true ↔ t = u ∧ Text.dropLeadingV s = Text.dropLeadingV s' ∧ p = q)) ∧
    ∀ (t : Tool) (sites : Sites), t.IsPublished →
      ∃ release release', Release.find t s p sites = .ok release ∧
        Release.find t s' p sites = .ok release' ∧
        (release.archiveUrl = release'.archiveUrl ↔
          Text.dropLeadingV s = Text.dropLeadingV s') ∧
        (release.checksum.url = release'.checksum.url ↔
          Text.dropLeadingV s = Text.dropLeadingV s') := by
  have hname := Version.isName_of_semantic h.isSemantic
  have hname' := Version.isName_of_semantic h'.isSemantic
  refine ⟨fun r t m => ⟨runOn_version_of_isPinned h r t m, version_idem h r r t t m⟩,
    fun root t u => ?_, fun t sites ht => Release.find_urls ht s s' p sites⟩
  exact ⟨Cache.binaryPath_eq_iff hname hname' hp hq root,
    Cache.same_binaryPath_iff hname hname' hp hq root⟩

/-- Letters `v` do not tell binaries apart, a pre-release does. -/
theorem cache_key_of_spellings :
    IsPinned "vv3.14.4-rc.1" ∧ IsPinned "3.14.4-rc.1" ∧ IsPinned "v3.14.4" ∧
    Cache.binaryPath ⟨"/cache"⟩ .helm (Text.dropLeadingV "vv3.14.4-rc.1") ⟨"linux", "amd64"⟩ =
      Cache.binaryPath ⟨"/cache"⟩ .helm (Text.dropLeadingV "3.14.4-rc.1") ⟨"linux", "amd64"⟩ ∧
    Cache.binaryPath ⟨"/cache"⟩ .helm (Text.dropLeadingV "vv3.14.4-rc.1") ⟨"linux", "amd64"⟩ ≠
      Cache.binaryPath ⟨"/cache"⟩ .helm (Text.dropLeadingV "v3.14.4") ⟨"linux", "amd64"⟩ := by
  have hrc : IsPinned "vv3.14.4-rc.1" := by decide +kernel
  have hbare : IsPinned "3.14.4-rc.1" := by decide +kernel
  have hrelease : IsPinned "v3.14.4" := by decide +kernel
  refine ⟨hrc, hbare, hrelease, ?_, ?_⟩
  · exact ((cache_key_is_canonical hrc hbare (by decide) (by decide)).2.1 _ _ _).1.2
      ⟨rfl, by decide +kernel, rfl⟩
  · intro hpath
    obtain ⟨-, hversion, -⟩ :=
      ((cache_key_is_canonical hrc hrelease (by decide) (by decide)).2.1 _ _ _).1.1 hpath
    exact absurd hversion (by decide +kernel)

end Tool
end ReleaseLint
