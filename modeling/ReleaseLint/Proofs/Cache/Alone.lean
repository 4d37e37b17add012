/-
# A resolver that others have used

A resolver that is asked for a tool, after others have been asked for, comes to what it would have
come to at the start (`IsBehind`), as long as servers answer whatever has been asked before.

| what others leave behind | what it changes for the tool |
| --- | --- |
| the document of recommended versions | nothing: the tool would bring the same one |
| requests | nothing: the answers to its own are the same |
| binaries in the cache | nothing, if its version is one name |

So two resolves of one specification come to the same outcome, and to the same binary behind its
path (`IsBehind.resolve_congr`).
-/

import ReleaseLint.Proofs.Cache.Resolution
import ReleaseLint.Proofs.Cache.Stock
import ReleaseLint.Proofs.Except

namespace ReleaseLint

/-- Whether servers and programs do the same whatever has been asked of them before. -/
structure World.IsStateless (world : World) : Prop where
  reply : ∀ number number' url, world.reply number url = world.reply number' url
  run : ∀ number number' program arguments,
    world.run number program arguments = world.run number' program arguments

namespace Tool

open Session
open Cache (Place)
open Segment (IsName)

variable {r : Resolver} {c : Place} {t u : Tool} {spec v : String} {start m n m' : Machine}

/-! ### Answers -/

theorem world_eq_of_fetch {url : String} {x : Except Error ByteArray}
    (h : (fetch url).runOn m = (x, m')) : m'.world = m.world := by
  obtain ⟨log, result, -, heq⟩ := fetch_spec url m
  rw [h] at heq
  rw [(Prod.mk.inj heq).2]

theorem fetch_congr (hm : m.world.IsStateless) (hworld : n.world = m.world) (url : String) :
    ((fetch url).runOn n).1 = ((fetch url).runOn m).1 := by
  rw [runOn_fetch, runOn_fetch, hworld, hm.reply n.requests.length m.requests.length]
  split_ifs <;> rfl

/-- **A download does not depend on what has been asked before.** -/
theorem download_congr (hm : m.world.IsStateless) (hworld : n.world = m.world) (r : Resolver)
    (t : Tool) (v : String) :
    ((r.download t v).runOn n).1 = ((r.download t v).runOn m).1 := by
  have hleft := runOn_download ⟨r, t, v⟩ v n
  have hright := runOn_download ⟨r, t, v⟩ v m
  simp only at hleft hright
  rw [hleft, hright]
  cases Task.release ⟨r, t, v⟩ v with
  | error e => rfl
  | ok release =>
    have harchive := fetch_congr hm hworld release.archiveUrl
    rcases hn : (fetch release.archiveUrl).runOn n with ⟨x, n'⟩
    rcases hm' : (fetch release.archiveUrl).runOn m with ⟨y, m'⟩
    rw [hn, hm'] at harchive
    simp only at harchive
    subst harchive
    simp only [hn, hm']
    cases x with
    | error e => rfl
    | ok archive =>
      have hworld' : n'.world = m'.world := by
        rw [world_eq_of_fetch hn, world_eq_of_fetch hm', hworld]
      have hdigest := fetch_congr (world_eq_of_fetch hm' ▸ hm) hworld' release.checksum.url
      simp only [runOn_digest]
      rw [hdigest]
      generalize (((fetch release.checksum.url).runOn m').1.bind fun data =>
        release.digestIn (textOf data)) = digest
      cases digest <;> simp only

theorem recommended_of_none (hm : m.recommended = none) (r : Resolver) (t : Tool) :
    ((r.recommended t).runOn m).1 =
      Task.versionsIn ⟨r, t, ""⟩ ((fetch r.versionsUrl).runOn m).1 := by
  unfold Resolver.recommended
  simp only [runOn_bind, runOn_get, hm, runOn_lookUp r t ""]
  cases Task.versionsIn ⟨r, t, ""⟩ ((fetch r.versionsUrl).runOn m).1 <;> rfl

theorem recommended_of_some {versions : Recommended} (hm : m.recommended = some versions)
    (r : Resolver) (t : Tool) : (r.recommended t).runOn m = (.ok versions, m) := by
  unfold Resolver.recommended
  simp only [runOn_bind, runOn_get, hm]
  rfl

/-- Who looks up the versions does not matter, except for the error. -/
theorem recommended_eq_ok {versions : Recommended} (hm : m.recommended = none)
    (h : ((r.recommended t).runOn m).1 = .ok versions) (u : Tool) :
    ((r.recommended u).runOn m).1 = .ok versions := by
  rw [recommended_of_none hm] at h ⊢
  unfold Task.versionsIn at h ⊢
  cases hfetch : ((fetch r.versionsUrl).runOn m).1 with
  | error e =>
    rw [hfetch] at h
    cases e <;> cases h
  | ok data =>
    rw [hfetch] at h
    simp only at h ⊢
    cases hversions : Recommended.ofText (textOf data) with
    | error e =>
      rw [hversions] at h
      cases h
    | ok versions' =>
      rw [hversions] at h
      exact h

/-! ### Behind others -/

/-- Whether a machine is one on which other tools have been resolved and linted. -/
structure IsBehind (c : Place) (r : Resolver) (t : Tool) (start m : Machine) : Prop where
  world : m.world = start.world
  stocks : c.Stocks (· ≠ t) start.workspace m.workspace
  known : ∀ versions, m.recommended = some versions →
    ∀ u, ((r.recommended u).runOn start).1 = .ok versions

namespace IsBehind

theorem refl (hstart : start.recommended = none) (hsound : start.workspace.tree.IsSound) :
    IsBehind c r t start start :=
  ⟨rfl, .refl hsound, by simp [hstart]⟩

/-- What else a machine holds does not count. -/
theorem of_eq (h : IsBehind c r t start m) (hworld : m'.world = m.world)
    (hworkspace : m'.workspace = m.workspace) (hknown : m'.recommended = m.recommended) :
    IsBehind c r t start m' :=
  ⟨hworld.trans h.world, hworkspace ▸ h.stocks, hknown ▸ h.known⟩

/-- **The same versions are recommended.** -/
theorem recommended_eq (h : IsBehind c r t start m) (hstart : start.recommended = none)
    (hworld : start.world.IsStateless) (u : Tool) :
    ((r.recommended u).runOn m).1 = ((r.recommended u).runOn start).1 := by
  cases hm : m.recommended with
  | none => rw [recommended_of_none hm, recommended_of_none hstart, fetch_congr hworld h.world]
  | some versions => rw [recommended_of_some hm, h.known versions hm u]

theorem latest_eq (h : IsBehind c r t start m) (hstart : start.recommended = none)
    (hworld : start.world.IsStateless) (u : Tool) :
    ((r.latest u).runOn m).1 = ((r.latest u).runOn start).1 := by
  have heq := h.recommended_eq hstart hworld u
  rw [runOn_latest, runOn_latest]
  generalize (r.recommended u).runOn m = x at heq ⊢
  generalize (r.recommended u).runOn start = y at heq ⊢
  obtain ⟨x, m'⟩ := x
  obtain ⟨y, start'⟩ := y
  simp only at heq
  subst heq
  cases x <;> rfl

/-- **A specification comes to the same version.** -/
theorem version_eq (h : IsBehind c r t start m) (hstart : start.recommended = none)
    (hworld : start.world.IsStateless) (u : Tool) (spec : String) :
    ((r.version u spec).runOn m).1 = ((r.version u spec).runOn start).1 := by
  by_cases hlatest : Version.AsksForLatest spec
  · rw [runOn_version_latest hlatest, runOn_version_latest hlatest]
    exact h.latest_eq hstart hworld u
  · rw [runOn_version_pinned hlatest, runOn_version_pinned hlatest]

theorem after_latest (h : IsBehind c r t start m) (hstart : start.recommended = none)
    (hworld : start.world.IsStateless) (u : Tool) :
    IsBehind c r t start ((r.latest u).runOn m).2 := by
  obtain ⟨log, hconsults, hoption⟩ := consults_recommended r u m
  have hmachine : ((r.latest u).runOn m).2 = ((r.recommended u).runOn m).2 := by
    rw [runOn_latest]
    rcases (r.recommended u).runOn m with ⟨e | versions, m'⟩ <;> rfl
  rw [hmachine]
  refine ⟨hconsults.world_eq.trans h.world, hconsults.workspace_eq ▸ h.stocks,
    fun versions hversions => ?_⟩
  rw [hversions, toOption_eq_some_iff, h.recommended_eq hstart hworld] at hoption
  exact recommended_eq_ok hstart hoption

theorem after_version (h : IsBehind c r t start m) (hstart : start.recommended = none)
    (hworld : start.world.IsStateless) (u : Tool) (spec : String) :
    IsBehind c r t start ((r.version u spec).runOn m).2 := by
  by_cases hlatest : Version.AsksForLatest spec
  · rw [runOn_version_latest hlatest]
    exact h.after_latest hstart hworld u
  · rw [runOn_version_pinned hlatest]
    exact h

end IsBehind

/-! ### Binaries -/

/-- Embedded cluster binaries are not published. -/
theorem ne_embeddedCluster_of_download {binary : ByteArray}
    (h : (r.download t v).runOn m = (.ok binary, m')) : t ≠ .embeddedCluster := by
  rintro rfl
  have hrun := runOn_download ⟨r, .embeddedCluster, v⟩ v m
  have hrelease : ∃ e, Task.release ⟨r, .embeddedCluster, v⟩ v = .error e := by
    unfold Task.release
    cases r.platform.isSupported <;> exact ⟨_, rfl⟩
  obtain ⟨e, he⟩ := hrelease
  rw [h, he] at hrun
  cases (Prod.mk.inj hrun).1

/-- **A resolve stocks the cache for its tool,** whether it succeeds or not. -/
theorem Resolves.stocks {result : Except Error Path × Machine} (h : Resolves r t spec m result)
    (hc : c.Stands m.workspace r.cacheRoot) (hm : m.workspace.tree.IsSound)
    (hname : t ≠ .embeddedCluster →
      ∀ v m', (r.version t spec).runOn m = (.ok v, m') → IsName v) :
    c.Stocks (· = t) m.workspace result.2.workspace := by
  cases h with
  | unknown hversion | cached hversion =>
    rw [workspace_eq_of_version hversion]
    exact .refl hm
  | missed hversion _ hdownload =>
    rw [workspace_eq_of_download hdownload, workspace_eq_of_version hversion]
    exact .refl hm
  | fetched hversion _ hdownload hstores =>
    have hworkspace :=
      (workspace_eq_of_download hdownload).trans (workspace_eq_of_version hversion)
    have hplain := Platform.isPlain_of_isSupported (isSupported_of_download hdownload)
    rw [← hworkspace] at hc hm ⊢
    exact (hstores.cases hc hm
      (hname (ne_embeddedCluster_of_download hdownload) _ _ hversion) hplain).1

namespace IsBehind

/-- A resolve of any tool stocks the cache for it. -/
theorem stocks_resolve (h : IsBehind c r t start m) (hstart : start.recommended = none)
    (hworld : start.world.IsStateless) (hc : c.Stands start.workspace r.cacheRoot)
    (hname : u ≠ .embeddedCluster →
      ∀ v, ((r.version u spec).runOn start).1 = .ok v → IsName v) :
    c.Stocks (· = u) m.workspace ((r.resolve u spec).runOn m).2.workspace :=
  (resolve_spec r u spec m).stocks (hc.stocks h.stocks) h.stocks.sound fun hne v m' hversion =>
    hname hne v (by rw [← h.version_eq hstart hworld, hversion])

/-- **Other tools are resolved without any trace for this one.** -/
theorem after_resolve (h : IsBehind c r t start m) (hstart : start.recommended = none)
    (hworld : start.world.IsStateless) (hc : c.Stands start.workspace r.cacheRoot) (hu : u ≠ t)
    (hname : u ≠ .embeddedCluster →
      ∀ v, ((r.version u spec).runOn start).1 = .ok v → IsName v) :
    IsBehind c r t start ((r.resolve u spec).runOn m).2 := by
  obtain ⟨hknown, hworld'⟩ := (resolve_spec r u spec m).recommended_eq
  have hstocks := h.stocks_resolve hstart hworld hc hname
  refine ⟨hworld'.trans h.world, h.stocks.trans (hstocks.mono ?_), ?_⟩
  · rintro _ rfl
    exact hu
  · rw [hknown]
    exact (h.after_version hstart hworld u spec).known

/-- What the tool is resolved to is decided at the start: a cached binary, the error of a download,
or a download that is stored. -/
theorem resolve_cases (h : IsBehind c r t start m) (hstart : start.recommended = none)
    (hworld : start.world.IsStateless) (hc : c.Stands start.workspace r.cacheRoot)
    (hsound : start.workspace.tree.IsSound) (hp : r.platform.IsPlain) (hv : IsName v)
    (hversion : ((r.version t spec).runOn start).1 = .ok v) :
    if Cache.isCached start.workspace r.cacheRoot t v r.platform then
      ∃ m', m'.workspace = m.workspace ∧ (r.resolve t spec).runOn m =
        (.ok (Cache.binaryPath r.cacheRoot t v r.platform), m')
    else
      match ((r.download t v).runOn start).1 with
      | .error e => ((r.resolve t spec).runOn m).1 = .error e
      | .ok binary => ∃ m', m'.workspace = m.workspace ∧
          Cache.Stores r.cacheRoot t v r.platform binary m' ((r.resolve t spec).runOn m) := by
  have hbehind := h.after_version hstart hworld t spec
  rw [← h.version_eq hstart hworld t spec] at hversion
  rcases hm : (r.version t spec).runOn m with ⟨x, m₁⟩
  rw [hm] at hversion hbehind
  simp only at hversion hbehind
  subst hversion
  have hworkspace := Resolves.workspace_eq_of_version hm
  rw [← h.stocks.isCached_eq hc hsound (fun hne => hne rfl) hv hp,
    ← download_congr hworld hbehind.world r t v]
  rcases (resolve_spec r t spec m).of_version hm with ⟨hcached, hresult⟩ |
    ⟨hmissed, ⟨e, m₂, hdownload, hresult⟩ | ⟨binary, m₂, hdownload, hstores⟩⟩
  · rw [if_pos hcached]
    exact ⟨m₁, hworkspace, hresult⟩
  · rw [hmissed, if_neg Bool.false_ne_true, hdownload, hresult]
  · rw [hmissed, if_neg Bool.false_ne_true, hdownload]
    exact ⟨m₂, (Resolves.workspace_eq_of_download hdownload).trans hworkspace, hstores⟩

/-- **The tool is resolved as if others had not been,** and its binary is the same. -/
theorem resolve_congr (h : IsBehind c r t start m) (h' : IsBehind c r t start n)
    (hstart : start.recommended = none) (hworld : start.world.IsStateless)
    (hc : c.Stands start.workspace r.cacheRoot) (hsound : start.workspace.tree.IsSound)
    (hp : r.platform.IsPlain)
    (hname : ∀ v, ((r.version t spec).runOn start).1 = .ok v → IsName v) :
    ((r.resolve t spec).runOn n).1 = ((r.resolve t spec).runOn m).1 ∧
      ∀ path, ((r.resolve t spec).runOn m).1 = .ok path →
        ((r.resolve t spec).runOn n).2.workspace.node path =
          ((r.resolve t spec).runOn m).2.workspace.node path := by
  have hself : ¬(t ≠ t) := fun hne => hne rfl
  cases hversion : ((r.version t spec).runOn start).1 with
  | error e =>
    have hfailed {m : Machine} (h : IsBehind c r t start m) :
        ((r.resolve t spec).runOn m).1 = .error e := by
      rw [← h.version_eq hstart hworld t spec] at hversion
      rw [resolve_of_error (Prod.ext hversion rfl)]
    rw [hfailed h, hfailed h']
    exact ⟨rfl, fun path hpath => by cases hpath⟩
  | ok v =>
    have hv := hname v hversion
    have hcases := h.resolve_cases hstart hworld hc hsound hp hv hversion
    have hcases' := h'.resolve_cases hstart hworld hc hsound hp hv hversion
    split_ifs at hcases hcases' with hcached
    · obtain ⟨m', hm', hresult⟩ := hcases
      obtain ⟨n', hn', hresult'⟩ := hcases'
      rw [hresult, hresult']
      refine ⟨rfl, fun path hpath => ?_⟩
      obtain rfl := Except.ok.inj hpath
      simp only [hm', hn']
      rw [h.stocks.node_of_isCached hc hsound hself hv hp hcached,
        h'.stocks.node_of_isCached hc hsound hself hv hp hcached]
    · cases hdownload : ((r.download t v).runOn start).1 with
      | error e =>
        rw [hdownload] at hcases hcases'
        rw [hcases, hcases']
        exact ⟨rfl, fun path hpath => by cases hpath⟩
      | ok binary =>
        rw [hdownload] at hcases hcases'
        obtain ⟨m', hm', hstores⟩ := hcases
        obtain ⟨n', hn', hstores'⟩ := hcases'
        have hstocks : c.Stocks (· ≠ t) start.workspace m'.workspace := hm' ▸ h.stocks
        have hstocks' : c.Stocks (· ≠ t) start.workspace n'.workspace := hn' ▸ h'.stocks
        exact hstores.outcome_congr hstores' hstocks hstocks' hself hc hv hp

end IsBehind

end Tool
end ReleaseLint
