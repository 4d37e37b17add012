/-
# What one resolve does

| outcome of `Resolver.resolve` | requests | workspace |
| --- | --- | --- |
| no version | those of the lookup | the same |
| the path of a cached binary | those of the lookup | the same |
| a download that fails | these, and those of the download | the same |
| a binary that is stored, or not | these, and those of the download | grown |

`Resolves` is this table, with the lookup as `Consults`: it asks for the document of recommended
versions unless that is known.  In a cache without links a resolve lets the workspace grow, and
leaves its binary at the path that it returns (`Resolves.growsTo`, `Resolves.hasFile`).
-/

import ReleaseLint.Proofs.Cache.Storing
import ReleaseLint.Proofs.Version.Spelling

namespace ReleaseLint

/-- The document of recommended versions that a request has brought. -/
def Request.document? (q : Request) : Option Tool.Recommended :=
  match q.reply.body q.url with
  | .ok data => (Tool.Recommended.ofText (Tool.textOf data)).toOption
  | .error _ => none

namespace Tool

open Session
open Cache (Place)
open Segment (IsName)

variable {r : Resolver} {t : Tool} {spec v : String} {m m' : Machine} {log : List Request}

/-! ### The document of recommended versions -/

/-- Whether a machine is another one behind a lookup with some requests. -/
structure Consults (r : Resolver) (m : Machine) (log : List Request) (m' : Machine) : Prop where
  eq : m' = { m with requests := m.requests ++ log, recommended := m'.recommended }
  asked : ∀ q ∈ log, ∃ number, q = ⟨r.versionsUrl, m.world.reply number r.versionsUrl⟩
  documents : m'.recommended.toList = m.recommended.toList ++ log.filterMap Request.document?
  known : m.recommended.isSome = true → log = []

theorem Consults.refl (r : Resolver) (m : Machine) : Consults r m [] m where
  eq := by rw [List.append_nil]
  asked q hq := absurd hq List.not_mem_nil
  documents := (List.append_nil _).symm
  known _ := rfl

theorem Consults.workspace_eq (h : Consults r m log m') : m'.workspace = m.workspace := by
  rw [h.eq]

theorem Consults.world_eq (h : Consults r m log m') : m'.world = m.world := by
  rw [h.eq]

theorem Consults.eq_of_known {versions : Recommended} (h : Consults r m log m')
    (hm : m.recommended = some versions) : m' = m := by
  have hlog := h.known (by rw [hm]; rfl)
  have hdocuments := h.documents
  have heq := h.eq
  rw [hlog] at hdocuments heq
  rw [hm, List.filterMap_nil, List.append_nil] at hdocuments
  have hsame : m'.recommended = m.recommended := by
    rw [hm]
    cases hrecommended : m'.recommended with
    | none =>
      rw [hrecommended] at hdocuments
      cases hdocuments
    | some versions' =>
      rw [hrecommended] at hdocuments
      rw [(List.cons.inj hdocuments).1]
  rw [heq, hsame, List.append_nil]

/-- What a request brings is what a lookup makes of its reply. -/
theorem toOption_versionsIn (task : Task) (url : String) (reply : Reply) :
    (task.versionsIn (reply.body url)).toOption = Request.document? ⟨url, reply⟩ := by
  unfold Task.versionsIn Request.document?
  cases reply.body url with
  | error e => cases e <;> rfl
  | ok data =>
    simp only
    cases Recommended.ofText (textOf data) <;> rfl

/-- A lookup with one request, when no document is known. -/
theorem Consults.of_reply (hm : m.recommended = none) (number : Nat) :
    Consults r m [⟨r.versionsUrl, m.world.reply number r.versionsUrl⟩]
      { m with
        requests := m.requests ++ [⟨r.versionsUrl, m.world.reply number r.versionsUrl⟩]
        recommended := Request.document? ⟨r.versionsUrl, m.world.reply number r.versionsUrl⟩ } where
  eq := rfl
  asked q hq := ⟨number, List.mem_singleton.1 hq⟩
  documents := by
    rw [hm, List.filterMap_cons]
    cases Request.document? ⟨r.versionsUrl, m.world.reply number r.versionsUrl⟩ <;> rfl
  known h := by
    rw [hm] at h
    cases h

/-- **Looking up brings a document with one request, or none.** -/
theorem consults_recommended (r : Resolver) (t : Tool) (m : Machine) :
    ∃ log, Consults r m log ((r.recommended t).runOn m).2 ∧
      ((r.recommended t).runOn m).1.toOption = ((r.recommended t).runOn m).2.recommended := by
  unfold Resolver.recommended
  simp only [runOn_bind, runOn_get]
  cases hknown : m.recommended with
  | some versions => exact ⟨[], .refl r m, hknown.symm⟩
  | none =>
    simp only [runOn_bind, runOn_lookUp r t "", runOn_fetch]
    split_ifs with hlong
    · exact ⟨[], .refl r m, hknown.symm⟩
    · have hconsults := Consults.of_reply (r := r) hknown m.requests.length
      have hdocument := toOption_versionsIn ⟨r, t, ""⟩ r.versionsUrl
        (m.world.reply m.requests.length r.versionsUrl)
      rw [← hdocument] at hconsults
      cases hresult : Task.versionsIn ⟨r, t, ""⟩
        ((m.world.reply m.requests.length r.versionsUrl).body r.versionsUrl) with
      | error e =>
        rw [hresult, show (Except.error e).toOption = m.recommended from hknown.symm] at hconsults
        exact ⟨_, hconsults, hknown.symm⟩
      | ok versions =>
        rw [hresult] at hconsults
        exact ⟨_, hconsults, rfl⟩

theorem runOn_latest_of_known {versions : Recommended} (h : m.recommended = some versions)
    (r : Resolver) (t : Tool) : (r.latest t).runOn m = (versions.find t, m) := by
  rw [runOn_latest]
  unfold Resolver.recommended
  simp only [runOn_bind, runOn_get, h]
  rfl

theorem consults_latest (r : Resolver) (t : Tool) (m : Machine) :
    ∃ log, Consults r m log ((r.latest t).runOn m).2 := by
  obtain ⟨log, hconsults, -⟩ := consults_recommended r t m
  refine ⟨log, ?_⟩
  rw [runOn_latest]
  rcases hrun : (r.recommended t).runOn m with ⟨e | versions, m'⟩
  all_goals
    rw [hrun] at hconsults
    exact hconsults

/-- The recommended version is that of the document that is known by then. -/
theorem exists_recommended (h : (r.latest t).runOn m = (.ok v, m')) :
    ∃ versions, m'.recommended = some versions ∧ versions.version? t = some v := by
  obtain ⟨log, -, hknown⟩ := consults_recommended r t m
  rw [runOn_latest] at h
  rcases hrun : (r.recommended t).runOn m with ⟨e | versions, m''⟩
  · rw [hrun] at h
    cases h
  · rw [hrun] at h hknown
    obtain ⟨hfind, rfl⟩ := Prod.mk.inj h
    refine ⟨versions, hknown.symm, ?_⟩
    unfold Recommended.find at hfind
    split at hfind
    · rename_i hversion
      rw [hversion, Except.ok.inj hfind]
    · cases hfind

/-! ### The version -/

theorem runOn_version_latest (h : Version.AsksForLatest spec) (r : Resolver) (t : Tool)
    (m : Machine) : (r.version t spec).runOn m = (r.latest t).runOn m := by
  have hasks : (Text.trim spec = "" || Text.trim spec = Version.latest) = true := by
    rwa [Bool.or_eq_true, decide_eq_true_eq, decide_eq_true_eq]
  unfold Resolver.version
  simp only
  rw [if_pos hasks]

theorem runOn_version_pinned (h : ¬Version.AsksForLatest spec) (r : Resolver) (t : Tool)
    (m : Machine) :
    (r.version t spec).runOn m = (.ok (Text.dropLeadingV (Text.trim spec)), m) := by
  have hasks : ¬(Text.trim spec = "" || Text.trim spec = Version.latest) = true := by
    rwa [Bool.or_eq_true, decide_eq_true_eq, decide_eq_true_eq]
  unfold Resolver.version
  simp only
  rw [if_neg hasks, runOn_pure]

theorem consults_version (r : Resolver) (t : Tool) (spec : String) (m : Machine) :
    ∃ log, Consults r m log ((r.version t spec).runOn m).2 := by
  by_cases h : Version.AsksForLatest spec
  · rw [runOn_version_latest h]
    exact consults_latest r t m
  · rw [runOn_version_pinned h]
    exact ⟨[], .refl r m⟩

/-- Whether a document gives semantic versions only. -/
def Recommended.IsSemantic (versions : Recommended) : Prop :=
  ∀ t v, versions.version? t = some v → Version.IsSemantic v

/-- **A request that is accepted comes to a semantic version.** -/
theorem isSemantic_of_version (hspec : Version.IsRequest spec)
    (hknown : ∀ versions, m'.recommended = some versions → versions.IsSemantic)
    (h : (r.version t spec).runOn m = (.ok v, m')) : Version.IsSemantic v := by
  by_cases hlatest : Version.AsksForLatest spec
  · rw [runOn_version_latest hlatest] at h
    obtain ⟨versions, hm', hv⟩ := exists_recommended h
    exact hknown versions hm' t v hv
  · rw [runOn_version_pinned hlatest] at h
    rw [← Except.ok.inj (Prod.mk.inj h).1]
    exact hspec.isSemantic hlatest

/-! ### The whole resolve -/

/-- What a resolve comes to. -/
inductive Resolves (r : Resolver) (t : Tool) (spec : String) (m : Machine) :
    Except Error Path × Machine → Prop
  | unknown {e : Error} {m' : Machine} : (r.version t spec).runOn m = (.error e, m') →
      Resolves r t spec m (.error e, m')
  | cached {v : String} {m' : Machine} : (r.version t spec).runOn m = (.ok v, m') →
      Cache.isCached m.workspace r.cacheRoot t v r.platform = true →
      Resolves r t spec m (.ok (Cache.binaryPath r.cacheRoot t v r.platform), m')
  | missed {v : String} {e : Error} {m' m'' : Machine} :
      (r.version t spec).runOn m = (.ok v, m') →
      Cache.isCached m.workspace r.cacheRoot t v r.platform = false →
      (r.download t v).runOn m' = (.error e, m'') → Resolves r t spec m (.error e, m'')
  | fetched {v : String} {binary : ByteArray} {m' m'' : Machine}
      {result : Except Error Path × Machine} :
      (r.version t spec).runOn m = (.ok v, m') →
      Cache.isCached m.workspace r.cacheRoot t v r.platform = false →
      (r.download t v).runOn m' = (.ok binary, m'') →
      Cache.Stores r.cacheRoot t v r.platform binary m'' result → Resolves r t spec m result

/-- **Every resolve comes to one of these.** -/
theorem resolve_spec (r : Resolver) (t : Tool) (spec : String) (m : Machine) :
    Resolves r t spec m ((r.resolve t spec).runOn m) := by
  obtain ⟨log, hconsults⟩ := consults_version r t spec m
  unfold Resolver.resolve
  simp only [runOn_bind]
  rcases hversion : (r.version t spec).runOn m with ⟨e | v, m'⟩
  · exact .unknown hversion
  · have hworkspace : m'.workspace = m.workspace := by
      rw [hversion] at hconsults
      exact hconsults.workspace_eq
    simp only [runOn_workspace, hworkspace]
    cases hcached : Cache.isCached m.workspace r.cacheRoot t v r.platform with
    | true =>
      rw [if_pos rfl]
      exact .cached hversion hcached
    | false =>
      rw [if_neg Bool.false_ne_true, runOn_bind]
      rcases hdownload : (r.download t v).runOn m' with ⟨e | binary, m''⟩
      · exact .missed hversion hcached hdownload
      · exact .fetched hversion hcached hdownload (Cache.stores_store ..)

/-- What a resolve comes to, once its version is known. -/
theorem Resolves.of_version {result : Except Error Path × Machine} (h : Resolves r t spec m result)
    (hversion : (r.version t spec).runOn m = (.ok v, m')) :
    (Cache.isCached m.workspace r.cacheRoot t v r.platform = true ∧
      result = (.ok (Cache.binaryPath r.cacheRoot t v r.platform), m')) ∨
    Cache.isCached m.workspace r.cacheRoot t v r.platform = false ∧
      ((∃ e m'', (r.download t v).runOn m' = (.error e, m'') ∧ result = (.error e, m'')) ∨
        ∃ binary m'', (r.download t v).runOn m' = (.ok binary, m'') ∧
          Cache.Stores r.cacheRoot t v r.platform binary m'' result) := by
  cases h with
  | unknown hversion' =>
    rw [hversion] at hversion'
    cases hversion'
  | cached hversion' hcached =>
    rw [hversion] at hversion'
    cases hversion'
    exact .inl ⟨hcached, rfl⟩
  | missed hversion' hcached hdownload =>
    rw [hversion] at hversion'
    cases hversion'
    exact .inr ⟨hcached, .inl ⟨_, _, hdownload, rfl⟩⟩
  | fetched hversion' hcached hdownload hstores =>
    rw [hversion] at hversion'
    cases hversion'
    exact .inr ⟨hcached, .inr ⟨_, _, hdownload, hstores⟩⟩

/-- A download only sends requests. -/
theorem exists_eq_of_download {x : Except Error ByteArray}
    (h : (r.download t v).runOn m = (x, m')) :
    ∃ log, m' = { m with requests := m.requests ++ log } := by
  obtain ⟨log, result, -, heq⟩ := download_spec ⟨r, t, v⟩ none v [] m
  rw [h] at heq
  exact ⟨log, (Prod.mk.inj heq).2⟩

theorem isSupported_of_download {binary : ByteArray}
    (h : (r.download t v).runOn m = (.ok binary, m')) : r.platform.isSupported = true := by
  have hrun := runOn_download ⟨r, t, v⟩ v m
  rw [h] at hrun
  cases hrelease : Task.release ⟨r, t, v⟩ v with
  | error e =>
    rw [hrelease] at hrun
    cases hrun
  | ok release => exact Task.isSupported_of_release hrelease

/-! ### What a resolve leaves behind -/

namespace Resolves

variable {c : Place} {result : Except Error Path × Machine} {path : Path} {e : Error}

/-- A resolve learns from its lookup only. -/
theorem recommended_eq (h : Resolves r t spec m result) :
    result.2.recommended = ((r.version t spec).runOn m).2.recommended ∧
      result.2.world = m.world := by
  obtain ⟨log, hconsults⟩ := consults_version r t spec m
  have hworld := hconsults.world_eq
  cases h with
  | unknown hversion | cached hversion =>
    rw [hversion] at hworld ⊢
    exact ⟨rfl, hworld⟩
  | missed hversion _ hdownload =>
    obtain ⟨_, rfl⟩ := exists_eq_of_download hdownload
    rw [hversion] at hworld ⊢
    exact ⟨rfl, hworld⟩
  | fetched hversion _ hdownload hstores =>
    obtain ⟨w, hw⟩ := hstores.exists_eq
    obtain ⟨_, rfl⟩ := exists_eq_of_download hdownload
    rw [hversion] at hworld ⊢
    rw [hw]
    exact ⟨rfl, hworld⟩

theorem workspace_eq_of_version {x : Except Error String}
    (h : (r.version t spec).runOn m = (x, m')) : m'.workspace = m.workspace := by
  obtain ⟨log, hconsults⟩ := consults_version r t spec m
  rw [h] at hconsults
  exact hconsults.workspace_eq

theorem workspace_eq_of_download {x : Except Error ByteArray}
    (h : (r.download t v).runOn m = (x, m')) : m'.workspace = m.workspace := by
  obtain ⟨_, rfl⟩ := exists_eq_of_download h
  rfl

/-- **Nothing is changed before something is stored.** -/
theorem workspace_eq (h : Resolves r t spec m (.error e, m'))
    (he : e.comesBeforeStoring = true) : m'.workspace = m.workspace := by
  generalize hresult : (Except.error e, m') = result at h
  cases h with
  | unknown hversion =>
    obtain ⟨-, rfl⟩ := Prod.mk.inj hresult
    exact workspace_eq_of_version hversion
  | cached => cases (Prod.mk.inj hresult).1
  | missed hversion _ hdownload =>
    obtain ⟨-, rfl⟩ := Prod.mk.inj hresult
    exact (workspace_eq_of_download hdownload).trans (workspace_eq_of_version hversion)
  | fetched _ _ _ hstores =>
    rw [← hresult] at hstores
    rw [hstores.not_comesBeforeStoring] at he
    cases he

/-- **A resolve lets the workspace grow,** whether it succeeds or not. -/
theorem growsTo (h : Resolves r t spec m result) (hc : c.Stands m.workspace r.cacheRoot)
    (hname : ∀ v m', (r.version t spec).runOn m = (.ok v, m') → IsName v) :
    m.workspace.GrowsTo result.2.workspace := by
  cases h with
  | unknown hversion | cached hversion =>
    rw [workspace_eq_of_version hversion]
    exact .refl _
  | missed hversion _ hdownload =>
    rw [workspace_eq_of_download hdownload, workspace_eq_of_version hversion]
    exact .refl _
  | fetched hversion _ hdownload hstores =>
    have hw := (workspace_eq_of_download hdownload).trans (workspace_eq_of_version hversion)
    have hplain := Platform.isPlain_of_isSupported (isSupported_of_download hdownload)
    rw [← hw] at hc ⊢
    exact hstores.growsTo hc (hname _ _ hversion) hplain

/-- **A resolve that succeeds leaves the binary at the path that it returns.** -/
theorem hasFile (h : Resolves r t spec m (.ok path, m')) (hc : c.Stands m.workspace r.cacheRoot)
    (hname : ∀ v m', (r.version t spec).runOn m = (.ok v, m') → IsName v) :
    ∃ v, ((r.version t spec).runOn m).1 = .ok v ∧
      path = Cache.binaryPath r.cacheRoot t v r.platform ∧ m'.workspace.hasFile path = true := by
  generalize hresult : (Except.ok path, m') = result at h
  cases h with
  | unknown => cases (Prod.mk.inj hresult).1
  | @cached v _ hversion hcached =>
    obtain ⟨hpath, rfl⟩ := Prod.mk.inj hresult
    obtain rfl := Except.ok.inj hpath
    refine ⟨v, by rw [hversion], rfl, ?_⟩
    rw [workspace_eq_of_version hversion]
    exact hcached
  | missed => cases (Prod.mk.inj hresult).1
  | @fetched v _ _ _ _ hversion _ hdownload hstores =>
    have hw := (workspace_eq_of_download hdownload).trans (workspace_eq_of_version hversion)
    have hplain := Platform.isPlain_of_isSupported (isSupported_of_download hdownload)
    rw [← hresult] at hstores
    rw [← hw] at hc
    obtain ⟨hpath, hfile⟩ := hstores.hasFile hc (hname v _ hversion) hplain
    exact ⟨v, by rw [hversion], hpath, hfile⟩

end Resolves

theorem resolve_of_error {e : Error} (hversion : (r.version t spec).runOn m = (.error e, m')) :
    (r.resolve t spec).runOn m = (.error e, m') := by
  unfold Resolver.resolve
  rw [runOn_bind, hversion]

/-- **A cached binary is not downloaded.** -/
theorem resolve_of_isCached (hversion : (r.version t spec).runOn m = (.ok v, m'))
    (hcached : Cache.isCached m.workspace r.cacheRoot t v r.platform = true) :
    (r.resolve t spec).runOn m =
      (.ok (Cache.binaryPath r.cacheRoot t v r.platform), m') := by
  rcases (resolve_spec r t spec m).of_version hversion with ⟨-, hresult⟩ | ⟨hmissed, -⟩
  · exact hresult
  · rw [hcached] at hmissed
    cases hmissed

/-- **A binary that is not cached is downloaded and stored.** -/
theorem runOn_resolve_of_missed (hversion : (r.version t spec).runOn m = (.ok v, m'))
    (hmissed : Cache.isCached m'.workspace r.cacheRoot t v r.platform = false) :
    (r.resolve t spec).runOn m =
      (r.download t v >>= Cache.store r.cacheRoot t v r.platform).runOn m' := by
  unfold Resolver.resolve
  simp only [runOn_bind, hversion, runOn_workspace, hmissed, Bool.false_eq_true, if_false]

end Tool
end ReleaseLint
