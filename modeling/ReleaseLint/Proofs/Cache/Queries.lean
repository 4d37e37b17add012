/-
# A resolver that is asked again and again

A resolver is asked for binaries and for recommended versions, any number of times, while nobody
else changes its cache.  What one query keeps, a sequence of them keeps:

| what is kept | by |
| --- | --- |
| the document of recommended versions, once it is known | every lookup |
| every file, and a cache without links | every resolve of a semantic version |

So a binary that has been resolved is found again (`resolve_again`), and at most one document is
ever brought (`toList_recommended_afterAll`).
-/

import ReleaseLint.Proofs.Cache.Resolution
import ReleaseLint.Proofs.Except

namespace ReleaseLint

/-- Whether the documents of recommended versions at a URL give semantic versions only. -/
def World.PublishesSemantic (world : World) (url : String) : Prop :=
  ∀ number versions, Request.document? ⟨url, world.reply number url⟩ = some versions →
    versions.IsSemantic

namespace Tool

open Cache (Place)
open Segment (IsName)

/-- What a resolver is asked for: a binary, or a recommended version. -/
inductive Query where
  | resolve (t : Tool) (spec : String)
  | latest (t : Tool)

namespace Query

/-- The part of a query that finds a version. -/
def version (r : Resolver) : Query → Session String
  | resolve t spec => r.version t spec
  | latest t => r.latest t

/-- The machine behind a query. -/
def after (r : Resolver) (m : Machine) : Query → Machine
  | resolve t spec => ((r.resolve t spec).runOn m).2
  | latest t => ((r.latest t).runOn m).2

/-- Whether a version that a query names is one that is accepted. -/
def IsAccepted : Query → Prop
  | resolve _ spec => Version.IsRequest spec
  | latest _ => True

/-- The documents of recommended versions that a query brings. -/
def documents (r : Resolver) (m : Machine) (q : Query) : List Recommended :=
  (((q.version r).runOn m).2.requests.drop m.requests.length).filterMap Request.document?

end Query

variable {r : Resolver} {m m' : Machine} {q : Query} {queries : List Query} {c : Place}
  {t : Tool} {spec v : String} {versions : Recommended}

/-- The machine behind some queries. -/
def afterAll (r : Resolver) (m : Machine) (queries : List Query) : Machine :=
  queries.foldl (Query.after r) m

/-- The documents of recommended versions that some queries bring. -/
def documents (r : Resolver) : (m : Machine) → List Query → List Recommended
  | _, [] => []
  | m, q :: rest => q.documents r m ++ documents r (q.after r m) rest

/-! ### One query -/

@[simp]
theorem Query.after_resolve (r : Resolver) (m : Machine) (t : Tool) (spec : String) :
    (Query.resolve t spec).after r m = ((r.resolve t spec).runOn m).2 := by
  rw [Query.after]

@[simp]
theorem Query.after_latest (r : Resolver) (m : Machine) (t : Tool) :
    (Query.latest t).after r m = ((r.latest t).runOn m).2 := by
  rw [Query.after]

theorem Query.consults (r : Resolver) (m : Machine) (q : Query) :
    ∃ log, Consults r m log ((q.version r).runOn m).2 := by
  cases q with
  | resolve t spec => exact consults_version r t spec m
  | latest t => exact consults_latest r t m

/-- A query learns from its lookup only. -/
theorem Query.recommended_after (r : Resolver) (m : Machine) (q : Query) :
    (q.after r m).recommended = ((q.version r).runOn m).2.recommended ∧
      (q.after r m).world = m.world := by
  cases q with
  | resolve t spec =>
    rw [after_resolve, version]
    exact (resolve_spec r t spec m).recommended_eq
  | latest t =>
    obtain ⟨log, hconsults⟩ := consults_latest r t m
    rw [after_latest, version]
    exact ⟨rfl, hconsults.world_eq⟩

/-- **What is known behind a query is what was known, and what the query brings.** -/
theorem Query.toList_recommended_after (r : Resolver) (m : Machine) (q : Query) :
    (q.after r m).recommended.toList = m.recommended.toList ++ q.documents r m := by
  obtain ⟨log, hconsults⟩ := q.consults r m
  have hrequests : ((q.version r).runOn m).2.requests = m.requests ++ log := by rw [hconsults.eq]
  unfold documents
  rw [(q.recommended_after r m).1, hconsults.documents, hrequests, List.drop_left]

/-- What queries rely on: a cache without links, and semantic versions in the documents that
are known or published. -/
structure IsReady (c : Place) (r : Resolver) (m : Machine) : Prop where
  stands : c.Stands m.workspace r.cacheRoot
  known : ∀ versions, m.recommended = some versions → versions.IsSemantic
  published : m.world.PublishesSemantic r.versionsUrl

theorem IsReady.known_of_consults {log : List Request} (h : IsReady c r m)
    (hconsults : Consults r m log m') :
    ∀ versions, m'.recommended = some versions → versions.IsSemantic := by
  intro versions hm'
  have hmem : versions ∈ m.recommended.toList ++ log.filterMap Request.document? := by
    rw [← hconsults.documents, hm']
    exact List.mem_singleton_self versions
  rcases List.mem_append.1 hmem with hold | hnew
  · exact h.known versions (Option.mem_toList.1 hold)
  · obtain ⟨request, hrequest, hdocument⟩ := List.mem_filterMap.1 hnew
    obtain ⟨number, rfl⟩ := hconsults.asked request hrequest
    exact h.published number versions hdocument

/-- An accepted request comes to a semantic version. -/
theorem IsReady.isSemantic (h : IsReady c r m) (hspec : Version.IsRequest spec)
    (hversion : (r.version t spec).runOn m = (.ok v, m')) : Version.IsSemantic v := by
  obtain ⟨log, hconsults⟩ := consults_version r t spec m
  rw [hversion] at hconsults
  exact isSemantic_of_version hspec (h.known_of_consults hconsults) hversion

theorem IsReady.isName (h : IsReady c r m) (hspec : Version.IsRequest spec) :
    ∀ v m', (r.version t spec).runOn m = (.ok v, m') → IsName v :=
  fun _ _ hversion => Version.isName_of_semantic (h.isSemantic hspec hversion)

theorem IsReady.growsTo_after (h : IsReady c r m) (hq : q.IsAccepted) :
    m.workspace.GrowsTo (q.after r m).workspace := by
  cases q with
  | resolve t spec =>
    rw [Query.after_resolve]
    exact (resolve_spec r t spec m).growsTo h.stands (h.isName hq)
  | latest t =>
    obtain ⟨log, hconsults⟩ := consults_latest r t m
    rw [Query.after_latest, hconsults.workspace_eq]
    exact .refl _

theorem IsReady.after (h : IsReady c r m) (hq : q.IsAccepted) : IsReady c r (q.after r m) where
  stands := h.stands.growsTo (h.growsTo_after hq)
  known := by
    obtain ⟨log, hconsults⟩ := q.consults r m
    rw [(q.recommended_after r m).1]
    exact h.known_of_consults hconsults
  published := by
    rw [(q.recommended_after r m).2]
    exact h.published

/-! ### Query after query -/

/-- **Queries only bring a document as long as none is known.** -/
theorem toList_recommended_afterAll (r : Resolver) (m : Machine) (queries : List Query) :
    (afterAll r m queries).recommended.toList = m.recommended.toList ++ documents r m queries := by
  induction queries generalizing m with
  | nil => exact (List.append_nil _).symm
  | cons q rest ih =>
    rw [documents, ← List.append_assoc, ← q.toList_recommended_after]
    exact ih (q.after r m)

/-- A document that is known stays. -/
theorem recommended_afterAll (h : m.recommended = some versions) (queries : List Query) :
    (afterAll r m queries).recommended = some versions := by
  have hlist := toList_recommended_afterAll r m queries
  rw [h] at hlist
  cases hafter : (afterAll r m queries).recommended with
  | none =>
    rw [hafter] at hlist
    cases hlist
  | some versions' =>
    rw [hafter] at hlist
    rw [(List.cons.inj hlist).1]

/-- **What queries rely on stays, and so does every file.** -/
theorem IsReady.afterAll (h : IsReady c r m) (hqueries : ∀ q ∈ queries, q.IsAccepted) :
    IsReady c r (afterAll r m queries) ∧
      m.workspace.GrowsTo (afterAll r m queries).workspace := by
  induction queries generalizing m with
  | nil => exact ⟨h, .refl _⟩
  | cons q rest ih =>
    have hq := hqueries q List.mem_cons_self
    obtain ⟨hready, hgrows⟩ :=
      ih (h.after hq) fun q hq => hqueries q (List.mem_cons_of_mem _ hq)
    exact ⟨hready, (h.growsTo_after hq).trans hgrows⟩

/-- **What has been resolved once is found again.** -/
theorem IsReady.resolve_again {path : Path} (h : IsReady c r m) (hspec : Version.IsRequest spec)
    (hresolve : (r.resolve t spec).runOn m = (.ok path, m')) :
    ∃ v, Version.IsSemantic v ∧ ((r.version t spec).runOn m).1 = .ok v ∧
      path = Cache.binaryPath r.cacheRoot t v r.platform ∧
      ∀ later : List Query, (∀ q ∈ later, q.IsAccepted) →
        Cache.isCached (Tool.afterAll r m' later).workspace r.cacheRoot t v r.platform = true := by
  have hspec' := resolve_spec r t spec m
  rw [hresolve] at hspec'
  obtain ⟨v, hversion, rfl, hfile⟩ := hspec'.hasFile h.stands (h.isName hspec)
  have hready : IsReady c r m' := by
    have := h.after (q := .resolve t spec) hspec
    rwa [Query.after_resolve, hresolve] at this
  refine ⟨v, h.isSemantic hspec (Prod.ext hversion rfl), hversion, rfl, fun later hlater => ?_⟩
  exact Workspace.hasFile_mono (hready.afterAll hlater).2 hfile

/-! ### All together -/

/-- **A resolver serves its queries from one document and one cache.**  For any queries of a
resolver that knows no recommended versions yet, over a cache without links that nobody else
changes, and whatever the servers answer:
the documents that have been brought are the one that is known, if any, and from then on every
lookup is answered from it without a request;
a resolve whose binary is cached returns its path and makes no request but those of the lookup,
none at all if a version is named;
a resolve that fails before it stores anything leaves the workspace as it was;
and behind a resolve that succeeds, every spelling of its version is resolved to the same path
without any request, and whatever else comes to this version without a request but those of
the lookup. -/
theorem queries_share_cache (hcache : Cache.HoldsNoLinks m.workspace r.cacheRoot)
    (hnew : m.recommended = none) (hpublished : m.world.PublishesSemantic r.versionsUrl)
    (before : List Query) (hbefore : ∀ q ∈ before, q.IsAccepted) :
    let m₁ := afterAll r m before
    documents r m before = m₁.recommended.toList ∧
      (∀ versions, m₁.recommended = some versions → ∀ later : List Query,
        let m₂ := afterAll r m₁ later
        documents r m₁ later = [] ∧ ∀ t, (r.latest t).runOn m₂ = (versions.find t, m₂) ∧
          ∀ spec, Version.AsksForLatest spec →
            (r.version t spec).runOn m₂ = (versions.find t, m₂)) ∧
      ∀ t spec, Version.IsRequest spec →
        (∀ v m₂, (r.version t spec).runOn m₁ = (.ok v, m₂) →
          Cache.isCached m₁.workspace r.cacheRoot t v r.platform = true →
          (r.resolve t spec).runOn m₁ =
              (.ok (Cache.binaryPath r.cacheRoot t v r.platform), m₂) ∧
            (∃ log, Consults r m₁ log m₂) ∧ (¬Version.AsksForLatest spec → m₂ = m₁)) ∧
        (∀ e m₂, (r.resolve t spec).runOn m₁ = (.error e, m₂) → e.comesBeforeStoring = true →
          m₂.workspace = m₁.workspace) ∧
        ∀ path m₂, (r.resolve t spec).runOn m₁ = (.ok path, m₂) →
          ∃ v, Version.IsSemantic v ∧ ((r.version t spec).runOn m₁).1 = .ok v ∧
            path = Cache.binaryPath r.cacheRoot t v r.platform ∧
            ∀ later : List Query, (∀ q ∈ later, q.IsAccepted) →
              let m₃ := afterAll r m₂ later
              (∀ spec', Version.Spells spec' v →
                (r.resolve t spec').runOn m₃ = (.ok path, m₃)) ∧
              ∀ spec' m₄, (r.version t spec').runOn m₃ = (.ok v, m₄) →
                (r.resolve t spec').runOn m₃ = (.ok path, m₄) ∧ ∃ log, Consults r m₃ log m₄ := by
  obtain ⟨c, hstands⟩ := hcache
  have hready : IsReady c r m := ⟨hstands, by simp [hnew], hpublished⟩
  intro m₁
  have hready₁ : IsReady c r m₁ := (hready.afterAll hbefore).1
  have hconsults : ∀ {t spec x m m'}, (r.version t spec).runOn m = (x, m') →
      ∃ log, Consults r m log m' := by
    intro t spec x m m' h
    have := consults_version r t spec m
    rwa [h] at this
  refine ⟨?_, fun versions hm₁ later => ?_, fun t spec hspec => ⟨fun v m₂ hversion hcached => ?_,
    fun e m₂ hresolve he => ?_, fun path m₂ hresolve => ?_⟩⟩
  · have hlist := toList_recommended_afterAll r m before
    rw [hnew] at hlist
    exact hlist.symm
  · have hlist := toList_recommended_afterAll r m₁ later
    have hknown := recommended_afterAll (r := r) hm₁ later
    rw [hknown, hm₁] at hlist
    refine ⟨(List.cons.inj hlist).2.symm, fun t => ⟨runOn_latest_of_known hknown r t, ?_⟩⟩
    intro spec hlatest
    rw [runOn_version_latest hlatest]
    exact runOn_latest_of_known hknown r t
  · refine ⟨resolve_of_isCached hversion hcached, hconsults hversion, fun hpinned => ?_⟩
    rw [runOn_version_pinned hpinned] at hversion
    exact (Prod.mk.inj hversion).2.symm
  · exact (hresolve ▸ resolve_spec r t spec m₁).workspace_eq he
  · obtain ⟨v, hsemantic, hversion, rfl, hcached⟩ := hready₁.resolve_again hspec hresolve
    refine ⟨v, hsemantic, hversion, rfl, fun later hlater => ⟨fun spec' hspells => ?_,
      fun spec' m₄ hversion' => ?_⟩⟩
    · have hpinned := runOn_version_pinned (hspells.not_asksForLatest hsemantic) r t
      rw [hspells.dropLeadingV_trim hsemantic] at hpinned
      exact resolve_of_isCached (hpinned _) (hcached later hlater)
    · exact ⟨resolve_of_isCached hversion' (hcached later hlater), hconsults hversion'⟩

/-- A server that recommends a version. -/
def sampleServer : World where
  reply _ _ := .response 200 "\x7b\"client_versions\":\x7b\"preflight\":\"v1.0.0\"\x7d\x7d".toUTF8
  run _ _ _ := .error .execFormat

/-- A cache that holds the binary of this version. -/
def sampleCache : Workspace where
  tree := ⟨[(["c"], .directory), (["c", "preflight"], .directory),
    (["c", "preflight", "1.0.0"], .directory),
    (["c", "preflight", "1.0.0", "linux-amd64"], .directory),
    (["c", "preflight", "1.0.0", "linux-amd64", "preflight"], .file .empty true)]⟩
  directory := ⟨"/"⟩

/-- What asks the server, and looks into the cache. -/
def sampleResolver : Resolver :=
  ⟨⟨"/c"⟩, fun _ => none, "http://h/ping", .single "http://h", ⟨"linux", "amd64"⟩⟩

theorem publishesSemantic_sampleServer (url : String) : sampleServer.PublishesSemantic url := by
  have hdocument : Request.document? ⟨url, sampleServer.reply 0 url⟩ =
      some ⟨[("preflight", "v1.0.0")]⟩ := by
    show (Recommended.ofText (textOf
      "\x7b\"client_versions\":\x7b\"preflight\":\"v1.0.0\"\x7d\x7d".toUTF8)).toOption = _
    decide +kernel
  intro number versions h
  obtain rfl := Option.some.inj (hdocument.symm.trans h)
  intro t v hv
  have hall : ∀ t ∈ Tool.all, ∀ v ∈ (Recommended.mk [("preflight", "v1.0.0")]).version? t,
      v = "1.0.0" := by decide +kernel
  rw [hall t (Tool.mem_all t) v hv]
  unfold Version.IsSemantic
  decide

theorem holdsNoLinks_sampleCache : Cache.HoldsNoLinks sampleCache ⟨"/c"⟩ :=
  ⟨⟨[.name "c"], ["c"], []⟩, by decide, rfl, rfl, fun names _ target =>
    Tree.find?_ne_link (by decide) names target⟩

/-- The recommended version is looked up, resolved, and resolved again in two spellings. -/
theorem queries_share_cache_sample :
    let path : Path := ⟨"/c/preflight/1.0.0/linux-amd64/preflight"⟩
    let m₁ := afterAll sampleResolver (.fresh sampleServer sampleCache) [.latest .preflight]
    ∃ m₂, (sampleResolver.resolve .preflight "latest").runOn m₁ = (.ok path, m₂) ∧
      let m₃ := afterAll sampleResolver m₂ [.resolve .preflight "v1.0.0"]
      (sampleResolver.resolve .preflight " vv1.0.0 ").runOn m₃ = (.ok path, m₃) := by
  intro path m₁
  have hresolved : ((sampleResolver.resolve .preflight "latest").runOn m₁).1.toOption =
      some path := by decide +kernel
  have hversion : ((sampleResolver.version .preflight "latest").runOn m₁).1.toOption =
      some "1.0.0" := by decide +kernel
  rcases hrun : (sampleResolver.resolve .preflight "latest").runOn m₁ with ⟨result, m₂⟩
  rw [hrun] at hresolved
  obtain rfl := toOption_eq_some_iff.1 hresolved
  refine ⟨m₂, rfl, ?_⟩
  have hrequest : Version.IsRequest "latest" := by
    unfold Version.IsRequest
    decide
  obtain ⟨-, -, hqueries⟩ := queries_share_cache (r := sampleResolver)
    (m := .fresh sampleServer sampleCache) holdsNoLinks_sampleCache rfl
    (publishesSemantic_sampleServer _) [.latest .preflight] (by simp [Query.IsAccepted])
  obtain ⟨-, -, hagain⟩ := hqueries .preflight "latest" hrequest
  obtain ⟨v, -, hv, -, hlater⟩ := hagain path m₂ hrun
  rw [hv] at hversion
  obtain rfl : v = "1.0.0" := Option.some.inj hversion
  have haccepted : ∀ q ∈ [Query.resolve .preflight "v1.0.0"], q.IsAccepted := by
    intro q hq
    rw [List.mem_singleton.1 hq]
    unfold Query.IsAccepted Version.IsRequest
    decide
  have hblank : ∀ c ∈ [' '], Text.isBlank c = true := by
    intro c hc
    rw [List.mem_singleton.1 hc]
    rfl
  exact (hlater _ haccepted).1 " vv1.0.0 " ⟨2, [' '], [' '], hblank, hblank, by decide⟩

end Tool
end ReleaseLint
