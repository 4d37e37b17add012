/-
# Linters do not interfere

The linters of a run share one resolver and one cache, so each of them meets what those in front of
it have left behind.  As long as none of this stands where a linter looks (`IsApart`), its section is
the same whichever of the others run.

| left behind by other linters | met by a linter |
| --- | --- |
| the document of recommended versions | it would have brought the same one |
| binaries, in their own directories | never |
| calls and requests | never, if programs and servers keep no count of them |

The turn of another linter keeps the machine behind the start (`isBehind_after_section`), so a linter
has its own turn on such a machine in both runs, and on two of them it comes to the same section
(`section_congr_of_isApart`).
-/

import ReleaseLint.Proofs.Cache.Concurrency
import ReleaseLint.Proofs.Cache.Queries
import ReleaseLint.Proofs.Lint.Alike
import ReleaseLint.Proofs.Lint.Exit
import ReleaseLint.Proofs.Report.Reading

namespace ReleaseLint

open Segment (IsName)
open Tool.Cache (Place)

/-- A run that comes to a value leaves a machine behind. -/
theorem Session.exists_run {α : Type} {result : Except Error α × Machine} {a : α}
    (h : result.1 = .ok a) : ∃ m, result = (.ok a, m) :=
  ⟨result.2, Prod.ext h rfl⟩

/-! ### Versions -/

namespace Tool

variable {r : Resolver} {c : Place} {t : Tool} {m : Machine} {spec v : String}

/-- Whether a search for the binary of a specification looks for a version that is one name.  It
reads the version again that it has found. -/
def Resolver.LooksForName (r : Resolver) (t : Tool) (m : Machine) (spec : String) : Prop :=
  ∀ v, ((r.version t spec).runOn m).1 = .ok v →
    ∀ v', ((r.version t v).runOn m).1 = .ok v' → IsName v'

theorem runOn_version_of_isSemantic (hv : Version.IsSemantic v) (r : Resolver) (t : Tool)
    (m : Machine) : (r.version t v).runOn m = (.ok v, m) := by
  have hself := Version.spells_self v
  rw [runOn_version_pinned (hself.not_asksForLatest hv), hself.dropLeadingV_trim hv]

/-- What a config may ask for is a name. -/
theorem IsReady.looksForName_of_isSpec (h : IsReady c r m) (hspec : Version.isSpec spec = true) :
    r.LooksForName t m spec := by
  intro v hversion v' hversion'
  obtain ⟨m', hrun⟩ := Session.exists_run hversion
  have hv := h.isSemantic (Version.isRequest_of_isSpec hspec) hrun
  rw [runOn_version_of_isSemantic hv] at hversion'
  exact Except.ok.inj hversion' ▸ Version.isName_of_semantic hv

/-- What is declared is read twice, and what is left of it is to be a name. -/
theorem IsReady.looksForName_of_isName (h : IsReady c r m)
    (hname : IsName (Text.dropLeadingV (Text.trim (Text.dropLeadingV (Text.trim spec))))) :
    r.LooksForName t m spec := by
  have hlatest {spec v : String} (hspec : Version.AsksForLatest spec)
      (hversion : ((r.version t spec).runOn m).1 = .ok v) : Version.IsSemantic v := by
    obtain ⟨m', hrun⟩ := Session.exists_run hversion
    exact h.isSemantic (hspec.imp_right fun hlatest => by rw [hlatest]; decide) hrun
  intro v hversion v' hversion'
  by_cases hspec : Version.AsksForLatest spec
  · have hv := hlatest hspec hversion
    rw [runOn_version_of_isSemantic hv] at hversion'
    exact Except.ok.inj hversion' ▸ Version.isName_of_semantic hv
  · rw [runOn_version_pinned hspec] at hversion
    obtain rfl := Except.ok.inj hversion
    by_cases hagain : Version.AsksForLatest (Text.dropLeadingV (Text.trim spec))
    · exact Version.isName_of_semantic (hlatest hagain hversion')
    · rw [runOn_version_pinned hagain] at hversion'
      exact Except.ok.inj hversion' ▸ hname

/-- What a run relies on when it starts: nothing has been looked up, and no link stands in the
cache; servers and programs keep no count of what is asked of them, and semantic versions are
published. -/
structure IsFresh (c : Place) (r : Resolver) (start : Machine) : Prop where
  new : start.recommended = none
  stateless : start.world.IsStateless
  published : start.world.PublishesSemantic r.versionsUrl
  stands : c.Stands start.workspace r.cacheRoot
  sound : start.workspace.tree.IsSound
  plain : r.platform.IsPlain

theorem IsFresh.ready (h : IsFresh c r m) : IsReady c r m :=
  ⟨h.stands, by simp [h.new], h.published⟩

end Tool

namespace Config

open Tool (IsFresh Resolver)

/-- Whether every embedded cluster config declares a version that is one name. -/
def DeclaresNames (config : Config) (w : Workspace) : Prop :=
  ∀ k files file v, Resource.clusterConfigs w k config.manifests = .ok files → file ∈ files →
    Resource.clusterVersion w file = .ok v →
    IsName (Text.dropLeadingV (Text.trim (Text.dropLeadingV (Text.trim v))))

/-- Whether nothing that a linter uses stands where binaries of others may be stored: neither what
it looks for nor a local binary is in sight of the cache, and its own binary lies in its own
directory there. -/
structure IsApart (config : Config) (c : Place) (r : Resolver) (t : Tool) (start : Machine) :
    Prop where
  fresh : IsFresh c r start
  lies : config.LiesApart c start.workspace t
  declared : t = .embeddedCluster → config.DeclaresNames start.workspace
  spares : ∀ path, r.overrides t = some path → c.Spares start.workspace path

end Config

namespace Command
namespace Project

open Session
open Tool (IsBehind IsFresh Resolver)

variable {p p' : Project} {r : Resolver} {c : Place} {t u : Tool} {spec : String}
  {start m m₁ m' n n₁ n' : Machine} {targets : List Target} {found found' : Found}
  {report report' : Report} {resources resources' : List Report.Resource}

/-! ### Searches -/

/-- What a search looks for is decided at the start. -/
theorem find_of_isBehind (hfresh : IsFresh c r start) (h : IsBehind c r t start m)
    (hlocal : r.overrides u = none) (spec : String) :
    (∃ e m', ((r.version u spec).runOn start).1 = .error e ∧ IsBehind c r t start m' ∧
      m'.workspace = m.workspace ∧ (find r u spec).runOn m = (.ok ⟨.error e, none, []⟩, m')) ∨
    ∃ v m₂ warnings, ((r.version u spec).runOn start).1 = .ok v ∧ IsBehind c r t start m₂ ∧
      m₂.workspace = m.workspace ∧ (find r u spec).runOn m =
        (.ok ⟨((r.resolve u v).runOn m₂).1, some v, warnings⟩, ((r.resolve u v).runOn m₂).2) := by
  have h₁ := h.after_version hfresh.new hfresh.stateless u spec
  rw [← h.version_eq hfresh.new hfresh.stateless u spec]
  rcases find_spec hlocal spec m with ⟨e, m', hversion, hfind⟩ |
    ⟨v, m₁, m₂, warnings, hversion, hm₂, hfind⟩
  · rw [hversion] at h₁ ⊢
    exact .inl ⟨e, m', rfl, h₁, Tool.Resolves.workspace_eq_of_version hversion, hfind⟩
  · rw [hversion] at h₁ ⊢
    have hworkspace := Tool.Resolves.workspace_eq_of_version hversion
    refine .inr ⟨v, m₂, warnings, rfl, ?_, ?_, hfind⟩
    · rcases hm₂ with rfl | rfl
      · exact h₁
      · exact h₁.after_latest hfresh.new hfresh.stateless u
    · rcases hm₂ with rfl | rfl
      · exact hworkspace
      · obtain ⟨log, hconsults⟩ := Tool.consults_latest r u m₁
        exact hconsults.workspace_eq.trans hworkspace

/-- A search for any binary stocks the cache for its tool. -/
theorem stocks_find (hfresh : IsFresh c r start) (h : IsBehind c r t start m)
    (hname : u ≠ .embeddedCluster → r.LooksForName u start spec) :
    c.Stocks (· = u) m.workspace ((find r u spec).runOn m).2.workspace := by
  cases hlocal : r.overrides u with
  | some path =>
    rw [runOn_find_of_local hlocal]
    exact .refl h.stocks.sound
  | none =>
    rcases find_of_isBehind hfresh h hlocal spec with ⟨e, m', -, -, hworkspace, hfind⟩ |
      ⟨v, m₂, warnings, hversion, h₂, hworkspace, hfind⟩
    · simp only [hfind, hworkspace]
      exact .refl h.stocks.sound
    · simp only [hfind, ← hworkspace]
      exact h₂.stocks_resolve hfresh.new hfresh.stateless hfresh.stands
        fun hne => hname hne v hversion

/-- **A search for another binary leaves no trace.** -/
theorem isBehind_after_find (hfresh : IsFresh c r start) (h : IsBehind c r t start m) (hu : u ≠ t)
    (hname : u ≠ .embeddedCluster → r.LooksForName u start spec) :
    IsBehind c r t start ((find r u spec).runOn m).2 := by
  cases hlocal : r.overrides u with
  | some path =>
    rw [runOn_find_of_local hlocal]
    exact h
  | none =>
    rcases find_of_isBehind hfresh h hlocal spec with ⟨e, m', -, h', -, hfind⟩ |
      ⟨v, m₂, warnings, hversion, h₂, -, hfind⟩
    · simp only [hfind]
      exact h'
    · simp only [hfind]
      exact h₂.after_resolve hfresh.new hfresh.stateless hfresh.stands hu
        fun hne => hname hne v hversion

/-- Whether two searches have found the same binary, or none for the same reason. -/
structure FindsAlike (found found' : Found) (m m' : Machine) : Prop where
  binary : found'.binary = found.binary
  node : ∀ path, found.binary = .ok path → m'.workspace.node path = m.workspace.node path

/-- **A search finds what it would have found at the start.** -/
theorem findsAlike_of_isBehind (hfresh : IsFresh c r start) (h : IsBehind c r t start m)
    (h' : IsBehind c r t start n) (hname : r.LooksForName t start spec)
    (hspared : ∀ path, r.overrides t = some path → c.Spares start.workspace path)
    (hfound : (find r t spec).runOn m = (.ok found, m₁))
    (hfound' : (find r t spec).runOn n = (.ok found', n₁)) : FindsAlike found found' m₁ n₁ := by
  cases hlocal : r.overrides t with
  | some path =>
    rw [runOn_find_of_local hlocal] at hfound hfound'
    obtain ⟨rfl, rfl⟩ := Prod.mk.inj hfound |>.imp_left Except.ok.inj
    obtain ⟨rfl, rfl⟩ := Prod.mk.inj hfound' |>.imp_left Except.ok.inj
    refine ⟨rfl, fun path' hpath => ?_⟩
    obtain rfl := Except.ok.inj hpath
    rw [h.stocks.node_eq (hspared _ hlocal), h'.stocks.node_eq (hspared _ hlocal)]
  | none =>
    rcases find_of_isBehind hfresh h hlocal spec with ⟨e, m', hversion, -, -, hfind⟩ |
        ⟨v, m₂, warnings, hversion, h₂, -, hfind⟩ <;>
      rcases find_of_isBehind hfresh h' hlocal spec with ⟨e', n', hversion', -, -, hfind'⟩ |
        ⟨v', n₂, warnings', hversion', h₂', -, hfind'⟩ <;>
      rw [hversion] at hversion' <;>
      rw [hfound] at hfind <;>
      rw [hfound'] at hfind'
    · obtain rfl := Except.error.inj hversion'
      obtain ⟨rfl, -⟩ := Prod.mk.inj hfind |>.imp_left Except.ok.inj
      obtain ⟨rfl, -⟩ := Prod.mk.inj hfind' |>.imp_left Except.ok.inj
      exact ⟨rfl, fun path hpath => by cases hpath⟩
    · cases hversion'
    · cases hversion'
    · obtain rfl := Except.ok.inj hversion'
      have hcongr := h₂.resolve_congr h₂' hfresh.new hfresh.stateless hfresh.stands
        hfresh.sound hfresh.plain (hname v hversion)
      generalize (r.resolve t v).runOn m₂ = result at hfind hcongr
      generalize (r.resolve t v).runOn n₂ = result' at hfind' hcongr
      obtain ⟨rfl, rfl⟩ := Prod.mk.inj hfind |>.imp_left Except.ok.inj
      obtain ⟨rfl, rfl⟩ := Prod.mk.inj hfind' |>.imp_left Except.ok.inj
      exact ⟨hcongr.1, hcongr.2⟩

/-! ### Turns -/

/-- Only embedded cluster configs declare a version. -/
theorem versionSpec_of_ne {w : Workspace} (ht : t ≠ .embeddedCluster) :
    p.versionSpec t targets w = .ok (p.settings.versionOf t) := by
  unfold versionSpec
  rw [bne_iff_ne.2 ht]
  rfl

/-- A linter that looks for its binary stocks the cache for its tool. -/
theorem stocks_lookFor (p : Project) (targets : List Target) (hfresh : IsFresh c r start)
    (h : IsBehind c r t start m)
    (hname : ∀ spec, u ≠ .embeddedCluster → p.versionSpec u targets m.workspace = .ok spec →
      r.LooksForName u start spec) :
    c.Stocks (· = u) m.workspace ((p.lookFor r u targets).runOn m).2.workspace := by
  rw [runOn_lookFor]
  cases hspec : p.versionSpec u targets m.workspace with
  | error e => exact .refl h.stocks.sound
  | ok spec => exact stocks_find hfresh h fun hne => hname spec hne hspec

/-- **The turn of another linter leaves no trace.** -/
theorem isBehind_after_section (hfresh : IsFresh c r start)
    (hspecs : ∀ u, Version.isSpec (p.settings.versionOf u) = true) (h : IsBehind c r t start m)
    (hu : u ≠ t) (hrun : (p.addSection r report u).runOn m = (.ok report', m')) :
    IsBehind c r t start m' := by
  obtain ⟨resources, -, ⟨-, -, rfl⟩ | ⟨-, targets, -, hlints⟩⟩ := addSection_cases hrun
  · exact h
  · rcases hlints with ⟨-, -, rfl⟩ | ⟨found, m₁, hfound, -, hcalls, -⟩
    · exact h
    · have h₁ : IsBehind c r t start m₁ := by
        rw [runOn_lookFor] at hfound
        cases hspec : p.versionSpec u targets m.workspace with
        | error e =>
          rw [hspec] at hfound
          exact (Prod.mk.inj hfound).2 ▸ h
        | ok spec =>
          rw [hspec] at hfound
          have hname (hne : u ≠ .embeddedCluster) : r.LooksForName u start spec := by
            rw [versionSpec_of_ne hne] at hspec
            exact Except.ok.inj hspec ▸ hfresh.ready.looksForName_of_isSpec (hspecs u)
          have hafter := isBehind_after_find hfresh h hu hname
          rwa [show (find r u spec).runOn m = _ from hfound] at hafter
      exact h₁.of_eq hcalls.world_eq hcalls.workspace_eq hcalls.recommended_eq

/-- What a turn keeps, turns keep. -/
theorem isBehind_after_sections {tools : List Tool} (hfresh : IsFresh c r start)
    (hspecs : ∀ u, Version.isSpec (p.settings.versionOf u) = true) (h : IsBehind c r t start m)
    (htools : t ∉ tools)
    (hrun : (tools.foldlM (p.addSection r) report).runOn m = (.ok report', m')) :
    IsBehind c r t start m' := by
  refine (foldlM_rest (motive := fun rest _ m => t ∉ rest ∧ IsBehind c r t start m) ?_
    ⟨htools, h⟩ hrun).2
  rintro u rest report next m m₁ ⟨hrest, h⟩ hstep
  rw [List.mem_cons, not_or] at hrest
  exact ⟨hrest.2, isBehind_after_section hfresh hspecs h (Ne.symm hrest.1) hstep⟩

/-! ### Two runs -/

/-- What is reported of targets that have a binary, if programs keep no count of their calls. -/
theorem Reports.eq_map {binary : Path} (hworld : m.world.IsStateless)
    (h : p.Reports (.ok binary) m m' targets resources) :
    resources = targets.map fun target => p.resource binary m.workspace target
      (m.world.answer 0 m.workspace binary (p.call binary target).arguments) := by
  have hall : List.Forall₂ (p.Judged binary m m') targets resources := h
  induction hall with
  | nil => rfl
  | cons hx _ ih =>
    obtain ⟨number, -, hx⟩ := hx.resource
    rw [hx, hworld.answer_congr rfl number 0, List.map_cons, ← ih ‹_›]

/-- **Targets are reported the same** in two trees that hold the same at them and at the binary. -/
theorem Reports.congr (halike : p.AlikeFor t p') (hworld : m.world.IsStateless)
    (hworlds : n.world = m.world) (htool : ∀ target ∈ targets, target.tool = t)
    (hnode : ∀ target ∈ targets, n.workspace.node target.path = m.workspace.node target.path)
    (hfinds : FindsAlike found found' m n) (h : p.Reports found.binary m m' targets resources)
    (h' : p'.Reports found'.binary n n' targets resources') : resources' = resources := by
  rw [hfinds.binary] at h'
  cases hbinary : found.binary with
  | error e =>
    rw [hbinary] at h h'
    rw [show resources = _ from h, show resources' = _ from h']
    exact List.map_congr_left fun target _ => by rw [halike.displayed_eq]
  | ok binary =>
    rw [hbinary] at h h'
    rw [h.eq_map hworld, h'.eq_map (hworlds ▸ hworld)]
    refine List.map_congr_left fun target htarget => ?_
    rw [halike.call_eq (htool target htarget), hworlds,
      hworld.answer_congr (hfinds.node binary hbinary) 0 0,
      halike.resource_congr (htool target htarget) (hnode target htarget)]

/-- A linter that lints the same targets with the same binary comes to the same. -/
theorem Lints.congr (halike : p.AlikeFor t p') (hworld : m.world.IsStateless)
    (hworlds : n.world = m.world) (htool : ∀ target ∈ targets, target.tool = t)
    (hfinds : ∀ found m₁ found' n₁, (p.lookFor r t targets).runOn m = (.ok found, m₁) →
      (p'.lookFor r t targets).runOn n = (.ok found', n₁) → FindsAlike found found' m₁ n₁ ∧
        ∀ target ∈ targets, n₁.workspace.node target.path = m₁.workspace.node target.path)
    (h : p.Lints r t m m' targets resources) (h' : p'.Lints r t n n' targets resources') :
    resources' = resources := by
  rcases h with ⟨rfl, rfl, -⟩ | ⟨found, m₁, hfound, hidles, -, hreports⟩
  · exact List.map_eq_nil_iff.1 h'.map_path
  · rcases h' with ⟨rfl, rfl, -⟩ | ⟨found', n₁, hfound', hidles', -, hreports'⟩
    · exact (List.map_eq_nil_iff.1 hreports.map_path).symm
    · obtain ⟨hfinds, hnode⟩ := hfinds found m₁ found' n₁ hfound hfound'
      refine hreports.congr halike (hidles.world ▸ hworld) ?_ htool hnode hfinds hreports'
      rw [hidles.world, hidles'.world, hworlds]

/-- **What a linter looks for is one name,** if this is so for what is declared. -/
theorem looksForName_of_versionSpec (hapart : p.config.IsApart c r t start)
    (hspecs : ∀ u, Version.isSpec (p.settings.versionOf u) = true)
    (htargets : p.targets t start.workspace = .ok targets)
    (hspec : p.versionSpec t targets start.workspace = .ok spec) : r.LooksForName t start spec := by
  by_cases ht : t = .embeddedCluster
  · subst ht
    unfold versionSpec at hspec
    simp only at hspec
    split_ifs at hspec
    · exact Except.ok.inj hspec ▸ hapart.fresh.ready.looksForName_of_isSpec (hspecs _)
    cases targets with
    | nil => exact Except.ok.inj hspec ▸ hapart.fresh.ready.looksForName_of_isSpec (hspecs _)
    | cons target rest =>
      obtain ⟨configs, hconfigs, htargets⟩ := bind_eq_ok.1 htargets
      have htarget : target ∈ configs.map Target.clusterConfig := by
        rw [Except.ok.inj htargets]
        exact List.mem_cons_self
      obtain ⟨path, hpath, rfl⟩ := List.mem_map.1 htarget
      exact hapart.fresh.ready.looksForName_of_isName
        (hapart.declared rfl _ _ path spec hconfigs hpath hspec)
  · rw [versionSpec_of_ne ht] at hspec
    exact Except.ok.inj hspec ▸ hapart.fresh.ready.looksForName_of_isSpec (hspecs t)

/-- **Behind the start a linter looks for the same binary,** and then meets the same targets. -/
theorem findsAlike_of_isApart (hapart : p.config.IsApart c r t start)
    (hspecs : ∀ u, Version.isSpec (p.settings.versionOf u) = true) (halike : p.AlikeFor t p')
    (ht : t ≠ .helm) (h : IsBehind c r t start m) (h' : IsBehind c r t start n)
    (htargets : p.targets t start.workspace = .ok targets)
    (hfound : (p.lookFor r t targets).runOn m = (.ok found, m₁))
    (hfound' : (p'.lookFor r t targets).runOn n = (.ok found', n₁)) :
    FindsAlike found found' m₁ n₁ ∧
      ∀ target ∈ targets, n₁.workspace.node target.path = m₁.workspace.node target.path := by
  have hspares : ∀ target ∈ targets, c.Spares start.workspace target.path := fun _ htarget =>
    spares_of_mem_targets hapart.lies ht hapart.fresh.sound htargets htarget
  have hspec : p.versionSpec t targets m.workspace = p.versionSpec t targets start.workspace :=
    (AlikeFor.refl t p).versionSpec_congr fun _ htarget => h.stocks.node_eq (hspares _ htarget)
  have hspec' : p'.versionSpec t targets n.workspace = p.versionSpec t targets start.workspace :=
    halike.versionSpec_congr fun _ htarget => h'.stocks.node_eq (hspares _ htarget)
  have hnames (spec : String) (heq : p.versionSpec t targets start.workspace = .ok spec) :
      r.LooksForName t start spec := looksForName_of_versionSpec hapart hspecs htargets heq
  have hstocks := stocks_lookFor p targets hapart.fresh h
    fun spec _ heq => hnames spec (hspec ▸ heq)
  have hstocks' := stocks_lookFor p' targets hapart.fresh h'
    fun spec _ heq => hnames spec (hspec' ▸ heq)
  rw [hfound] at hstocks
  rw [hfound'] at hstocks'
  constructor
  · rw [runOn_lookFor, hspec] at hfound
    rw [runOn_lookFor, hspec'] at hfound'
    cases heq : p.versionSpec t targets start.workspace with
    | error e =>
      rw [heq] at hfound hfound'
      obtain ⟨rfl, rfl⟩ := Prod.mk.inj hfound |>.imp_left Except.ok.inj
      obtain ⟨rfl, rfl⟩ := Prod.mk.inj hfound' |>.imp_left Except.ok.inj
      exact ⟨rfl, fun path hpath => by cases hpath⟩
    | ok spec =>
      rw [heq] at hfound hfound'
      exact findsAlike_of_isBehind hapart.fresh h h' (hnames spec heq) hapart.spares hfound hfound'
  · intro target htarget
    have hall := (h.stocks.mono fun _ _ => trivial).trans (hstocks.mono fun _ _ => trivial)
    have hall' := (h'.stocks.mono fun _ _ => trivial).trans (hstocks'.mono fun _ _ => trivial)
    exact (hspares target htarget _ hall').trans (hspares target htarget _ hall).symm

/-- **Behind the start a linter has the same section,** whatever others have done before it. -/
theorem section_congr_of_isApart (hapart : p.config.IsApart c r t start)
    (hspecs : ∀ u, Version.isSpec (p.settings.versionOf u) = true) (halike : p.AlikeFor t p')
    (ht : t ≠ .helm) (h : IsBehind c r t start m) (h' : IsBehind c r t start n)
    {targets' : List Target} (htargets : p.targets t m.workspace = .ok targets)
    (htargets' : p'.targets t n.workspace = .ok targets')
    (hlints : p.Lints r t m m' targets resources)
    (hlints' : p'.Lints r t n n' targets' resources') : resources' = resources := by
  have hall {k : Machine} (hk : IsBehind c r t start k) :
      p.targets t k.workspace = p.targets t start.workspace :=
    targets_of_stocks hapart.lies ht hapart.fresh.sound (hk.stocks.mono fun _ _ => trivial)
  rw [halike.targets_eq, hall h'] at htargets'
  rw [hall h] at htargets
  obtain rfl := Except.ok.inj (htargets.symm.trans htargets')
  exact hlints.congr halike (h.world ▸ hapart.fresh.stateless) (h'.world.trans h.world.symm)
    (fun target htarget => tool_of_mem_targets htargets htarget)
    (fun found m₁ found' n₁ => findsAlike_of_isApart hapart hspecs halike ht h h' htargets) hlints'

/-- The first linter has the same section in two runs from one machine. -/
theorem section_congr_of_helm (halike : p.AlikeFor .helm p') (hworld : m.world.IsStateless)
    {targets' : List Target} (htargets : p.targets .helm m.workspace = .ok targets)
    (htargets' : p'.targets .helm m.workspace = .ok targets')
    (hlints : p.Lints r .helm m m' targets resources)
    (hlints' : p'.Lints r .helm m n' targets' resources') : resources' = resources := by
  rw [halike.targets_eq] at htargets'
  obtain rfl := Except.ok.inj (htargets.symm.trans htargets')
  refine hlints.congr halike hworld rfl
    (fun target htarget => tool_of_mem_targets htargets htarget) ?_ hlints'
  intro found m₁ found' n₁ hfound hfound'
  rw [runOn_lookFor] at hfound hfound'
  rw [halike.versionSpec_congr fun _ _ => rfl] at hfound'
  obtain ⟨hsame, rfl⟩ := Prod.mk.inj (hfound.symm.trans hfound')
  obtain rfl := Except.ok.inj hsame
  exact ⟨⟨rfl, fun _ _ => rfl⟩, fun _ _ => rfl⟩

/-- Helm has its turn first, and every linter has one turn. -/
theorem exists_split (t : Tool) :
    ∃ before after, Tool.all = before ++ t :: after ∧ t ∉ before ∧ (t = .helm → before = []) := by
  cases t with
  | helm => exact ⟨[], _, rfl, by decide, fun _ => rfl⟩
  | preflight => exact ⟨[.helm], _, rfl, by decide, nofun⟩
  | supportBundle => exact ⟨[.helm, .preflight], _, rfl, by decide, nofun⟩
  | embeddedCluster => exact ⟨[.helm, .preflight, .supportBundle], _, rfl, by decide, nofun⟩
  | kots => exact ⟨[.helm, .preflight, .supportBundle, .embeddedCluster], _, rfl, by decide, nofun⟩

/-- **Every linter has its section,** made when it has its turn. -/
theorem exists_section {before after : List Tool} (htools : Tool.all = before ++ t :: after)
    (hempty : report.sections = [])
    (hrun : (Tool.all.foldlM (p.addSection r) report).runOn m = (.ok report', m')) :
    ∃ reached mₜ m₁ resources, (before.foldlM (p.addSection r) report).runOn m = (.ok reached, mₜ) ∧
      report'.section? t = some ⟨t, p.runs t, resources⟩ ∧
      (p.runs t = false ∧ resources = [] ∨
        p.runs t = true ∧ ∃ targets, p.targets t mₜ.workspace = .ok targets ∧
          p.Lints r t mₜ m₁ targets resources) := by
  have hnodup : (report'.sections.map (·.tool)).Nodup := by
    rw [tools_of_foldlM hrun, hempty]
    decide
  rw [htools] at hrun
  obtain ⟨reached, mₜ, next, m₁, hbefore, hstep, hprefix, -⟩ := exists_turn hrun
  obtain ⟨resources, hsections, hturn⟩ := addSection_cases hstep
  have hmem : ⟨t, p.runs t, resources⟩ ∈ report'.sections :=
    hprefix.subset (hsections ▸ List.mem_append_right _ List.mem_cons_self)
  exact ⟨reached, mₜ, m₁, resources, hbefore,
    (Report.section?_eq_some_iff hnodup).2 ⟨rfl, hmem⟩,
    hturn.imp_left fun h => ⟨h.1, h.2.1⟩⟩

/-- **The section of a linter is the same in two projects** that are alike for it if it runs. -/
theorem section?_congr (hruns : p'.runs t = p.runs t) (halike : p.runs t = true → p.AlikeFor t p')
    (hspecs : ∀ u, Version.isSpec (p.settings.versionOf u) = true)
    (hspecs' : ∀ u, Version.isSpec (p'.settings.versionOf u) = true)
    (hworld : start.world.IsStateless)
    (hapart : t = .helm ∨ ∃ c, p.config.IsApart c r t start) {first first' : Report}
    (hempty : first.sections = []) (hempty' : first'.sections = [])
    (hrun : (Tool.all.foldlM (p.addSection r) first).runOn start = (.ok report, m'))
    (hrun' : (Tool.all.foldlM (p'.addSection r) first').runOn start = (.ok report', n')) :
    ∃ s, report.section? t = some s ∧ report'.section? t = some s := by
  obtain ⟨before, after, htools, ht, hfirst⟩ := exists_split t
  obtain ⟨reached, m, m₁, resources, hbefore, hsection, hturn⟩ := exists_section htools hempty hrun
  obtain ⟨reached', n, n₁, resources', hbefore', hsection', hturn'⟩ :=
    exists_section htools hempty' hrun'
  refine ⟨_, hsection, ?_⟩
  rw [hsection', hruns]
  suffices hsame : resources' = resources by rw [hsame]
  rw [hruns] at hturn'
  rcases hturn with ⟨hoff, rfl⟩ | ⟨hon, targets, htargets, hlints⟩
  · exact (hturn'.resolve_right fun h => by rw [hoff] at h; cases h.1).2
  obtain ⟨-, targets', htargets', hlints'⟩ :=
    hturn'.resolve_left fun h => by rw [hon] at h; cases h.1
  by_cases hhelm : t = .helm
  · subst hhelm
    obtain rfl := hfirst rfl
    obtain rfl := (Prod.mk.inj hbefore).2
    obtain rfl := (Prod.mk.inj hbefore').2
    exact section_congr_of_helm (halike hon) hworld htargets htargets' hlints hlints'
  · obtain ⟨c, hapart⟩ := hapart.resolve_left hhelm
    have hbegin : IsBehind c r t start start := .refl hapart.fresh.new hapart.fresh.sound
    exact section_congr_of_isApart hapart hspecs (halike hon) hhelm
      (isBehind_after_sections hapart.fresh hspecs hbegin ht hbefore)
      (isBehind_after_sections hapart.fresh hspecs' hbegin ht hbefore')
      htargets htargets' hlints hlints'

end Project

/-! ### The whole run -/

open Session
open Tool (Resolver)

variable {o o' : Options} {r : Resolver} {t : Tool} {config config' : Config} {m m' n' : Machine}
  {rep rep' : Report}

/-- Configs that are alike for a linter lead to the same section for it. -/
theorem section?_of_reportWith (hspecs : ∀ u, Version.isSpec (config.lintSettings.versionOf u) = true)
    (halike : config.AlikeFor t config') (hproject : o'.project = o.project)
    (hstrict : o'.strict = o.strict) (hworld : m.world.IsStateless)
    (hapart : t = .helm ∨ ∃ c, config.IsApart c r t m)
    (h : (reportWith o r config).runOn m = (.ok rep, m'))
    (h' : (reportWith o' r config').runOn m = (.ok rep', n')) :
    ∃ s, rep.section? t = some s ∧ rep'.section? t = some s := by
  rcases reportWith_cases h with ⟨hdisabled, -, hsections⟩ | ⟨henabled, p, _, _, hp, hrun⟩ <;>
    rcases reportWith_cases h' with ⟨hdisabled', -, hsections'⟩ | ⟨henabled', p', _, _, hp', hrun'⟩
  · have hfind : (Tool.all.map fun t => (⟨t, false, []⟩ : Report.Section)).find? (·.tool == t) =
        some ⟨t, false, []⟩ := by cases t <;> rfl
    unfold Report.section?
    rw [hsections, hsections', hfind]
    exact ⟨_, rfl, rfl⟩
  · rw [halike.isEnabled_eq, hdisabled] at henabled'
    cases henabled'
  · rw [halike.isEnabled_eq, henabled] at hdisabled'
    cases hdisabled'
  · obtain ⟨-, hp₁, -⟩ := Project.gather_eq_ok hp
    obtain ⟨-, hp₁', -⟩ := Project.gather_eq_ok hp'
    have hruns : p'.runs t = p.runs t := by
      unfold Project.runs Project.settings
      rw [hp₁, hp₁', halike.switches]
    refine Project.section?_congr hruns
      (fun hon => Project.alikeFor_of_gather halike hproject hstrict hp hp' hon) ?_ ?_ hworld
      (hp₁ ▸ hapart) rfl rfl hrun hrun'
    · unfold Project.settings
      rwa [hp₁]
    · unfold Project.settings
      intro u
      rw [hp₁', halike.versionOf_eq]
      exact hspecs u

/-- **Linters do not interfere.**

For every linter, tree, servers and programs that keep no count of what is asked of them, and two
configs that apply and differ in nothing but the switches of other linters: whenever both of them
come to a report, the section of the linter is the same in both.

This always holds for the linter that has its turn first.  For another one, nothing that it uses may
stand where binaries of others are stored: no link stands in the cache or on the way to it, what it
looks for and its local binary are out of sight of the cache, and the versions that are published or
declared are one name each. -/
theorem linters_do_not_interfere {w w₀ : Workspace} {start : Path} {world : World}
    (hconfig : Config.resolve w₀ start = .ok config)
    (halike : config.AlikeFor t config') (hproject : o'.project = o.project)
    (hstrict : o'.strict = o.strict) (hworld : world.IsStateless)
    (hapart : t = .helm ∨ ∃ c, config.IsApart c r t (.fresh world w)) :
    (∀ rep rep' m m', (reportWith o r config).runOn (.fresh world w) = (.ok rep, m) →
      (reportWith o' r config').runOn (.fresh world w) = (.ok rep', m') →
      ∃ s, rep.section? t = some s ∧ rep'.section? t = some s) ∧
    (loadConfig o w = .ok config → loadConfig o' w = .ok config' →
      ∀ rep rep' m m', (report o r).runOn (.fresh world w) = (.ok rep, m) →
        (report o' r).runOn (.fresh world w) = (.ok rep', m') →
        ∃ s, rep.section? t = some s ∧ rep'.section? t = some s) := by
  have hspecs := Config.isSpec_versionOf hconfig
  constructor
  · intro rep rep' m m' h h'
    exact section?_of_reportWith hspecs halike hproject hstrict hworld hapart h h'
  · intro hload hload' rep rep' m m' h h'
    have hrun := runOn_report (r := r) (m := .fresh world w) hload
    have hrun' := runOn_report (r := r) (m := .fresh world w) hload'
    exact section?_of_reportWith hspecs halike hproject hstrict hworld hapart (hrun.symm.trans h)
      (hrun'.symm.trans h')

/-- A project with a preflight, and with manifests for `kots`, beside a cache. -/
def besideCache (manifests : String) : Workspace where
  tree := ⟨[(["b"], .directory), (["b", "kots"], .file .empty true), (["c"], .directory),
    (["p"], .directory), (["p", ".replicated"], .file ("preflights: [\x7bpath: s.yaml\x7d]\n" ++
      "manifests: [" ++ manifests ++ "]\nrepl-lint: \x7blinters: \x7bkots: \x7bdisabled: false\x7d\x7d, " ++
      "tools: \x7bpreflight: 1.0.0\x7d\x7d").toUTF8 false),
    (["p", "m"], .directory), (["p", "m", "a.yaml"], .file .empty false),
    (["p", "s.yaml"], .file "kind: Preflight\n".toUTF8 false)]⟩
  directory := ⟨"/p"⟩

/-- A resolver with a local binary for `kots`. -/
def kotsResolver : Resolver :=
  ⟨⟨"/c"⟩, fun t => if t = .kots then some ⟨"/b/kots"⟩ else none, "http://h/ping",
    .single "http://h", ⟨"windows", "amd64"⟩⟩

/-- No preflight is linted. -/
def withoutPreflights (config : Config) : Config :=
  config.withSwitches .preflight ⟨some true, some false⟩

/-- What a run in this project reports. -/
def reportBeside (world : World) (manifests : String) (config : Config) : Option Report :=
  ((reportWith chartsOptions kotsResolver config).runOn
    (.fresh world (besideCache manifests))).1.toOption

theorem isOutOfSight_besideCache {s : String} (hs : s ∈ ["b", "p"]) :
    Place.IsOutOfSight ⟨[.name "c"], ["c"], []⟩ (besideCache "/p/m/*.yaml") [s] := by
  have hplain : ∀ s ∈ ["b", "p"], (besideCache "/p/m/*.yaml").tree.IsPlain [s] := by
    rintro s hs
    rcases List.mem_pair.1 hs with rfl | rfl
    all_goals
      exact Tree.isPlain_of_entries (by decide) (by decide +kernel) (by decide +kernel)
        (by decide +kernel)
  refine Place.isOutOfSight_of_isPlain (hplain s hs) ?_
  rintro m ⟨r, -, heq, -⟩
  obtain rfl := (List.cons.inj heq).1
  revert hs
  decide

theorem isApart_besideCache {config : Config} (h : config.manifests = ["/p/m/*.yaml"]) :
    config.IsApart ⟨[.name "c"], ["c"], []⟩ kotsResolver .kots
      (.fresh approving (besideCache "/p/m/*.yaml")) where
  fresh :=
    { new := rfl
      stateless := ⟨fun _ _ _ => rfl, fun _ _ _ _ => rfl⟩
      published := fun number versions h => by cases h
      stands := ⟨by decide, rfl, rfl, fun names _ target =>
        Tree.find?_ne_link (by decide) names target⟩
      sound := by decide +kernel
      plain := by constructor <;> decide }
  lies := by
    intro x hx
    rw [h, List.mem_singleton] at hx
    exact ⟨["p"], isOutOfSight_besideCache (by decide), by decide, ["m"], "*.yaml", by decide,
      by rw [hx]; decide⟩
  declared := nofun
  spares path hpath := by
    obtain rfl := Option.some.inj hpath
    exact (isOutOfSight_besideCache (s := "b") (by decide)).spares_ofNames (m := ["kots"])
      (by decide)

/-- Manifests beside the cache are linted the same with and without preflights. -/
theorem kots_section_besides_preflights : ∃ config rep rep' m m',
    loadConfig chartsOptions (besideCache "/p/m/*.yaml") = .ok config ∧
    config.AlikeFor .kots (withoutPreflights config) ∧
    (reportWith chartsOptions kotsResolver config).runOn
      (.fresh approving (besideCache "/p/m/*.yaml")) = (.ok rep, m) ∧
    (reportWith chartsOptions kotsResolver (withoutPreflights config)).runOn
      (.fresh approving (besideCache "/p/m/*.yaml")) = (.ok rep', m') ∧
    ∃ s, rep.section? .kots = some s ∧ rep'.section? .kots = some s := by
  obtain ⟨config, hconfig, htest⟩ := Config.exists_resolve_such_iff.1
    (show Config.writesSuch (besideCache "/p/m/*.yaml") ⟨"/p"⟩ (fun config =>
      config.manifests == ["/p/m/*.yaml"] &&
        (reportBeside approving "/p/m/*.yaml" config).isSome &&
        (reportBeside approving "/p/m/*.yaml" (withoutPreflights config)).isSome) = true by
      decide +kernel)
  simp only [Bool.and_eq_true, beq_iff_eq, Option.isSome_iff_exists] at htest
  obtain ⟨⟨hmanifests, rep, hrep⟩, rep', hrep'⟩ := htest
  obtain ⟨m, hrun⟩ := exists_run (toOption_eq_some_iff.1 hrep)
  obtain ⟨m', hrun'⟩ := exists_run (toOption_eq_some_iff.1 hrep')
  have halike : config.AlikeFor .kots (withoutPreflights config) :=
    config.alikeFor_withSwitches ⟨some true, some false⟩ (by decide)
  obtain ⟨hsame, -⟩ := linters_do_not_interfere hconfig halike
    (rfl : chartsOptions.project = chartsOptions.project)
    (rfl : chartsOptions.strict = chartsOptions.strict) ⟨fun _ _ _ => rfl, fun _ _ _ _ => rfl⟩
    (.inr ⟨_, isApart_besideCache hmanifests⟩)
  exact ⟨config, rep, rep', m, m', hconfig, halike, hrun, hrun', hsame _ _ _ _ hrun hrun'⟩

/-- Servers that publish one archive, whatever has been asked of them, and no programs. -/
def publishing : World where
  reply _ url :=
    if url = "http://h/v1.0.0/preflight_windows_amd64.zip" then .response 200 Tool.sampleArchive
    else if url = "http://h/v1.0.0/troubleshoot_1.0.0_checksums.txt" then .response 200
      ("dc6dcbd5ac8d74c4e269e13737d247a88fe0cf37249253278e9cd20bf6a96e36" ++
        "  preflight_windows_amd64.zip").toUTF8
    else .unreachable
  run _ _ _ := .error .execFormat

/-- The tree behind the linting of preflights: the published binary is in the cache. -/
def stockedCache : Workspace :=
  ((Tool.Cache.store ⟨"/c"⟩ .preflight "1.0.0" ⟨"windows", "amd64"⟩ ⟨#[120]⟩).runOn
    (.fresh publishing (besideCache "/c/*/*/*/*"))).2.workspace

theorem workspace_resolve_publishing {m : Machine} (hworld : m.world = publishing)
    (hworkspace : m.workspace = besideCache "/c/*/*/*/*") :
    ((kotsResolver.resolve .preflight "1.0.0").runOn m).2.workspace = stockedCache := by
  have harchive : Tool.sampleRelease.archiveUrl = "http://h/v1.0.0/preflight_windows_amd64.zip" := by
    decide +kernel
  have hchecksums : Tool.sampleRelease.checksum.url =
      "http://h/v1.0.0/troubleshoot_1.0.0_checksums.txt" := by decide +kernel
  rw [Tool.runOn_resolve_sampleArchive rfl rfl (by simp [hworld, publishing, harchive])
    (by simp [hworld, publishing, hchecksums, Tool.sampleChecksums, Tool.sampleDigest])
    (by rw [hworkspace]; decide +kernel)]
  unfold stockedCache
  exact @Tool.Cache.workspace_store_congr ⟨"/c"⟩ .preflight "1.0.0" ⟨"windows", "amd64"⟩ ⟨#[120]⟩
    (.fresh publishing (besideCache "/c/*/*/*/*"))
    { m with requests := m.requests ++ Tool.sampleRequests } hworkspace

namespace Project

/-- Whether a linter does not run, or has nothing to lint. -/
def isIdle (p : Project) (w : Workspace) (t : Tool) : Bool :=
  !p.runs t || (p.targets t w).toOption.any (·.isEmpty)

theorem runOn_addSection_of_isIdle {p : Project} (h : p.isIdle m.workspace t = true) (r : Resolver)
    (report : Report) : (p.addSection r report t).runOn m =
      (.ok { report with sections := report.sections ++ [⟨t, p.runs t, []⟩] }, m) := by
  unfold isIdle at h
  simp only [Bool.or_eq_true, Bool.not_eq_true', Option.any_eq_true, List.isEmpty_iff] at h
  rcases h with hruns | ⟨_, htargets, rfl⟩
  · rw [runOn_addSection_of_not_runs hruns, hruns]
  · exact runOn_addSection_of_no_targets (toOption_eq_some_iff.1 htargets) r report

/-- Linting preflights stores what is published. -/
theorem exists_section_of_preflights {p : Project} (hruns : p.runs .preflight = true)
    {target : Target} {rest : List Target}
    (htargets : p.targets .preflight (besideCache "/c/*/*/*/*") = .ok (target :: rest))
    (hversion : p.settings.versionOf .preflight = "1.0.0") (hworld : m.world = publishing)
    (hworkspace : m.workspace = besideCache "/c/*/*/*/*") (report : Report) :
    ∃ report' resources m', (p.addSection kotsResolver report .preflight).runOn m =
        (.ok report', m') ∧ report'.sections = report.sections ++ [⟨.preflight, true, resources⟩] ∧
      m'.workspace = stockedCache := by
  have hspec := runOn_addSection hruns kotsResolver report m
  rw [hworkspace, htargets] at hspec
  obtain ⟨report', resources, m', hrun, hsections, hlints⟩ := hspec
  refine ⟨report', resources, m', hrun, hsections, ?_⟩
  rcases hlints with ⟨hnil, -⟩ | ⟨found, m₁, hfound, -, hcalls, -⟩
  · cases hnil
  have hspec : p.versionSpec .preflight (target :: rest) m.workspace = .ok "1.0.0" := by
    unfold versionSpec
    rw [hversion]
    rfl
  have hsemantic : Version.IsSemantic "1.0.0" := by
    unfold Version.IsSemantic
    decide
  have hpinned := Tool.runOn_version_of_isSemantic hsemantic kotsResolver .preflight m
  rw [runOn_lookFor, hspec] at hfound
  have hcall : m'.workspace = m₁.workspace := by rw [hcalls.eq]
  rw [hcall]
  rcases find_cases (r := kotsResolver) (t := .preflight) rfl "1.0.0" m with ⟨e, n, herror, -⟩ |
    ⟨v, n, n', log, warnings, hv, hconsults, hfind⟩
  · rw [hpinned] at herror
    cases herror
  · obtain ⟨hsame, rfl⟩ := Prod.mk.inj (hpinned.symm.trans hv)
    obtain rfl := Except.ok.inj hsame
    rw [← (Prod.mk.inj (hfind.symm.trans hfound)).2]
    exact workspace_resolve_publishing (hconsults.world_eq.trans hworld)
      (hconsults.workspace_eq.trans hworkspace)

end Project

/-- Manifests in the cache: what is stored for preflights is linted by `kots`. -/
theorem kots_section_changed_by_preflights : publishing.IsStateless ∧
    ∃ config rep rep' m m', loadConfig chartsOptions (besideCache "/c/*/*/*/*") = .ok config ∧
      config.AlikeFor .kots (withoutPreflights config) ∧
      (reportWith chartsOptions kotsResolver config).runOn
        (.fresh publishing (besideCache "/c/*/*/*/*")) = (.ok rep, m) ∧
      (reportWith chartsOptions kotsResolver (withoutPreflights config)).runOn
        (.fresh publishing (besideCache "/c/*/*/*/*")) = (.ok rep', m') ∧
      rep.section? .kots ≠ rep'.section? .kots := by
  obtain ⟨config, hconfig, htest⟩ := Config.exists_resolve_such_iff.1
    (show Config.writesSuch (besideCache "/c/*/*/*/*") ⟨"/p"⟩ (fun config =>
      config.lintSettings.isEnabled &&
        ((Project.gather chartsOptions config (besideCache "/c/*/*/*/*")).toOption.any fun p =>
          (p.pairingWarnings (besideCache "/c/*/*/*/*")).toOption.isSome &&
            p.isIdle (besideCache "/c/*/*/*/*") .helm && p.runs .preflight &&
            (p.targets .preflight (besideCache "/c/*/*/*/*")).toOption.any (!·.isEmpty) &&
            p.settings.versionOf .preflight == "1.0.0" &&
            [Tool.supportBundle, .embeddedCluster].all (p.isIdle stockedCache) && p.runs .kots &&
            (p.targets .kots stockedCache).toOption.any (!·.isEmpty)) &&
        (reportBeside publishing "/c/*/*/*/*" (withoutPreflights config)).any fun rep =>
          (rep.section? .kots).any (·.resources.isEmpty)) = true by decide +kernel)
  simp only [Bool.and_eq_true, Option.any_eq_true, Option.isSome_iff_exists, beq_iff_eq,
    List.all_cons, List.all_nil] at htest
  obtain ⟨⟨henabled, p, hp, ⟨⟨⟨⟨⟨⟨⟨warnings, hwarnings⟩, hhelm⟩, hruns⟩, targets, htargets, hne⟩,
    hversion⟩, hbundles, hclusters, -⟩, hkots⟩, files, hfiles, hfile⟩, rep', hrep', s', hs',
    hnone⟩ := htest
  obtain ⟨m', hrun'⟩ := exists_run (toOption_eq_some_iff.1 hrep')
  obtain ⟨target, rest, rfl⟩ := List.exists_cons_of_ne_nil (show targets ≠ [] by simpa using hne)
  obtain ⟨metadata, hreport⟩ := exists_runOn_reportWith (o := chartsOptions) (r := kotsResolver)
    (m := .fresh publishing (besideCache "/c/*/*/*/*")) henabled (toOption_eq_some_iff.1 hp)
    (toOption_eq_some_iff.1 hwarnings)
  -- helm has no charts, preflights fill the cache, and the next two linters leave it alone
  have hfirst := Project.runOn_addSection_of_isIdle
    (m := .fresh publishing (besideCache "/c/*/*/*/*")) hhelm kotsResolver ⟨metadata, [], warnings⟩
  obtain ⟨report, resources, m₂, hsecond, hsections, hstocked⟩ :=
    Project.exists_section_of_preflights (m := .fresh publishing (besideCache "/c/*/*/*/*")) hruns
      (toOption_eq_some_iff.1 htargets) hversion rfl rfl ⟨metadata, [⟨.helm, p.runs .helm, []⟩], warnings⟩
  have hthird := Project.runOn_addSection_of_isIdle (hstocked ▸ hbundles) kotsResolver report
  have hfourth := Project.runOn_addSection_of_isIdle (hstocked ▸ hclusters) kotsResolver
    { report with sections := report.sections ++ [⟨.supportBundle, p.runs .supportBundle, []⟩] }
  have hspec := Project.runOn_addSection hkots kotsResolver
    { report with sections := report.sections ++ [⟨.supportBundle, p.runs .supportBundle, []⟩] ++
        [⟨.embeddedCluster, p.runs .embeddedCluster, []⟩] } m₂
  rw [hstocked, toOption_eq_some_iff.1 hfiles] at hspec
  obtain ⟨rep, linted, m, hfifth, hsections', hlints⟩ := hspec
  have hrun : (reportWith chartsOptions kotsResolver config).runOn
      (.fresh publishing (besideCache "/c/*/*/*/*")) = (.ok rep, m) := by
    rw [hreport, Tool.all]
    simp only [List.foldlM_cons, List.foldlM_nil, runOn_bind, hfirst, List.nil_append, hsecond,
      hthird, hfourth, hfifth, runOn_pure]
  have hsection : rep.section? .kots = some ⟨.kots, true, linted⟩ := by
    unfold Report.section?
    rw [hsections', hsections]
    rfl
  refine ⟨⟨fun _ _ _ => rfl, fun _ _ _ _ => rfl⟩, config, rep, rep', m, m', hconfig,
    config.alikeFor_withSwitches _ (by decide), hrun, hrun', fun hsame => ?_⟩
  rw [hsection, hs', Option.some.injEq] at hsame
  have hlength := congrArg List.length hlints.map_path
  rw [← hsame, List.isEmpty_iff] at hnone
  rw [show linted = [] from hnone] at hlength
  simp only [List.length_map, List.length_nil, eq_comm, List.length_eq_zero_iff] at hlength
  rw [hlength] at hfile
  cases hfile

end Command
end ReleaseLint
