/-
# Where a version leads

    version  →  root / tool / version / os-arch / binary  →  checked, written or returned

| a version that comes from | is | its binary lies in the cache |
| --- | --- | --- |
| the settings of a config that applies | a semantic version | always |
| an embedded cluster config | any text that is not blank | if the text names one directory |
| a document of recommended versions | any text that is not empty | if the text names one directory |

A resolve uses the file tree at one path only, that of the binary of its version
(`Resolves.uses`).  What the text of a version does to this path is `isBinary_iff`: a text that
begins at the root is the path itself, and any other one appends whatever segments it writes.
-/

import ReleaseLint.Command.Lint
import ReleaseLint.Proofs.Cache.Resolution
import ReleaseLint.Proofs.Config.Paths

namespace ReleaseLint

open Segment (IsName)

namespace Tool

open Session

variable {r : Resolver} {t : Tool} {p : Platform} {root : Path} {spec v : String} {m m' : Machine}

namespace Cache

/-- Whether a path is that of a binary in a cache: the root, the tool, one name for the version,
the platform and the binary. -/
def IsBinary (root : Path) (t : Tool) (p : Platform) (path : Path) : Prop :=
  ∃ version, IsName version ∧ path.segments = root.segments ++ (key t version p).map .name

/-- Whether the text of a version names one directory of a tool. -/
def NamesDirectory (root : Path) (t : Tool) (v : String) : Prop :=
  if v.toList.head? = some '/' then
    ∃ s, IsName s ∧ (Path.mk v).segments = root.segments ++ [.name t.name, .name s]
  else ∃ s, Path.steps v = [.name s]

theorem segments_binaryPath (root : Path) (t : Tool) (v : String) (hp : p.IsPlain) :
    (binaryPath root t v p).segments =
      (root / t.name / v).segments ++ [.name p.text, .name (t.binaryName p)] := by
  have hsteps : ∀ x ∈ [Segment.name p.text, .name (t.binaryName p)], x.IsStep := by
    intro x hx
    rcases List.mem_pair.1 hx with rfl | rfl
    · exact Platform.isName_text hp
    · exact t.isName_binaryName p
  have halong : binaryPath root t v p =
      (root / t.name / v).along [.name p.text, .name (t.binaryName p)] := rfl
  rw [halong, Path.segments_along hsteps]

/-- **The binary of a version lies in the cache** exactly if the text of the version names one
directory. -/
theorem isBinary_iff (root : Path) (t : Tool) (v : String) (hp : p.IsPlain) :
    IsBinary root t p (binaryPath root t v p) ↔ NamesDirectory root t v := by
  have hbinary : IsBinary root t p (binaryPath root t v p) ↔ ∃ s, IsName s ∧
      (root / t.name / v).segments = root.segments ++ [.name t.name, .name s] := by
    refine exists_congr fun s => and_congr_right fun _ => ?_
    have hkey : root.segments ++ (key t s p).map Segment.name =
        (root.segments ++ [.name t.name, .name s]) ++ [.name p.text, .name (t.binaryName p)] := by
      rw [List.append_assoc]
      rfl
    rw [segments_binaryPath root t v hp, hkey, List.append_left_inj]
  unfold NamesDirectory
  rw [hbinary]
  split_ifs with hv
  · rw [Path.div_of_absolute hv]
  · have hsegments : (root / t.name / v).segments =
        root.segments ++ .name t.name :: Path.steps v :=
      Path.segments_div_of_relative root t.isName_name hv
    rw [hsegments]
    constructor
    · rintro ⟨s, -, h⟩
      exact ⟨s, (List.cons.inj (List.append_cancel_left h)).2⟩
    · rintro ⟨s, hs⟩
      exact ⟨s, Path.isStep_of_mem_steps (hs ▸ List.mem_singleton_self _), by rw [hs]⟩

theorem namesDirectory_of_isName (root : Path) (t : Tool) (hv : IsName v) :
    NamesDirectory root t v := by
  unfold NamesDirectory
  rw [if_neg (show v.toList.head? ≠ some '/' from hv.head_ne_slash)]
  have hpieces : v.toList.splitOn '/' = [v.toList] := List.splitOn_eq_singleton hv.1
  have hone : Path.segment? v.toList = some (.name v) := hv.2
  refine ⟨v, ?_⟩
  unfold Path.steps
  rw [hpieces, List.filterMap_cons, hone, List.filterMap_nil]

theorem fileName?_binaryPath (root : Path) (t : Tool) (v : String) (p : Platform) :
    (binaryPath root t v p).fileName? = some (t.binaryName p) := by
  have hdiv : binaryPath root t v p =
      root / t.name / v / p.text / (Segment.name (t.binaryName p)).text := rfl
  unfold Path.fileName?
  rw [hdiv, Path.segments_div _ (t.isName_binaryName p), List.getLast?_concat]

/-- Whether an outcome, with the workspace behind it, comes from the use of one path only: it is
checked for a file; if there is one, it is returned; if there is none, at most its directories are
made and a file of its name is put into them, and then it is returned. -/
inductive Uses (root path : Path) (w : Workspace) : Except Error Path → Workspace → Prop
  | found : w.hasFile path = true → Uses root path w (.ok path) w
  | missing {e : Error} : w.hasFile path = false → Uses root path w (.error e) w
  | unwritten {e : Error} {w₁ : Workspace} {f : Option SystemFault} : w.hasFile path = false →
      w.makeDirectories (path.parent?.getD root) = (w₁, f) → Uses root path w (.error e) w₁
  | written {name : String} {data : ByteArray} {w₁ w₂ : Workspace} : w.hasFile path = false →
      path.fileName? = some name →
      w.makeDirectories (path.parent?.getD root) = (w₁, none) →
      putFile w₁ (path.parent?.getD root) path name data = .ok w₂ →
      Uses root path w (.ok path) w₂

end Cache

/-- **A resolve uses the path of its version only.** -/
theorem Resolves.uses {result : Except Error Path × Machine} (h : Resolves r t spec m result)
    (hversion : (r.version t spec).runOn m = (.ok v, m')) :
    Cache.Uses r.cacheRoot (Cache.binaryPath r.cacheRoot t v r.platform) m.workspace result.1
      result.2.workspace := by
  have hworkspace := workspace_eq_of_version hversion
  rcases h.of_version hversion with ⟨hcached, rfl⟩ |
    ⟨hmissed, ⟨e, m₂, hdownload, rfl⟩ | ⟨binary, m₂, hdownload, hstores⟩⟩
  · rw [hworkspace]
    exact .found hcached
  · rw [workspace_eq_of_download hdownload, hworkspace]
    exact .missing hmissed
  · rw [← hworkspace, ← workspace_eq_of_download hdownload] at hmissed ⊢
    cases hstores with
    | unprepared hmake | refused hmake => exact .unwritten hmissed hmake
    | stored hmake hput =>
      exact .written hmissed (Cache.fileName?_binaryPath ..) hmake hput

end Tool

/-! ### Where versions come from -/

namespace Command
namespace Project

open Session
open Tool (Consults Recommended Resolver)

variable {r : Resolver} {t : Tool} {spec v : String} {m m' : Machine} {w w₀ : Workspace}
  {known known' : Option Recommended} {targets : List Target} {p : Project} {start : Path}

/-- Whether the text of a version comes from outside of the settings: from a document of
recommended versions, from an embedded cluster config, or from one of these by trimming. -/
inductive IsForeign (known : Option Recommended) (t : Tool) (w : Workspace)
    (targets : List Target) : String → Prop
  | published {versions : Recommended} {v : String} : known = some versions →
      versions.version? t = some v → IsForeign known t w targets v
  | declared {target : Target} {rest : List Target} {v : String} : t = .embeddedCluster →
      targets = target :: rest → Resource.clusterVersion w target.path = .ok v →
      IsForeign known t w targets v
  | trimmed {v : String} : IsForeign known t w targets v →
      IsForeign known t w targets (Text.dropLeadingV (Text.trim v))

theorem IsForeign.mono (h : IsForeign known t w targets v)
    (hknown : ∀ versions, known = some versions → known' = some versions) :
    IsForeign known' t w targets v := by
  induction h with
  | published hversions hv => exact .published (hknown _ hversions) hv
  | declared ht htargets hv => exact .declared ht htargets hv
  | trimmed _ ih => exact .trimmed ih

/-- Whether the text of a version is accounted for: it is a semantic version, or the settings ask
for the recommended version and it is foreign. -/
def HasOrigin (p : Project) (known : Option Recommended) (t : Tool) (w : Workspace)
    (targets : List Target) (v : String) : Prop :=
  Version.IsSemantic v ∨
    Version.AsksForLatest (p.settings.versionOf t) ∧ IsForeign known t w targets v

/-- Whether a specification comes to a version that is accounted for. -/
def AsksForOrigin (p : Project) (known : Option Recommended) (t : Tool) (w : Workspace)
    (targets : List Target) (spec : String) : Prop :=
  Version.IsSemantic (Text.dropLeadingV (Text.trim spec)) ∨
    Version.AsksForLatest (p.settings.versionOf t) ∧
      (Version.AsksForLatest spec ∨ IsForeign known t w targets spec)

/-- The settings ask for a semantic version, or for the recommended one, which an embedded cluster
config may declare. -/
theorem asksForOrigin_of_versionSpec (hconfig : Config.resolve w₀ start = .ok p.config)
    (hspec : p.versionSpec t targets w = .ok spec) (known : Option Recommended) :
    AsksForOrigin p known t w targets spec := by
  have hrequest := Version.isRequest_of_isSpec (Config.isSpec_versionOf hconfig t)
  unfold versionSpec at hspec
  simp only at hspec
  split_ifs at hspec with hown
  · obtain rfl := Except.ok.inj hspec
    by_cases hlatest : Version.AsksForLatest (p.settings.versionOf t)
    · exact .inr ⟨hlatest, .inl hlatest⟩
    · exact .inl (hrequest.isSemantic hlatest)
  · rw [Bool.or_eq_true, not_or, bne_iff_ne, bne_iff_ne, not_not, not_not] at hown
    have hlatest : Version.AsksForLatest (p.settings.versionOf t) := by
      rw [hown.2]
      decide
    cases targets with
    | cons target rest => exact .inr ⟨hlatest, .inr (.declared hown.1 rfl hspec)⟩
    | nil =>
      rw [← Except.ok.inj hspec]
      exact .inr ⟨hlatest, .inl hlatest⟩

theorem hasOrigin_of_version (hspec : AsksForOrigin p m.recommended t w targets spec)
    (hversion : (r.version t spec).runOn m = (.ok v, m')) :
    HasOrigin p m'.recommended t w targets v := by
  by_cases hlatest : Version.AsksForLatest spec
  · rw [Tool.runOn_version_latest hlatest] at hversion
    obtain ⟨versions, hknown, hv⟩ := Tool.exists_recommended hversion
    have hsettings := (hspec.resolve_left hlatest.not_isSemantic).1
    exact .inr ⟨hsettings, .published hknown hv⟩
  · rw [Tool.runOn_version_pinned hlatest] at hversion
    obtain ⟨hv, rfl⟩ := Prod.mk.inj hversion
    rw [← Except.ok.inj hv]
    exact hspec.imp_right fun h => ⟨h.1, .trimmed (h.2.resolve_left hlatest)⟩

/-- A semantic version is resolved to itself, and a foreign one is trimmed once more. -/
theorem HasOrigin.asksForOrigin (h : HasOrigin p known t w targets v)
    (hknown : ∀ versions, known = some versions → known' = some versions) :
    AsksForOrigin p known' t w targets v := by
  refine h.imp (fun hv => ?_) fun hv => ⟨hv.1, .inr (hv.2.mono hknown)⟩
  rwa [(Version.spells_self v).dropLeadingV_trim hv]

theorem runOn_versionWarnings (r : Resolver) (t : Tool) (v : String) (m : Machine) :
    ∃ warnings, (versionWarnings r t v).runOn m = (.ok warnings, ((r.latest t).runOn m).2) := by
  unfold versionWarnings
  rw [runOn_bind, runOn_attempt]
  rcases (r.latest t).runOn m with ⟨e | recommended, m'⟩ <;> exact ⟨_, rfl⟩

/-- **A search looks for a version, then for its binary.**  In between it may look up the recommended
version. -/
theorem find_spec (hlocal : r.overrides t = none) (spec : String) (m : Machine) :
    (∃ e m', (r.version t spec).runOn m = (.error e, m') ∧
      (find r t spec).runOn m = (.ok ⟨.error e, none, []⟩, m')) ∨
    ∃ v m₁ m₂ warnings, (r.version t spec).runOn m = (.ok v, m₁) ∧
      (m₂ = m₁ ∨ m₂ = ((r.latest t).runOn m₁).2) ∧
      (find r t spec).runOn m =
        (.ok ⟨((r.resolve t v).runOn m₂).1, some v, warnings⟩, ((r.resolve t v).runOn m₂).2) := by
  unfold find
  rw [hlocal, Option.isSome_none, if_neg Bool.false_ne_true, runOn_bind, runOn_attempt]
  rcases hversion : (r.version t spec).runOn m with ⟨e | v, m₁⟩
  · exact .inl ⟨e, m₁, rfl, rfl⟩
  · refine .inr ?_
    simp only [runOn_bind, runOn_workspace]
    split_ifs
    · obtain ⟨warnings, hrun⟩ := runOn_versionWarnings r t v m₁
      refine ⟨v, m₁, _, warnings, rfl, .inr rfl, ?_⟩
      simp only [runOn_bind, hrun, runOn_attempt, runOn_pure]
    · refine ⟨v, m₁, m₁, [], rfl, .inl rfl, ?_⟩
      simp only [runOn_bind, runOn_attempt, runOn_pure]

theorem find_cases (hlocal : r.overrides t = none) (spec : String) (m : Machine) :
    (∃ e m', (r.version t spec).runOn m = (.error e, m') ∧
      (find r t spec).runOn m = (.ok ⟨.error e, none, []⟩, m')) ∨
    ∃ v m₁ m₂ log warnings, (r.version t spec).runOn m = (.ok v, m₁) ∧ Consults r m₁ log m₂ ∧
      (find r t spec).runOn m =
        (.ok ⟨((r.resolve t v).runOn m₂).1, some v, warnings⟩, ((r.resolve t v).runOn m₂).2) := by
  refine (find_spec hlocal spec m).imp_right ?_
  rintro ⟨v, m₁, m₂, warnings, hversion, rfl | rfl, hfind⟩
  · exact ⟨v, m₂, m₂, [], warnings, hversion, .refl r m₂, hfind⟩
  · obtain ⟨log, hconsults⟩ := Tool.consults_latest r t m₁
    exact ⟨v, m₁, _, log, warnings, hversion, hconsults, hfind⟩

/-! ### All together -/

/-- What a resolve comes to, with its version: the error of the version, and the workspace as it
was; or the use of the path of the version only.  The path lies in the cache if the version is a
semantic one.  Another version is foreign, and then the path lies there exactly when its text names
one directory. -/
def Settles (r : Resolver) (p : Project) (t : Tool) (targets : List Target) (w : Workspace) :
    Except Error String → Except Error Path × Machine → Prop
  | .error e, result => result.1 = .error e ∧ result.2.workspace = w
  | .ok v, result =>
    let path := Tool.Cache.binaryPath r.cacheRoot t v r.platform
    Tool.Cache.Uses r.cacheRoot path w result.1 result.2.workspace ∧
    (Version.IsSemantic v ∧ Tool.Cache.IsBinary r.cacheRoot t r.platform path ∨
      Version.AsksForLatest (p.settings.versionOf t) ∧
        IsForeign result.2.recommended t w targets v ∧
        (Tool.Cache.IsBinary r.cacheRoot t r.platform path ↔
          Tool.Cache.NamesDirectory r.cacheRoot t v))

/-- A resolve settles on what its specification comes to. -/
theorem settles_of_asksForOrigin
    (hspec : AsksForOrigin p m.recommended t m.workspace targets spec)
    (hplain : r.platform.IsPlain) :
    Settles r p t targets m.workspace ((r.version t spec).runOn m).1
      ((r.resolve t spec).runOn m) := by
  have hresolves := Tool.resolve_spec r t spec m
  rcases hversion : (r.version t spec).runOn m with ⟨e | v, m'⟩
  · rw [Tool.resolve_of_error hversion]
    exact ⟨rfl, Tool.Resolves.workspace_eq_of_version hversion⟩
  · have horigin := hasOrigin_of_version hspec hversion
    have hknown : ((r.resolve t spec).runOn m).2.recommended = m'.recommended := by
      rw [hresolves.recommended_eq.1, hversion]
    rw [← hknown] at horigin
    have hiff := Tool.Cache.isBinary_iff r.cacheRoot t v hplain
    refine ⟨hresolves.uses hversion, horigin.imp (fun hv => ⟨hv, ?_⟩) fun hv => ⟨hv.1, hv.2, hiff⟩⟩
    exact hiff.2 (Tool.Cache.namesDirectory_of_isName _ t (Version.isName_of_semantic hv))

/-- **The binary of a tool lies where its version leads.**  For every config that applies, every
embedded cluster config, every document of recommended versions and every state of the cache,
a resolve of the version that is asked for, and the resolve with which the search for a binary
ends, use the file tree at the path of one version only, if they come to a version at all;
a version that the config pins is a semantic one, and its path is the root of the cache and four
names;
any other version is taken as it was published or declared, and its path is one of these exactly
if the text names one directory. -/
theorem settles_of_versionSpec (hconfig : Config.resolve w₀ start = .ok p.config)
    (hspec : p.versionSpec t targets m.workspace = .ok spec) (hlocal : r.overrides t = none)
    (hplain : r.platform.IsPlain) :
    Settles r p t targets m.workspace ((r.version t spec).runOn m).1
        ((r.resolve t spec).runOn m) ∧
      ∃ found m', (find r t spec).runOn m = (.ok found, m') ∧
        ((found.version = none ∧ (∃ e, found.binary = .error e) ∧ m'.workspace = m.workspace) ∨
          ∃ v m₂, found.version = some v ∧ (r.resolve t v).runOn m₂ = (found.binary, m') ∧
            Settles r p t targets m.workspace ((r.version t v).runOn m₂).1 (found.binary, m')) := by
  have hasks := asksForOrigin_of_versionSpec hconfig hspec m.recommended
  refine ⟨settles_of_asksForOrigin hasks hplain, ?_⟩
  rcases find_cases hlocal spec m with ⟨e, m', hversion, hfind⟩ |
    ⟨v, m₁, m₂, log, warnings, hversion, hconsults, hfind⟩
  · exact ⟨_, m', hfind, .inl ⟨rfl, ⟨e, rfl⟩, Tool.Resolves.workspace_eq_of_version hversion⟩⟩
  · have hworkspace : m₂.workspace = m.workspace :=
      hconsults.workspace_eq.trans (Tool.Resolves.workspace_eq_of_version hversion)
    have hasks' : AsksForOrigin p m₂.recommended t m₂.workspace targets v := by
      rw [hworkspace]
      refine (hasOrigin_of_version hasks hversion).asksForOrigin fun versions hm₁ => ?_
      rw [hconsults.eq_of_known hm₁, hm₁]
    have hsettles := settles_of_asksForOrigin (r := r) hasks' hplain
    rw [hworkspace] at hsettles
    generalize hresult : (r.resolve t v).runOn m₂ = result at hfind hsettles
    exact ⟨_, _, hfind, .inr ⟨v, m₂, rfl, hresult, hsettles⟩⟩

/-- A project that pins a version of one tool, and declares a path as the version of another. -/
def clusterProject : Workspace where
  tree := ⟨[(["p"], .directory),
    (["p", ".replicated"], .file "repl-lint:\n  tools:\n    helm: v3.14.4\n".toUTF8 false),
    (["p", "ec.yaml"], .file ("apiVersion: embeddedcluster.replicated.com/v1beta1\n" ++
      "kind: Config\nspec:\n  version: /x\n").toUTF8 false),
    (["x"], .directory), (["x", "linux-amd64"], .directory),
    (["x", "linux-amd64", "embedded-cluster"], .file .empty true)]⟩
  directory := ⟨"/p"⟩

/-- A resolver with an empty cache, and no servers. -/
def clusterResolver : Resolver :=
  ⟨⟨"/c"⟩, fun _ => none, "http://h/ping", .single "http://h", ⟨"linux", "amd64"⟩⟩

theorem exists_resolve_clusterProject : ∃ c, Config.resolve clusterProject ⟨"/p"⟩ = .ok c ∧
    c.lintSettings.versionOf .helm = "v3.14.4" ∧
      c.lintSettings.versionOf .embeddedCluster = "latest" := by
  obtain ⟨c, hc, hversions⟩ := Config.exists_resolve_such_iff.1
    (show Config.writesSuch clusterProject ⟨"/p"⟩ (fun c =>
      c.lintSettings.versionOf .helm == "v3.14.4" &&
        c.lintSettings.versionOf .embeddedCluster == "latest") = true by decide +kernel)
  simp only [Bool.and_eq_true, beq_iff_eq] at hversions
  exact ⟨c, hc, hversions⟩

/-- The version that the config pins leads to a path in the cache. -/
theorem settles_of_pinned : ∃ c, Config.resolve clusterProject ⟨"/p"⟩ = .ok c ∧
    let result := (clusterResolver.resolve .helm "v3.14.4").runOn (.fresh .silent clusterProject)
    let path : Path := ⟨"/c/helm/3.14.4/linux-amd64/helm"⟩
    Tool.Cache.Uses ⟨"/c"⟩ path clusterProject result.1 result.2.workspace ∧
      Tool.Cache.IsBinary ⟨"/c"⟩ .helm ⟨"linux", "amd64"⟩ path := by
  obtain ⟨c, hc, hhelm, -⟩ := exists_resolve_clusterProject
  refine ⟨c, hc, ?_⟩
  have hspec : versionSpec ⟨⟨⟨"/p"⟩, none, .human, false⟩, c, none, [], .empty⟩ .helm []
      clusterProject = .ok "v3.14.4" := congrArg Except.ok hhelm
  obtain ⟨hsettles, -⟩ := settles_of_versionSpec (r := clusterResolver)
    (m := .fresh .silent clusterProject) hc hspec rfl (by constructor <;> decide)
  have hpath : Tool.Cache.binaryPath ⟨"/c"⟩ .helm "3.14.4" ⟨"linux", "amd64"⟩ =
      ⟨"/c/helm/3.14.4/linux-amd64/helm"⟩ := by decide
  have hversion : ((clusterResolver.version .helm "v3.14.4").runOn
      (.fresh .silent clusterProject)).1 = .ok "3.14.4" := by
    rw [Tool.runOn_version_pinned (by decide)]
    exact congrArg Except.ok (by decide)
  rw [hversion] at hsettles
  obtain ⟨huses, hbinary⟩ := hsettles
  rw [← hpath]
  refine ⟨huses, ?_⟩
  rcases hbinary with ⟨-, hbinary⟩ | ⟨hlatest, -⟩
  · exact hbinary
  · rw [show settings _ = c.lintSettings from rfl, hhelm] at hlatest
    exact absurd hlatest (by decide)

/-- What is declared as a version leads out of the cache, to a file that is taken for a binary. -/
theorem not_isBinary_of_declared : ∃ c, Config.resolve clusterProject ⟨"/p"⟩ = .ok c ∧
    versionSpec ⟨⟨⟨"/p"⟩, none, .human, false⟩, c, none, [], .empty⟩ .embeddedCluster
      [.clusterConfig ⟨"/p/ec.yaml"⟩] clusterProject = .ok "/x" ∧
    let path : Path := ⟨"/x/linux-amd64/embedded-cluster"⟩
    ((clusterResolver.resolve .embeddedCluster "/x").runOn
      (.fresh .silent clusterProject)).1 = .ok path ∧
    (∃ found m', (find clusterResolver .embeddedCluster "/x").runOn
      (.fresh .silent clusterProject) = (.ok found, m') ∧ found.binary = .ok path) ∧
    ¬Tool.Cache.IsBinary ⟨"/c"⟩ .embeddedCluster ⟨"linux", "amd64"⟩ path := by
  obtain ⟨c, hc, -, hcluster⟩ := exists_resolve_clusterProject
  refine ⟨c, hc, ?_, ?_, ?_, ?_⟩
  · have hdeclared : Resource.clusterVersion clusterProject ⟨"/p/ec.yaml"⟩ = .ok "/x" :=
      toOption_eq_some_iff.1 (by decide +kernel)
    unfold versionSpec settings
    simp only [hcluster]
    rw [if_neg (by decide)]
    exact hdeclared
  · exact toOption_eq_some_iff.1 (by decide +kernel)
  · have hfound : ((find clusterResolver .embeddedCluster "/x").runOn
        (.fresh .silent clusterProject)).1.toOption.any (fun found =>
          found.binary.toOption == some ⟨"/x/linux-amd64/embedded-cluster"⟩) = true := by
      decide +kernel
    generalize (find clusterResolver .embeddedCluster "/x").runOn
      (.fresh .silent clusterProject) = result at hfound
    obtain ⟨found, hresult, hbinary⟩ := (Option.any_eq_true _ _).1 hfound
    obtain ⟨outcome, m'⟩ := result
    obtain rfl := toOption_eq_some_iff.1 hresult
    exact ⟨found, m', rfl, toOption_eq_some_iff.1 (beq_iff_eq.1 hbinary)⟩
  · rintro ⟨v, -, hsegments⟩
    have hroot : (Path.mk "/c").segments = [.root, .name "c"] := by decide
    have hpath : (Path.mk "/x/linux-amd64/embedded-cluster").segments =
        [.root, .name "x", .name "linux-amd64", .name "embedded-cluster"] := by decide
    rw [hroot, hpath] at hsegments
    exact absurd (congrArg List.length hsegments) (by simp [Tool.Cache.key, Tool.Cache.home])

end Project
end Command
end ReleaseLint
