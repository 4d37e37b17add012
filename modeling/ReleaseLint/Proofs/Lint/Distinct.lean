/-
# Which targets come twice

What several patterns stand for is collected without repetitions, for all linters but one: the
targets of the preflights are those of the first entry, then those of the second, and so on.

| linter | targets are | the same twice |
| --- | --- | --- |
| `helm`, `support-bundle` | collected over all patterns | never |
| `embedded-cluster` | some of the collected files | never |
| `kots` | the directories of the collected files, without repetitions | never |
| `preflight` | collected for each entry | if two entries with one values file find the same spec |

The entries of a config that applies have different patterns, but patterns may overlap.
-/

import ReleaseLint.Proofs.Lint.Alike
import ReleaseLint.Proofs.Config.Paths
import ReleaseLint.Proofs.Resource.Discovery

namespace ReleaseLint

namespace Target

/-- Whether two targets are of one tool and have the same paths. -/
def same : Target → Target → Bool
  | preflight spec values key, preflight spec' values' key' =>
    spec.same spec' && (values.map Path.segments == values'.map Path.segments && key == key')
  | a, b => a.tool == b.tool && a.path.same b.path

theorem same_preflight_iff {spec spec' : Path} {values values' : Option Path}
    {key key' : Option String} :
    (preflight spec values key).same (preflight spec' values' key') = true ↔
      spec.same spec' = true ∧ values.map Path.segments = values'.map Path.segments ∧
        key = key' := by
  rw [same, Bool.and_eq_true, Bool.and_eq_true, beq_iff_eq, beq_iff_eq]

/-- With the same values, two preflights are as different as their specs. -/
theorem same_preflight (spec spec' : Path) (values : Option Path) (key : Option String) :
    (preflight spec values key).same (preflight spec' values key) = spec.same spec' := by
  rw [same, beq_self_eq_true, beq_self_eq_true, Bool.and_true, Bool.and_true]

end Target

namespace Config

/-- Paths of a config that applies are written the same if they are the same. -/
theorem IsAnchored.eq_of_segments_eq {x y : String} (hx : IsAnchored x) (hy : IsAnchored y)
    (h : (Path.mk x).segments = (Path.mk y).segments) : x = y := by
  rcases hx with rfl | hx
  · rcases hy with rfl | ⟨names, hnames, hy⟩
    · rfl
    · rw [hy, Path.segments_ofNames hnames] at h
      cases h
  · rcases hy with rfl | hy
    · obtain ⟨names, hnames, hx⟩ := hx
      rw [hx, Path.segments_ofNames hnames] at h
      cases h
    · exact congrArg Path.text ((hx.same_iff hy).1 (beq_iff_eq.2 h))

end Config

namespace Resource

variable {w : Workspace} {checker : Option Ignore.Checker} {kind : Kind} {m : String}
  {found : List Path}

/-- **One configured path finds nothing twice.** -/
theorem pairwise_of_ofKind (hm : Config.IsAnchored m) (h : ofKind w checker kind m = .ok found) :
    found.Pairwise fun a b => a.same b = false := by
  rcases hm with rfl | hm
  · cases h
  · cases hpattern : Glob.isPattern m with
    | true =>
      obtain ⟨patterns, all, -, hall, rfl⟩ := (ofKind_eq_ok hm hpattern).1 h
      exact (pairwise_of_collect hall).filter _
    | false =>
      unfold ofKind at h
      rw [if_neg (by simp [allBlank_of_isRooted hm]), if_pos (by simp [hpattern])] at h
      obtain ⟨-, rfl⟩ := (explicitOfKind_eq_ok hm).1 h
      exact List.pairwise_singleton _ _

end Resource

namespace Command
namespace Project

variable {p : Project} {t : Tool} {w : Workspace} {targets : List Target} {c : Config}
  {e e' : Config.PreflightEntry}

/-- Whether no target of a list is there twice. -/
def AreDistinct (targets : List Target) : Prop :=
  targets.Pairwise fun a b => a.same b = false

/-- Whether two entries find no preflight in common. -/
def FindApart (p : Project) (w : Workspace) (e e' : Config.PreflightEntry) : Prop :=
  ∀ found found', Resource.ofKind w p.checker .preflight e.path = .ok found →
    Resource.ofKind w p.checker .preflight e'.path = .ok found' →
      ∀ a ∈ found, ∀ b ∈ found', a.same b = false

/-! ### What is collected -/

theorem areDistinct_map {make : Path → Target} {found : List Path}
    (hmake : ∀ a b, (make a).same (make b) = a.same b)
    (h : found.Pairwise fun a b => a.same b = false) : AreDistinct (found.map make) :=
  List.pairwise_map.2 (h.imp fun hab => (hmake _ _).trans hab)

/-- **All linters but one have each of their targets once.** -/
theorem areDistinct_of_ne {o : Options} {v : Workspace} (hgather : gather o c v = .ok p)
    (htargets : p.targets t w = .ok targets) (ht : t ≠ .preflight) : AreDistinct targets := by
  unfold Project.targets at htargets
  cases t with
  | helm =>
    rw [← Except.ok.inj htargets]
    refine areDistinct_map (fun _ _ => rfl) ?_
    obtain ⟨-, -, -, hcharts, -⟩ := gather_eq_ok hgather
    split at hcharts
    · exact Resource.pairwise_of_collect hcharts
    · rw [← Except.ok.inj hcharts]
      exact .nil
  | preflight => exact absurd rfl ht
  | supportBundle =>
    obtain ⟨found, hfound, h⟩ := bind_eq_ok.1 htargets
    rw [← Except.ok.inj h]
    exact areDistinct_map (fun _ _ => rfl) (Resource.pairwise_of_collect hfound)
  | embeddedCluster =>
    obtain ⟨found, hfound, h⟩ := bind_eq_ok.1 htargets
    obtain ⟨files, hfiles, hfound⟩ := bind_eq_ok.1 hfound
    rw [← Except.ok.inj h, ← Except.ok.inj hfound]
    exact areDistinct_map (fun _ _ => rfl) ((Resource.pairwise_of_collect hfiles).filter _)
  | kots =>
    obtain ⟨found, hfound, h⟩ := bind_eq_ok.1 htargets
    obtain ⟨files, -, hfound⟩ := bind_eq_ok.1 hfound
    rw [← Except.ok.inj h, ← Except.ok.inj hfound]
    exact areDistinct_map (fun _ _ => rfl) (Resource.pairwise_distinctPaths _ []).1

/-! ### Preflights -/

/-- One entry has each of its targets once. -/
theorem areDistinct_preflightTargets (he : Config.IsAnchored e.path)
    (h : p.preflightTargets w e = .ok targets) : AreDistinct targets := by
  obtain ⟨key, specs, -, hspecs, rfl⟩ := preflightTargets_eq_ok.1 h
  exact areDistinct_map (fun a b => Target.same_preflight a b _ key)
    (Resource.pairwise_of_ofKind he hspecs)

/-- The values file of an entry is the one that its targets have. -/
theorem valuesPath_eq_of_segments_eq (hvalues : ∀ x ∈ e.valuesPath, Config.IsAnchored x)
    (hvalues' : ∀ x ∈ e'.valuesPath, Config.IsAnchored x)
    (h : (e.valuesPath.map Path.mk).map Path.segments =
      (e'.valuesPath.map Path.mk).map Path.segments) : e.valuesPath = e'.valuesPath := by
  cases hx : e.valuesPath with
  | none =>
    cases hy : e'.valuesPath with
    | none => rfl
    | some y =>
      rw [hx, hy] at h
      cases h
  | some x =>
    cases hy : e'.valuesPath with
    | none =>
      rw [hx, hy] at h
      cases h
    | some y =>
      rw [hx, hy] at h
      exact congrArg some ((hvalues x hx).eq_of_segments_eq (hvalues' y hy) (Option.some.inj h))

/-- **Two entries have a target in common** if they have one values file and find one spec. -/
theorem apart_iff (hvalues : ∀ x ∈ e.valuesPath, Config.IsAnchored x)
    (hvalues' : ∀ x ∈ e'.valuesPath, Config.IsAnchored x)
    (hok : ∃ part, p.preflightTargets w e = .ok part)
    (hok' : ∃ part, p.preflightTargets w e' = .ok part) :
    (∀ part part', p.preflightTargets w e = .ok part → p.preflightTargets w e' = .ok part' →
      ∀ a ∈ part, ∀ b ∈ part', a.same b = false) ↔
        (e.valuesPath = e'.valuesPath → p.FindApart w e e') := by
  obtain ⟨_, hpart⟩ := hok
  obtain ⟨_, hpart'⟩ := hok'
  obtain ⟨key, specs, hkey, hspecs, rfl⟩ := preflightTargets_eq_ok.1 hpart
  obtain ⟨key', specs', hkey', hspecs', rfl⟩ := preflightTargets_eq_ok.1 hpart'
  constructor
  · intro h heq found found' hfound hfound' a ha b hb
    obtain rfl := Except.ok.inj (hspecs.symm.trans hfound)
    obtain rfl := Except.ok.inj (hspecs'.symm.trans hfound')
    -- one values file lies in one chart
    obtain rfl := Except.ok.inj (hkey.symm.trans (heq ▸ hkey'))
    have hab := h _ _ hpart hpart' _ (List.mem_map_of_mem ha) _ (List.mem_map_of_mem hb)
    rwa [heq, Target.same_preflight] at hab
  · rintro h _ _ hx hy a ha b hb
    obtain rfl := Except.ok.inj (hpart.symm.trans hx)
    obtain rfl := Except.ok.inj (hpart'.symm.trans hy)
    obtain ⟨spec, hspec, rfl⟩ := List.mem_map.1 ha
    obtain ⟨spec', hspec', rfl⟩ := List.mem_map.1 hb
    by_contra hsame
    obtain ⟨hab, hsegments, -⟩ := Target.same_preflight_iff.1 (Bool.eq_true_of_not_eq_false hsame)
    have heq := valuesPath_eq_of_segments_eq hvalues hvalues' hsegments
    rw [h heq specs specs' hspecs hspecs' spec hspec spec' hspec'] at hab
    cases hab

/-- **The targets of the preflights are distinct** if the entries with one values file find
different specs. -/
theorem areDistinct_preflights_iff (hpaths : p.config.AllPaths Config.IsAnchored)
    (h : p.targets .preflight w = .ok targets) :
    AreDistinct targets ↔ p.config.preflights.Pairwise fun e e' =>
      e.valuesPath = e'.valuesPath → p.FindApart w e e' := by
  unfold Project.targets at h
  obtain ⟨parts, hparts, h⟩ := bind_eq_ok.1 h
  have hok : ∀ e ∈ p.config.preflights, ∃ part, p.preflightTargets w e = .ok part :=
    exists_mapM_iff.1 ⟨parts, hparts⟩
  have hown : ∀ part ∈ parts, part.Pairwise fun a b => a.same b = false := by
    intro part hpart
    obtain ⟨e, he, hpart⟩ := (mem_of_mapM hparts).1 hpart
    exact areDistinct_preflightTargets (hpaths.preflights e he) hpart
  unfold AreDistinct
  rw [← Except.ok.inj h, List.pairwise_flatten, and_iff_right hown, pairwise_of_mapM hparts]
  refine List.Pairwise.iff_of_mem fun {e e'} he he' => ?_
  exact apart_iff (hpaths.values e he) (hpaths.values e' he') (hok e he) (hok e' he')

/-- **Which targets come twice.**  Under any config that applies, no target of a linter other than
`preflight` comes twice; and those of `preflight` are distinct precisely if no two entries with one
values file find the same spec. -/
theorem targets_are_distinct_iff {u v : Workspace} {start : Path} {o : Options}
    (hu : u.directory.isAbsolute = true) (hc : Config.resolve u start = .ok c)
    (hgather : gather o c v = .ok p) (htargets : p.targets t w = .ok targets) :
    (t ≠ .preflight → AreDistinct targets) ∧
      (t = .preflight → (AreDistinct targets ↔ c.preflights.Pairwise fun e e' =>
        e.valuesPath = e'.valuesPath → p.FindApart w e e')) := by
  refine ⟨areDistinct_of_ne hgather htargets, ?_⟩
  rintro rfl
  obtain ⟨-, rfl, -⟩ := gather_eq_ok hgather
  exact areDistinct_preflights_iff (Config.allPaths_resolve hu hc).1 htargets

/-- A project with one preflight and two patterns for it, the second of which may be followed by a
values file. -/
def overlappingProject (values : String) : Workspace where
  tree := ⟨[(["p"], .directory),
    (["p", ".replicated"], .file
      ("preflights:\n- path: ./*.yaml\n- path: ./pf.yaml\n" ++ values).toUTF8 false),
    (["p", "pf.yaml"], .file "kind: Preflight\n".toUTF8 false)]⟩
  directory := ⟨"/p"⟩

/-- What is asked of the command in this project. -/
def overlappingOptions : Options :=
  ⟨⟨"/p"⟩, none, .human, false⟩

/-- The config, the project and the targets of the preflights in this project. -/
theorem exists_targets_overlapping (values : String) (entries : List Config.PreflightEntry)
    (targets : List Target)
    (h : Config.writesSuch (overlappingProject values) ⟨"/p"⟩ (fun c =>
      c.preflights == entries &&
        (gather overlappingOptions c (overlappingProject values)).toOption.any fun p =>
          (p.targets .preflight (overlappingProject values)).toOption == some targets) = true) :
    ∃ c p, Config.resolve (overlappingProject values) ⟨"/p"⟩ = .ok c ∧ c.preflights = entries ∧
      gather overlappingOptions c (overlappingProject values) = .ok p ∧
      p.targets .preflight (overlappingProject values) = .ok targets := by
  obtain ⟨c, hc, h⟩ := Config.exists_resolve_such_iff.1 h
  simp only [Bool.and_eq_true, Option.any_eq_true, beq_iff_eq] at h
  obtain ⟨hentries, p, hp, htargets⟩ := h
  exact ⟨c, p, hc, hentries, toOption_eq_some_iff.1 hp, toOption_eq_some_iff.1 htargets⟩

/-- With a values file for the second pattern, the preflight is linted twice for good reason. -/
theorem targets_are_distinct_with_values :
    ∃ c p targets, Config.resolve (overlappingProject "  valuesPath: ./v.yaml\n") ⟨"/p"⟩ = .ok c ∧
      gather overlappingOptions c (overlappingProject "  valuesPath: ./v.yaml\n") = .ok p ∧
      p.targets .preflight (overlappingProject "  valuesPath: ./v.yaml\n") = .ok targets ∧
      targets.map Target.path = [⟨"/p/pf.yaml"⟩, ⟨"/p/pf.yaml"⟩] ∧ AreDistinct targets := by
  obtain ⟨c, p, hc, hentries, hp, htargets⟩ :=
    exists_targets_overlapping "  valuesPath: ./v.yaml\n"
      [⟨"/p/*.yaml", none⟩, ⟨"/p/pf.yaml", some "/p/v.yaml"⟩]
      [.preflight ⟨"/p/pf.yaml"⟩ none none, .preflight ⟨"/p/pf.yaml"⟩ (some ⟨"/p/v.yaml"⟩) none]
      (by decide +kernel)
  refine ⟨c, p, _, hc, hp, htargets, rfl, ?_⟩
  refine ((targets_are_distinct_iff rfl hc hp htargets).2 rfl).2 ?_
  rw [hentries, List.pairwise_pair]
  intro heq
  cases heq

/-- Without one, the same target comes twice. -/
theorem targets_are_repeated :
    ∃ c p targets, Config.resolve (overlappingProject "") ⟨"/p"⟩ = .ok c ∧
      gather overlappingOptions c (overlappingProject "") = .ok p ∧
      p.targets .preflight (overlappingProject "") = .ok targets ∧
      targets = [.preflight ⟨"/p/pf.yaml"⟩ none none, .preflight ⟨"/p/pf.yaml"⟩ none none] ∧
      ¬AreDistinct targets := by
  obtain ⟨c, p, hc, -, hp, htargets⟩ := exists_targets_overlapping ""
    [⟨"/p/*.yaml", none⟩, ⟨"/p/pf.yaml", none⟩]
    [.preflight ⟨"/p/pf.yaml"⟩ none none, .preflight ⟨"/p/pf.yaml"⟩ none none] (by decide +kernel)
  refine ⟨c, p, _, hc, hp, htargets, rfl, ?_⟩
  unfold AreDistinct
  decide +kernel

end Project
end Command
end ReleaseLint
