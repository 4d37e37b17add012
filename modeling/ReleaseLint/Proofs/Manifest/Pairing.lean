/-
# What pairing charts with manifests reports

| the keys of the charts | outcome |
| --- | --- |
| one is not in the index | an error with all charts of such keys, as often and in the order in which they are given |
| all are in the index | the manifests whose keys no chart has, once each, their keys increasing |

Nothing is lost on either side: the reported charts are decided by counting
(`count_unmatched`), and the keys of the charts and of the orphans split the keys of the
index (`mem_keys_iff_of_unmatched`).
-/

import ReleaseLint.Proofs.Manifest.Index
import ReleaseLint.Resource.Discovery
import Mathlib.Data.List.Count

namespace ReleaseLint
namespace Manifest
namespace Index

variable {index : Index} {charts : List Chart} {c : Chart} {o : Orphan} {k : String}

/-! ### Charts without a manifest -/

theorem mem_unmatched : c ∈ index.unmatched charts ↔ c ∈ charts ∧ c.key ∉ index.keys := by
  unfold unmatched
  rw [List.mem_filter, Bool.not_eq_true', ← Bool.not_eq_true, has_iff]

theorem unmatched_eq_nil_iff :
    index.unmatched charts = [] ↔ ∀ c ∈ charts, c.key ∈ index.keys := by
  simp only [List.eq_nil_iff_forall_not_mem, mem_unmatched, not_and, not_not]

/-- **A chart without a manifest is reported as often as it is given.** -/
theorem count_unmatched (index : Index) (charts : List Chart) (c : Chart) :
    (index.unmatched charts).count c = if c.key ∈ index.keys then 0 else charts.count c := by
  split
  · rename_i hkey
    exact List.count_eq_zero.2 fun hc => (mem_unmatched.1 hc).2 hkey
  · rename_i hkey
    refine List.count_filter ?_
    rwa [Bool.not_eq_true', ← Bool.not_eq_true, has_iff]

/-! ### Manifests without a chart -/

theorem mem_orphans :
    o ∈ index.orphans charts ↔
      ∃ m ∈ index.manifests, (∀ c ∈ charts, c.key ≠ m.key) ∧ o = ⟨m.key, m.source⟩ := by
  unfold orphans
  simp only [List.mem_map, List.mem_filter, (sorted_perm index).mem_iff, List.all_eq_true,
    bne_iff_ne]
  constructor
  · rintro ⟨m, ⟨hm, hfree⟩, rfl⟩
    exact ⟨m, hm, hfree, rfl⟩
  · rintro ⟨m, hm, hfree, rfl⟩
    exact ⟨m, ⟨hm, hfree⟩, rfl⟩

/-- **The keys of the orphans increase**, so that each is reported once. -/
theorem pairwise_orphans (h : index.HasKeysOnce) :
    (index.orphans charts).Pairwise fun a b => a.key < b.key :=
  List.pairwise_map.2 ((pairwise_sorted h).filter _)

/-- **The keys of the orphans are those of the index that no chart has.** -/
theorem mem_keys_orphans :
    k ∈ (index.orphans charts).map Orphan.key ↔ k ∈ index.keys ∧ k ∉ charts.map Chart.key := by
  rw [mem_keys]
  simp only [List.mem_map, mem_orphans, not_exists, not_and]
  constructor
  · rintro ⟨_, ⟨m, hm, hfree, rfl⟩, rfl⟩
    exact ⟨⟨m, hm, rfl⟩, hfree⟩
  · rintro ⟨⟨m, hm, rfl⟩, hfree⟩
    exact ⟨_, ⟨m, hm, hfree, rfl⟩, rfl⟩

theorem mem_keys_iff_of_unmatched (h : index.unmatched charts = []) :
    k ∈ index.keys ↔ k ∈ charts.map Chart.key ∨ k ∈ (index.orphans charts).map Orphan.key := by
  rw [mem_keys_orphans]
  constructor
  · intro hk
    by_cases hchart : k ∈ charts.map Chart.key
    · exact .inl hchart
    · exact .inr ⟨hk, hchart⟩
  · rintro (hk | ⟨hk, _⟩)
    · obtain ⟨c, hc, rfl⟩ := List.mem_map.1 hk
      exact unmatched_eq_nil_iff.1 h c hc
    · exact hk

/-! ### Both -/

/-- What pairing comes to: all charts have manifests, or some have none. -/
theorem pair_cases (index : Index) (charts : List Chart) :
    (index.unmatched charts = [] ∧ Resource.pair charts index = .ok (index.orphans charts)) ∨
      (index.unmatched charts ≠ [] ∧
        Resource.pair charts index = .error (.missingManifests (index.unmatched charts))) := by
  unfold Resource.pair pair
  cases hmissing : index.unmatched charts with
  | nil => exact .inl ⟨rfl, rfl⟩
  | cons c rest => exact .inr ⟨List.cons_ne_nil c rest, rfl⟩

end Index

/-- **What pairing reports.**  For any charts and any index that came of storing manifests,
pairing fails precisely if the key of some chart is not in the index.  A failure lists the
charts of such keys, as often as they are given and in their order, and no others.  A success
lists the manifests whose keys no chart has, their keys increasing; then the keys of the
charts and those of the orphans are disjoint, and together they are the keys of the index. -/
theorem pair_ofBatches (batches : List (List Manifest)) (charts : List Chart) :
    let index := Index.ofBatches batches
    ((∃ e, Resource.pair charts index = .error e) ↔ ∃ c ∈ charts, c.key ∉ index.keys) ∧
      (∀ e, Resource.pair charts index = .error e →
        ∃ missing, e = .missingManifests missing ∧ missing.Sublist charts ∧
          ∀ c, missing.count c = if c.key ∈ index.keys then 0 else charts.count c) ∧
      ∀ orphans, Resource.pair charts index = .ok orphans →
        (orphans.Pairwise fun a b => a.key < b.key) ∧
        (∀ o, o ∈ orphans ↔ ∃ m ∈ index.manifests,
          (∀ c ∈ charts, c.key ≠ m.key) ∧ o = ⟨m.key, m.source⟩) ∧
        (charts.map Chart.key).Disjoint (orphans.map Orphan.key) ∧
        ∀ k, k ∈ index.keys ↔ k ∈ charts.map Chart.key ∨ k ∈ orphans.map Orphan.key := by
  intro index
  have h : index.HasKeysOnce := Index.hasKeysOnce_ofBatches batches
  obtain ⟨hmissing, hpair⟩ | ⟨hmissing, hpair⟩ := index.pair_cases charts
  · rw [hpair]
    refine ⟨?_, fun e he => (nomatch he), fun orphans horphans => ?_⟩
    · have hkeys := Index.unmatched_eq_nil_iff.1 hmissing
      exact iff_of_false (fun ⟨e, he⟩ => nomatch he) fun ⟨c, hc, hkey⟩ => hkey (hkeys c hc)
    · obtain rfl := Except.ok.inj horphans
      refine ⟨Index.pairwise_orphans h, fun o => Index.mem_orphans, fun k hchart horphan => ?_,
        fun k => Index.mem_keys_iff_of_unmatched hmissing⟩
      exact (Index.mem_keys_orphans.1 horphan).2 hchart
  · rw [hpair]
    refine ⟨?_, fun e he => ?_, fun orphans horphans => (nomatch horphans)⟩
    · refine iff_of_true ⟨_, rfl⟩ ?_
      obtain ⟨c, hc⟩ := List.exists_mem_of_ne_nil _ hmissing
      exact ⟨c, Index.mem_unmatched.1 hc⟩
    · obtain rfl := Except.error.inj he
      exact ⟨_, rfl, List.filter_sublist, index.count_unmatched charts⟩

end Manifest
end ReleaseLint
