/-
# What the index of manifests holds

Manifests are stored batch by batch, each batch up to its first clash, and a clash does not
keep later batches from being stored (`ofBatches`).

| a batch | adds | reports |
| --- | --- | --- |
| of new keys | all of its manifests | nothing |
| `front ++ m :: rest`, `front` of new keys, the key of `m` there by then | `front` | the key of `m`, the file of the manifest stored under it, the file of `m` |

`HasKeysOnce` is the invariant: no key is stored twice, so that a manifest is found under its
own key and looking up is the same as being stored (`get?_eq_some_iff`).  One step is
`insert`, a batch is `insertAll_spec`, and `insertAll_ofBatches` puts everything together.
Two orders of one batch come to indexes that are permutations of each other, which are the
same once they are sorted by their keys (`sorted_eq_of_perm`).
-/

import ReleaseLint.Manifest.Index
import Mathlib.Data.List.Nodup
import Mathlib.Data.List.Perm.Basic
import Mathlib.Data.List.Sort
import Mathlib.Data.String.Basic

namespace ReleaseLint
namespace Manifest
namespace Index

variable {index after : Index} {batch front : List Manifest} {m : Manifest} {k : String}

/-- The keys that are stored, in the order in which their manifests came. -/
def keys (index : Index) : List String :=
  index.manifests.map Manifest.key

/-- What is left behind when batches are stored one after the other, each one up to its
first clash. -/
def ofBatches (batches : List (List Manifest)) : Index :=
  batches.foldl (fun index batch => (index.insertAll batch).1) empty

/-- Whether manifests have different keys, none of which is stored. -/
def AreNew (index : Index) (batch : List Manifest) : Prop :=
  (batch.map Manifest.key).Nodup ∧ ∀ m ∈ batch, m.key ∉ index.keys

/-- Whether no key is stored twice. -/
def HasKeysOnce (index : Index) : Prop :=
  index.keys.Nodup

/-- Whether an index is another one with some manifests more. -/
structure Adds (index after : Index) (added : List Manifest) : Prop where
  length_eq : after.manifests.length = index.manifests.length + added.length
  get?_eq_some_iff : ∀ k m,
    after.get? k = some m ↔ index.get? k = some m ∨ m ∈ added ∧ m.key = k

/-! ### Looking up -/

theorem mem_keys : k ∈ index.keys ↔ ∃ m ∈ index.manifests, m.key = k :=
  List.mem_map

theorem get?_eq_none_iff : index.get? k = none ↔ k ∉ index.keys := by
  unfold get?
  rw [List.find?_eq_none, mem_keys]
  constructor
  · rintro h ⟨m, hm, hk⟩
    exact h m hm (beq_iff_eq.2 hk)
  · intro h m hm hk
    exact h ⟨m, hm, beq_iff_eq.1 hk⟩

theorem has_iff : index.has k = true ↔ k ∈ index.keys := by
  unfold has
  rw [← not_iff_not, Bool.not_eq_true, Option.isSome_eq_false_iff, Option.isNone_iff_eq_none,
    get?_eq_none_iff]

/-- **What is stored is found under its own key.** -/
theorem get?_eq_some_iff (h : index.HasKeysOnce) :
    index.get? k = some m ↔ m ∈ index.manifests ∧ m.key = k := by
  unfold get?
  constructor
  · intro hget
    exact ⟨List.mem_of_find?_eq_some hget, by simpa using List.find?_some hget⟩
  · rintro ⟨hm, rfl⟩
    obtain ⟨m', hget⟩ : ∃ m', index.manifests.find? (·.key == m.key) = some m' := by
      rw [← Option.isSome_iff_exists, List.find?_isSome]
      exact ⟨m, hm, beq_self_eq_true _⟩
    have hm' := List.mem_of_find?_eq_some hget
    have hkey : m'.key = m.key := by simpa using List.find?_some hget
    rw [hget, List.inj_on_of_nodup_map h hm' hm hkey]

/-! ### One batch -/

theorem areNew_nil (index : Index) : index.AreNew [] :=
  ⟨List.nodup_nil, fun _ h => absurd h List.not_mem_nil⟩

theorem keys_append (added : List Manifest) :
    keys ⟨index.manifests ++ added⟩ = index.keys ++ added.map Manifest.key :=
  List.map_append

/-- The first of some new manifests is stored before the others. -/
theorem areNew_cons :
    index.AreNew (m :: batch) ↔ m.key ∉ index.keys ∧ AreNew ⟨index.manifests ++ [m]⟩ batch := by
  unfold AreNew
  rw [List.map_cons, List.nodup_cons, List.forall_mem_cons, keys_append]
  simp only [List.map_singleton, List.mem_append, List.mem_singleton, not_or, List.mem_map,
    not_exists, not_and]
  constructor
  · rintro ⟨⟨hm, hnodup⟩, hnew, hrest⟩
    exact ⟨hnew, hnodup, fun m' hm' => ⟨hrest m' hm', hm m' hm'⟩⟩
  · rintro ⟨hnew, hnodup, hrest⟩
    exact ⟨⟨fun m' hm' => (hrest m' hm').2, hnodup⟩, hnew, fun m' hm' => (hrest m' hm').1⟩

theorem hasKeysOnce_append (h : index.HasKeysOnce) (hnew : index.AreNew batch) :
    HasKeysOnce ⟨index.manifests ++ batch⟩ := by
  unfold HasKeysOnce
  rw [keys_append, List.nodup_append]
  refine ⟨h, hnew.1, fun a ha b hb hab => ?_⟩
  obtain ⟨m, hm, rfl⟩ := List.mem_map.1 hb
  exact hnew.2 m hm (hab ▸ ha)

/-- A manifest is stored behind the others, or its key is there. -/
theorem insert_cases (index : Index) (m : Manifest) :
    (m.key ∉ index.keys ∧ index.insert m = .ok ⟨index.manifests ++ [m]⟩) ∨
      ∃ stored, index.get? m.key = some stored ∧
        index.insert m = .error ⟨m.key, stored.source, m.source⟩ := by
  unfold insert
  cases hget : index.get? m.key with
  | none => exact .inl ⟨get?_eq_none_iff.1 hget, rfl⟩
  | some stored => exact .inr ⟨stored, rfl, rfl⟩

/-- What storing a batch comes to. -/
inductive Outcome (index : Index) : List Manifest → Index × Option Clash → Prop
  | stored {batch : List Manifest} : index.AreNew batch →
      Outcome index batch (⟨index.manifests ++ batch⟩, none)
  | refused {front rest : List Manifest} {m stored : Manifest} : index.AreNew front →
      get? ⟨index.manifests ++ front⟩ m.key = some stored →
      Outcome index (front ++ m :: rest)
        (⟨index.manifests ++ front⟩, some ⟨m.key, stored.source, m.source⟩)

/-- **A batch is stored up to its first clash.** -/
theorem insertAll_spec (batch : List Manifest) (index : Index) :
    Outcome index batch (index.insertAll batch) := by
  induction batch generalizing index with
  | nil =>
    have := Outcome.stored (areNew_nil index)
    rwa [List.append_nil] at this
  | cons m rest ih =>
    rw [insertAll]
    obtain ⟨hnew, hinsert⟩ | ⟨stored, hget, hinsert⟩ := index.insert_cases m
    · have hrest := ih ⟨index.manifests ++ [m]⟩
      rw [hinsert]
      simp only
      generalize insertAll ⟨index.manifests ++ [m]⟩ rest = result at hrest
      cases hrest with
      | stored hbatch =>
        have := Outcome.stored (areNew_cons.2 ⟨hnew, hbatch⟩)
        rwa [List.append_cons] at this
      | @refused front rest m' stored hfront hget =>
        rw [List.append_assoc] at hget
        have : Outcome index (m :: front ++ m' :: rest) _ :=
          .refused (areNew_cons.2 ⟨hnew, hfront⟩) hget
        rwa [List.append_cons index.manifests] at this
    · rw [hinsert]
      have hnil : get? ⟨index.manifests ++ []⟩ m.key = some stored := by
        rw [List.append_nil]
        exact hget
      have : Outcome index (m :: rest) _ := .refused (areNew_nil index) hnil
      rwa [List.append_nil] at this

theorem adds_append (h : index.HasKeysOnce) (hnew : index.AreNew front) :
    index.Adds ⟨index.manifests ++ front⟩ front where
  length_eq := List.length_append
  get?_eq_some_iff k m := by
    rw [Index.get?_eq_some_iff (hasKeysOnce_append h hnew), Index.get?_eq_some_iff h,
      List.mem_append, or_and_right]

/-- No key of a batch is refused precisely if all of them are new. -/
theorem insertAll_eq_none_iff (h : index.HasKeysOnce) :
    (index.insertAll batch).2 = none ↔ index.AreNew batch := by
  have hspec := insertAll_spec batch index
  generalize index.insertAll batch = result at hspec
  cases hspec with
  | stored hnew => exact ⟨fun _ => hnew, fun _ => rfl⟩
  | @refused front rest m stored hfront hget =>
    refine iff_of_false (Option.some_ne_none _) fun hnew => ?_
    -- the key of `m` is in the index or in front of `m`
    obtain ⟨hstored, hkey⟩ := (Index.get?_eq_some_iff (hasKeysOnce_append h hfront)).1 hget
    rcases List.mem_append.1 hstored with hold | hyoung
    · exact absurd (mem_keys.2 ⟨stored, hold, hkey⟩) (hnew.2 m (by simp))
    · have hnodup := hnew.1
      rw [List.map_append, List.nodup_append] at hnodup
      exact absurd hkey (hnodup.2.2 _ (List.mem_map_of_mem hyoung) _ (by simp))

theorem insertAll_eq_of_areNew (h : index.HasKeysOnce) (hnew : index.AreNew batch) :
    index.insertAll batch = (⟨index.manifests ++ batch⟩, none) := by
  have hnone := (insertAll_eq_none_iff h).2 hnew
  have hspec := insertAll_spec batch index
  generalize index.insertAll batch = result at hspec hnone ⊢
  cases hspec with
  | stored _ => rfl
  | refused _ _ => cases hnone

/-- **A clash stops a batch at the first key that is there by then.** -/
theorem exists_of_clash {clash : Clash} (h : index.HasKeysOnce)
    (hclash : (index.insertAll batch).2 = some clash) :
    ∃ front m rest stored, batch = front ++ m :: rest ∧ index.AreNew front ∧
      index.Adds (index.insertAll batch).1 front ∧
      (index.insertAll batch).1.get? m.key = some stored ∧
      clash = ⟨m.key, stored.source, m.source⟩ := by
  have hspec := insertAll_spec batch index
  generalize index.insertAll batch = result at hspec hclash
  cases hspec with
  | stored _ => cases hclash
  | @refused front rest m stored hfront hget =>
    obtain rfl := Option.some.inj hclash
    exact ⟨front, m, rest, stored, rfl, hfront, adds_append h hfront, hget, rfl⟩

theorem hasKeysOnce_insertAll (h : index.HasKeysOnce) :
    HasKeysOnce (index.insertAll batch).1 := by
  have hspec := insertAll_spec batch index
  generalize index.insertAll batch = result at hspec
  cases hspec with
  | stored hnew => exact hasKeysOnce_append h hnew
  | refused hfront _ => exact hasKeysOnce_append h hfront

theorem get?_insertAll (h : index.HasKeysOnce) (hget : index.get? k = some m) :
    (index.insertAll batch).1.get? k = some m := by
  have hspec := insertAll_spec batch index
  generalize index.insertAll batch = result at hspec
  cases hspec with
  | stored hnew => exact ((adds_append h hnew).get?_eq_some_iff k m).2 (.inl hget)
  | refused hfront _ => exact ((adds_append h hfront).get?_eq_some_iff k m).2 (.inl hget)

/-! ### Batch after batch -/

theorem ofBatches_append (batches later : List (List Manifest)) :
    ofBatches (batches ++ later) =
      later.foldl (fun index batch => (index.insertAll batch).1) (ofBatches batches) :=
  List.foldl_append

/-- Whatever a batch keeps, batches keep. -/
theorem foldl_insertAll {P : Index → Prop}
    (hstep : ∀ index batch, P index → P (index.insertAll batch).1)
    (batches : List (List Manifest)) :
    ∀ {index : Index}, P index →
      P (batches.foldl (fun index batch => (index.insertAll batch).1) index) := by
  induction batches with
  | nil => exact id
  | cons batch batches ih => exact fun h => ih (hstep _ batch h)

/-- **No key is ever stored twice.** -/
theorem hasKeysOnce_ofBatches (batches : List (List Manifest)) :
    (ofBatches batches).HasKeysOnce :=
  foldl_insertAll (fun _ _ h => hasKeysOnce_insertAll h) batches List.nodup_nil

/-- **What is stored stays.** -/
theorem get?_ofBatches_append {batches : List (List Manifest)} (later : List (List Manifest))
    (hget : (ofBatches batches).get? k = some m) :
    (ofBatches (batches ++ later)).get? k = some m := by
  rw [ofBatches_append]
  exact (foldl_insertAll (P := fun index => index.HasKeysOnce ∧ index.get? k = some m)
    (fun _ _ h => ⟨hasKeysOnce_insertAll h.1, get?_insertAll h.1 h.2⟩) later
    ⟨hasKeysOnce_ofBatches batches, hget⟩).2

/-! ### The order of a batch -/

theorem AreNew.perm {other : List Manifest} (h : index.AreNew batch) (hperm : batch.Perm other) :
    index.AreNew other :=
  ⟨(hperm.map Manifest.key).nodup h.1, fun m hm => h.2 m (hperm.mem_iff.2 hm)⟩

theorem sorted_perm (index : Index) : index.sorted.Perm index.manifests :=
  List.mergeSort_perm ..

/-- **Sorted, the keys increase strictly.** -/
theorem pairwise_sorted (h : index.HasKeysOnce) :
    index.sorted.Pairwise fun a b => a.key < b.key := by
  have hsorted := @List.pairwise_mergeSort _ (fun a b : Manifest => decide (a.key ≤ b.key))
    (fun a b c hab hbc => by simpa using le_trans (by simpa using hab) (by simpa using hbc))
    (fun a b => by simpa using le_total a.key b.key) index.manifests
  have hnodup : (index.sorted.map Manifest.key).Nodup :=
    ((sorted_perm index).map Manifest.key).symm.nodup h
  refine (hsorted.and (List.pairwise_map.1 hnodup)).imp fun {a b} hab => ?_
  exact lt_of_le_of_ne (by simpa using hab.1) hab.2

/-- Sorted by their keys, the same manifests make the same list. -/
theorem sorted_eq_of_perm (h : index.HasKeysOnce) (hperm : index.manifests.Perm after.manifests) :
    index.sorted = after.sorted := by
  have hafter : after.HasKeysOnce := (hperm.map Manifest.key).nodup h
  refine List.Perm.eq_of_pairwise (fun a b _ _ hab hba => absurd hba hab.not_gt)
    (pairwise_sorted h) (pairwise_sorted hafter) ?_
  exact (sorted_perm index).trans (hperm.trans (sorted_perm after).symm)

theorem get?_eq_of_perm (h : index.HasKeysOnce) (hperm : index.manifests.Perm after.manifests)
    (k : String) : index.get? k = after.get? k := by
  have hafter : after.HasKeysOnce := (hperm.map Manifest.key).nodup h
  ext m
  rw [get?_eq_some_iff h, get?_eq_some_iff hafter, hperm.mem_iff]

/-- **The order of new manifests does not count**: every order is stored as a whole, and the
indexes that come of it answer every key alike. -/
theorem insertAll_perm {other : List Manifest} (h : index.HasKeysOnce)
    (hnew : index.AreNew batch) (hperm : batch.Perm other) :
    (∀ k, (index.insertAll other).1.get? k = (index.insertAll batch).1.get? k) ∧
      (index.insertAll other).1.sorted = (index.insertAll batch).1.sorted := by
  have hother : index.AreNew other := hnew.perm hperm
  rw [insertAll_eq_of_areNew h hother, insertAll_eq_of_areNew h hnew]
  have hkeys : HasKeysOnce ⟨index.manifests ++ other⟩ := hasKeysOnce_append h hother
  have hmanifests : (index.manifests ++ other).Perm (index.manifests ++ batch) :=
    hperm.symm.append_left _
  exact ⟨get?_eq_of_perm hkeys hmanifests, sorted_eq_of_perm hkeys hmanifests⟩

/-! ### All together -/

/-- **What storing manifests batch by batch comes to.**  Behind any batches, what is stored is
found under its own key and stays through all later batches; the next batch succeeds precisely
if its keys are new, and then adds its manifests; and when it fails, it adds those before the
first one whose key is there by then, and reports this key with the stored file in front of
the refused one.  All orders of a batch succeed or fail together, and when they succeed they
come to the same index.  (An order that fails adds what stands before its own first clash.) -/
theorem insertAll_ofBatches (batches later : List (List Manifest)) (batch : List Manifest) :
    let index := ofBatches batches
    let result := index.insertAll batch
    (∀ k m, index.get? k = some m ↔ m ∈ index.manifests ∧ m.key = k) ∧
      (∀ k m, index.get? k = some m → (ofBatches (batches ++ later)).get? k = some m) ∧
      (result.2 = none ↔ index.AreNew batch) ∧
      (result.2 = none → index.Adds result.1 batch) ∧
      (∀ clash, result.2 = some clash → ∃ front m rest stored, batch = front ++ m :: rest ∧
        index.AreNew front ∧ index.Adds result.1 front ∧ result.1.get? m.key = some stored ∧
        clash = ⟨m.key, stored.source, m.source⟩) ∧
      ∀ other, batch.Perm other →
        ((index.insertAll other).2 = none ↔ result.2 = none) ∧
        (result.2 = none → (∀ k, (index.insertAll other).1.get? k = result.1.get? k) ∧
          (index.insertAll other).1.sorted = result.1.sorted) := by
  intro index result
  have h : index.HasKeysOnce := hasKeysOnce_ofBatches batches
  have hnone : ∀ batch, (index.insertAll batch).2 = none ↔ index.AreNew batch :=
    fun _ => insertAll_eq_none_iff h
  refine ⟨fun k m => get?_eq_some_iff h, fun k m => get?_ofBatches_append later, hnone batch,
    fun hok => ?_, fun clash hclash => ?_, fun other hperm => ⟨?_, fun hok => ?_⟩⟩
  · have hnew := (hnone batch).1 hok
    change index.Adds (index.insertAll batch).1 batch
    rw [insertAll_eq_of_areNew h hnew]
    exact adds_append h hnew
  · exact exists_of_clash h hclash
  · rw [hnone]
    exact ⟨fun hnew => (hnone batch).2 (hnew.perm hperm.symm),
      fun hok => ((hnone batch).1 hok).perm hperm⟩
  · exact insertAll_perm h ((hnone batch).1 hok) hperm

end Index
end Manifest
end ReleaseLint
