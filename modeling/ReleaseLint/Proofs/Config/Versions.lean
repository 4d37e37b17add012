/-
# Versions asked for under names

Versions are a map that is kept as a list: a name that is new goes to the end, and one that is
there keeps its place.  So it is enough to know which names are there and what each one asks
for.

| after `v.put n x` | |
| --- | --- |
| names | those of `v`, and `n` (`asks_put`) |
| under `n` | `x` (`get?_put`) |
| under any other name | what `v` asks for |

`putAll` puts one version after the other, and laying maps over each other is associative
(`putAll_assoc`): whether `n` is put before or after the maps are laid over each other does
not matter, since a name that is there already keeps its place (`putAll_put`).
-/

import ReleaseLint.Config.Basic
import Mathlib.Data.List.Induction
import Mathlib.Data.List.Nodup

namespace ReleaseLint
namespace Config
namespace Versions

variable {v above : Versions} {m n x y : String}

/-- Whether a version is asked for under a name. -/
def Asks (v : Versions) (name : String) : Prop :=
  name ∈ v.map (·.1)

instance : Decidable (v.Asks n) :=
  inferInstanceAs (Decidable (n ∈ v.map (·.1)))

theorem not_asks_nil : ¬Asks [] n :=
  List.not_mem_nil

@[simp]
theorem asks_concat {e : String × String} : Asks (v ++ [e]) n ↔ v.Asks n ∨ n = e.1 := by
  unfold Asks
  simp

theorem any_iff_asks : (v.any (·.1 == n)) = true ↔ v.Asks n := by
  unfold Asks
  simp [List.any_eq_true]

theorem put_of_asks (h : v.Asks n) :
    v.put n x = v.map fun e => if e.1 == n then (n, x) else e := by
  unfold put
  rw [if_pos (any_iff_asks.2 h)]

theorem map_of_not_asks (h : ¬v.Asks n) : (v.map fun e => if e.1 == n then (n, x) else e) = v := by
  conv_rhs => rw [← List.map_id v]
  refine List.map_congr_left fun e he => ?_
  have hne : e.1 ≠ n := fun hn => h (hn ▸ List.mem_map_of_mem (f := (·.1)) he)
  rw [if_neg (by simpa using hne), id]

theorem put_of_not_asks (h : ¬v.Asks n) : v.put n x = v ++ [(n, x)] := by
  unfold put
  rw [if_neg (mt any_iff_asks.1 h)]

theorem names_put_of_asks (h : v.Asks n) : (v.put n x).map (·.1) = v.map (·.1) := by
  rw [put_of_asks h, List.map_map]
  refine List.map_congr_left fun e _ => ?_
  by_cases he : e.1 = n <;> simp [he]

@[simp]
theorem asks_put : (v.put n x).Asks m ↔ m = n ∨ v.Asks m := by
  by_cases h : v.Asks n
  · unfold Asks
    rw [names_put_of_asks h]
    exact ⟨.inr, fun hm => hm.elim (fun he => he ▸ h) id⟩
  · rw [put_of_not_asks h]
    unfold Asks
    simp [or_comm]

theorem nodup_put (h : (v.map (·.1)).Nodup) : ((v.put n x).map (·.1)).Nodup := by
  by_cases hn : v.Asks n
  · rwa [names_put_of_asks hn]
  · rw [put_of_not_asks hn, List.map_append, List.map_singleton, List.nodup_append]
    refine ⟨h, List.nodup_singleton n, fun a ha b hb he => hn ?_⟩
    obtain rfl := List.mem_singleton.1 hb
    exact he ▸ ha

theorem get?_eq_none_iff : v.get? n = none ↔ ¬v.Asks n := by
  unfold get?
  rw [Option.map_eq_none_iff, List.find?_eq_none, ← any_iff_asks, List.any_eq_true]
  exact ⟨fun h ⟨e, he, hn⟩ => h e he hn, fun h e he hn => h ⟨e, he, hn⟩⟩

theorem get?_append : get? (v ++ above) n = (v.get? n).or (above.get? n) := by
  unfold get?
  rw [List.find?_append, Option.map_or]

/-- The version that is put under a name counts, and those under other names stay. -/
theorem get?_put : (v.put n x).get? m = if m = n then some x else v.get? m := by
  by_cases h : v.Asks n
  · have hkeep : ((fun e : String × String => e.1 == m) ∘ fun e => if e.1 == n then (n, x) else e) =
        fun e => e.1 == m := by
      funext e
      by_cases he : e.1 = n <;> simp [he]
    rw [put_of_asks h]
    unfold get?
    rw [List.find?_map, hkeep]
    cases hfind : v.find? (·.1 == m) with
    | none =>
      have hne : m ≠ n := by
        rintro rfl
        exact get?_eq_none_iff.1 (by unfold get?; rw [hfind]; rfl) h
      rw [if_neg hne]
      rfl
    | some e =>
      have he : e.1 = m := by simpa using List.find?_some hfind
      by_cases hm : m = n <;> simp [he, hm]
  · rw [put_of_not_asks h]
    unfold get?
    rw [List.find?_append]
    by_cases hm : m = n
    · subst hm
      have hnone : v.find? (·.1 == m) = none := by
        simpa [get?] using get?_eq_none_iff.2 h
      simp [hnone]
    · simp [hm, Ne.symm hm]

theorem put_put : (v.put n x).put n y = v.put n y := by
  by_cases h : v.Asks n
  · rw [put_of_asks (asks_put.2 (.inr h)), put_of_asks h, put_of_asks h, List.map_map]
    refine List.map_congr_left fun e _ => ?_
    by_cases he : e.1 = n <;> simp [he]
  · rw [put_of_asks (asks_put.2 (.inl rfl)), put_of_not_asks h, put_of_not_asks h,
      List.map_append, map_of_not_asks h]
    simp

/-- Versions under different names are put in either order, if one of the names is there. -/
theorem put_comm (h : v.Asks n) (hne : n ≠ m) : (v.put n x).put m y = (v.put m y).put n x := by
  by_cases hm : v.Asks m
  · rw [put_of_asks (asks_put.2 (.inr hm)), put_of_asks (asks_put.2 (.inr h)), put_of_asks h,
      put_of_asks hm, List.map_map, List.map_map]
    refine List.map_congr_left fun e _ => ?_
    by_cases he : e.1 = n
    · simp [he, hne]
    · by_cases he' : e.1 = m <;> simp [he, he', hne.symm]
  · have hm' : ¬(v.put n x).Asks m := by simp [hm, hne.symm]
    rw [put_of_not_asks hm', put_of_asks (asks_put.2 (.inr h)), put_of_not_asks hm, put_of_asks h,
      List.map_append, List.map_singleton, if_neg (by simpa using hne.symm)]

/-! ### One map over another -/

theorem putAll_concat (e : String × String) :
    v.putAll (above ++ [e]) = (v.putAll above).put e.1 e.2 :=
  List.foldl_concat ..

@[simp]
theorem asks_putAll : (v.putAll above).Asks n ↔ v.Asks n ∨ above.Asks n := by
  induction above using List.reverseRecOn with
  | nil => exact ⟨.inl, fun h => h.resolve_right not_asks_nil⟩
  | append_singleton above e ih => rw [putAll_concat, asks_put, asks_concat, ih, or_comm, or_assoc]

theorem nodup_putAll (h : (v.map (·.1)).Nodup) : ((v.putAll above).map (·.1)).Nodup := by
  induction above using List.reverseRecOn with
  | nil => exact h
  | append_singleton above e ih =>
    rw [putAll_concat]
    exact nodup_put ih

/-- Names of the upper map are taken from it. -/
theorem get?_putAll (h : (above.map (·.1)).Nodup) :
    (v.putAll above).get? m = (above.get? m).or (v.get? m) := by
  induction above using List.reverseRecOn with
  | nil => rfl
  | append_singleton above e ih =>
    obtain ⟨n, x⟩ := e
    rw [List.map_append, List.map_singleton, List.nodup_append] at h
    have hnew : ¬Asks above n := fun hmem => h.2.2 n hmem n (List.mem_singleton_self n) rfl
    rw [putAll_concat, ← put_of_not_asks hnew, get?_put, get?_put, ih h.1]
    split_ifs <;> rfl

/-- A version that is put into the upper map is put over both of them. -/
theorem putAll_put : v.putAll (above.put n x) = (v.putAll above).put n x := by
  by_cases h : above.Asks n
  · rw [put_of_asks h]
    induction above using List.reverseRecOn with
    | nil => exact absurd h not_asks_nil
    | append_singleton above e ih =>
      rw [List.map_append, List.map_singleton, putAll_concat, putAll_concat]
      by_cases he : e.1 = n
      · have hput : (v.putAll (above.map fun e => if e.1 == n then (n, x) else e)).put n x =
            (v.putAll above).put n x := by
          by_cases habove : Asks above n
          · rw [ih habove, put_put]
          · rw [map_of_not_asks habove]
        rw [he, beq_self_eq_true, if_pos rfl, hput, put_put]
      · have habove : Asks above n := (asks_concat.1 h).resolve_right (Ne.symm he)
        rw [ih habove, if_neg (by simpa using he),
          put_comm (asks_putAll.2 (.inr habove)) (Ne.symm he)]
  · rw [put_of_not_asks h, putAll_concat]

/-- **Laying maps over each other is associative.** -/
theorem putAll_assoc (a b c : Versions) : (a.putAll b).putAll c = a.putAll (b.putAll c) := by
  induction c using List.reverseRecOn with
  | nil => rfl
  | append_singleton c e ih => rw [putAll_concat, putAll_concat, putAll_put, ih]

end Versions
end Config
end ReleaseLint
