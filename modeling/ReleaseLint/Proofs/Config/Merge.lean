/-
# Laying configs over each other is associative

Each setting has its own way of being laid over another, and each way is associative and has
the setting that is left open as its identity.  So configs are a monoid under `merge`, with
`unset` as the identity, and how a list of configs is split does not matter
(`merge_laws`).

| setting | outcome | why it is associative |
| --- | --- | --- |
| texts, channel lists | the upper one, unless it is empty | the uppermost that is not empty |
| charts, preflights, manifests | both, one after the other | lists |
| version, switches | the upper one, if it is set | `Option.or` |
| versions of tools | the upper one for each tool | `Versions.putAll_assoc` |
| the lint block as a whole | both, or the one that is there | the four above |

Repeated entries may be dropped before or after configs are laid over each other: the first
entry with a path is the same one (`firsts_append_firsts`).
-/

import ReleaseLint.Config.Merge
import ReleaseLint.Proofs.Config.Versions

namespace ReleaseLint
namespace Config

/-! ### The settings -/

theorem pickText_assoc (a b c : String) :
    pickText (pickText a b) c = pickText a (pickText b c) := by
  unfold pickText
  split_ifs <;> rfl

theorem pickList_assoc (a b c : List String) :
    pickList (pickList a b) c = pickList a (pickList b c) := by
  cases b <;> cases c <;> rfl

namespace Lint

theorem onTopOf_assoc (a b c : Lint) : c.onTopOf (b.onTopOf a) = (c.onTopOf b).onTopOf a := by
  unfold onTopOf Switches.onTopOf
  simp only [Option.or_assoc, Versions.putAll_assoc]

end Lint

theorem mergeLint_assoc (a b c : Option Lint) :
    mergeLint (mergeLint a b) c = mergeLint a (mergeLint b c) := by
  cases a with
  | none => cases b <;> cases c <;> rfl
  | some a =>
    cases b with
    | none => cases c <;> rfl
    | some b =>
      cases c with
      | none => rfl
      | some c => exact congrArg some (Lint.onTopOf_assoc a b c)

theorem merge_assoc (a b c : Config) : merge (merge a b) c = merge a (merge b c) := by
  unfold merge
  simp only [pickText_assoc, pickList_assoc, mergeLint_assoc, List.append_assoc]

theorem pickText_empty (a : String) : pickText a "" = a :=
  if_pos rfl

theorem empty_pickText (a : String) : pickText "" a = a := by
  unfold pickText
  split_ifs with h
  · exact h.symm
  · rfl

theorem pickList_nil (a : List String) : pickList a [] = a :=
  rfl

theorem nil_pickList (a : List String) : pickList [] a = a := by
  cases a <;> rfl

theorem merge_unset (a : Config) : merge a unset = a := by
  unfold merge unset
  simp only [pickText_empty, pickList_nil, List.append_nil]
  cases a with
  | mk _ _ _ _ _ _ _ _ lint => cases lint <;> rfl

theorem unset_merge (a : Config) : merge unset a = a := by
  unfold merge unset
  simp only [empty_pickText, nil_pickList, List.nil_append]
  cases a with
  | mk _ _ _ _ _ _ _ _ lint => cases lint <;> rfl

instance : Std.Associative merge :=
  ⟨merge_assoc⟩

instance : Std.LawfulIdentity merge unset where
  left_id := unset_merge
  right_id := merge_unset

theorem mergeAll_append (lower upper : List Config) :
    mergeAll (lower ++ upper) = merge (mergeAll lower) (mergeAll upper) := by
  unfold mergeAll
  rw [List.foldl_append, ← @List.foldl_assoc _ merge, merge_unset]

theorem mergeAll_concat (configs : List Config) (c : Config) :
    mergeAll (configs ++ [c]) = merge (mergeAll configs) c :=
  List.foldl_concat ..

/-! ### Entries with one path -/

section Firsts

variable {α : Type} {path : α → String} {seen seen' : List String} {l m : List α}

/-- It only counts which paths are seen before. -/
theorem firsts_congr (h : ∀ p, p ∈ seen ↔ p ∈ seen') :
    firsts path seen l = firsts path seen' l := by
  induction l generalizing seen seen' with
  | nil => rfl
  | cons e r ih =>
    have hcons : ∀ p, p ∈ path e :: seen ↔ p ∈ path e :: seen' := fun p => by
      rw [List.mem_cons, List.mem_cons, h p]
    simp only [firsts, List.contains_iff_mem, h (path e), ih h, ih hcons]

theorem firsts_append : firsts path seen (l ++ m) =
    firsts path seen l ++ firsts path (l.map path ++ seen) m := by
  induction l generalizing seen with
  | nil => rfl
  | cons e r ih =>
    by_cases he : path e ∈ seen
    · have hcongr : firsts path (r.map path ++ seen) m =
          firsts path ((e :: r).map path ++ seen) m := by
        refine firsts_congr fun p => ?_
        rw [List.map_cons, List.cons_append, List.mem_cons]
        exact ⟨.inr, fun hp => hp.elim (fun hp => hp ▸ List.mem_append_right _ he) id⟩
      simp only [List.cons_append, firsts, List.contains_iff_mem, if_pos he, ih, hcongr]
    · have hcongr : firsts path (r.map path ++ path e :: seen) m =
          firsts path ((e :: r).map path ++ seen) m := by
        refine firsts_congr fun p => ?_
        simp only [List.map_cons, List.cons_append, List.mem_cons, List.mem_append]
        exact or_left_comm
      simp only [List.cons_append, firsts, List.contains_iff_mem, if_neg he, ih, hcongr]

theorem mem_map_firsts {p : String} :
    p ∈ (firsts path seen l).map path ↔ p ∈ l.map path ∧ p ∉ seen := by
  induction l generalizing seen with
  | nil => simp [firsts]
  | cons e r ih =>
    by_cases he : path e ∈ seen
    · simp only [firsts, List.contains_iff_mem, if_pos he, ih, List.map_cons, List.mem_cons]
      exact and_congr_left fun hp => ⟨.inr, fun h => h.resolve_left fun h => hp (h ▸ he)⟩
    · simp only [firsts, List.contains_iff_mem, if_neg he, List.map_cons, List.mem_cons, ih]
      by_cases hp : p = path e
      · simp [hp, he]
      · simp [hp]

/-- What is dropped with fewer paths seen before would be dropped anyway. -/
theorem firsts_firsts (h : seen' ⊆ seen) :
    firsts path seen (firsts path seen' l) = firsts path seen l := by
  induction l generalizing seen seen' with
  | nil => rfl
  | cons e r ih =>
    by_cases he' : path e ∈ seen'
    · simp only [firsts, List.contains_iff_mem, if_pos he', if_pos (h he'), ih h]
    · by_cases he : path e ∈ seen
      · have hsub : path e :: seen' ⊆ seen := List.cons_subset.2 ⟨he, h⟩
        simp only [firsts, List.contains_iff_mem, if_neg he', if_pos he, ih hsub]
      · have hsub : path e :: seen' ⊆ path e :: seen := List.cons_subset_cons _ h
        simp only [firsts, List.contains_iff_mem, if_neg he', if_neg he, ih hsub]

/-- Entries may be dropped from the parts before they are dropped from the whole. -/
theorem firsts_append_firsts :
    firsts path [] (firsts path [] l ++ firsts path [] m) = firsts path [] (l ++ m) := by
  have hseen : ∀ p, p ∈ (firsts path [] l).map path ++ [] ↔ p ∈ l.map path ++ [] := fun p => by
    rw [List.append_nil, List.append_nil, mem_map_firsts]
    simp
  rw [firsts_append, firsts_append, firsts_firsts (List.Subset.refl []),
    firsts_firsts (List.nil_subset _), firsts_congr hseen]

end Firsts

/-- **The laws of laying configs over each other.**  The config that leaves everything open
changes nothing, above or below; three configs may be grouped either way, and so may the two
parts of a list; and dropping repeated entries early changes nothing. -/
theorem merge_laws :
    (∀ a, merge unset a = a ∧ merge a unset = a) ∧
    (∀ a b c, merge (merge a b) c = merge a (merge b c)) ∧
    (∀ lower upper, mergeAll (lower ++ upper) = merge (mergeAll lower) (mergeAll upper)) ∧
    (∀ a b, (merge a b).distinct = (merge a.distinct b.distinct).distinct) := by
  refine ⟨fun a => ⟨unset_merge a, merge_unset a⟩, merge_assoc, mergeAll_append, fun a b => ?_⟩
  unfold distinct merge
  simp only [firsts_append_firsts]

end Config
end ReleaseLint
