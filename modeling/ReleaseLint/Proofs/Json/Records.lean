/-
# Values that stand for records

How a record may be written as a value, said without a reader: as an object with its fields
in any order, in which a field that holds its default may be left out.

| of a record | written as |
| --- | --- |
| a text | a string |
| a count, an integer | an integer of 64 bits, with a sign only where it is negative |
| a list | an array of its entries in their order |
| a bucket | a list, or null where it is empty |

`IsReadBy` says that what is written so is read back, and is sound down to a depth; it holds
of each line of the table, and of a record if it holds of its fields.
-/

import ReleaseLint.Json.Decode
import ReleaseLint.Proofs.Decimal.Rounding
import ReleaseLint.Proofs.Except
import Mathlib.Algebra.Group.Int.Defs
import Mathlib.Data.List.Forall2

namespace ReleaseLint
namespace Json

variable {α : Type} {d : Nat} {j : Json} {fields : List (String × Option Json)}

/-! ### Forms -/

/-- Whether a value is the text. -/
def IsText (s : String) (j : Json) : Prop :=
  j = .text s

/-- Whether a value is the boolean. -/
def IsBool (b : Bool) (j : Json) : Prop :=
  j = .bool b

/-- Whether a value is the count, and has 64 bits. -/
def IsCount (n : Nat) (j : Json) : Prop :=
  n < UInt64.size ∧ j = .count n

/-- Whether a value is the integer, and has 64 bits with its sign. -/
def IsInteger (n : Int) (j : Json) : Prop :=
  -2 ^ 63 ≤ n ∧ n < 2 ^ 63 ∧ j = .number ⟨decide (n < 0), n.natAbs, 0, true⟩

/-- Whether a value is an array of the entries of a list. -/
def IsList (IsEntry : α → Json → Prop) (l : List α) (j : Json) : Prop :=
  ∃ items, j = .array items ∧ List.Forall₂ IsEntry l items

/-- Whether a value is an array of the entries of a list, or null for the empty one. -/
def IsBucket (IsEntry : α → Json → Prop) (l : List α) (j : Json) : Prop :=
  IsList IsEntry l j ∨ l = [] ∧ j = .null

/-- Whether a field holds `a`: it is written as that, or left out where that is its default. -/
def IsField (IsValue : α → Json → Prop) (default a : α) : Option Json → Prop
  | none => a = default
  | some j => IsValue a j

/-- The members that write the fields of a record; `none` is a field that is left out. -/
def present (fields : List (String × Option Json)) : List (Option String × Json) :=
  fields.filterMap fun f => f.2.map fun j => (some f.1, j)

/-- Whether a value is an object with these fields, in any order. -/
def IsRecord (fields : List (String × Option Json)) (j : Json) : Prop :=
  ∃ members, j = .object members ∧ members.Perm (present fields)

/-! ### Reading -/

/-- Whether all values of a form are read as what they are, and are sound. -/
def IsReadBy (read : Json → Except Fault α) (d : Nat) (IsValue : α → Json → Prop) : Prop :=
  ∀ a j, IsValue a j → read j = .ok a ∧ soundTo d j = true

theorem isText_isReadBy (d : Nat) : IsReadBy asText d IsText := by
  rintro s _ rfl
  exact ⟨rfl, by rw [text, soundTo]; rfl⟩

theorem isBool_isReadBy (d : Nat) : IsReadBy asBool d IsBool := by
  rintro b _ rfl
  exact ⟨rfl, by rw [soundTo]⟩

theorem isCount_isReadBy (d : Nat) : IsReadBy asUnsigned d IsCount := by
  rintro n _ ⟨hn, rfl⟩
  exact ⟨rfl, by rw [count, soundTo]; exact Number.isFinite_of_lt false hn⟩

theorem isInteger_isReadBy (d : Nat) : IsReadBy asSigned d IsInteger := by
  rintro n _ ⟨hlow, hhigh, rfl⟩
  have hhalf : UInt64.size / 2 = 2 ^ 63 := rfl
  refine ⟨?_, ?_⟩
  · rw [asSigned, Number.signed?, if_neg (by simp [Number.isInteger])]
    by_cases hn : n < 0
    · rw [if_pos (decide_eq_true hn), if_pos (by simp; omega)]
      show Except.ok (-(n.natAbs : Int)) = .ok n
      rw [Int.ofNat_natAbs_of_nonpos (Int.le_of_lt hn), Int.neg_neg]
    · rw [if_neg (by simpa using hn), if_pos (by simp; omega)]
      show Except.ok (n.natAbs : Int) = .ok n
      rw [Int.natAbs_of_nonneg (Int.not_lt.1 hn)]
  · rw [soundTo]
    exact Number.isFinite_of_lt _ (by rw [UInt64.size]; omega)

theorem soundItems_iff {items : List Json} :
    soundItems d items = true ↔ ∀ j ∈ items, soundTo d j = true := by
  induction items with
  | nil => simp [soundItems]
  | cons item items ih => rw [soundItems, Bool.and_eq_true, ih, List.forall_mem_cons]

theorem soundMembers_iff {members : List (Option String × Json)} :
    soundMembers d members = true ↔ ∀ m ∈ members, m.1.isSome = true ∧ soundTo d m.2 = true := by
  induction members with
  | nil => simp [soundMembers]
  | cons m members ih =>
    rw [soundMembers, Bool.and_eq_true, Bool.and_eq_true, ih, List.forall_mem_cons]

variable {read : Json → Except Fault α} {IsValue : α → Json → Prop}

theorem exists_of_forall₂ {l : List α} {items : List Json} (h : List.Forall₂ IsValue l items) :
    ∀ j ∈ items, ∃ a, IsValue a j := by
  induction h with
  | nil => exact fun j hj => absurd hj List.not_mem_nil
  | cons ha _ ih => exact List.forall_mem_cons.2 ⟨⟨_, ha⟩, ih⟩

theorem isList_isReadBy (h : IsReadBy read d IsValue) :
    IsReadBy (asList read) (d + 1) (IsList IsValue) := by
  rintro l _ ⟨items, rfl, hitems⟩
  refine ⟨mapM_eq_ok_of_forall₂ (hitems.flip.imp fun _ _ hv => (h _ _ hv).1), ?_⟩
  rw [soundTo, Bool.and_eq_true]
  refine ⟨by simp, soundItems_iff.2 fun j hj => ?_⟩
  obtain ⟨a, ha⟩ := exists_of_forall₂ hitems j hj
  exact (h a j ha).2

theorem isBucket_isReadBy (h : IsReadBy read d IsValue) :
    IsReadBy (asListOrNull read) (d + 1) (IsBucket IsValue) := by
  rintro l j (hlist | ⟨rfl, rfl⟩)
  · obtain ⟨hread, hsound⟩ := isList_isReadBy h l j hlist
    obtain ⟨items, rfl, -⟩ := hlist
    exact ⟨hread, hsound⟩
  · exact ⟨rfl, by rw [soundTo]⟩

/-- Whether what is written of a field, if anything, is sound. -/
def IsSoundField (d : Nat) (written : Option Json) : Prop :=
  ∀ j ∈ written, soundTo d j = true

theorem IsReadBy.field (h : IsReadBy read d IsValue) {default a : α} {written : Option Json}
    (hw : IsField IsValue default a written) :
    orDefault default read written = .ok a ∧ IsSoundField d written := by
  cases written with
  | none =>
    obtain rfl : a = default := hw
    exact ⟨rfl, fun j hj => by cases hj⟩
  | some j =>
    obtain ⟨hread, hsound⟩ := h a j hw
    exact ⟨hread, fun j hj => Option.mem_some_iff.1 hj ▸ hsound⟩

/-! ### Records -/

theorem valuesOf_append (name : String) (a b : List (Option String × Json)) :
    valuesOf name (a ++ b) = valuesOf name a ++ valuesOf name b := by
  unfold valuesOf
  rw [List.filter_append, List.map_append]

theorem valuesOf_perm {a b : List (Option String × Json)} (h : a.Perm b) (name : String) :
    (valuesOf name a).Perm (valuesOf name b) :=
  (h.filter _).map _

theorem present_cons (f : String × Option Json) (fields : List (String × Option Json)) :
    present (f :: fields) = (f.2.map fun j => (some f.1, j)).toList ++ present fields := by
  obtain ⟨name, _ | j⟩ := f <;> rfl

/-- A field has one value or none, and only under its own name. -/
theorem valuesOf_field (name : String) (f : String × Option Json) :
    valuesOf name (f.2.map fun j => (some f.1, j)).toList =
      if f.1 = name then f.2.toList else [] := by
  obtain ⟨key, _ | j⟩ := f
  · split_ifs <;> rfl
  · unfold valuesOf
    rw [Option.map_some, Option.toList_some]
    by_cases h : key = name
    · rw [if_pos h, List.filter_cons_of_pos (by simpa using h)]
      rfl
    · rw [if_neg h, List.filter_cons_of_neg (by simpa using h)]
      rfl

theorem valuesOf_present_of_not_mem {name : String} (h : name ∉ fields.map Prod.fst) :
    valuesOf name (present fields) = [] := by
  induction fields with
  | nil => rfl
  | cons f fields ih =>
    rw [List.map_cons, List.mem_cons, not_or] at h
    rw [present_cons, valuesOf_append, valuesOf_field, if_neg (Ne.symm h.1), ih h.2]
    rfl

theorem valuesOf_present {f : String × Option Json} (hnames : (fields.map Prod.fst).Nodup)
    (hf : f ∈ fields) : valuesOf f.1 (present fields) = f.2.toList := by
  induction fields with
  | nil => exact absurd hf List.not_mem_nil
  | cons g fields ih =>
    rw [List.map_cons, List.nodup_cons] at hnames
    rw [present_cons, valuesOf_append, valuesOf_field]
    rcases List.mem_cons.1 hf with rfl | hf
    · rw [if_pos rfl, valuesOf_present_of_not_mem hnames.1, List.append_nil]
    · have hne : g.1 ≠ f.1 := fun h => hnames.1 (h ▸ List.mem_map_of_mem hf)
      rw [if_neg hne, ih hnames.2 hf, List.nil_append]

/-- The fields of a record are found by their names. -/
theorem IsRecord.fields_eq {names : List String} (h : IsRecord fields j) (hdistinct : names.Nodup)
    (hnames : fields.map Prod.fst = names) : Json.fields names j = .ok (fields.map Prod.snd) := by
  subst hnames
  obtain ⟨members, rfl, hperm⟩ := h
  have hkeys : ¬members.any (·.1.isNone) = true := by
    rw [List.any_eq_true]
    rintro ⟨m, hm, hnone⟩
    obtain ⟨f, -, hwritten⟩ := List.mem_filterMap.1 (hperm.mem_iff.1 hm)
    obtain ⟨j, -, rfl⟩ := Option.map_eq_some_iff.1 hwritten
    cases hnone
  have hvalues : ∀ f ∈ fields, valuesOf f.1 members = f.2.toList := by
    intro f hf
    have hvalues : (valuesOf f.1 members).Perm f.2.toList :=
      valuesOf_present hdistinct hf ▸ valuesOf_perm hperm f.1
    cases hwritten : f.2 with
    | none =>
      rw [hwritten] at hvalues
      exact hvalues.eq_nil
    | some j =>
      rw [hwritten] at hvalues
      exact hvalues.eq_singleton
  rw [Json.fields, if_neg hkeys]
  refine mapM_eq_ok_of_forall₂ ?_
  rw [List.forall₂_map_left_iff, List.forall₂_map_right_iff, List.forall₂_same]
  intro f hf
  rw [hvalues f hf]
  cases f.2 <;> rfl

theorem IsRecord.sound (h : IsRecord fields j) (hsound : ∀ f ∈ fields, IsSoundField d f.2) :
    soundTo (d + 1) j = true := by
  obtain ⟨members, rfl, hperm⟩ := h
  rw [soundTo, Bool.and_eq_true]
  refine ⟨by simp, soundMembers_iff.2 fun m hm => ?_⟩
  obtain ⟨f, hf, hwritten⟩ := List.mem_filterMap.1 (hperm.mem_iff.1 hm)
  obtain ⟨j, hj, rfl⟩ := Option.map_eq_some_iff.1 hwritten
  exact ⟨rfl, hsound f hf j hj⟩

end Json
end ReleaseLint
