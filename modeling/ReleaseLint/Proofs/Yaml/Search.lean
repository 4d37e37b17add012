/-
# Searching the documents of a text

A search goes through the documents of a text, one after the other, until it has its answer.
Each search has one end (`endsAt_iff`):

| it ends | and in front of its end are |
| --- | --- |
| at a document that passes the test | documents with values that do not pass |
| at one without a value, or where the text breaks off | the same |
| behind the last document of a text without faults | the same, and nothing else |

Documents behind the end do not count.  `Values` holds what a search can see: the values in front
of the first fault, and that fault.
-/

import ReleaseLint.Yaml.Value
import Mathlib.Data.List.Basic

namespace ReleaseLint
namespace Yaml

/-- How a search ends. -/
inductive SearchEnd where
  | found (v : Value)
  | broken (e : Fault)
  | exhausted

/-- How a search goes through documents that have a fault, or none, behind them. -/
inductive Searches (P : Value → Prop) (fault : Option Fault) : List Document → SearchEnd → Prop
  | found {d rest v} (hvalue : d.toValue = .ok v) (hv : P v) :
      Searches P fault (d :: rest) (.found v)
  | next {d rest v e} (hvalue : d.toValue = .ok v) (hv : ¬P v) (hrest : Searches P fault rest e) :
      Searches P fault (d :: rest) e
  | broken {d rest e} (hvalue : d.toValue = .error e) : Searches P fault (d :: rest) (.broken e)
  | torn {e} (hfault : fault = some e) : Searches P fault [] (.broken e)
  | exhausted (hfault : fault = none) : Searches P fault [] .exhausted

/-- Whether a search through the documents of a text ends in some way. -/
def EndsAt (P : Value → Prop) (content : String) (e : SearchEnd) : Prop :=
  Searches P (Stream.ofText content).fault (Stream.ofText content).documents e

/-- Whether a text has no fault, and each of its documents has a value. -/
def IsSound (content : String) : Prop :=
  (Stream.ofText content).fault = none ∧
    ∀ d ∈ (Stream.ofText content).documents, ∃ v, d.toValue = .ok v

/-- Whether a value is that of a document of a text. -/
def IsDocumentOf (content : String) (v : Value) : Prop :=
  ∃ d ∈ (Stream.ofText content).documents, d.toValue = .ok v

/-- The end of a search among values. -/
def Values.searchEnd (p : Value → Bool) (values : Values) : SearchEnd :=
  match values.values.find? p, values.fault with
  | some v, _ => .found v
  | none, some e => .broken e
  | none, none => .exhausted

variable {P : Value → Prop} {p : Value → Bool} {s : Stream} {content : String} {e : SearchEnd}
variable {fault : Option Fault} {documents : List Document} {d : Document} {v : Value}

/-! ### Where a search ends -/

theorem searches_nil_iff :
    Searches P fault [] e ↔ (match fault with | some f => .broken f | none => .exhausted) = e := by
  constructor
  · rintro (_ | _ | _ | rfl | rfl) <;> rfl
  · rintro rfl
    cases fault with
    | some f => exact .torn rfl
    | none => exact .exhausted rfl

theorem searches_cons_of_error {f : Fault} (hvalue : d.toValue = .error f) :
    Searches P fault (d :: documents) e ↔ .broken f = e := by
  constructor
  · rintro (⟨h, -⟩ | ⟨h, -, -⟩ | h)
    · cases hvalue.symm.trans h
    · cases hvalue.symm.trans h
    · rw [Except.error.inj (hvalue.symm.trans h)]
  · rintro rfl
    exact .broken hvalue

theorem searches_cons_of_pos (hvalue : d.toValue = .ok v) (hv : P v) :
    Searches P fault (d :: documents) e ↔ .found v = e := by
  constructor
  · rintro (⟨h, -⟩ | ⟨h, hnot, -⟩ | h)
    · rw [Except.ok.inj (hvalue.symm.trans h)]
    · exact absurd (Except.ok.inj (hvalue.symm.trans h) ▸ hv) hnot
    · cases hvalue.symm.trans h
  · rintro rfl
    exact .found hvalue hv

theorem searches_cons_of_neg (hvalue : d.toValue = .ok v) (hv : ¬P v) :
    Searches P fault (d :: documents) e ↔ Searches P fault documents e := by
  constructor
  · rintro (⟨h, hfound⟩ | ⟨-, -, hrest⟩ | h)
    · exact absurd (Except.ok.inj (hvalue.symm.trans h) ▸ hfound) hv
    · exact hrest
    · cases hvalue.symm.trans h
  · exact .next hvalue hv

/-- **The values in front of the first fault decide how a search ends.** -/
theorem searches_iff (hp : ∀ v, p v = true ↔ P v) (documents : List Document) :
    Searches P s.fault documents e ↔ (Stream.toValues.go s documents).searchEnd p = e := by
  induction documents with
  | nil =>
    rw [searches_nil_iff, Stream.toValues.go, Values.searchEnd]
    cases s.fault <;> rfl
  | cons d rest ih =>
    rw [Stream.toValues.go]
    cases hvalue : d.toValue with
    | error f => exact searches_cons_of_error hvalue
    | ok v =>
      by_cases hv : P v
      · rw [searches_cons_of_pos hvalue hv, Values.searchEnd, List.find?_cons_of_pos ((hp v).2 hv)]
      · rw [searches_cons_of_neg hvalue hv, ih, Values.searchEnd, Values.searchEnd,
          List.find?_cons_of_neg fun h => hv ((hp v).1 h)]

theorem endsAt_iff (hp : ∀ v, p v = true ↔ P v) :
    EndsAt P content e ↔ (Values.ofText content).searchEnd p = e :=
  searches_iff hp _

/-- A value that passes is found if the documents in front of the first fault have one. -/
theorem any_iff (hp : ∀ v, p v = true ↔ P v) :
    (Values.ofText content).values.any p = true ↔ ∃ v, EndsAt P content (.found v) := by
  simp only [endsAt_iff hp]
  rw [← List.isSome_find?, Values.searchEnd]
  cases (Values.ofText content).values.find? p with
  | some v => exact iff_of_true rfl ⟨v, rfl⟩
  | none => cases (Values.ofText content).fault <;> simp

/-- A fault ends the search if none of the documents in front of it passes. -/
theorem exists_broken_iff (hp : ∀ v, p v = true ↔ P v) :
    (∃ f, EndsAt P content (.broken f)) ↔
      (Values.ofText content).values.any p = false ∧ (Values.ofText content).fault.isSome = true := by
  simp only [endsAt_iff hp]
  rw [← List.isSome_find?, Values.searchEnd]
  cases (Values.ofText content).values.find? p with
  | some v => simp
  | none => cases (Values.ofText content).fault <;> simp

/-! ### Texts without faults -/

theorem fault_eq_none_iff (documents : List Document) :
    (Stream.toValues.go s documents).fault = none ↔
      s.fault = none ∧ ∀ d ∈ documents, ∃ v, d.toValue = .ok v := by
  induction documents with
  | nil => simp [Stream.toValues.go]
  | cons d rest ih =>
    rw [Stream.toValues.go, List.forall_mem_cons]
    cases hvalue : d.toValue with
    | error f => simp
    | ok v => simp [ih]

theorem isSound_iff : IsSound content ↔ (Values.ofText content).fault = none :=
  (fault_eq_none_iff _).symm

theorem mem_values_iff (documents : List Document)
    (h : ∀ d ∈ documents, ∃ v, d.toValue = .ok v) :
    v ∈ (Stream.toValues.go s documents).values ↔ ∃ d ∈ documents, d.toValue = .ok v := by
  induction documents with
  | nil => simp [Stream.toValues.go]
  | cons d rest ih =>
    obtain ⟨⟨u, hu⟩, hrest⟩ := List.forall_mem_cons.1 h
    simp only [Stream.toValues.go, hu]
    rw [List.mem_cons, ih hrest, List.exists_mem_cons_iff, hu, Except.ok.injEq, eq_comm]

/-- **In a text without faults a search finds what any document holds.** -/
theorem exists_found_iff (hsound : IsSound content) (hp : ∀ v, p v = true ↔ P v) :
    (∃ v, EndsAt P content (.found v)) ↔ ∃ v, IsDocumentOf content v ∧ P v := by
  rw [← any_iff hp, List.any_eq_true]
  exact exists_congr fun v => and_congr (mem_values_iff _ hsound.2) (hp v)

end Yaml
end ReleaseLint
