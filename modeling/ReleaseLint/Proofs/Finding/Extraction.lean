/-
# A report among other text

A linter prints its report among other text, and that may hold quotes and braces of any
kind.  None of it can hide the report or cut it short: a sound object is a span of the
output, and the first sound span is the object itself or one that begins in front of it
(`soundSpan_of_object`).

| text in front of the object | first sound span |
| --- | --- |
| without an opening brace | the object |
| with spans that are not sound | the object |
| with a sound span | the first of these |
-/

import ReleaseLint.Finding.Embedded
import ReleaseLint.Proofs.Json.Balance

namespace ReleaseLint
namespace Finding

open Json (spans spanAt)

/-- Whether no span that begins in front of a place is sound. -/
def NoneSoundBefore (output : String) (i : Nat) : Prop :=
  ∀ k < i, ∀ span : String, spanAt output.toList k = some span.toList → isSoundText span = false

/-- A sound span is the first one when none begins in front of it. -/
theorem soundSpan_eq_ok {output span : String} {i : Nat}
    (h : spanAt output.toList i = some span.toList) (hsound : isSoundText span = true)
    (hfirst : NoneSoundBefore output i) : soundSpan output = .ok span := by
  obtain ⟨later, hspans⟩ := Json.spans_eq_append h
  have hnone : (((List.range i).filterMap (spanAt output.toList)).map String.ofList).find?
      isSoundText = none := by
    rw [List.find?_eq_none]
    intro early hearly
    obtain ⟨chars, hchars, rfl⟩ := List.mem_map.1 hearly
    obtain ⟨k, hk, hspan⟩ := List.mem_filterMap.1 hchars
    rw [hfirst k (List.mem_range.1 hk) (String.ofList chars) (by rw [hspan, String.toList_ofList])]
    exact Bool.false_ne_true
  unfold soundSpan
  rw [hspans, List.find?_append, hnone, Option.none_or, String.ofList_toList,
    List.find?_cons_of_pos hsound]

/-- Some sound span of an output is the first one. -/
theorem exists_soundSpan {output span : String} {i : Nat}
    (h : spanAt output.toList i = some span.toList) (hsound : isSoundText span = true) :
    ∃ k ≤ i, ∃ first : String, spanAt output.toList k = some first.toList ∧
      isSoundText first = true ∧ NoneSoundBefore output k := by
  induction i using Nat.strong_induction_on generalizing span with
  | h i ih =>
    by_cases hfirst : NoneSoundBefore output i
    · exact ⟨i, Nat.le_refl i, span, h, hsound, hfirst⟩
    · unfold NoneSoundBefore at hfirst
      push Not at hfirst
      obtain ⟨k, hk, early, hspan, hearly⟩ := hfirst
      obtain ⟨j, hj, hrest⟩ := ih k hk hspan (by simpa using hearly)
      exact ⟨j, by omega, hrest⟩

/-- No span begins where there is no opening brace. -/
theorem noneSoundBefore_of_not_mem {before rest : String} (h : '\x7b' ∉ before.toList) :
    NoneSoundBefore (before ++ rest) before.toList.length := by
  intro k hk span hspan
  unfold spanAt at hspan
  split_ifs at hspan with hbrace
  rw [String.toList_append, List.getElem?_append_left hk] at hbrace
  exact absurd (List.mem_of_getElem? hbrace) h

/-- **A sound object is found in any text around it.**  It is the span of its opening
brace, next to the spans that begin in front of it; so there is a first sound span, which
begins there or earlier, and it is the object unless an earlier one is sound. -/
theorem soundSpan_of_object {object : String} (hopen : object.toList.head? = some '\x7b')
    (hclose : object.toList.getLast? = some '\x7d') (hsound : isSoundText object = true)
    (before after : String) :
    spanAt (before ++ object ++ after).toList before.toList.length = some object.toList ∧
    (∃ later, spans (before ++ object ++ after) =
      ((List.range before.toList.length).filterMap
        (spanAt (before ++ object ++ after).toList)).map String.ofList ++ object :: later) ∧
    (∃ i ≤ before.toList.length, ∃ span : String,
      spanAt (before ++ object ++ after).toList i = some span.toList ∧ isSoundText span = true ∧
      soundSpan (before ++ object ++ after) = .ok span) ∧
    (NoneSoundBefore (before ++ object ++ after) before.toList.length →
      soundSpan (before ++ object ++ after) = .ok object) ∧
    ('\x7b' ∉ before.toList → soundSpan (before ++ object ++ after) = .ok object) := by
  have hspan : spanAt (before ++ object ++ after).toList before.toList.length =
      some object.toList := by
    obtain ⟨j, hj⟩ : ∃ j, Json.ofChars? object.toList = some j := by
      cases hread : Json.ofText? object with
      | none =>
        unfold isSoundText at hsound
        rw [hread] at hsound
        cases hsound
      | some j => exact ⟨j, hread⟩
    rw [String.toList_append, String.toList_append]
    exact Json.spanAt_of_object hopen hclose hj before.toList after.toList
  have hfirst : NoneSoundBefore (before ++ object ++ after) before.toList.length →
      soundSpan (before ++ object ++ after) = .ok object :=
    soundSpan_eq_ok hspan hsound
  refine ⟨hspan, ?_, ?_, hfirst, fun hmem => hfirst ?_⟩
  · obtain ⟨later, hspans⟩ := Json.spans_eq_append hspan
    exact ⟨later, by rw [hspans, String.ofList_toList]⟩
  · obtain ⟨k, hk, span, hat, hs, hnone⟩ := exists_soundSpan hspan hsound
    exact ⟨k, hk, span, hat, hs, soundSpan_eq_ok hat hs hnone⟩
  · rw [String.append_assoc]
    exact noneSoundBefore_of_not_mem hmem

/-- The object behind an unbalanced quote and a brace, and in front of others. -/
theorem soundSpan_of_object_sample :
    soundSpan ("it\"s \x7bfast\x7d: " ++ "\x7b\"ok\": true\x7d" ++ " \x7d\x7b\"") =
      .ok "\x7b\"ok\": true\x7d" := by
  refine (soundSpan_of_object ?_ ?_ ?_ "it\"s \x7bfast\x7d: " " \x7d\x7b\"").2.2.2.1 ?_
  · decide +kernel
  · decide +kernel
  · decide +kernel
  · intro k hk span hspan
    have hearly : (List.range "it\"s \x7bfast\x7d: ".toList.length).filterMap
        (spanAt ("it\"s \x7bfast\x7d: " ++ "\x7b\"ok\": true\x7d" ++ " \x7d\x7b\"").toList) =
          ["\x7bfast\x7d".toList] := by decide +kernel
    have hmem := List.mem_filterMap.2 ⟨k, List.mem_range.2 hk, hspan⟩
    rw [hearly, List.mem_singleton] at hmem
    rw [String.toList_inj.1 hmem]
    decide +kernel

end Finding
end ReleaseLint
