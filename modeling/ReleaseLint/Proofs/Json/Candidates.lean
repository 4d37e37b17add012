/-
# Spans, one brace at a time

What the scans of `Json.spans` share with each other does not show in their outcome: the
spans are those that one finds by reading on from each opening brace alone
(`spans_eq_spansAlone`).

`closing` is that reading: from a place on, in a mode and with a number of braces that
are open, it finds the brace that closes the last of them.

| fact | why |
| --- | --- |
| closing `d + k` braces is closing `k` and then `d` (`closing_add`) | the brace that closes the `k`-th stands outside of literals |
| a brace that is passed outside of literals is closed as if read alone | the mode is the same, and the count one higher at each place |

So whatever a scan writes down of a brace is what reading on from that brace finds
(`Agrees`), a brace that is known may be skipped, and where one is never closed, no brace
that is open there is, either (`scan_agrees`).
-/

import ReleaseLint.Json.Span
import Mathlib.Data.List.Basic
import Mathlib.Tactic.SplitIfs

namespace ReleaseLint
namespace Json

/-- The place of the brace that closes the last of `d` open braces, when a text is read on
from the place `i`. -/
def closing : (d : Nat) → Mode → (i : Nat) → List Char → Option Nat
  | _, _, _, [] => none
  | d, .escaped, i, _ :: r => closing d .quoted (i + 1) r
  | d, .quoted, i, c :: r => closing d (Mode.next c) (i + 1) r
  | d, .plain, i, c :: r =>
    if c = '"' then closing d .quoted (i + 1) r
    else if c = '\x7b' then closing (d + 1) .plain (i + 1) r
    else if c = '\x7d' then (if d = 1 then some i else closing (d - 1) .plain (i + 1) r)
    else closing d .plain (i + 1) r

/-- The place of the brace that closes the one at the place `i`, when a text is read on from
there alone. -/
def closingOf (text : List Char) (i : Nat) : Option Nat :=
  closing 0 .plain i (text.drop i)

/-- The span of the brace at the place `i`, read on from there alone. -/
def spanAt (text : List Char) (i : Nat) : Option (List Char) :=
  if text[i]? = some '\x7b' then
    (closingOf text i).map fun last => (text.take (last + 1)).drop i
  else none

/-- The spans of a text, each of them read on from its opening brace alone. -/
def spansAlone (s : String) : List String :=
  ((List.range s.toList.length).filterMap (spanAt s.toList)).map String.ofList

variable {d k i j last : Nat} {c : Char} {mode : Mode} {text r : List Char}

@[simp]
theorem closing_nil : closing d mode i [] = none := rfl

@[simp]
theorem closing_escaped : closing d .escaped i (c :: r) = closing d .quoted (i + 1) r :=
  rfl

@[simp]
theorem closing_quoted : closing d .quoted i (c :: r) = closing d (Mode.next c) (i + 1) r :=
  rfl

@[simp]
theorem closing_quote : closing d .plain i ('"' :: r) = closing d .quoted (i + 1) r :=
  rfl

@[simp]
theorem closing_open : closing d .plain i ('\x7b' :: r) = closing (d + 1) .plain (i + 1) r :=
  rfl

@[simp]
theorem closing_close_one : closing 1 .plain i ('\x7d' :: r) = some i :=
  rfl

@[simp]
theorem closing_close_more :
    closing (d + 2) .plain i ('\x7d' :: r) = closing (d + 1) .plain (i + 1) r :=
  rfl

theorem closing_other (h1 : c ≠ '"') (h2 : c ≠ '\x7b') (h3 : c ≠ '\x7d') :
    closing d .plain i (c :: r) = closing d .plain (i + 1) r := by
  rw [closing, if_neg h1, if_neg h2, if_neg h3]

/-- The characters that count outside of literals. -/
theorem plain_cases (c : Char) :
    c = '"' ∨ c = '\x7b' ∨ c = '\x7d' ∨ (c ≠ '"' ∧ c ≠ '\x7b' ∧ c ≠ '\x7d') := by
  by_cases h1 : c = '"'
  · exact .inl h1
  · by_cases h2 : c = '\x7b'
    · exact .inr (.inl h2)
    · by_cases h3 : c = '\x7d'
      · exact .inr (.inr (.inl h3))
      · exact .inr (.inr (.inr ⟨h1, h2, h3⟩))

/-- A closing brace does not stand before the place from which a text is read. -/
theorem le_of_closing (hd : 0 < d) (h : closing d mode i r = some last) : i ≤ last := by
  induction r generalizing d i mode with
  | nil =>
    rw [closing_nil] at h
    cases h
  | cons c r ih =>
    cases mode with
    | escaped =>
      rw [closing_escaped] at h
      exact Nat.le_of_succ_le (ih hd h)
    | quoted =>
      rw [closing_quoted] at h
      exact Nat.le_of_succ_le (ih hd h)
    | plain =>
      rcases plain_cases c with rfl | rfl | rfl | ⟨h1, h2, h3⟩
      · rw [closing_quote] at h
        exact Nat.le_of_succ_le (ih hd h)
      · rw [closing_open] at h
        exact Nat.le_of_succ_le (ih (by omega) h)
      · obtain _ | _ | d := d
        · omega
        · rw [closing_close_one] at h
          exact Nat.le_of_eq (Option.some.inj h)
        · rw [closing_close_more] at h
          exact Nat.le_of_succ_le (ih (by omega) h)
      · rw [closing_other h1 h2 h3] at h
        exact Nat.le_of_succ_le (ih hd h)

/-- **Closing more braces is closing the innermost first and then the others,** read on from
behind the brace that closes those. -/
theorem closing_add (hd : 0 < d) (hk : 0 < k) :
    closing (d + k) mode i r =
      (closing k mode i r).bind fun last => closing d .plain (last + 1) (r.drop (last + 1 - i)) := by
  -- one character further on, both sides are about the rest
  have hshift : ∀ {r : List Char} {k i : Nat} {mode : Mode} (c : Char), 0 < k →
      ((closing k mode (i + 1) r).bind fun last =>
        closing d .plain (last + 1) (r.drop (last + 1 - (i + 1)))) =
      (closing k mode (i + 1) r).bind fun last =>
        closing d .plain (last + 1) ((c :: r).drop (last + 1 - i)) := by
    intro r k i mode c hk
    cases h : closing k mode (i + 1) r with
    | none => rfl
    | some last =>
      have := le_of_closing hk h
      rw [Option.bind_some, Option.bind_some, show last + 1 - i = last + 1 - (i + 1) + 1 by omega,
        List.drop_succ_cons]
  induction r generalizing k i mode with
  | nil => simp
  | cons c r ih =>
    cases mode with
    | escaped => rw [closing_escaped, closing_escaped, ih hk, hshift c hk]
    | quoted => rw [closing_quoted, closing_quoted, ih hk, hshift c hk]
    | plain =>
      rcases plain_cases c with rfl | rfl | rfl | ⟨h1, h2, h3⟩
      · rw [closing_quote, closing_quote, ih hk, hshift '"' hk]
      · rw [closing_open, closing_open, Nat.add_assoc, ih (by omega), hshift '\x7b' (by omega)]
      · obtain _ | _ | k := k
        · omega
        · -- this brace closes the innermost, and the others are closed behind it
          obtain _ | d := d
          · omega
          · rw [show d + 1 + (0 + 1) = d + 2 by omega, closing_close_more, closing_close_one,
              Option.bind_some, show i + 1 - i = 1 by omega, List.drop_one, List.tail_cons]
        · rw [show d + (k + 1 + 1) = d + k + 2 by omega, closing_close_more, closing_close_more,
            Nat.add_assoc, ih (by omega), hshift '\x7d' (by omega)]
      · rw [closing_other h1 h2 h3, closing_other h1 h2 h3, ih hk, hshift c hk]

/-! ### What is written down -/

namespace Matches

variable {m : Matches} {o : Option Nat} {opened : List Nat}

theorem find?_ofLength (n i : Nat) : (ofLength n).find? i = none := by
  unfold find? ofLength
  simp only [Array.getD_eq_getD_getElem?, Array.getElem?_replicate]
  split_ifs <;> rfl

theorem find?_record (h : i < m.known.size) :
    (m.record i o).find? j = if i = j then some o else m.find? j := by
  unfold find? record
  simp only [Array.getD_eq_getD_getElem?, Array.getElem?_setIfInBounds, h, if_true]
  split_ifs <;> rfl

@[simp]
theorem size_record : (m.record i o).known.size = m.known.size := by
  simp [record]

end Matches

/-- Whether all that is written down of a text is what reading on from its braces finds. -/
structure Agrees (text : List Char) (m : Matches) : Prop where
  size_eq : m.known.size = text.length
  isOpen : ∀ i o, m.find? i = some o → text[i]? = some '\x7b'
  eq_closingOf : ∀ i o, m.find? i = some o → o = closingOf text i

namespace Agrees

variable {m m' : Matches} {o : Option Nat} {opened : List Nat}

theorem record (h : Agrees text m) (hi : text[i]? = some '\x7b') (ho : o = closingOf text i) :
    Agrees text (m.record i o) := by
  have hlt : i < m.known.size := by
    rw [h.size_eq]
    exact (List.getElem?_eq_some_iff.1 hi).1
  refine ⟨by rw [Matches.size_record, h.size_eq], fun j p hp => ?_, fun j p hp => ?_⟩
  all_goals
    rw [Matches.find?_record hlt] at hp
    split_ifs at hp with hij
  · exact hij ▸ hi
  · exact h.isOpen j p hp
  · rw [← hij, ← ho]
    exact (Option.some.inj hp).symm
  · exact h.eq_closingOf j p hp

end Agrees

/-- Whether nothing is forgotten from one state of knowledge to a later one, and some
braces are known in that. -/
def Learns (m m' : Matches) (opened : List Nat) : Prop :=
  (∀ j, (m.find? j).isSome → (m'.find? j).isSome) ∧ ∀ j ∈ opened, (m'.find? j).isSome

theorem Agrees.learns_record {m : Matches} {o : Option Nat} (h : Agrees text m)
    (hi : text[i]? = some '\x7b') : Learns m (m.record i o) [i] := by
  have hlt : i < m.known.size := by
    rw [h.size_eq]
    exact (List.getElem?_eq_some_iff.1 hi).1
  refine ⟨fun j hj => ?_, fun j hj => ?_⟩
  · rw [Matches.find?_record hlt]
    split_ifs
    · rfl
    · exact hj
  · rw [List.mem_singleton.1 hj, Matches.find?_record hlt, if_pos rfl]
    rfl

/-- Braces that are never closed are written down as such. -/
theorem recordOpen_agrees {opened : List Nat} : ∀ {m : Matches}, Agrees text m →
    (∀ o ∈ opened, text[o]? = some '\x7b' ∧ closingOf text o = none) →
    Agrees text (m.recordOpen opened) ∧ Learns m (m.recordOpen opened) opened := by
  induction opened with
  | nil => exact fun h _ => ⟨h, fun _ hj => hj, fun _ hj => absurd hj List.not_mem_nil⟩
  | cons o opened ih =>
    intro m h hopen
    obtain ⟨ho, hclose⟩ := hopen o List.mem_cons_self
    obtain ⟨hagrees, hkept, hknown⟩ :=
      ih (h.record ho hclose.symm) fun p hp => hopen p (List.mem_cons_of_mem o hp)
    obtain ⟨hfirst, hthis⟩ := h.learns_record (o := none) ho
    refine ⟨hagrees, fun j hj => hkept j (hfirst j hj), fun j hj => ?_⟩
    rcases List.mem_cons.1 hj with rfl | hj
    · exact hkept j (hthis j (List.mem_singleton_self j))
    · exact hknown j hj

/-- Whether each open brace, read on from alone, is closed where the text that a scan has
before it closes one, two and more braces. -/
def Awaits (text : List Char) (opened : List Nat) (mode : Mode) (i : Nat) (r : List Char) : Prop :=
  ∀ k o, opened[k]? = some o → text[o]? = some '\x7b' ∧ closingOf text o = closing (k + 1) mode i r

/-- Every brace that is open when the text ends is never closed. -/
theorem Awaits.eq_none {opened : List Nat} (h : Awaits text opened mode i r)
    (hnone : ∀ k, closing (k + 1) mode i r = none) :
    ∀ o ∈ opened, text[o]? = some '\x7b' ∧ closingOf text o = none := by
  intro o ho
  obtain ⟨k, hk⟩ := List.getElem?_of_mem ho
  obtain ⟨hbrace, hclose⟩ := h k o hk
  exact ⟨hbrace, hclose.trans (hnone k)⟩

/-- A step over a character at which the count of open braces stays. -/
theorem Awaits.step {opened : List Nat} {mode' : Mode} {i' : Nat} {r' : List Char}
    (h : Awaits text opened mode i r)
    (hstep : ∀ k, closing (k + 1) mode i r = closing (k + 1) mode' i' r') :
    Awaits text opened mode' i' r' :=
  fun k o ho => ⟨(h k o ho).1, (h k o ho).2.trans (hstep k)⟩

section

variable {m : Matches} {opened : List Nat} {o : Nat}

theorem scan_quote : scan m opened .plain 0 i ('"' :: r) = scan m opened .quoted 0 (i + 1) r :=
  rfl

theorem scan_open : scan m opened .plain 0 i ('\x7b' :: r) =
    match m.find? i with
    | some (some last) => scan m opened .plain (last - i) (i + 1) r
    | some none => m.recordOpen opened
    | none => scan m (i :: opened) .plain 0 (i + 1) r :=
  rfl

theorem scan_close_none : scan m [] .plain 0 i ('\x7d' :: r) = scan m [] .plain 0 (i + 1) r :=
  rfl

theorem scan_close_last : scan m [o] .plain 0 i ('\x7d' :: r) = m.record o (some i) :=
  rfl

theorem scan_close_more {p : Nat} : scan m (o :: p :: opened) .plain 0 i ('\x7d' :: r) =
    scan (m.record o (some i)) (p :: opened) .plain 0 (i + 1) r :=
  rfl

theorem scan_other (h1 : c ≠ '"') (h2 : c ≠ '\x7b') (h3 : c ≠ '\x7d') :
    scan m opened .plain 0 i (c :: r) = scan m opened .plain 0 (i + 1) r := by
  rw [scan.eq_def]
  simp only [if_neg h1, if_neg h2, if_neg h3]

end

/-- **A scan writes down what reading on from each brace alone finds,** and leaves no open
brace unknown. -/
theorem scan_agrees {m : Matches} {opened : List Nat} {skip : Nat} (hr : r = text.drop i)
    (hm : Agrees text m) (hopen : Awaits text opened mode (i + skip) (r.drop skip)) :
    Agrees text (scan m opened mode skip i r) ∧ Learns m (scan m opened mode skip i r) opened := by
  induction r generalizing m opened mode skip i with
  | nil =>
    rw [List.drop_nil] at hopen
    rw [scan]
    exact recordOpen_agrees hm (hopen.eq_none fun k => closing_nil)
  | cons c r ih =>
    have hc : text[i]? = some c := by
      have := congrArg (·[0]?) hr
      simpa using this.symm
    have hr' : r = text.drop (i + 1) := by
      rw [← List.drop_drop, ← hr]
      rfl
    obtain _ | skip := skip
    · replace hopen : Awaits text opened mode i (c :: r) := hopen
      cases mode with
      | escaped =>
        rw [scan]
        exact ih hr' hm (hopen.step fun k => closing_escaped)
      | quoted =>
        rw [scan]
        exact ih hr' hm (hopen.step fun k => closing_quoted)
      | plain =>
        rcases plain_cases c with rfl | rfl | rfl | ⟨h1, h2, h3⟩
        · rw [scan_quote]
          exact ih hr' hm (hopen.step fun k => closing_quote)
        · rw [scan_open]
          have hthis : closingOf text i = closing 1 .plain (i + 1) r := by
            unfold closingOf
            rw [← hr, closing_open]
          split
          · -- the brace is closed, as is known, and the scan goes on behind its span
            rename_i last hlast
            have hknown := (hm.eq_closingOf i _ hlast).trans hthis
            have hle := le_of_closing (by omega) hknown.symm
            refine ih hr' hm (hopen.step fun k => ?_)
            rw [closing_open, closing_add (by omega) (by omega), ← hknown, Option.bind_some,
              show i + 1 + (last - i) = last + 1 by omega,
              show last + 1 - (i + 1) = last - i by omega]
          · -- the brace is never closed, as is known, and neither is any around it
            rename_i hlast
            have hknown := (hm.eq_closingOf i _ hlast).trans hthis
            refine recordOpen_agrees hm (hopen.eq_none fun k => ?_)
            rw [closing_open, closing_add (by omega) (by omega), ← hknown]
            rfl
          · have hpush : Awaits text (i :: opened) .plain (i + 1 + 0) (r.drop 0) := by
              intro k o ho
              obtain _ | k := k
              · obtain rfl := Option.some.inj ho
                exact ⟨hc, hthis⟩
              · obtain ⟨hbrace, hclose⟩ := hopen k o ho
                rw [closing_open] at hclose
                exact ⟨hbrace, hclose⟩
            obtain ⟨hagrees, hkept, hknown⟩ := ih hr' hm hpush
            exact ⟨hagrees, hkept, fun j hj => hknown j (List.mem_cons_of_mem i hj)⟩
        · obtain _ | ⟨o, opened⟩ := opened
          · rw [scan_close_none]
            exact ih hr' hm fun k o ho => by cases ho
          · -- the innermost brace is closed here
            obtain ⟨hbrace, hclose⟩ := hopen 0 o rfl
            rw [closing_close_one] at hclose
            have hrecord := hm.record hbrace hclose.symm
            obtain ⟨hfirst, hthis⟩ := hm.learns_record hbrace
            obtain _ | ⟨p, opened⟩ := opened
            · rw [scan_close_last]
              exact ⟨hrecord, hfirst, hthis⟩
            · rw [scan_close_more]
              have hpop : Awaits text (p :: opened) .plain (i + 1 + 0) (r.drop 0) := by
                intro k q hq
                obtain ⟨hbrace', hclose'⟩ := hopen (k + 1) q hq
                rw [closing_close_more] at hclose'
                exact ⟨hbrace', hclose'⟩
              obtain ⟨hagrees, hkept, hknown⟩ := ih hr' hrecord hpop
              refine ⟨hagrees, fun j hj => hkept j (hfirst j hj), fun j hj => ?_⟩
              rcases List.mem_cons.1 hj with rfl | hj
              · exact hkept j (hthis j (List.mem_singleton_self j))
              · exact hknown j hj
        · rw [scan_other h1 h2 h3]
          exact ih hr' hm (hopen.step fun k => closing_other h1 h2 h3)
    · rw [List.drop_succ_cons, show i + (skip + 1) = i + 1 + skip by omega] at hopen
      have := ih hr' hm hopen
      rw [scan]
      exact this

/-- All scans together find every brace. -/
theorem matchesFrom_agrees {m : Matches} (hr : r = text.drop i) (hm : Agrees text m) :
    Agrees text (matchesFrom m i r) ∧ (∀ j, (m.find? j).isSome → ((matchesFrom m i r).find? j).isSome) ∧
      ∀ j, i ≤ j → text[j]? = some '\x7b' → ((matchesFrom m i r).find? j).isSome := by
  induction r generalizing m i with
  | nil =>
    refine ⟨hm, fun _ h => h, fun j hij hj => ?_⟩
    have hlen := List.drop_eq_nil_iff.1 hr.symm
    have hlt := (List.getElem?_eq_some_iff.1 hj).1
    omega
  | cons c r ih =>
    have hc : text[i]? = some c := by
      have := congrArg (·[0]?) hr
      simpa using this.symm
    have hr' : r = text.drop (i + 1) := by
      rw [← List.drop_drop, ← hr]
      rfl
    -- the brace at this place, if there is one, is known after its turn
    have hturn : ∃ m', matchesFrom m i (c :: r) = matchesFrom m' (i + 1) r ∧ Agrees text m' ∧
        (∀ j, (m.find? j).isSome → (m'.find? j).isSome) ∧
        (c = '\x7b' → (m'.find? i).isSome) := by
      rw [matchesFrom]
      split_ifs with h
      · obtain ⟨rfl, hnone⟩ := h
        have hself : Awaits text [i] .plain (i + 1 + 0) (r.drop 0) := by
          intro k o ho
          obtain _ | k := k
          · obtain rfl := Option.some.inj ho
            refine ⟨hc, ?_⟩
            unfold closingOf
            rw [← hr, closing_open]
            rfl
          · cases ho
        obtain ⟨hagrees, hkept, hknown⟩ := scan_agrees hr' hm hself
        rw [scan_open, hnone]
        exact ⟨_, rfl, hagrees, hkept, fun _ => hknown i (List.mem_singleton_self i)⟩
      · refine ⟨m, rfl, hm, fun _ h => h, fun hbrace => ?_⟩
        rw [Option.isSome_iff_ne_none]
        exact fun hnone => h ⟨hbrace, hnone⟩
    obtain ⟨m', heq, hm', hkept, hknown⟩ := hturn
    obtain ⟨hagrees, hkept', hknown'⟩ := ih hr' hm'
    rw [heq]
    refine ⟨hagrees, fun j hj => hkept' j (hkept j hj), fun j hij hj => ?_⟩
    rcases Nat.lt_or_eq_of_le hij with hlt | rfl
    · exact hknown' j hlt hj
    · exact hkept' i (hknown (Option.some.inj (hc.symm.trans hj)))

/-- **What is known in the end of each place of a text.** -/
theorem find?_matchesFrom (text : List Char) (i : Nat) :
    (matchesFrom (.ofLength text.length) 0 text).find? i =
      if text[i]? = some '\x7b' then some (closingOf text i) else none := by
  have hstart : Agrees text (.ofLength text.length) := by
    refine ⟨by simp [Matches.ofLength], fun j o ho => ?_, fun j o ho => ?_⟩
    all_goals
      rw [Matches.find?_ofLength] at ho
      cases ho
  obtain ⟨hagrees, -, hknown⟩ := matchesFrom_agrees (i := 0) (List.drop_zero).symm hstart
  split_ifs with h
  · obtain ⟨o, ho⟩ := Option.isSome_iff_exists.1 (hknown i (Nat.zero_le i) h)
    rw [ho, hagrees.eq_closingOf i o ho]
  · cases ho : (matchesFrom (.ofLength text.length) 0 text).find? i with
    | none => rfl
    | some o => exact absurd (hagrees.isOpen i o ho) h

theorem spansFrom_eq {m : Matches}
    (hm : ∀ i, m.find? i = if text[i]? = some '\x7b' then some (closingOf text i) else none)
    (hr : r = text.drop i) :
    spansFrom m i r = (List.range' i r.length).filterMap (spanAt text) := by
  induction r generalizing i with
  | nil => rfl
  | cons c r ih =>
    have hr' : r = text.drop (i + 1) := by
      rw [← List.drop_drop, ← hr]
      rfl
    rw [spansFrom, List.length_cons, List.range'_succ, List.filterMap_cons, hm i, spanAt, ← ih hr']
    split_ifs with h
    · cases closingOf text i with
      | none => rfl
      | some last =>
        rw [hr, Option.map_some, List.drop_take]
    · rfl

/-- The spans of a text, by the places of their opening braces. -/
theorem spans_eq_map (s : String) :
    spans s = ((List.range s.toList.length).filterMap (spanAt s.toList)).map String.ofList := by
  have h := spansFrom_eq (i := 0) (find?_matchesFrom s.toList) (List.drop_zero).symm
  rw [← List.range_eq_range'] at h
  rw [← h]
  rfl

/-- The span of a brace stands behind those of the braces in front of it. -/
theorem spans_eq_append {s : String} {span : List Char} (h : spanAt s.toList i = some span) :
    ∃ later, spans s =
      ((List.range i).filterMap (spanAt s.toList)).map String.ofList ++ String.ofList span :: later := by
  have hlt : i < s.toList.length := by
    unfold spanAt at h
    split_ifs at h with hi
    exact (List.getElem?_eq_some_iff.1 hi).1
  obtain ⟨n, hn⟩ := Nat.exists_eq_add_of_lt hlt
  rw [spans_eq_map, hn, Nat.add_assoc, List.range_add, List.range_succ_eq_map, List.map_cons,
    Nat.add_zero, List.filterMap_append, List.filterMap_cons_some h, List.map_append, List.map_cons]
  exact ⟨_, rfl⟩

/-- **The spans of a text are those of its braces, each read on from alone.** -/
theorem spans_eq_spansAlone (s : String) : spans s = spansAlone s :=
  spans_eq_map s

end Json
end ReleaseLint
