/-
# Printed values are read back

The printer writes a text of `Writes` (`writes_pretty`), so that reading it gives the value
back (`ofText?_pretty`), as long as the value has no string without a text and its numbers
are integers of 64 bits (`isPlain`).

| a character of a string | printed as |
| --- | --- |
| the quote, the backslash, and five characters below U+0020 | a backslash and a letter |
| any other one below U+0020 | `\u00` and two digits |
| all others | themselves |
-/

import ReleaseLint.Json.Printer
import ReleaseLint.Proofs.Json.Reading

namespace ReleaseLint
namespace Json

/-- Whether a number is an integer of 64 bits, with a sign beside it. -/
def Number.isPlain (n : Number) : Bool :=
  n.isInteger && n.digits < UInt64.size

mutual

/-- Whether every string of a value has a text, and every number is an integer of 64 bits. -/
def isPlain : Json → Bool
  | null | bool _ => true
  | number n => n.isPlain
  | string s => s.isSome
  | array items => arePlain items
  | object members => haveOnlyPlain members

/-- Whether all of a list of values are plain. -/
def arePlain : List Json → Bool
  | [] => true
  | item :: r => isPlain item && arePlain r

/-- Whether the members of an object are plain, and have keys. -/
def haveOnlyPlain : List (Option String × Json) → Bool
  | [] => true
  | (key, value) :: r => key.isSome && isPlain value && haveOnlyPlain r

end

variable {n : Nat} {c : Char}

theorem isHexDigit_digitChar (h : n < 16) : IsHexDigit n (Nat.digitChar n) :=
  ⟨h, .inl rfl⟩

/-- The escape of a character below U+0020. -/
theorem writesChar_control {p s : Nat} (hp : p < 16) (hs : s < 16) (hc : c.toNat = p * 16 + s) :
    WritesChar c ['\\', 'u', '0', '0', Nat.digitChar p, Nat.digitChar s] := by
  have hunit := WritesUnit.digits (isHexDigit_digitChar (by decide : 0 < 16))
    (isHexDigit_digitChar (by decide : 0 < 16)) (isHexDigit_digitChar hp) (isHexDigit_digitChar hs)
  rw [show ((0 * 16 + 0) * 16 + p) * 16 + s = c.toNat by omega] at hunit
  exact .unit hunit

theorem writesChar_escapeChar (c : Char) : WritesChar c (escapeChar c) := by
  unfold escapeChar
  split_ifs with hquote hback hfeed hreturn htab hbackspace hform hlow hcontrol
  · subst hquote
    exact .short (by decide)
  · subst hback
    exact .short (by decide)
  · subst hfeed
    exact .short (by decide)
  · subst hreturn
    exact .short (by decide)
  · subst htab
    exact .short (by decide)
  · obtain rfl : c = '\x08' := Char.toNat_inj.1 hbackspace
    exact .short (by decide)
  · obtain rfl : c = '\x0c' := Char.toNat_inj.1 hform
    exact .short (by decide)
  · exact writesChar_control (by decide : 0 < 16) hlow (by omega)
  · exact writesChar_control (by decide : 1 < 16) (by omega) (by omega)
  · exact .plain (by omega) hquote hback

theorem writesChars_flatMap (s : List Char) : WritesChars s (s.flatMap escapeChar) := by
  induction s with
  | nil => exact .nil
  | cons c s ih => exact .cons (writesChar_escapeChar c) ih

theorem quote?_some (s : String) :
    quote? (some s) = '"' :: s.toList.flatMap escapeChar ++ ['"'] := rfl

theorem areSpaces_nil : AreSpaces [] :=
  fun _ hc => absurd hc List.not_mem_nil

theorem areSpaces_newline (level : Nat) : AreSpaces (newline level) := by
  intro c hc
  rcases List.mem_cons.1 hc with rfl | hc
  · exact .inr (.inr (.inl rfl))
  · exact .inl (List.eq_of_mem_replicate hc)

theorem writes_number {x : Number} (h : x.isPlain = true) : Writes (.number x) x.chars := by
  rw [Number.isPlain, Bool.and_eq_true, decide_eq_true_iff] at h
  obtain ⟨hinteger, hlt⟩ := h
  unfold Number.chars
  rw [if_pos hinteger, List.append_nil]
  obtain ⟨negative, digits, exponent, whole⟩ := x
  unfold Number.isInteger at hinteger
  rw [Bool.and_eq_true, beq_iff_eq] at hinteger
  obtain ⟨rfl, rfl⟩ := hinteger
  exact .integer hlt

theorem writesMember {key : Option String} {value : Json} {t b : List Char}
    (hkey : key.isSome = true) (ht : Writes value t) (level : Nat) (hb : AreSpaces b) :
    WritesMember (key, value) (newline level ++ quote? key ++ [':', ' '] ++ t ++ b) := by
  obtain ⟨s, rfl⟩ := Option.isSome_iff_exists.1 hkey
  have h := WritesMember.member (c := [' ']) (areSpaces_newline level)
    (writesChars_flatMap s.toList) areSpaces_nil (fun c hc => .inl (List.mem_singleton.1 hc)) ht hb
  rw [quote?_some]
  simpa only [List.append_assoc, List.cons_append, List.nil_append] using h

theorem comma_nil {α : Type} : comma ([] : List α) = [] := rfl

theorem comma_cons {α : Type} (a : α) (rest : List α) : comma (a :: rest) = [','] := rfl

mutual

theorem writes_chars (level : Nat) :
    (j : Json) → isPlain j = true → Writes j (chars level j)
  | null, _ => .null
  | bool true, _ => .true
  | bool false, _ => .false
  | number x, h => by
    rw [isPlain] at h
    rw [chars]
    exact writes_number h
  | string none, h => by
    unfold isPlain at h
    cases h
  | string (some s), _ => by
    rw [chars, quote?_some]
    exact .string (writesChars_flatMap s.toList)
  | array [], _ => by
    rw [chars, if_pos List.isEmpty_nil]
    exact .array (.nil areSpaces_nil)
  | array (item :: items), h => by
    rw [isPlain] at h
    rw [chars, if_neg (by simp), List.cons_append]
    exact .array (writesItems (level + 1) (areSpaces_newline level) (item :: items) h
      (List.cons_ne_nil item items))
  | object [], _ => by
    rw [chars, if_pos List.isEmpty_nil]
    exact .object (.nil areSpaces_nil)
  | object (m :: members), h => by
    rw [isPlain] at h
    rw [chars, if_neg (by simp), List.cons_append]
    exact .object (writesMembers (level + 1) (areSpaces_newline level) (m :: members) h
      (List.cons_ne_nil m members))

theorem writesItems (level : Nat) {b : List Char} (hb : AreSpaces b) :
    (items : List Json) → arePlain items = true → items ≠ [] →
      WritesItems items (itemChars level items ++ b)
  | [], _, hne => absurd rfl hne
  | [item], h, _ => by
    rw [arePlain, Bool.and_eq_true] at h
    have hone := WritesItems.one (areSpaces_newline level) (writes_chars level item h.1) hb
    rw [itemChars, itemChars, comma_nil]
    simpa only [List.append_assoc, List.append_nil] using hone
  | item :: next :: items, h, _ => by
    rw [arePlain, Bool.and_eq_true] at h
    have hcons := WritesItems.cons (areSpaces_newline level) (writes_chars level item h.1)
      areSpaces_nil (writesItems level hb (next :: items) h.2 (List.cons_ne_nil next items))
    rw [itemChars, comma_cons]
    simpa only [List.append_assoc, List.cons_append, List.nil_append] using hcons

theorem writesMembers (level : Nat) {b : List Char} (hb : AreSpaces b) :
    (members : List (Option String × Json)) → haveOnlyPlain members = true → members ≠ [] →
      WritesMembers members (memberChars level members ++ b)
  | [], _, hne => absurd rfl hne
  | [(key, value)], h, _ => by
    rw [haveOnlyPlain, Bool.and_eq_true, Bool.and_eq_true] at h
    have hone := WritesMembers.one (writesMember h.1.1 (writes_chars level value h.1.2) level hb)
    rw [memberChars, memberChars, comma_nil]
    simpa only [List.append_assoc, List.append_nil] using hone
  | (key, value) :: next :: members, h, _ => by
    rw [haveOnlyPlain, Bool.and_eq_true, Bool.and_eq_true] at h
    have hcons := WritesMembers.cons
      (writesMember h.1.1 (writes_chars level value h.1.2) level areSpaces_nil)
      (writesMembers level hb (next :: members) h.2 (List.cons_ne_nil next members))
    rw [memberChars, comma_cons]
    simpa only [List.append_assoc, List.cons_append, List.nil_append] using hcons

end

theorem writes_pretty {j : Json} (h : isPlain j = true) : Writes j (pretty j).toList := by
  unfold pretty
  rw [String.toList_ofList]
  exact writes_chars 0 j h

/-- **A value is read back from what is printed of it.** -/
theorem ofText?_pretty {j : Json} (h : isPlain j = true) : ofText? (pretty j) = some j :=
  ofText?_of_writes (writes_pretty h)

end Json
end ReleaseLint
