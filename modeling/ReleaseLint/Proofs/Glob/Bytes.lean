/-
# Texts as bytes

Patterns are matched against bytes.  A character of ASCII is one byte, and all bytes of
the others are larger, so what is written in ASCII is found in the bytes of a text
precisely where it stands in the text.

| of a text | of its bytes |
| --- | --- |
| holds a slash | hold the byte of a slash |
| ends with a text in ASCII | end with its bytes |
| begins with a text | begin with its bytes |
-/

import ReleaseLint.Glob.Match
import Mathlib.Data.List.Basic
import Mathlib.Data.List.Induction

namespace ReleaseLint
namespace Glob

variable {c : Char} {b : UInt8} {cs ds : List Char}

theorem toList_loop_eq (data : ByteArray) (i : Nat) (r : List UInt8) :
    ByteArray.toList.loop data i r = r.reverse ++ data.data.toList.drop i := by
  fun_induction ByteArray.toList.loop data i r with
  | case1 i r h ih =>
    have hlt : i < data.data.toList.length := by simpa using h
    have hget : data.get! i = data.data.toList[i] := by
      show data.data[i]! = _
      rw [getElem!_pos data.data i h, Array.getElem_toList]
    rw [ih, List.reverse_cons, List.append_assoc, List.drop_eq_getElem_cons hlt, hget]
    rfl
  | case2 i r h =>
    rw [List.drop_eq_nil_of_le, List.append_nil]
    exact Nat.le_of_not_lt h

/-- The bytes of a text are those of its characters, one after the other. -/
theorem bytesOf_eq (s : String) : bytesOf s = s.toList.flatMap String.utf8EncodeChar := by
  unfold bytesOf ByteArray.toList
  rw [toList_loop_eq, String.toUTF8_eq_toByteArray, ← String.utf8Encode_toList]
  simp [List.utf8Encode]

theorem bytesOfChar_eq (c : Char) : bytesOfChar c = String.utf8EncodeChar c := by
  unfold bytesOfChar
  rw [bytesOf_eq, String.toList_ofList, List.flatMap_singleton]

/-- A character of ASCII is one byte. -/
theorem utf8EncodeChar_of_ascii (h : c.toNat < 128) :
    String.utf8EncodeChar c = [UInt8.ofNat c.toNat] := by
  unfold String.utf8EncodeChar
  exact if_pos (Nat.le_of_lt_succ h)

/-- The other characters have no byte of ASCII. -/
theorem le_of_mem_utf8EncodeChar (h : 128 ≤ c.toNat) (hb : b ∈ String.utf8EncodeChar c) :
    128 ≤ b.toNat := by
  have hv : ¬c.val.toNat ≤ 0x7f := Nat.not_le.2 h
  unfold String.utf8EncodeChar at hb
  simp only [hv, if_false] at hb
  split at hb
  · simp only [List.mem_cons, List.not_mem_nil, or_false] at hb
    rcases hb with rfl | rfl <;> simp only [UInt8.toNat_ofNat'] <;> omega
  · split at hb
    · simp only [List.mem_cons, List.not_mem_nil, or_false] at hb
      rcases hb with rfl | rfl | rfl <;> simp only [UInt8.toNat_ofNat'] <;> omega
    · simp only [List.mem_cons, List.not_mem_nil, or_false] at hb
      rcases hb with rfl | rfl | rfl | rfl <;> simp only [UInt8.toNat_ofNat'] <;> omega

/-- The bytes of some characters. -/
def encode (cs : List Char) : Bytes :=
  cs.flatMap String.utf8EncodeChar

@[simp]
theorem encode_nil : encode [] = [] :=
  rfl

theorem encode_cons (c : Char) (cs : List Char) :
    encode (c :: cs) = String.utf8EncodeChar c ++ encode cs :=
  rfl

theorem encode_append (cs ds : List Char) : encode (cs ++ ds) = encode cs ++ encode ds :=
  List.flatMap_append

theorem bytesOf_eq_encode (s : String) : bytesOf s = encode s.toList :=
  bytesOf_eq s

/-- A byte of ASCII is that of a character. -/
theorem mem_encode (hc : c.toNat < 128) : UInt8.ofNat c.toNat ∈ encode cs ↔ c ∈ cs := by
  unfold encode
  rw [List.mem_flatMap]
  refine ⟨fun ⟨d, hd, hmem⟩ => ?_, fun h => ⟨c, h, ?_⟩⟩
  · by_cases hlt : d.toNat < 128
    · rw [utf8EncodeChar_of_ascii hlt, List.mem_singleton] at hmem
      have heq := congrArg UInt8.toNat hmem
      rw [UInt8.toNat_ofNat', UInt8.toNat_ofNat', Nat.mod_eq_of_lt (by omega),
        Nat.mod_eq_of_lt (by omega)] at heq
      rwa [Char.toNat_inj.1 heq]
    · have hle := le_of_mem_utf8EncodeChar (Nat.le_of_not_lt hlt) hmem
      rw [UInt8.toNat_ofNat', Nat.mod_eq_of_lt (by omega)] at hle
      omega
  · rw [utf8EncodeChar_of_ascii hc]
    exact List.mem_singleton_self _

/-- **A text ends with a text in ASCII precisely when its bytes do.** -/
theorem encode_suffix_iff (hds : ∀ d ∈ ds, d.toNat < 128) :
    encode ds <:+ encode cs ↔ ds <:+ cs := by
  constructor
  · intro h
    induction ds using List.reverseRecOn generalizing cs with
    | nil => exact List.nil_suffix
    | append_singleton ds d ih =>
      have hd := hds d (List.mem_append_right ds (List.mem_singleton_self d))
      rcases List.eq_nil_or_concat cs with rfl | ⟨cs, c, rfl⟩
      · have hlen := h.length_le
        rw [encode_append, encode_cons, utf8EncodeChar_of_ascii hd] at hlen
        simp at hlen
      · rw [List.concat_eq_append] at h ⊢
        have hone : encode [d] = [UInt8.ofNat d.toNat] := by
          rw [encode_cons, utf8EncodeChar_of_ascii hd]
          rfl
        obtain ⟨front, hfront⟩ := h
        rw [encode_append, encode_append, hone, encode_cons c, encode_nil, List.append_nil,
          ← List.append_assoc] at hfront
        -- the last byte is that of `d`, so the last character is `d`
        have hlast := congrArg List.getLast? hfront
        rw [List.getLast?_concat, List.getLast?_append_of_ne_nil _ String.utf8EncodeChar_ne_nil]
          at hlast
        have hmem : UInt8.ofNat d.toNat ∈ encode [c] := by
          rw [encode_cons, encode_nil, List.append_nil]
          exact List.mem_of_getLast? hlast.symm
        obtain rfl := List.mem_singleton.1 ((mem_encode hd).1 hmem)
        rw [utf8EncodeChar_of_ascii hd] at hfront
        have hsuffix := ih (fun e he => hds e (List.mem_append_left [d] he))
          ⟨front, List.append_cancel_right hfront⟩
        obtain ⟨rest, rfl⟩ := hsuffix
        exact ⟨rest, (List.append_assoc rest ds [d]).symm⟩
  · rintro ⟨front, rfl⟩
    exact ⟨encode front, (encode_append front ds).symm⟩

/-- Bytes that begin with those of a character are those of a text that begins with it. -/
theorem eq_of_utf8EncodeChar_append {d : Char} {s t : Bytes}
    (h : String.utf8EncodeChar c ++ s = String.utf8EncodeChar d ++ t) : c = d := by
  have hdecode : ∀ (c : Char) (s : Bytes),
      (String.utf8EncodeChar c ++ s).toByteArray.utf8DecodeChar? 0 = some c := fun c s => by
    rw [List.toByteArray_append]
    exact ByteArray.utf8DecodeChar?_utf8EncodeChar_append
  have hc := hdecode c s
  rw [h, hdecode d t] at hc
  exact (Option.some.inj hc).symm

/-- **A text begins with another one precisely when its bytes do.** -/
theorem encode_append_eq_encode {t : Bytes} :
    encode cs ++ t = encode ds ↔ ∃ r, ds = cs ++ r ∧ t = encode r := by
  constructor
  · intro h
    induction cs generalizing ds with
    | nil => exact ⟨ds, rfl, h⟩
    | cons c cs ih =>
      rw [encode_cons, List.append_assoc] at h
      cases ds with
      | nil => simp [String.utf8EncodeChar_ne_nil] at h
      | cons d ds =>
        rw [encode_cons] at h
        obtain rfl := eq_of_utf8EncodeChar_append h
        obtain ⟨r, rfl, ht⟩ := ih (List.append_cancel_left h)
        exact ⟨r, rfl, ht⟩
  · rintro ⟨r, rfl, rfl⟩
    exact (encode_append cs r).symm

/-- What follows a slash in the bytes of a text follows one in the text. -/
theorem slash_cons_suffix_encode {t : Bytes} (h : slash :: t <:+ encode cs) :
    ∃ r, '/' :: r <:+ cs ∧ t = encode r := by
  have hslash : String.utf8EncodeChar '/' = [slash] := rfl
  induction cs with
  | nil => exact absurd (List.suffix_nil.1 h) (List.cons_ne_nil _ _)
  | cons c cs ih =>
    obtain ⟨u, hu⟩ := h
    rw [encode_cons] at hu
    rcases List.append_eq_append_iff.1 hu with ⟨v, hc, hrest⟩ | ⟨v, -, hrest⟩
    · cases v with
      | nil =>
        obtain ⟨r, hr, ht⟩ := ih ⟨[], hrest⟩
        exact ⟨r, hr.trans (List.suffix_cons c cs), ht⟩
      | cons b v =>
        obtain ⟨rfl, -⟩ := List.cons.inj hrest
        have hmem : UInt8.ofNat '/'.toNat ∈ encode [c] := by
          rw [encode_cons, encode_nil, List.append_nil, hc]
          exact List.mem_append_right u List.mem_cons_self
        obtain rfl := List.mem_singleton.1 ((mem_encode (by decide)).1 hmem)
        rw [hslash] at hc
        obtain ⟨rfl, hv⟩ | ⟨_, hv⟩ := List.append_eq_singleton_iff.1 hc.symm
        · obtain ⟨-, rfl⟩ := List.cons.inj hv
          exact ⟨cs, List.suffix_refl _, (List.cons.inj hrest).2⟩
        · cases hv
    · obtain ⟨r, hr, ht⟩ := ih ⟨v, hrest.symm⟩
      exact ⟨r, hr.trans (List.suffix_cons c cs), ht⟩

end Glob
end ReleaseLint
