/-
# The lines of an ignore file

An ignore file is read twice: its bytes for the rules, and its text for the patterns that a
configured path may name.  Where the bytes are those of a text, both readings have the same
lines (`readableLines_eq`), as a line feed and a carriage return are single bytes, and no other
character has one of these.
-/

import ReleaseLint.Ignore.Checker
import ReleaseLint.Proofs.Glob.Bytes

namespace ReleaseLint
namespace Ignore

open Glob (encode encode_nil encode_cons encode_append mem_encode encode_suffix_iff)

variable {cs : List Char} {data : ByteArray} {content : String}

/-- The bytes of a text are split where the text is. -/
theorem splitOn_encode (cs : List Char) :
    (encode cs).splitOn (10 : UInt8) = (cs.splitOn '\n').map encode := by
  induction h : cs.length using Nat.strongRecOn generalizing cs with
  | ind n ih =>
    by_cases hmem : '\n' ∈ cs
    · obtain ⟨a, b, rfl, ha⟩ := List.eq_append_cons_of_mem hmem
      have hfeed : encode (a ++ '\n' :: b) = encode a ++ 10 :: encode b := by
        rw [encode_append, encode_cons]
        rfl
      rw [List.length_append, List.length_cons] at h
      rw [hfeed, List.splitOn_append_cons_self, List.splitOn_append_cons_self, List.map_append,
        ih a.length (by omega) a rfl, ih b.length (by omega) b rfl]
    · have hbyte : (10 : UInt8) ∉ encode cs := fun hb =>
        hmem ((mem_encode (c := '\n') (by decide)).1 hb)
      rw [List.splitOn_eq_singleton hmem, List.splitOn_eq_singleton hbyte, List.map_singleton]

theorem stripReturn_encode (cs : List Char) :
    Source.stripReturn (encode cs) = encode (Text.stripReturn cs) := by
  have hsuffix : [13] <:+ encode cs ↔ ['\r'] <:+ cs := @encode_suffix_iff cs ['\r'] (by simp)
  have hlast : ∀ {α : Type} {a : α} {l : List α}, l.getLast? = some a ↔ [a] <:+ l := by
    intro α a l
    rw [List.getLast?_eq_some_iff]
    exact ⟨fun ⟨ys, h⟩ => ⟨ys, h.symm⟩, fun ⟨ys, h⟩ => ⟨ys, h.symm⟩⟩
  unfold Source.stripReturn Text.stripReturn
  by_cases h : cs.getLast? = some '\r'
  · rw [if_pos h, if_pos (hlast.2 (hsuffix.2 (hlast.1 h)))]
    obtain ⟨ys, rfl⟩ := List.getLast?_eq_some_iff.1 h
    have hone : encode (ys ++ ['\r']) = encode ys ++ [13] := encode_append ys ['\r']
    rw [hone, List.dropLast_concat, List.dropLast_concat]
  · rw [if_neg h, if_neg fun hbyte => h (hlast.2 (hsuffix.1 (hlast.1 hbyte)))]

theorem fromUTF8?_toUTF8 (s : String) : String.fromUTF8? s.toUTF8 = some s := by
  unfold String.fromUTF8?
  rw [dif_pos (show s.toUTF8.IsValidUTF8 from s.isValidUTF8)]
  rfl

theorem toUTF8_of_fromUTF8? (h : String.fromUTF8? data = some content) : content.toUTF8 = data := by
  unfold String.fromUTF8? at h
  split_ifs at h
  obtain rfl := Option.some.inj h
  rfl

theorem fromUTF8?_encode (cs : List Char) :
    String.fromUTF8? ⟨(encode cs).toArray⟩ = some (String.ofList cs) := by
  have hbytes : (⟨(encode cs).toArray⟩ : ByteArray) = (String.ofList cs).toUTF8 := by
    rw [String.toUTF8_eq_toByteArray, String.toByteArray_ofList, List.utf8Encode]
    refine ByteArray.ext ?_
    rw [List.data_toByteArray]
    rfl
  rw [hbytes, fromUTF8?_toUTF8]

/-- What is read of the bytes of some lines are these lines. -/
theorem read_encode (lines : List (List Char)) :
    (((lines.map encode).map fun bytes => String.fromUTF8? ⟨bytes.toArray⟩).takeWhile
      Option.isSome).filterMap (fun text => text.map (·.toList)) = lines := by
  induction lines with
  | nil => rfl
  | cons line lines ih =>
    have hline : (some (String.ofList line)).map (·.toList) = some line := by
      rw [Option.map_some, String.toList_ofList]
    rw [List.map_cons, List.map_cons, fromUTF8?_encode, List.takeWhile_cons_of_pos rfl,
      List.filterMap_cons_some hline, ih]

/-- **The lines that rules are read from are those of the text.** -/
theorem readableLines_eq (h : String.fromUTF8? data = some content) :
    Source.readableLines data = Text.lineChars content.toList := by
  have hbytes : data.toList = encode content.toList := by
    rw [← toUTF8_of_fromUTF8? h]
    exact Glob.bytesOf_eq content
  obtain ⟨pieces, last, hpieces⟩ :=
    (List.eq_nil_or_concat (content.toList.splitOn '\n')).resolve_left (List.splitOn_ne_nil _ _)
  rw [List.concat_eq_append] at hpieces
  have hempty : (encode last).isEmpty = last.isEmpty := by
    cases last with
    | nil => rfl
    | cons c cs =>
      rw [List.isEmpty_cons, List.isEmpty_eq_false_iff, encode_cons]
      exact List.append_ne_nil_of_left_ne_nil String.utf8EncodeChar_ne_nil _
  have hlines : (pieces.map encode).map Source.stripReturn ++
      (if (encode last).isEmpty then [] else [encode last]) =
        (Text.lineChars content.toList).map encode := by
    unfold Text.lineChars
    dsimp only
    rw [hpieces, List.dropLast_concat, List.getLast?_concat, List.map_append, List.map_map,
      List.map_map, hempty]
    congr 1
    · exact List.map_congr_left fun piece _ => stripReturn_encode piece
    · cases last <;> rfl
  unfold Source.readableLines
  dsimp only
  have hsplit : data.toList.splitOn (10 : UInt8) = pieces.map encode ++ [encode last] := by
    rw [hbytes, splitOn_encode, hpieces, List.map_append, List.map_singleton]
  rw [hsplit, List.dropLast_concat, List.getLast?_concat, Option.getD_some, hlines, read_encode]

end Ignore
end ReleaseLint
