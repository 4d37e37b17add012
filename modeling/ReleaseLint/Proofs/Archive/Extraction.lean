/-
# Which file is extracted

A file is asked for by the end of its path, so that archives with a leading directory and flat
ones are read alike.  The ends are compared as texts.  A path, with slashes for backslashes, ends
with the text asked for if its last segments are those of the text, but for the first one of them,
of which it may be the end (`suffix_iff_splitOn`).

| asked for | path | segments agree | extracted |
| --- | --- | --- | --- |
| `os/helm` | `release\os\helm` | yes | yes |
| `preflight` | `bin/preflight` | yes | yes |
| `preflight` | `kubectl-preflight` | no | yes |
| `preflight` | `preflight.sig` | no | no |

The first regular file that offers the text is extracted from both kinds of archives
(`extract_first`), and if no file only looks like the one asked for, it is the first one with its
segments.
-/

import ReleaseLint.Archive.Format
import Mathlib

namespace ReleaseLint
namespace Archive

variable {l l' : Listing} {name : String} {content : ByteArray}

/-- The segments of the path of an entry, with slashes for backslashes. -/
def Entry.segments (e : Entry) : List (List Char) :=
  (Text.replaceChar '\\' '/' e.path).toList.splitOn '/'

/-- Whether an entry is a regular file whose path ends with the segments of a text. -/
structure Entry.Is (e : Entry) (name : String) : Prop where
  regular : e.regular = true
  segments : name.toList.splitOn '/' <:+ e.segments

instance (e : Entry) (name : String) : Decidable (e.Is name) :=
  decidable_of_iff (e.regular = true ∧ name.toList.splitOn '/' <:+ e.segments)
    ⟨fun h => ⟨h.1, h.2⟩, fun h => ⟨h.regular, h.segments⟩⟩

/-- Whether an entry is a regular file whose path ends with the segments of a text, of which the
first one may be the end of a longer one. -/
structure Entry.Offers (e : Entry) (name : String) : Prop where
  regular : e.regular = true
  segments : ∃ lead front first rest,
    e.segments = lead ++ (front ++ first) :: rest ∧ name.toList.splitOn '/' = first :: rest

/-- Whether an entry is the first one of a listing with a property. -/
def Listing.IsFirst (l : Listing) (p : Entry → Prop) (e : Entry) : Prop :=
  ∃ front back, l.entries = front ++ e :: back ∧ p e ∧ ∀ x ∈ front, ¬p x

/-- The paths and contents of the regular files. -/
def Listing.files (l : Listing) : List (String × Except Fault ByteArray) :=
  (l.entries.filter (·.regular)).map fun e => (e.path, e.content)

theorem Entry.Is.offers {e : Entry} (h : e.Is name) : e.Offers name := by
  obtain ⟨lead, hlead⟩ := h.segments
  obtain ⟨first, rest, hsplit⟩ := List.exists_cons_of_ne_nil (List.splitOn_ne_nil '/' name.toList)
  exact ⟨h.regular, lead, [], first, rest, by rw [List.nil_append, ← hsplit, hlead], hsplit⟩

/-! ### Ends of texts -/

variable {s t : List Char}

/-- The pieces of a text end those of every text that it ends, but for the first one. -/
theorem exists_splitOn_append (x : Char) (s t : List Char) : ∃ lead front first rest,
    (s ++ t).splitOn x = lead ++ (front ++ first) :: rest ∧ t.splitOn x = first :: rest := by
  induction s with
  | nil =>
    obtain ⟨first, rest, hsplit⟩ := List.exists_cons_of_ne_nil (List.splitOn_ne_nil x t)
    exact ⟨[], [], first, rest, hsplit, hsplit⟩
  | cons c s ih =>
    obtain ⟨lead, front, first, rest, hs, ht⟩ := ih
    rw [List.cons_append, List.splitOn_cons_eq_if_modifyHead, hs]
    split_ifs
    · exact ⟨[] :: lead, front, first, rest, rfl, ht⟩
    · cases lead with
      | nil => exact ⟨[], c :: front, first, rest, rfl, ht⟩
      | cons piece lead => exact ⟨(c :: piece) :: lead, front, first, rest, rfl, ht⟩

theorem intercalate_suffix (sep : List Char) (lead : List (List Char)) (front first : List Char)
    (rest : List (List Char)) :
    sep.intercalate (first :: rest) <:+ sep.intercalate (lead ++ (front ++ first) :: rest) := by
  induction lead with
  | nil =>
    cases rest with
    | nil =>
      rw [List.nil_append, List.intercalate_singleton, List.intercalate_singleton]
      exact List.suffix_append front first
    | cons r rest =>
      rw [List.nil_append, List.intercalate_cons_cons, List.intercalate_cons_cons,
        List.append_assoc, List.append_assoc, List.append_assoc]
      exact List.suffix_append front _
  | cons piece lead ih =>
    refine ih.trans ?_
    rw [List.cons_append, List.intercalate_cons_of_ne_nil (show lead ++ _ ≠ [] by simp)]
    exact List.suffix_append _ _

/-- **A text ends another one if its pieces do,** but for the first one, which may be the end of
one. -/
theorem suffix_iff_splitOn (x : Char) : t <:+ s ↔ ∃ lead front first rest,
    s.splitOn x = lead ++ (front ++ first) :: rest ∧ t.splitOn x = first :: rest := by
  constructor
  · rintro ⟨a, rfl⟩
    exact exists_splitOn_append x a t
  · rintro ⟨lead, front, first, rest, hs, ht⟩
    have hsuffix := intercalate_suffix [x] lead front first rest
    rwa [← hs, ← ht, List.intercalate_splitOn, List.intercalate_splitOn] at hsuffix

theorem Entry.offers_iff {e : Entry} : e.Offers name ↔ (e.regular && e.endsWith name) = true := by
  unfold Entry.endsWith Text.endsWith
  rw [Bool.and_eq_true, List.isSuffixOf_iff_suffix, suffix_iff_splitOn '/']
  exact ⟨fun h => ⟨h.regular, h.segments⟩, fun h => ⟨h.1, h.2⟩⟩

instance (e : Entry) (name : String) : Decidable (e.Offers name) :=
  decidable_of_iff _ Entry.offers_iff.symm

/-! ### The first file -/

theorem Listing.isFirst_iff {p : Entry → Bool} {q : Entry → Prop}
    (hpq : ∀ e ∈ l.entries, q e ↔ p e = true) {e : Entry} :
    l.IsFirst q e ↔ l.entries.find? p = some e := by
  rw [List.find?_eq_some_iff_append]
  unfold IsFirst
  constructor
  · rintro ⟨front, back, hsplit, he, hfront⟩
    rw [hsplit] at hpq
    refine ⟨(hpq e (by simp)).1 he, front, back, hsplit, fun x hx => ?_⟩
    rw [Bool.not_eq_true']
    exact Bool.eq_false_iff.2 fun hp => hfront x hx ((hpq x (by simp [hx])).2 hp)
  · rintro ⟨he, front, back, hsplit, hfront⟩
    rw [hsplit] at hpq
    refine ⟨front, back, hsplit, (hpq e (by simp)).2 he, fun x hx hq => ?_⟩
    have hp := hfront x hx
    rw [(hpq x (by simp [hx])).1 hq] at hp
    cases hp

/-- What is extracted is what the first file with a property has, if a file has the property when
its path ends with the text. -/
theorem Listing.file_iff {q : Entry → Prop}
    (hq : ∀ e ∈ l.entries, q e ↔ (e.regular && e.endsWith name) = true) :
    (∀ content, l.file name = .ok content ↔ ∃ e, l.IsFirst q e ∧ e.content = .ok content) ∧
      (l.file name = .error .notFound ↔ l.fault = none ∧ ∀ e ∈ l.entries, ¬q e) := by
  have hnone : (∀ e ∈ l.entries, ¬q e) ↔
      l.entries.find? (fun e => e.regular && e.endsWith name) = none := by
    rw [List.find?_eq_none]
    exact forall₂_congr fun e he => not_congr (hq e he)
  simp only [isFirst_iff hq, hnone]
  unfold file
  cases l.entries.find? fun e => e.regular && e.endsWith name with
  | some e => cases hcontent : e.content <;> simp [hcontent]
  | none => cases l.fault <;> simp

/-- What is extracted is told by the regular files alone. -/
theorem Listing.file_eq (l : Listing) (name : String) : l.file name =
    match l.files.find? fun e => Text.endsWith (Text.replaceChar '\\' '/' e.1) name with
    | some e => e.2.mapError .fault
    | none => .error ((l.fault.map .fault).getD .notFound) := by
  have hfind : (l.files.find? fun e => Text.endsWith (Text.replaceChar '\\' '/' e.1) name) =
      (l.entries.find? fun e => e.regular && e.endsWith name).map fun e => (e.path, e.content) := by
    unfold files
    rw [List.find?_map, List.find?_filter]
    simp only [Bool.decide_and, Bool.decide_eq_true]
    rfl
  unfold file
  rw [hfind]
  cases l.entries.find? fun e => e.regular && e.endsWith name with
  | some e =>
    dsimp only [Option.map_some]
    cases e.content <;> rfl
  | none => cases l.fault <;> rfl

theorem Listing.file_congr (hfiles : l.files = l'.files) (hfault : l.fault = l'.fault) :
    l.file name = l'.file name := by
  rw [file_eq, file_eq, hfiles, hfault]

/-- **What is extracted** from an archive of either kind is the first regular file whose path ends
with the text, and there is none precisely if no path does, unless reading the archive fails.  If
no file only looks like the one asked for, it is the first file with the segments of the text.
Archives with the same regular files give the same. -/
theorem extract_first (f : Format) (data : ByteArray) (name : String) :
    (∀ content, f.extract data name = .ok content ↔
      ∃ e, (f.listing data).IsFirst (·.Offers name) e ∧ e.content = .ok content) ∧
    (f.extract data name = .error .notFound ↔ (f.listing data).fault = none ∧
      ∀ e ∈ (f.listing data).entries, ¬e.Offers name) ∧
    ((∀ e ∈ (f.listing data).entries, e.Offers name → e.Is name) →
      (∀ content, f.extract data name = .ok content ↔
        ∃ e, (f.listing data).IsFirst (·.Is name) e ∧ e.content = .ok content) ∧
      (f.extract data name = .error .notFound ↔ (f.listing data).fault = none ∧
        ∀ e ∈ (f.listing data).entries, ¬e.Is name)) ∧
    ∀ (g : Format) data', (f.listing data).files = (g.listing data').files →
      (f.listing data).fault = (g.listing data').fault →
        f.extract data name = g.extract data' name := by
  obtain ⟨hfound, hnone⟩ :=
    (f.listing data).file_iff fun e _ => (Entry.offers_iff : e.Offers name ↔ _)
  refine ⟨hfound, hnone, fun halike => ?_, fun g data' => Listing.file_congr⟩
  refine Listing.file_iff fun e he => ?_
  rw [← Entry.offers_iff]
  exact ⟨Entry.Is.offers, halike e he⟩

/-! ### Archives of stored files -/

/-- The `n` bytes of a number, the lowest first. -/
def number : (n : Nat) → Nat → List UInt8
  | 0, _ => []
  | n + 1, m => UInt8.ofNat m :: number n (m / 0x100)

/-- What both headers of a stored file in a zip archive say of it. -/
def storedFields (name content : String) : List UInt8 :=
  [20, 0, 0, 0, 0, 0, 0, 0, 0x21, 0] ++ number 4 (crc32 content.toUTF8).toNat ++
    number 4 content.utf8ByteSize ++ number 4 content.utf8ByteSize ++
    number 2 name.utf8ByteSize ++ number 2 0

/-- The zip archive of some files, stored as they are. -/
def zipOf (files : List (String × String)) : ByteArray :=
  let (front, directory) := files.foldl (fun (front, directory) (name, content) =>
    (front ++ [0x50, 0x4B, 3, 4] ++ storedFields name content ++ name.toUTF8.toList ++
        content.toUTF8.toList,
      directory ++ [0x50, 0x4B, 1, 2, 20, 0] ++ storedFields name content ++ number 10 0 ++
        number 4 front.length ++ name.toUTF8.toList)) ([], [])
  ⟨(front ++ directory ++ [0x50, 0x4B, 5, 6, 0, 0, 0, 0] ++ number 2 files.length ++
    number 2 files.length ++ number 4 directory.length ++ number 4 front.length ++
    number 2 0).toArray⟩

deriving instance DecidableEq for Entry, Listing

/-- A tool in a directory that has an entry of its own. -/
def nestedArchive : ByteArray :=
  zipOf [("os/", ""), ("os/helm", "h")]

/-- The same tool without the entry of the directory. -/
def plainArchive : ByteArray :=
  zipOf [("os/helm", "h")]

/-- A plugin whose name ends with that of the tool behind it. -/
def pluginArchive : ByteArray :=
  zipOf [("kubectl-preflight", "k"), ("preflight", "p")]

theorem listing_nestedArchive : Format.zip.listing nestedArchive =
    ⟨[⟨"os/", false, .ok .empty⟩, ⟨"os/helm", true, .ok "h".toUTF8⟩], none⟩ := by decide +kernel

theorem listing_plainArchive : Format.zip.listing plainArchive =
    ⟨[⟨"os/helm", true, .ok "h".toUTF8⟩], none⟩ := by decide +kernel

theorem listing_pluginArchive : Format.zip.listing pluginArchive =
    ⟨[⟨"kubectl-preflight", true, .ok "k".toUTF8⟩, ⟨"preflight", true, .ok "p".toUTF8⟩], none⟩ := by
  decide +kernel

theorem extract_nestedArchive :
    (∃ e, (Format.zip.listing nestedArchive).IsFirst (·.Is "helm") e ∧ e.content = .ok "h".toUTF8) ∧
    Format.zip.extract nestedArchive "helm" = Format.zip.extract plainArchive "helm" := by
  obtain ⟨-, -, halike, hsame⟩ := extract_first .zip nestedArchive "helm"
  have hsame := hsame .zip plainArchive
  rw [listing_nestedArchive, listing_plainArchive] at hsame
  refine ⟨((halike ?_).1 _).1 ?_, hsame (by decide +kernel) rfl⟩
  · rw [listing_nestedArchive]
    decide +kernel
  · unfold Format.extract
    rw [listing_nestedArchive]
    decide +kernel

/-- **A file that only looks like the one asked for is extracted** if it comes first. -/
theorem extract_pluginArchive :
    Format.zip.extract pluginArchive "preflight" = .ok "k".toUTF8 ∧
    (Format.zip.listing pluginArchive).IsFirst (·.Is "preflight")
      ⟨"preflight", true, .ok "p".toUTF8⟩ := by
  unfold Format.extract
  rw [listing_pluginArchive]
  refine ⟨by decide +kernel, [_], [], rfl, by decide +kernel, ?_⟩
  rw [List.forall_mem_singleton]
  decide +kernel

end Archive
end ReleaseLint
