/-
# The lines of `helm`

    line  := blanks remark blanks
    remark := `[S] path: message` | `[S] message` | any text that begins with no tag

Every output of such lines is read as its findings, in their order (`ofOutput_of_lines`):

| remark | path | message |
| --- | --- | --- |
| with a path | without a colon | any |
| without a path | | without a colon |

The blanks behind a remark take in a carriage return, so that both line endings are meant.  A
line at a time is read: two outputs that are joined by a line break give the findings of both.
-/

import ReleaseLint.Finding.Helm
import ReleaseLint.Proofs.Text.Lines

namespace ReleaseLint
namespace Finding
namespace Helm

open Text (IsTrim trim_eq_self_iff trimChars_eq_self_iff)

/-- What a line says. -/
inductive Remark where
  | located (severity : Severity) (path message : String)
  | plain (severity : Severity) (message : String)
  | other (text : String)
deriving DecidableEq, Repr

/-- The tag of a severity in its brackets. -/
def mark (s : Severity) : List Char :=
  ['['] ++ s.tag.toList ++ [']']

namespace Remark

/-- A remark as it is written. -/
def chars : Remark → List Char
  | located s path message =>
    mark s ++ ' ' :: (path.toList ++ ':' :: ' ' :: message.toList)
  | plain s message => mark s ++ ' ' :: message.toList
  | other text => text.toList

/-- The finding that a remark reports. -/
def finding? : Remark → Option Finding
  | located s path message => some ⟨s, path, message⟩
  | plain s message => some ⟨s, "", message⟩
  | other _ => none

/-- Whether what a remark is made of can be told apart: a path has no colon, nor has a message
without a path, and another text begins with no tag. -/
def IsSound : Remark → Prop
  | located _ path message =>
    path ≠ "" ∧ Text.trim path = path ∧ ':' ∉ path.toList ∧ message ≠ "" ∧
      Text.trim message = message
  | plain _ message => message ≠ "" ∧ Text.trim message = message ∧ ':' ∉ message.toList
  | other text => ∀ s ∈ Severity.all, ¬mark s <+: Text.trimChars text.toList

instance (r : Remark) : Decidable r.IsSound := by
  cases r <;> unfold IsSound <;> infer_instance

end Remark

/-- A line: a remark with blanks on both sides of it. -/
structure Line where
  indent : List Char
  remark : Remark
  back : List Char
deriving DecidableEq, Repr

namespace Line

/-- A line as it is written, without the line feed. -/
def chars (l : Line) : List Char :=
  l.indent ++ (l.remark.chars ++ l.back)

/-- Whether a line is one line and has blanks around its remark. -/
def IsSound (l : Line) : Prop :=
  l.remark.IsSound ∧ l.indent.all Text.isBlank = true ∧ l.back.all Text.isBlank = true ∧
    '\n' ∉ l.chars

instance (l : Line) : Decidable l.IsSound :=
  inferInstanceAs (Decidable (_ ∧ _))

end Line

/-- An output of some lines. -/
def output (lines : List Line) : String :=
  String.ofList (List.intercalate ['\n'] (lines.map Line.chars))

variable {s : Severity} {body path message after gap : List Char}

/-! ### One line -/

theorem tagged?_mark (s : Severity) (body : List Char) : tagged? (mark s ++ body) = some (s, body) := by
  cases s <;> rfl

theorem tagged?_eq_none {line : List Char} (h : ∀ s ∈ Severity.all, ¬mark s <+: line) :
    tagged? line = none := by
  unfold tagged?
  refine List.findSome?_eq_none_iff.2 fun s hs => ?_
  have hno : (mark s).isPrefixOf line = false := by
    rw [← Bool.not_eq_true, List.isPrefixOf_iff_prefix]
    exact h s hs
  dsimp only
  rw [← mark, hno]
  rfl

theorem divide?_append (hpath : ':' ∉ path) (hne : path ≠ []) (hafter : after ≠ []) :
    divide? (path ++ ':' :: after) = some (path, after) := by
  have hkeep : ∀ c ∈ path, (c != ':') = true := by
    intro c hc
    rw [bne_iff_ne]
    rintro rfl
    exact hpath hc
  unfold divide?
  rw [List.dropWhile_append_of_pos hkeep, List.dropWhile_cons_of_neg (by simp),
    List.takeWhile_append_of_pos hkeep, List.takeWhile_cons_of_neg (by simp), List.append_nil]
  simp [hne, hafter]

theorem divide?_eq_none {text : List Char} (h : ':' ∉ text) : divide? text = none := by
  have hall : text.dropWhile (· != ':') = [] := by
    rw [List.dropWhile_eq_nil_iff]
    intro c hc
    rw [bne_iff_ne]
    rintro rfl
    exact h hc
  unfold divide?
  rw [hall]

/-- What follows the blanks behind a tag is a path and a message, or a message alone; a colon
in front stands for an empty path at most. -/
theorem ofBody?_append (hgap : ∀ c ∈ gap, Text.isBlank c = true) (hne : gap ≠ [])
    (hhead : ∀ c ∈ body.head?, Text.isBlank c = false) (hcolon : body.head? ≠ some ':')
    (hbody : body ≠ []) :
    ofBody? s (gap ++ body) =
      match divide? body with
      | some (path, message) =>
        some ⟨s, String.ofList (Text.trimChars path), String.ofList (Text.trimChars message)⟩
      | none => some ⟨s, "", String.ofList (Text.trimChars body)⟩ := by
  have hrest : (gap ++ body).dropWhile Text.isBlank = body := by
    rw [List.dropWhile_append_of_pos hgap, Text.dropWhile_eq_self hhead]
  have hlength : gap.length ≠ 0 := fun h => hne (List.eq_nil_of_length_eq_zero h)
  unfold ofBody?
  dsimp only
  rw [hrest, List.length_append, Nat.add_sub_cancel]
  have hsome : ¬(decide (gap.length = 0) || body.isEmpty) = true := by
    simp [hlength, hbody]
  have hpath : ¬(decide (body.head? = some ':') && decide (2 ≤ gap.length) &&
      decide (2 ≤ body.length)) = true := by
    simp [hcolon]
  exact (if_neg hsome).trans (if_neg hpath)

/-- What follows a tag and one blank. -/
theorem ofLine?_mark (hne : body ≠ []) (hbody : IsTrim body) (hcolon : body.head? ≠ some ':') :
    ofLine? (mark s ++ ' ' :: body) =
      match divide? body with
      | some (path, message) =>
        some ⟨s, String.ofList (Text.trimChars path), String.ofList (Text.trimChars message)⟩
      | none => some ⟨s, "", String.ofList (Text.trimChars body)⟩ := by
  have htrim : Text.trimChars (mark s ++ ' ' :: body) = mark s ++ ' ' :: body := by
    refine trimChars_eq_self_iff.2 ⟨fun c hc => ?_, ?_⟩
    · obtain rfl : '[' = c := by simpa [mark] using hc
      rfl
    · rw [List.getLast?_append_of_ne_nil _ (List.cons_ne_nil ' ' body),
        List.getLast?_cons_of_ne_nil hne]
      exact hbody.2
  have hgap : ∀ c ∈ [' '], Text.isBlank c = true := List.forall_mem_singleton.2 (by decide)
  unfold ofLine?
  rw [htrim, tagged?_mark]
  exact ofBody?_append hgap (List.cons_ne_nil _ _) hbody.1 hcolon hne

/-- **A remark is read as the finding that it reports.** -/
theorem ofLine?_chars {r : Remark} (h : r.IsSound) : ofLine? r.chars = r.finding? := by
  cases r with
  | located s path message =>
    obtain ⟨hpath, htrim, hcolon, hmessage, htrim'⟩ := h
    have hne : path.toList ≠ [] := fun h => hpath (String.toList_eq_nil_iff.1 h)
    have hne' : message.toList ≠ [] := fun h => hmessage (String.toList_eq_nil_iff.1 h)
    have hfirst : (path.toList ++ ':' :: ' ' :: message.toList).head? = path.toList.head? :=
      List.head?_append_of_ne_nil _ hne
    have hlast : (path.toList ++ ':' :: ' ' :: message.toList).getLast? =
        message.toList.getLast? := by
      rw [List.getLast?_append_of_ne_nil _ (List.cons_ne_nil _ _),
        List.getLast?_cons_of_ne_nil (List.cons_ne_nil _ _), List.getLast?_cons_of_ne_nil hne']
    have hbody : IsTrim (path.toList ++ ':' :: ' ' :: message.toList) :=
      ⟨hfirst ▸ (trim_eq_self_iff.1 htrim).1, hlast ▸ (trim_eq_self_iff.1 htrim').2⟩
    have hspace : Text.trimChars (' ' :: message.toList) = Text.trimChars message.toList :=
      Text.trimChars_cons_blank (by decide) _
    rw [Remark.chars, ofLine?_mark (by simp) hbody, divide?_append hcolon hne (by simp)]
    · dsimp only
      rw [hspace, ← Text.trim, ← Text.trim, htrim, htrim']
      rfl
    · rw [hfirst]
      exact fun h => hcolon (List.mem_of_mem_head? h)
  | plain s message =>
    obtain ⟨hmessage, htrim, hcolon⟩ := h
    have hne : message.toList ≠ [] := fun h => hmessage (String.toList_eq_nil_iff.1 h)
    rw [Remark.chars, ofLine?_mark hne (trim_eq_self_iff.1 htrim)
      fun h => hcolon (List.mem_of_mem_head? h), divide?_eq_none hcolon]
    dsimp only
    rw [← Text.trim, htrim]
    rfl
  | other text =>
    unfold ofLine?
    rw [Remark.chars, tagged?_eq_none h]
    rfl

/-! ### Blanks around a line, and line feeds between lines -/

theorem ofLine?_of_trimChars_eq {a b : List Char} (h : Text.trimChars a = Text.trimChars b) :
    ofLine? a = ofLine? b := by
  unfold ofLine?
  rw [h]

theorem ofLine?_line {l : Line} (h : l.IsSound) : ofLine? l.chars = l.remark.finding? := by
  obtain ⟨hremark, hindent, hback, -⟩ := h
  rw [List.all_eq_true] at hindent hback
  rw [← ofLine?_chars hremark]
  exact ofLine?_of_trimChars_eq (Text.trimChars_append_blanks hindent hback _)

/-- An output is read as it is split at its line feeds. -/
theorem ofOutput_eq (text : String) :
    ofOutput text = (text.toList.splitOn '\n').filterMap ofLine? :=
  Text.filterMap_lineChars
    (fun line => ofLine?_of_trimChars_eq (Text.trimChars_append_return line)) rfl _

theorem ofOutput_append_feed (a b : String) : ofOutput (a ++ "\n" ++ b) = ofOutput a ++ ofOutput b := by
  have hsplit : (a ++ "\n" ++ b).toList = a.toList ++ '\n' :: b.toList := by
    simp
  rw [ofOutput_eq, ofOutput_eq, ofOutput_eq, hsplit, List.splitOn_append_cons_self,
    List.filterMap_append]

/-- A carriage return behind the last line is not seen. -/
theorem ofOutput_append_return (a : String) : ofOutput (a ++ "\r") = ofOutput a := by
  have hsplit (cs : List Char) : ((cs ++ ['\r']).splitOn '\n').filterMap ofLine? =
      (cs.splitOn '\n').filterMap ofLine? := by
    induction h : cs.length using Nat.strongRecOn generalizing cs with
    | ind n ih =>
      -- the carriage return stands in the last line, so the lines in front are taken off
      by_cases hmem : '\n' ∈ cs
      · obtain ⟨line, rest, rfl, -⟩ := List.eq_append_cons_of_mem hmem
        rw [List.length_append, List.length_cons] at h
        rw [List.append_assoc, List.cons_append, List.splitOn_append_cons_self,
          List.splitOn_append_cons_self, List.filterMap_append, List.filterMap_append,
          ih rest.length (by omega) rest rfl]
      · rw [List.splitOn_eq_singleton hmem, List.splitOn_eq_singleton (by simpa using hmem),
          List.filterMap_cons, List.filterMap_cons,
          ofLine?_of_trimChars_eq (Text.trimChars_append_return cs)]
  rw [ofOutput_eq, ofOutput_eq, String.toList_append]
  exact hsplit a.toList

theorem ofOutput_output {lines : List Line} (h : ∀ l ∈ lines, l.IsSound) :
    ofOutput (output lines) = lines.filterMap (·.remark.finding?) := by
  rw [ofOutput_eq, output, String.toList_ofList]
  by_cases hlines : lines = []
  · subst hlines
    rfl
  · rw [List.splitOn_intercalate '\n' ?_ (by simpa using hlines), List.filterMap_map]
    · exact List.filterMap_congr fun l hl => ofLine?_line (h l hl)
    · simp only [List.forall_mem_map]
      exact fun l hl => (h l hl).2.2.2

/-- **An output is read as the findings of its lines,** and two outputs that a line break joins
as the findings of both. -/
theorem ofOutput_of_lines {lines : List Line} (h : ∀ l ∈ lines, l.IsSound) :
    ofOutput (output lines) = lines.filterMap (·.remark.finding?) ∧
      ∀ a b, ofOutput (a ++ "\n" ++ b) = ofOutput a ++ ofOutput b ∧
        ofOutput (a ++ "\r\n" ++ b) = ofOutput a ++ ofOutput b := by
  refine ⟨ofOutput_output h, fun a b => ⟨ofOutput_append_feed a b, ?_⟩⟩
  have hbreak : a ++ "\r\n" ++ b = a ++ "\r" ++ "\n" ++ b := by
    rw [@String.append_assoc a "\r" "\n"]
    rfl
  rw [hbreak, ofOutput_append_feed, ofOutput_append_return]

/-- What `helm` has to say about a chart: a heading, a path with a URL behind it, an indented
message with a carriage return, a tag that is none and an empty last line. -/
def chartLines : List Line :=
  [⟨[], .other "==> Linting ./charts/web", ['\r']⟩,
    ⟨[], .located .warning "templates/svc.yaml" ":[x] see https://helm.sh/docs: names", ['\r']⟩,
    ⟨['\t', ' '], .plain .error "chart metadata is missing", [' ', '\r']⟩,
    ⟨[], .other "[DEBUG] Chart.yaml: read", []⟩, ⟨[], .other "", []⟩]

theorem ofOutput_of_chartLines :
    output chartLines = "==> Linting ./charts/web\r\n" ++
      "[WARNING] templates/svc.yaml: :[x] see https://helm.sh/docs: names\r\n" ++
      "\t [ERROR] chart metadata is missing \r\n[DEBUG] Chart.yaml: read\n" ∧
      ofOutput (output chartLines) =
        [⟨.warning, "templates/svc.yaml", ":[x] see https://helm.sh/docs: names"⟩,
          ⟨.error, "", "chart metadata is missing"⟩] :=
  ⟨by decide +kernel, (ofOutput_of_lines (by decide +kernel)).1⟩

end Helm
end Finding
end ReleaseLint
