/-
# Objects that are cut off

No span of an object that is cut off is an object with a certain key, if no object inside of it
has that key (`lacks_of_truncated`).  Texts inside of it may look like such an object.

A brace of a text opens an object, or is a character of a string.  Behind one of the second
kind a reader takes the rest of that string for the inside of an object:

| behind the brace, and spaces | read as |
| --- | --- |
| a closing brace | the empty object |
| the quote that ends the string | the beginning of a key |
| anything else | no object |

That key would end at the next quote of the text.  In an object whose strings are keys and
values of members, the quote behind a value is that of a key; if no key begins with a colon or
with white space, no colon follows, and nothing is read (`NoKey`).  A string that is an item of
an array might be followed by one that begins with a colon, so there are none.

| value | its braces, in front of a text where no key begins |
| --- | --- |
| a string (`isBarren_text`) | begin no object with the key |
| a count, null, an array, an object (`IsBarrenItem`) | the same, and no key begins in front |
-/

import ReleaseLint.Json.Decode
import ReleaseLint.Proofs.Json.Balance
import ReleaseLint.Proofs.Json.Reading
import ReleaseLint.Proofs.Json.Records

namespace ReleaseLint
namespace Json

/-- Whether a value is an object that has no member with a key. -/
def Lacks (key : String) (j : Json) : Prop :=
  ∃ members, j = .object members ∧ valuesOf key members = []

/-! ### Spans of a longer text -/

section Spans

variable {d i last : Nat} {mode : Mode} {text r c : List Char}

/-- What stands behind a brace that closes others has no part in that. -/
theorem closing_append (h : closing d mode i r = some last) (after : List Char) :
    last < i + r.length ∧ closing d mode i (r ++ after) = some last := by
  induction r generalizing d i mode with
  | nil =>
    rw [closing_nil] at h
    cases h
  | cons c r ih =>
    have hstep : ∀ {d mode}, closing d mode (i + 1) r = some last →
        last < i + (c :: r).length ∧ closing d mode (i + 1) (r ++ after) = some last := by
      intro d mode h
      obtain ⟨hlt, heq⟩ := ih h
      exact ⟨by rw [List.length_cons]; omega, heq⟩
    rw [List.cons_append]
    cases mode with
    | escaped =>
      rw [closing_escaped] at h ⊢
      exact hstep h
    | quoted =>
      rw [closing_quoted] at h ⊢
      exact hstep h
    | plain =>
      rw [closing] at h ⊢
      split_ifs at h ⊢
      · exact hstep h
      · exact hstep h
      · obtain rfl := Option.some.inj h
        exact ⟨by rw [List.length_cons]; omega, rfl⟩
      · exact hstep h
      · exact hstep h

theorem getElem?_of_spanAt (h : spanAt text i = some c) : text[i]? = some '\x7b' := by
  unfold spanAt at h
  split_ifs at h with hbrace
  exact hbrace

/-- A span begins with its brace and goes on as the text does. -/
theorem prefix_of_spanAt (h : spanAt text i = some c) : c <+: text.drop i := by
  unfold spanAt at h
  split_ifs at h
  obtain ⟨last, -, rfl⟩ := Option.map_eq_some_iff.1 h
  rw [List.drop_take]
  exact List.take_prefix _ _

/-- A span of a text is one of every longer text. -/
theorem spanAt_append (h : spanAt text i = some c) (after : List Char) :
    spanAt (text ++ after) i = some c := by
  have hlt : i < text.length := (List.getElem?_eq_some_iff.1 (getElem?_of_spanAt h)).1
  unfold spanAt at h ⊢
  split_ifs at h with hbrace
  obtain ⟨last, hlast, rfl⟩ := Option.map_eq_some_iff.1 h
  obtain ⟨hend, hclosing⟩ := closing_append hlast after
  rw [List.length_drop] at hend
  rw [List.getElem?_append_left hlt, if_pos hbrace, closingOf,
    List.drop_append_of_le_length (Nat.le_of_lt hlt), hclosing, Option.map_some,
    List.take_append_of_le_length (by omega)]

end Spans

/-! ### Keys behind a quote -/

section Keys

variable {c : Char} {r s t w x : List Char} {name : String}

/-- Whether no key begins with a quote in front of a text: where a string can be read behind
that quote, even if the text is cut off, no colon follows. -/
def NoKey (r : List Char) : Prop :=
  ∀ w ps r', w <+: r → pieces? w = some (ps, r') → (skipSpace r').head? ≠ some ':'

namespace NoKey

theorem nil : NoKey [] := by
  intro w ps r' hw h
  obtain rfl := List.prefix_nil.1 hw
  rw [pieces?] at h
  cases h

/-- A character of the string that the quote begins. -/
theorem cons (hquote : c ≠ '"') (hback : c ≠ '\\') (h : NoKey r) : NoKey (c :: r) := by
  intro w ps r' hw hread
  rcases List.prefix_cons_iff.1 hw with rfl | ⟨w, rfl, hw'⟩
  · rw [pieces?] at hread
    cases hread
  · rw [pieces?] at hread
    · split_ifs at hread
      obtain ⟨⟨ps', r''⟩, hread', heq⟩ := Option.bind_eq_some_iff.1 hread
      cases heq
      exact h w ps' r' hw' hread'
    · exact hquote
    · intro a b d e r he _
      exact hback he
    · intro e r he _
      exact hback he

theorem append (ht : ∀ c ∈ t, c ≠ '"' ∧ c ≠ '\\') (h : NoKey r) : NoKey (t ++ r) := by
  induction t with
  | nil => exact h
  | cons c t ih =>
    obtain ⟨hc, ht⟩ := List.forall_mem_cons.1 ht
    exact (ih ht).cons hc.1 hc.2

/-- The string ends where another literal begins, and with that no colon. -/
theorem quote (hspace : isSpace c = false) (hcolon : c ≠ ':') (r : List Char) :
    NoKey ('"' :: c :: r) := by
  intro w ps r' hw hread
  rcases List.prefix_cons_iff.1 hw with rfl | ⟨w, rfl, hw'⟩
  · rw [pieces?] at hread
    cases hread
  · rw [pieces?] at hread
    cases hread
    rcases List.prefix_cons_iff.1 hw' with rfl | ⟨w, rfl, -⟩
    · exact fun h => by cases h
    · rw [skipSpace_cons hspace]
      exact fun h => hcolon (Option.some.inj h)

end NoKey

theorem ne_of_areSpaces (ht : AreSpaces t) : ∀ c ∈ t, c ≠ '"' ∧ c ≠ '\\' := by
  intro c hc
  rcases ht c hc with rfl | rfl | rfl | rfl <;> decide

/-- Whether a name has no brace and begins neither with white space nor with a colon. -/
structure IsFirm (name : String) : Prop where
  noBrace : '\x7b' ∉ name.toList
  first : ∃ c ∈ name.toList.head?, isSpace c = false ∧ c ≠ ':'

theorem exists_cons_of_writesChar (h : WritesChar c t) :
    ∃ c' u, t = c' :: u ∧ (c' = c ∨ c' = '\\') := by
  cases h with
  | plain => exact ⟨c, [], rfl, .inl rfl⟩
  | short => exact ⟨'\\', _, rfl, .inr rfl⟩
  | unit => exact ⟨'\\', _, rfl, .inr rfl⟩
  | pair => exact ⟨'\\', _, rfl, .inr rfl⟩

/-- No key begins in front of a name. -/
theorem IsFirm.noKey (hname : IsFirm name) (h : WritesChars name.toList t) (r : List Char) :
    NoKey ('"' :: (t ++ r)) := by
  obtain ⟨c, hc, hspace, hcolon⟩ := hname.first
  generalize name.toList = s at h hc
  cases h with
  | nil => cases hc
  | cons hfirst hrest =>
    cases hc
    obtain ⟨c', u, rfl, rfl | rfl⟩ := exists_cons_of_writesChar hfirst
    · exact .quote hspace hcolon _
    · exact .quote (by decide) (by decide) _

end Keys

/-! ### Braces inside of strings -/

section Strings

variable {c : Char} {r s t w x : List Char} {j : Json}

theorem ne_of_isHexDigit {n : Nat} (h : IsHexDigit n c) : c ≠ '\x7b' := by
  rintro rfl
  have := hexDigit?_eq h
  simp [hexDigit?] at this

theorem not_mem_of_writesUnit {n : Nat} (h : WritesUnit n t) : '\x7b' ∉ t := by
  cases h with
  | digits ha hb hc hd =>
    simp [Ne.symm (ne_of_isHexDigit ha), Ne.symm (ne_of_isHexDigit hb),
      Ne.symm (ne_of_isHexDigit hc), Ne.symm (ne_of_isHexDigit hd)]

/-- Only a brace is written with a brace, and that as itself. -/
theorem eq_of_writesChar (h : WritesChar c t) (hmem : '\x7b' ∈ t) : c = '\x7b' ∧ t = ['\x7b'] := by
  cases h with
  | plain =>
    obtain rfl := List.mem_singleton.1 hmem
    exact ⟨rfl, rfl⟩
  | short h =>
    have hall : ∀ p ∈ shortEscapes, '\x7b' ∉ ['\\', p.1] := by decide
    exact absurd hmem (hall _ h)
  | unit h => simp [not_mem_of_writesUnit h] at hmem
  | pair hu hv => simp [not_mem_of_writesUnit hu, not_mem_of_writesUnit hv] at hmem

theorem not_mem_of_writesChars (h : WritesChars s t) (hs : '\x7b' ∉ s) : '\x7b' ∉ t := by
  induction h with
  | nil => exact hs
  | cons hc _ ih =>
    rw [List.mem_cons, not_or] at hs
    rw [List.mem_append, not_or]
    exact ⟨fun hmem => hs.1 (eq_of_writesChar hc hmem).1.symm, ih hs.2⟩

/-- Behind a brace the inside of a string goes on. -/
theorem writesChars_behind_brace (h : WritesChars s t) : ∀ {front back : List Char},
    t = front ++ '\x7b' :: back → ∃ s', WritesChars s' back := by
  induction h with
  | nil =>
    intro front back heq
    cases front <;> cases heq
  | @cons c s t u hc hs ih =>
    intro front back heq
    rcases List.append_eq_append_iff.1 heq with ⟨a, -, hu⟩ | ⟨a, ht, ha⟩
    · exact ih hu
    · rcases List.cons_eq_append_iff.1 ha with ⟨rfl, hu⟩ | ⟨a', rfl, hback⟩
      · exact @ih [] back hu
      · -- the brace is all that writes this character
        obtain ⟨-, hbrace⟩ := eq_of_writesChar hc (by rw [ht]; simp)
        obtain rfl : a' = [] := by
          have := congrArg List.length (ht.symm.trans hbrace)
          simp at this
          exact List.length_eq_zero_iff.1 (by omega)
        exact ⟨s, by rwa [hback]⟩

/-- What a text that begins with a brace is read as: the empty object, or one with a key. -/
theorem object_cases (h : ofChars? ('\x7b' :: w) = some j) :
    j = .object [] ∨ ∃ x ps r, skipSpace w = '"' :: x ∧ pieces? x = some (ps, r) ∧
      (skipSpace r).head? = some ':' := by
  unfold ofChars? at h
  split at h
  · rename_i j' r hread
    split_ifs at h
    obtain rfl := Option.some.inj h
    have hskip : skipSpace ('\x7b' :: w) = '\x7b' :: w := rfl
    rw [value?] at hread
    simp only [hskip] at hread
    split at hread
    · cases hread
      exact .inl rfl
    · obtain ⟨⟨members, r'⟩, hmembers, heq⟩ := Option.map_eq_some_iff.1 hread
      rw [List.length_cons, members?, skipSpace_skipSpace] at hmembers
      split at hmembers
      · rename_i x hx
        obtain ⟨⟨key, s⟩, hkey, hmembers⟩ := Option.bind_eq_some_iff.1 hmembers
        obtain ⟨⟨ps, s'⟩, hps, hkey⟩ := Option.map_eq_some_iff.1 hkey
        cases hkey
        dsimp only at hmembers
        split at hmembers
        · rename_i hcolon
          exact .inr ⟨x, ps, s, hx, hps, by rw [hcolon]; rfl⟩
        · cases hmembers
      · cases hmembers
  · cases h

/-- A quote behind the inside of a string and nothing but spaces is the one that ends it. -/
theorem prefix_of_skipSpace (h : WritesChars s t) : ∀ {w : List Char},
    w <+: t ++ '"' :: r → skipSpace w = '"' :: x → x <+: r := by
  induction h with
  | nil =>
    intro w hw hx
    rcases List.prefix_cons_iff.1 hw with rfl | ⟨w, rfl, hw'⟩
    · cases hx
    · rw [skipSpace_cons (by decide)] at hx
      obtain ⟨-, rfl⟩ := List.cons.inj hx
      exact hw'
  | @cons c s t u hc hs ih =>
    intro w hw hx
    have hplain : ∀ c' u', t = c' :: u' → c' ≠ '"' := by
      rintro c' u' rfl rfl
      cases hc with
      | plain _ hquote => exact hquote rfl
    obtain ⟨c', u', rfl, hc'⟩ := exists_cons_of_writesChar hc
    rcases List.prefix_cons_iff.1 (by simpa using hw) with rfl | ⟨w, rfl, hw'⟩
    · cases hx
    · by_cases hspace : isSpace c' = true
      · -- white space is written as itself, and skipped
        cases hc with
        | plain =>
          refine ih hw' ?_
          unfold skipSpace at hx ⊢
          rwa [List.dropWhile_cons_of_pos hspace] at hx
        | short => exact absurd hspace (by decide)
        | unit => exact absurd hspace (by decide)
        | pair => exact absurd hspace (by decide)
      · rw [skipSpace_cons (by simpa using hspace)] at hx
        exact absurd (List.cons.inj hx).1 (hplain c' u' rfl)

end Strings

/-! ### Braces that begin no object with a key -/

section Braces

variable {key : String} {r t u : List Char} {j : Json}

/-- Whether a brace in front of a text begins no object with a key. -/
def NoHolder (key : String) (r : List Char) : Prop :=
  ∀ front c j, spanAt (front ++ '\x7b' :: r) front.length = some c → ofChars? c = some j →
    Lacks key j

/-- Whether no brace of a stretch of text, in front of another text, begins an object with a
key. -/
def NoHolders (key : String) (t r : List Char) : Prop :=
  ∀ front back, t = front ++ '\x7b' :: back → NoHolder key (back ++ r)

namespace NoHolders

theorem of_not_mem (h : '\x7b' ∉ t) : NoHolders key t r := by
  rintro front back rfl
  exact absurd (by simp) h

theorem append (ht : NoHolders key t (u ++ r)) (hu : NoHolders key u r) :
    NoHolders key (t ++ u) r := by
  intro front back heq
  rcases List.append_eq_append_iff.1 heq with ⟨a, -, ha⟩ | ⟨a, ha, hback⟩
  · exact hu a back ha
  · rcases List.cons_eq_append_iff.1 hback with ⟨rfl, ha'⟩ | ⟨a', rfl, rfl⟩
    · exact hu [] back ha'
    · rw [List.append_assoc]
      exact ht front a' ha

theorem cons_other {c : Char} (hc : c ≠ '\x7b') (ht : NoHolders key t r) :
    NoHolders key (c :: t) r :=
  append (t := [c]) (.of_not_mem fun hmem => hc (List.mem_singleton.1 hmem).symm) ht

/-- A brace in front of a stretch. -/
theorem cons (h : NoHolder key (t ++ r)) (ht : NoHolders key t r) :
    NoHolders key ('\x7b' :: t) r := by
  intro front back heq
  rcases List.cons_eq_append_iff.1 heq with ⟨rfl, hback⟩ | ⟨front', rfl, hback⟩
  · cases hback
    exact h
  · exact ht front' back hback

end NoHolders

/-- A brace inside of a string begins no object, or the empty one. -/
theorem noHolder_of_writesChars {s : List Char} (h : WritesChars s t) (hr : NoKey r) :
    NoHolder key (t ++ '"' :: r) := by
  intro front c j hspan hread
  have hcut := prefix_of_spanAt hspan
  rw [List.drop_left] at hcut
  rcases List.prefix_cons_iff.1 hcut with rfl | ⟨w, rfl, hw⟩
  · cases hread
  · rcases object_cases hread with rfl | ⟨x, ps, r', hx, hps, hcolon⟩
    · exact ⟨[], rfl, rfl⟩
    · exact absurd hcolon (hr x ps r' (prefix_of_skipSpace h hw hx) hps)

/-- A text of an object is read as that. -/
theorem ofChars?_of_writes (h : Writes j t) : ofChars? t = some j := by
  have hread : ofText? (String.ofList t) = some j :=
    ofText?_of_writes (by rwa [String.toList_ofList])
  rwa [ofText?, String.toList_ofList] at hread

/-- The brace of an object begins that object. -/
theorem noHolder_of_object {members : List (Option String × Json)}
    (h : Writes (.object members) ('\x7b' :: t)) (hkey : valuesOf key members = []) :
    NoHolder key (t ++ r) := by
  intro front c j hspan hread
  have hobject := ofChars?_of_writes h
  have hlast : ('\x7b' :: t).getLast? = some '\x7d' := by
    generalize '\x7b' :: t = o at h
    cases h
    exact List.getLast?_concat
  have hself := spanAt_of_object rfl hlast hobject front r
  rw [List.append_assoc, List.cons_append] at hself
  obtain rfl : '\x7b' :: t = c := Option.some.inj (hself.symm.trans hspan)
  obtain rfl : Json.object members = j := Option.some.inj (hobject.symm.trans hread)
  exact ⟨members, rfl, hkey⟩

end Braces

/-! ### Values without the key -/

/-- Whether no brace of a text of a value begins an object with a key. -/
structure IsBarren (key : String) (j : Json) : Prop where
  noHolders : ∀ {t r}, Writes j t → NoKey r → NoHolders key t r

/-- Whether no key begins in front of a text of a value, either. -/
structure IsBarrenItem (key : String) (j : Json) : Prop extends IsBarren key j where
  noKey : ∀ {t r}, Writes j t → NoKey r → NoKey (t ++ r)

section Values

variable {key : String} {r t : List Char} {j : Json}

theorem not_mem_of_areSpaces (h : AreSpaces t) : '\x7b' ∉ t := by
  intro hmem
  rcases h _ hmem with h | h | h | h <;> cases h

theorem isBarren_text (key s : String) : IsBarren key (.text s) := by
  refine ⟨fun {t r} h hr => ?_⟩
  obtain ⟨⟩ | ⟨⟩ | ⟨⟩ | ⟨⟩ | @⟨_, t, h⟩ := h
  have hinside : NoHolders key t (['"'] ++ r) := by
    intro front back hback
    obtain ⟨s', hs'⟩ := writesChars_behind_brace h hback
    exact noHolder_of_writesChars hs' hr
  exact (hinside.append (.of_not_mem (by decide))).cons_other (by decide)

theorem isBarrenItem_count (key : String) (n : Nat) : IsBarrenItem key (.count n) := by
  have hchars : ∀ c ∈ integerChars false n, c.isDigit = true := by
    intro c hc
    exact isDigit_of_mem_toDigits hc
  refine ⟨⟨fun {t r} h _ => ?_⟩, fun {t r} h hr => ?_⟩
  · cases h
    exact .of_not_mem fun hmem => absurd (hchars _ hmem) (by decide)
  · cases h
    refine .append (fun c hc => ?_) hr
    have hdigit := hchars c hc
    refine ⟨?_, ?_⟩
    all_goals
      rintro rfl
      exact absurd hdigit (by decide)

theorem isBarrenItem_null (key : String) : IsBarrenItem key .null := by
  refine ⟨⟨fun {t r} h _ => ?_⟩, fun {t r} h hr => ?_⟩
  · cases h
    exact .of_not_mem (by decide)
  · cases h
    exact .append (by simp) hr

theorem items_barren {items : List Json} (hitems : ∀ j ∈ items, IsBarrenItem key j)
    (h : WritesItems items t) (hr : NoKey r) : NoHolders key t r ∧ NoKey (t ++ r) := by
  induction items generalizing t with
  | nil =>
    obtain ⟨ha⟩ := h
    exact ⟨.of_not_mem (not_mem_of_areSpaces ha), .append (ne_of_areSpaces ha) hr⟩
  | cons item items ih =>
    obtain ⟨hitem, hitems⟩ := List.forall_mem_cons.1 hitems
    -- an item between white space, in front of any text
    have hone : ∀ {a t b r}, AreSpaces a → Writes item t → AreSpaces b → NoKey r →
        NoHolders key (a ++ (t ++ b)) r ∧ NoKey (a ++ (t ++ (b ++ r))) := by
      intro a t b r ha ht hb hr
      have hbehind : NoKey (b ++ r) := .append (ne_of_areSpaces hb) hr
      exact ⟨.append (.of_not_mem (not_mem_of_areSpaces ha))
        (.append (hitem.noHolders ht hbehind) (.of_not_mem (not_mem_of_areSpaces hb))),
        .append (ne_of_areSpaces ha) (hitem.noKey ht hbehind)⟩
    cases h with
    | one ha ht hb =>
      simp only [List.append_assoc]
      exact hone ha ht hb hr
    | @cons _ next items a t b u ha ht hb hu =>
      obtain ⟨hholders, hkey⟩ := ih hitems hu
      have hkey' : NoKey (',' :: u ++ r) := hkey.cons (by decide) (by decide)
      obtain ⟨hholders', hkey''⟩ := hone ha ht hb hkey'
      refine ⟨?_, by simpa using hkey''⟩
      have := hholders'.append (hholders.cons_other (c := ',') (by decide))
      simpa using this

theorem isBarrenItem_array {items : List Json} (hitems : ∀ j ∈ items, IsBarrenItem key j) :
    IsBarrenItem key (.array items) := by
  have hinside : ∀ {t r}, Writes (.array items) t → NoKey r →
      NoHolders key t r ∧ NoKey (t ++ r) := by
    intro t r h hr
    obtain ⟨⟩ | ⟨⟩ | ⟨⟩ | ⟨⟩ | ⟨⟩ | @⟨_, t, h⟩ := h
    obtain ⟨hholders, hkey⟩ := items_barren hitems h (hr.cons (c := ']') (by decide) (by decide))
    refine ⟨(hholders.append (u := [']']) (.of_not_mem (by decide))).cons_other (by decide), ?_⟩
    have := hkey.cons (c := '[') (by decide) (by decide)
    simpa using this
  exact ⟨⟨fun h hr => (hinside h hr).1⟩, fun h hr => (hinside h hr).2⟩

/-- Whether a member of an object has a firm name and a value without the key. -/
def IsBarrenMember (key : String) (m : Option String × Json) : Prop :=
  ∃ name, m.1 = some name ∧ IsFirm name ∧ IsBarren key m.2

theorem member_barren {m : Option String × Json} (hm : IsBarrenMember key m)
    (h : WritesMember m t) (hr : NoKey r) : NoHolders key t r ∧ NoKey (t ++ r) := by
  obtain ⟨_, hname, hfirm, hvalue⟩ := hm
  obtain @⟨name, value, a, k, b, b', t, d, ha, hk, hb, hb', ht, hd⟩ := h
  cases hname
  have hbehind : NoKey (d ++ r) := .append (ne_of_areSpaces hd) hr
  refine ⟨?_, ?_⟩
  · have hvalue' : NoHolders key (b' ++ (t ++ d)) r :=
      .append (.of_not_mem (not_mem_of_areSpaces hb'))
        (.append (hvalue.noHolders ht hbehind) (.of_not_mem (not_mem_of_areSpaces hd)))
    have hcolon : NoHolders key (b ++ ':' :: (b' ++ (t ++ d))) r :=
      .append (.of_not_mem (not_mem_of_areSpaces hb)) (hvalue'.cons_other (by decide))
    have hname : NoHolders key (k ++ '"' :: (b ++ ':' :: (b' ++ (t ++ d)))) r :=
      .append (.of_not_mem (not_mem_of_writesChars hk hfirm.noBrace))
        (hcolon.cons_other (by decide))
    exact .append (.of_not_mem (not_mem_of_areSpaces ha)) (hname.cons_other (by decide))
  · rw [List.append_assoc, List.cons_append, List.append_assoc]
    exact .append (ne_of_areSpaces ha) (hfirm.noKey hk _)

theorem members_barren {members : List (Option String × Json)}
    (hmembers : ∀ m ∈ members, IsBarrenMember key m) (h : WritesMembers members t) (hr : NoKey r) :
    NoHolders key t r ∧ NoKey (t ++ r) := by
  induction members generalizing t with
  | nil =>
    obtain ⟨ha⟩ := h
    exact ⟨.of_not_mem (not_mem_of_areSpaces ha), .append (ne_of_areSpaces ha) hr⟩
  | cons m members ih =>
    obtain ⟨hm, hmembers⟩ := List.forall_mem_cons.1 hmembers
    cases h with
    | one ht => exact member_barren hm ht hr
    | @cons _ next members t u ht hu =>
      obtain ⟨hholders, hkey⟩ := ih hmembers hu
      have hkey' : NoKey (',' :: u ++ r) := hkey.cons (by decide) (by decide)
      obtain ⟨hholders', hkey''⟩ := member_barren hm ht hkey'
      refine ⟨hholders'.append (hholders.cons_other (by decide)), ?_⟩
      rw [List.append_assoc]
      exact hkey''

theorem isBarrenItem_object {members : List (Option String × Json)}
    (hmembers : ∀ m ∈ members, IsBarrenMember key m) (hkey : valuesOf key members = []) :
    IsBarrenItem key (.object members) := by
  have hinside : ∀ {t r}, Writes (.object members) t → NoKey r →
      NoHolders key t r ∧ NoKey (t ++ r) := by
    intro t r hobject hr
    obtain ⟨⟩ | ⟨⟩ | ⟨⟩ | ⟨⟩ | ⟨⟩ | ⟨⟩ | @⟨_, t, h⟩ := id hobject
    obtain ⟨hholders, hnoKey⟩ :=
      members_barren hmembers h (hr.cons (c := '\x7d') (by decide) (by decide))
    refine ⟨.cons (noHolder_of_object hobject hkey) (hholders.append (.of_not_mem (by decide))), ?_⟩
    have := hnoKey.cons (c := '\x7b') (by decide) (by decide)
    simpa using this
  exact ⟨⟨fun h hr => (hinside h hr).1⟩, fun h hr => (hinside h hr).2⟩

end Values

/-! ### Records without the key -/

section Records

variable {key : String} {fields : List (String × Option Json)} {j : Json} {α : Type}
  {IsValue : α → Json → Prop} {default a : α}

/-- Whether a field has a firm name and holds no value with the key. -/
def IsBarrenField (key : String) (f : String × Option Json) : Prop :=
  IsFirm f.1 ∧ ∀ v ∈ f.2, IsBarren key v

theorem IsText.barren {s : String} (h : IsText s j) : IsBarren key j := by
  obtain rfl : j = .text s := h
  exact isBarren_text key s

theorem IsCount.barren {n : Nat} (h : IsCount n j) : IsBarren key j := by
  obtain ⟨-, rfl⟩ := h
  exact (isBarrenItem_count key n).toIsBarren

theorem IsField.barren {name : String} (hname : IsFirm name) {written : Option Json}
    (h : IsField IsValue default a written) (hvalue : ∀ a v, IsValue a v → IsBarren key v) :
    IsBarrenField key (name, written) := by
  refine ⟨hname, fun v hv => ?_⟩
  obtain rfl : written = some v := hv
  exact hvalue a v h

theorem IsRecord.exists_members (h : IsRecord fields j)
    (hfields : ∀ f ∈ fields, IsBarrenField key f) :
    ∃ members, j = .object members ∧ members.Perm (present fields) ∧
      ∀ m ∈ members, IsBarrenMember key m := by
  obtain ⟨members, rfl, hperm⟩ := h
  refine ⟨members, rfl, hperm, fun m hm => ?_⟩
  obtain ⟨f, hf, hwritten⟩ := List.mem_filterMap.1 (hperm.mem_iff.1 hm)
  obtain ⟨v, hv, rfl⟩ := Option.map_eq_some_iff.1 hwritten
  obtain ⟨hname, hvalue⟩ := hfields f hf
  exact ⟨f.1, rfl, hname, hvalue v hv⟩

theorem IsRecord.barren (h : IsRecord fields j) (hfields : ∀ f ∈ fields, IsBarrenField key f)
    (hkey : key ∉ fields.map Prod.fst) : IsBarrenItem key j := by
  obtain ⟨members, rfl, hperm, hmembers⟩ := h.exists_members hfields
  have hvalues := valuesOf_perm hperm key
  rw [valuesOf_present_of_not_mem hkey] at hvalues
  exact isBarrenItem_object hmembers hvalues.eq_nil

theorem IsList.barren {l : List α} (h : IsList IsValue l j)
    (hvalue : ∀ a v, IsValue a v → IsBarrenItem key v) : IsBarrenItem key j := by
  obtain ⟨items, rfl, hitems⟩ := h
  refine isBarrenItem_array fun v hv => ?_
  obtain ⟨a, ha⟩ := exists_of_forall₂ hitems v hv
  exact hvalue a v ha

theorem IsBucket.barren {l : List α} (h : IsBucket IsValue l j)
    (hvalue : ∀ a v, IsValue a v → IsBarrenItem key v) : IsBarrenItem key j := by
  rcases h with h | ⟨-, rfl⟩
  · exact h.barren hvalue
  · exact isBarrenItem_null key

end Records

/-! ### An object that is cut off -/

/-- **No span of an object that is cut off is an object with the key,** whatever stands in
front of it, if that has no brace. -/
theorem lacks_of_truncated {key : String} {members : List (Option String × Json)}
    {before text cut : List Char} (hmembers : ∀ m ∈ members, IsBarrenMember key m)
    (hbefore : '\x7b' ∉ before) (h : Writes (.object members) text) (hcut : cut <+: text)
    (hne : cut ≠ text) {i : Nat} {c : List Char} {j : Json}
    (hspan : spanAt (before ++ cut) i = some c) (hread : ofChars? c = some j) : Lacks key j := by
  obtain ⟨rest, hrest⟩ := hcut
  have hbrace := getElem?_of_spanAt hspan
  have hwhole : spanAt (before ++ text) i = some c := by
    rw [← hrest, ← List.append_assoc]
    exact spanAt_append hspan rest
  have hle : before.length ≤ i := by
    by_contra hlt
    rw [List.getElem?_append_left (by omega)] at hbrace
    exact hbefore (List.mem_of_getElem? hbrace)
  obtain ⟨k, rfl⟩ := Nat.exists_eq_add_of_le hle
  obtain ⟨⟩ | ⟨⟩ | ⟨⟩ | ⟨⟩ | ⟨⟩ | ⟨⟩ | @⟨_, t, hinside⟩ := id h
  cases k with
  | zero =>
    -- the span of the first brace would be the whole object
    have hobject := spanAt_of_object rfl List.getLast?_concat (ofChars?_of_writes h) before []
    rw [List.append_nil] at hobject
    obtain rfl := Option.some.inj (hobject.symm.trans hwhole)
    have hpart := prefix_of_spanAt hspan
    rw [Nat.add_zero, List.drop_left] at hpart
    exact absurd (List.IsPrefix.eq_of_length_le ⟨rest, hrest⟩ hpart.length_le) hne
  | succ k =>
    have hinner : (t ++ ['\x7d'])[k]? = some '\x7b' := by
      have hat := getElem?_of_spanAt hwhole
      rw [List.getElem?_append_right (by omega), Nat.add_sub_cancel_left] at hat
      exact hat
    obtain ⟨hlt, hget⟩ := List.getElem?_eq_some_iff.1 hinner
    have hsplit : t ++ ['\x7d'] =
        (t ++ ['\x7d']).take k ++ '\x7b' :: (t ++ ['\x7d']).drop (k + 1) := by
      rw [← hget, List.getElem_cons_drop, List.take_append_drop]
    have hholders : NoHolders key (t ++ ['\x7d']) [] :=
      (members_barren hmembers hinside (NoKey.nil.cons (by decide) (by decide))).1.append
        (.of_not_mem (by decide))
    refine hholders _ _ hsplit (before ++ '\x7b' :: (t ++ ['\x7d']).take k) c j ?_ hread
    have hlength : (before ++ '\x7b' :: (t ++ ['\x7d']).take k).length =
        before.length + (k + 1) := by
      rw [List.length_append, List.length_cons, List.length_take_of_le (Nat.le_of_lt hlt)]
    rw [hlength, List.append_nil, List.append_assoc, List.cons_append, ← hsplit]
    exact hwhole

end Json
end ReleaseLint
