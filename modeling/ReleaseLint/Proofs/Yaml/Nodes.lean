/-
# From nodes to values

    text of a node := a string, number or boolean, trimmed, unless nothing is left

A node stands for itself, or is an alias and stands for another one.  What it stands for decides
the text of its value, in whatever document and at whatever depth it is read (`Reads.text?_eq`):

| node | text |
| --- | --- |
| scalar with a value that is a string, a number or a boolean | that, trimmed, if it is not blank |
| null, a scalar with a local tag, a scalar that is refused | none |
| collection | none |

Keys lead to a node as they lead to its value: what is read of a document holds the value of the
node in the same place (`exists_at_of_value`).
-/

import ReleaseLint.Manifest.Basic
import ReleaseLint.Proofs.Except

namespace ReleaseLint
namespace Yaml

variable {α β : Type} {d : Document} {node n : Node} {key : String} {keys : List String}
variable {depth c c' : Nat} {v x : Value}

/-- The text of a value that is a string, a number or a boolean, trimmed and not empty. -/
def Value.text? (v : Value) : Option String :=
  (v.scalarText?.map Text.trim).filter (· != "")

/-- The text of the value that a scalar has by itself. -/
def Node.text? : Node → Option String
  | .scalar tag text plain =>
    match tag.bind Tag.wrapper? with
    | some _ => none
    | none => (scalarValue tag text plain).toOption.bind Value.text?
  | _ => none

/-- The string that a scalar is read as, below any tag. -/
def Node.string? : Node → Option String
  | .scalar tag text plain =>
    match tag.bind Tag.wrapper? with
    | some _ => (scalarValue none text plain).toOption.bind Value.string?
    | none => (scalarValue tag text plain).toOption.bind Value.string?
  | _ => none

theorem Value.ne_empty_of_text? {s : String} (h : v.text? = some s) : s ≠ "" := by
  unfold Value.text? at h
  simpa using (Option.filter_eq_some_iff.1 h).2

theorem Node.ne_empty_of_text? {s : String} (h : n.text? = some s) : s ≠ "" := by
  unfold Node.text? at h
  split at h
  · split at h
    · cases h
    · obtain ⟨x, -, hx⟩ := Option.bind_eq_some_iff.1 h
      exact Value.ne_empty_of_text? hx
  · cases h

namespace Node

theorem one_le_events (n : Node) : 1 ≤ n.events := by
  cases n <;> unfold Node.events <;> omega

theorem two_mul_length_le (entries : List (Node × Node)) :
    2 * entries.length ≤ eventsOfEntries entries := by
  induction entries with
  | nil => exact Nat.zero_le _
  | cons e rest ih =>
    obtain ⟨k, v⟩ := e
    rw [eventsOfEntries, List.length_cons]
    have hk := k.one_le_events
    have hv := v.one_le_events
    omega

end Node

namespace Document

/-- The node that a node stands for. -/
def node? (d : Document) : Node → Option Node
  | .reference number => d.target? number
  | node => some node

/-- Whether a node is read as a string. -/
def isString (d : Document) (s : String) (node : Node) : Bool :=
  match d.node? node with
  | some (.scalar tag text plain) =>
    (tag.bind Tag.wrapper?).isNone &&
      match scalarValue tag text plain with
      | .ok (.string t) => t == s
      | _ => false
  | _ => false

/-- The node that a list of keys leads to. -/
def at? (d : Document) : List String → Node → Option Node
  | [], node => d.node? node
  | key :: keys, node =>
    match d.node? node with
    | some (.mapping _ entries) =>
      (entries.find? fun e => d.isString key e.1).bind fun e => d.at? keys e.2
    | _ => none

/-- The node below the root to which a list of keys leads. -/
def find? (d : Document) (keys : List String) : Option Node :=
  d.root.bind (d.at? keys)

/-- The entries of the mapping that is the root. -/
def entries? (d : Document) : Option (List (Node × Node)) :=
  match d.root with
  | some (.mapping _ entries) => some entries
  | _ => none

theorem exists_root_of_entries? {entries : List (Node × Node)} (h : d.entries? = some entries) :
    ∃ tag, d.root = some (.mapping tag entries) := by
  unfold entries? at h
  split at h
  · rename_i tag _ hroot
    exact ⟨tag, Option.some.inj h ▸ hroot⟩
  · cases h

/-- Aliases may be followed for each key and each value at the root. -/
theorem two_mul_length_le {entries : List (Node × Node)} (h : d.entries? = some entries) :
    2 * entries.length ≤ d.events * 100 := by
  obtain ⟨tag, hroot⟩ := exists_root_of_entries? h
  have hlength := Node.two_mul_length_le entries
  unfold events
  rw [hroot]
  dsimp only
  unfold Node.events
  omega

theorem find?_mapping {tag : Option Tag} {entries : List (Node × Node)}
    (hroot : d.root = some (.mapping tag entries)) : d.find? [key] =
      (entries.find? fun e => d.isString key e.1).bind fun e => d.node? e.2 := by
  rw [find?, hroot]
  rfl

/-- The text of a key that is a scalar. -/
def keyText? (d : Document) (node : Node) : Option String :=
  match d.node? node with
  | some (.scalar _ text _) => some text
  | _ => none

theorem keyText?_eq_some_iff :
    d.keyText? node = some key ↔ ∃ tag plain, d.node? node = some (.scalar tag key plain) := by
  unfold keyText?
  constructor
  · intro h
    split at h
    · rename_i tag text plain hnode
      exact ⟨tag, plain, Option.some.inj h ▸ hnode⟩
    · cases h
  · rintro ⟨tag, plain, hnode⟩
    rw [hnode]

end Document

/-! ### Reading, step by step -/

/-- Whether reading comes to a result, behind some number of aliases. -/
def Visit.Yields (x : Visit α) (a : α) : Prop :=
  ∃ c c', x.run c = .ok (a, c')

namespace Visit

theorem run_bind_eq_ok {x : Visit α} {f : α → Visit β} {r : β × Nat} :
    (x >>= f).run c = .ok r ↔ ∃ a c', x.run c = .ok (a, c') ∧ (f a).run c' = .ok r := by
  rw [StateT.run_bind, bind_eq_ok, Prod.exists]

theorem run_bind_of_ok {x : Visit α} {f : α → Visit β} {a : α} (h : x.run c = .ok (a, c')) :
    (x >>= f).run c = (f a).run c' := by
  rw [StateT.run_bind, h]
  rfl

theorem yields_of_map {x : Visit α} {a : α} (h : (x.run c).map (·.1) = .ok a) : x.Yields a := by
  cases hrun : x.run c with
  | error f =>
    rw [hrun] at h
    cases h
  | ok r =>
    rw [hrun] at h
    exact ⟨c, r.2, by rw [hrun, ← Except.ok.inj h]⟩

theorem Yields.of_bind {x : Visit α} {f : α → Visit β} {b : β} (h : Yields (x >>= f) b) :
    ∃ a, Yields x a ∧ Yields (f a) b := by
  obtain ⟨c, c', h⟩ := h
  obtain ⟨a, c₁, ha, hb⟩ := run_bind_eq_ok.1 h
  exact ⟨a, ⟨c, c₁, ha⟩, ⟨c₁, c', hb⟩⟩

theorem Yields.of_pure {a b : α} (h : Yields (pure a) b) : a = b := by
  obtain ⟨c, c', h⟩ := h
  exact (Prod.mk.inj (Except.ok.inj h)).1

theorem Yields.of_lift {x : Except Fault α} {a : α} (h : Yields (liftM x) a) : x = .ok a := by
  obtain ⟨c, c', h⟩ := h
  cases x with
  | error e => cases h
  | ok b => rw [(Prod.mk.inj (Except.ok.inj h)).1]

theorem not_yields_throw {e : Fault} {a : α} : ¬Yields (throw e) a :=
  fun ⟨_, _, h⟩ => nomatch h

/-- Each result of a list is that of one of its elements. -/
theorem Yields.of_mapM {f : α → Visit β} {l : List α} {r : List β} (h : Yields (l.mapM f) r) :
    List.Forall₂ (fun a b => Yields (f a) b) l r := by
  induction l generalizing r with
  | nil =>
    rw [h.of_pure.symm]
    exact .nil
  | cons a l ih =>
    rw [List.mapM_cons] at h
    obtain ⟨b, hb, h⟩ := h.of_bind
    obtain ⟨s, hs, h⟩ := h.of_bind
    rw [← h.of_pure]
    exact .cons hb (ih hs)

end Visit

namespace Document

/-- A node that is followed stands for what it leads to. -/
theorem node?_of_follow (h : (d.follow node).Yields n) : d.node? node = some n := by
  cases node with
  | reference number =>
    unfold follow at h
    obtain ⟨k, -, h⟩ := h.of_bind
    split_ifs at h
    · obtain ⟨_, hthrow, -⟩ := h.of_bind
      exact absurd hthrow Visit.not_yields_throw
    · obtain ⟨_, -, h⟩ := h.of_bind
      split at h
      · rename_i target htarget
        rw [← h.of_pure]
        exact htarget
      · exact absurd h Visit.not_yields_throw
  | _ => rw [← h.of_pure]; rfl

/-- A tag does not change what is below it. -/
theorem untagged_of_wrap {tag : Option Tag} (h : (wrap tag v).Yields x) :
    x.untagged = v.untagged := by
  unfold wrap at h
  split at h
  · exact absurd h Visit.not_yields_throw
  · rw [← h.of_pure, Value.untagged]
  · rw [← h.of_pure]

/-- Entries that are paired up are kept as they are. -/
theorem eq_of_distinctEntries {done entries r : List (Value × Value)}
    (h : distinctEntries done entries = .ok r) : r = done.reverse ++ entries := by
  induction entries generalizing done with
  | nil =>
    rw [distinctEntries] at h
    rw [← Except.ok.inj h, List.append_nil]
  | cons e rest ih =>
    obtain ⟨k, v⟩ := e
    rw [distinctEntries] at h
    split_ifs at h
    rw [ih h, List.reverse_cons, List.append_assoc, List.singleton_append]

/-- How the value of a node comes from the node, or from what it stands for. -/
inductive Reads (d : Document) : Node → Value → Prop
  | scalar {tag : Option Tag} {text : String} {plain : Bool} {x : Value} :
      tag.bind Tag.wrapper? = none → scalarValue tag text plain = .ok x →
      Reads d (.scalar tag text plain) x
  | tagged {tag : Option Tag} {text name : String} {plain : Bool} {x : Value} :
      tag.bind Tag.wrapper? = some name → scalarValue none text plain = .ok x →
      Reads d (.scalar tag text plain) (.tagged name x)
  | sequence {tag : Option Tag} {items : List Node} {values : List Value} {x : Value} :
      x.untagged = .sequence values → Reads d (.sequence tag items) x
  | mapping {tag : Option Tag} {entries : List (Node × Node)} {values : List (Value × Value)}
      {depth : Nat} {x : Value} : x.untagged = .mapping values →
      List.Forall₂ (fun e v => (d.value depth e.1).Yields v.1 ∧ (d.value depth e.2).Yields v.2)
        entries values → Reads d (.mapping tag entries) x

/-- **Every value comes from its node like this.** -/
theorem reads_of_value (h : (d.value depth node).Yields x) :
    ∃ n, d.node? node = some n ∧ Reads d n x := by
  unfold value at h
  obtain ⟨n, hn, h⟩ := h.of_bind
  refine ⟨n, node?_of_follow hn, ?_⟩
  cases n with
  | scalar tag text plain =>
    dsimp only at h
    split at h
    · rename_i name htag
      obtain ⟨v, hv, h⟩ := h.of_bind
      unfold wrap at h
      rw [htag] at h
      split at h
      · exact absurd h Visit.not_yields_throw
      · rename_i name' _ heq
        rw [← h.of_pure, ← Option.some.inj heq]
        exact .tagged htag hv.of_lift
      · rename_i heq
        cases heq
    · rename_i htag
      exact .scalar htag h.of_lift
  | sequence tag items =>
    cases depth with
    | zero => exact absurd h Visit.not_yields_throw
    | succ depth =>
      obtain ⟨values, -, h⟩ := h.of_bind
      exact .sequence (untagged_of_wrap h)
  | mapping tag entries =>
    cases depth with
    | zero => exact absurd h Visit.not_yields_throw
    | succ depth =>
      obtain ⟨values, hvalues, h⟩ := h.of_bind
      obtain ⟨distinct, hdistinct, h⟩ := h.of_bind
      rw [eq_of_distinctEntries hdistinct.of_lift] at h
      have hentries : List.Forall₂ (fun e v =>
          (d.value depth e.1).Yields v.1 ∧ (d.value depth e.2).Yields v.2) entries values := by
        refine hvalues.of_mapM.imp fun e v hv => ?_
        obtain ⟨k, hk, hv⟩ := hv.of_bind
        obtain ⟨w, hw, hv⟩ := hv.of_bind
        rw [← hv.of_pure]
        exact ⟨hk, hw⟩
      exact .mapping (untagged_of_wrap h) hentries
  | reference number => exact absurd h Visit.not_yields_throw

/-- **The text of a value is that of its node.** -/
theorem Reads.text?_eq (h : d.Reads n x) : x.text? = n.text? := by
  cases h with
  | scalar htag hx =>
    unfold Node.text?
    simp only [htag, hx]
    rfl
  | tagged htag _ =>
    unfold Node.text?
    simp only [htag]
    rfl
  | sequence hx =>
    cases x with
    | sequence | tagged => rfl
    | _ => cases hx
  | mapping hx _ =>
    cases x with
    | mapping | tagged => rfl
    | _ => cases hx

/-- **The string of a value is that of its node.** -/
theorem Reads.string?_eq (h : d.Reads n x) : x.string? = n.string? := by
  cases h with
  | scalar htag hx =>
    unfold Node.string?
    simp only [htag, hx]
    rfl
  | tagged htag hx =>
    unfold Node.string?
    simp only [htag, hx]
    rfl
  | sequence hx =>
    unfold Value.string?
    rw [hx]
    rfl
  | mapping hx _ =>
    unfold Value.string?
    rw [hx]
    rfl

/-! ### Reading what has a text -/

/-- An alias is followed while aliases may be followed. -/
theorem exists_follow (hn : d.node? node = some n) (hc : c < d.events * 100) :
    ∃ c', (d.follow node).run c = .ok (n, c') ∧ c' ≤ c + 1 := by
  cases node with
  | reference number =>
    have htarget : d.target? number = some n := hn
    have hlimit : ¬d.events * 100 < c + 1 := by omega
    refine ⟨c + 1, ?_, Nat.le_refl _⟩
    unfold follow
    refine Visit.run_bind_eq_ok.2 ⟨c, c, rfl, ?_⟩
    rw [if_neg hlimit]
    refine Visit.run_bind_eq_ok.2 ⟨(), c + 1, rfl, ?_⟩
    rw [htarget]
    rfl
  | _ =>
    obtain rfl := Option.some.inj hn
    exact ⟨c, rfl, Nat.le_succ c⟩

/-- A scalar with a text is read, and costs one alias at most. -/
theorem exists_value (hn : d.node? node = some n) (ht : n.text?.isSome = true)
    (hc : c < d.events * 100) (depth : Nat) :
    ∃ x c', (d.value depth node).run c = .ok (x, c') ∧ c' ≤ c + 1 := by
  obtain ⟨c', hfollow, hle⟩ := exists_follow hn hc
  cases n with
  | scalar tag text plain =>
    unfold Node.text? at ht
    dsimp only at ht
    split at ht
    · cases ht
    · rename_i htag
      cases hx : scalarValue tag text plain with
      | error e =>
        rw [hx] at ht
        cases ht
      | ok x =>
        refine ⟨x, c', ?_, hle⟩
        unfold value
        rw [Visit.run_bind_eq_ok]
        refine ⟨_, c', hfollow, ?_⟩
        simp only [htag, hx]
        rfl
  | _ => cases ht

/-! ### Keys -/

/-- **A key is read as a string** precisely if that is its value. -/
theorem isString_iff (h : (d.value depth node).Yields x) :
    d.isString key node = true ↔ x = .string key := by
  obtain ⟨n, hn, hreads⟩ := reads_of_value h
  unfold isString
  rw [hn]
  cases hreads with
  | scalar htag hx =>
    simp only [htag, hx]
    cases x <;> simp
  | tagged htag _ => simp [htag]
  | sequence hx =>
    refine iff_of_false Bool.false_ne_true ?_
    rintro rfl
    cases hx
  | mapping hx _ =>
    refine iff_of_false Bool.false_ne_true ?_
    rintro rfl
    cases hx

theorem integerValue?_ne_string {s : List Char} {t : String} :
    Plain.integerValue? s ≠ some (.ok (.string t)) := by
  unfold Plain.integerValue?
  split
  · split_ifs <;> simp
  · simp

/-- A plain scalar that is read as a string is read as its text. -/
theorem eq_of_plainValue {s t : String} (h : Plain.value s = .ok (.string t)) : t = s := by
  unfold Plain.value at h
  split at h
  · cases h
  · split at h
    · cases h
    · split at h
      · rename_i r hr
        exact absurd (h ▸ hr) integerValue?_ne_string
      · split at h
        · cases h
        · exact (Value.string.inj (Except.ok.inj h)).symm

/-- A scalar that is read as a string is read as its text. -/
theorem eq_of_scalarValue {tag : Option Tag} {text s : String} {plain : Bool}
    (h : scalarValue tag text plain = .ok (.string s)) : s = text := by
  unfold scalarValue at h
  dsimp only at h
  cases tag with
  | none =>
    cases plain with
    | true => exact eq_of_plainValue h
    | false => exact (Value.string.inj (Except.ok.inj h)).symm
  | some tag =>
    dsimp only at h
    split_ifs at h
    · cases hb : Plain.bool? text <;> rw [hb] at h <;> cases h
    · cases hi : Plain.integerValue? text.toList with
      | none => rw [hi] at h; cases h
      | some r =>
        rw [hi] at h
        exact absurd (hi.trans (congrArg some h)) integerValue?_ne_string
    · cases hf : Plain.float? text.toList <;> rw [hf] at h <;> cases h
    · cases h
    · exact eq_of_plainValue h
    · exact (Value.string.inj (Except.ok.inj h)).symm

theorem keyText?_of_isString (h : d.isString key node = true) : d.keyText? node = some key := by
  unfold isString at h
  rw [keyText?_eq_some_iff]
  split at h
  · rename_i tag text plain hnode
    rw [Bool.and_eq_true] at h
    split at h
    · rename_i t ht
      rw [← eq_of_scalarValue ht, beq_iff_eq.1 h.2] at hnode
      exact ⟨tag, plain, hnode⟩
    · exact absurd h.2 Bool.false_ne_true
  · cases h

/-- Two lists in step have their first matches in the same place. -/
theorem rel_find? {R : α → β → Prop} {p : α → Bool} {q : β → Bool} {l : List α} {r : List β}
    (h : List.Forall₂ R l r) (hpq : ∀ a b, R a b → p a = q b) :
    Option.Rel R (l.find? p) (r.find? q) := by
  induction h with
  | nil => exact .none
  | @cons a b l r hab _ ih =>
    cases hp : p a with
    | true =>
      rw [List.find?_cons_of_pos hp, List.find?_cons_of_pos ((hpq a b hab).symm.trans hp)]
      exact .some hab
    | false =>
      have hq := (hpq a b hab).symm.trans hp
      rw [List.find?_cons_of_neg (by simp [hp]), List.find?_cons_of_neg (by simp [hq])]
      exact ih

/-- The value under a key is that of the node under the key. -/
theorem Reads.exists_get? {tag : Option Tag} {entries : List (Node × Node)} {e : Node × Node}
    (h : d.Reads (.mapping tag entries) x)
    (he : entries.find? (fun e => d.isString key e.1) = some e) :
    ∃ depth v, x.get? key = some v ∧ (d.value depth e.2).Yields v := by
  cases h with
  | @mapping _ _ values depth _ hx hentries =>
    -- the search among the values is left open: it finds what stands at the same place
    have hfound : ∀ q : Value × Value → Bool, (∀ v, q v = true ↔ v.1 = .string key) →
        ∃ v, (values.find? q).map (·.2) = some v ∧ (d.value depth e.2).Yields v := by
      intro q hq
      have hkeys : ∀ (e : Node × Node) (v : Value × Value),
          (d.value depth e.1).Yields v.1 ∧ (d.value depth e.2).Yields v.2 →
          d.isString key e.1 = q v := by
        intro e v hv
        rw [Bool.eq_iff_iff, isString_iff hv.1, hq]
      have hrel := rel_find? hentries hkeys
      rw [he] at hrel
      generalize values.find? q = found at hrel ⊢
      cases hrel with
      | some hv => exact ⟨_, rfl, hv.2⟩
    unfold Value.get?
    rw [hx]
    exact ⟨depth, hfound _ fun ⟨k, w⟩ => by cases k <;> simp⟩

/-- **Keys lead to the value of the node to which they lead.** -/
theorem exists_at_of_value (h : (d.value depth node).Yields x) (hn : d.at? keys node = some n) :
    ∃ y, Manifest.at? x keys = some y ∧ d.Reads n y := by
  induction keys generalizing node depth x with
  | nil =>
    obtain ⟨n', hn', hreads⟩ := reads_of_value h
    obtain rfl := Option.some.inj (hn.symm.trans hn')
    exact ⟨x, rfl, hreads⟩
  | cons key keys ih =>
    obtain ⟨m, hm, hreads⟩ := reads_of_value h
    unfold at? at hn
    rw [hm] at hn
    split at hn
    · rename_i heq
      obtain rfl := Option.some.inj heq
      obtain ⟨e, he, hn⟩ := Option.bind_eq_some_iff.1 hn
      obtain ⟨depth', v, hv, hvalue⟩ := hreads.exists_get? he
      obtain ⟨y, hy, hreads⟩ := ih hvalue hn
      exact ⟨y, by rw [Manifest.at?, hv]; exact hy, hreads⟩
    · cases hn

end Document
end Yaml
end ReleaseLint
