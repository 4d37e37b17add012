/-
# One identity, read from two files

| the nodes for name and version | chart file | HelmChart document |
| --- | --- | --- |
| both have a text | a chart with the texts | a manifest with the texts |
| one of them has none | refused | passed over, or without a value |

A chart file is read for the values of two keys (`Chart.get?_of_readEntries`), a HelmChart document
as a whole and behind the documents in front of it (`Manifest.ofText_eq`).  Both come to the text of
the node, so that the same nodes give the same identity or none (`identity_is_read_alike`).

What stands elsewhere in a file matters only if it keeps the two texts from being read
(`faults_hide_identities`): a chart file needs keys that are scalars, each of the two at most once
(`Chart.Declares.exists_readFields`), and a manifest needs values for its document and those in
front.
-/

import ReleaseLint.Proofs.Manifest.Identity
import ReleaseLint.Proofs.Yaml.Nodes
import ReleaseLint.Resource.Discovery
import Mathlib.Data.List.Pairwise

namespace ReleaseLint

open Yaml (Document Value)

variable {d : Document} {node n v : Yaml.Node} {key : String} {x : Value}
variable {e : Yaml.Node × Yaml.Node} {entries rest : List (Yaml.Node × Yaml.Node)}

namespace Chart

/-- The keys of a chart file that are looked at. -/
def fieldKeys : List String := ["name", "version"]

/-- The value of a key that is looked at. -/
def Fields.get? (fields : Fields) (key : String) : Option Value :=
  if key = "name" then fields.name else if key = "version" then fields.version else none

/-- Fields with one more value. -/
def Fields.set (fields : Fields) (key : String) (x : Value) : Fields :=
  if key = "name" then { fields with name := some x } else { fields with version := some x }

variable {fields fields' : Fields}

theorem Fields.get?_set {k : String} (hkey : key ∈ fieldKeys) (hk : k ∈ fieldKeys) :
    (fields.set key x).get? k = if k = key then some x else fields.get? k := by
  simp only [fieldKeys, List.mem_cons, List.not_mem_nil, or_false] at hkey hk
  rcases hkey with rfl | rfl <;> rcases hk with rfl | rfl <;> simp [Fields.set, Fields.get?]

/-- What an entry brings whose key is a scalar. -/
def readEntry (d : Document) (fields : Fields) (key : String) (node : Yaml.Node) :
    Yaml.Visit Fields :=
  if key ∈ fieldKeys then
    if (fields.get? key).isSome then throw .duplicateKey
    else return fields.set key (← d.value (Document.maxDepth - 1) node)
  else pure fields

theorem readEntry_name (d : Document) (fields : Fields) (node : Yaml.Node) :
    readEntry d fields "name" node =
      if fields.name.isSome then throw .duplicateKey
      else do return { fields with name := some (← d.value (Document.maxDepth - 1) node) } :=
  if_pos List.mem_cons_self

theorem readEntry_version (d : Document) (fields : Fields) (node : Yaml.Node) :
    readEntry d fields "version" node =
      if fields.version.isSome then throw .duplicateKey
      else do return { fields with version := some (← d.value (Document.maxDepth - 1) node) } :=
  if_pos (List.mem_cons_of_mem _ List.mem_cons_self)

/-- **Entries are read one by one.** -/
theorem readEntries_cons (d : Document) (fields : Fields) (e : Yaml.Node × Yaml.Node)
    (rest : List (Yaml.Node × Yaml.Node)) :
    readEntries d fields (e :: rest) = (do
      match ← d.follow e.1 with
      | .scalar _ key _ => readEntries d (← readEntry d fields key e.2) rest
      | _ => throw (.shape "a key")) := by
  rw [readEntries]
  congr 1
  funext n
  split
  · dsimp only
    rw [readEntry_name]
    split_ifs
    · rfl
    · rw [bind_assoc]
      rfl
  · dsimp only
    rw [readEntry_version]
    split_ifs
    · rfl
    · rw [bind_assoc]
      rfl
  · rename_i tag text plain hname hversion
    have hother : text ∉ fieldKeys := by
      rw [fieldKeys, List.mem_cons, List.mem_singleton]
      exact not_or.2 ⟨hname, hversion⟩
    dsimp only
    rw [readEntry, if_neg hother]
    rfl
  · rename_i hother
    split
    · exact absurd rfl (hother _ _ _)
    · rfl

/-! ### What is read -/

/-- **One entry:** a key that is looked at brings its value, and comes for the first time; another
key brings nothing. -/
theorem readEntry_cases (h : (readEntry d fields key node).Yields fields') :
    (key ∈ fieldKeys ∧ fields.get? key = none ∧
      ∃ x, (d.value (Document.maxDepth - 1) node).Yields x ∧ fields' = fields.set key x) ∨
    key ∉ fieldKeys ∧ fields' = fields := by
  unfold readEntry at h
  split_ifs at h with hkey hsome
  · exact absurd h Yaml.Visit.not_yields_throw
  · obtain ⟨x, hx, h⟩ := h.of_bind
    rw [Bool.not_eq_true, Option.isSome_eq_false_iff, Option.isNone_iff_eq_none] at hsome
    exact .inl ⟨hkey, hsome, x, hx, h.of_pure.symm⟩
  · exact .inr ⟨hkey, h.of_pure.symm⟩

/-- **The value of a key that is looked at** is that of the node under the key, and stays. -/
theorem get?_of_readEntries (h : (readEntries d fields entries).Yields fields')
    (hkey : key ∈ fieldKeys) :
    (∀ x, fields.get? key = some x → fields'.get? key = some x) ∧
      ∀ e, entries.find? (fun e => d.isString key e.1) = some e →
        ∃ x, fields'.get? key = some x ∧ (d.value (Document.maxDepth - 1) e.2).Yields x := by
  induction entries generalizing fields with
  | nil =>
    rw [readEntries] at h
    rw [h.of_pure]
    exact ⟨fun _ hx => hx, nofun⟩
  | cons e₀ rest ih =>
    rw [readEntries_cons] at h
    obtain ⟨m, hm, h⟩ := h.of_bind
    split at h
    · rename_i tag k plain
      obtain ⟨fields₁, hentry, hrest⟩ := h.of_bind
      obtain ⟨hkept, hfound⟩ := ih hrest
      have hk : d.keyText? e₀.1 = some k :=
        Document.keyText?_eq_some_iff.2 ⟨tag, plain, Document.node?_of_follow hm⟩
      have hstring : d.isString key e₀.1 = true → key = k := fun hstring =>
        Option.some.inj ((Document.keyText?_of_isString hstring).symm.trans hk)
      obtain ⟨hfield, hnone, x, hx, rfl⟩ | ⟨hother, rfl⟩ := readEntry_cases hentry
      -- a key that is looked at comes once: no entry behind this one replaces its value
      · rw [Fields.get?_set hfield hkey] at hkept
        refine ⟨fun y hy => ?_, fun e he => ?_⟩
        · have hne : key ≠ k := by
            rintro rfl
            cases hnone.symm.trans hy
          exact hkept y (by rw [if_neg hne, hy])
        · rw [List.find?_cons] at he
          split at he
          · rename_i hfirst
            obtain rfl := Option.some.inj he
            exact ⟨x, hkept x (by rw [if_pos (hstring hfirst)]), hx⟩
          · exact hfound e he
      · refine ⟨hkept, fun e he => ?_⟩
        rw [List.find?_cons] at he
        split at he
        · rename_i hfirst
          exact absurd (hstring hfirst ▸ hkey) hother
        · exact hfound e he
    · exact absurd h Yaml.Visit.not_yields_throw

theorem fieldText_some (x : Value) : fieldText (some x) = x.text?.getD "" := by
  unfold fieldText Value.text?
  rw [Option.bind_some]
  cases x.scalarText? with
  | none => rfl
  | some s =>
    rw [Option.getD_some, Option.map_some]
    by_cases hs : Text.trim s = ""
    · rw [hs]
      rfl
    · rw [Option.filter_some, if_pos (by simpa using hs), Option.getD_some]

variable {content : String}

theorem readFields_eq (hd : Document.only? content = .ok d) {root : Yaml.Node}
    (hroot : d.root = some root) : readFields content = ((readRoot d root).run 0).map (·.1) := by
  unfold readFields
  rw [hd]
  dsimp only [bind, Except.bind]
  rw [hroot]

/-- **What a chart file is read to** has the texts of the nodes under its keys. -/
theorem fieldText_of_readFields (hd : Document.only? content = .ok d)
    (h : readFields content = .ok fields) (hkey : key ∈ fieldKeys)
    (hn : d.find? [key] = some n) : fieldText (fields.get? key) = n.text?.getD "" := by
  obtain ⟨root, hroot, hn⟩ := Option.bind_eq_some_iff.1 hn
  rw [readFields_eq hd hroot] at h
  have hyields := Yaml.Visit.yields_of_map h
  unfold readRoot at hyields
  obtain ⟨m, hm, hyields⟩ := hyields.of_bind
  unfold Document.at? at hn
  rw [Document.node?_of_follow hm] at hn
  split at hn
  · rename_i heq
    obtain rfl := Option.some.inj heq
    obtain ⟨e, he, hn⟩ := Option.bind_eq_some_iff.1 hn
    obtain ⟨x, hx, hvalue⟩ := (get?_of_readEntries hyields hkey).2 e he
    obtain ⟨n', hn', hreads⟩ := Document.reads_of_value hvalue
    obtain rfl := Option.some.inj (hn.symm.trans hn')
    rw [hx, fieldText_some, hreads.text?_eq]
  · cases hn

/-! ### Charts that are read -/

/-- Whether keys are scalars, and none that is looked at comes twice. -/
def AreKeys (d : Document) (entries : List (Yaml.Node × Yaml.Node)) : Prop :=
  (∀ e ∈ entries, (d.keyText? e.1).isSome = true) ∧
    entries.Pairwise fun e e' => d.keyText? e.1 = d.keyText? e'.1 →
      ∀ key ∈ fieldKeys, d.keyText? e.1 ≠ some key

/-- Whether a chart file has such keys. -/
def HasKeys (d : Document) : Prop :=
  ∃ entries ∈ d.entries?, AreKeys d entries

instance (d : Document) (entries : List (Yaml.Node × Yaml.Node)) : Decidable (AreKeys d entries) :=
  inferInstanceAs (Decidable (_ ∧ _))

instance (d : Document) : Decidable (HasKeys d) :=
  inferInstanceAs (Decidable (∃ _ ∈ _, _))

theorem AreKeys.eq_of_keyText? (h : AreKeys d entries) {e' : Yaml.Node × Yaml.Node}
    (he : e ∈ entries) (he' : e' ∈ entries) (hkey : key ∈ fieldKeys)
    (hk : d.keyText? e.1 = some key) (hk' : d.keyText? e'.1 = some key) : e = e' := by
  by_contra hne
  have : Std.Symm fun e e' : Yaml.Node × Yaml.Node =>
      d.keyText? e.1 = d.keyText? e'.1 → ∀ key ∈ fieldKeys, d.keyText? e.1 ≠ some key :=
    ⟨fun a b hab heq key hkey => heq ▸ hab heq.symm key hkey⟩
  exact h.2.forall he he' hne (hk.trans hk'.symm) key hkey hk

/-- What is found under a key that is looked at stands in the only entry with this key. -/
theorem AreKeys.node?_of_find? (h : AreKeys d entries) (hentries : d.entries? = some entries)
    (he : e ∈ entries) (hkey : key ∈ fieldKeys) (hk : d.keyText? e.1 = some key)
    (hn : d.find? [key] = some n) : d.node? e.2 = some n := by
  obtain ⟨tag, hroot⟩ := Document.exists_root_of_entries? hentries
  rw [Document.find?_mapping hroot, Option.bind_eq_some_iff] at hn
  obtain ⟨e', he', hnode⟩ := hn
  have hstring := List.find?_some (p := fun e : Yaml.Node × Yaml.Node => d.isString key e.1) he'
  obtain rfl := h.eq_of_keyText? he (List.mem_of_find?_eq_some he') hkey hk
    (Document.keyText?_of_isString hstring)
  exact hnode

/-- An entry whose key comes for the first time is read if it has a text. -/
theorem exists_readEntry {c : Nat} (hnew : key ∈ fieldKeys → fields.get? key = none)
    (htext : key ∈ fieldKeys → ∃ n, d.node? node = some n ∧ n.text?.isSome = true)
    (hc : c < d.events * 100) :
    ∃ fields₁ c', (readEntry d fields key node).run c = .ok (fields₁, c') ∧ c' ≤ c + 1 ∧
      ∀ k ∈ fieldKeys, k ≠ key → fields₁.get? k = fields.get? k := by
  unfold readEntry
  by_cases hkey : key ∈ fieldKeys
  · obtain ⟨n, hn, ht⟩ := htext hkey
    obtain ⟨x, c', hvalue, hle⟩ := Document.exists_value hn ht hc (Document.maxDepth - 1)
    rw [if_pos hkey, hnew hkey, Option.isSome_none, if_neg Bool.false_ne_true,
      Yaml.Visit.run_bind_of_ok hvalue]
    exact ⟨_, c', rfl, hle, fun k hk hne => by rw [Fields.get?_set hkey hk, if_neg hne]⟩
  · rw [if_neg hkey]
    exact ⟨fields, c, rfl, Nat.le_succ c, fun _ _ _ => rfl⟩

/-- **Entries are read if what is looked at has a text:** each of them costs two aliases at most. -/
theorem exists_readEntries {c : Nat} (hkeys : AreKeys d entries)
    (hnew : ∀ e ∈ entries, ∀ key ∈ fieldKeys, d.keyText? e.1 = some key → fields.get? key = none)
    (htext : ∀ e ∈ entries, ∀ key ∈ fieldKeys, d.keyText? e.1 = some key →
      ∃ n, d.node? e.2 = some n ∧ n.text?.isSome = true)
    (hc : c + 2 * entries.length ≤ d.events * 100) :
    ∃ r, (readEntries d fields entries).run c = .ok r := by
  induction entries generalizing fields c with
  | nil => exact ⟨_, rfl⟩
  | cons e rest ih =>
    obtain ⟨hscalar, hfirst⟩ := hkeys
    rw [List.forall_mem_cons] at hscalar hnew htext
    rw [List.pairwise_cons] at hfirst
    rw [List.length_cons] at hc
    obtain ⟨key, hkey⟩ := Option.isSome_iff_exists.1 hscalar.1
    obtain ⟨tag, plain, hnode⟩ := Document.keyText?_eq_some_iff.1 hkey
    obtain ⟨c₁, hfollow, hc₁⟩ := Document.exists_follow hnode (c := c) (by omega)
    obtain ⟨fields₁, c₂, hentry, hc₂, hothers⟩ := exists_readEntry (c := c₁)
      (fun hfield => hnew.1 key hfield hkey) (fun hfield => htext.1 key hfield hkey) (by omega)
    rw [readEntries_cons, Yaml.Visit.run_bind_of_ok hfollow]
    dsimp only
    rw [Yaml.Visit.run_bind_of_ok hentry]
    refine ih ⟨hscalar.2, hfirst.2⟩ (fun e' he' k hk hkey' => ?_) htext.2 (by omega)
    have hne : k ≠ key := by
      rintro rfl
      exact hfirst.1 e' he' (hkey.trans hkey'.symm) k hk hkey
    rw [hothers k hk hne]
    exact hnew.2 e' he' k hk hkey'

/-- Whether a chart file holds one document with two nodes as name and version. -/
structure Declares (content : String) (d : Document) (n v : Yaml.Node) : Prop where
  only : Document.only? content = .ok d
  name : d.find? ["name"] = some n
  version : d.find? ["version"] = some v

namespace Declares

theorem exists_find? (h : Declares content d n v) {P : Yaml.Node → Prop} (hn : P n) (hv : P v)
    (hkey : key ∈ fieldKeys) : ∃ m, d.find? [key] = some m ∧ P m := by
  rw [fieldKeys, List.mem_cons, List.mem_singleton] at hkey
  rcases hkey with rfl | rfl
  · exact ⟨n, h.name, hn⟩
  · exact ⟨v, h.version, hv⟩

/-- **A chart file is read if its name and version have a text,** and nothing is wrong with its
keys: the values of other keys do not matter. -/
theorem exists_readFields (h : Declares content d n v) (hkeys : HasKeys d)
    (hn : n.text?.isSome = true) (hv : v.text?.isSome = true) :
    ∃ fields, readFields content = .ok fields := by
  obtain ⟨entries, hentries, hkeys⟩ := hkeys
  obtain ⟨tag, hroot⟩ := Document.exists_root_of_entries? hentries
  have htext : ∀ e ∈ entries, ∀ key ∈ fieldKeys, d.keyText? e.1 = some key →
      ∃ n, d.node? e.2 = some n ∧ n.text?.isSome = true := by
    intro e he key hkey hk
    obtain ⟨m, hm, hmtext⟩ := h.exists_find? (P := fun m => m.text?.isSome = true) hn hv hkey
    exact ⟨m, hkeys.node?_of_find? hentries he hkey hk hm, hmtext⟩
  have hbudget : 0 + 2 * entries.length ≤ d.events * 100 := by
    rw [Nat.zero_add]
    exact Document.two_mul_length_le hentries
  have hnew : ∀ e ∈ entries, ∀ key ∈ fieldKeys, d.keyText? e.1 = some key →
      (Fields.mk none none).get? key = none := by
    intro e _ key _ _
    unfold Fields.get?
    split_ifs <;> rfl
  obtain ⟨⟨fields, c⟩, hrun⟩ := exists_readEntries hkeys hnew htext hbudget
  refine ⟨fields, ?_⟩
  have hreadRoot : (readRoot d (.mapping tag entries)).run 0 = .ok (fields, c) := hrun
  rw [readFields_eq h.only hroot, hreadRoot]
  rfl

theorem fieldTexts (h : Declares content d n v) (hfields : readFields content = .ok fields) :
    fieldText fields.name = n.text?.getD "" ∧ fieldText fields.version = v.text?.getD "" := by
  have hname : fieldText (fields.get? "name") = n.text?.getD "" :=
    fieldText_of_readFields h.only hfields List.mem_cons_self h.name
  have hversion : fieldText (fields.get? "version") = v.text?.getD "" :=
    fieldText_of_readFields h.only hfields (List.mem_cons_of_mem _ List.mem_cons_self) h.version
  exact ⟨hname, hversion⟩

/-- **A chart file with two texts gives a chart with them.** -/
theorem ofText_eq (h : Declares content d n v) (hkeys : HasKeys d) {s t : String}
    (hn : n.text? = some s) (hv : v.text? = some t) (path : Path) :
    ofText path content = .ok ⟨path, s, t⟩ := by
  obtain ⟨fields, hfields⟩ := h.exists_readFields hkeys (by rw [hn]; rfl) (by rw [hv]; rfl)
  obtain ⟨hs, ht⟩ := h.fieldTexts hfields
  rw [hn, Option.getD_some] at hs
  rw [hv, Option.getD_some] at ht
  unfold ofText
  rw [hfields]
  dsimp only
  rw [hs, ht, if_neg (Yaml.Node.ne_empty_of_text? hn), if_neg (Yaml.Node.ne_empty_of_text? hv)]

/-- **A chart file without one of them gives no chart.** -/
theorem exists_fault (h : Declares content d n v) (hnone : n.text? = none ∨ v.text? = none)
    (path : Path) : ∃ fault, ofText path content = .error fault := by
  unfold ofText
  cases hfields : readFields content with
  | error f => exact ⟨_, rfl⟩
  | ok fields =>
    obtain ⟨hs, ht⟩ := h.fieldTexts hfields
    dsimp only
    by_cases hempty : fieldText fields.name = ""
    · rw [if_pos hempty]
      exact ⟨_, rfl⟩
    · have hv : v.text? = none := hnone.resolve_left fun hn => hempty (by rw [hs, hn]; rfl)
      rw [hv, Option.getD_none] at ht
      rw [if_neg hempty, if_pos ht]
      exact ⟨_, rfl⟩

end Declares
end Chart

namespace Manifest

/-- The manifest that a document of the file `source` is, if the document has a value. -/
def inDocument? (source : Path) (d : Document) : Option Manifest :=
  d.toValue.toOption.bind (ofDocument? source)

variable {source : Path} {text : String} {keys : List String}

/-- **The manifests of a text** are those of its documents in front of the first one without a
value. -/
theorem ofText_eq (source : Path) (text : String) : ofText source text =
    ((Yaml.Stream.ofText text).documents.takeWhile fun d => d.toValue.toOption.isSome).filterMap
      (inDocument? source) := by
  unfold ofText Yaml.Values.ofText Yaml.Stream.toValues
  generalize (Yaml.Stream.ofText text).documents = documents
  induction documents with
  | nil => rfl
  | cons d rest ih =>
    rw [Yaml.Stream.toValues.go, List.takeWhile_cons]
    cases hvalue : d.toValue with
    | error f => rfl
    | ok x =>
      have hmanifest : inDocument? source d = ofDocument? source x := by
        unfold inDocument?
        rw [hvalue]
        rfl
      simp only [Except.toOption, Option.isSome_some, if_true, List.filterMap_cons, hmanifest, ih]

/-- A manifest stands behind those of the documents in front of its own. -/
theorem ofText_of_documents {D : Document} {before after : List Document} {m : Manifest}
    (hD : (Yaml.Stream.ofText text).documents = before ++ D :: after)
    (hvalues : ∀ e ∈ before ++ [D], ∃ x, e.toValue = .ok x)
    (hm : inDocument? source D = some m) :
    ∃ front rest, ofText source text = front ++ m :: rest := by
  have hpos : ∀ e ∈ before ++ [D], e.toValue.toOption.isSome = true := by
    intro e he
    obtain ⟨x, hx⟩ := hvalues e he
    rw [hx]
    rfl
  have hsplit : before ++ D :: after = before ++ [D] ++ after := by simp
  rw [ofText_eq, hD, hsplit, List.takeWhile_append_of_pos hpos, List.filterMap_append,
    List.filterMap_append, List.filterMap_cons_some hm, List.filterMap_nil, List.append_assoc]
  exact ⟨_, _, rfl⟩

/-- Keys lead to a value in the value of a document as they lead to a node in the document. -/
theorem exists_at_of_toValue (h : d.toValue = .ok x) (hn : d.find? keys = some n) :
    ∃ y, at? x keys = some y ∧ d.Reads n y := by
  obtain ⟨root, hroot, hn⟩ := Option.bind_eq_some_iff.1 hn
  unfold Document.toValue at h
  rw [hroot] at h
  exact Document.exists_at_of_value (Yaml.Visit.yields_of_map h) hn

theorem textAt?_of_toValue (h : d.toValue = .ok x) (hn : d.find? keys = some n) :
    textAt? x keys = n.text? := by
  obtain ⟨y, hy, hreads⟩ := exists_at_of_toValue h hn
  rw [← hreads.text?_eq, textAt?, hy]
  rfl

/-- Whether a document is a HelmChart with two nodes as name and chart version. -/
structure Declares (d : Document) (n v : Yaml.Node) : Prop where
  kind : (d.find? ["kind"]).bind (·.string?) = some Resource.Kind.helmChart.name
  name : d.find? ["spec", "chart", "name"] = some n
  version : d.find? ["spec", "chart", "chartVersion"] = some v

theorem Declares.isKindOf (h : Declares d n v) (hx : d.toValue = .ok x) :
    Resource.Kind.helmChart.isKindOf x = true := by
  obtain ⟨k, hk, hstring⟩ := Option.bind_eq_some_iff.1 h.kind
  obtain ⟨y, hy, hreads⟩ := exists_at_of_toValue hx hk
  have hget : x.get? "kind" = some y := by
    rw [at?] at hy
    simpa [at?] using hy
  unfold Resource.Kind.isKindOf
  rw [hget, Option.bind_some, hreads.string?_eq, hstring]
  exact beq_self_eq_true _

/-- **The manifest that a HelmChart document is,** if the document has a value. -/
theorem Declares.inDocument?_eq (h : Declares d n v) (hx : d.toValue = .ok x) (source : Path) :
    (inDocument? source d).map identity = n.text?.bind fun s => v.text?.map fun t => ⟨s, t⟩ := by
  unfold inDocument? ofDocument?
  rw [hx]
  simp only [Except.toOption, Option.bind_some, h.isKindOf hx, Bool.not_true, Bool.false_eq_true,
    if_false, textAt?_of_toValue hx h.name, textAt?_of_toValue hx h.version]
  cases n.text? <;> cases v.text? <;> rfl

theorem chartAt_eq {w : Workspace} {directory : Path} {content : String}
    (h : Chart.markers.findSome? (fun marker => (w.readText (directory / marker)).toOption) =
      some content) :
    Resource.chartAt w directory =
      (Chart.ofText directory content).mapError (Error.chart directory) := by
  unfold Resource.chartAt
  rw [h]
  dsimp only
  cases Chart.ofText directory content <;> rfl

/-- **A chart and a HelmChart document read their identity alike.**  If both have the same nodes
for the name and the version, then either both give this identity, or neither gives one; the
first, if both nodes have a text, unless something else keeps one of the files from being read. -/
theorem identity_is_read_alike {w : Workspace} {directory : Path} {content text : String}
    {d D : Document} {before after : List Document}
    (hcontent : Chart.markers.findSome?
      (fun marker => (w.readText (directory / marker)).toOption) = some content)
    (hchart : Chart.Declares content d n v)
    (htext : (Yaml.Stream.ofText text).documents = before ++ D :: after) (hD : Declares D n v)
    (hreads : n.text?.isSome = true → v.text?.isSome = true →
      Chart.HasKeys d ∧ ∀ e ∈ before ++ [D], ∃ x, e.toValue = .ok x) (source : Path) :
    (∃ chart m front rest, Resource.chartAt w directory = .ok chart ∧
      inDocument? source D = some m ∧ ofText source text = front ++ m :: rest ∧
      n.text? = some chart.name ∧ v.text? = some chart.version ∧
      m.identity = chart.identity ∧ m.key = chart.key) ∨
    ((∃ e, Resource.chartAt w directory = .error e) ∧ inDocument? source D = none ∧
      (n.text? = none ∨ v.text? = none)) := by
  rw [chartAt_eq hcontent]
  by_cases htexts : n.text?.isSome = true ∧ v.text?.isSome = true
  · obtain ⟨s, hs⟩ := Option.isSome_iff_exists.1 htexts.1
    obtain ⟨t, ht⟩ := Option.isSome_iff_exists.1 htexts.2
    obtain ⟨hkeys, hvalues⟩ := hreads htexts.1 htexts.2
    have hfile := hchart.ofText_eq hkeys hs ht directory
    obtain ⟨x, hx⟩ := hvalues D (by simp)
    have hidentity := hD.inDocument?_eq hx source
    rw [hs, ht] at hidentity
    obtain ⟨m, hm, hsame⟩ := Option.map_eq_some_iff.1 hidentity
    obtain ⟨front, rest, hmanifests⟩ := ofText_of_documents htext hvalues hm
    exact .inl ⟨⟨directory, s, t⟩, m, front, rest, by rw [hfile]; rfl, hm, hmanifests, hs, ht, hsame,
      key_eq_chart_key_iff.2 (.inl hsame)⟩
  · have hnone : n.text? = none ∨ v.text? = none := by
      rwa [not_and_or, Option.not_isSome_iff_eq_none, Option.not_isSome_iff_eq_none] at htexts
    obtain ⟨fault, hfault⟩ := hchart.exists_fault hnone directory
    refine .inr ⟨⟨_, by rw [hfault]; rfl⟩, ?_, hnone⟩
    cases hvalue : D.toValue with
    | error f =>
      unfold inDocument?
      rw [hvalue]
      rfl
    | ok x =>
      have hidentity := hD.inDocument?_eq hvalue source
      rw [← Option.map_eq_none_iff, hidentity]
      rcases hnone with hn | hv
      · rw [hn]
        rfl
      · rw [hv]
        cases n.text? <;> rfl

/-! ### Plain scalars -/

/-- Whether a node is a plain scalar with a text. -/
def isPlain (text : String) : Yaml.Node → Bool
  | .scalar none t true => t == text
  | _ => false

theorem find?_of_isPlain {text : String} (h : (d.find? keys).any (isPlain text) = true) :
    d.find? keys = some (.scalar none text true) := by
  obtain ⟨m, hm, hplain⟩ := (Option.any_eq_true _ _).1 h
  unfold isPlain at hplain
  split at hplain
  · rw [hm, beq_iff_eq.1 hplain]
  · cases hplain

theorem exists_chart_of_isPlain {s t : String} {p : Document → Bool}
    (h : (Document.only? content).toOption.any (fun d => (d.find? ["name"]).any (isPlain s) &&
      (d.find? ["version"]).any (isPlain t) && p d) = true) :
    ∃ d, Chart.Declares content d (.scalar none s true) (.scalar none t true) ∧ p d = true := by
  obtain ⟨d, hd, h⟩ := (Option.any_eq_true _ _).1 h
  simp only [Bool.and_eq_true] at h
  exact ⟨d, ⟨toOption_eq_some_iff.1 hd, find?_of_isPlain h.1.1, find?_of_isPlain h.1.2⟩, h.2⟩

theorem exists_document_of_isPlain {s t : String} {p : Document → Bool}
    (h : (match (Yaml.Stream.ofText text).documents with
      | [d] => (d.find? ["kind"]).any (isPlain "HelmChart") &&
          (d.find? ["spec", "chart", "name"]).any (isPlain s) &&
          (d.find? ["spec", "chart", "chartVersion"]).any (isPlain t) && p d
      | _ => false) = true) :
    ∃ d, (Yaml.Stream.ofText text).documents = [d] ∧
      Declares d (.scalar none s true) (.scalar none t true) ∧ p d = true := by
  split at h
  · rename_i d hd
    simp only [Bool.and_eq_true] at h
    refine ⟨d, hd, ⟨?_, find?_of_isPlain h.1.1.2, find?_of_isPlain h.1.2⟩, h.2⟩
    rw [find?_of_isPlain h.1.1.1, Option.bind_some]
    decide +kernel
  · cases h

/-- A chart file for a name and a version. -/
def chartText (name version : String) : String :=
  "name: " ++ name ++ "\nversion: " ++ version ++ "\n"

theorem exists_webChart : ∃ d, Chart.Declares (chartText "web" "1.5") d
    (.scalar none "web" true) (.scalar none "1.5" true) ∧ decide (Chart.HasKeys d) = true :=
  exists_chart_of_isPlain (by decide +kernel)

theorem exists_webManifest : ∃ d, (Yaml.Stream.ofText (helmChartText "web" "1.5")).documents = [d] ∧
    Declares d (.scalar none "web" true) (.scalar none "1.5" true) ∧
      ∀ e ∈ [] ++ [d], ∃ x, e.toValue = .ok x := by
  obtain ⟨d, htext, hd, hvalue⟩ : ∃ d,
      (Yaml.Stream.ofText (helmChartText "web" "1.5")).documents = [d] ∧
        Declares d (.scalar none "web" true) (.scalar none "1.5" true) ∧
          d.toValue.toOption.isSome = true :=
    exists_document_of_isPlain (by decide +kernel)
  refine ⟨d, htext, hd, fun e he => ?_⟩
  obtain rfl := List.mem_singleton.1 he
  obtain ⟨x, hx⟩ := Option.isSome_iff_exists.1 hvalue
  exact ⟨x, toOption_eq_some_iff.1 hx⟩

theorem text?_web : (Yaml.Node.scalar none "web" true).text? = some "web" ∧
    (Yaml.Node.scalar none "1.5" true).text? = some "1.5" := by
  decide +kernel

/-- A directory with a chart file. -/
def chartTree (content : String) : Workspace where
  tree := ⟨[(["c"], .directory), (["c", "Chart.yaml"], .file content.toUTF8 false)]⟩
  directory := ⟨"/"⟩

/-- A chart and its manifest, both with a number for a version. -/
theorem numbers_are_read_alike :
    ∃ chart m, Resource.chartAt (chartTree (chartText "web" "1.5")) ⟨"/c"⟩ = .ok chart ∧
      m ∈ ofText ⟨"/m/web.yaml"⟩ (helmChartText "web" "1.5") ∧
      chart.identity = ⟨"web", "1.5"⟩ ∧ m.key = chart.key := by
  obtain ⟨d, hd, hkeys⟩ := exists_webChart
  obtain ⟨D, htext, hD, hvalues⟩ := exists_webManifest
  have hcontent : Chart.markers.findSome? (fun marker =>
      ((chartTree (chartText "web" "1.5")).readText (Path.mk "/c" / marker)).toOption) =
        some (chartText "web" "1.5") := by decide +kernel
  obtain ⟨hname, hversion⟩ := text?_web
  obtain ⟨chart, m, front, rest, hchart, -, hmanifests, hn, hv, -, hkey⟩ | ⟨-, -, hnone⟩ :=
    identity_is_read_alike hcontent hd htext hD
      (fun _ _ => ⟨of_decide_eq_true hkeys, hvalues⟩) ⟨"/m/web.yaml"⟩
  · refine ⟨chart, m, hchart, by simp [hmanifests], ?_, hkey⟩
    unfold Chart.identity
    rw [← Option.some.inj (hname.symm.trans hn), ← Option.some.inj (hversion.symm.trans hv)]
  · rw [hname, hversion] at hnone
    rcases hnone with hnone | hnone <;> cases hnone

/-- **What is wrong elsewhere in a file keeps the identity from being read.**  A number that is too
large hides a HelmChart document, and a key that is no scalar hides a chart. -/
theorem faults_hide_identities :
    (∃ d D n v, Chart.Declares (chartText "web" "1.5") d n v ∧
      (Yaml.Stream.ofText ("metadata:\n  serial: 18446744073709551616\n" ++
        helmChartText "web" "1.5")).documents = [D] ∧ Declares D n v ∧
      (∃ chart, Chart.ofText ⟨"/c"⟩ (chartText "web" "1.5") = .ok chart) ∧
      ofText ⟨"/m/web.yaml"⟩ ("metadata:\n  serial: 18446744073709551616\n" ++
        helmChartText "web" "1.5") = []) ∧
    ∃ d D n v, Chart.Declares (chartText "web" "1.5" ++ "? [a]\n: b\n") d n v ∧
      (Yaml.Stream.ofText (helmChartText "web" "1.5")).documents = [D] ∧ Declares D n v ∧
      (∃ fault, Chart.ofText ⟨"/c"⟩ (chartText "web" "1.5" ++ "? [a]\n: b\n") = .error fault) ∧
      ∃ m, m ∈ ofText ⟨"/m/web.yaml"⟩ (helmChartText "web" "1.5") := by
  constructor
  · obtain ⟨d, hd, hkeys⟩ := exists_webChart
    obtain ⟨D, htext, hD, -⟩ : ∃ D,
        (Yaml.Stream.ofText ("metadata:\n  serial: 18446744073709551616\n" ++
          helmChartText "web" "1.5")).documents = [D] ∧
          Declares D (.scalar none "web" true) (.scalar none "1.5" true) ∧ true = true :=
      exists_document_of_isPlain (by decide +kernel)
    have hchart := hd.ofText_eq (of_decide_eq_true hkeys) text?_web.1 text?_web.2 ⟨"/c"⟩
    exact ⟨d, D, _, _, hd, htext, hD, ⟨_, hchart⟩, List.isEmpty_iff.1 (by decide +kernel)⟩
  · obtain ⟨d, hd, -⟩ : ∃ d, Chart.Declares (chartText "web" "1.5" ++ "? [a]\n: b\n") d
        (.scalar none "web" true) (.scalar none "1.5" true) ∧ true = true :=
      exists_chart_of_isPlain (by decide +kernel)
    obtain ⟨D, htext, hD, hvalues⟩ := exists_webManifest
    obtain ⟨x, hx⟩ := hvalues D List.mem_cons_self
    have hidentity := hD.inDocument?_eq hx ⟨"/m/web.yaml"⟩
    rw [text?_web.1, text?_web.2] at hidentity
    obtain ⟨m, hm, -⟩ := Option.map_eq_some_iff.1 hidentity
    obtain ⟨front, rest, hmanifests⟩ := ofText_of_documents htext hvalues hm
    have hfault : (Chart.ofText ⟨"/c"⟩
        (chartText "web" "1.5" ++ "? [a]\n: b\n")).toOption = none := by decide +kernel
    refine ⟨d, D, _, _, hd, htext, hD, ?_, m, by simp [hmanifests]⟩
    cases hchart : Chart.ofText ⟨"/c"⟩ (chartText "web" "1.5" ++ "? [a]\n: b\n") with
    | error fault => exact ⟨fault, rfl⟩
    | ok chart =>
      rw [hchart] at hfault
      cases hfault

end Manifest
end ReleaseLint
