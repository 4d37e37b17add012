/-
# Trees of a file system

A tree that stands for the files of a system names each entry once, by names that the system
accepts, and all that leads to an entry are directories (`IsSound`).  The path at some names is
looked up name by name (`locate_ofNames`), and behind a directory that a path leads to, what
stands below the directory is found at the names that lead on (`hasDirectory_append`).
-/

import ReleaseLint.Proofs.Path.Clean
import ReleaseLint.Proofs.Tree.Lookup
import Mathlib.Data.List.Nodup

namespace ReleaseLint

open Path (ofNames)

namespace Tree

variable {t : Tree} {names top m : Names} {n : Node}

/-- Whether a tree names each entry once, by names that the system accepts, and every entry
stands in a directory. -/
structure IsSound (t : Tree) : Prop where
  named : ∀ e ∈ t.entries, AreNames e.1
  fits : ∀ e ∈ t.entries, ∀ s ∈ e.1, Fits s
  distinct : (t.entries.map (·.1)).Nodup
  nested : ∀ e ∈ t.entries, ∀ m, m <+: e.1 → m ≠ e.1 → t.find? m = some .directory

theorem find?_eq_directory_iff :
    t.find? names = some .directory ↔ (t.find? names).any Node.isDirectory = true := by
  cases t.find? names with
  | none => simp
  | some n => cases n <;> simp [Node.isDirectory]

instance (t : Tree) : Decidable t.IsSound :=
  decidable_of_iff ((∀ e ∈ t.entries, AreNames e.1) ∧
      (∀ e ∈ t.entries, ∀ s ∈ e.1, Fits s) ∧
      (t.entries.map (·.1)).Nodup ∧ ∀ e ∈ t.entries, ∀ m ∈ e.1.inits, m ≠ e.1 →
        (t.find? m).any Node.isDirectory = true) <| by
    simp only [← find?_eq_directory_iff, List.mem_inits]
    exact ⟨fun h => ⟨h.1, h.2.1, h.2.2.1, h.2.2.2⟩, fun h => ⟨h.1, h.2, h.3, h.4⟩⟩

theorem locate_ofNames (h : AreNames names) :
    t.locate (ofNames names) = t.follow maxLinks [] (names.map .name) := by
  rcases List.eq_nil_or_concat names with rfl | ⟨names, s, rfl⟩
  · exact locate_slash t
  · rw [List.concat_eq_append] at h ⊢
    have hne : (names ++ [s]).map Segment.name ≠ [] := by simp
    unfold ofNames
    rw [locate_of_ne_empty (Path.text_along_ne_empty h.isStep hne), Path.route_along h.isStep hne,
      Path.segments_slash, follow_eq, follow_eq t maxLinks []]
    rfl

theorem belowTop_eq_some {e : Names × Node} :
    (if (top.isPrefixOf e.1 && decide (top.length < e.1.length)) = true then
      some (e.1.drop top.length, e.2) else none) = some (m, n) ↔ e = (top ++ m, n) ∧ m ≠ [] := by
  obtain ⟨names, n'⟩ := e
  dsimp only
  constructor
  · intro hsome
    split_ifs at hsome with hcond
    obtain ⟨rfl, rfl⟩ := Prod.mk.inj (Option.some.inj hsome)
    rw [Bool.and_eq_true, List.isPrefixOf_iff_prefix, decide_eq_true_eq] at hcond
    obtain ⟨⟨r, rfl⟩, hlt⟩ := hcond
    rw [List.length_append] at hlt
    rw [List.drop_left]
    exact ⟨rfl, fun hr => by simp [hr] at hlt⟩
  · rintro ⟨he, hne⟩
    obtain ⟨rfl, rfl⟩ := Prod.mk.inj he
    have hcond : top.isPrefixOf (top ++ m) = true ∧ top.length < (top ++ m).length := by
      rw [List.isPrefixOf_iff_prefix, List.length_append]
      exact ⟨List.prefix_append top m, Nat.lt_add_of_pos_right (List.length_pos_iff.2 hne)⟩
    rw [if_pos (by simpa using hcond), List.drop_left]

theorem mem_below : (m, n) ∈ t.below top ↔ (top ++ m, n) ∈ t.entries ∧ m ≠ [] := by
  unfold below
  rw [List.mem_filterMap]
  simp only [belowTop_eq_some]
  constructor
  · rintro ⟨e, he, rfl, hne⟩
    exact ⟨he, hne⟩
  · rintro ⟨he, hne⟩
    exact ⟨_, he, rfl, hne⟩

theorem IsSound.pairwise_below (ht : t.IsSound) (top : Names) :
    (t.below top).Pairwise fun a b => a.1 ≠ b.1 := by
  unfold below
  rw [List.pairwise_filterMap]
  refine (List.pairwise_map.1 ht.distinct).imp fun hne => ?_
  rintro ⟨m, n⟩ hm ⟨m', n'⟩ hm' heq
  rw [(belowTop_eq_some.1 hm).1, (belowTop_eq_some.1 hm').1] at hne
  exact hne (congrArg (top ++ ·) heq)

theorem mem_of_find? (h : t.find? names = some n) (hne : names ≠ []) : (names, n) ∈ t.entries := by
  rw [find?_of_ne_nil hne, Option.map_eq_some_iff] at h
  obtain ⟨e, he, rfl⟩ := h
  have hkey := List.find?_some he
  rw [beq_iff_eq] at hkey
  rw [← hkey]
  exact List.mem_of_find?_eq_some he

theorem IsSound.find?_iff (ht : t.IsSound) (hne : names ≠ []) :
    t.find? names = some n ↔ (names, n) ∈ t.entries := by
  refine ⟨fun h => mem_of_find? h hne, fun h => ?_⟩
  rw [find?_of_ne_nil hne]
  cases hfind : t.entries.find? (·.1 == names) with
  | none =>
    have := List.find?_eq_none.1 hfind _ h
    simp at this
  | some e =>
    have hkey := List.find?_some hfind
    rw [beq_iff_eq] at hkey
    have hsame := List.inj_on_of_nodup_map ht.distinct (List.mem_of_find?_eq_some hfind) h hkey
    rw [Option.map_some, hsame]

/-- What leads from a directory to an entry below it are directories. -/
theorem IsSound.find?_below (ht : t.IsSound) (h : (names, n) ∈ t.below top) (hm : m <+: names)
    (hne : m ≠ names) : t.find? (top ++ m) = some .directory := by
  obtain ⟨he, -⟩ := mem_below.1 h
  refine ht.nested _ he _ ((List.prefix_append_right_inj top).2 hm) fun heq => hne ?_
  exact List.append_cancel_left heq

theorem passes_of_directories : ∀ {names here : Names}, (∀ s ∈ names, Fits s) →
    (∀ m, m <+: names → t.find? (here ++ m) = some .directory) → t.Passes here names
  | [], _, _, _ => trivial
  | s :: r, here, hfits, hdirectories => by
    refine ⟨hfits s List.mem_cons_self, .inl ⟨hdirectories [s] (by simp), ?_⟩⟩
    refine passes_of_directories (fun x hx => hfits x (List.mem_cons_of_mem s hx)) fun m hm => ?_
    rw [List.append_assoc]
    exact hdirectories (s :: m) (by simpa using hm)

/-- The directories below a directory are found at the names that lead to them. -/
theorem locate_append (hnames : AreNames (names ++ m)) (hfits : ∀ s ∈ m, Fits s)
    (htop : t.locate (ofNames names) = .ok top)
    (hm : ∀ r, r <+: m → t.find? (top ++ r) = some .directory) :
    t.locate (ofNames (names ++ m)) = .ok (top ++ m) := by
  rw [locate_ofNames hnames.left] at htop
  have hdirectory := hm [] List.nil_prefix
  rw [List.append_nil] at hdirectory
  obtain ⟨left, hleft⟩ := follow_append hdirectory (m.map .name) htop
  rw [locate_ofNames hnames, List.map_append, hleft]
  refine (follow_names fun r hr target hlink => ?_).2 ⟨rfl, passes_of_directories hfits hm⟩
  rw [hm r hr] at hlink
  cases hlink

end Tree

/-- What is wrong with the path at some names. -/
theorem Path.fault?_ofNames {names : Names} (h : AreNames names) :
    (ofNames names).fault? = none ↔
      (∀ s ∈ names, '\x00' ∉ s.toList) ∧ (ofNames names).text.utf8ByteSize < maxSize := by
  have hzero : (ofNames names).text.toList.contains '\x00' = true ↔
      ¬∀ s ∈ names, '\x00' ∉ s.toList := by
    rw [List.contains_iff_mem, text_ofNames h, slashed]
    split_ifs with hnil
    · simp [hnil]
    · simp
  have hne : (ofNames names).text ≠ "" := by
    rw [ne_eq, ← String.toList_inj, text_ofNames h]
    split_ifs with hnil
    · simp
    · obtain ⟨s, r, rfl⟩ := List.exists_cons_of_ne_nil hnil
      simp [slashed]
  unfold fault?
  split_ifs with h0 h1
  · exact iff_of_false (fun h => by cases h) fun h => hzero.1 h0 h.1
  · exact iff_of_false (fun h => by cases h) fun h => absurd h.2 (Nat.not_lt.2 h1)
  · rw [hzero, not_not] at h0
    exact iff_of_true rfl ⟨h0, Nat.not_le.1 h1⟩

namespace Workspace

variable {w : Workspace} {names top m : Names}

theorem hasDirectory_iff {p : Path} : w.hasDirectory p = true ↔ w.node p = .ok .directory := by
  unfold hasDirectory
  cases w.node p with
  | error f => simp
  | ok n => cases n <;> simp [Node.isDirectory]

theorem hasFile_eq_false_of_hasDirectory {p : Path} (h : w.hasDirectory p = true) :
    w.hasFile p = false := by
  unfold hasFile
  rw [hasDirectory_iff.1 h]
  rfl

theorem readText_eq_ok {p : Path} {content : String} (h : w.readText p = .ok content) :
    ∃ data, w.hasFile p = true ∧ w.read p = .ok data ∧ String.fromUTF8? data = some content := by
  unfold readText read at h
  unfold hasFile read
  cases hnode : w.node p with
  | error f =>
    rw [hnode] at h
    cases h
  | ok n =>
    rw [hnode] at h
    cases n with
    | directory => cases h
    | link target => cases h
    | file data executable =>
      dsimp only at h
      cases hcontent : String.fromUTF8? data with
      | none =>
        rw [hcontent] at h
        cases h
      | some text =>
        rw [hcontent] at h
        exact ⟨data, rfl, rfl, hcontent.trans (congrArg some (Except.ok.inj h))⟩

theorem node_ofNames {n : Node} (h : AreNames names) :
    w.node (ofNames names) = .ok n ↔
      (ofNames names).fault? = none ∧ w.tree.node (ofNames names) = .ok n := by
  unfold node
  rw [Path.absolute_of_isAbsolute w (Path.isAbsolute_ofNames h)]
  cases (ofNames names).fault? <;> simp

theorem exists_node_of_hasFile (h : AreNames names) (hfile : w.hasFile (ofNames names) = true) :
    ∃ n, w.tree.node (ofNames names) = .ok n ∧ n.isFile = true := by
  unfold hasFile at hfile
  cases hnode : w.node (ofNames names) with
  | error e =>
    rw [hnode] at hfile
    cases hfile
  | ok n =>
    rw [hnode] at hfile
    exact ⟨n, ((node_ofNames h).1 hnode).2, hfile⟩

/-- **The directories below a directory are there,** as long as the system accepts their paths. -/
theorem hasDirectory_append (hnames : AreNames (names ++ m)) (hfits : ∀ s ∈ m, Tree.Fits s)
    (hbase : w.hasDirectory (ofNames names) = true)
    (htop : w.tree.locate (ofNames names) = .ok top)
    (hm : ∀ r, r <+: m → w.tree.find? (top ++ r) = some .directory)
    (hsize : (ofNames (names ++ m)).text.utf8ByteSize < Path.maxSize) :
    w.hasDirectory (ofNames (names ++ m)) = true := by
  rw [hasDirectory_iff, node_ofNames hnames.left, Path.fault?_ofNames hnames.left] at hbase
  rw [hasDirectory_iff, node_ofNames hnames, Path.fault?_ofNames hnames]
  refine ⟨⟨fun s hs => ?_, hsize⟩, Tree.node_eq_ok.2
    ⟨_, Tree.locate_append hnames hfits htop hm, hm m (List.prefix_refl m)⟩⟩
  rcases List.mem_append.1 hs with hs | hs
  · exact hbase.1.1 s hs
  · exact (hfits s hs).1

end Workspace
end ReleaseLint
