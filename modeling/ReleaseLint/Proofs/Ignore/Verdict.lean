/-
# What is ignored

An entry of a repository is ignored if the last rule that applies to it, or to a directory on
the way to it from the root, does not take back (`ignores_iff_of_load`).

| rule of the file of a directory `d` | applies to |
| --- | --- |
| in Git | what it matches below `d` |
| here | what it matches below `d`, and `d` itself where it matches the empty path |

The two readings differ only if a rule of a nested file matches the empty path, as `*` does.
Then the directory of the file is ignored by its own rule, and what another rule of the file
takes back there stays ignored (`not_isIgnoredBy_of_ownRule`).

Everything below an ignored directory is ignored, since the directories on the way to it are
among those on the way to everything below it (`ignores_append`).
-/

import Mathlib.Data.List.Find
import ReleaseLint.Proofs.Ignore.Loading

namespace ReleaseLint
namespace Ignore

open Path (ofNames)

variable {w : Workspace} {root along q more : Names} {c : Checker} {isDirectory : Bool}
variable {rules : List (Names × Rule)}

/-! ### The last rule -/

/-- Whether a rule that is read from the names `e.1` matches the entry at the names `q`, which
lead to them or beyond. -/
def appliesAt (q : Names) (isDirectory : Bool) (e : Names × Rule) : Bool :=
  e.1.isPrefixOf q && e.2.isMatch ("/".intercalate (q.drop e.1.length)) isDirectory

/-- Whether a rule that is read from the names `e.1` matches the entry at the names `q`, which
lead beyond them. -/
def appliesBelow (q : Names) (isDirectory : Bool) (e : Names × Rule) : Bool :=
  e.1.length < q.length && appliesAt q isDirectory e

/-- Whether the last rule that applies is there and does not take back. -/
def LastExcludes (applies : Names × Rule → Bool) (rules : List (Names × Rule)) : Prop :=
  ∃ e, rules.reverse.find? applies = some e ∧ e.2.reincludes = false

instance (applies : Names × Rule → Bool) (rules : List (Names × Rule)) :
    Decidable (LastExcludes applies rules) :=
  decidable_of_iff ((rules.reverse.find? applies).any (!·.2.reincludes) = true) <| by
    rw [Option.any_eq_true]
    exact exists_congr fun e => and_congr_right fun _ => by rw [Bool.not_eq_true']

/-- Whether the last rule that applies to the entry at the names `q`, or to a directory on the
way to it, does not take back. -/
def IsIgnoredBy (applies : Names → Bool → Names × Rule → Bool) (rules : List (Names × Rule))
    (q : Names) (isDirectory : Bool) : Prop :=
  ∃ m, m <+: q ∧ m ≠ [] ∧ LastExcludes (applies m (m.length < q.length || isDirectory)) rules

instance (applies : Names → Bool → Names × Rule → Bool) (rules : List (Names × Rule))
    (q : Names) (isDirectory : Bool) : Decidable (IsIgnoredBy applies rules q isDirectory) :=
  decidable_of_iff (∃ m ∈ q.inits, m ≠ [] ∧
      LastExcludes (applies m (m.length < q.length || isDirectory)) rules) <|
    exists_congr fun m => by rw [List.mem_inits]

/-- The last of what the lists find last is what they find last together. -/
theorem getLast?_filterMap_find? {α β : Type} (p : α → Bool) (f : α → β) (lists : List (List α)) :
    (lists.filterMap fun l => (l.reverse.find? p).map f).getLast? =
      (lists.flatten.reverse.find? p).map f := by
  induction lists using List.reverseRecOn with
  | nil => rfl
  | append_singleton lists l ih =>
    rw [List.filterMap_append, List.flatten_append, List.reverse_append, List.find?_append,
      List.flatten_singleton]
    cases hl : l.reverse.find? p with
    | none =>
      rw [List.filterMap_cons_none (by rw [hl]; rfl), List.filterMap_nil, List.append_nil, ih,
        Option.none_or]
    | some a =>
      rw [List.filterMap_cons_some (by rw [hl]; rfl), List.filterMap_nil, List.getLast?_concat,
        Option.some_or]
      rfl

theorem verdict?_sourceAt (h : AreNames (root ++ q)) {e : Names × Names}
    (he : AreNames (root ++ e.1)) {s : Source} (hs : sourceAt w root e = some s) :
    s.verdict? (ofNames (root ++ q)) isDirectory =
      ((s.rules.map fun r => (e.1, r)).reverse.find? (appliesAt q isDirectory)).map
        (!·.2.reincludes) := by
  have hdirectory : s.directory = ofNames (root ++ e.1) := by
    unfold sourceAt at hs
    split_ifs at hs
    rw [← Option.some.inj hs]
    rfl
  have htexts : (((q.drop e.1.length).map Segment.name).map (·.text)) = q.drop e.1.length := by
    rw [List.map_map]
    exact List.map_id _
  unfold Source.verdict?
  rw [hdirectory, below?_append h he, ← List.map_reverse, List.find?_map, Option.map_map]
  by_cases hpre : e.1 <+: q
  · have happlies : (appliesAt q isDirectory ∘ fun r => (e.1, r)) =
        fun r => r.isMatch ("/".intercalate (q.drop e.1.length)) isDirectory := by
      funext r
      show (e.1.isPrefixOf q && _) = _
      rw [List.isPrefixOf_iff_prefix.2 hpre, Bool.true_and]
    rw [if_pos hpre, happlies, Option.bind_eq_bind, Option.bind_some, htexts]
    dsimp only
    cases s.rules.reverse.find? _ with
    | none => rfl
    | some r => rfl
  · have happlies : (appliesAt q isDirectory ∘ fun r => (e.1, r)) = fun _ => false := by
      funext r
      show (e.1.isPrefixOf q && _) = _
      rw [Bool.eq_false_iff.2 (List.isPrefixOf_iff_prefix.not.2 hpre), Bool.false_and]
    rw [if_neg hpre, happlies, List.find?_eq_none.2 (by simp)]
    rfl

theorem areNames_filesAlong (h : AreNames (root ++ along)) {e : Names × Names}
    (he : e ∈ filesAlong along) : AreNames (root ++ e.1) := by
  rcases List.mem_cons.1 he with rfl | he
  · exact h.left.append .nil
  · obtain ⟨d, hd, rfl⟩ := List.mem_map.1 he
    obtain ⟨r, rfl⟩ := (List.mem_inits d along).1 hd
    rw [← List.append_assoc] at h
    exact h.left

/-- **The last rule of all files decides about an entry.** -/
theorem isExcluded_iff (h : AreNames (root ++ along)) (hq : AreNames (root ++ q))
    (hc : c = ⟨ofNames root, (filesAlong along).filterMap (sourceAt w root)⟩) :
    c.isExcluded (ofNames (root ++ q)) isDirectory = true ↔
      LastExcludes (appliesAt q isDirectory) (rulesAlong w root along) := by
  have hverdicts : c.sources.filterMap (·.verdict? (ofNames (root ++ q)) isDirectory) =
      ((filesAlong along).map fun e => ((sourceAt w root e).map (·.rules)).getD [] |>.map
        fun r => (e.1, r)).filterMap fun l =>
          (l.reverse.find? (appliesAt q isDirectory)).map (!·.2.reincludes) := by
    rw [hc, List.filterMap_filterMap, List.filterMap_map]
    refine List.filterMap_congr fun e he => ?_
    cases hs : sourceAt w root e with
    | none => simp [hs]
    | some s =>
      rw [Option.bind_some, verdict?_sourceAt hq (areNames_filesAlong h he) hs]
      simp [hs]
  unfold Checker.isExcluded LastExcludes rulesAlong
  rw [hverdicts, getLast?_filterMap_find?, ← List.flatMap_def]
  cases List.find? (appliesAt q isDirectory) _ with
  | none => simp
  | some e => simp

/-! ### What lies below -/

theorem isExcludedBelow_iff (hroot : c.root = ofNames root) (h : AreNames (root ++ q)) :
    c.isExcludedBelow (q.map .name).reverse isDirectory = true ↔
      ∃ m, m <+: q ∧ m ≠ [] ∧
        c.isExcluded (ofNames (root ++ m)) (m.length < q.length || isDirectory) = true := by
  induction q using List.reverseRecOn generalizing isDirectory with
  | nil =>
    refine iff_of_false Bool.false_ne_true ?_
    rintro ⟨m, hm, hne, -⟩
    exact hne (List.prefix_nil.1 hm)
  | append_singleton q s ih =>
    rw [← List.append_assoc] at h
    have hpath : Path.ofSegments (c.root.segments ++ (Segment.name s ::
        (q.map Segment.name).reverse).reverse) = ofNames (root ++ (q ++ [s])) := by
      have hsegments : c.root.segments ++ (Segment.name s :: (q.map Segment.name).reverse).reverse =
          .root :: (root ++ (q ++ [s])).map .name := by
        rw [hroot, Path.segments_ofNames h.left.left]
        simp
      rw [hsegments]
      exact Path.along_root ⟨""⟩ _
    rw [List.map_append, List.reverse_append, List.map_singleton, List.reverse_singleton,
      List.singleton_append, Checker.isExcludedBelow, hpath, Bool.or_eq_true, ih h.left]
    constructor
    · rintro (hself | ⟨m, hm, hne, habove⟩)
      · refine ⟨q ++ [s], List.prefix_refl _, List.concat_ne_nil _ _, ?_⟩
        rwa [decide_eq_false (Nat.lt_irrefl _), Bool.false_or]
      · have hlt : m.length < (q ++ [s]).length := by
          have := hm.length_le
          rw [List.length_append, List.length_singleton]
          omega
        refine ⟨m, hm.trans (List.prefix_append q [s]), hne, ?_⟩
        rw [Bool.or_true] at habove
        rw [decide_eq_true hlt, Bool.true_or]
        exact habove
    · rintro ⟨m, hm, hne, hexcluded⟩
      rcases List.prefix_concat_iff.1 hm with rfl | hm
      · rw [decide_eq_false (Nat.lt_irrefl _), Bool.false_or] at hexcluded
        exact .inl hexcluded
      · have hlt : m.length < (q ++ [s]).length := by
          have := hm.length_le
          rw [List.length_append, List.length_singleton]
          omega
        rw [decide_eq_true hlt, Bool.true_or] at hexcluded
        exact .inr ⟨m, hm, hne, by rwa [Bool.or_true]⟩

theorem isExcludedBelow_append {back : List Segment} (h : c.isExcludedBelow back true = true)
    (x : Segment) (front : List Segment) (isDirectory : Bool) :
    c.isExcludedBelow (x :: front ++ back) isDirectory = true := by
  induction front generalizing x isDirectory with
  | nil => rw [List.singleton_append, Checker.isExcludedBelow, h, Bool.or_true]
  | cons y front ih =>
    rw [List.cons_append, Checker.isExcludedBelow, ih y true, Bool.or_true]

/-- **What lies below an ignored directory is ignored.** -/
theorem ignores_append (h : AreNames (q ++ more)) (hdirectory : w.hasDirectory (ofNames q) = true)
    (hignored : c.ignores w (ofNames q) = true) : c.ignores w (ofNames (q ++ more)) = true := by
  rcases List.eq_nil_or_concat more with rfl | ⟨more, s, rfl⟩
  · rwa [List.append_nil]
  rw [List.concat_eq_append] at h ⊢
  unfold Checker.ignores at hignored ⊢
  rw [Path.absolutize_ofNames w h.left] at hignored
  rw [Path.absolutize_ofNames w h]
  dsimp only at hignored ⊢
  unfold Path.below? at hignored ⊢
  rw [Path.segments_ofNames h.left] at hignored
  rw [Path.segments_ofNames h]
  split_ifs at hignored with hpre
  · rw [List.isPrefixOf_iff_prefix] at hpre
    have hpre' : c.root.segments <+: .root :: (q ++ (more ++ [s])).map .name := by
      rw [List.map_append]
      exact hpre.trans (List.prefix_append _ _)
    rw [if_pos (List.isPrefixOf_iff_prefix.2 hpre')]
    dsimp only
    rw [hdirectory] at hignored
    rw [List.map_append, ← List.cons_append, List.drop_append_of_le_length hpre.length_le,
      List.reverse_append, List.map_append, List.map_singleton, List.reverse_append,
      List.reverse_singleton]
    exact isExcludedBelow_append hignored _ _ _

/-- Nothing outside of the repository is ignored. -/
theorem ignores_outside (hroot : c.root = ofNames root) (h : AreNames root) (hq : AreNames q)
    (hout : ¬root <+: q) : c.ignores w (ofNames q) = false := by
  unfold Checker.ignores
  rw [Path.absolutize_ofNames w hq]
  dsimp only
  rw [hroot, below?_ofNames hq h, if_neg hout]

/-! ### Both readings -/

/-- A rule that applies to what is not the root applies below the directory of its file, unless
it matches the empty path. -/
theorem appliesBelow_eq (hown : ∀ e ∈ rules, e.1 ≠ [] → e.2.isMatch "" true = false)
    (hq : q ≠ []) {e : Names × Rule} (he : e ∈ rules) :
    appliesBelow q isDirectory e = appliesAt q isDirectory e := by
  unfold appliesBelow
  by_cases hlt : e.1.length < q.length
  · rw [decide_eq_true hlt, Bool.true_and]
  · rw [decide_eq_false hlt, Bool.false_and, eq_comm, Bool.eq_false_iff]
    intro happlies
    unfold appliesAt at happlies
    rw [Bool.and_eq_true, List.isPrefixOf_iff_prefix] at happlies
    obtain ⟨hpre, hmatch⟩ := happlies
    obtain heq : e.1 = q := hpre.eq_of_length_le (Nat.le_of_not_lt hlt)
    rw [heq, List.drop_length, String.intercalate_nil] at hmatch
    unfold Rule.isMatch at hmatch
    rw [Bool.and_eq_true] at hmatch
    have hempty := hown e he (heq ▸ hq)
    unfold Rule.isMatch at hempty
    rw [hmatch.2] at hempty
    cases hempty

theorem isIgnoredBy_below_iff (hown : ∀ e ∈ rules, e.1 ≠ [] → e.2.isMatch "" true = false) :
    IsIgnoredBy appliesBelow rules q isDirectory ↔ IsIgnoredBy appliesAt rules q isDirectory := by
  unfold IsIgnoredBy LastExcludes
  refine exists_congr fun m => and_congr_right fun _ => and_congr_right fun hne => ?_
  rw [List.find?_congr fun e he => appliesBelow_eq hown hne (List.mem_reverse.1 he)]

theorem ignores_iff (h : AreNames (root ++ along))
    (hc : c = ⟨ofNames root, (filesAlong along).filterMap (sourceAt w root)⟩) {p : Path}
    (hq : AreNames (root ++ q)) (hp : w.absolutize p = ofNames (root ++ q)) :
    c.ignores w p = true ↔ IsIgnoredBy appliesAt (rulesAlong w root along) q
      (w.hasDirectory (ofNames (root ++ q))) := by
  have hroot : c.root = ofNames root := by rw [hc]
  have hbelow : (ofNames (root ++ q)).below? c.root = some (q.map .name) := by
    rw [hroot, below?_ofNames hq h.left, if_pos (List.prefix_append root q), List.drop_left]
  unfold Checker.ignores
  dsimp only
  rw [hp, hbelow]
  dsimp only
  rw [isExcludedBelow_iff hroot hq]
  refine exists_congr fun m => and_congr_right fun hm => and_congr_right fun _ => ?_
  obtain ⟨r, rfl⟩ := hm
  rw [← List.append_assoc] at hq
  exact isExcluded_iff h hq.left hc

/-- **What a loaded checker ignores**: the entries of the repository to which the last rule that
applies, or applies to a directory on the way to them, does not take back.  This is Git's
reading if no rule of a nested file matches the empty path. -/
theorem ignores_iff_of_load {base : Path} (hw : w.directory.isAbsolute = true)
    (h : Checker.load w base = .ok (some c)) :
    ∃ root along, AreNames (root ++ along) ∧ w.absolutize base = ofNames (root ++ along) ∧
      IsRootOf w root along ∧
      (∀ p q, AreNames (root ++ q) → w.absolutize p = ofNames (root ++ q) →
        (c.ignores w p = true ↔ IsIgnoredBy appliesAt (rulesAlong w root along) q
          (w.hasDirectory (ofNames (root ++ q)))) ∧
        ((∀ e ∈ rulesAlong w root along, e.1 ≠ [] → e.2.isMatch "" true = false) →
          (c.ignores w p = true ↔ IsIgnoredBy appliesBelow (rulesAlong w root along) q
            (w.hasDirectory (ofNames (root ++ q)))))) ∧
      (∀ d more, AreNames (d ++ more) → w.hasDirectory (ofNames d) = true →
        c.ignores w (ofNames d) = true → c.ignores w (ofNames (d ++ more)) = true) ∧
      ∀ p names, AreNames names → w.absolutize p = ofNames names → ¬root <+: names →
        c.ignores w p = false := by
  obtain ⟨root, along, hnames, hbase, hisRoot, hc⟩ := load_eq_ok hw h
  have hverdict {p : Path} {q : Names} (hq : AreNames (root ++ q))
      (hp : w.absolutize p = ofNames (root ++ q)) := ignores_iff hnames hc hq hp
  refine ⟨root, along, hnames, hbase, hisRoot, fun p q hq hp => ⟨hverdict hq hp, fun hown => ?_⟩,
    fun d more hd hdirectory => ignores_append hd hdirectory, fun p names hp hsame hout => ?_⟩
  · rw [hverdict hq hp, isIgnoredBy_below_iff hown]
  · have hignores : c.ignores w p = c.ignores w (ofNames names) := by
      unfold Checker.ignores
      rw [hsame, Path.absolutize_ofNames w hp]
    rw [hignores]
    exact ignores_outside (by rw [hc]) hnames.left hp hout

/-- A repository at `/r` with these files in the directory `m`. -/
def repository (files : List (String × String)) : Workspace where
  tree := ⟨[(["r"], .directory), (["r", ".git"], .directory), (["r", "m"], .directory)] ++
    files.map fun e => (["r", "m", e.1], .file e.2.toUTF8 false)⟩
  directory := ⟨"/r"⟩

/-- A nested file that ignores logs but for one. -/
def logRepository : Workspace :=
  repository [(".gitignore", "*.log\n!keep.log\n"), ("a.log", ""), ("keep.log", "")]

/-- A nested file that ignores all but one manifest. -/
def keepRepository : Workspace :=
  repository [(".gitignore", "*\n!keep.yaml\n"), ("keep.yaml", "x")]

/-- What is asked of a loaded checker. -/
theorem exists_load_iff {base : Path} {p : Checker → Bool} :
    (∃ c, Checker.load w base = .ok (some c) ∧ p c = true) ↔
      ((Checker.load w base).toOption.bind id).any p = true := by
  cases h : Checker.load w base with
  | error e => simp [Except.toOption]
  | ok o => cases o <;> simp [Except.toOption]

theorem ignores_logRepository : ∃ c, Checker.load logRepository ⟨"m"⟩ = .ok (some c) ∧
    c.ignores logRepository ⟨"m/a.log"⟩ = true ∧
    ¬c.ignores logRepository ⟨"m/keep.log"⟩ = true := by
  obtain ⟨c, hc, -⟩ := exists_load_iff.2
    (show ((Checker.load logRepository ⟨"m"⟩).toOption.bind id).any (fun _ => true) = true by
      decide +kernel)
  refine ⟨c, hc, ?_⟩
  obtain ⟨root, along, hrooted, hbase, hisRoot, hiff, -⟩ :=
    ignores_iff_of_load (show logRepository.directory.isAbsolute = true by decide) hc
  have hsame : root ++ along = ["r"] ++ ["m"] :=
    (Path.ofNames_inj hrooted (by decide)).1 (hbase.symm.trans (by decide +kernel))
  obtain rfl : root = ["r"] := hisRoot.eq (by decide +kernel) hsame
  obtain rfl : along = ["m"] := List.append_cancel_left hsame
  have hown : ∀ e ∈ rulesAlong logRepository ["r"] ["m"], e.1 ≠ [] → e.2.isMatch "" true = false := by
    decide +kernel
  constructor
  · rw [(hiff _ ["m", "a.log"] (by decide) (by decide +kernel)).2 hown]
    decide +kernel
  · rw [(hiff _ ["m", "keep.log"] (by decide) (by decide +kernel)).2 hown]
    decide +kernel

theorem not_isIgnoredBy_of_ownRule : ∃ c, Checker.load keepRepository ⟨"m"⟩ = .ok (some c) ∧
    IsRootOf keepRepository ["r"] ["m"] ∧ c.ignores keepRepository ⟨"m/keep.yaml"⟩ = true ∧
    ¬IsIgnoredBy appliesBelow (rulesAlong keepRepository ["r"] ["m"]) ["m", "keep.yaml"] false := by
  obtain ⟨c, hc, hignored⟩ := exists_load_iff.2
    (show ((Checker.load keepRepository ⟨"m"⟩).toOption.bind id).any
      (fun c => c.ignores keepRepository ⟨"m/keep.yaml"⟩) = true by decide +kernel)
  exact ⟨c, hc, by decide +kernel, hignored, by decide +kernel⟩

end Ignore
end ReleaseLint
