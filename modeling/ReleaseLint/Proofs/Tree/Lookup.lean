/-
# Looking paths up in a tree

What `put` and `remove` leave at each entry (`find?_put`, `find?_remove`), and where the
segments of a path lead.

Following `q ++ r` is following `q` first: if `q` leads to a directory, the rest starts
there (`follow_append`), and if the whole leads somewhere, so does `q`
(`follow_isOk_of_append`).  A stretch of names without links is followed name by name:
it either arrives at exactly those names or is refused (`follow_names`), and it arrives
precisely when every entry on the way is there (`Passes`).
-/

import ReleaseLint.Tree
import Mathlib.Data.List.Infix
import Mathlib.Tactic.SplitIfs

namespace ReleaseLint
namespace Tree

variable {t t' : Tree} {names m here : Names} {n : Node} {s : String}

@[simp]
theorem find?_nil (t : Tree) : t.find? [] = some .directory := rfl

theorem find?_of_ne_nil (h : names ≠ []) :
    t.find? names = (t.entries.find? (·.1 == names)).map (·.2) := by
  unfold find?
  rw [if_neg (by simpa using h)]

/-- No link stands anywhere if no entry is one. -/
theorem find?_ne_link (h : ∀ e ∈ t.entries, (e.2.isFile || e.2.isDirectory) = true)
    (names : Names) (target : Path) : t.find? names ≠ some (.link target) := by
  intro hlink
  by_cases hne : names = []
  · rw [hne, find?_nil] at hlink
    cases hlink
  · rw [find?_of_ne_nil hne, Option.map_eq_some_iff] at hlink
    obtain ⟨e, he, hnode⟩ := hlink
    have hplain := h e (List.mem_of_find?_eq_some he)
    rw [hnode] at hplain
    cases hplain

/-- What stands at each entry after `put`. -/
theorem find?_put (h : names ≠ []) :
    (t.put names n).find? m = if m = names then some n else t.find? m := by
  by_cases hm : m = []
  · rw [hm, find?_nil, find?_nil, if_neg (Ne.symm h)]
  rw [find?_of_ne_nil hm, find?_of_ne_nil hm]
  unfold put
  split_ifs with hany heq heq
  · obtain ⟨e, he, hen⟩ := List.any_eq_true.1 hany
    rw [heq, List.find?_map, Option.map_map]
    have hcongr : (fun e : Names × Node => e.1 == names) ∘
        (fun e => if e.1 == names then (names, n) else e) = fun e => e.1 == names := by
      funext e
      by_cases h : e.1 = names <;> simp [h]
    rw [hcongr]
    cases hf : t.entries.find? (·.1 == names) with
    | none => exact absurd hen (by simpa using List.find?_eq_none.1 hf e he)
    | some f =>
      have := List.find?_some hf
      simp_all
  · rw [List.find?_map, Option.map_map]
    have hcongr : (fun e : Names × Node => e.1 == m) ∘
        (fun e => if e.1 == names then (names, n) else e) = fun e => e.1 == m := by
      funext e
      by_cases h : e.1 = names
      · simp [h]
      · simp [h]
    rw [hcongr]
    cases hf : t.entries.find? (·.1 == m) with
    | none => rfl
    | some f =>
      have h1 := List.find?_some hf
      simp only [beq_iff_eq] at h1
      simp [h1, heq]
  · have hnone : t.entries.find? (·.1 == names) = none := by
      rw [List.find?_eq_none]
      intro e he hen
      exact hany (List.any_eq_true.2 ⟨e, he, hen⟩)
    rw [heq, List.find?_append, hnone]
    simp
  · have : (names == m) = false := by simpa using Ne.symm heq
    rw [List.find?_append]
    simp [this]

/-- What stands at each entry after `remove`. -/
theorem find?_remove (h : names ≠ []) :
    (t.remove names).find? m = if names <+: m then none else t.find? m := by
  by_cases hm : m = []
  · rw [hm, find?_nil, find?_nil, if_neg]
    exact fun hp => h (List.prefix_nil.1 hp)
  rw [find?_of_ne_nil hm, find?_of_ne_nil hm]
  unfold remove
  rw [List.find?_filter]
  split_ifs with hp
  · rw [Option.map_eq_none_iff, List.find?_eq_none]
    intro e _ he
    simp only [Bool.not_eq_true', beq_iff_eq, decide_eq_true_eq] at he
    exact absurd (List.isPrefixOf_iff_prefix.2 (he.2 ▸ hp)) (by rw [he.1]; decide)
  · congr 2
    funext e
    by_cases he : e.1 = m
    · have : names.isPrefixOf m = false := by
        rw [← Bool.not_eq_true, List.isPrefixOf_iff_prefix]
        exact hp
      simp [he, this]
    · simp [he]

/-- An entry that is put where there was none, with nothing below it, leaves no trace
when it is removed. -/
theorem remove_put (h : ∀ e ∈ t.entries, ¬names <+: e.1) : (t.put names n).remove names = t := by
  have hany : t.entries.any (·.1 == names) = false := by
    rw [List.any_eq_false]
    intro e he hen
    exact h e he (by rw [beq_iff_eq.1 hen])
  unfold put remove
  rw [hany]
  simp only [Bool.false_eq_true, if_false, List.filter_append]
  have hkeep : t.entries.filter (fun e => !names.isPrefixOf e.1) = t.entries := by
    rw [List.filter_eq_self]
    intro e he
    rw [Bool.not_eq_true', ← Bool.not_eq_true, List.isPrefixOf_iff_prefix]
    exact h e he
  rw [hkeep]
  simp

/-- Putting twice at one place is putting once. -/
theorem put_put (n n' : Node) : (t.put names n).put names n' = t.put names n' := by
  unfold put
  by_cases hany : t.entries.any (·.1 == names) = true
  · simp only [hany, if_true]
    have : (t.entries.map fun e => if e.1 == names then (names, n) else e).any (·.1 == names) =
        true := by
      obtain ⟨e, he, hen⟩ := List.any_eq_true.1 hany
      exact List.any_eq_true.2 ⟨_, List.mem_map_of_mem he, by simp [hen]⟩
    rw [if_pos this, List.map_map]
    congr 2
    funext e
    by_cases h : e.1 = names <;> simp [h]
  · have hany' : t.entries.any (·.1 == names) = false := Bool.not_eq_true _ ▸ hany
    simp only [hany', Bool.false_eq_true, if_false, List.any_append, List.any_cons, List.any_nil,
      beq_self_eq_true, Bool.or_true, Bool.true_or, if_true, List.map_append, List.map_cons,
      List.map_nil, Tree.mk.injEq]
    congr 1
    refine (List.map_congr_left fun e he => ?_).trans (List.map_id _)
    have : (e.1 == names) = false := Bool.not_eq_true _ ▸ List.any_eq_false.1 hany' e he
    rw [this]
    rfl

/-! ### Following segments -/

/-- Whether a name may stand in a tree. -/
def Fits (s : String) : Prop :=
  '\x00' ∉ s.toList ∧ s.utf8ByteSize ≤ 255

instance (s : String) : Decidable (Fits s) :=
  inferInstanceAs (Decidable ('\x00' ∉ s.toList ∧ s.utf8ByteSize ≤ 255))

theorem advance_of_fits {r : List Segment} (h : Fits s) :
    advance t here (.name s :: r) =
      match t.find? (here ++ [s]) with
      | none => .refused .notFound
      | some .directory => advance t (here ++ [s]) r
      | some (.file ..) => if r.isEmpty then .arrived (here ++ [s]) else .refused .notADirectory
      | some (.link target) => .met here target r := by
  have h1 : ¬s.toList.contains '\x00' = true := by simpa using h.1
  have h2 : ¬255 < s.utf8ByteSize := Nat.not_lt.2 h.2
  exact (if_neg h1).trans (if_neg h2)

theorem advance_of_not_fits (t : Tree) (here : Names) (h : ¬Fits s) :
    ∃ f, ∀ r, advance t here (.name s :: r) = .refused f := by
  by_cases h1 : s.toList.contains '\x00' = true
  · exact ⟨.zeroInName, fun r => by rw [advance, if_pos h1]⟩
  · refine ⟨.nameTooLong, fun r => ?_⟩
    have h2 : 255 < s.utf8ByteSize := by
      by_contra h2
      exact h ⟨by simpa using h1, by omega⟩
    rw [advance, if_neg h1, if_pos h2]

theorem follow_eq (t : Tree) (links : Nat) (here : Names) (q : List Segment) :
    t.follow links here q =
      match advance t here q with
      | .arrived names => .ok names
      | .refused f => .error f
      | .met here target rest =>
        match links with
        | 0 => .error .tooManyLinks
        | links + 1 => t.follow links here (route target ++ rest) := by
  exact (follow.eq_def t links here q).trans rfl

theorem advance_append_of_refused {f : SystemFault} {q : List Segment} (r : List Segment) :
    ∀ {here}, advance t here q = .refused f → advance t here (q ++ r) = .refused f := by
  induction q with
  | nil => intro here h; cases h
  | cons x q ih =>
    intro here h
    cases x with
    | root => exact ih h
    | here => exact ih h
    | parent => exact ih h
    | name s =>
      rw [List.cons_append]
      by_cases hs : Fits s
      · rw [advance_of_fits hs] at h ⊢
        cases hf : t.find? (here ++ [s]) with
        | none => rw [hf] at h; exact h
        | some n =>
          rw [hf] at h
          cases n with
          | directory => exact ih h
          | link target => cases h
          | file d x =>
            cases q with
            | nil => cases h
            | cons y q => exact h
      · obtain ⟨f', hf'⟩ := advance_of_not_fits t here hs
        rw [hf'] at h ⊢
        exact h

theorem advance_append_of_met {target : Path} {rest q : List Segment} (r : List Segment) :
    ∀ {here}, advance t here q = .met m target rest →
      advance t here (q ++ r) = .met m target (rest ++ r) := by
  induction q with
  | nil => intro here h; cases h
  | cons x q ih =>
    intro here h
    cases x with
    | root => exact ih h
    | here => exact ih h
    | parent => exact ih h
    | name s =>
      rw [List.cons_append]
      by_cases hs : Fits s
      · rw [advance_of_fits hs] at h ⊢
        cases hf : t.find? (here ++ [s]) with
        | none => rw [hf] at h; cases h
        | some n =>
          rw [hf] at h
          cases n with
          | directory => exact ih h
          | link target =>
            obtain ⟨rfl, rfl, rfl⟩ := Progress.met.inj h
            rfl
          | file d x => cases q <;> cases h
      · obtain ⟨f, hf⟩ := advance_of_not_fits t here hs
        rw [hf] at h
        cases h

theorem advance_append_of_arrived {q : List Segment} (r : List Segment)
    (hm : t.find? m = some .directory) :
    ∀ {here}, advance t here q = .arrived m → advance t here (q ++ r) = advance t m r := by
  induction q with
  | nil =>
    intro here h
    obtain rfl := Progress.arrived.inj h
    rfl
  | cons x q ih =>
    intro here h
    cases x with
    | root => exact ih h
    | here => exact ih h
    | parent => exact ih h
    | name s =>
      rw [List.cons_append]
      by_cases hs : Fits s
      · rw [advance_of_fits hs] at h ⊢
        cases hf : t.find? (here ++ [s]) with
        | none => rw [hf] at h; cases h
        | some n =>
          rw [hf] at h
          cases n with
          | directory => exact ih h
          | link target => cases h
          | file d x =>
            -- a file is arrived at only where the directory `m` stands
            cases q with
            | nil =>
              obtain rfl := Progress.arrived.inj h
              rw [hm] at hf
              cases hf
            | cons y q => cases h
      · obtain ⟨f, hf⟩ := advance_of_not_fits t here hs
        rw [hf] at h
        cases h

/-- **Following a list is following its beginning first,** when that leads to a
directory; links met on the way there are used up. -/
theorem follow_append (hm : t.find? m = some .directory) (r : List Segment) :
    ∀ {links : Nat} {here : Names} {q : List Segment}, t.follow links here q = .ok m →
      ∃ left, t.follow links here (q ++ r) = t.follow left m r
  | links, here, q, h => by
    rw [follow_eq] at h
    cases ha : advance t here q with
    | arrived m' =>
      rw [ha] at h
      obtain rfl : m' = m := Except.ok.inj h
      refine ⟨links, ?_⟩
      rw [follow_eq, advance_append_of_arrived r hm ha, ← follow_eq]
    | refused f => rw [ha] at h; cases h
    | met here' target rest =>
      rw [ha] at h
      cases links with
      | zero => cases h
      | succ links =>
        obtain ⟨left, hl⟩ := follow_append hm r (show t.follow links here' _ = .ok m from h)
        refine ⟨left, ?_⟩
        rw [follow_eq, advance_append_of_met r ha]
        rw [List.append_assoc] at hl
        exact hl

/-- A list that leads somewhere leads somewhere already with its end left off. -/
theorem follow_isOk_of_append (r : List Segment) :
    ∀ {links : Nat} {here : Names} {q : List Segment}, t.follow links here (q ++ r) = .ok m →
      ∃ m', t.follow links here q = .ok m'
  | links, here, q, h => by
    rw [follow_eq] at h ⊢
    cases ha : advance t here q with
    | arrived m' => exact ⟨m', rfl⟩
    | refused f =>
      rw [advance_append_of_refused r ha] at h
      cases h
    | met here' target rest =>
      rw [advance_append_of_met r ha] at h
      cases links with
      | zero => cases h
      | succ links =>
        exact follow_isOk_of_append r (q := route target ++ rest)
          (by rw [List.append_assoc]; exact h)

/-- Every list of names that begins `here` is a directory. -/
def Rooted (t : Tree) (here : Names) : Prop :=
  ∀ m, m <+: here → t.find? m = some .directory

theorem rooted_nil (t : Tree) : t.Rooted [] := by
  intro m hm
  rw [List.prefix_nil.1 hm, find?_nil]

theorem Rooted.concat (h : t.Rooted here) (hs : t.find? (here ++ [s]) = some .directory) :
    t.Rooted (here ++ [s]) := by
  intro m hm
  rcases List.prefix_concat_iff.1 hm with rfl | hm
  · exact hs
  · exact h m hm

theorem Rooted.dropLast (h : t.Rooted here) : t.Rooted here.dropLast :=
  fun m hm => h m (hm.trans (List.dropLast_prefix here))

theorem Rooted.find? (h : t.Rooted here) : t.find? here = some .directory :=
  h here (List.prefix_refl here)

/-- What a walk from a rooted directory comes to is there. -/
theorem advance_rooted {q : List Segment} : ∀ {here}, t.Rooted here →
    match advance t here q with
    | .arrived m => ∃ n, t.find? m = some n
    | .met m _ _ => t.Rooted m
    | .refused _ => True := by
  induction q with
  | nil => intro here h; exact ⟨_, h.find?⟩
  | cons x q ih =>
    intro here h
    cases x with
    | root => exact ih (rooted_nil t)
    | here => exact ih h
    | parent => exact ih h.dropLast
    | name s =>
      by_cases hs : Fits s
      · rw [advance_of_fits hs]
        cases hf : t.find? (here ++ [s]) with
        | none => trivial
        | some n =>
          cases n with
          | directory => exact ih (h.concat hf)
          | link target => exact h
          | file d x =>
            cases q with
            | nil => exact ⟨_, hf⟩
            | cons y q => trivial
      · obtain ⟨f, hf⟩ := advance_of_not_fits t here hs
        rw [hf]
        trivial

theorem follow_found : ∀ {links : Nat} {here : Names} {q : List Segment}, t.Rooted here →
    t.follow links here q = .ok m → ∃ n, t.find? m = some n
  | links, here, q, hr, h => by
    have ha := advance_rooted (q := q) hr
    rw [follow_eq] at h
    cases hq : advance t here q with
    | arrived m' =>
      rw [hq] at h ha
      obtain rfl : m' = m := Except.ok.inj h
      exact ha
    | refused f => rw [hq] at h; cases h
    | met here' target rest =>
      rw [hq] at h ha
      cases links with
      | zero => cases h
      | succ links => exact follow_found (show t.Rooted here' from ha) h

/-- Names lead from a directory to an entry through directories. -/
def Passes (t : Tree) : (here : Names) → List String → Prop
  | _, [] => True
  | here, s :: r =>
    Fits s ∧ ((t.find? (here ++ [s]) = some .directory ∧ Passes t (here ++ [s]) r) ∨
      (r = [] ∧ ∃ d x, t.find? (here ++ [s]) = some (.file d x)))

/-- No link stands at the names that lead on from a directory. -/
def Linkless (t : Tree) (here : Names) (names : List String) : Prop :=
  ∀ m, m <+: names → ∀ target, t.find? (here ++ m) ≠ some (.link target)

theorem Linkless.tail {r : List String} (h : t.Linkless here (s :: r)) :
    t.Linkless (here ++ [s]) r := by
  intro m hm target
  have := h (s :: m) (by simpa using hm) target
  rwa [List.append_assoc]

/-- **Names without links are followed one by one.** -/
theorem advance_names : ∀ {names : List String} {here : Names}, t.Linkless here names →
    (t.Passes here names ∧ advance t here (names.map .name) = .arrived (here ++ names)) ∨
      ¬t.Passes here names ∧ ∃ f, advance t here (names.map .name) = .refused f
  | [], here, _ => .inl ⟨trivial, by simp [advance]⟩
  | s :: r, here, h => by
    have hlink := h [s] (by simp)
    have ih := advance_names h.tail
    rw [List.map_cons, Passes]
    by_cases hs : Fits s
    · rw [advance_of_fits hs]
      cases hf : t.find? (here ++ [s]) with
      | none =>
        refine .inr ⟨?_, _, rfl⟩
        rintro ⟨-, ⟨hd, -⟩ | ⟨-, d, x, hd⟩⟩ <;> cases hd
      | some n =>
        cases n with
        | link target => exact absurd hf (hlink target)
        | directory =>
          rw [List.append_cons here s r]
          rcases ih with ⟨hp, ha⟩ | ⟨hp, f, ha⟩
          · exact .inl ⟨⟨hs, .inl ⟨rfl, hp⟩⟩, ha⟩
          · refine .inr ⟨?_, f, ha⟩
            rintro ⟨-, ⟨-, hd⟩ | ⟨-, d, x, hd⟩⟩
            · exact hp hd
            · cases hd
        | file d x =>
          cases r with
          | nil => exact .inl ⟨⟨hs, .inr ⟨rfl, d, x, rfl⟩⟩, rfl⟩
          | cons a r =>
            refine .inr ⟨?_, .notADirectory, rfl⟩
            rintro ⟨-, ⟨hd, -⟩ | ⟨hd, -⟩⟩ <;> cases hd
    · obtain ⟨f, hf⟩ := advance_of_not_fits t here hs
      exact .inr ⟨fun hp => hs hp.1, f, hf _⟩

theorem follow_names {links : Nat} (h : t.Linkless here names) :
    t.follow links here (names.map .name) = .ok m ↔ m = here ++ names ∧ t.Passes here names := by
  rw [follow_eq]
  rcases advance_names h with ⟨hp, ha⟩ | ⟨hp, f, ha⟩
  · rw [ha]
    simp only [Except.ok.injEq]
    exact ⟨fun h => ⟨h.symm, hp⟩, fun h => h.1.symm⟩
  · rw [ha]
    simp [hp]

/-- Names that pass still pass when directories stay directories and files stay files. -/
theorem Passes.mono : ∀ {names : List String} {here : Names}, t.Passes here names →
    (∀ m, m <+: names → t.find? (here ++ m) = some .directory →
      t'.find? (here ++ m) = some .directory) →
    (∀ d x, t.find? (here ++ names) = some (.file d x) →
      ∃ d' x', t'.find? (here ++ names) = some (.file d' x')) →
    t'.Passes here names
  | [], _, _, _, _ => trivial
  | s :: r, here, ⟨hs, h⟩, hdir, hfile => by
    refine ⟨hs, ?_⟩
    rcases h with ⟨hd, hp⟩ | ⟨rfl, d, x, hf⟩
    · refine .inl ⟨hdir [s] (by simp) hd, hp.mono (fun m hm hd => ?_) ?_⟩
      · have := hdir (s :: m) (by simpa using hm)
        rw [List.append_cons] at this
        exact this hd
      · rwa [List.append_cons] at hfile
    · obtain ⟨d', x', h'⟩ := hfile d x hf
      exact .inr ⟨rfl, d', x', h'⟩

/-- Every directory that is made on the way is one more entry that is passed. -/
theorem Passes.concat : ∀ {names : List String} {here : Names}, t.Passes here names →
    t.find? (here ++ names) = some .directory → Fits s →
    (t.find? (here ++ names ++ [s]) = some .directory ∨
      ∃ d x, t.find? (here ++ names ++ [s]) = some (.file d x)) → t.Passes here (names ++ [s])
  | [], here, _, _, hs, h => by
    rw [List.append_nil] at h
    rcases h with h | h
    · exact ⟨hs, .inl ⟨h, trivial⟩⟩
    · exact ⟨hs, .inr ⟨rfl, h⟩⟩
  | a :: r, here, ⟨ha, h⟩, hd, hs, hn => by
    refine ⟨ha, ?_⟩
    rw [List.append_cons here a r] at hd hn
    rcases h with ⟨hdir, hp⟩ | ⟨rfl, d, x, hf⟩
    · exact .inl ⟨hdir, hp.concat hd hs hn⟩
    · rw [List.append_nil, hf] at hd
      cases hd

/-! ### More entries -/

/-- Whether everything that stands in a tree stands in another one, too; files may have other
bytes there. -/
def Keeps (t t' : Tree) : Prop :=
  ∀ m n, t.find? m = some n →
    t'.find? m = some n ∨ n.isFile = true ∧ ∃ d x, t'.find? m = some (.file d x)

theorem advance_mono (h : t.Keeps t') {q : List Segment} :
    ∀ {here}, (∀ f, advance t here q ≠ .refused f) → advance t' here q = advance t here q := by
  induction q with
  | nil => intro here _; rfl
  | cons x q ih =>
    intro here hq
    cases x with
    | root => exact ih hq
    | here => exact ih hq
    | parent => exact ih hq
    | name s =>
      by_cases hs : Fits s
      · rw [advance_of_fits hs] at hq ⊢
        rw [advance_of_fits hs]
        cases hf : t.find? (here ++ [s]) with
        | none =>
          rw [hf] at hq
          exact absurd rfl (hq _)
        | some n =>
          rw [hf] at hq
          rcases h _ _ hf with hf' | ⟨hfile, d', x', hf'⟩
          · rw [hf']
            cases n with
            | directory => exact ih hq
            | link target => rfl
            | file d x => rfl
          · rw [hf']
            cases n with
            | directory => cases hfile
            | link target => cases hfile
            | file d x => rfl
      · obtain ⟨f, hf⟩ := advance_of_not_fits t here hs
        exact absurd (hf q) (hq f)

/-- A list that leads somewhere still leads there when entries are added. -/
theorem follow_mono (h : t.Keeps t') :
    ∀ {links : Nat} {here : Names} {q : List Segment}, t.follow links here q = .ok m →
      t'.follow links here q = .ok m
  | links, here, q, hq => by
    have ha : ∀ f, advance t here q ≠ .refused f := by
      intro f hf
      rw [follow_eq, hf] at hq
      cases hq
    rw [follow_eq] at hq ⊢
    rw [advance_mono h ha]
    cases hp : advance t here q with
    | arrived m' => rw [hp] at hq; exact hq
    | refused f => exact absurd hp (ha f)
    | met here' target rest =>
      rw [hp] at hq
      cases links with
      | zero => cases hq
      | succ links => exact follow_mono h (show t.follow links here' _ = .ok m from hq)

/-! ### Paths -/

@[simp]
theorem locate_slash (t : Tree) : t.locate ⟨"/"⟩ = .ok [] := by
  have hroute : route ⟨"/"⟩ = [.root, .here] := by decide
  unfold locate
  rw [hroute, follow_eq]
  rfl

theorem locate_of_ne_empty {p : Path} (h : p.text ≠ "") :
    t.locate p = t.follow maxLinks [] (route p) := by
  unfold locate
  rw [if_neg h]

theorem locate_mono (h : t.Keeps t') {p : Path} (hp : t.locate p = .ok m) :
    t'.locate p = .ok m := by
  unfold locate at hp ⊢
  split_ifs at hp ⊢
  exact follow_mono h hp

/-- What a path leads to is there. -/
theorem locate_found {p : Path} (h : t.locate p = .ok m) : ∃ n, t.find? m = some n := by
  unfold locate at h
  split_ifs at h
  exact follow_found (rooted_nil t) h

theorem node_eq_ok {p : Path} : t.node p = .ok n ↔ ∃ m, t.locate p = .ok m ∧ t.find? m = some n := by
  unfold node
  cases t.locate p with
  | error f => simp
  | ok m => cases h : t.find? m <;> simp [h]

/-! ### Making directories -/

/-- Make the directory `s` at the path `here`, if it is missing. -/
def makeDirectory (t : Tree) (here : Path) (s : Segment) : Tree × Option SystemFault :=
  match t.node (here / s.text) with
  | .ok .directory => (t, none)
  | .ok _ => (t, some .alreadyExists)
  | .error .notFound =>
    match t.locate here with
    | .error f => (t, some f)
    | .ok names =>
      match t.find? (names ++ [s.text]) with
      | some _ => (t, some .alreadyExists)
      | none => (t.put (names ++ [s.text]) .directory, none)
  | .error f => (t, some f)

theorem makeDirectories_cons (t : Tree) (here : Path) (s : Segment) (r : List Segment) :
    t.makeDirectories here (s :: r) =
      match t.makeDirectory here s with
      | (t, none) => t.makeDirectories (here / s.text) r
      | (t, some f) => (t, some f) := by
  unfold makeDirectory
  rw [makeDirectories]
  cases t.node (here / s.text) with
  | ok n => cases n <;> rfl
  | error f =>
    cases f with
    | notFound =>
      cases t.locate here with
      | error f => rfl
      | ok names =>
        simp only
        cases t.find? (names ++ [s.text]) <;> rfl
    | _ => rfl

/-- What making a directory leaves behind. -/
theorem makeDirectory_cases {here : Path} {s : Segment} {f : Option SystemFault}
    (h : t.makeDirectory here s = (t', f)) :
    t' = t ∨ ∃ names, (∀ n, t.node (here / s.text) ≠ .ok n) ∧ t.locate here = .ok names ∧
      t.find? (names ++ [s.text]) = none ∧ t' = t.put (names ++ [s.text]) .directory := by
  unfold makeDirectory at h
  split at h
  · exact .inl (Prod.mk.inj h).1.symm
  · exact .inl (Prod.mk.inj h).1.symm
  · rename_i hnode
    split at h
    · exact .inl (Prod.mk.inj h).1.symm
    · rename_i names hnames
      split at h
      · exact .inl (Prod.mk.inj h).1.symm
      · rename_i hnone
        refine .inr ⟨names, ?_, hnames, hnone, (Prod.mk.inj h).1.symm⟩
        intro n hn
        rw [hn] at hnode
        cases hnode
  · exact .inl (Prod.mk.inj h).1.symm

end Tree

namespace Workspace

/-- A file is there if the system takes its path and the path leads to a file. -/
theorem hasFile_iff {w : Workspace} {p : Path} :
    w.hasFile p = true ↔ p.fault? = none ∧
      ∃ m data x, w.tree.locate (w.absolute p) = .ok m ∧ w.tree.find? m = some (.file data x) := by
  unfold hasFile node
  cases p.fault? with
  | some f => simp
  | none =>
    cases hnode : w.tree.node (w.absolute p) with
    | error f =>
      refine iff_of_false (by simp) ?_
      rintro ⟨-, m, data, x, hm, hfile⟩
      rw [Tree.node_eq_ok.2 ⟨m, hm, hfile⟩] at hnode
      cases hnode
    | ok n =>
      obtain ⟨m, hm, hn⟩ := Tree.node_eq_ok.1 hnode
      constructor
      · intro hfile
        cases n with
        | file data x => exact ⟨rfl, m, data, x, hm, hn⟩
        | directory => cases hfile
        | link target => cases hfile
      · rintro ⟨-, m', data, x, hm', hfile⟩
        rw [hm] at hm'
        rw [← Except.ok.inj hm', hn] at hfile
        rw [Option.some.inj hfile]
        rfl

end Workspace
end ReleaseLint
