/-
# Making directories name by name

Behind a path that leads to a directory, names are looked up one by one, and a directory can be
made at each of them unless something else stands there (`Opens`).  So directories can be made at
some names of one tree whenever they can be made at these names of another one, which has the same
entries there but for directories (`opens_congr`).

| at a name | making a directory |
| --- | --- |
| a directory | leaves the tree as it is |
| nothing | puts one there, if the name fits |
| a file | fails |
-/

import ReleaseLint.Proofs.Tree.Directories
import ReleaseLint.Proofs.Tree.Growth

namespace ReleaseLint
namespace Tree

open Segment (IsName)

variable {t t' u : Tree} {here m names : Names} {s : String} {x : Segment} {q r : List Segment}

/-! ### On the way to a directory -/

/-- Where a walk arrives stands a directory, or a file, behind which nothing is found. -/
theorem advance_arrived : ∀ {here : Names}, t.Rooted here → advance t here q = .arrived m →
    t.find? m = some .directory ∨ ∀ x r, ∃ f, advance t here (q ++ x :: r) = .refused f := by
  induction q with
  | nil =>
    intro here h hq
    exact .inl (Progress.arrived.inj hq ▸ h.find?)
  | cons y q ih =>
    intro here h hq
    cases y with
    | root => exact ih (rooted_nil t) hq
    | here => exact ih h hq
    | parent => exact ih h.dropLast hq
    | name s =>
      by_cases hs : Fits s
      · simp only [List.cons_append]
        simp only [advance_of_fits hs] at hq ⊢
        cases hf : t.find? (here ++ [s]) with
        | none =>
          rw [hf] at hq
          cases hq
        | some n =>
          rw [hf] at hq
          cases n with
          | directory => exact ih (h.concat hf) hq
          | link target => cases hq
          | file d x =>
            cases q with
            | nil => exact .inr fun x r => ⟨_, rfl⟩
            | cons y q => cases hq
      · obtain ⟨f, hf⟩ := advance_of_not_fits t here hs
        rw [hf] at hq
        cases hq

/-- **What leads on leads to a directory first.** -/
theorem exists_directory_of_follow_append (hne : r ≠ []) :
    ∀ {links : Nat} {here : Names} {q : List Segment}, t.Rooted here →
      t.follow links here (q ++ r) = .ok m →
      ∃ m', t.follow links here q = .ok m' ∧ t.find? m' = some .directory
  | links, here, q, hr, h => by
    have hrooted := advance_rooted (q := q) hr
    rw [follow_eq] at h ⊢
    cases ha : advance t here q with
    | arrived m' =>
      refine ⟨m', rfl, (advance_arrived hr ha).resolve_right fun hrefused => ?_⟩
      obtain ⟨x, r', hr'⟩ := List.exists_cons_of_ne_nil hne
      obtain ⟨f, hf⟩ := hrefused x r'
      rw [hr', hf] at h
      cases h
    | refused f =>
      rw [advance_append_of_refused r ha] at h
      cases h
    | met here' target rest =>
      rw [advance_append_of_met r ha] at h
      rw [ha] at hrooted
      cases links with
      | zero => cases h
      | succ links =>
        exact exists_directory_of_follow_append hne (q := route target ++ rest) hrooted
          (by rw [List.append_assoc]; exact h)

theorem exists_directory_of_follow (hm : t.find? m = some .directory) {links : Nat}
    (hr : t.Rooted here) (h : t.follow links here (q ++ r) = .ok m) :
    ∃ m', t.follow links here q = .ok m' ∧ t.find? m' = some .directory := by
  by_cases hne : r = []
  · rw [hne, List.append_nil] at h
    exact ⟨m, h, hm⟩
  · exact exists_directory_of_follow_append hne hr h

theorem locate_along_slash (h : ∀ x ∈ q, x.IsStep) :
    t.locate (Path.along ⟨"/"⟩ (.root :: q)) = t.follow maxLinks [] q := by
  rw [Path.along_root]
  by_cases hq : q = []
  · subst hq
    exact locate_slash t
  · rw [locate_of_ne_empty (Path.text_along_ne_empty h hq), Path.route_along h hq,
      Path.segments_slash, follow_eq, follow_eq t maxLinks [] q]
    rfl

/-- Directories behind others are made where those lead. -/
theorem makeDirectories_append : ∀ {t : Tree} {here : Path} {q : List Segment},
    t.makeDirectories here q = (t', none) →
      t.makeDirectories here (q ++ r) = t'.makeDirectories (here.along q) r
  | t, here, [], h => by rw [(Prod.mk.inj h).1.symm]; rfl
  | t, here, x :: q, h => by
    rw [List.cons_append, makeDirectories_cons]
    rw [makeDirectories_cons] at h
    rcases hstep : t.makeDirectory here x with ⟨t'', f⟩
    rw [hstep] at h
    cases f with
    | none => exact makeDirectories_append h
    | some f => cases h

/-- Directories that lead to a directory are there already. -/
theorem makeDirectories_of_follow (hm : t.find? m = some .directory)
    (hsteps : ∀ x ∈ q ++ r, x.IsStep) (h : t.follow maxLinks [] (q ++ r) = .ok m) :
    t.makeDirectories (Path.along ⟨"/"⟩ (.root :: q)) r = (t, none) := by
  induction r generalizing q with
  | nil => rfl
  | cons x r ih =>
    have hsplit : q ++ x :: r = q ++ [x] ++ r := List.append_cons q x r
    rw [hsplit] at h hsteps
    obtain ⟨m', hfollow, hdirectory⟩ := exists_directory_of_follow hm (rooted_nil t) h
    have hpath : Path.along ⟨"/"⟩ (.root :: q) / x.text = Path.along ⟨"/"⟩ (.root :: (q ++ [x])) := by
      rw [← Path.along_concat]
      rfl
    have hnode : t.node (Path.along ⟨"/"⟩ (.root :: q) / x.text) = .ok .directory := by
      rw [hpath, node_eq_ok]
      refine ⟨m', ?_, hdirectory⟩
      rw [locate_along_slash fun y hy => hsteps y (List.mem_append_left r hy), hfollow]
    rw [makeDirectories_cons, makeDirectory, hnode]
    simp only
    rw [hpath]
    exact ih hsteps h

/-! ### At the names behind it -/

/-- What making a directory at a name of a directory without links comes to. -/
theorem makeDirectory_name (hm : t.find? m = some .directory) (hsteps : ∀ x ∈ q, x.IsStep)
    (hs : IsName s) (h : t.follow maxLinks [] q = .ok m)
    (hlink : ∀ target, t.find? (m ++ [s]) ≠ some (.link target)) :
    (Fits s ∧ t.find? (m ++ [s]) = some .directory ∧
        t.makeDirectory (Path.along ⟨"/"⟩ (.root :: q)) (.name s) = (t, none)) ∨
      (Fits s ∧ t.find? (m ++ [s]) = none ∧
        t.makeDirectory (Path.along ⟨"/"⟩ (.root :: q)) (.name s) =
          (t.put (m ++ [s]) .directory, none)) ∨
      ¬(Fits s ∧ (t.find? (m ++ [s]) = none ∨ t.find? (m ++ [s]) = some .directory)) ∧
        ∃ f, t.makeDirectory (Path.along ⟨"/"⟩ (.root :: q)) (.name s) = (t, some f) := by
  have hpath : Path.along ⟨"/"⟩ (.root :: q) / s = Path.along ⟨"/"⟩ (.root :: (q ++ [.name s])) := by
    have hconcat := Path.along_concat ⟨"/"⟩ (.root :: q) (.name s)
    exact hconcat.symm
  have hnext : ∀ x ∈ q ++ [.name s], x.IsStep := by
    intro x hx
    rcases List.mem_append.1 hx with hx | hx
    · exact hsteps x hx
    · exact List.mem_singleton.1 hx ▸ hs
  have hlocate : t.locate (Path.along ⟨"/"⟩ (.root :: q) / s) =
      t.follow maxLinks [] (q ++ [.name s]) := by
    rw [hpath, locate_along_slash hnext]
  have hhere : t.locate (Path.along ⟨"/"⟩ (.root :: q)) = .ok m := by
    rw [locate_along_slash hsteps, h]
  obtain ⟨left, hleft⟩ := follow_append hm [.name s] h
  rw [hleft, follow_eq] at hlocate
  by_cases hfits : Fits s
  · rw [advance_of_fits hfits] at hlocate
    cases hfind : t.find? (m ++ [s]) with
    | none =>
      refine .inr (.inl ⟨hfits, rfl, ?_⟩)
      have hnode : t.node (Path.along ⟨"/"⟩ (.root :: q) / (Segment.name s).text) =
          .error .notFound := by
        rw [hfind] at hlocate
        unfold node
        rw [show t.locate (_ / (Segment.name s).text) = .error .notFound from hlocate]
      unfold makeDirectory
      rw [hnode, hhere]
      simp only
      rw [show t.find? (m ++ [(Segment.name s).text]) = none from hfind]
      rfl
    | some n =>
      have hnode : t.node (Path.along ⟨"/"⟩ (.root :: q) / (Segment.name s).text) = .ok n := by
        refine node_eq_ok.2 ⟨m ++ [s], ?_, hfind⟩
        rw [hfind] at hlocate
        cases n with
        | directory | file => exact hlocate
        | link target => exact absurd hfind (hlink target)
      unfold makeDirectory
      rw [hnode]
      cases n with
      | directory => exact .inl ⟨hfits, rfl, rfl⟩
      | file => exact .inr (.inr ⟨by simp, _, rfl⟩)
      | link target => exact absurd hfind (hlink target)
  · refine .inr (.inr ⟨fun h => hfits h.1, ?_⟩)
    -- the name is refused before it is looked for
    obtain ⟨f, hf, hadvance⟩ : ∃ f, f ≠ .notFound ∧ advance t m [.name s] = .refused f := by
      by_cases hzero : s.toList.contains '\x00' = true
      · exact ⟨.zeroInName, by decide, by rw [advance, if_pos hzero]⟩
      · have hlong : 255 < s.utf8ByteSize := by
          by_contra hshort
          exact hfits ⟨by simpa using hzero, Nat.not_lt.1 hshort⟩
        exact ⟨.nameTooLong, by decide, by rw [advance, if_neg hzero, if_pos hlong]⟩
    rw [hadvance] at hlocate
    have hnode : t.node (Path.along ⟨"/"⟩ (.root :: q) / (Segment.name s).text) = .error f := by
      unfold node
      rw [show t.locate (_ / (Segment.name s).text) = .error f from hlocate]
    unfold makeDirectory
    rw [hnode]
    cases f with
    | notFound => exact absurd rfl hf
    | _ => exact ⟨_, rfl⟩

/-- Whether directories can be made at names that lead on from a directory. -/
def Opens (t : Tree) : (here : Names) → List String → Prop
  | _, [] => True
  | here, s :: r =>
    Fits s ∧ (t.find? (here ++ [s]) = none ∨ t.find? (here ++ [s]) = some .directory) ∧
      Opens t (here ++ [s]) r

/-- Directories more or less are no hindrance. -/
theorem opens_congr : ∀ {names : List String} {here : Names},
    (∀ m, m ≠ [] → m <+: names → u.find? (here ++ m) = t.find? (here ++ m) ∨
      t.find? (here ++ m) = none ∧ u.find? (here ++ m) = some .directory) →
    (u.Opens here names ↔ t.Opens here names)
  | [], _, _ => Iff.rfl
  | s :: r, here, h => by
    have hrest : u.Opens (here ++ [s]) r ↔ t.Opens (here ++ [s]) r := by
      refine opens_congr fun m hne hm => ?_
      have := h (s :: m) (List.cons_ne_nil s m) (List.cons_prefix_cons.2 ⟨rfl, hm⟩)
      rwa [List.append_cons] at this
    have hfirst : (u.find? (here ++ [s]) = none ∨ u.find? (here ++ [s]) = some .directory) ↔
        (t.find? (here ++ [s]) = none ∨ t.find? (here ++ [s]) = some .directory) := by
      rcases h [s] (List.cons_ne_nil s []) (List.cons_prefix_cons.2 ⟨rfl, List.nil_prefix⟩) with
        heq | ⟨hnone, hdirectory⟩
      · rw [heq]
      · exact iff_of_true (.inr hdirectory) (.inl hnone)
    rw [Opens, Opens, hfirst, hrest]

/-! ### Trees stay sound -/

theorem mem_put {n : Node} {e : Names × Node} (h : e ∈ (t.put names n).entries) :
    e = (names, n) ∨ e ∈ t.entries ∧ e.1 ≠ names := by
  unfold put at h
  split_ifs at h with hany
  · obtain ⟨e', he', rfl⟩ := List.mem_map.1 h
    by_cases hkey : e'.1 = names
    · exact .inl (by simp [hkey])
    · have hne : ¬(e'.1 == names) = true := by simpa using hkey
      rw [if_neg hne]
      exact .inr ⟨he', hkey⟩
  · rcases List.mem_append.1 h with h | h
    · refine .inr ⟨h, fun hkey => hany (List.any_eq_true.2 ⟨e, h, beq_iff_eq.2 hkey⟩)⟩
    · exact .inl (List.mem_singleton.1 h)

theorem keys_put (n : Node) : (t.put names n).entries.map (·.1) =
    if names ∈ t.entries.map (·.1) then t.entries.map (·.1) else t.entries.map (·.1) ++ [names] := by
  have hmem : names ∈ t.entries.map (·.1) ↔ t.entries.any (·.1 == names) = true := by
    rw [List.any_eq_true, List.mem_map]
    simp only [beq_iff_eq]
  unfold put
  by_cases hany : t.entries.any (·.1 == names) = true
  · rw [if_pos hany, if_pos (hmem.2 hany), List.map_map]
    refine List.map_congr_left fun e _ => ?_
    by_cases hkey : e.1 = names <;> simp [hkey]
  · rw [if_neg hany, if_neg (hmem.not.2 hany), List.map_append]
    rfl

/-- What leads to an entry of a sound tree are directories. -/
theorem IsSound.directory (ht : t.IsSound) (h : (t.find? m).isSome = true) (hr : here <+: m)
    (hne : here ≠ m) : t.find? here = some .directory := by
  obtain ⟨n, hn⟩ := Option.isSome_iff_exists.1 h
  by_cases hm : m = []
  · subst hm
    exact absurd (List.prefix_nil.1 hr) hne
  · exact ht.nested _ (mem_of_find? hn hm) here hr hne

/-- An entry of a sound tree has names that the system accepts. -/
theorem IsSound.areNames (ht : t.IsSound) (h : (t.find? m).isSome = true) :
    AreNames m ∧ ∀ s ∈ m, Fits s := by
  obtain ⟨n, hn⟩ := Option.isSome_iff_exists.1 h
  by_cases hm : m = []
  · subst hm
    exact ⟨.nil, fun s hs => absurd hs List.not_mem_nil⟩
  · exact ⟨ht.named _ (mem_of_find? hn hm), ht.fits _ (mem_of_find? hn hm)⟩

/-- An entry of a sound tree that is no link is passed. -/
theorem IsSound.passes {n : Node} (ht : t.IsSound) (hn : t.find? (here ++ names) = some n)
    (hlink : ∀ target, n ≠ .link target) : t.Passes here names := by
  have hsome : (t.find? (here ++ names)).isSome = true := by rw [hn]; rfl
  obtain ⟨-, hfits⟩ := ht.areNames hsome
  rcases List.eq_nil_or_concat names with rfl | ⟨init, s, rfl⟩
  · trivial
  · rw [List.concat_eq_append, ← List.append_assoc] at hn hsome hfits
    rw [List.concat_eq_append]
    have hinit {r : Names} (hr : r <+: init) : t.find? (here ++ r) = some .directory := by
      refine ht.directory hsome (((List.prefix_append_right_inj here).2 hr).trans
        (List.prefix_append _ _)) fun heq => ?_
      have hle := hr.length_le
      have hlength := congrArg List.length heq
      simp only [List.length_append, List.length_cons, List.length_nil] at hlength
      omega
    refine (passes_of_directories (fun x hx => hfits x (by simp [hx])) fun r hr => hinit hr).concat
      (hinit (List.prefix_refl init)) (hfits s (by simp)) ?_
    cases n with
    | directory => exact .inl hn
    | file d x => exact .inr ⟨d, x, hn⟩
    | link target => exact absurd rfl (hlink target)

/-- What stands below a directory that a path leads to is found at the names that lead on, unless
it is a link. -/
theorem IsSound.locate_below {n : Node} (ht : t.IsSound) {lead top : Names}
    (hnames : AreNames (lead ++ names)) (htop : t.locate (Path.ofNames lead) = .ok top)
    (hbelow : (names, n) ∈ t.below top) (hlink : ∀ target, n ≠ .link target) :
    t.locate (Path.ofNames (lead ++ names)) = .ok (top ++ names) ∧
      t.find? (top ++ names) = some n := by
  obtain ⟨hentry, hne⟩ := mem_below.1 hbelow
  have hn := (ht.find?_iff (List.append_ne_nil_of_right_ne_nil top hne)).2 hentry
  have hdirectory {m : Names} (hm : m <+: names) (hsame : m ≠ names) :
      t.find? (top ++ m) = some .directory := ht.find?_below hbelow hm hsame
  have hstart := hdirectory List.nil_prefix (Ne.symm hne)
  rw [List.append_nil] at hstart
  rw [locate_ofNames hnames.left] at htop
  obtain ⟨left, hleft⟩ := follow_append hstart (names.map .name) htop
  refine ⟨?_, hn⟩
  rw [locate_ofNames hnames, List.map_append, hleft]
  refine (follow_names fun m hm target hfind => ?_).2 ⟨rfl, ht.passes hn hlink⟩
  by_cases hsame : m = names
  · rw [hsame, hn] at hfind
    exact hlink target (Option.some.inj hfind)
  · rw [hdirectory hm hsame] at hfind
    cases hfind

/-- **A node comes into a directory of a sound tree,** or takes the place of a file there. -/
theorem IsSound.put (ht : t.IsSound) (hm : t.find? m = some .directory) (hs : IsName s)
    (hfits : Fits s) (hold : ∀ n, t.find? (m ++ [s]) = some n → n.isFile = true) (n : Node) :
    (t.put (m ++ [s]) n).IsSound := by
  have hsome : (t.find? m).isSome = true := by rw [hm]; rfl
  obtain ⟨hnames, hallfit⟩ := ht.areNames hsome
  have hkeeps {r : Names} (hr : t.find? r = some .directory) :
      (t.put (m ++ [s]) n).find? r = some .directory := by
    rw [find?_put (by simp), if_neg, hr]
    rintro rfl
    cases hold _ hr
  refine ⟨fun e he => ?_, fun e he => ?_, ?_, fun e he r hr hne => hkeeps ?_⟩
  · rcases mem_put he with rfl | ⟨he, -⟩
    · exact hnames.concat hs
    · exact ht.named e he
  · rcases mem_put he with rfl | ⟨he, -⟩
    · intro x hx
      rcases List.mem_append.1 hx with hx | hx
      · exact hallfit x hx
      · exact List.mem_singleton.1 hx ▸ hfits
    · exact ht.fits e he
  · rw [keys_put]
    split_ifs with hmem
    · exact ht.distinct
    · exact List.nodup_append.2 ⟨ht.distinct, List.nodup_singleton _, fun a ha b hb heq =>
        hmem (List.mem_singleton.1 hb ▸ heq ▸ ha)⟩
  · rcases mem_put he with rfl | ⟨he, -⟩
    · have hr : r <+: m := (List.prefix_concat_iff.1 hr).resolve_left hne
      by_cases heq : r = m
      · rw [heq, hm]
      · exact ht.directory hsome hr heq
    · exact ht.nested e he r hr hne

theorem follow_concat {links : Nat} (hm : t.find? m = some .directory) (hfits : Fits s)
    (hs : t.find? (m ++ [s]) = some .directory) (h : t.follow links here q = .ok m) :
    t.follow links here (q ++ [.name s]) = .ok (m ++ [s]) := by
  obtain ⟨left, hleft⟩ := follow_append hm [.name s] h
  rw [hleft, follow_eq, advance_of_fits hfits, hs]
  rfl

/-- **Making directories at names** comes to an end if the names are open, and changes nothing but
that directories stand there. -/
theorem makeDirectories_names (ht : t.IsSound) (hm : t.find? m = some .directory)
    (hsteps : ∀ x ∈ q, x.IsStep) (hnames : AreNames names) (h : t.follow maxLinks [] q = .ok m)
    (hlinks : t.Linkless m names) {f : Option SystemFault}
    (hmake : t.makeDirectories (Path.along ⟨"/"⟩ (.root :: q)) (names.map .name) = (t', f)) :
    (f = none ↔ t.Opens m names) ∧ t'.IsSound ∧ ∀ n, t'.find? n = t.find? n ∨
      ∃ r, r ≠ [] ∧ r <+: names ∧ n = m ++ r ∧ t.find? n = none ∧
        t'.find? n = some .directory := by
  induction names generalizing t m q with
  | nil =>
    obtain ⟨rfl, rfl⟩ := Prod.mk.inj hmake
    exact ⟨iff_of_true rfl trivial, ht, fun n => .inl rfl⟩
  | cons s r ih =>
    have hs : IsName s := hnames s List.mem_cons_self
    have hr : AreNames r := fun x hx => hnames x (List.mem_cons_of_mem s hx)
    have hpath : Path.along ⟨"/"⟩ (.root :: q) / (Segment.name s).text =
        Path.along ⟨"/"⟩ (.root :: (q ++ [.name s])) := by
      rw [← Path.along_concat]
      rfl
    have hnext : ∀ x ∈ q ++ [.name s], x.IsStep := by
      intro x hx
      rcases List.mem_append.1 hx with hx | hx
      · exact hsteps x hx
      · exact List.mem_singleton.1 hx ▸ hs
    rw [List.map_cons, makeDirectories_cons, hpath] at hmake
    rw [Opens]
    rcases makeDirectory_name hm hsteps hs h
        (hlinks [s] (List.cons_prefix_cons.2 ⟨rfl, List.nil_prefix⟩)) with
      ⟨hfits, hdirectory, hstep⟩ | ⟨hfits, hnone, hstep⟩ | ⟨hclosed, fault, hstep⟩
    · rw [hstep] at hmake
      obtain ⟨hf, hsound, hchanges⟩ := ih ht hdirectory hnext hr
        (follow_concat hm hfits hdirectory h) hlinks.tail hmake
      refine ⟨?_, hsound, fun n => (hchanges n).imp_right ?_⟩
      · rw [hf, and_iff_right hfits, and_iff_right (Or.inr hdirectory)]
      · rintro ⟨more, -, hmore, rfl, hchange⟩
        exact ⟨s :: more, List.cons_ne_nil s more, List.cons_prefix_cons.2 ⟨rfl, hmore⟩,
          (List.append_cons m s more).symm, hchange⟩
    · rw [hstep] at hmake
      have hput (n : Names) : (t.put (m ++ [s]) .directory).find? n =
          if n = m ++ [s] then some .directory else t.find? n := find?_put (by simp)
      have hdirectory : (t.put (m ++ [s]) .directory).find? (m ++ [s]) = some .directory := by
        rw [hput, if_pos rfl]
      have hgrows : t.GrowsTo (t.put (m ++ [s]) .directory) :=
        growsTo_put (by simp) (hnone ▸ .made)
      have hsame {more : Names} (hmore : more ≠ []) :
          (t.put (m ++ [s]) .directory).find? (m ++ [s] ++ more) = t.find? (m ++ [s] ++ more) := by
        rw [hput, if_neg (by simpa using hmore)]
      obtain ⟨hf, hsound, hchanges⟩ := ih
        (ht.put hm hs hfits (fun n hn => by rw [hnone] at hn; cases hn) .directory) hdirectory hnext hr
        (follow_concat (hgrows.directory hm) hfits hdirectory (follow_mono hgrows.keeps h))
        (fun more hmore target hlink => hlinks.tail more hmore target (hgrows.link hlink)) hmake
      refine ⟨?_, hsound, fun n => ?_⟩
      · rw [hf, and_iff_right hfits, and_iff_right (Or.inl hnone)]
        exact opens_congr fun more hmore _ => .inl (hsame hmore)
      · rcases hchanges n with heq | ⟨more, hne, hmore, rfl, hnone', hmade⟩
        · rw [hput] at heq
          split_ifs at heq with hn
          · subst hn
            exact .inr ⟨[s], List.cons_ne_nil s [],
              List.cons_prefix_cons.2 ⟨rfl, List.nil_prefix⟩, rfl, hnone, heq⟩
          · exact .inl heq
        · rw [hsame hne] at hnone'
          exact .inr ⟨s :: more, List.cons_ne_nil s more, List.cons_prefix_cons.2 ⟨rfl, hmore⟩,
            (List.append_cons m s more).symm, hnone', hmade⟩
    · rw [hstep] at hmake
      obtain ⟨rfl, rfl⟩ := Prod.mk.inj hmake
      refine ⟨iff_of_false (by simp) fun h => hclosed ⟨h.1, h.2.1⟩, ht, fun n => .inl rfl⟩

end Tree
end ReleaseLint
