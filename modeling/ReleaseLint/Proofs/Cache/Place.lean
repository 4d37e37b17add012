/-
# Where the root of a cache stands

The path of a cache is split in two: its first segments lead to a directory that is
there, links on the way included, and its last ones are names that are missing, none
if the root itself is there.

| part | leads to |
| --- | --- |
| `front` | the directory `top` |
| `missing` | from `top` on to the root |

A cache starts empty when nothing stands on the way from `top` to the root and nothing
below it (`StartsEmpty`).  As long as the front leads to `top` and no link comes onto the
way or below the root (`Leads`), paths below the root are looked up name by name
(`locate_along`), and making the directories of such a path adds directories on that way
only (`makeDirectory_along`).
-/

import ReleaseLint.Proofs.Cache.Layout

namespace ReleaseLint
namespace Tool
namespace Cache

open Segment

/-- Where the root of a cache stands. -/
structure Place where
  front : List Segment
  top : Names
  missing : Names

namespace Place

variable {c : Place} {w : Workspace} {cache : Path} {t t' : Tree} {m names : Names}

/-- The names of the root. -/
def root (c : Place) : Names :=
  c.top ++ c.missing

/-- Whether names lie below the top, on the way to the root or at or below it. -/
def Covers (c : Place) (names : Names) : Prop :=
  ∃ r, r ≠ [] ∧ names = c.top ++ r ∧ (r <+: c.missing ∨ c.missing <+: r)

/-- Whether the root of a cache has this place and nothing stands there. -/
structure IsVacant (c : Place) (w : Workspace) (cache : Path) : Prop where
  segments_eq : (w.absolute cache).segments = .root :: (c.front ++ c.missing.map .name)
  leads : w.tree.follow Tree.maxLinks [] c.front = .ok c.top
  directory : w.tree.find? c.top = some .directory
  vacant : ∀ names, c.Covers names → w.tree.find? names = none

/-- Whether the front of a place leads to its top and the names below that are free of
links. -/
structure Leads (c : Place) (t : Tree) : Prop where
  leads : t.follow Tree.maxLinks [] c.front = .ok c.top
  directory : t.find? c.top = some .directory
  linkless : ∀ names, c.Covers names → ∀ target, t.find? names ≠ some (.link target)

theorem IsVacant.isStep (h : c.IsVacant w cache) :
    ∀ x ∈ c.front ++ c.missing.map Segment.name, x.IsStep :=
  Path.isStep_of_segments_eq h.segments_eq

theorem covers_below {names : Names} (h : names ≠ []) : c.Covers (c.root ++ names) := by
  refine ⟨c.missing ++ names, ?_, List.append_assoc .., .inr (List.prefix_append _ _)⟩
  simp [h]

theorem covers_along {r : Names} (h : r ≠ []) (hr : r <+: c.missing ++ names) :
    c.Covers (c.top ++ r) :=
  ⟨r, h, rfl, List.prefix_or_prefix_of_prefix hr (List.prefix_append _ _)⟩

theorem Leads.linkless_names (h : c.Leads t) (names : Names) :
    t.Linkless c.top (c.missing ++ names) := by
  intro m hm target
  by_cases h0 : m = []
  · rw [h0, List.append_nil, h.directory]
    intro he
    cases he
  · exact h.linkless _ (covers_along h0 hm) target

theorem Leads.linkless_along (h : c.Leads t) {r : Names} (hr : r <+: c.missing ++ names) :
    t.Linkless c.top r :=
  fun m hm => h.linkless_names names m (hm.trans hr)

theorem Leads.follow (h : c.Leads t) {r : Names} (hr : r <+: c.missing ++ names) :
    t.follow Tree.maxLinks [] (.root :: (c.front ++ r.map .name)) = .ok m ↔
      m = c.top ++ r ∧ t.Passes c.top r := by
  obtain ⟨left, hl⟩ := Tree.follow_append h.directory (r.map .name) h.leads
  have hroot : t.follow Tree.maxLinks [] (.root :: (c.front ++ r.map .name)) =
      t.follow Tree.maxLinks [] (c.front ++ r.map .name) := by
    rw [Tree.follow_eq, Tree.follow_eq t _ _ (c.front ++ _)]
    rfl
  rw [hroot, hl, Tree.follow_names (h.linkless_along hr)]

/-- **Paths below the root are looked up name by name.** -/
theorem Leads.locate_along (h : c.Leads t) {a : Path}
    (ha : a.segments = .root :: (c.front ++ c.missing.map .name))
    (hsteps : ∀ x ∈ names.map Segment.name, x.IsStep) (hne : names ≠ []) :
    t.locate (a.along (names.map .name)) = .ok m ↔
      m = c.root ++ names ∧ t.Passes c.top (c.missing ++ names) := by
  have hne' : names.map Segment.name ≠ [] := by simpa using hne
  rw [Tree.locate_of_ne_empty (Path.text_along_ne_empty hsteps hne'),
    Path.route_along hsteps hne', ha, List.cons_append, List.append_assoc, ← List.map_append,
    h.follow (List.prefix_refl _), root, List.append_assoc]

/-- Binaries are looked up name by name. -/
theorem Leads.locate_binaryPath (h : c.Leads t) {tool : Tool} {version : String} {p : Platform}
    (ha : (w.absolute cache).segments = .root :: (c.front ++ c.missing.map .name))
    (hv : IsName version) (hp : p.IsPlain) :
    t.locate (w.absolute (binaryPath cache tool version p)) = .ok m ↔
      m = c.root ++ key tool version p ∧ t.Passes c.top (c.missing ++ key tool version p) := by
  have hsteps : ∀ x ∈ (key tool version p).map Segment.name, x.IsStep := isStep_of_mem_key hv hp
  rw [binaryPath_eq, Path.absolute_along w hsteps]
  exact h.locate_along ha hsteps (by simp [key])

theorem Leads.locate_slash_along (h : c.Leads t) {r : Names}
    (hr : r <+: c.missing ++ names) (hsteps : ∀ x ∈ c.front ++ r.map Segment.name, x.IsStep)
    (hl : t.locate (Path.along ⟨"/"⟩ (.root :: (c.front ++ r.map .name))) = .ok m) :
    m = c.top ++ r := by
  rw [Path.along_root] at hl
  by_cases hq : c.front ++ r.map Segment.name = []
  · obtain ⟨hfront, hr0⟩ := List.append_eq_nil_iff.1 hq
    have htop := h.leads
    rw [hfront] at htop
    rw [hq] at hl
    have : m = [] := Except.ok.inj (hl.symm.trans (Tree.locate_slash t))
    rw [this, ← Except.ok.inj htop, List.map_eq_nil_iff.1 hr0]
    rfl
  · rw [Tree.locate_of_ne_empty (Path.text_along_ne_empty hsteps hq),
      Path.route_along hsteps hq, Path.segments_slash, List.singleton_append, h.follow hr] at hl
    exact hl.1

/-- A path on the way to the top leads to an entry. -/
theorem Leads.node_front (h : c.Leads t) {done rest : List Segment} {x : Segment}
    (hfront : c.front = done ++ x :: rest) (hsteps : ∀ y ∈ c.front, y.IsStep) :
    ∃ n, t.node (Path.along ⟨"/"⟩ (.root :: done) / x.text) = .ok n := by
  have hstep : ∀ y ∈ done ++ [x], y.IsStep := by
    intro y hy
    refine hsteps y ?_
    rw [hfront, List.append_cons]
    exact List.mem_append_left _ hy
  have hpath : Path.along ⟨"/"⟩ (.root :: done) / x.text = Path.along ⟨"/"⟩ (done ++ [x]) := by
    rw [Path.along_concat, Path.along_root]
  have hleads := h.leads
  rw [hfront, List.append_cons] at hleads
  obtain ⟨m, hm⟩ := Tree.follow_isOk_of_append _ hleads
  obtain ⟨n, hn⟩ := Tree.follow_found (Tree.rooted_nil t) hm
  refine ⟨n, Tree.node_eq_ok.2 ⟨m, ?_, hn⟩⟩
  rw [hpath, Tree.locate_of_ne_empty (Path.text_along_ne_empty hstep (by simp)),
    Path.route_along hstep (by simp), Path.segments_slash, ← hm, Tree.follow_eq,
    Tree.follow_eq t _ _ (done ++ [x])]
  rfl

/-- **Making a directory on the way to a path below the root adds at most a directory on
that way.** -/
theorem Leads.makeDirectory_along (h : c.Leads t) {done rest : List Segment} {x : Segment}
    {f : Option SystemFault}
    (hsteps : ∀ y ∈ c.front ++ (c.missing ++ names).map Segment.name, y.IsStep)
    (hdone : done ++ x :: rest = .root :: (c.front ++ (c.missing ++ names).map .name))
    (hmake : t.makeDirectory (Path.along ⟨"/"⟩ done) x = (t', f)) :
    t' = t ∨ ∃ r, r ≠ [] ∧ r <+: c.missing ++ names ∧ t.find? (c.top ++ r) = none ∧
      t' = t.put (c.top ++ r) .directory := by
  rcases Tree.makeDirectory_cases hmake with ht | ⟨here, hnode, hhere, hnone, ht⟩
  · exact .inl ht
  cases done with
  | nil =>
    -- the first segment is the root itself, which is there
    obtain rfl : x = .root := (List.cons.inj hdone).1
    refine absurd (Tree.node_eq_ok.2 ⟨[], ?_, Tree.find?_nil t⟩) (hnode _)
    show t.locate (Path.mk "/" / "/") = _
    rw [Path.div_slash, Tree.locate_slash]
  | cons y done =>
    rw [List.cons_append] at hdone
    obtain ⟨rfl, htail⟩ := List.cons.inj hdone
    have hfront : ∀ y ∈ c.front, y.IsStep := fun y hy => hsteps y (List.mem_append_left _ hy)
    have hsplit : (∃ q, c.front = done ++ x :: q) ∨ ∃ q, done = c.front ++ q ∧
        (c.missing ++ names).map Segment.name = q ++ x :: rest := by
      rcases List.append_eq_append_iff.1 htail with ⟨q, hq, hrest⟩ | ⟨q, hq, hrest⟩
      · cases q with
        | nil => exact .inr ⟨[], by rw [hq, List.append_nil, List.append_nil], hrest.symm⟩
        | cons z q =>
          obtain ⟨rfl, -⟩ := List.cons.inj hrest
          exact .inl ⟨q, hq⟩
      · exact .inr ⟨q, hq, hrest⟩
    rcases hsplit with ⟨q, hq⟩ | ⟨q, hq, hmap⟩
    · obtain ⟨n, hn⟩ := h.node_front hq hfront
      exact absurd hn (hnode n)
    · obtain ⟨along, below, hnames, rfl, hbelow⟩ := List.map_eq_append_iff.1 hmap
      obtain ⟨s, below, rfl, rfl, -⟩ := List.map_eq_cons_iff.1 hbelow
      rw [hq] at hhere
      have hpre : along <+: c.missing ++ names := hnames ▸ List.prefix_append _ _
      obtain rfl : here = c.top ++ along := by
        refine h.locate_slash_along hpre (fun y hy => hsteps y ?_) hhere
        rw [hnames, List.map_append, ← List.append_assoc]
        exact List.mem_append_left _ hy
      rw [List.append_assoc] at hnone ht
      refine .inr ⟨along ++ [s], by simp, ?_, hnone, ht⟩
      rw [hnames, List.append_cons along s below]
      exact List.prefix_append _ _

end Place

/-- Whether the root of a cache is missing or an empty directory. -/
def StartsEmpty (w : Workspace) (cache : Path) : Prop :=
  ∃ c : Place, c.IsVacant w cache

end Cache
end Tool
end ReleaseLint
