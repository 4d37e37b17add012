/-
# Directories out of sight of a cache

A directory is out of sight of a cache if the same stands at every path below it, whatever is
stored in the cache (`IsOutOfSight`).  Then workspaces in which something has been stored agree
below it (`Stocks.agreeBelow`).

| directory | |
| --- | --- |
| without links, and no part of the cache below it | out of sight (`isOutOfSight_of_isPlain`) |
| with a link into the cache | in sight: the link leads to what is stored |
| above the cache | in sight: the cache stands below it |
-/

import ReleaseLint.Proofs.Cache.Stock
import ReleaseLint.Proofs.Resource.Sight

namespace ReleaseLint

open Path (ofNames)

namespace Tree

variable {t u : Tree} {names here top a m q : Names} {n : Node}

theorem advance_names_congr : ∀ {names here : Names},
    (∀ m, u.find? (here ++ m) = t.find? (here ++ m)) →
      advance u here (names.map .name) = advance t here (names.map .name)
  | [], _, _ => rfl
  | s :: r, here, h => by
    have hrest : ∀ m, u.find? (here ++ [s] ++ m) = t.find? (here ++ [s] ++ m) := fun m => by
      rw [List.append_assoc]
      exact h ([s] ++ m)
    rw [List.map_cons, advance, advance, h [s], advance_names_congr hrest]

/-- Below a directory without links, the same entries are the same paths. -/
theorem IsPlain.node_congr (ht : t.IsPlain a) (hgrows : t.GrowsTo u)
    (h : ∀ m, u.find? (a ++ m) = t.find? (a ++ m)) (hm : AreNames (a ++ m)) :
    u.node (ofNames (a ++ m)) = t.node (ofNames (a ++ m)) := by
  have hlinks : t.Linkless a m := fun r _ => ht.linkless r
  have hdirectory := ht.directories a (List.prefix_refl a)
  have hlocated : t.locate (ofNames (a ++ [])) = .ok a ↔ a = a ++ [] ∧ t.Passes a [] :=
    locate_append_eq_ok ht.directories ht.fits (fun r _ => ht.linkless r) (ht.names.append .nil)
  rw [List.append_nil, locate_ofNames ht.names] at hlocated
  have hfollow := hlocated.2 ⟨rfl, trivial⟩
  obtain ⟨left, hleft⟩ := follow_append hdirectory (m.map .name) hfollow
  obtain ⟨left', hleft'⟩ := follow_append (hgrows.directory hdirectory) (m.map .name)
    (follow_mono hgrows.keeps hfollow)
  have hlocate : u.locate (ofNames (a ++ m)) = t.locate (ofNames (a ++ m)) := by
    rw [locate_ofNames hm, locate_ofNames hm, List.map_append, hleft, hleft', follow_eq, follow_eq,
      advance_names_congr h]
    rcases advance_names hlinks with ⟨-, hadvance⟩ | ⟨-, f, hadvance⟩ <;> rw [hadvance]
  unfold node
  rw [hlocate]
  cases hto : t.locate (ofNames (a ++ m)) with
  | error f => rfl
  | ok names =>
    rw [((locate_append_eq_ok ht.directories ht.fits hlinks hm).1 hto).1]
    simp only [h m]

/-- An entry below a directory that a path leads to is found behind that path. -/
theorem IsSound.locate_append (ht : t.IsSound) (hnames : AreNames (names ++ q))
    (htop : t.locate (ofNames names) = .ok top) (hdirectory : t.find? top = some .directory)
    (hn : t.find? (top ++ q) = some n) (hlink : ∀ target, n ≠ .link target) :
    t.locate (ofNames (names ++ q)) = .ok (top ++ q) := by
  have hsome : (t.find? (top ++ q)).isSome = true := by rw [hn]; rfl
  rw [locate_ofNames hnames.left] at htop
  obtain ⟨left, hleft⟩ := follow_append hdirectory (q.map .name) htop
  rw [locate_ofNames hnames, List.map_append, hleft]
  refine (follow_names fun r hr target hfind => ?_).2 ⟨rfl, ht.passes hn hlink⟩
  by_cases heq : r = q
  · rw [heq, hn] at hfind
    exact hlink target (Option.some.inj hfind)
  · have hparent := ht.directory hsome ((List.prefix_append_right_inj top).2 hr)
      fun he => heq (List.append_cancel_left he)
    rw [hparent] at hfind
    cases hfind

/-- **What stands below a directory has not changed** if the paths below it lead to the same. -/
theorem GrowsTo.find?_below (h : t.GrowsTo u) (ht : t.IsSound) (hu : u.IsSound)
    (htop : t.locate (ofNames names) = .ok top) (hdirectory : t.find? top = some .directory)
    (hnames : AreNames names)
    (hnode : ∀ q, AreNames (names ++ q) →
      u.node (ofNames (names ++ q)) = t.node (ofNames (names ++ q))) (q : Names) :
    u.find? (top ++ q) = t.find? (top ++ q) := by
  have htop' := locate_mono h.keeps htop
  have hdirectory' := h.directory hdirectory
  refine Option.ext fun n => ?_
  -- links neither come nor go, and all else is found behind a path
  by_cases hlink : ∃ target, n = .link target
  · obtain ⟨target, rfl⟩ := hlink
    refine ⟨h.link, fun hn => (h.keeps _ _ hn).resolve_right fun hfile => ?_⟩
    cases hfile.1
  have hplain : ∀ target, n ≠ .link target := fun target he => hlink ⟨target, he⟩
  constructor
  · intro hn
    have hq : AreNames (names ++ q) := hnames.append (hu.areNames (by rw [hn]; rfl)).1.right
    have hlocate := hu.locate_append hq htop' hdirectory' hn hplain
    have hsame := node_eq_ok.2 ⟨_, hlocate, hn⟩
    rw [hnode q hq] at hsame
    obtain ⟨there, hthere, hn'⟩ := node_eq_ok.1 hsame
    rw [← Except.ok.inj ((locate_mono h.keeps hthere).symm.trans hlocate), hn']
  · intro hn
    have hq : AreNames (names ++ q) := hnames.append (ht.areNames (by rw [hn]; rfl)).1.right
    have hlocate := ht.locate_append hq htop hdirectory hn hplain
    have hsame := node_eq_ok.2 ⟨_, hlocate, hn⟩
    rw [← hnode q hq] at hsame
    obtain ⟨there, hthere, hn'⟩ := node_eq_ok.1 hsame
    rw [← Except.ok.inj (hthere.symm.trans (locate_mono h.keeps hlocate)), hn']

end Tree

namespace Tool
namespace Cache
namespace Place

variable {c : Place} {among : Tool → Prop} {w w' : Workspace} {a m : Names} {p : Path}

/-- Whether what stands at a path is the same, whatever is stored in the cache. -/
def Spares (c : Place) (w : Workspace) (p : Path) : Prop :=
  ∀ w', c.Stocks (fun _ => True) w w' → w'.node p = w.node p

theorem Stocks.node_eq (h : c.Stocks among w w') (hp : c.Spares w p) : w'.node p = w.node p :=
  hp w' (h.mono fun _ _ => trivial)

/-- Whether a directory is out of sight of a cache: the same stands below it, whatever is stored in
the cache. -/
def IsOutOfSight (c : Place) (w : Workspace) (a : Names) : Prop :=
  ∀ w', c.Stocks (fun _ => True) w w' → ∀ m, AreNames (a ++ m) →
    w'.tree.node (ofNames (a ++ m)) = w.tree.node (ofNames (a ++ m))

/-- **A directory beside the cache is out of sight,** if no link is on the way. -/
theorem isOutOfSight_of_isPlain (ha : w.tree.IsPlain a) (hcovers : ∀ m, ¬c.Covers (a ++ m)) :
    c.IsOutOfSight w a :=
  fun _ hstocks _ hm =>
    ha.node_congr hstocks.grows.tree (fun m => hstocks.find?_of_not_covers (hcovers m)) hm

theorem IsOutOfSight.spares_ofNames (ha : c.IsOutOfSight w a) (hm : AreNames (a ++ m)) :
    c.Spares w (ofNames (a ++ m)) := by
  intro w' hstocks
  unfold Workspace.node
  rw [Path.absolute_of_isAbsolute w' (Path.isAbsolute_ofNames hm),
    Path.absolute_of_isAbsolute w (Path.isAbsolute_ofNames hm), ha w' hstocks m hm]

/-- **Below a directory out of sight nothing changes.** -/
theorem Stocks.agreeBelow (h : c.Stocks among w w') (hw : w.tree.IsSound)
    (ha : c.IsOutOfSight w a) : AgreeBelow w' w a where
  left := h.sound
  right := hw
  node m hm := h.node_eq (ha.spares_ofNames hm)
  walks m hm hdirectory e := by
    have hnode := ((Workspace.node_ofNames hm).1 (Workspace.hasDirectory_iff.1 hdirectory)).2
    obtain ⟨top, htop, hfind⟩ := Tree.node_eq_ok.1 hnode
    have hsame := h.grows.tree.find?_below hw h.sound htop hfind hm fun q hq => by
      rw [List.append_assoc] at hq ⊢
      exact ha w' (h.mono fun _ _ => trivial) _ hq
    obtain ⟨q, n⟩ := e
    unfold Workspace.Walks
    rw [Tree.locate_mono h.grows.tree.keeps htop, htop]
    simp only [Except.ok.injEq, exists_eq_left']
    rw [Tree.mem_below, Tree.mem_below, and_congr_left_iff]
    intro hne
    rw [← h.sound.find?_iff (by simp [hne]), ← hw.find?_iff (by simp [hne]), hsame]

end Place
end Cache
end Tool
end ReleaseLint
