/-
# What is stored for some tools

Storing binaries for some tools changes nothing but the directories of these tools in the cache, and
what leads to the root where it is still to be made (`Place.Stocks`).

| in the cache | behind binaries of other tools |
| --- | --- |
| the directory of a tool | the same |
| the directories that lead to the root | the same, or made |

So what is cached for a tool, and what storing a binary for it comes to, does not depend on what has
been stored for other tools (`Stocks.isCached_eq`, `Stores.outcome_congr`).
-/

import ReleaseLint.Proofs.Cache.Storing
import ReleaseLint.Proofs.Tree.Making

namespace ReleaseLint
namespace Tool
namespace Cache

open Session
open Segment (IsName)

variable {c : Place} {among : Tool → Prop} {w w' w'' : Workspace} {root : Path} {t : Tool}
  {v : String} {p : Platform} {names r : Names} {binary : ByteArray} {m m' : Machine}

namespace Place

/-- Whether some names lie in the directory of one of some tools in a cache. -/
def HoldsFor (c : Place) (among : Tool → Prop) (names : Names) : Prop :=
  ∃ t, among t ∧ c.root ++ [t.name] <+: names

/-- Whether some names lead to the root of a cache from where it is missing. -/
def LeadsThrough (c : Place) (names : Names) : Prop :=
  ∃ r, r ≠ [] ∧ r <+: c.missing ∧ names = c.top ++ r

/-- Whether a workspace is another one in which binaries of some tools have been stored. -/
structure Stocks (c : Place) (among : Tool → Prop) (w w' : Workspace) : Prop where
  grows : w.GrowsTo w'
  sound : w'.tree.IsSound
  elsewhere : ∀ names, ¬c.HoldsFor among names → w'.tree.find? names = w.tree.find? names ∨
    c.LeadsThrough names ∧ w.tree.find? names = none ∧ w'.tree.find? names = some .directory

theorem Stocks.refl (h : w.tree.IsSound) : c.Stocks among w w :=
  ⟨.refl w, h, fun _ _ => .inl rfl⟩

theorem Stocks.trans (h : c.Stocks among w w') (h' : c.Stocks among w' w'') :
    c.Stocks among w w'' where
  grows := h.grows.trans h'.grows
  sound := h'.sound
  elsewhere names hnames := by
    rcases h'.elsewhere names hnames with heq | ⟨hway, hnone, hmade⟩
    · rw [heq]
      exact h.elsewhere names hnames
    · rcases h.elsewhere names hnames with heq | ⟨-, -, hdirectory⟩
      · exact .inr ⟨hway, heq ▸ hnone, hmade⟩
      · rw [hnone] at hdirectory
        cases hdirectory

theorem Stocks.mono {among' : Tool → Prop} (h : c.Stocks among w w')
    (hamong : ∀ t, among t → among' t) : c.Stocks among' w w' where
  grows := h.grows
  sound := h.sound
  elsewhere names hnames := h.elsewhere names fun ⟨t, ht, hpre⟩ => hnames ⟨t, hamong t ht, hpre⟩

theorem covers_of_holdsFor (h : c.HoldsFor among names) : c.Covers names := by
  obtain ⟨t, -, r, rfl⟩ := h
  rw [List.append_assoc]
  exact covers_below (by simp)

theorem covers_of_leadsThrough (h : c.LeadsThrough names) : c.Covers names := by
  obtain ⟨r, hne, hr, rfl⟩ := h
  exact ⟨r, hne, rfl, .inl hr⟩

/-- Nothing else is touched. -/
theorem Stocks.find?_of_not_covers (h : c.Stocks among w w') (hnames : ¬c.Covers names) :
    w'.tree.find? names = w.tree.find? names :=
  (h.elsewhere names fun hheld => hnames (covers_of_holdsFor hheld)).resolve_right
    fun hway => hnames (covers_of_leadsThrough hway.1)

theorem not_holdsFor_own (ht : ¬among t) : ¬c.HoldsFor among (c.root ++ t.name :: r) := by
  rintro ⟨u, hu, hpre⟩
  rw [List.prefix_append_right_inj, List.cons_prefix_cons] at hpre
  exact ht (name_injective hpre.1 ▸ hu)

/-- **The directory of a tool is its own.** -/
theorem Stocks.find?_own (h : c.Stocks among w w') (ht : ¬among t) (r : Names) :
    w'.tree.find? (c.root ++ t.name :: r) = w.tree.find? (c.root ++ t.name :: r) := by
  refine (h.elsewhere _ (not_holdsFor_own ht)).resolve_right ?_
  rintro ⟨⟨q, -, hq, heq⟩, -⟩
  rw [root, List.append_assoc] at heq
  have hle := hq.length_le
  rw [← List.append_cancel_left heq, List.length_append, List.length_cons] at hle
  omega

/-- What leads to names below the root leads to the root, or on from there. -/
theorem prefix_missing_cases (h : r <+: c.missing ++ names) :
    r <+: c.missing ∨ ∃ s more, r = c.missing ++ s :: more ∧ s :: more <+: names := by
  rcases List.prefix_or_prefix_of_prefix h (List.prefix_append _ _) with hr | ⟨more, rfl⟩
  · exact .inl hr
  · obtain _ | ⟨s, more⟩ := more
    · exact .inl (by rw [List.append_nil])
    · exact .inr ⟨s, more, rfl, (List.prefix_append_right_inj _).1 h⟩

theorem not_holdsFor_of_leads (hr : r <+: c.missing) : ¬c.HoldsFor among (c.top ++ r) := by
  rintro ⟨u, -, hpre⟩
  have hle := hpre.length_le
  have hle' := hr.length_le
  simp only [root, List.length_append, List.length_cons, List.length_nil] at hle
  omega

/-- **Directories can be made for a tool** in the one workspace if they can in the other. -/
theorem Stocks.opens_iff (h : c.Stocks among w w') (ht : ¬among t) :
    w'.tree.Opens c.top (c.missing ++ home t v p) ↔
      w.tree.Opens c.top (c.missing ++ home t v p) := by
  refine Tree.opens_congr fun q _ hq => ?_
  rcases prefix_missing_cases hq with hway | ⟨s, more, rfl, hmore⟩
  · exact (h.elsewhere _ (not_holdsFor_of_leads hway)).imp_right And.right
  · obtain ⟨rfl, -⟩ := List.cons_prefix_cons.1 hmore
    rw [← List.append_assoc]
    exact .inl (h.find?_own ht more)

/-! ### Storing a binary -/

/-- Directories that lead to the top of a place are not made. -/
theorem Leads.makeDirectories {tree : Tree} (h : c.Leads tree)
    (hsteps : ∀ x ∈ c.front, x.IsStep) (names : Names) :
    tree.makeDirectories ⟨"/"⟩ (.root :: (c.front ++ names.map .name)) =
      tree.makeDirectories (Path.along ⟨"/"⟩ (.root :: c.front)) (names.map .name) := by
  have hfront : tree.makeDirectories ⟨"/"⟩ (.root :: c.front) = (tree, none) := by
    rw [Tree.makeDirectories_cons]
    exact Tree.makeDirectories_of_follow (q := []) h.directory hsteps h.leads
  exact Tree.makeDirectories_append hfront

/-- **Making the directories of a binary** comes to an end if they are open, and stocks the cache. -/
theorem Stands.makeDirectories (h : c.Stands w root) (hw : w.tree.IsSound) (hv : IsName v)
    (hp : p.IsPlain) {f : Option SystemFault}
    (hmake : w.makeDirectories (directory root t v p) = (w', f)) :
    (f = none ↔ (directory root t v p).fault? = none ∧
        w.tree.Opens c.top (c.missing ++ home t v p)) ∧
      c.Stocks (· = t) w w' ∧
      w'.tree.find? (c.root ++ key t v p) = w.tree.find? (c.root ++ key t v p) := by
  have hsegments := h.segments_directory t hv hp
  have hsteps := Path.isStep_of_segments_eq hsegments
  have hgrows := w.makeDirectories_growsTo (directory root t v p)
  rw [hmake] at hgrows
  unfold Workspace.makeDirectories at hmake
  cases hfault : (directory root t v p).fault? with
  | some fault =>
    rw [hfault] at hmake
    obtain ⟨rfl, rfl⟩ := Prod.mk.inj hmake
    exact ⟨iff_of_false (by simp) (by simp), .refl hw, rfl⟩
  | none =>
    rw [hfault, hsegments] at hmake
    rcases hmade : w.tree.makeDirectories ⟨"/"⟩
      (.root :: (c.front ++ (c.missing ++ home t v p).map .name)) with ⟨tree, fault⟩
    rw [hmade] at hmake
    obtain ⟨rfl, rfl⟩ := Prod.mk.inj hmake
    have hfront : ∀ x ∈ c.front, x.IsStep := fun x hx => hsteps x (List.mem_append_left _ hx)
    have hnames : AreNames (c.missing ++ home t v p) := fun s hs =>
      hsteps _ (List.mem_append_right _ (List.mem_map_of_mem hs))
    rw [h.leads.makeDirectories hfront] at hmade
    obtain ⟨hopens, hsound, hchanges⟩ := Tree.makeDirectories_names hw h.leads.directory hfront
      hnames h.leads.leads (h.leads.linkless_names _) hmade
    refine ⟨by rw [hopens]; simp, ⟨hgrows, hsound, fun names hnames => ?_⟩, ?_⟩
    · refine (hchanges names).imp_right ?_
      rintro ⟨r, hne, hr, rfl, hchange⟩
      refine ⟨?_, hchange⟩
      rcases prefix_missing_cases hr with hway | ⟨s, more, rfl, hmore⟩
      · exact ⟨r, hne, hway, rfl⟩
      · obtain ⟨rfl, -⟩ := List.cons_prefix_cons.1 hmore
        refine absurd ⟨t, rfl, ?_⟩ hnames
        rw [← List.append_assoc, Place.root, List.prefix_append_right_inj]
        exact List.cons_prefix_cons.2 ⟨rfl, List.nil_prefix⟩
    · refine (hchanges _).resolve_right ?_
      rintro ⟨r, -, hr, heq, -⟩
      rw [Place.root, List.append_assoc] at heq
      have hle := hr.length_le
      rw [← List.append_cancel_left heq] at hle
      simp only [key, List.length_append, List.length_cons, List.length_nil] at hle
      omega

/-- Whether a file can be put at the path of a binary. -/
def Admits (c : Place) (root : Path) (t : Tool) (v : String) (p : Platform) (w : Workspace) : Prop :=
  (binaryPath root t v p).fault? = none ∧ w.tree.find? (c.root ++ key t v p) ≠ some .directory

/-- **A binary is put into its directory** if it is admitted there, and stocks the cache. -/
theorem Stands.putFile_cases (h : c.Stands w root) (hw : w.tree.IsSound) (hv : IsName v)
    (hp : p.IsPlain) (hdirectory : w.tree.find? (c.root ++ home t v p) = some .directory)
    (binary : ByteArray) :
    (∃ f, Cache.putFile w (directory root t v p) (binaryPath root t v p) (t.binaryName p) binary =
        .error f ∧ ¬c.Admits root t v p w) ∨
      ∃ w', Cache.putFile w (directory root t v p) (binaryPath root t v p) (t.binaryName p) binary =
          .ok w' ∧ c.Admits root t v p w ∧ c.Stocks (· = t) w w' ∧
        w'.tree.find? (c.root ++ key t v p) = some (.file binary true) := by
  have hkey : c.root ++ home t v p ++ [t.binaryName p] = c.root ++ key t v p := List.append_assoc ..
  have hlocate : w.tree.locate (w.absolute (directory root t v p)) = .ok (c.root ++ home t v p) := by
    refine (h.locate_directory t hv hp).2 ⟨rfl, ?_⟩
    rw [Place.root, List.append_assoc] at hdirectory
    exact hw.passes hdirectory fun target he => by cases he
  cases hput : Cache.putFile w (directory root t v p) (binaryPath root t v p) (t.binaryName p)
    binary with
  | error f =>
    refine .inl ⟨f, rfl, fun hadmits => ?_⟩
    obtain ⟨hfault, hfree⟩ := hadmits
    unfold Cache.putFile at hput
    simp only [hfault, hlocate, hkey, bind, Except.bind, pure, Except.pure] at hput
    cases hput
  | ok w' =>
    obtain ⟨hgrows, hfile, hfault, -⟩ := h.putFile hv hp hput
    obtain ⟨-, names, hnames, hfree, rfl⟩ := putFile_eq_ok hput
    obtain rfl := Except.ok.inj (hlocate.symm.trans hnames)
    refine .inr ⟨_, rfl, ⟨hfault, hkey ▸ hfree⟩, ⟨hgrows, ?_, fun names hnames => .inl ?_⟩, hfile⟩
    · refine hw.put hdirectory (t.isName_binaryName p) (fits_binaryName t p) (fun n hn => ?_) _
      cases n with
      | file d x => rfl
      | directory => exact absurd hn hfree
      | link target =>
        rw [hkey] at hn
        exact absurd hn (h.leads.linkless _ (covers_below (by simp [key])) target)
    · show (w.tree.put _ _).find? names = _
      rw [Tree.find?_put (by simp), if_neg]
      rintro rfl
      refine hnames ⟨t, rfl, ?_⟩
      rw [List.append_assoc, List.prefix_append_right_inj]
      exact List.cons_prefix_cons.2 ⟨rfl, List.nil_prefix⟩

theorem Stands.stocks (hc : c.Stands w root) (h : c.Stocks among w w') : c.Stands w' root :=
  hc.growsTo h.grows

end Place

/-- **Storing a binary comes to what the cache is like,** and stocks it. -/
theorem Stores.cases {x : Except Error Path} (h : Stores root t v p binary m (x, m'))
    (hc : c.Stands m.workspace root) (hm : m.workspace.tree.IsSound) (hv : IsName v)
    (hp : p.IsPlain) :
    c.Stocks (· = t) m.workspace m'.workspace ∧
      let isOpen := (directory root t v p).fault? = none ∧
        m.workspace.tree.Opens c.top (c.missing ++ home t v p)
      (¬isOpen ∧ x = .error (.cacheDirectory (directory root t v p)) ∨
        isOpen ∧ ¬c.Admits root t v p m.workspace ∧
          x = .error (.cacheFile (binaryPath root t v p)) ∨
        isOpen ∧ c.Admits root t v p m.workspace ∧ x = .ok (binaryPath root t v p) ∧
          m'.workspace.tree.find? (c.root ++ key t v p) = some (.file binary true)) := by
  cases h with
  | unprepared hmake =>
    obtain ⟨hopen, hstocks, -⟩ := hc.makeDirectories hm hv hp hmake
    exact ⟨hstocks, .inl ⟨hopen.not.1 (by simp), rfl⟩⟩
  | refused hmake hput =>
    obtain ⟨hopen, hstocks, hkey⟩ := hc.makeDirectories hm hv hp hmake
    refine ⟨hstocks, .inr (.inl ⟨hopen.1 rfl, ?_, rfl⟩)⟩
    rcases (hc.stocks hstocks).putFile_cases hstocks.sound hv hp
      (hc.find?_of_makeDirectories hv hp hmake) binary with ⟨f, -, hadmits⟩ | ⟨w', hput', -⟩
    · unfold Place.Admits at hadmits ⊢
      rwa [hkey] at hadmits
    · rw [hput'] at hput
      cases hput
  | stored hmake hput =>
    obtain ⟨hopen, hstocks, hkey⟩ := hc.makeDirectories hm hv hp hmake
    rcases (hc.stocks hstocks).putFile_cases hstocks.sound hv hp
      (hc.find?_of_makeDirectories hv hp hmake) binary with
      ⟨f, hput', -⟩ | ⟨w', hput', hadmits, hstocks', hfile⟩
    · rw [hput'] at hput
      cases hput
    · obtain rfl := Except.ok.inj (hput'.symm.trans hput)
      refine ⟨hstocks.trans hstocks', .inr (.inr ⟨hopen.1 rfl, ?_, rfl, hfile⟩)⟩
      unfold Place.Admits at hadmits ⊢
      rwa [hkey] at hadmits

/-! ### What is cached for other tools -/

/-- The file at the key of a binary is found at the path of the binary. -/
theorem Place.Stands.node_binaryPath {data : ByteArray} {x : Bool} (h : c.Stands w root)
    (hw : w.tree.IsSound) (hv : IsName v) (hp : p.IsPlain)
    (hfault : (binaryPath root t v p).fault? = none)
    (hfile : w.tree.find? (c.root ++ key t v p) = some (.file data x)) :
    w.node (binaryPath root t v p) = .ok (.file data x) := by
  have hpasses : w.tree.Passes c.top (c.missing ++ key t v p) := by
    rw [Place.root, List.append_assoc] at hfile
    exact hw.passes hfile fun target he => by cases he
  unfold Workspace.node
  rw [hfault]
  exact Tree.node_eq_ok.2
    ⟨_, (h.leads.locate_binaryPath h.segments_eq hv hp).2 ⟨rfl, hpasses⟩, hfile⟩

theorem Place.Stands.isCached_iff (h : c.Stands w root) (hw : w.tree.IsSound) (hv : IsName v)
    (hp : p.IsPlain) : isCached w root t v p = true ↔ (binaryPath root t v p).fault? = none ∧
      ∃ data x, w.tree.find? (c.root ++ key t v p) = some (.file data x) := by
  unfold isCached
  constructor
  · intro hcached
    obtain ⟨hfault, -, hfile⟩ := (hasFile_iff h.leads h.segments_eq hv hp).1 hcached
    exact ⟨hfault, hfile⟩
  · rintro ⟨hfault, data, x, hfile⟩
    unfold Workspace.hasFile
    rw [h.node_binaryPath hw hv hp hfault hfile]
    rfl

namespace Place.Stocks

/-- **What is cached for a tool does not depend on others.** -/
theorem isCached_eq (h : c.Stocks among w w') (hc : c.Stands w root) (hw : w.tree.IsSound)
    (ht : ¬among t) (hv : IsName v) (hp : p.IsPlain) :
    isCached w' root t v p = isCached w root t v p := by
  rw [Bool.eq_iff_iff, (hc.stocks h).isCached_iff h.sound hv hp, hc.isCached_iff hw hv hp,
    show key t v p = t.name :: [v, p.text, t.binaryName p] from rfl, h.find?_own ht]

/-- A cached binary of a tool stays as it is. -/
theorem node_of_isCached (h : c.Stocks among w w') (hc : c.Stands w root) (hw : w.tree.IsSound)
    (ht : ¬among t) (hv : IsName v) (hp : p.IsPlain) (hcached : isCached w root t v p = true) :
    w'.node (binaryPath root t v p) = w.node (binaryPath root t v p) := by
  obtain ⟨hfault, data, x, hfile⟩ := (hc.isCached_iff hw hv hp).1 hcached
  rw [hc.node_binaryPath hw hv hp hfault hfile]
  exact (hc.stocks h).node_binaryPath h.sound hv hp hfault ((h.find?_own ht _).trans hfile)

theorem admits_iff (h : c.Stocks among w w') (ht : ¬among t) :
    c.Admits root t v p w' ↔ c.Admits root t v p w := by
  unfold Admits
  rw [show key t v p = t.name :: [v, p.text, t.binaryName p] from rfl, h.find?_own ht]

end Place.Stocks

/-- **What storing a binary comes to does not depend on others:** it is the same in two workspaces
in which binaries of other tools have been stored, and so is the binary if it has been stored. -/
theorem Stores.outcome_congr {result result' : Except Error Path × Machine} {n : Machine}
    (h : Stores root t v p binary m result) (h' : Stores root t v p binary n result')
    (hm : c.Stocks among w m.workspace) (hn : c.Stocks among w n.workspace) (ht : ¬among t)
    (hc : c.Stands w root) (hv : IsName v) (hp : p.IsPlain) :
    result'.1 = result.1 ∧ ∀ path, result.1 = .ok path →
      result'.2.workspace.node path = result.2.workspace.node path := by
  obtain ⟨x, m'⟩ := result
  obtain ⟨x', n'⟩ := result'
  have hopen := (hn.opens_iff (v := v) (p := p) ht).trans (hm.opens_iff ht).symm
  have hadmits : c.Admits root t v p n.workspace ↔ c.Admits root t v p m.workspace :=
    (hn.admits_iff ht).trans (hm.admits_iff ht).symm
  obtain ⟨hstocks, hcases⟩ := h.cases (hc.stocks hm) hm.sound hv hp
  obtain ⟨hstocks', hcases'⟩ := h'.cases (hc.stocks hn) hn.sound hv hp
  simp only at hcases hcases'
  rw [hopen, hadmits] at hcases'
  rcases hcases with ⟨hclosed, rfl⟩ | ⟨hopened, hrefused, rfl⟩ | ⟨hopened, hadmitted, rfl, hfile⟩
  · rcases hcases' with ⟨-, rfl⟩ | ⟨hopened, -⟩ | ⟨hopened, -⟩
    · exact ⟨rfl, fun path he => by cases he⟩
    · exact absurd hopened hclosed
    · exact absurd hopened hclosed
  · rcases hcases' with ⟨hclosed, -⟩ | ⟨-, -, rfl⟩ | ⟨-, hadmitted, -⟩
    · exact absurd hopened hclosed
    · exact ⟨rfl, fun path he => by cases he⟩
    · exact absurd hadmitted hrefused
  · obtain ⟨rfl, hfile'⟩ : x' = .ok (binaryPath root t v p) ∧
        n'.workspace.tree.find? (c.root ++ key t v p) = some (.file binary true) := by
      rcases hcases' with ⟨hclosed, -⟩ | ⟨-, hrefused, -⟩ | ⟨-, -, hfile'⟩
      · exact absurd hopened hclosed
      · exact absurd hadmitted hrefused
      · exact hfile'
    refine ⟨rfl, fun path he => ?_⟩
    obtain rfl := Except.ok.inj he
    rw [((hc.stocks hm).stocks hstocks).node_binaryPath hstocks.sound hv hp hadmitted.1 hfile,
      ((hc.stocks hn).stocks hstocks').node_binaryPath hstocks'.sound hv hp hadmitted.1 hfile']

end Cache
end Tool
end ReleaseLint
