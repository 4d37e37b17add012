/-
# Charts that a pattern stands for

A chart is a directory with a marker: a regular file `Chart.yaml` or `Chart.yml`.  A pattern is
searched for once for each marker, with the marker behind it, and the charts are the directories
of what is found.  A pattern that ends like a marker is searched for as it is.

| last name of the pattern | what is found in the directories that are returned |
| --- | --- |
| `Chart.yaml`, `Chart.yml` | a marker of that name |
| ends like one of them, as `*Chart.yaml` | a regular file that ends so (`isLookAlike`) |
| any other | a marker |

`charts_of_pattern` says that no directory is returned twice, that each of them holds such a file
and, for the last line of the table, that no chart is left out.  A look-alike is no chart
(`charts_lookAlikeProject`).
-/

import ReleaseLint.Proofs.Glob.Below
import ReleaseLint.Proofs.Glob.Derived
import ReleaseLint.Proofs.Resource.Discovery
import ReleaseLint.Proofs.Tree.Making

namespace ReleaseLint
namespace Resource

open Glob (isPattern literalBase globTail Extends Selects IsWithinDepth IsEnding EndsWith)
open Path (ofNames)

variable {w : Workspace} {checker : Option Ignore.Checker} {m q s x k : String}
variable {names lead : Names} {found : List Path} {p d : Path}

/-- Whether a pattern ends like a marker. -/
def endsLikeMarker (p : Path) : Bool :=
  Chart.markers.any (Text.endsWith p.text)

/-- Whether the last name of a pattern ends like a marker without being one. -/
def isLookAlike (p : Path) : Bool :=
  p.fileName?.any fun s => Chart.markers.any (Text.endsWith s) && !Chart.markers.contains s

/-- Whether a directory holds a regular file of a name, and not a link to one. -/
structure Holds (w : Workspace) (d : Path) (s : String) : Prop where
  isFile : w.hasFile (d / s) = true
  isEntry : ∃ top, w.tree.locate d = .ok top ∧ w.tree.locate (d / s) = .ok (top ++ [s])

/-- Whether a pattern asks for a path: it is the base of a pattern without wildcards, or a search
of everything below the base finds it, no deeper than the tail is long unless a `**` is in it. -/
inductive AsksFor (w : Workspace) (f : Glob.Filter) (m : String) : Path → Prop
  | base (h : globTail m = []) (hkept : f.ignores w (literalBase w m) = false) :
    AsksFor w f m (literalBase w m)
  | below {names : Names} (h : globTail m ≠ []) (hselects : Selects w f m names .directory)
    (hdepth : IsWithinDepth (globTail m) names) :
    AsksFor w f m (Glob.pathBelow (literalBase w m) names)

/-! ### Markers -/

theorem isEnding_of_mem_markers (hk : k ∈ Chart.markers) : IsEnding k.toList := by
  rcases List.mem_pair.1 hk with rfl | rfl
  · exact ⟨by simp [Glob.ArePlain], by simp, by decide⟩
  · exact ⟨by simp [Glob.ArePlain], by simp, by decide⟩

theorem noClass_of_mem_markers (hk : k ∈ Chart.markers) : ']' ∉ k.toList := by
  rcases List.mem_pair.1 hk with rfl | rfl <;> decide

theorem isPattern_of_mem_markers (hk : k ∈ Chart.markers) : isPattern k = false := by
  rcases List.mem_pair.1 hk with rfl | rfl <;> decide

theorem ne_empty_of_mem_markers (hk : k ∈ Chart.markers) : k ≠ "" := by
  rcases List.mem_pair.1 hk with rfl | rfl <;> decide

theorem visible_of_mem_markers (hk : k ∈ Chart.markers) : k.toList.head? ≠ some '.' := by
  rcases List.mem_pair.1 hk with rfl | rfl <;> decide

theorem endsWith_self (s : String) : Text.endsWith s s = true :=
  List.isSuffixOf_iff_suffix.2 (List.suffix_refl _)

/-! ### What is found for one pattern -/

/-- **A pattern that ends like a marker finds regular files that end so,** with the name of the
marker if its last name is one. -/
theorem exists_of_mem_expand (hw : w.directory.isAbsolute = true) (ht : w.tree.IsSound)
    (hx : Extends q s x) (hk : k ∈ Chart.markers) (hs : Text.endsWith s k = true)
    {c : Option Ignore.Checker} (hfound : Glob.expand w ⟨true, c⟩ x = .ok found) (hp : p ∈ found) :
    ∃ names t n, AreNames (names ++ [t]) ∧ p = ofNames (names ++ [t]) ∧ Text.endsWith t k = true ∧
      w.tree.node p = .ok n ∧ n.isFile = true ∧ (s = k → t = k) := by
  obtain ⟨more, -, hbelow⟩ := Glob.isHit_of_mem_expand hw ht hfound hp
  obtain ⟨lead, hnames, hpath⟩ := hbelow.exists_ofNames hw
  obtain ⟨n, hnode, hfile⟩ := hbelow.isFile rfl
  obtain ⟨a, e, he⟩ := List.exists_cons_of_ne_nil
    (fun h => ne_empty_of_mem_markers hk (String.toList_eq_nil_iff.1 h))
  have hending := isEnding_of_mem_markers hk
  have hclass := noClass_of_mem_markers hk
  rw [Text.endsWith, List.isSuffixOf_iff_suffix] at hs
  obtain ⟨t, hname, hend⟩ : EndsWith p k.toList := by
    rw [he] at hending hclass hs ⊢
    exact hx.endsWith_of_mem hw ht hending hclass hs hfound hp
  rw [hpath] at hname
  obtain ⟨names, hconcat⟩ := Path.exists_eq_concat hnames hname
  rw [hconcat] at hpath hnames
  refine ⟨names, t, n, hnames, hpath, List.isSuffixOf_iff_suffix.2 hend, hnode, hfile, ?_⟩
  rintro rfl
  have hsame := hx.fileName?_of_mem hw ht hending hclass (isPattern_of_mem_markers hk) hfound hp
  rw [hpath, Path.fileName?_ofNames hnames] at hsame
  exact Option.some.inj hsame

/-! ### What a pattern leaves out -/

/-- A file that a directory holds is an entry below it. -/
theorem Holds.exists_below {top : Names} (h : Holds w (ofNames (lead ++ names)) s)
    (ht : w.tree.IsSound) (hnames : AreNames (lead ++ names ++ [s]))
    (htop : w.tree.locate (ofNames lead) = .ok top) (hbelow : (names, .directory) ∈ w.tree.below top) :
    ∃ node, (names ++ [s], node) ∈ w.tree.below top ∧ node.isFile = true := by
  obtain ⟨here, hhere, hentry⟩ := h.isEntry
  obtain ⟨hlocate, -⟩ := ht.locate_below hnames.left htop hbelow (fun _ he => by cases he)
  rw [hhere] at hlocate
  have hfile := h.isFile
  rw [← Path.ofNames_concat] at hfile hentry
  obtain ⟨node, hnode, hfile⟩ := Workspace.exists_node_of_hasFile hnames hfile
  obtain ⟨m, hm, hfind⟩ := Tree.node_eq_ok.1 hnode
  rw [hentry] at hm
  rw [← Except.ok.inj hm, Except.ok.inj hlocate, List.append_assoc] at hfind
  exact ⟨node, Tree.mem_below.2 ⟨Tree.mem_of_find? hfind (by simp), by simp⟩, hfile⟩

theorem Holds.size_lt (h : Holds w d s) : (d / s).text.utf8ByteSize < Path.maxSize := by
  have hfile := h.isFile
  unfold Workspace.hasFile Workspace.node at hfile
  cases hfault : (d / s).fault? with
  | some e =>
    rw [hfault] at hfile
    cases hfile
  | none =>
    unfold Path.fault? at hfault
    split_ifs at hfault with hzero hempty hlong
    exact Nat.not_le.1 hlong

/-- **What a pattern asks for is found by its marker,** if that is a regular file. -/
theorem mem_expand_of_selects (ht : w.tree.IsSound) (hlead : AreNames lead)
    (hbase : literalBase w m = ofNames lead) (hx : Extends m k x) (hk : k ∈ Chart.markers)
    {c : Option Ignore.Checker} (hfound : Glob.expand w ⟨true, c⟩ x = .ok found)
    (htail : globTail m ≠ []) (hselects : Selects w ⟨false, c⟩ m names .directory)
    (hdepth : IsWithinDepth (globTail m) names) (hholds : Holds w (ofNames (lead ++ names)) k)
    (hkept : Glob.Filter.ignores ⟨true, c⟩ w (ofNames (lead ++ names) / k) = false) :
    ofNames (lead ++ (names ++ [k])) ∈ found := by
  obtain ⟨top, hdirectory, htop, hbelow⟩ := hselects.isBelow
  obtain ⟨hnames, hne⟩ := Glob.areNames_below ht.named hbelow
  have hall : AreNames (lead ++ (names ++ [k])) :=
    hlead.append (hnames.concat (isName_of_mem_markers hk))
  have hmarker : AreNames (lead ++ names ++ [k]) := by rwa [List.append_assoc]
  have htail' := hx.globTail_eq (.inl htail)
  have hbase' : literalBase w x = ofNames lead := (hx.literalBase_eq (.inl htail)).trans hbase
  rw [hbase] at htop hdirectory
  rcases Glob.expand_eq_ok (by rw [htail']; simp) hfound with
    ⟨hnone, -⟩ | ⟨-, qs, hqs, hall'⟩
  · rw [hbase', hdirectory] at hnone
    cases hnone
  rw [hall', hbase', htail', Glob.mem_matchesBelow]
  rw [htail'] at hqs
  have hwhole : ofNames (lead ++ names) / k = ofNames (lead ++ (names ++ [k])) := by
    rw [← Path.ofNames_concat, List.append_assoc]
  rw [hwhole] at hkept
  obtain ⟨node, hentry, hfile⟩ := hholds.exists_below ht hmarker htop hbelow
  have hsize := hholds.size_lt
  rw [hwhole] at hsize
  refine ⟨top, names ++ [k], node, htop, hentry, ?_, ?_, ?_, (Glob.pathBelow_ofNames _ _).symm⟩
  · have hvisible : ∀ s ∈ names ++ [k], s.toList.head? ≠ some '.' := by
      intro s hs
      rcases List.mem_append.1 hs with hs | hs
      · exact hselects.visible s hs
      · exact List.mem_singleton.1 hs ▸ visible_of_mem_markers hk
    have hvisited := (Glob.isVisited_iff_of_short ht hlead hdirectory htop hentry hkept
      fun r hr _ _ => ?_).2 hvisible
    · rw [Glob.isListed, Glob.pathBelow_ofNames, hvisited, hkept, hfile]
      rfl
    · obtain ⟨r', hr'⟩ := hr
      rw [← hr', ← List.append_assoc] at hall hsize
      exact Nat.lt_of_le_of_lt (Path.size_ofNames_le hall) hsize
  · refine Glob.all_depth?_iff.2 fun hstars => ?_
    have hle := hdepth fun s hs => hstars s (List.mem_append_left _ hs)
    simpa using hle
  · obtain ⟨ps, hps, hmatch⟩ := hselects.matched
    rw [Glob.joined_concat, Glob.fronted_of_ne_nil htail, List.append_assoc,
      List.singleton_append] at hqs
    rw [← String.ofList_toList (s := String.intercalate _ _)] at hps
    refine Glob.isMatch_below (isEnding_of_mem_markers hk).plain ?_
      (Glob.getLast_joined (Glob.areNames_globTail m) htail) hps hqs (Glob.bytesOf_joined_concat hne k) hmatch
    exact fun he => ne_empty_of_mem_markers hk (String.toList_eq_nil_iff.1 he)

/-! ### All markers -/

theorem charts_eq_ok (hpattern : isPattern m = true) (h : charts w checker m = .ok found) :
    ∃ parts, (markerPatterns (Path.mk m).clean).mapM (files w checker m) = .ok parts ∧
      found = distinctPaths [] (parts.flatten.filterMap Path.parent?) := by
  unfold charts at h
  split_ifs at h with hblank hplain
  · rw [hpattern] at hplain
    cases hplain
  · obtain ⟨parts, hparts, hfound⟩ := bind_eq_ok.1 h
    exact ⟨parts, hparts, (Except.ok.inj hfound).symm⟩

/-- What is searched for are patterns that end like a marker. -/
theorem exists_extends_of_mem (hx : x ∈ markerPatterns (Path.mk m).clean) : ∃ q s, Extends q s x ∧
    (∃ k ∈ Chart.markers, Text.endsWith s k = true) ∧
      (isLookAlike (Path.mk m).clean = false → s ∈ Chart.markers) := by
  unfold markerPatterns at hx
  split_ifs at hx with hends
  · obtain rfl := List.mem_singleton.1 hx
    obtain ⟨k, hk, hsuffix⟩ := List.any_eq_true.1 hends
    rw [Text.endsWith, List.isSuffixOf_iff_suffix] at hsuffix
    have hlast : (Path.mk m).clean.text.toList.getLast? = some 'l' := by
      obtain ⟨front, hfront⟩ := hsuffix
      rw [← hfront]
      rcases List.mem_pair.1 hk with rfl | rfl
      · exact List.getLast?_append_of_ne_nil front (show "Chart.yaml".toList ≠ [] by decide)
      · exact List.getLast?_append_of_ne_nil front (show "Chart.yml".toList ≠ [] by decide)
    have hclean : (Path.mk (Path.mk m).clean.text).clean = (Path.mk m).clean := Path.clean_clean ⟨m⟩
    obtain ⟨s, hname⟩ := Glob.exists_fileName_of_getLast hlast (by decide) (by decide)
    obtain ⟨q, hextends, -, hdiv⟩ :=
      Glob.exists_extends_of_fileName (m := (Path.mk m).clean.text) (by rwa [hclean])
    rw [hclean] at hdiv
    rw [hdiv, Path.suffix_text_div_iff hextends.isName (isEnding_of_mem_markers hk).slash] at hsuffix
    have hk' : Text.endsWith s k = true := List.isSuffixOf_iff_suffix.2 hsuffix
    refine ⟨q, s, hextends, ⟨k, hk, hk'⟩, fun hnot => ?_⟩
    rw [hdiv, isLookAlike, Path.fileName?_div hextends.isName, Option.any_some,
      List.any_eq_true.2 ⟨k, hk, hk'⟩, Bool.true_and, Bool.not_eq_false'] at hnot
    exact List.contains_iff_mem.1 hnot
  · obtain ⟨k, hk, rfl⟩ := List.mem_map.1 hx
    exact ⟨m, k, Glob.extends_clean m (isName_of_mem_markers hk), ⟨k, hk, endsWith_self k⟩,
      fun _ => hk⟩

/-- **The charts that a pattern stands for.**  No directory is returned twice; each holds a regular
file that ends like a marker, and that is one unless the pattern is a look-alike; and if the
pattern does not end like a marker, every directory is returned that it asks for and that holds a
marker, unless that is ignored. -/
theorem charts_of_pattern (hw : w.directory.isAbsolute = true) (ht : w.tree.IsSound)
    (hpattern : isPattern m = true) (h : charts w checker m = .ok found) :
    found.Pairwise (fun p q => p.same q = false) ∧
    (∀ d ∈ found, ∃ s n, (∃ k ∈ Chart.markers, Text.endsWith s k = true) ∧
      w.tree.node (d / s) = .ok n ∧ n.isFile = true ∧
      (isLookAlike (Path.mk m).clean = false → s ∈ Chart.markers)) ∧
    (endsLikeMarker (Path.mk m).clean = false → ∀ d k,
      AsksFor w ⟨false, checkerFor checker m⟩ m d → k ∈ Chart.markers → Holds w d k →
      Glob.Filter.ignores ⟨true, checkerFor checker m⟩ w (d / k) = false → d ∈ found) := by
  obtain ⟨parts, hparts, hdistinct⟩ := charts_eq_ok hpattern h
  -- each file that is found for a marker, and its directory
  have hsound : ∀ part ∈ parts, ∀ p ∈ part, ∃ names t n, AreNames (names ++ [t]) ∧
      p = ofNames (names ++ [t]) ∧ (∃ k ∈ Chart.markers, Text.endsWith t k = true) ∧
      w.tree.node p = .ok n ∧ n.isFile = true ∧
      (isLookAlike (Path.mk m).clean = false → t ∈ Chart.markers) := by
    intro part hpart p hp
    obtain ⟨x, hx, hfound⟩ := (mem_of_mapM hparts).1 hpart
    obtain ⟨q, s, hextends, ⟨k, hk, hs⟩, hmarker⟩ := exists_extends_of_mem hx
    by_cases hmem : s ∈ Chart.markers
    · obtain ⟨names, t, n, hnames, hpath, hends, hnode, hfile, hsame⟩ :=
        exists_of_mem_expand hw ht hextends hmem (endsWith_self s) hfound hp
      exact ⟨names, t, n, hnames, hpath, ⟨s, hmem, hends⟩, hnode, hfile, fun _ => hsame rfl ▸ hmem⟩
    · obtain ⟨names, t, n, hnames, hpath, hends, hnode, hfile, -⟩ :=
        exists_of_mem_expand hw ht hextends hk hs hfound hp
      exact ⟨names, t, n, hnames, hpath, ⟨k, hk, hends⟩, hnode, hfile,
        fun hnot => absurd (hmarker hnot) hmem⟩
  have hmem : ∀ d, d ∈ found ↔ ∃ part ∈ parts, ∃ p ∈ part, p.parent? = some d := by
    intro d
    rw [hdistinct, mem_distinctPaths ?_ fun q hq => absurd hq List.not_mem_nil]
    · simp only [List.mem_filterMap, List.mem_flatten, List.not_mem_nil, not_false_eq_true, and_true]
      exact ⟨fun ⟨p, ⟨part, hpart, hp⟩, hd⟩ => ⟨part, hpart, p, hp, hd⟩,
        fun ⟨part, hpart, p, hp, hd⟩ => ⟨p, ⟨part, hpart, hp⟩, hd⟩⟩
    · intro d hd
      obtain ⟨p, hp, hparent⟩ := List.mem_filterMap.1 hd
      obtain ⟨part, hpart, hp⟩ := List.mem_flatten.1 hp
      obtain ⟨names, t, n, hnames, rfl, -⟩ := hsound part hpart p hp
      rw [Path.parent?_ofNames hnames] at hparent
      exact Option.some.inj hparent ▸ Path.isRooted_ofNames hnames.left
  refine ⟨?_, fun d hd => ?_, fun hends d k hasks hk hholds hkept => ?_⟩
  · rw [hdistinct]
    exact (pairwise_distinctPaths _ []).1
  · obtain ⟨part, hpart, p, hp, hparent⟩ := (hmem d).1 hd
    obtain ⟨names, t, n, hnames, rfl, hk, hnode, hfile, hmarker⟩ := hsound part hpart p hp
    rw [Path.parent?_ofNames hnames] at hparent
    obtain rfl := Option.some.inj hparent
    rw [Path.ofNames_concat] at hnode
    exact ⟨t, n, hk, hnode, hfile, hmarker⟩
  · have hx := Glob.extends_clean m (isName_of_mem_markers hk)
    have hsearched : Text.dropEnd (· == '/') (Path.mk m).clean.text ++ "/" ++ k ∈
        markerPatterns (Path.mk m).clean := by
      unfold endsLikeMarker at hends
      unfold markerPatterns
      rw [hends, if_neg Bool.false_ne_true]
      exact List.mem_map_of_mem hk
    obtain ⟨part, hpart⟩ := exists_mapM_iff.1 ⟨parts, hparts⟩ _ hsearched
    have hmempart := (mem_of_mapM hparts).2 ⟨_, hsearched, hpart⟩
    obtain ⟨lead, hlead, hbase⟩ := Glob.exists_literalBase_eq hw m
    refine (hmem d).2 ⟨part, hmempart, ?_⟩
    cases hasks with
    | base htail =>
      rw [hbase] at hholds hkept ⊢
      have hnames := hlead.concat (isName_of_mem_markers hk)
      refine ⟨ofNames (lead ++ [k]), ?_, Path.parent?_ofNames hnames⟩
      have hplain := isPattern_of_mem_markers hk
      have hfile := hholds.isFile
      rw [← Path.ofNames_concat] at hfile hkept
      rw [Glob.expand_of_plain (hx.globTail_of_plain htail hplain) hpart,
        hx.literalBase_of_plain hw htail hplain hlead hbase, (has_of_hasFile hfile).1, hfile, hkept]
      exact List.mem_singleton_self _
    | @below names htail hselects hdepth =>
      rw [hbase, Glob.pathBelow_ofNames] at hholds hkept ⊢
      obtain ⟨top, -, -, hbelow⟩ := hselects.isBelow
      have hnames := (hlead.append (Glob.areNames_below ht.named hbelow).1).concat
        (isName_of_mem_markers hk)
      refine ⟨_, mem_expand_of_selects ht hlead hbase hx hk hpart htail hselects hdepth hholds hkept,
        ?_⟩
      rw [← List.append_assoc]
      exact Path.parent?_ofNames hnames

/-- A repository with a chart for each marker, one that is ignored and a directory without a
marker. -/
def chartRepository : Workspace where
  tree := ⟨[(["r"], .directory), (["r", ".git"], .directory),
    (["r", ".gitignore"], .file "out/\n".toUTF8 false),
    (["r", "app"], .directory), (["r", "app", "Chart.yaml"], .file .empty false),
    (["r", "web"], .directory), (["r", "web", "Chart.yml"], .file .empty false),
    (["r", "out"], .directory), (["r", "out", "Chart.yaml"], .file .empty false),
    (["r", "doc"], .directory)]⟩
  directory := ⟨"/r"⟩

theorem charts_chartRepository : ∃ c found,
    Ignore.Checker.load chartRepository ⟨"."⟩ = .ok (some c) ∧
    charts chartRepository (some c) "*" = .ok found ∧ found = [⟨"/r/app"⟩, ⟨"/r/web"⟩] ∧
    found.Pairwise (fun p q => p.same q = false) ∧
    (∀ d ∈ found, ∃ s ∈ Chart.markers, ∃ n, chartRepository.tree.node (d / s) = .ok n ∧
      n.isFile = true) ∧
    AsksFor chartRepository ⟨false, checkerFor (some c) "*"⟩ "*" ⟨"/r/app"⟩ ∧
    Holds chartRepository ⟨"/r/app"⟩ "Chart.yaml" ∧
    ∀ d k, AsksFor chartRepository ⟨false, checkerFor (some c) "*"⟩ "*" d → k ∈ Chart.markers →
      Holds chartRepository d k →
      Glob.Filter.ignores ⟨true, checkerFor (some c) "*"⟩ chartRepository (d / k) = false →
      d ∈ found := by
  obtain ⟨c, hc, hsays⟩ := Ignore.exists_load_iff.2
    (show ((Ignore.Checker.load chartRepository ⟨"."⟩).toOption.bind id).any (fun c =>
      (charts chartRepository (some c) "*").toOption == some [⟨"/r/app"⟩, ⟨"/r/web"⟩] &&
        !Glob.Filter.ignores ⟨false, checkerFor (some c) "*"⟩ chartRepository
          (Glob.pathBelow (literalBase chartRepository "*") ["app"])) = true by decide +kernel)
  rw [Bool.and_eq_true, beq_iff_eq, Bool.not_eq_true'] at hsays
  have hfound := toOption_eq_some_iff.1 hsays.1
  obtain ⟨hdistinct, hcharts, hall⟩ := charts_of_pattern
    (show chartRepository.directory.isAbsolute = true by decide)
    (show chartRepository.tree.IsSound by decide +kernel) (by decide) hfound
  have hselects : Selects chartRepository ⟨false, checkerFor (some c) "*"⟩ "*" ["app"] .directory := by
    have hmatch : ((Glob.parse .search ("/".intercalate (globTail "*"))).toOption.any
        (Glob.isMatch · ("/".intercalate ["app"]))) = true := by decide +kernel
    obtain ⟨ps, hps, hmatch⟩ := (Option.any_eq_true _ _).1 hmatch
    exact ⟨⟨["r"], by decide +kernel, toOption_eq_some_iff.1 (by decide +kernel),
      Tree.mem_below.2 ⟨by simp [chartRepository], by simp⟩⟩,
      ⟨ps, toOption_eq_some_iff.1 hps, hmatch⟩, by decide, (fun h => by cases h), hsays.2⟩
  refine ⟨c, _, hc, hfound, rfl, hdistinct, fun d hd => ?_, ?_, ?_, hall (by decide +kernel)⟩
  · obtain ⟨s, n, -, hnode, hfile, hmarker⟩ := hcharts d hd
    exact ⟨s, hmarker (by decide +kernel), n, hnode, hfile⟩
  · have hpath : Glob.pathBelow (literalBase chartRepository "*") ["app"] = ⟨"/r/app"⟩ := by
      decide +kernel
    rw [← hpath]
    exact .below (by decide +kernel) hselects fun _ => by decide +kernel
  · exact ⟨by decide +kernel, ["r", "app"], toOption_eq_some_iff.1 (by decide +kernel),
      toOption_eq_some_iff.1 (by decide +kernel)⟩

/-- A directory with a file whose name only ends like a marker. -/
def lookAlikeProject : Workspace where
  tree := ⟨[(["m"], .directory), (["m", "MyChart.yaml"], .file "x".toUTF8 false)]⟩
  directory := ⟨"/m"⟩

/-- **A look-alike finds directories that are no charts.** -/
theorem charts_lookAlikeProject :
    charts lookAlikeProject none "/m/*Chart.yaml" = .ok [⟨"/m"⟩] ∧
    isChart lookAlikeProject ⟨"/m"⟩ = false :=
  ⟨toOption_eq_some_iff.1 (by decide +kernel), by decide +kernel⟩

end Resource
end ReleaseLint
