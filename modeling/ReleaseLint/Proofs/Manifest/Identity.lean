/-
# Which names and versions share a key

Charts and manifests are told apart by one text, their name and their version with a colon
between them.  The colon may stand in both parts as well, so that a key does not say where the
name ends:

| name | version | key |
| --- | --- | --- |
| `a:b` | `c` | `a:b:c` |
| `a` | `b:c` | `a:b:c` |

Two keys are the same precisely if the names and versions are, or if one name goes on, behind a
colon, with what the other version begins with (`Identity.key_eq_iff`).  That takes a colon in a
name and another one in a version (`Identity.Overlaps.colons`), so without colons on one of the
two sides keys are as good as names and versions (`Identity.AreSeparable.sharesKey_iff`).
-/

import ReleaseLint.Proofs.Except
import ReleaseLint.Proofs.Manifest.Pairing

namespace ReleaseLint

/-- The name and the version of a chart. -/
structure Identity where
  name : String
  version : String
deriving DecidableEq, Repr

namespace Identity

variable {i j : Identity} {l : List Identity}

/-- The text that stands for a name and a version. -/
def key (i : Identity) : String :=
  i.name ++ ":" ++ i.version

/-- Whether a name goes on, behind another one and a colon, with what the version of the other
begins with. -/
def Overlaps (i j : Identity) : Prop :=
  ∃ middle, i.name = j.name ++ ":" ++ middle ∧ j.version = middle ++ ":" ++ i.version

/-- Whether a key does not tell two names and versions apart. -/
def SharesKey (i j : Identity) : Prop :=
  i = j ∨ i.Overlaps j ∨ j.Overlaps i

/-- Whether no name has a colon, or no version has one. -/
def AreSeparable (l : List Identity) : Prop :=
  (∀ i ∈ l, ':' ∉ i.name.toList) ∨ ∀ i ∈ l, ':' ∉ i.version.toList

/-- Two texts cut at colons are the same if they are cut at the same place, or if one cut stands
behind the other. -/
theorem append_colon_eq_iff {name version name' version' : List Char} :
    name ++ ':' :: version = name' ++ ':' :: version' ↔
      (name = name' ∧ version = version') ∨
        (∃ middle, name = name' ++ ':' :: middle ∧ version' = middle ++ ':' :: version) ∨
        ∃ middle, name' = name ++ ':' :: middle ∧ version = middle ++ ':' :: version' := by
  rw [List.append_eq_append_iff]
  constructor
  · rintro (⟨_ | ⟨c, middle⟩, rfl, hrest⟩ | ⟨_ | ⟨c, middle⟩, rfl, hrest⟩)
    · exact .inl ⟨(List.append_nil name).symm, (List.cons.inj hrest).2⟩
    · obtain ⟨rfl, rfl⟩ := List.cons.inj hrest
      exact .inr (.inr ⟨middle, rfl, rfl⟩)
    · exact .inl ⟨List.append_nil name', (List.cons.inj hrest).2.symm⟩
    · obtain ⟨rfl, rfl⟩ := List.cons.inj hrest
      exact .inr (.inl ⟨middle, rfl, rfl⟩)
  · rintro (⟨rfl, rfl⟩ | ⟨middle, rfl, rfl⟩ | ⟨middle, rfl, rfl⟩)
    · exact .inl ⟨[], (List.append_nil name).symm, rfl⟩
    · exact .inr ⟨':' :: middle, rfl, rfl⟩
    · exact .inl ⟨':' :: middle, rfl, rfl⟩

theorem toList_append_colon (s t : String) :
    (s ++ ":" ++ t).toList = s.toList ++ ':' :: t.toList := by
  rw [String.append_assoc, String.toList_append, String.toList_append]
  rfl

theorem overlaps_iff : i.Overlaps j ↔ ∃ middle, i.name.toList = j.name.toList ++ ':' :: middle ∧
    j.version.toList = middle ++ ':' :: i.version.toList := by
  unfold Overlaps
  constructor
  · rintro ⟨middle, hname, hversion⟩
    refine ⟨middle.toList, ?_, ?_⟩
    · rw [hname, toList_append_colon]
    · rw [hversion, toList_append_colon]
  · rintro ⟨middle, hname, hversion⟩
    refine ⟨String.ofList middle, String.toList_inj.1 ?_, String.toList_inj.1 ?_⟩
    · rw [hname, toList_append_colon, String.toList_ofList]
    · rw [hversion, toList_append_colon, String.toList_ofList]

/-- **What it takes to share a key.** -/
theorem key_eq_iff : i.key = j.key ↔ i.SharesKey j := by
  unfold SharesKey key
  rw [← String.toList_inj, toList_append_colon, toList_append_colon, append_colon_eq_iff,
    overlaps_iff, overlaps_iff, Identity.mk.injEq, String.toList_inj, String.toList_inj]

/-- An overlap takes a colon on both sides. -/
theorem Overlaps.colons (h : i.Overlaps j) : ':' ∈ i.name.toList ∧ ':' ∈ j.version.toList := by
  obtain ⟨middle, hname, hversion⟩ := overlaps_iff.1 h
  rw [hname, hversion]
  exact ⟨List.mem_append_right _ List.mem_cons_self, List.mem_append_right _ List.mem_cons_self⟩

theorem AreSeparable.not_overlaps (h : AreSeparable l) (hi : i ∈ l) (hj : j ∈ l) :
    ¬i.Overlaps j := by
  intro hoverlaps
  obtain ⟨hname, hversion⟩ := hoverlaps.colons
  rcases h with h | h
  · exact h i hi hname
  · exact h j hj hversion

/-- **Without colons on one of the two sides,** keys are as good as names and versions. -/
theorem AreSeparable.sharesKey_iff (h : AreSeparable l) (hi : i ∈ l) (hj : j ∈ l) :
    i.SharesKey j ↔ i = j := by
  unfold SharesKey
  rw [or_iff_left (not_or.2 ⟨h.not_overlaps hi hj, h.not_overlaps hj hi⟩)]

end Identity

/-- What a chart is known by. -/
def Chart.identity (c : Chart) : Identity :=
  ⟨c.name, c.version⟩

namespace Manifest

/-- What the chart of a manifest is known by. -/
def identity (m : Manifest) : Identity :=
  ⟨m.name, m.chartVersion⟩

theorem key_eq_key_iff {m m' : Manifest} : m.key = m'.key ↔ m.identity.SharesKey m'.identity :=
  Identity.key_eq_iff (i := m.identity) (j := m'.identity)

theorem key_eq_chart_key_iff {m : Manifest} {c : Chart} :
    m.key = c.key ↔ m.identity.SharesKey c.identity :=
  Identity.key_eq_iff (i := m.identity) (j := c.identity)

namespace Index

variable {index : Index} {m : Manifest} {charts : List Chart}

/-- **What is refused** is a manifest that shares its key with a stored one. -/
theorem exists_clash_iff :
    (∃ clash, index.insert m = .error clash) ↔
      ∃ stored ∈ index.manifests, stored.identity.SharesKey m.identity := by
  simp only [← key_eq_key_iff, ← mem_keys]
  obtain ⟨hnew, hinsert⟩ | ⟨stored, hget, hinsert⟩ := index.insert_cases m
  · rw [hinsert]
    exact iff_of_false (fun ⟨_, hclash⟩ => nomatch hclash) hnew
  · rw [hinsert]
    refine iff_of_true ⟨_, rfl⟩ ?_
    by_contra hnew
    exact Option.some_ne_none stored (hget.symm.trans (get?_eq_none_iff.2 hnew))

/-- **What is accepted** are charts each of which shares its key with a stored manifest. -/
theorem exists_orphans_iff :
    (∃ orphans, Resource.pair charts index = .ok orphans) ↔
      ∀ c ∈ charts, ∃ stored ∈ index.manifests, stored.identity.SharesKey c.identity := by
  simp only [← key_eq_chart_key_iff, ← mem_keys]
  rw [← unmatched_eq_nil_iff]
  obtain ⟨hmissing, hpair⟩ | ⟨hmissing, hpair⟩ := index.pair_cases charts
  · exact iff_of_true ⟨_, hpair⟩ hmissing
  · rw [hpair]
    exact iff_of_false (fun ⟨_, hok⟩ => nomatch hok) hmissing

end Index

/-- **Which manifests clash, and which charts have one.**  Whatever was stored batch by batch, a
manifest is refused precisely if it shares its key with a stored one, and charts are accepted
precisely if each of them does.  Where no name has a colon, or no version has one, that is to have
the same name and the same version. -/
theorem clashes_ofBatches (batches : List (List Manifest)) :
    let index := Index.ofBatches batches
    (∀ m, (∃ clash, index.insert m = .error clash) ↔
      ∃ stored ∈ index.manifests, stored.identity.SharesKey m.identity) ∧
    (∀ charts, (∃ orphans, Resource.pair charts index = .ok orphans) ↔
      ∀ c ∈ charts, ∃ stored ∈ index.manifests, stored.identity.SharesKey c.identity) ∧
    (∀ m, Identity.AreSeparable (m.identity :: index.manifests.map identity) →
      ((∃ clash, index.insert m = .error clash) ↔
        ∃ stored ∈ index.manifests, stored.identity = m.identity)) ∧
    ∀ charts : List Chart,
      Identity.AreSeparable (charts.map Chart.identity ++ index.manifests.map identity) →
      ((∃ orphans, Resource.pair charts index = .ok orphans) ↔
        ∀ c ∈ charts, ∃ stored ∈ index.manifests, stored.identity = c.identity) := by
  intro index
  refine ⟨fun m => Index.exists_clash_iff, fun charts => Index.exists_orphans_iff,
    fun m hseparable => Index.exists_clash_iff.trans ?_,
    fun charts hseparable => Index.exists_orphans_iff.trans ?_⟩
  · refine exists_congr fun stored => and_congr_right fun hstored => ?_
    exact hseparable.sharesKey_iff (List.mem_cons_of_mem _ (List.mem_map_of_mem hstored))
      List.mem_cons_self
  · refine forall₂_congr fun c hc => exists_congr fun stored => and_congr_right fun hstored => ?_
    exact hseparable.sharesKey_iff (List.mem_append_right _ (List.mem_map_of_mem hstored))
      (List.mem_append_left _ (List.mem_map_of_mem hc))

/-- A HelmChart document for a name and a version. -/
def helmChartText (name version : String) : String :=
  "kind: HelmChart\nspec:\n  chart:\n    name: " ++ name ++
    "\n    chartVersion: " ++ version ++ "\n"

/-- A second manifest for one version is refused, one for the next version is not; and the first
manifest is enough for the chart. -/
theorem clashes_of_webManifest :
    ∃ web again next, ofText ⟨"/m/web.yaml"⟩ (helmChartText "web" "1.0.0") = [web] ∧
      ofText ⟨"/m/again.yaml"⟩ (helmChartText "web" "1.0.0") = [again] ∧
      ofText ⟨"/m/next.yaml"⟩ (helmChartText "web" "1.0.1") = [next] ∧
      (∃ clash, (Index.ofBatches [[web]]).insert again = .error clash) ∧
      (¬∃ clash, (Index.ofBatches [[web]]).insert next = .error clash) ∧
      ∃ orphans, Resource.pair [⟨⟨"/c"⟩, "web", "1.0.0"⟩] (Index.ofBatches [[web]]) =
        .ok orphans := by
  obtain ⟨web, hweb, hwebId⟩ :
      ∃ m, ofText ⟨"/m/web.yaml"⟩ (helmChartText "web" "1.0.0") = [m] ∧
        m.identity = ⟨"web", "1.0.0"⟩ :=
    List.map_eq_singleton_iff.1 (by decide +kernel)
  obtain ⟨again, hagain, hagainId⟩ :
      ∃ m, ofText ⟨"/m/again.yaml"⟩ (helmChartText "web" "1.0.0") = [m] ∧
        m.identity = ⟨"web", "1.0.0"⟩ :=
    List.map_eq_singleton_iff.1 (by decide +kernel)
  obtain ⟨next, hnext, hnextId⟩ :
      ∃ m, ofText ⟨"/m/next.yaml"⟩ (helmChartText "web" "1.0.1") = [m] ∧
        m.identity = ⟨"web", "1.0.1"⟩ :=
    List.map_eq_singleton_iff.1 (by decide +kernel)
  have hstored : (Index.ofBatches [[web]]).manifests = [web] := rfl
  obtain ⟨-, -, hclash, hpair⟩ := clashes_ofBatches [[web]]
  simp only [hstored, List.map_singleton, List.mem_singleton, exists_eq_left, hwebId]
    at hclash hpair
  refine ⟨web, again, next, hweb, hagain, hnext, ?_, ?_, ?_⟩
  · refine (hclash again ?_).2 hagainId.symm
    rw [hagainId]
    exact .inl (by decide)
  · rw [hclash next, hnextId]
    · decide
    · rw [hnextId]
      exact .inl (by decide)
  · refine (hpair [_] (.inl (by decide))).2 fun c hc => ?_
    obtain rfl := List.mem_singleton.1 hc
    rfl

/-- A manifest for the version `c` of the chart `a:b` clashes with one for the version `b:c` of the
chart `a`, and is accepted as the manifest of this chart. -/
theorem distinct_identities_clash :
    ∃ first second chart, ofText ⟨"/m/one.yaml"⟩ (helmChartText "a:b" "c") = [first] ∧
      ofText ⟨"/m/two.yaml"⟩ (helmChartText "a" "b:c") = [second] ∧
      Chart.ofText ⟨"/c"⟩ "name: a\nversion: b:c\n" = .ok chart ∧
      first.identity ≠ second.identity ∧ first.identity ≠ chart.identity ∧
      (∃ clash, (Index.ofBatches [[first]]).insert second = .error clash) ∧
      ∃ orphans, Resource.pair [chart] (Index.ofBatches [[first]]) = .ok orphans := by
  obtain ⟨first, hfirst, hfirstId⟩ :
      ∃ m, ofText ⟨"/m/one.yaml"⟩ (helmChartText "a:b" "c") = [m] ∧
        m.identity = ⟨"a:b", "c"⟩ :=
    List.map_eq_singleton_iff.1 (by decide +kernel)
  obtain ⟨second, hsecond, hsecondId⟩ :
      ∃ m, ofText ⟨"/m/two.yaml"⟩ (helmChartText "a" "b:c") = [m] ∧
        m.identity = ⟨"a", "b:c"⟩ :=
    List.map_eq_singleton_iff.1 (by decide +kernel)
  have hchart : (Chart.ofText ⟨"/c"⟩ "name: a\nversion: b:c\n").toOption =
      some ⟨⟨"/c"⟩, "a", "b:c"⟩ := by decide +kernel
  have hshares : (Identity.mk "a:b" "c").SharesKey ⟨"a", "b:c"⟩ := .inr (.inl ⟨"b", rfl, rfl⟩)
  have hstored : first ∈ (Index.ofBatches [[first]]).manifests := List.mem_singleton_self first
  refine ⟨first, second, _, hfirst, hsecond, toOption_eq_some_iff.1 hchart, ?_, ?_, ?_, ?_⟩
  · rw [hfirstId, hsecondId]
    decide
  · rw [hfirstId]
    decide
  · exact Index.exists_clash_iff.2 ⟨first, hstored, by rwa [hfirstId, hsecondId]⟩
  · refine Index.exists_orphans_iff.2 fun c hc => ⟨first, hstored, ?_⟩
    obtain rfl := List.mem_singleton.1 hc
    rwa [hfirstId]

end Manifest
end ReleaseLint
