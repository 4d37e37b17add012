/-
# A resolve is a process

`Resolver.resolve` does at once what a process does in steps: when nobody acts in
between, the process comes to the same workspace, the same requests and the same outcome
(`resolve_steps`).  So whatever holds after every run of the processes holds after
resolves, too (`resolve_run`).

| part | steps |
| --- | --- |
| `Resolver.version` | `settle` or `lookUp` |
| `Cache.isCached` | `hit` or `miss` |
| `Resolver.download` | `plan`, `fetch`, `sum`, `verify`, `unpack` |
| `Cache.store` | from `prepare` to `rename` |
-/

import ReleaseLint.Proofs.Cache.Process
import Mathlib.Tactic.SplitIfs

namespace ReleaseLint

namespace Session

variable {α β : Type} {m : Machine}

theorem runOn_bind (x : Session α) (f : α → Session β) (m : Machine) :
    (x >>= f).runOn m =
      match x.runOn m with
      | (.ok a, m') => (f a).runOn m'
      | (.error e, m') => (.error e, m') := by
  unfold runOn ExceptT.run StateT.run
  simp only [bind, ExceptT.bind, ExceptT.mk, StateT.bind, ExceptT.bindCont]
  rcases x m with ⟨a | a, m'⟩ <;> rfl

@[simp]
theorem runOn_pure (a : α) (m : Machine) : (pure a : Session α).runOn m = (.ok a, m) := rfl

@[simp]
theorem runOn_throw (e : Error) (m : Machine) :
    (throw e : Session α).runOn m = (.error e, m) := rfl

@[simp]
theorem runOn_get (m : Machine) : (get : Session Machine).runOn m = (.ok m, m) := rfl

@[simp]
theorem runOn_modify (f : Machine → Machine) (m : Machine) :
    (modify f : Session Unit).runOn m = (.ok (), f m) := rfl

@[simp]
theorem runOn_ask (url : String) (m : Machine) :
    (ask url).runOn m =
      (.ok (m.world.reply m.requests.length url),
        { m with requests := m.requests ++ [⟨url, m.world.reply m.requests.length url⟩] }) := rfl

@[simp]
theorem runOn_workspace (m : Machine) : workspace.runOn m = (.ok m.workspace, m) := rfl

@[simp]
theorem runOn_lift (x : Except Error α) (m : Machine) : (lift x).runOn m = (x, m) := by
  cases x <;> rfl

@[simp]
theorem runOn_attempt (x : Session α) (m : Machine) :
    (attempt x).runOn m = (.ok (x.runOn m).1, (x.runOn m).2) := rfl

end Session

namespace Tool

open Session

variable {m m' : Machine} {url : String}

theorem runOn_fetch (url : String) (m : Machine) :
    (fetch url).runOn m =
      if (Url.ofText url).isTooLong then (.error (.download url .addressTooLong), m)
      else ((m.world.reply m.requests.length url).body url,
        { m with requests := m.requests ++ [⟨url, m.world.reply m.requests.length url⟩] }) := by
  unfold fetch
  split_ifs with hlong
  · simp only [runOn_bind, runOn_throw]
  · simp only [runOn_bind, runOn_ask]
    unfold Reply.body
    cases m.world.reply m.requests.length url with
    | unreachable => rfl
    | response code body =>
      simp only
      split_ifs <;> rfl

theorem runOn_fetch_of_reply {data : ByteArray} (hshort : (Url.ofText url).isTooLong = false)
    (hreply : m.world.reply m.requests.length url = .response 200 data) :
    (fetch url).runOn m =
      (.ok data, { m with requests := m.requests ++ [⟨url, .response 200 data⟩] }) := by
  rw [runOn_fetch, hshort, if_neg Bool.false_ne_true, hreply]
  rfl

/-- **A download makes one request or none.** -/
theorem fetch_spec (url : String) (m : Machine) :
    ∃ log result, Fetches url log result ∧
      (fetch url).runOn m = (result, { m with requests := m.requests ++ log }) := by
  rw [runOn_fetch]
  by_cases hlong : (Url.ofText url).isTooLong = true
  · rw [if_pos hlong]
    exact ⟨[], _, .tooLong hlong, by rw [List.append_nil]⟩
  · rw [if_neg hlong]
    exact ⟨_, _, .reply _ (Bool.not_eq_true _ ▸ hlong), rfl⟩

theorem runOn_fetchText (url : String) (m : Machine) :
    (fetchText url).runOn m =
      (((fetch url).runOn m).1.map textOf, ((fetch url).runOn m).2) := by
  unfold fetchText
  rw [runOn_bind]
  rcases (fetch url).runOn m with ⟨e | data, m'⟩ <;> rfl

/-- A text is downloaded as it is, without a byte order mark. -/
theorem textOf_toUTF8 (s : String) : textOf s.toUTF8 = (Text.after? "\ufeff" s).getD s := by
  unfold textOf Text.decode String.fromUTF8?
  rw [dif_pos (show s.toUTF8.IsValidUTF8 from s.isValidUTF8)]
  rfl

/-- **Looking up the recommended versions is one download.** -/
theorem runOn_lookUp (r : Resolver) (t : Tool) (spec : String) (m : Machine) :
    (r.lookUp t).runOn m =
      (Task.versionsIn ⟨r, t, spec⟩ ((fetch r.versionsUrl).runOn m).1,
        ((fetch r.versionsUrl).runOn m).2) := by
  unfold Resolver.lookUp
  simp only [runOn_bind, runOn_attempt, runOn_fetchText]
  rcases (fetch r.versionsUrl).runOn m with ⟨result, m'⟩
  unfold Task.versionsIn
  cases result with
  | error e => cases e <;> rfl
  | ok data =>
    simp only [Except.map]
    cases Recommended.ofText (textOf data) <;> rfl

theorem lookUp_spec (r : Resolver) (t : Tool) (spec : String) (m : Machine) :
    ∃ log result, Fetches r.versionsUrl log result ∧
      (r.lookUp t).runOn m =
        (Task.versionsIn ⟨r, t, spec⟩ result, { m with requests := m.requests ++ log }) := by
  obtain ⟨log, result, hf, heq⟩ := fetch_spec r.versionsUrl m
  refine ⟨log, result, hf, ?_⟩
  rw [runOn_lookUp r t spec, heq]

/-- What one process comes to when nobody else acts. -/
abbrev Process.Steps : Workspace × Process → Workspace × Process → Prop :=
  Relation.ReflTransGen fun a b => a.2.Step a.1 b.1 b.2

theorem runOn_latest (r : Resolver) (t : Tool) (m : Machine) :
    (r.latest t).runOn m =
      match (r.recommended t).runOn m with
      | (.ok versions, m') => (versions.find t, m')
      | (.error e, m') => (.error e, m') := by
  unfold Resolver.latest
  rw [runOn_bind]
  rcases (r.recommended t).runOn m with ⟨e | versions, m'⟩
  · rfl
  · unfold Recommended.find
    simp only
    cases versions.version? t <;> rfl

/-- **The version is found in one step.** -/
theorem version_spec (r : Resolver) (t : Tool) (spec : String) (m : Machine) :
    ∃ log known result,
      (Process.start ⟨r, t, spec⟩ m.recommended).Step m.workspace m.workspace
        ((Process.mk ⟨r, t, spec⟩ known none log .lookUp).settle result) ∧
      (r.version t spec).runOn m =
        (result, { m with requests := m.requests ++ log, recommended := known }) := by
  have hm : m = { m with requests := m.requests ++ [], recommended := m.recommended } := by
    rw [List.append_nil]
  unfold Resolver.version
  by_cases hlatest : (Text.trim spec = "" || Text.trim spec = Version.latest) = true
  · have hversion : ∀ known, Task.version? ⟨r, t, spec⟩ known = known.map (·.find t) := by
      intro known
      unfold Task.version?
      simp only
      rw [if_pos hlatest]
    simp only
    rw [if_pos hlatest, runOn_latest]
    unfold Resolver.recommended
    simp only [runOn_bind, runOn_get]
    cases hknown : m.recommended with
    | some versions =>
      have hm' : m = { m with requests := m.requests ++ [], recommended := some versions } := by
        rw [← hknown]
        exact hm
      refine ⟨[], some versions, versions.find t, .settle rfl (hversion _), ?_⟩
      rw [← hm']
      rfl
    | none =>
      obtain ⟨log, result, hf, heq⟩ := lookUp_spec r t spec m
      have hstep : (Process.start ⟨r, t, spec⟩ none).Step m.workspace m.workspace
          ((Process.mk ⟨r, t, spec⟩ none none ([] ++ log) .lookUp).learn
            (Task.versionsIn ⟨r, t, spec⟩ result)) := .lookUp rfl (hversion none) hf
      simp only [runOn_bind, heq]
      cases hresult : Task.versionsIn ⟨r, t, spec⟩ result with
      | error e =>
        rw [hresult] at hstep
        exact ⟨log, none, .error e, hstep, by rw [hknown]⟩
      | ok versions =>
        rw [hresult] at hstep
        exact ⟨log, some versions, versions.find t, hstep, rfl⟩
  · have hversion : Task.version? ⟨r, t, spec⟩ m.recommended =
        some (.ok (Text.dropLeadingV (Text.trim spec))) := by
      unfold Task.version?
      simp only
      rw [if_neg hlatest]
    refine ⟨[], m.recommended, .ok (Text.dropLeadingV (Text.trim spec)), .settle rfl hversion, ?_⟩
    · simp only
      rw [if_neg hlatest, runOn_pure, ← hm]

theorem runOn_digest (release : Release) (m : Machine) :
    (Resolver.digest release).runOn m =
      (((fetch release.checksum.url).runOn m).1.bind fun data => release.digestIn (textOf data),
        ((fetch release.checksum.url).runOn m).2) := by
  unfold Resolver.digest
  rw [runOn_bind, runOn_fetchText]
  rcases (fetch release.checksum.url).runOn m with ⟨e | data, m'⟩
  · rfl
  · unfold Release.digestIn
    simp only [Except.map, Except.bind]
    cases release.checksum with
    | sidecar url =>
      simp only
      cases Checksum.inSidecar? (textOf data) <;> rfl
    | manifest url =>
      simp only
      cases Checksum.inManifest? (textOf data) release.archiveName <;> rfl

section

variable (task : Task) (known : Option Recommended) (version : String)

theorem runOn_download (m : Machine) :
    (task.resolver.download task.tool version).runOn m =
      match task.release version with
      | .error e => (.error e, m)
      | .ok release =>
        match (fetch release.archiveUrl).runOn m with
        | (.error e, m') => (.error e, m')
        | (.ok archive, m') =>
          match (Resolver.digest release).runOn m' with
          | (.error e, m'') => (.error e, m'')
          | (.ok digest, m'') =>
            ((Checksum.verify archive digest release.archiveName).bind fun _ =>
              release.unpack archive, m'') := by
  unfold Resolver.download Task.release
  cases hs : task.resolver.platform.isSupported with
  | false => rfl
  | true =>
    simp only [Bool.not_true, Bool.false_eq_true, if_false, runOn_bind, runOn_lift]
    cases Release.find task.tool version task.resolver.platform task.resolver.sites with
    | error e => rfl
    | ok release =>
      simp only
      rcases (fetch release.archiveUrl).runOn m with ⟨e | archive, m'⟩
      · rfl
      · simp only
        rcases (Resolver.digest release).runOn m' with ⟨e | digest, m''⟩
        · rfl
        · simp only
          cases Checksum.verify archive digest release.archiveName <;> rfl

variable {task version} in
/-- An archive with the published digest is unpacked. -/
theorem runOn_download_of_verify {release : Release} {archive data binary : ByteArray}
    {digest : String} {m₁ m₂ : Machine} (hrelease : task.release version = .ok release)
    (harchive : (fetch release.archiveUrl).runOn m = (.ok archive, m₁))
    (hdata : (fetch release.checksum.url).runOn m₁ = (.ok data, m₂))
    (hdigest : release.digestIn (textOf data) = .ok digest)
    (hverify : Checksum.verify archive digest release.archiveName = .ok ())
    (hunpack : release.unpack archive = .ok binary) :
    (task.resolver.download task.tool version).runOn m = (.ok binary, m₂) := by
  rw [runOn_download, hrelease]
  simp only [harchive, runOn_digest, hdata, Except.bind, hdigest, hverify, hunpack]

/-- **A download goes through the stages up to the binary.** -/
theorem download_spec (before : List Request) (m : Machine) :
    ∃ log result,
      Process.Steps (m.workspace, ⟨task, known, some version, before, .plan⟩)
        (m.workspace, ⟨task, known, some version, before ++ log,
          .after result (Process.preparation m.workspace task version)⟩) ∧
      (task.resolver.download task.tool version).runOn m =
        (result, { m with requests := m.requests ++ log }) := by
  let p (requests : List Request) (stage : Stage) : Workspace × Process :=
    (m.workspace, ⟨task, known, some version, requests, stage⟩)
  have hm : m = { m with requests := m.requests ++ [] } := by rw [List.append_nil]
  have hplan : Process.Steps (p before .plan) (p before (.after (task.release version) .fetch)) :=
    .single (.plan rfl rfl)
  rw [runOn_download]
  cases hrelease : task.release version with
  | error e =>
    rw [hrelease, Stage.after_error] at hplan
    exact ⟨[], .error e, by rw [List.append_nil]; exact hplan, by rw [← hm]⟩
  | ok release =>
    rw [hrelease, Stage.after_ok] at hplan
    obtain ⟨log, result, hf, heq⟩ := fetch_spec release.archiveUrl m
    have hfetch : Process.Steps (p before .plan) (p (before ++ log) (.after result (.sum release))) :=
      hplan.tail (.fetch rfl hf)
    simp only [heq]
    cases result with
    | error e =>
      rw [Stage.after_error] at hfetch
      exact ⟨log, .error e, hfetch, rfl⟩
    | ok archive =>
      rw [Stage.after_ok] at hfetch
      obtain ⟨log', result, hf', heq'⟩ := fetch_spec release.checksum.url
        { m with requests := m.requests ++ log }
      generalize hdigest : (result.bind fun data => release.digestIn (textOf data)) = digest
      have hsum : Process.Steps (p before .plan)
          (p (before ++ log ++ log') (.after digest (.verify release archive))) :=
        hfetch.tail (hdigest ▸ .sum rfl hf')
      have hlog : m.requests ++ log ++ log' = m.requests ++ (log ++ log') := List.append_assoc ..
      rw [List.append_assoc] at hsum
      simp only [runOn_digest, heq', hdigest, hlog]
      cases digest with
      | error e =>
        rw [Stage.after_error] at hsum
        exact ⟨log ++ log', .error e, hsum, rfl⟩
      | ok digest =>
        rw [Stage.after_ok] at hsum
        simp only
        generalize hcheck : Checksum.verify archive digest release.archiveName = check
        have hverify : Process.Steps (p before .plan)
            (p (before ++ (log ++ log')) (.after check fun _ => .unpack release archive)) :=
          hsum.tail (hcheck ▸ .verify rfl)
        cases check with
        | error e =>
          rw [Stage.after_error] at hverify
          exact ⟨log ++ log', .error e, hverify, rfl⟩
        | ok u =>
          rw [Stage.after_ok] at hverify
          have hunpack : Process.Steps (p before .plan) (p (before ++ (log ++ log'))
              (.after (release.unpack archive) (Process.preparation m.workspace task version))) :=
            hverify.tail (.unpack rfl rfl)
          generalize release.unpack archive = binary at hunpack ⊢
          exact ⟨log ++ log', binary, hunpack, rfl⟩

/-- The directories of a binary are made one by one. -/
theorem prepare_steps (binary : ByteArray) (requests : List Request) (segments : List Segment) :
    ∀ (w : Workspace) (here : Path),
      Process.Steps (w, ⟨task, known, some version, requests, .prepare binary here segments⟩)
        ({ w with tree := (w.tree.makeDirectories here segments).1 },
          ⟨task, known, some version, requests,
            match (w.tree.makeDirectories here segments).2 with
            | none => .create binary
            | some _ => .ended (.error (.cacheDirectory (task.directory version)))⟩) := by
  induction segments with
  | nil => exact fun w here => .single (.prepared rfl)
  | cons s rest ih =>
    intro w here
    rw [Tree.makeDirectories_cons]
    rcases hmake : w.tree.makeDirectory here s with ⟨tree, f⟩
    cases f with
    | some f => exact .single (.unprepared rfl rfl hmake)
    | none => exact .head (.prepare rfl rfl hmake) (ih { w with tree } (here / s.text))

/-- Some name of a temporary file is new everywhere. -/
theorem exists_temporaryName (entries : List (Names × Node)) :
    ∃ name, Process.IsTemporaryName name ∧ ∀ e ∈ entries, name ∉ e.1 := by
  have hbound : ∀ l : List String, ∃ n, ∀ s ∈ l, s.length < n := by
    intro l
    induction l with
    | nil => exact ⟨0, fun s hs => absurd hs List.not_mem_nil⟩
    | cons a l ih =>
      obtain ⟨n, hn⟩ := ih
      refine ⟨max (a.length + 1) n, fun s hs => ?_⟩
      rcases List.mem_cons.1 hs with rfl | hs
      · omega
      · have := hn s hs
        omega
  obtain ⟨n, hn⟩ := hbound (entries.flatMap (·.1))
  have hlist : (".tmp" ++ String.ofList (List.replicate n 'a')).toList =
      ['.', 't', 'm', 'p'] ++ List.replicate n 'a' := by
    simp
  refine ⟨".tmp" ++ String.ofList (List.replicate n 'a'), ⟨?_, ?_⟩, fun e he hmem => ?_⟩
  · unfold Text.beginsWith
    rw [hlist, List.isPrefixOf_iff_prefix]
    exact List.prefix_append _ _
  · rw [hlist]
    simp
  · have := hn _ (List.mem_flatMap.2 ⟨e, he, hmem⟩)
    rw [← String.length_toList, hlist, List.length_append, List.length_replicate] at this
    omega

/-- A binary is written and takes its place, or everything is as before. -/
theorem putFile_steps (binary : ByteArray) (requests : List Request) (w : Workspace) :
    ∃ w' outcome,
      Process.Steps (w, ⟨task, known, some version, requests, .create binary⟩)
        (w', ⟨task, known, some version, requests, .ended outcome⟩) ∧
      match Cache.putFile w (task.directory version) (task.target version) task.binaryName binary with
      | .error _ => w' = w ∧ outcome = .error (.cacheFile (task.target version))
      | .ok w'' => w' = w'' ∧ outcome = .ok (task.target version) := by
  let p (w : Workspace) (stage : Stage) : Workspace × Process :=
    (w, ⟨task, known, some version, requests, stage⟩)
  unfold Cache.putFile
  cases hfault : (task.target version).fault? with
  | some f =>
    have hbad : (task.target version).fault? ≠ none := by simp [hfault]
    exact ⟨w, _, .single (.uncreated rfl rfl (.inl hbad)), rfl, rfl⟩
  | none =>
    cases hlocate : w.tree.locate (w.absolute (task.directory version)) with
    | error f =>
      exact ⟨w, _, .single (.uncreated rfl rfl (.inr ⟨f, hlocate⟩)), rfl, rfl⟩
    | ok names =>
      obtain ⟨name, hname, hfresh⟩ := exists_temporaryName w.tree.entries
      have hbelow : ∀ e ∈ w.tree.entries, ¬names ++ [name] <+: e.1 := by
        intro e he hpre
        exact hfresh e he (hpre.subset (by simp))
      have hnone : w.tree.find? (names ++ [name]) = none := by
        rw [Tree.find?_of_ne_nil (by simp), Option.map_eq_none_iff, List.find?_eq_none]
        intro e he heq
        exact hbelow e he (by rw [beq_iff_eq.1 heq])
      let written (data : ByteArray) (x : Bool) : Workspace :=
        { w with tree := w.tree.put (names ++ [name]) (.file data x) }
      have hcreate : Process.Steps (p w (.create binary))
          (p (written .empty false) (.write binary (names ++ [name]) 0)) :=
        .single (.create rfl rfl hfault hlocate hname hnone)
      have hfind : ∀ data x, (written data x).tree.find? (names ++ [name]) =
          some (.file data x) := by
        intro data x
        rw [Tree.find?_put (by simp), if_pos rfl]
      have hagain : ∀ data x data' x',
          { written data x with
            tree := (written data x).tree.put (names ++ [name]) (.file data' x') } =
          written data' x' := by
        intro data x data' x'
        simp only [written, Tree.put_put]
      have hwrite : Process.Steps (p w (.create binary))
          (p (written binary false) (.write binary (names ++ [name]) binary.size)) := by
        by_cases hsize : binary.size = 0
        · rw [ByteArray.size_eq_zero_iff.1 hsize] at hcreate ⊢
          exact hcreate
        · have hstep : Process.Step (written .empty false)
              ⟨task, known, some version, requests, .write binary (names ++ [name]) 0⟩ _ _ :=
            .write rfl (Nat.pos_of_ne_zero hsize) (Nat.le_refl _)
          rw [hagain, ByteArray.extract_zero_size] at hstep
          exact hcreate.tail hstep
      have hpermit : Process.Steps (p w (.create binary))
          (p (written binary true) (.rename (names ++ [name]))) := by
        have hstep : Process.Step (written binary false)
            ⟨task, known, some version, requests, .write binary (names ++ [name]) binary.size⟩ _ _ :=
          .permit rfl (hfind binary false)
        rw [hagain] at hstep
        exact hwrite.tail hstep
      have hlocate' : (written binary true).tree.locate
          ((written binary true).absolute (task.directory version)) = .ok names := by
        refine Tree.locate_mono (fun m n hn => .inl ?_) hlocate
        rw [Tree.find?_put (by simp), if_neg, hn]
        rintro rfl
        rw [hnone] at hn
        cases hn
      have hremove : (written binary true).tree.remove (names ++ [name]) = w.tree :=
        Tree.remove_put hbelow
      have hkey : w.tree.find? (names ++ [task.binaryName]) = some .directory ↔
          (written binary true).tree.find? (names ++ [task.binaryName]) = some .directory := by
        rw [Tree.find?_put (by simp)]
        split_ifs with hm
        · rw [hm, hnone]
          simp
        · rfl
      by_cases hdir : w.tree.find? (names ++ [task.binaryName]) = some .directory
      · have hstep : Process.Step (written binary true)
            ⟨task, known, some version, requests, .rename (names ++ [name])⟩ _ _ :=
          .unrenamed rfl rfl hlocate' (hkey.1 hdir)
        rw [hremove] at hstep
        refine ⟨w, _, hpermit.tail hstep, ?_⟩
        simp [bind, Except.bind, hdir, throw, throwThe, MonadExceptOf.throw]
      · have hstep : Process.Step (written binary true)
            ⟨task, known, some version, requests, .rename (names ++ [name])⟩ _ _ :=
          .rename rfl rfl hlocate' (hfind binary true) (hkey.not.1 hdir)
        rw [hremove] at hstep
        refine ⟨_, _, hpermit.tail hstep, ?_⟩
        simp only [bind, Except.bind]
        cases hn : w.tree.find? (names ++ [task.binaryName]) with
        | none => exact ⟨rfl, trivial⟩
        | some n =>
          cases n with
          | directory => exact absurd hn hdir
          | file data x => exact ⟨rfl, trivial⟩
          | link target => exact ⟨rfl, trivial⟩

/-- **Storing a binary goes from its directories to the rename.** -/
theorem store_spec (binary : ByteArray) (requests : List Request) (m : Machine) :
    ∃ w' outcome,
      Process.Steps (m.workspace, ⟨task, known, some version, requests,
          Process.preparation m.workspace task version binary⟩)
        (w', ⟨task, known, some version, requests, .ended outcome⟩) ∧
      (Cache.store task.resolver.cacheRoot task.tool version task.resolver.platform binary).runOn m =
        (outcome, { m with workspace := w' }) := by
  have htarget : Cache.binaryPath task.resolver.cacheRoot task.tool version
      task.resolver.platform = task.target version := rfl
  have hdirectory : (task.target version).parent?.getD task.resolver.cacheRoot =
      task.directory version := rfl
  have hname : task.tool.binaryName task.resolver.platform = task.binaryName := rfl
  unfold Cache.store
  simp only [runOn_bind, runOn_workspace, htarget, hdirectory, hname]
  unfold Process.preparation Workspace.makeDirectories
  cases hfault : (task.directory version).fault? with
  | some f => exact ⟨m.workspace, _, .refl, by simp⟩
  | none =>
    simp only
    have hprepare := prepare_steps task known version binary requests
      (m.workspace.absolute (task.directory version)).segments m.workspace ⟨"/"⟩
    rcases hmade : m.workspace.tree.makeDirectories ⟨"/"⟩
      (m.workspace.absolute (task.directory version)).segments with ⟨tree, f⟩
    rw [hmade] at hprepare
    cases f with
    | some f => exact ⟨_, _, hprepare, by simp⟩
    | none =>
      obtain ⟨w', outcome, hput, hmatch⟩ := putFile_steps task known version binary requests
        { m.workspace with tree }
      refine ⟨w', outcome, hprepare.trans hput, ?_⟩
      simp only [runOn_modify, Option.isSome_none, Bool.false_eq_true, if_false]
      revert hmatch
      cases Cache.putFile { m.workspace with tree } (task.directory version) (task.target version)
        task.binaryName binary with
      | error f =>
        rintro ⟨rfl, rfl⟩
        rfl
      | ok w'' =>
        rintro ⟨rfl, rfl⟩
        rfl

/-- **A resolve is a process that nobody interrupts.** -/
theorem resolve_steps (m : Machine) :
    ∃ p w,
      Process.Steps (m.workspace, .start task m.recommended) (w, p) ∧
      ∃ outcome, p.stage = .ended outcome ∧
        (task.resolver.resolve task.tool task.spec).runOn m =
          (outcome, { m with
            workspace := w
            requests := m.requests ++ p.requests
            recommended := p.known }) := by
  obtain ⟨log, known, result, hversion, heq⟩ :=
    version_spec task.resolver task.tool task.spec m
  unfold Resolver.resolve
  simp only [runOn_bind, heq, runOn_workspace]
  cases result with
  | error e => exact ⟨_, m.workspace, .single hversion, _, rfl, rfl⟩
  | ok version =>
    have hcheck : Process.Steps (m.workspace, .start task m.recommended)
        (m.workspace, ⟨task, known, some version, log, .check⟩) := .single hversion
    have hcached : Cache.isCached m.workspace task.resolver.cacheRoot task.tool version
        task.resolver.platform = m.workspace.hasFile (task.target version) := rfl
    have htarget : Cache.binaryPath task.resolver.cacheRoot task.tool version
        task.resolver.platform = task.target version := rfl
    simp only [hcached, htarget]
    cases hhit : m.workspace.hasFile (task.target version) with
    | true =>
      have hended : Process.Steps (m.workspace, .start task m.recommended)
          (m.workspace, ⟨task, known, some version, log, .ended (.ok (task.target version))⟩) :=
        hcheck.tail (.hit rfl rfl hhit)
      refine ⟨_, _, hended, _, rfl, ?_⟩
      rw [if_pos rfl, runOn_pure]
    | false =>
      have hplan : Process.Steps (m.workspace, .start task m.recommended)
          (m.workspace, ⟨task, known, some version, log, .plan⟩) :=
        hcheck.tail (.miss rfl rfl hhit)
      obtain ⟨log', result, hdownload, heq'⟩ := download_spec task known version log
        { m with requests := m.requests ++ log, recommended := known }
      rw [if_neg Bool.false_ne_true]
      have hlog : m.requests ++ log ++ log' = m.requests ++ (log ++ log') := List.append_assoc ..
      simp only [runOn_bind, heq', hlog]
      cases result with
      | error e => exact ⟨_, m.workspace, hplan.trans hdownload, _, rfl, rfl⟩
      | ok binary =>
        obtain ⟨w', outcome, hstore, heq''⟩ := store_spec task known version binary (log ++ log')
          { m with requests := m.requests ++ (log ++ log'), recommended := known }
        rw [Stage.after_ok] at hdownload
        exact ⟨_, w', (hplan.trans hdownload).trans hstore, outcome, rfl, heq''⟩

end

/-- **A resolve by one process, while the others wait, is a run of all of them.** -/
theorem resolve_run {ι : Type} (s : System ι) (i : ι) {task : Task} (m : Machine)
    (hw : m.workspace = s.workspace) (hp : s.process i = .start task m.recommended) :
    ∃ s', System.Run s s' ∧
      s'.workspace = ((task.resolver.resolve task.tool task.spec).runOn m).2.workspace ∧
      (s'.process i).stage = .ended ((task.resolver.resolve task.tool task.spec).runOn m).1 ∧
      ∀ j, j ≠ i → s'.process j = s.process j := by
  classical
  have hrun : ∀ b : Workspace × Process, Process.Steps (s.workspace, s.process i) b →
      System.Run s ⟨b.1, Function.update s.process i b.2⟩ := by
    intro b hb
    induction hb with
    | refl => rw [Function.update_eq_self]
    | tail _ hstep ih =>
      refine ih.tail ?_
      rename_i b b' _
      have hstep' : (Function.update s.process i b.2 i).Step b.1 b'.1 b'.2 := by
        rw [Function.update_self]
        exact hstep
      have hnext : System.Step ⟨b.1, Function.update s.process i b.2⟩ _ := .of i hstep'
      rw [Function.update_idem] at hnext
      exact hnext
  obtain ⟨p, w, hsteps, outcome, hend, heq⟩ := resolve_steps task m
  rw [hw, ← hp] at hsteps
  rw [heq]
  refine ⟨_, hrun (w, p) hsteps, rfl, ?_, fun j hj => Function.update_of_ne hj _ _⟩
  show (Function.update s.process i p i).stage = _
  rw [Function.update_self, hend]

end Tool
end ReleaseLint
