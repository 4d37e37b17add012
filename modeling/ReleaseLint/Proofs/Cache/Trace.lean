/-
# What a process has seen

A process comes to a binary on one way only: the release of its version, the archive of
that release, a digest from the checksum of that release, a match of the two, the binary
in the archive.  `Extracts` states all of it about the requests that the process has
made, and every stage past the release holds its part of that (`Traced`), whatever the
others do and whatever the servers answer (`Step.traced`).
-/

import ReleaseLint.Proofs.Cache.Layout

namespace ReleaseLint
namespace Tool

variable {url : String} {log : List Request} {data : ByteArray} {w w' : Workspace}

/-- A download that succeeds is one request that is answered with success. -/
theorem Fetches.eq_of_ok (h : Fetches url log (.ok data)) :
    ∃ code, 200 ≤ code ∧ code < 300 ∧ log = [⟨url, .response code data⟩] := by
  generalize hr : (.ok data : Except Error ByteArray) = result at h
  cases h with
  | tooLong => cases hr
  | reply r =>
    cases r with
    | unreachable => cases hr
    | response code body =>
      unfold Reply.body at hr
      simp only at hr
      split_ifs at hr with hcode
      obtain rfl := Except.ok.inj hr
      simp only [Bool.and_eq_true, decide_eq_true_eq] at hcode
      exact ⟨code, hcode.1, hcode.2, rfl⟩

theorem Checksum.eqIgnoringCase_of_verify {expected file : String} {u : Unit}
    (h : Checksum.verify data expected file = .ok u) :
    Text.eqIgnoringCase (Sha256.hex data) (Text.trim expected) = true := by
  unfold Checksum.verify at h
  generalize Sha256.hex data = actual at h ⊢
  simp only at h
  split_ifs at h with heq
  exact heq

namespace Process

variable {p p' : Process}

/-- Whether a release is that of the version a process has come to. -/
def Plans (p : Process) (release : Release) : Prop :=
  ∃ version, p.version = some version ∧ p.task.release version = .ok release

/-- Whether the last request brought the archive of a release. -/
def Holds (p : Process) (release : Release) (archive : ByteArray) : Prop :=
  ∃ before code, 200 ≤ code ∧ code < 300 ∧
    p.requests = before ++ [⟨release.archiveUrl, .response code archive⟩]

/-- Whether the last two requests brought the archive of a release and the text of its
checksum. -/
def Receives (p : Process) (release : Release) (archive checksum : ByteArray) : Prop :=
  ∃ before code code', 200 ≤ code ∧ code < 300 ∧ 200 ≤ code' ∧ code' < 300 ∧
    p.requests = before ++ [⟨release.archiveUrl, .response code archive⟩,
      ⟨release.checksum.url, .response code' checksum⟩]

/-- Whether a process has extracted a binary of a version from an archive that has the
digest which the process read from the checksum of that archive. -/
def Extracts (p : Process) (version : String) (binary : ByteArray) : Prop :=
  ∃ release archive checksum digest, p.version = some version ∧
    p.task.release version = .ok release ∧ p.Receives release archive checksum ∧
    release.digestIn (textOf checksum) = .ok digest ∧
    Text.eqIgnoringCase (Sha256.hex archive) (Text.trim digest) = true ∧
    release.unpack archive = .ok binary

/-- What a process has seen on the way to its stage. -/
def Traced (p : Process) : Prop :=
  match p.stage with
  | .lookUp => p.version = none
  | .fetch release => p.Plans release
  | .sum release archive => p.Plans release ∧ p.Holds release archive
  | .verify release archive digest =>
    p.Plans release ∧ ∃ checksum, p.Receives release archive checksum ∧
      release.digestIn (textOf checksum) = .ok digest
  | .unpack release archive =>
    p.Plans release ∧ ∃ checksum digest, p.Receives release archive checksum ∧
      release.digestIn (textOf checksum) = .ok digest ∧
      Text.eqIgnoringCase (Sha256.hex archive) (Text.trim digest) = true
  | .prepare binary _ _ | .create binary | .write binary _ _ =>
    ∃ version, p.Extracts version binary
  | _ => True

theorem traced_start (task : Task) (known : Option Recommended) : (start task known).Traced := rfl

theorem traced_settle (p : Process) (result : Except Error String) : (p.settle result).Traced := by
  cases result <;> exact trivial

/-- Whatever ends with an error says nothing, so only what goes on is to be traced. -/
theorem traced_after {α : Type} {task : Task} {known : Option Recommended}
    {version : Option String} {requests : List Request} {result : Except Error α}
    {next : α → Stage} (h : ∀ a, result = .ok a → Traced ⟨task, known, version, requests, next a⟩) :
    Traced ⟨task, known, version, requests, .after result next⟩ := by
  cases result with
  | error e => exact trivial
  | ok a => exact h a rfl

theorem Step.isFinal_eq_false (h : p.Step w w' p') : p.stage.isFinal = false := by
  cases h with
  | stop removes h => exact h
  | _ => simp_all [Stage.isFinal]

theorem task_settle (p : Process) (result : Except Error String) :
    (p.settle result).task = p.task := by
  cases result <;> rfl

theorem task_learn (p : Process) (result : Except Error Recommended) :
    (p.learn result).task = p.task := by
  cases result with
  | error e => rfl
  | ok versions => exact task_settle _ _

theorem Step.task_eq (h : p.Step w w' p') : p'.task = p.task := by
  cases h with
  | settle => exact task_settle _ _
  | lookUp => exact task_learn _ _
  | _ => rfl

/-- A version that a process has come to stays. -/
theorem Step.version_eq (h : p.Step w w' p') (hp : p.Traced) {version : String}
    (hv : p.version = some version) : p'.version = some version := by
  have hnone : p.stage = .lookUp → p.version = none := by
    intro hs
    unfold Traced at hp
    rw [hs] at hp
    exact hp
  cases h with
  | settle hs _ => rw [hnone hs] at hv; cases hv
  | lookUp hs _ _ => rw [hnone hs] at hv; cases hv
  | _ => exact hv

/-- A specification of one version brings a process to no other version. -/
theorem Step.version_exact (h : p.Step w w' p') {version : String}
    (ht : ∀ known, p.task.version? known = some (.ok version))
    (hp : ∀ v, p.version = some v → v = version) : ∀ v, p'.version = some v → v = version := by
  cases h with
  | settle hs hr =>
    intro v hv
    rw [ht] at hr
    rw [← Option.some.inj hr] at hv
    exact (Option.some.inj hv).symm
  | lookUp hs hr _ =>
    rw [ht] at hr
    cases hr
  | _ => exact hp

/-- **A step adds to what a process has seen just what its next stage needs.** -/
theorem Step.traced (h : p.Step w w' p') (hp : p.Traced) : p'.Traced := by
  unfold Traced at hp
  cases h with
  | settle => exact traced_settle p _
  | lookUp hs hv hf =>
    rename_i log result
    cases hr : p.task.versionsIn result with
    | error e => exact trivial
    | ok versions => exact traced_settle _ _
  | hit => exact trivial
  | miss => exact trivial
  | plan hs hv =>
    refine traced_after fun release hr => ?_
    exact ⟨_, hv, hr⟩
  | fetch hs hf =>
    rw [hs] at hp
    refine traced_after fun archive hr => ?_
    subst hr
    obtain ⟨code, h1, h2, rfl⟩ := hf.eq_of_ok
    exact ⟨hp, _, code, h1, h2, rfl⟩
  | sum hs hf =>
    rename_i release archive log result
    rw [hs] at hp
    obtain ⟨hplan, before, code, h1, h2, hreq⟩ := hp
    refine traced_after fun digest hr => ?_
    cases result with
    | error e => cases hr
    | ok checksum =>
      obtain ⟨code', h1', h2', rfl⟩ := hf.eq_of_ok
      refine ⟨hplan, checksum, ⟨before, code, code', h1, h2, h1', h2', ?_⟩, hr⟩
      show p.requests ++ _ = _
      rw [hreq, List.append_assoc]
      rfl
  | verify hs =>
    rename_i release archive digest
    rw [hs] at hp
    generalize hr : Checksum.verify archive digest release.archiveName = result
    obtain ⟨hplan, checksum, hrec, hdig⟩ := hp
    refine traced_after fun u hu => ?_
    rw [hu] at hr
    exact ⟨hplan, checksum, digest, hrec, hdig, Checksum.eqIgnoringCase_of_verify hr⟩
  | unpack hs hv =>
    rename_i release archive version
    rw [hs] at hp
    obtain ⟨⟨version', hv', hplan⟩, checksum, digest, hrec, hdig, heq⟩ := hp
    obtain rfl : version' = version := Option.some.inj (hv'.symm.trans hv)
    refine traced_after fun binary hr => ?_
    unfold preparation
    split
    · exact trivial
    · exact ⟨version', release, archive, checksum, digest, hv, hplan, hrec, hdig, heq, hr⟩
  | prepare hs hv hm => rw [hs] at hp; exact hp
  | unprepared hs hv hm => exact trivial
  | prepared hs => rw [hs] at hp; exact hp
  | create hs => rw [hs] at hp; exact hp
  | uncreated hs => exact trivial
  | write hs => rw [hs] at hp; exact hp
  | permit hs => exact trivial
  | rename hs => exact trivial
  | unrenamed hs => exact trivial
  | stop => exact trivial

/-- Whether the archive and the checksum that a process received fail one of the tests:
the checksum has no digest for the archive, the digest differs, or the binary is not in
the archive. -/
def Fails (p : Process) : Prop :=
  ∃ release archive checksum, p.Plans release ∧ p.Receives release archive checksum ∧
    ((∀ digest, release.digestIn (textOf checksum) ≠ .ok digest) ∨
      (∃ digest, release.digestIn (textOf checksum) = .ok digest ∧
        Text.eqIgnoringCase (Sha256.hex archive) (Text.trim digest) = false) ∨
      ∀ binary, release.unpack archive ≠ .ok binary)

/-- **A process that fails has extracted nothing.** -/
theorem Fails.not_extracts (h : p.Fails) (version : String) (binary : ByteArray) :
    ¬p.Extracts version binary := by
  rintro ⟨release', archive', checksum', digest, hv, hplan', hrec', hdig, heq, hunpack⟩
  obtain ⟨release, archive, checksum, ⟨version', hv', hplan⟩, hrec, hfail⟩ := h
  obtain rfl : version' = version := Option.some.inj (hv'.symm.trans hv)
  obtain rfl : release = release' := Except.ok.inj (hplan.symm.trans hplan')
  obtain ⟨before, code, code', -, -, -, -, hreq⟩ := hrec
  obtain ⟨before', c, c', -, -, -, -, hreq'⟩ := hrec'
  obtain ⟨-, hlast⟩ := List.append_inj' (hreq.symm.trans hreq') rfl
  simp only [List.cons.injEq, Request.mk.injEq, Reply.response.injEq, true_and, and_true] at hlast
  obtain ⟨⟨-, rfl⟩, -, rfl⟩ := hlast
  rcases hfail with h | ⟨digest', hdig', h⟩ | h
  · exact h digest hdig
  · obtain rfl := Except.ok.inj (hdig'.symm.trans hdig)
    rw [h] at heq
    cases heq
  · exact h binary hunpack

end Process
end Tool
end ReleaseLint
