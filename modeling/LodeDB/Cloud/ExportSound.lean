import LodeDB.Cloud.Export

/-!
# Pointers name only what is there

Whatever exporters do and wherever they stop, each pointer names only artifacts that are in the store
with the digests it records. Of two exporters that started from one body the second publishes only if
the pointer was set back to that body in between.
-/

namespace LodeDB.Cloud

open ExceptRules
variable {Id Actor : Type} [DecidableEq Id] (sha256 : List UInt8 → String)

variable {position version : ℕ} {after phase : Phase} {uploads : List ArtifactRef}

/-- The artifacts of an exporter's body are in the store, but for those to be uploaded. -/
def Staged (job : Export) (remote : Remote Actor) (rest : List ArtifactRef) : Prop :=
  ∃ artifacts, inventoryFromBody job.key job.sourceBody = .ok artifacts ∧ (∀ artifact ∈ rest, artifact ∈ artifacts) ∧
    ∀ artifact ∈ artifacts, artifact ∈ rest ∨ Present sha256 remote artifact

/-- An exporter wrote a version of its pointer, over the body it started from. -/
structure WroteOver (job : Export) (actor : Actor) (remote : Remote Actor) (dest : Option Value)
    (version : ℕ) : Prop where
  written : (remote.history job.key)[version]? = some ⟨job.key, job.sourceBody, actor⟩
  replaced : remote.bodyAt job.key version = dest
  changed : dest ≠ some job.sourceBody

/-- What holds of an exporter in each phase. -/
def PhaseSound (jobs : Actor → Export) (actor : Actor) (remote : Remote Actor) : Phase → Prop
  | .reading | .unchanged _ | .failed _ => True
  | .uploading _ rest => Staged sha256 (jobs actor) remote rest
  | .streaming _ artifact _ scratch rest =>
    Staged sha256 (jobs actor) remote (artifact :: rest) ∧ scratch.isSome = true
  | .claiming _ artifact unique rest =>
    Staged sha256 (jobs actor) remote (artifact :: rest) ∧
      ScratchSound sha256 remote artifact.name artifact.sha256 unique
  | .copying _ _ _ _ => False
  | .rechecking _ artifact _ rest => Staged sha256 (jobs actor) remote (artifact :: rest)
  | .cleaning _ artifact _ claimed rest =>
    Staged sha256 (jobs actor) remote (artifact :: rest) ∧ (claimed = .ok () → Present sha256 remote artifact)
  | .publishing _ => Staged sha256 (jobs actor) remote []
  | .swapping dest version =>
    Staged sha256 (jobs actor) remote [] ∧ version ≤ remote.version (jobs actor).key ∧
      remote.bodyAt (jobs actor).key version = dest ∧ dest ≠ some (jobs actor).sourceBody
  | .published dest version =>
    ∃ position, version = position + 1 ∧ WroteOver (jobs actor) actor remote dest position

/-- What every step leaves behind. -/
structure StepSound (jobs : Actor → Export) (actor : Actor) (remote next : Remote Actor) (phase : Phase) :
    Prop where
  grows : Grows sha256 remote next
  pinned : Pinned sha256 next
  copy : next.conditionalCopy = remote.conditionalCopy
  phase : PhaseSound sha256 jobs actor next phase

variable {sha256} {job : Export} {jobs : Actor → Export} {actor : Actor} {remote next : Remote Actor}
  {dest : Option Value} {artifact : ArtifactRef} {rest : List ArtifactRef}

theorem Staged.grow (hstaged : Staged sha256 job remote rest) (hgrows : Grows sha256 remote next) :
    Staged sha256 job next rest := by
  obtain ⟨artifacts, hinv, hrest, hpres⟩ := hstaged
  exact ⟨artifacts, hinv, hrest, fun artifact hmem => (hpres artifact hmem).imp_right hgrows.present⟩

/-- The next artifact is done once it is in the store. -/
theorem Staged.uploaded (hstaged : Staged sha256 job remote (artifact :: rest))
    (hpres : Present sha256 remote artifact) : Staged sha256 job remote rest := by
  obtain ⟨artifacts, hinv, hrest, hothers⟩ := hstaged
  refine ⟨artifacts, hinv, fun other hother => hrest other (List.mem_cons_of_mem _ hother), ?_⟩
  intro other hother
  rcases hothers other hother with hmem | hother
  · rcases List.mem_cons.mp hmem with rfl | hmem
    · exact .inr hpres
    · exact .inl hmem
  · exact .inr hother

section

variable (hwrote : WroteOver job actor remote dest position)

include hwrote

theorem WroteOver.version_lt : position < remote.version job.key := by
  by_contra hbeyond
  have hwr := hwrote.written
  rw [List.getElem?_eq_none (Nat.le_of_not_lt hbeyond)] at hwr
  cases hwr

/-- The version an exporter wrote holds its own body, not the one it started from. -/
theorem WroteOver.bodyAt_ne : remote.bodyAt job.key (position + 1) ≠ dest := by
  intro hbody
  rw [Remote.bodyAt, hwrote.written] at hbody
  exact hwrote.changed hbody.symm

theorem WroteOver.grow (hgrows : Grows sha256 remote next) : WroteOver job actor next dest position where
  written := (hgrows.getElem? hwrote.version_lt).trans hwrote.written
  replaced := (hgrows.bodyAt hwrote.version_lt.le).trans hwrote.replaced
  changed := hwrote.changed

end

variable {second : Actor}

/-- Two exporters wrote different versions, the later over a body set back. -/
theorem WroteOver.setBack {other : Export} (hkey : job.key = other.key) (hne : actor ≠ second) {later : ℕ}
    (hfirst : WroteOver job actor remote dest position) (hsec : WroteOver other second remote dest later) :
    later + 1 ≠ position + 1 ∧ (position + 1 < later + 1 → ∃ between, position + 1 < between ∧
      between < later + 1 ∧ remote.bodyAt other.key between = dest) := by
  constructor
  · intro hver
    obtain rfl : later = position := Nat.succ.inj hver
    have hsame := hfirst.written.symm.trans (hkey ▸ hsec.written)
    exact hne (congrArg PointerWrite.writer (Option.some.inj hsame))
  · intro hlater
    have hafter : later ≠ position + 1 := by
      intro hnext
      have hrepl := hsec.replaced
      rw [hnext, ← hkey] at hrepl
      exact hfirst.bodyAt_ne hrepl
    exact ⟨later, by omega, by omega, hsec.replaced⟩

/-- What holds of an exporter is not disturbed by the others. -/
theorem PhaseSound.grow (hsound : PhaseSound sha256 jobs actor remote phase) (hgrows : Grows sha256 remote next) :
    PhaseSound sha256 jobs actor next phase := by
  cases phase with
  | reading => trivial
  | unchanged => trivial
  | failed => trivial
  | copying => exact hsound
  | uploading => exact Staged.grow hsound hgrows
  | rechecking => exact Staged.grow hsound hgrows
  | publishing => exact Staged.grow hsound hgrows
  | streaming => exact ⟨hsound.1.grow hgrows, hsound.2⟩
  | claiming => exact ⟨hsound.1.grow hgrows, hgrows.scratch _ _ _ hsound.2⟩
  | cleaning => exact ⟨hsound.1.grow hgrows, fun hclaimed => hgrows.present (hsound.2 hclaimed)⟩
  | swapping =>
    obtain ⟨hstaged, hver, hbody, hchg⟩ := hsound
    exact ⟨hstaged.grow hgrows, hver.trans (hgrows.version_le _), (hgrows.bodyAt hver).trans hbody, hchg⟩
  | published =>
    obtain ⟨position, hver, hwrote⟩ := hsound
    exact ⟨position, hver, hwrote.grow hgrows⟩

/-- A step that writes no pointer keeps the pointers pinned. -/
theorem Pinned.grow (hpin : Pinned sha256 remote) (hgrows : Grows sha256 remote next)
    (hwrites : next.writes = remote.writes) : Pinned sha256 next := by
  intro key body hbody
  have hhist : next.history key = remote.history key := by rw [Remote.history, Remote.history, hwrites]
  rw [readPointer_congr hhist] at hbody
  obtain ⟨artifacts, hinv, hpres⟩ := hpin key body hbody
  exact ⟨artifacts, hinv, fun artifact hmem => hgrows.present (hpres artifact hmem)⟩

theorem StepSound.of_grows (hpin : Pinned sha256 remote) (hgrows : Grows sha256 remote next)
    (hwrites : next.writes = remote.writes) (hcopy : next.conditionalCopy = remote.conditionalCopy)
    (hphase : PhaseSound sha256 jobs actor next phase) : StepSound sha256 jobs actor remote next phase :=
  ⟨hgrows, hpin.grow hgrows hwrites, hcopy, hphase⟩

/-- A step that leaves the store as it is. -/
theorem StepSound.of_same (hpin : Pinned sha256 remote) (hphase : PhaseSound sha256 jobs actor remote phase) :
    StepSound sha256 jobs actor remote remote phase :=
  .of_grows hpin (.refl remote) rfl rfl hphase

/-! ### One step -/

theorem stageExport_eq_ok (hstage : stageExport job dest = .ok uploads) :
    ∃ source named, inventoryFromBody job.key job.sourceBody = .ok source ∧
      (∀ artifact ∈ named, ∃ body, dest = some body ∧ ∃ all, inventoryFromBody job.key body = .ok all ∧
        artifact ∈ all) ∧ uploads = diffInventories source named := by
  obtain ⟨_, _, hrest⟩ := bind_eq_ok.mp hstage
  obtain ⟨source, hsource, hrest⟩ := bind_eq_ok.mp hrest
  obtain ⟨named, hnamed, hrest⟩ := bind_eq_ok.mp hrest
  refine ⟨source, named, hsource, ?_, (Except.ok.inj hrest).symm⟩
  intro artifact hmem
  cases dest with
  | none =>
    cases hnamed
    cases hmem
  | some body => exact ⟨body, rfl, named, hnamed, hmem⟩

/-- What the pointer already names need not be uploaded. -/
theorem staged_of_read (hpin : Pinned sha256 remote)
    (hstage : stageExport job (remote.readPointer job.key) = .ok uploads) : Staged sha256 job remote uploads := by
  obtain ⟨source, named, hsource, hnamed, rfl⟩ := stageExport_eq_ok hstage
  refine ⟨source, hsource, fun artifact hmem => (List.mem_filter.mp hmem).1, ?_⟩
  intro artifact hmem
  by_cases hupload : artifact ∈ diffInventories source named
  · exact .inl hupload
  · obtain ⟨same, hsame, hname, hdig⟩ := exists_of_notMem_diffInventories hmem hupload
    obtain ⟨body, hbody, all, hall, hin⟩ := hnamed same hsame
    obtain ⟨artifacts, hinv, hpres⟩ := hpin job.key body hbody
    obtain rfl : all = artifacts := Except.ok.inj (hall.symm.trans hinv)
    obtain ⟨bytes, hobj, hbytes⟩ := hpres same hin
    exact .inr ⟨bytes, hname ▸ hobj, hbytes.trans hdig⟩

theorem present_put {bytes : List UInt8} (hdig : sha256 bytes = artifact.sha256) :
    Present sha256 (remote.put (.artifact artifact.name) bytes) artifact :=
  ⟨bytes, by simp, hdig⟩

theorem beginUpload_sound (hpin : Pinned sha256 remote)
    (hstaged : Staged sha256 (jobs actor) remote (artifact :: rest)) (hsize : artifact.sizeBytes ≤ claimableLimitBytes)
    (bytes : List UInt8) (unique : ℕ) :
    StepSound sha256 jobs actor remote (beginUpload sha256 remote dest artifact rest bytes unique).1
      (beginUpload sha256 remote dest artifact rest bytes unique).2 := by
  unfold beginUpload
  split_ifs with hsmall hdig
  · exact .of_same hpin trivial
  · cases hobj : remote.objects (.artifact artifact.name) with
    | some held => exact .of_same hpin hstaged
    | none =>
      have hgrows : Grows sha256 remote (remote.put (.artifact artifact.name) bytes) := grows_put hobj
      exact .of_grows hpin hgrows rfl rfl
        ((hstaged.grow hgrows).uploaded (present_put (not_not.mp hdig)))
  · cases hobj : remote.objects (.artifact artifact.name) with
    | some held => exact .of_same hpin hstaged
    | none => exact .of_same hpin ⟨hstaged, rfl⟩

theorem completeUpload_sound (hpin : Pinned sha256 remote)
    (hstaged : Staged sha256 (jobs actor) remote (artifact :: rest)) (bytes : List UInt8) (unique : ℕ) :
    StepSound sha256 jobs actor remote (completeUpload sha256 remote dest artifact bytes (some unique) rest).1
      (completeUpload sha256 remote dest artifact bytes (some unique) rest).2 := by
  unfold completeUpload
  split_ifs with hlarge hdig
  · exact .of_same hpin trivial
  · exact .of_same hpin trivial
  · have hbytes : sha256 bytes = artifact.sha256 := not_not.mp hdig
    have hgrows : Grows sha256 remote (remote.put (.scratch artifact.name artifact.sha256 unique) bytes) :=
      grows_putScratch hbytes
    refine .of_grows hpin hgrows rfl rfl ⟨hstaged.grow hgrows, ?_⟩
    intro held hheld
    rw [Remote.put_objects, Function.update_self] at hheld
    cases hheld
    exact hbytes

/-- Where the store has a conditional copy, a claim takes a free name only. -/
theorem claimScratch_sound (hpin : Pinned sha256 remote) (hcopy : remote.conditionalCopy = true)
    (hstaged : Staged sha256 (jobs actor) remote (artifact :: rest)) {unique : ℕ}
    (hscratch : ScratchSound sha256 remote artifact.name artifact.sha256 unique) :
    StepSound sha256 jobs actor remote (claimScratch remote dest artifact unique rest).1
      (claimScratch remote dest artifact unique rest).2 := by
  unfold claimScratch
  cases hobj : remote.objects (.artifact artifact.name) with
  | some held => exact .of_same hpin hstaged
  | none =>
    simp only [hcopy, if_true, copyScratch]
    cases hbytes : remote.objects (.scratch artifact.name artifact.sha256 unique) with
    | none =>
      refine .of_same hpin ⟨hstaged, ?_⟩
      intro hclaimed
      cases hclaimed
    | some bytes =>
      have hgrows : Grows sha256 remote (remote.put (.artifact artifact.name) bytes) := grows_put hobj
      exact .of_grows hpin hgrows rfl rfl
        ⟨hstaged.grow hgrows, fun _ => present_put (hscratch bytes hbytes)⟩

theorem present_of_refuseUnlessIdentical (hsame : refuseUnlessIdentical sha256 remote artifact = .ok ()) :
    Present sha256 remote artifact := by
  unfold refuseUnlessIdentical at hsame
  cases hobj : remote.objects (.artifact artifact.name) with
  | none => simp [hobj] at hsame
  | some bytes =>
    rw [hobj] at hsame
    dsimp only at hsame
    split_ifs at hsame with hdig
    exact ⟨bytes, hobj, hdig⟩

/-- Past an artifact that is in the store the upload goes on. -/
theorem continueWith_sound (hstaged : Staged sha256 (jobs actor) remote (artifact :: rest))
    {claimed : Except ArtifactStoreError Unit} (hclaimed : claimed = .ok () → Present sha256 remote artifact) :
    PhaseSound sha256 jobs actor remote (continueWith dest rest claimed) := by
  cases claimed with
  | error error => trivial
  | ok done => exact hstaged.uploaded (hclaimed rfl)

variable {digests : Digests Id}

theorem ne_of_pointerPublished {sourceBody : Value} (hpub : pointerPublished digests dest sourceBody = true) :
    dest ≠ some sourceBody := by
  intro hsame
  simp [hsame, pointerPublished] at hpub

theorem beginPublish_sound (hstaged : Staged sha256 (jobs actor) remote []) :
    PhaseSound sha256 jobs actor remote (beginPublish digests (jobs actor) remote dest) := by
  unfold beginPublish
  split_ifs with hpub hcur
  · exact ⟨hstaged, le_rfl, hcur, ne_of_pointerPublished hpub⟩
  · trivial
  · trivial

/-- Only the swap moves a pointer, to a body whose artifacts are all there. -/
theorem swapPointer_sound (hpin : Pinned sha256 remote)
    (hsound : PhaseSound sha256 jobs actor remote (.swapping dest version)) :
    StepSound sha256 jobs actor remote (swapPointer (jobs actor) actor remote dest version).1
      (swapPointer (jobs actor) actor remote dest version).2 := by
  obtain ⟨hstaged, hver, hbody, hchg⟩ := hsound
  unfold swapPointer
  split_ifs with hcur
  · have hgrows : Grows sha256 remote (remote.write ⟨(jobs actor).key, (jobs actor).sourceBody, actor⟩) :=
      grows_write _
    refine ⟨hgrows, ?_, rfl, ?_⟩
    · intro key body hptr
      rw [readPointer_write] at hptr
      split_ifs at hptr with hkey
      · cases hptr
        obtain ⟨artifacts, hinv, _, hpres⟩ := hstaged.grow hgrows
        refine ⟨artifacts, hkey ▸ hinv, ?_⟩
        intro artifact hmem
        exact (hpres artifact hmem).resolve_left List.not_mem_nil
      · obtain ⟨artifacts, hinv, hpres⟩ := hpin key body hptr
        exact ⟨artifacts, hinv, fun artifact hmem => hgrows.present (hpres artifact hmem)⟩
    · refine ⟨version, rfl, ?_, (hgrows.bodyAt hver).trans hbody, hchg⟩
      rw [history_write, if_pos rfl, ← hcur, Remote.version, List.getElem?_concat_length]
  · exact .of_same hpin trivial

/-- The artifacts an exporter ships can be claimed by a conditional copy. -/
def WithinCopyLimit (jobs : Actor → Export) : Prop :=
  ∀ actor artifacts, inventoryFromBody (jobs actor).key (jobs actor).sourceBody = .ok artifacts →
    ∀ artifact ∈ artifacts, artifact.sizeBytes ≤ claimableLimitBytes

theorem Staged.sizeBytes_le (hstaged : Staged sha256 (jobs actor) remote (artifact :: rest))
    (hsizes : WithinCopyLimit jobs) : artifact.sizeBytes ≤ claimableLimitBytes := by
  obtain ⟨artifacts, hinv, hrest, _⟩ := hstaged
  exact hsizes actor artifacts hinv artifact (hrest artifact List.mem_cons_self)

theorem StepSound.of_eq {result : Remote Actor × Phase} (hstep : some result = some (next, after))
    (hsound : StepSound sha256 jobs actor remote result.1 result.2) :
    StepSound sha256 jobs actor remote next after := by
  cases hstep
  exact hsound

/-- An operation that fails before anything is claimed leaves the store as it is. -/
theorem exportStep_fail {error : ArtifactStoreError} (hpin : Pinned sha256 remote)
    (hsound : PhaseSound sha256 jobs actor remote phase)
    (hstep : exportStep sha256 digests jobs actor remote phase (.fail error) = some (next, after)) :
    StepSound sha256 jobs actor remote next after := by
  have hfailed : StepSound sha256 jobs actor remote remote (.failed error) := .of_same hpin trivial
  have hunclaimed : (Except.error error : Except ArtifactStoreError Unit) ≠ .ok () := by
    intro hclaimed
    cases hclaimed
  cases phase with
  | published => cases hstep
  | unchanged => cases hstep
  | failed => cases hstep
  | reading => exact .of_eq hstep hfailed
  | uploading => exact .of_eq hstep hfailed
  | streaming => exact .of_eq hstep hfailed
  | publishing => exact .of_eq hstep hfailed
  | swapping => exact .of_eq hstep hfailed
  | copying => exact hsound.elim
  | claiming => exact .of_eq hstep (.of_same hpin ⟨hsound.1, fun h => absurd h hunclaimed⟩)
  | cleaning => exact .of_eq hstep (.of_same hpin (continueWith_sound hsound.1 hsound.2))
  | rechecking dest artifact scratch rest =>
    cases scratch with
    | none => exact .of_eq hstep hfailed
    | some unique => exact .of_eq hstep (.of_same hpin ⟨hsound, fun h => absurd h hunclaimed⟩)

/-- Every operation keeps the pointers pinned and undoes nothing the others rely on. -/
theorem exportStep_sound (hsizes : WithinCopyLimit jobs) {input : Input} (hpin : Pinned sha256 remote)
    (hcopy : remote.conditionalCopy = true) (hsound : PhaseSound sha256 jobs actor remote phase)
    (hstep : exportStep sha256 digests jobs actor remote phase input = some (next, after)) :
    StepSound sha256 jobs actor remote next after := by
  cases input with
  | fail error => exact exportStep_fail hpin hsound hstep
  | proceed read fresh =>
    cases phase with
    | published => cases hstep
    | unchanged => cases hstep
    | failed => cases hstep
    | copying => exact hsound.elim
    | reading =>
      simp only [exportStep] at hstep
      cases hstage : stageExport (jobs actor) (remote.readPointer (jobs actor).key) with
      | error error =>
        rw [hstage] at hstep
        exact .of_eq hstep (.of_same hpin trivial)
      | ok uploads =>
        rw [hstage] at hstep
        exact .of_eq hstep (.of_same hpin (staged_of_read hpin hstage))
    | uploading dest rest =>
      cases rest with
      | nil => exact .of_eq hstep (.of_same hpin hsound)
      | cons artifact rest =>
        exact .of_eq hstep (beginUpload_sound hpin hsound (Staged.sizeBytes_le hsound hsizes) read fresh)
    | streaming dest artifact bytes scratch rest =>
      obtain ⟨hstaged, hscratch⟩ := hsound
      obtain ⟨unique, rfl⟩ := Option.isSome_iff_exists.mp hscratch
      exact .of_eq hstep (completeUpload_sound hpin hstaged bytes unique)
    | claiming => exact .of_eq hstep (claimScratch_sound hpin hcopy hsound.1 hsound.2)
    | rechecking dest artifact scratch rest =>
      cases scratch with
      | none =>
        exact .of_eq hstep (.of_same hpin (continueWith_sound hsound present_of_refuseUnlessIdentical))
      | some unique =>
        exact .of_eq hstep (.of_same hpin ⟨hsound, present_of_refuseUnlessIdentical⟩)
    | cleaning dest artifact unique claimed rest =>
      have hgrows : Grows sha256 remote (remote.delete (.scratch artifact.name artifact.sha256 unique)) :=
        grows_delete
      refine .of_eq hstep (.of_grows hpin hgrows rfl rfl ?_)
      exact continueWith_sound (hsound.1.grow hgrows) fun hclaimed => hgrows.present (hsound.2 hclaimed)
    | publishing => exact .of_eq hstep (.of_same hpin (beginPublish_sound hsound))
    | swapping => exact .of_eq hstep (swapPointer_sound hpin hsound)

/-! ### Every schedule -/

variable (sha256 digests jobs) in
/-- How a second exporter fares that started from the body one published over: it publishes too only where the
pointer was set back to that body; until then its swap conflicts. -/
structure Excluded (system : Interleave.System (Remote Actor) Actor Phase) (second : Actor)
    (dest : Option Value) (version : ℕ) : Prop where
  published : ∀ later, system.phases second = .published dest later → later ≠ version ∧
    (version < later → ∃ between, version < between ∧ between < later ∧
      system.shared.bodyAt (jobs second).key between = dest)
  conflict : (∀ between, version < between → between ≤ system.shared.version (jobs second).key →
      system.shared.bodyAt (jobs second).key between ≠ dest) → ∀ bytes unique,
    (system.phases second = .publishing dest → pointerPublished digests dest (jobs second).sourceBody = true →
      exportStep sha256 digests jobs second system.shared (.publishing dest) (.proceed bytes unique) =
        some (system.shared, .failed (pointerConflict (jobs second).key dest
          (system.shared.readPointer (jobs second).key)))) ∧
    ∀ read, system.phases second = .swapping dest read →
      exportStep sha256 digests jobs second system.shared (.swapping dest read) (.proceed bytes unique) =
        some (system.shared, .failed (pointerConflict (jobs second).key dest dest))

theorem excluded_of_wroteOver {system : Interleave.System (Remote Actor) Actor Phase} {first : Actor}
    (hkey : (jobs first).key = (jobs second).key) (hne : first ≠ second)
    (hfirst : WroteOver (jobs first) first system.shared dest position)
    (hsec : PhaseSound sha256 jobs second system.shared (system.phases second)) :
    Excluded sha256 jobs digests system second dest (position + 1) where
  published later hphase := by
    rw [hphase] at hsec
    obtain ⟨other, rfl, hwrote⟩ := hsec
    exact hfirst.setBack hkey hne hwrote
  conflict hnever bytes unique := by
    have hver := hfirst.version_lt
    have hfound := hfirst.bodyAt_ne
    rw [hkey] at hver hfound
    -- the pointer holds the first exporter's body or a later one, so not the common start
    have hcur : system.shared.readPointer (jobs second).key ≠ dest := by
      rcases Nat.lt_or_ge (position + 1) (system.shared.version (jobs second).key) with hlater | hlast
      · exact hnever _ hlater le_rfl
      · have hsame : system.shared.version (jobs second).key = position + 1 := by omega
        rw [Remote.readPointer, hsame]
        exact hfound
    constructor
    · intro _ hpub
      simp [exportStep, beginPublish, hpub, hcur]
    · intro read hphase
      rw [hphase] at hsec
      have hmoved : system.shared.version (jobs second).key ≠ read := by
        intro hsame
        apply hcur
        rw [Remote.readPointer, hsame]
        exact hsec.2.2.1
      simp [exportStep, swapPointer, hmoved]

variable [DecidableEq Actor]

/-- After every schedule the pointers are pinned and each exporter is as its phase says. -/
theorem run_sound (hsizes : WithinCopyLimit jobs) {start last : Interleave.System (Remote Actor) Actor Phase}
    {schedule : List (Actor × Input)}
    (hrun : Interleave.run (exportStep sha256 digests jobs) start schedule = some last)
    (hpin : Pinned sha256 start.shared) (hcopy : start.shared.conditionalCopy = true)
    (hstart : ∀ actor, start.phases actor = .reading) :
    (Pinned sha256 last.shared ∧ last.shared.conditionalCopy = true) ∧
      ∀ actor, PhaseSound sha256 jobs actor last.shared (last.phases actor) := by
  refine Interleave.run_keeps (fun remote => Pinned sha256 remote ∧ remote.conditionalCopy = true)
    (PhaseSound sha256 jobs) (Grows sha256) ?_ ?_ hrun ⟨hpin, hcopy⟩ ?_
  · intro actor shared before input next after hglobal hphase hstep
    have hsound := exportStep_sound hsizes hglobal.1 hglobal.2 hphase hstep
    exact ⟨⟨hsound.pinned, hsound.copy.trans hglobal.2⟩, hsound.phase, hsound.grows⟩
  · intro actor shared next before hphase hgrows
    exact hphase.grow hgrows
  · intro actor
    rw [hstart actor]
    trivial

/-- After every schedule over a store with conditional puts and copies, each pointer names only artifacts that are
there with the digests it records, and of two exporters that started from one body the first to publish excludes the
other. -/
theorem run_pinned (hsizes : WithinCopyLimit jobs) {start last : Interleave.System (Remote Actor) Actor Phase}
    {schedule : List (Actor × Input)}
    (hrun : Interleave.run (exportStep sha256 digests jobs) start schedule = some last)
    (hpinned : Pinned sha256 start.shared) (hcopy : start.shared.conditionalCopy = true)
    (hstart : ∀ actor, start.phases actor = .reading) :
    Pinned sha256 last.shared ∧ ∀ first second dest version, first ≠ second →
      (jobs first).key = (jobs second).key → last.phases first = .published dest version →
      Excluded sha256 jobs digests last second dest version := by
  obtain ⟨⟨hlast, _⟩, hphases⟩ := run_sound hsizes hrun hpinned hcopy hstart
  refine ⟨hlast, ?_⟩
  intro first second dest version hne hkey hphase
  have hfirst := hphases first
  rw [hphase] at hfirst
  obtain ⟨position, rfl, hwrote⟩ := hfirst
  exact excluded_of_wroteOver hkey hne hwrote (hphases second)

/-- What a pointer named when it was read stays there, whatever the exporters do. -/
theorem run_keeps_read (hsizes : WithinCopyLimit jobs) {start middle last : Interleave.System (Remote Actor) Actor Phase}
    {schedule later : List (Actor × Input)}
    (hrun : Interleave.run (exportStep sha256 digests jobs) start schedule = some middle)
    (hlater : Interleave.run (exportStep sha256 digests jobs) middle later = some last)
    (hpinned : Pinned sha256 start.shared) (hcopy : start.shared.conditionalCopy = true)
    (hstart : ∀ actor, start.phases actor = .reading) {key : String} {body : Value}
    (hread : middle.shared.readPointer key = some body) : ∃ artifacts,
      inventoryFromBody key body = .ok artifacts ∧ ∀ artifact ∈ artifacts, Present sha256 last.shared artifact := by
  obtain ⟨hglobal, hphases⟩ := run_sound hsizes hrun hpinned hcopy hstart
  obtain ⟨artifacts, hinv, hpres⟩ := hglobal.1 key body hread
  have hkept := Interleave.run_keeps (fun remote => (Pinned sha256 remote ∧ remote.conditionalCopy = true) ∧
    ∀ artifact ∈ artifacts, Present sha256 remote artifact) (PhaseSound sha256 jobs) (Grows sha256) ?_
    (fun _ _ _ _ hphase hgrows => hphase.grow hgrows) hlater ⟨hglobal, hpres⟩ hphases
  · exact ⟨artifacts, hinv, hkept.1.2⟩
  · rintro _ _ _ _ _ _ ⟨⟨hpin, hcopy⟩, hall⟩ hphase hstep
    have hsound := exportStep_sound hsizes hpin hcopy hphase hstep
    exact ⟨⟨⟨hsound.pinned, hsound.copy.trans hcopy⟩, fun _ hmem => hsound.grows.present (hall _ hmem)⟩,
      hsound.phase, hsound.grows⟩

/-! ### Concrete runs -/

/-- A digest of the right shape. -/
def plainSha256 (_ : List UInt8) : String := String.ofList (List.replicate 64 'a')

/-- A store with nothing in it, and exporters that have not begun. -/
def freshExports (Actor : Type) : Interleave.System (Remote Actor) Actor Phase where
  shared := ⟨fun _ => none, [], true⟩
  phases _ := .reading

theorem freshExports_pinned (Actor : Type) : Pinned plainSha256 (freshExports Actor).shared := by
  intro key body hbody
  cases hbody

/-- A generation with one state base. -/
def basedBody (epoch : String) : Value :=
  .object [("base_epoch", .number epoch), ("generation", .number epoch), ("index_key", .string "notes"),
    ("json", .object [("base", .object [("file_bytes", .number "3"), ("sha256", .string (plainSha256 []))])])]

/-- Two exporters of different generations of one index. -/
def rivalExports (rival : Bool) : Export := ⟨"notes", .full, basedBody (if rival then "2" else "1")⟩

/-- Both read the absent pointer and upload; one publishes before the other swaps. -/
def rivalSchedule : List (Bool × Input) :=
  [false, true, false, true, false, true, false, false, true].map fun actor => (actor, .proceed [1, 2, 3] 0)

theorem rivalExports_withinCopyLimit : WithinCopyLimit rivalExports := by
  intro rival artifacts hinv
  have hbound : (inventoryFromBody (rivalExports rival).key (rivalExports rival).sourceBody).toOption.all
      (fun found => found.all fun artifact => artifact.sizeBytes ≤ claimableLimitBytes) = true := by
    cases rival <;> decide +kernel
  rw [hinv] at hbound
  simpa [Except.toOption] using hbound

/-- The run of the two rivals keeps the pointer pinned. -/
theorem run_pinned_rivals :
    ∃ last, Interleave.run (exportStep plainSha256 plainDigests rivalExports) (freshExports Bool) rivalSchedule =
      some last ∧ Pinned plainSha256 last.shared := by
  have hruns : (Interleave.run (exportStep plainSha256 plainDigests rivalExports) (freshExports Bool)
      rivalSchedule).isSome = true := by
    decide +kernel
  obtain ⟨last, hlast⟩ := Option.isSome_iff_exists.mp hruns
  exact ⟨last, hlast, (run_pinned rivalExports_withinCopyLimit hlast (freshExports_pinned Bool) rfl
    fun _ => rfl).1⟩

/-- One exporter replaces the pointer another published; what that one named stays. -/
theorem run_keeps_read_replaced :
    let run := Interleave.run (exportStep plainSha256 plainDigests rivalExports)
    let steps (actor : Bool) : List (Bool × Input) := List.replicate 5 (actor, .proceed [1, 2, 3] 0)
    ∃ middle last, run (freshExports Bool) (steps false) = some middle ∧ run middle (steps true) = some last ∧
      last.shared.readPointer "notes" = some (basedBody "2") ∧ ∃ artifacts,
        inventoryFromBody "notes" (basedBody "1") = .ok artifacts ∧
          ∀ artifact ∈ artifacts, Present plainSha256 last.shared artifact := by
  intro run steps
  have hreads : ((run (freshExports Bool) (steps false)).bind fun middle => (run middle (steps true)).map fun last =>
      (middle.shared.readPointer "notes", last.shared.readPointer "notes")) =
        some (some (basedBody "1"), some (basedBody "2")) := by decide +kernel
  obtain ⟨middle, hrun, hrest⟩ := Option.bind_eq_some_iff.mp hreads
  obtain ⟨last, hlater, hbodies⟩ := Option.map_eq_some_iff.mp hrest
  obtain ⟨hread, hlast⟩ := Prod.mk.inj hbodies
  exact ⟨middle, last, hrun, hlater, hlast, run_keeps_read rivalExports_withinCopyLimit hrun hlater
    (freshExports_pinned Bool) rfl (fun _ => rfl) hread⟩

/-- What an exporter published over, if it did. -/
def Phase.publishedOver : Phase → Option (Option Value × ℕ)
  | .published dest version => some (dest, version)
  | _ => none

theorem Phase.eq_published (hphase : phase.publishedOver = some (dest, version)) :
    phase = .published dest version := by
  cases phase with
  | published => cases hphase; rfl
  | _ => cases hphase

/-- A generation without stores. -/
def plainBody (generation : String) : Value :=
  .object [("generation", .number generation), ("index_key", .string "notes")]

/-- Exporters 0 and 3 ship the same generation, from two copies of one directory. -/
def returningExports (actor : Fin 4) : Export :=
  ⟨"notes", .full, plainBody (match actor with | 0 => "1" | 1 => "2" | 2 => "3" | 3 => "1")⟩

/-- Exporter 0 publishes; 1 and 2 read that; 1 publishes; 3 sets the pointer back; 2 publishes. -/
def returningSchedule : List (Fin 4 × Input) :=
  [0, 0, 0, 0, 1, 2, 1, 1, 1, 3, 3, 3, 3, 2, 2, 2].map fun actor => (actor, .proceed [] 0)

/-- Two exporters that started from the same pointer both publish. -/
theorem exists_run_both_publish :
    ¬ ∀ (schedule : List (Fin 4 × Input)) (last : Interleave.System (Remote (Fin 4)) (Fin 4) Phase),
      Interleave.run (exportStep plainSha256 plainDigests returningExports) (freshExports (Fin 4)) schedule =
        some last → ∀ first second dest version later, first ≠ second →
      (returningExports first).key = (returningExports second).key →
      last.phases first = .published dest version → last.phases second ≠ .published dest later := by
  intro hatMostOne
  have hphases : (Interleave.run (exportStep plainSha256 plainDigests returningExports) (freshExports (Fin 4))
      returningSchedule).map (fun last => ((last.phases 1).publishedOver, (last.phases 2).publishedOver)) =
      some (some (some (plainBody "1"), 2), some (some (plainBody "1"), 4)) := by
    decide +kernel
  obtain ⟨last, hrun, hpublished⟩ := Option.map_eq_some_iff.mp hphases
  obtain ⟨hfirst, hsecond⟩ := Prod.mk.inj hpublished
  exact hatMostOne returningSchedule last hrun 1 2 _ 2 4 (by decide) rfl (Phase.eq_published hfirst)
    (Phase.eq_published hsecond)

end LodeDB.Cloud
