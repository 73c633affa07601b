import LodeDB.Cloud.Sync
import LodeDB.Lib.Except

/-!
# A second sync

After a transfer both ends hold one commit, and the next sync should find them in sync, whether or not the base was
recorded. The exception is a pull whose destination already holds the redacted form that older clients published: the
local pointer stays on that form, and since only the remote head is compared in both forms, the local end looks like
another commit from then on.
-/

namespace LodeDB.Cloud

open ExceptRules

variable {entries : List (String × Value)} {body raw remote : Value} {forced : Bool}

/-! ### The redacted form of older clients -/

theorem orInsertNull_eq_self {key : String} (hfound : (entries.lookup key).isSome) :
    orInsertNull key entries = entries := if_pos hfound

theorem legacyRedactedBody_legacyRedactedBody (body : Value) :
    legacyRedactedBody (legacyRedactedBody body) = legacyRedactedBody body := by
  rw [legacyRedactedBody, redactBody_legacyRedactedBody]
  unfold legacyRedactedBody
  cases TransferPolicy.redacted.redactBody body with
  | object entries =>
    have htext : ((orInsertNull "tvlex" (orInsertNull "tvtext" entries)).lookup "tvtext").isSome := by
      rw [lookup_orInsertNull_of_ne (by decide), lookup_orInsertNull_self]
      rfl
    have hlexical : ((orInsertNull "tvlex" (orInsertNull "tvtext" entries)).lookup "tvlex").isSome := by
      rw [lookup_orInsertNull_self]
      rfl
    dsimp only
    rw [orInsertNull_eq_self htext, orInsertNull_eq_self hlexical]
  | _ => rfl

theorem bodyGeneration_legacyRedactedBody (body : Value) :
    bodyGeneration (legacyRedactedBody body) = bodyGeneration body := by
  rw [← bodyGeneration_redactBody .redacted body, legacyRedactedBody]
  cases TransferPolicy.redacted.redactBody body with
  | object entries =>
    simp only [bodyGeneration, Value.get]
    rw [lookup_orInsertNull_of_ne (by decide), lookup_orInsertNull_of_ne (by decide)]
  | _ => rfl

variable {Id : Type} [DecidableEq Id] {digests : Digests Id}

/-! ### One commit on both ends -/

/-- A snapshot whose stores are all in another one of its commit has nothing to publish. -/
theorem classifySameCommit_of_within {localRef remote : SnapRef Id} (hin : localRef.Within remote) :
    classifySameCommit localRef remote = .inSync := by
  obtain ⟨hconflict, hnoMore⟩ := (SnapRef.within_iff _ _).mp hin
  have hmore : localRef.carriesMoreThan remote = false := by
    revert hnoMore
    unfold SnapRef.carriesMoreThan SnapRef.carriesNoMoreThan
    cases localRef.textId <;> cases remote.textId <;> cases localRef.lexicalId <;> cases remote.lexicalId <;> simp
  unfold classifySameCommit
  simp [hconflict, hmore, hnoMore]

/-- Ends with one commit, and every payload store the policy ships on the remote too. -/
structure OneCommit (digests : Digests Id) (policy : TransferPolicy) (localBody remoteBody : Value) : Prop where
  commit : (digests.comparedRef (policy.redactBody localBody) remoteBody).logicalId = digests.logicalId remoteBody
  within : (digests.comparedRef (policy.redactBody localBody) remoteBody).Within (digests.snapRef remoteBody)
  generation : bodyGeneration localBody = bodyGeneration remoteBody

theorem comparedRef_generation (localBody remoteBody : Value) :
    (digests.comparedRef localBody remoteBody).generation = (bodyGeneration localBody).getD 0 := by
  unfold Digests.comparedRef
  split_ifs <;> rfl

/-- The base is not ahead of a body. -/
def Reaches (digests : Digests Id) (base : Option (SnapRef Id)) (body : Value) : Prop :=
  regressed base (some (digests.snapRef body)) = false

omit [DecidableEq Id] in
theorem regressed_congr (base : Option (SnapRef Id)) {side other : SnapRef Id}
    (hgen : side.generation = other.generation) : regressed base (some side) = regressed base (some other) := by
  cases base with
  | none => rfl
  | some agreed => simp only [regressed, hgen]

omit [DecidableEq Id] in
theorem reaches_self (body : Value) : Reaches digests (some (digests.snapRef body)) body := by
  simp [Reaches, regressed]

variable {base : Option (SnapRef Id)}

/-- Ends that hold one commit are in sync, unless the base is ahead of them. -/
theorem OneCommit.inSync {policy : TransferPolicy} {localBody remoteBody : Value}
    (h : OneCommit digests policy localBody remoteBody) (hbase : Reaches digests base remoteBody) :
    syncClassification digests policy base ⟨some localBody, some remoteBody⟩ = .inSync := by
  have hclass : syncClassification digests policy base ⟨some localBody, some remoteBody⟩ =
      classify (some (digests.comparedRef (policy.redactBody localBody) remoteBody)) base
        (some (digests.snapRef remoteBody)) := rfl
  have hgen : (digests.comparedRef (policy.redactBody localBody) remoteBody).generation =
      (digests.snapRef remoteBody).generation := by
    rw [comparedRef_generation, bodyGeneration_redactBody, h.generation]
    rfl
  rw [hclass, classify_both, regressed_congr base hgen, show regressed base _ = false from hbase, if_neg (by simp)]
  exact (if_pos h.commit).trans (classifySameCommit_of_within h.within)

/-- A body published as the policy shows it. -/
theorem oneCommit_published (digests : Digests Id) (policy : TransferPolicy) (body : Value) :
    OneCommit digests policy body (policy.redactBody body) := by
  refine ⟨?_, ?_, (bodyGeneration_redactBody policy body).symm⟩
  · unfold Digests.comparedRef
    split_ifs <;> rfl
  · intro store id hid
    rwa [comparedRef_storeId, ← Digests.snapRef_storeId] at hid

/-- A body restored as it is. -/
theorem oneCommit_restored (digests : Digests Id) (policy : TransferPolicy) (body : Value) :
    OneCommit digests policy body body := by
  refine ⟨?_, ?_, rfl⟩
  · unfold Digests.comparedRef
    split_ifs
    · rfl
    · exact logicalId_redactBody digests policy body
  · intro store id hid
    rw [comparedRef_storeId, payload_redactBody] at hid
    rw [Digests.snapRef_storeId]
    split_ifs at hid
    · exact hid
    · cases hid

/-- The two forms a fully redacted body may have on the other end. -/
theorem redactedBodyMatchesRemoteHead_iff (hbody : Function.Injective digests.body) {other : Value} :
    digests.redactedBodyMatchesRemoteHead body other = true ↔
      TransferPolicy.redacted.redactBody body = body ∧ (other = body ∨ other = legacyRedactedBody body) := by
  simp only [Digests.redactedBodyMatchesRemoteHead, Digests.redactedIdentityMatchesRemoteHead, Digests.logicalId,
    Digests.legacyRedactedId, Digests.snapshotId, Bool.and_eq_true, Bool.or_eq_true, decide_eq_true_eq,
    hbody.eq_iff]
  constructor
  · intro hmatch
    obtain ⟨hself, hother⟩ := hmatch
    rw [← hself] at hother
    exact ⟨hself.symm, hother⟩
  · intro hmatch
    obtain ⟨hself, hother⟩ := hmatch
    rw [hself]
    exact ⟨rfl, hother⟩

/-- A fully redacted body that the remote holds in either form. -/
theorem oneCommit_matches (hbody : Function.Injective digests.body) {policy : TransferPolicy}
    (hmatch : digests.redactedBodyMatchesRemoteHead (policy.redactBody body) remote = true) :
    OneCommit digests policy body remote := by
  obtain ⟨hself, hforms⟩ := (redactedBodyMatchesRemoteHead_iff hbody).mp hmatch
  have hidentity : digests.redactedIdentityMatchesRemoteHead (policy.redactBody body) remote = true := by
    simp only [Digests.redactedBodyMatchesRemoteHead, Bool.and_eq_true] at hmatch
    exact hmatch.2
  refine ⟨?_, ?_, ?_⟩
  · rw [Digests.comparedRef, if_pos hidentity]
  · intro store id hid
    rw [comparedRef_storeId, ← hself, payload_redactBody] at hid
    cases store <;> cases hid
  · rcases hforms with rfl | rfl
    · exact (bodyGeneration_redactBody policy body).symm
    · rw [bodyGeneration_legacyRedactedBody, bodyGeneration_redactBody]

/-! ### What a transfer leaves -/

/-- A publish over the pointer it was decided against puts the body there, or leaves its older form. -/
theorem publishStaged_current (digests : Digests Id) (key : String) (destBody : Option Value)
    (sourceBody : Value) : ∃ body, publishStaged digests key destBody destBody sourceBody = (some body, .ok body) ∧
      (body = sourceBody ∨ destBody = some body ∧ digests.redactedBodyMatchesRemoteHead sourceBody body = true) := by
  unfold publishStaged
  cases destBody with
  | none => exact ⟨sourceBody, by simp [pointerPublished, compareAndSwapPointer], .inl rfl⟩
  | some body =>
    by_cases hsame : body = sourceBody
    · exact ⟨body, by simp [pointerPublished, hsame], .inl hsame⟩
    cases hmatch : digests.redactedBodyMatchesRemoteHead sourceBody body with
    | false => exact ⟨sourceBody, by simp [pointerPublished, hsame, hmatch, compareAndSwapPointer], .inl rfl⟩
    | true => exact ⟨body, by simp [pointerPublished, hmatch], .inr ⟨rfl, hmatch⟩⟩

variable {key identity : String} {policy : TransferPolicy} {force : SyncForce} {sidecar : SidecarRead Id}
  {before after : Ends} {steps : SyncSteps}

/-- A push leaves the local body, and one commit on both ends. -/
theorem syncPush_current (hbody : Function.Injective digests.body) {published : Value}
    (hpush : syncPush digests key policy forced before steps before = (after, .ok published)) :
    ∃ raw, before.localBody = some raw ∧ after = ⟨some raw, some published⟩ ∧
      OneCommit digests policy raw published := by
  unfold syncPush at hpush
  cases hraw : before.localBody with
  | none => simp [hraw] at hpush
  | some raw =>
    rw [hraw] at hpush
    dsimp only at hpush
    split at hpush
    · cases hpush
    · obtain ⟨body, hpublish, hbodyIs⟩ := publishStaged_current digests key before.remoteBody (policy.redactBody raw)
      rw [hpublish] at hpush
      cases hpush
      refine ⟨raw, rfl, rfl, ?_⟩
      rcases hbodyIs with rfl | ⟨_, hmatch⟩
      · exact oneCommit_published digests policy raw
      · exact oneCommit_matches hbody hmatch

/-- The local end holds the form that older clients published of the remote body. -/
def LegacyLocal (before : Ends) (remote : Value) : Prop :=
  before = ⟨some (legacyRedactedBody remote), some remote⟩ ∧ TransferPolicy.redacted.redactBody remote = remote ∧
    legacyRedactedBody remote ≠ remote

/-- A pull leaves the remote body on both ends, unless the local end holds its older form. -/
theorem syncPull_current (hbody : Function.Injective digests.body) {restored : Value}
    (hmodern : ∀ remote, ¬ LegacyLocal before remote)
    (hpull : syncPull digests key forced before steps before = (after, .ok restored)) :
    before.remoteBody = some restored ∧ after = ⟨some restored, some restored⟩ := by
  unfold syncPull at hpull
  cases hraw : before.remoteBody with
  | none => simp [hraw] at hpull
  | some raw =>
    rw [hraw] at hpull
    dsimp only at hpull
    split at hpull
    · cases hpull
    · obtain ⟨body, hpublish, hbodyIs⟩ := publishStaged_current digests key before.localBody raw
      rw [redactBody_full, hpublish] at hpull
      have hsame : body = raw := by
        rcases hbodyIs with rfl | ⟨hlocal, hmatch⟩
        · rfl
        · obtain ⟨hself, rfl | rfl⟩ := (redactedBodyMatchesRemoteHead_iff hbody).mp hmatch
          · rfl
          · by_contra hne
            exact hmodern raw ⟨by rw [← hlocal, ← hraw], hself, hne⟩
      subst hsame
      obtain ⟨_, _, rfl⟩ := map_eq_ok.mp (congrArg Prod.snd hpull)
      exact ⟨rfl, (congrArg Prod.fst hpull).symm⟩

variable {outcome : SyncOutcome Id}

/-- What a sync that transferred did. -/
theorem sync_transferred
    (hsync : sync digests key identity policy force sidecar before steps before = (after, .ok outcome))
    (haction : outcome.action ≠ "none") :
    ∃ direction forced body,
      syncDirection force (syncClassification digests policy (trustedBase sidecar identity) before)
        sidecar.corrupt = .ok (some (direction, forced)) ∧ outcome.recorded = some (digests.snapRef body) ∧
      match direction with
      | .push => syncPush digests key policy forced before steps before = (after, .ok body)
      | .pull => syncPull digests key forced before steps before = (after, .ok body) := by
  unfold sync at hsync
  dsimp only at hsync
  split at hsync
  next => cases hsync
  next =>
    -- in sync, with or without a base to record
    exfalso
    split at hsync
    · split_ifs at hsync
      · cases hsync
        exact haction rfl
      · obtain ⟨_, _, rfl⟩ := map_eq_ok.mp (congrArg Prod.snd hsync)
        exact haction rfl
    · cases hsync
      exact haction rfl
  next forced hdir =>
    obtain ⟨body, hpushed, hrec⟩ := bind_eq_ok.mp (congrArg Prod.snd hsync)
    obtain ⟨_, _, rfl⟩ := map_eq_ok.mp hrec
    have hafter := congrArg Prod.fst hsync
    exact ⟨.push, forced, body, hdir, rfl, Prod.ext hafter hpushed⟩
  next forced hdir =>
    obtain ⟨body, hpulled, hrec⟩ := bind_eq_ok.mp (congrArg Prod.snd hsync)
    obtain ⟨_, _, rfl⟩ := map_eq_ok.mp hrec
    have hafter := congrArg Prod.fst hsync
    exact ⟨.pull, forced, body, hdir, rfl, Prod.ext hafter hpulled⟩

/-- The pointers do not depend on how recording the base ends. -/
theorem sync_ends_record (record : Except ArtifactStoreError Unit) :
    (sync digests key identity policy force sidecar before { steps with record := record } before).1 =
      (sync digests key identity policy force sidecar before steps before).1 := by
  unfold sync
  dsimp only
  split
  next => rfl
  next =>
    cases before.remoteBody with
    | none => rfl
    | some remote => dsimp only; split_ifs <;> rfl
  next => rfl
  next => rfl

/-! ### The next sync -/

/-- The next sync without a force flag finds the ends in sync and leaves them. -/
structure Rests (digests : Digests Id) (key identity : String) (policy : TransferPolicy) (sidecar : SidecarRead Id)
    (ends : Ends) : Prop where
  inSync : syncClassification digests policy (trustedBase sidecar identity) ends = .inSync
  kept : ∀ steps, (sync digests key identity policy .none sidecar ends steps ends).1 = ends
  idle : ∀ steps outcome, (sync digests key identity policy .none sidecar ends steps ends).2 = .ok outcome →
    outcome.action = "none"

/-- After a sync that transferred, the next one rests: with the base it recorded, or, unforced, with the base it
started from. -/
structure Converges (digests : Digests Id) (key identity : String) (policy : TransferPolicy) (force : SyncForce)
    (sidecar : SidecarRead Id) (before : Ends) : Prop where
  recorded : ∀ steps outcome after,
    sync digests key identity policy force sidecar before steps before = (after, .ok outcome) →
      outcome.action ≠ "none" → ∃ agreed, outcome.recorded = some agreed ∧
        Rests digests key identity policy ⟨some (identity, agreed), false⟩ after
  stopped : ∀ (steps : SyncSteps) (error : ArtifactStoreError) outcome after,
    sync digests key identity policy .none sidecar before { steps with record := .ok () } before =
        (after, .ok outcome) → outcome.action ≠ "none" → force = .none →
      Rests digests key identity policy sidecar
        (sync digests key identity policy .none sidecar before { steps with record := .error error } before).1

/-- Ends in sync stay as they are. -/
theorem rests_of_inSync {ends : Ends}
    (hclass : syncClassification digests policy (trustedBase sidecar identity) ends = .inSync) :
    Rests digests key identity policy sidecar ends where
  inSync := hclass
  kept steps := by rw [sync_ends, hclass]
  idle steps outcome hok := by
    by_contra haction
    obtain ⟨_, _, _, hdir, _⟩ := sync_transferred (Prod.ext rfl hok) haction
    rw [hclass] at hdir
    cases hdir

/-- A classified base is not ahead of the local body. -/
theorem reaches_local (hlocal : before.localBody = some raw)
    (hclass : syncClassification digests policy base before ≠ .unknown) : Reaches digests base raw := by
  obtain ⟨localBody, remoteBody⟩ := before
  subst hlocal
  by_contra hback
  have hregr : regressed base (some (digests.snapRef raw)) = true := by simpa [Reaches] using hback
  refine hclass ?_
  cases remoteBody with
  | none =>
    have hgen : (digests.snapRef (policy.redactBody raw)).generation = (digests.snapRef raw).generation := by
      simp only [Digests.snapRef, bodyGeneration_redactBody]
    rw [← regressed_congr base hgen] at hregr
    simp [syncClassification, classifyRedactedLocalBody, classify, hregr]
  | some remote =>
    have hgen : (digests.comparedRef (policy.redactBody raw) remote).generation =
        (digests.snapRef raw).generation := by
      rw [comparedRef_generation, bodyGeneration_redactBody]
      rfl
    rw [← regressed_congr base hgen] at hregr
    simp [syncClassification, classifyRedactedLocalBody, classify, hregr]

/-- A classified base is not ahead of the remote body. -/
theorem reaches_remote (hremote : before.remoteBody = some raw)
    (hclass : syncClassification digests policy base before ≠ .unknown) : Reaches digests base raw := by
  obtain ⟨localBody, remoteBody⟩ := before
  subst hremote
  by_contra hback
  have hregr : regressed base (some (digests.snapRef raw)) = true := by simpa [Reaches] using hback
  refine hclass ?_
  cases localBody <;> simp [syncClassification, classifyRedactedLocalBody, classify, hregr]

/-- A sync pulls over the older form of the remote body: by force, or over the base's commit. -/
def PullsOverLegacy (digests : Digests Id) (force : SyncForce) (base : Option (SnapRef Id)) (before : Ends) : Prop :=
  ∃ remote, LegacyLocal before remote ∧ (force = .pull ∨ force = .none ∧ ∃ agreed, base = some agreed ∧
    agreed.generation ≤ (digests.snapRef remote).generation ∧
    agreed.logicalId = digests.logicalId (legacyRedactedBody remote))

/-- The local end of such a pull is behind the remote exactly when the base is its commit. -/
theorem syncClassification_legacyLocal (hbody : Function.Injective digests.body)
    (hlegacy : LegacyLocal before remote) :
    syncClassification digests policy base before = .remoteAhead ↔ ∃ agreed, base = some agreed ∧
      agreed.generation ≤ (digests.snapRef remote).generation ∧
      agreed.logicalId = digests.logicalId (legacyRedactedBody remote) := by
  obtain ⟨rfl, hself, hne⟩ := hlegacy
  have hgen : (digests.snapRef (legacyRedactedBody remote)).generation = (digests.snapRef remote).generation := by
    simp only [Digests.snapRef, bodyGeneration_legacyRedactedBody]
  have hlog : digests.logicalId remote ≠ digests.logicalId (legacyRedactedBody remote) := by
    simp only [Digests.logicalId, Digests.snapshotId, redactBody_legacyRedactedBody, hself, ne_eq, hbody.eq_iff]
    exact Ne.symm hne
  have hmatch : digests.redactedIdentityMatchesRemoteHead (legacyRedactedBody remote) remote = false := by
    simp only [Digests.redactedIdentityMatchesRemoteHead, Digests.logicalId, Digests.legacyRedactedId,
      Digests.snapshotId, redactBody_legacyRedactedBody, legacyRedactedBody_legacyRedactedBody, hbody.eq_iff,
      Ne.symm hne, decide_false, Bool.or_self]
  have hin (agreed : SnapRef Id) : (digests.snapRef (legacyRedactedBody remote)).Within agreed := by
    intro store id hid
    rw [Digests.snapRef_storeId, payload_legacyRedactedBody] at hid
    cases hid
  rw [syncClassification_pull_iff]
  simp only [redactBody_legacyRedactedBody, hgen, hmatch, SnapRef.addsNothingOver_iff, hin, and_true]
  apply exists_congr
  intro agreed
  constructor
  · intro hall
    obtain ⟨hbase, hreach, _, hcmt, _⟩ := hall
    exact ⟨hbase, hreach, hcmt.symm⟩
  · intro hall
    obtain ⟨hbase, hreach, hcmt⟩ := hall
    exact ⟨hbase, hreach, hreach, hcmt.symm, hcmt ▸ hlog⟩

/-- A sync that transferred leaves one commit on both ends, recorded as the base and not behind the old one. -/
theorem sync_oneCommit (hbody : Function.Injective digests.body)
    (hmodern : ¬ PullsOverLegacy digests force (trustedBase sidecar identity) before)
    (hsync : sync digests key identity policy force sidecar before steps before = (after, .ok outcome))
    (haction : outcome.action ≠ "none") :
    ∃ localBody remoteBody, after = ⟨some localBody, some remoteBody⟩ ∧
      outcome.recorded = some (digests.snapRef remoteBody) ∧ OneCommit digests policy localBody remoteBody ∧
      (force = .none → Reaches digests (trustedBase sidecar identity) remoteBody) := by
  obtain ⟨direction, forced, body, hdir, hrecd, htransfer⟩ := sync_transferred hsync haction
  have hclass (hforce : force = .none) :
      syncClassification digests policy (trustedBase sidecar identity) before ≠ .unknown := by
    intro hunk
    rw [hforce, hunk] at hdir
    cases hdir
  cases direction with
  | push =>
    obtain ⟨raw, hraw, rfl, hone⟩ := syncPush_current hbody htransfer
    refine ⟨raw, body, rfl, hrecd, hone, ?_⟩
    intro hforce
    have hreach := reaches_local hraw (hclass hforce)
    have hgen : (digests.snapRef raw).generation = (digests.snapRef body).generation := by
      simp only [Digests.snapRef, hone.generation]
    rwa [Reaches, regressed_congr _ hgen] at hreach
  | pull =>
    have hpulls : ∀ remote, ¬ LegacyLocal before remote := by
      intro remote hlegacy
      refine hmodern ⟨remote, hlegacy, ?_⟩
      cases force with
      | push => cases hdir
      | pull => exact .inl rfl
      | none =>
        have hahead : syncClassification digests policy (trustedBase sidecar identity) before = .remoteAhead := by
          unfold syncDirection at hdir
          cases hcls : syncClassification digests policy (trustedBase sidecar identity) before with
          | remoteAhead => rfl
          | _ => simp [hcls] at hdir
        exact .inr ⟨rfl, (syncClassification_legacyLocal hbody hlegacy).mp hahead⟩
    obtain ⟨hremote, rfl⟩ := syncPull_current hbody hpulls htransfer
    exact ⟨body, body, rfl, hrecd, oneCommit_restored digests policy body,
      fun hforce => reaches_remote hremote (hclass hforce)⟩

omit [DecidableEq Id] in
theorem trustedBase_recorded (agreed : SnapRef Id) :
    trustedBase ⟨some (identity, agreed), false⟩ identity = some agreed := by
  simp [trustedBase, Option.filter]

/-- A sync that pulls over the older form leaves both ends, and the next one pulls again. -/
theorem not_converges_of_pullsOverLegacy (hbody : Function.Injective digests.body)
    (hpulls : PullsOverLegacy digests force (trustedBase sidecar identity) before) :
    ¬ Converges digests key identity policy force sidecar before := by
  obtain ⟨remote, hlegacy, hdec⟩ := hpulls
  have hdir : ∃ forced, syncDirection force
      (syncClassification digests policy (trustedBase sidecar identity) before) sidecar.corrupt =
        .ok (some (.pull, forced)) := by
    rcases hdec with rfl | ⟨rfl, hagreed⟩
    · exact ⟨true, rfl⟩
    · exact ⟨false, by rw [(syncClassification_legacyLocal hbody hlegacy).mpr hagreed]; rfl⟩
  obtain ⟨forced, hdir⟩ := hdir
  have hpull : syncPull digests key forced before smoothSteps before = (before, .ok (legacyRedactedBody remote)) := by
    obtain ⟨rfl, hself, hne⟩ := hlegacy
    have hmatch := (redactedBodyMatchesRemoteHead_iff hbody).mpr ⟨hself, .inr rfl⟩
    simp [syncPull, smoothSteps, publishStaged, pointerPublished, redactBody_full, hmatch, Except.bind, Except.map]
  intro hconverges
  have hsync : sync digests key identity policy force sidecar before smoothSteps before = (before, .ok
      ⟨key, (syncClassification digests policy (trustedBase sidecar identity) before).asStr, "pull", forced,
        sidecar.corrupt, some (digests.snapRef (legacyRedactedBody remote))⟩) := by
    unfold sync
    simp only [hdir, hpull]
    rfl
  obtain ⟨agreed, hrecd, hrests⟩ := hconverges.recorded _ _ _ hsync (by simp)
  cases hrecd
  have hahead : syncClassification digests policy (some (digests.snapRef (legacyRedactedBody remote))) before =
      .remoteAhead := (syncClassification_legacyLocal hbody hlegacy).mpr
    ⟨_, rfl, by simp [Digests.snapRef, bodyGeneration_legacyRedactedBody], rfl⟩
  have hinSync := hrests.inSync
  rw [trustedBase_recorded, hahead] at hinSync
  cases hinSync

/-- Every sync that transfers leaves ends at which the next one rests, even without recording the base, exactly when
it does not pull over the older form of the remote body. -/
theorem sync_converges_iff (hbody : Function.Injective digests.body) (key identity : String)
    (policy : TransferPolicy) (force : SyncForce) (sidecar : SidecarRead Id) (before : Ends) :
    Converges digests key identity policy force sidecar before ↔
      ¬ PullsOverLegacy digests force (trustedBase sidecar identity) before := by
  constructor
  · intro hconverges hpulls
    exact not_converges_of_pullsOverLegacy hbody hpulls hconverges
  · intro hmodern
    refine ⟨?_, ?_⟩
    · intro steps outcome after hsync haction
      obtain ⟨localBody, remoteBody, rfl, hrecorded, hone, _⟩ := sync_oneCommit hbody hmodern hsync haction
      refine ⟨_, hrecorded, rests_of_inSync ?_⟩
      rw [trustedBase_recorded]
      exact hone.inSync (reaches_self remoteBody)
    · intro steps error outcome after hsync haction hforce
      subst hforce
      obtain ⟨localBody, remoteBody, rfl, _, hone, hreaches⟩ := sync_oneCommit hbody hmodern hsync haction
      have hends : (sync digests key identity policy .none sidecar before { steps with record := .error error }
          before).1 = ⟨some localBody, some remoteBody⟩ := by
        rw [sync_ends_record, ← sync_ends_record (.ok ()), hsync]
      rw [hends]
      exact rests_of_inSync (hone.inSync (hreaches rfl))

/-- The body of a graph store with the payload entries given: its topology is its only artifact. -/
def graphBody (payloads : List (String × Value)) : Value :=
  .object ([("base_epoch", .number "1"), ("generation", .number "1"),
    ("gtopo", .object [("base", .object [("file_bytes", .number "4096"), ("file_name", .string "topology.sqlite3"),
      ("sha256", .string "0123456789abcdef0123456789abcdef0123456789abcdef0123456789abcdef")]),
      ("deltas", .array [])]), ("index_key", .string "notes")] ++ payloads)

/-- A graph store restored from the older form, against the remote's form. -/
def legacyEnds : Ends where
  localBody := some (graphBody [("tvlex", .null), ("tvtext", .null)])
  remoteBody := some (graphBody [])

/-- A forced push of that store converges. -/
theorem sync_converges_iff_push :
    ¬ PullsOverLegacy plainDigests .push (trustedBase ⟨none, false⟩ "s3://bucket") legacyEnds ∧
      Converges plainDigests "notes" "s3://bucket" .redacted .push ⟨none, false⟩ legacyEnds := by
  have hmodern : ¬ PullsOverLegacy plainDigests .push (trustedBase ⟨none, false⟩ "s3://bucket") legacyEnds := by
    intro hpulls
    obtain ⟨_, _, hforce | ⟨hforce, _⟩⟩ := hpulls <;> cases hforce
  exact ⟨hmodern, (sync_converges_iff Function.injective_id _ _ _ _ _ _).mpr hmodern⟩

/-- A forced pull over that store never comes to rest. -/
theorem exists_sync_not_converges :
    ¬ ∀ (key identity : String) (policy : TransferPolicy) (force : SyncForce) (sidecar : SidecarRead Value)
      (before : Ends), Converges plainDigests key identity policy force sidecar before := by
  intro hconverges
  refine not_converges_of_pullsOverLegacy Function.injective_id ?_
    (hconverges "notes" "s3://bucket" .redacted .pull ⟨none, false⟩ legacyEnds)
  refine ⟨graphBody [], ⟨?_, ?_, ?_⟩, .inl rfl⟩
  · exact congrArg₂ Ends.mk (by decide +kernel) rfl
  · decide +kernel
  · decide +kernel

end LodeDB.Cloud
