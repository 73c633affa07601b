import LodeDB.Cloud.SyncPlan
import LodeDB.Cloud.Transfer

/-!
# Syncing a directory with a remote

A sync reads both pointers and the recorded base, classifies them with the local body as the policy would publish it,
and transfers in at most one direction. It never replaces a generation whose commit and stored payloads the base or
the other end holds, except by a pull, whose classification saw the local body without the payload stores the policy
leaves out.
-/

namespace LodeDB.Cloud

variable {forced : Bool} {localBody remoteBody : Value}

/-- The bodies the two root pointers hold. -/
structure Ends where
  localBody : Option Value
  remoteBody : Option Value

/-- The direction of a transfer. -/
inductive Direction
  | push
  | pull
  deriving DecidableEq

/-- What the caller forces. -/
inductive SyncForce
  | none
  | push
  | pull
  deriving DecidableEq

/-- The sidecar as read: its remote and its base, unless absent or corrupt. -/
structure SidecarRead (Id : Type) where
  state : Option (String × SnapRef Id)
  corrupt : Bool

/-- What a sync reports. -/
structure SyncOutcome (Id : Type) where
  indexKey : String
  classification : String
  action : String
  forced : Bool
  sidecarCorrupt : Bool
  recorded : Option (SnapRef Id)

/-- How the steps of a sync that move no pointer end: those before the swap (lock, pending log, staging and
verifying), those after a pull's swap (log, journal manifests), and recording the base. -/
structure SyncSteps where
  prepare : Direction → Bool → Except ArtifactStoreError Unit
  restore : Except ArtifactStoreError Unit
  record : Except ArtifactStoreError Unit

variable {Id : Type} [DecidableEq Id] (digests : Digests Id)

/-- The recorded base, if it was recorded against this remote. -/
def trustedBase (sidecar : SidecarRead Id) (identity : String) : Option (SnapRef Id) :=
  (sidecar.state.filter fun state => state.1 = identity).map Prod.snd

/-- The advice of a refused sync. -/
def syncHint (corrupt : Bool) : String :=
  "re-run with --force-push to keep the local copy or --force-pull to keep the remote copy" ++
    if corrupt then
      " (note: the sync sidecar was present but corrupt and was ignored, so the recorded base could " ++
        "not be trusted)"
    else ""

/-- The transfer a sync makes, if any, and whether it is forced. -/
def syncDirection (force : SyncForce) (classification : SyncClassification) (corrupt : Bool) :
    Except ArtifactStoreError (Option (Direction × Bool)) :=
  match force with
  | .push => .ok (some (.push, true))
  | .pull => .ok (some (.pull, true))
  | .none =>
    match classification with
    | .inSync => .ok none
    | .localAhead | .republish => .ok (some (.push, false))
    | .remoteAhead => .ok (some (.pull, false))
    | .diverged | .unknown => .error (.syncConflict classification.asStr (syncHint corrupt))

/-- Push the local body over the remote pointer. -/
def syncPush (key : String) (policy : TransferPolicy) (forced : Bool) (before : Ends) (steps : SyncSteps)
    (now : Ends) : Ends × Except ArtifactStoreError Value :=
  match before.localBody with
  | none => (now, .error (.notFound ("no committed generation to push for index key \"" ++ key ++ "\"")))
  | some raw =>
    match (policy.refuseUnredactable raw >>= fun _ => steps.prepare .push forced) with
    | .error error => (now, .error error)
    | .ok _ =>
      let published := publishStaged digests key now.remoteBody before.remoteBody (policy.redactBody raw)
      (⟨now.localBody, published.1⟩, published.2)

/-- Pull the remote body, as it is, over the local pointer. -/
def syncPull (key : String) (forced : Bool) (before : Ends) (steps : SyncSteps) (now : Ends) :
    Ends × Except ArtifactStoreError Value :=
  match before.remoteBody with
  | none => (now, .error (.notFound ("no committed generation to pull for index key \"" ++ key ++ "\"")))
  | some raw =>
    match steps.prepare .pull forced with
    | .error error => (now, .error error)
    | .ok _ =>
      let published := publishStaged digests key now.localBody before.localBody
        (TransferPolicy.full.redactBody raw)
      (⟨published.1, now.remoteBody⟩, published.2.bind fun restored => steps.restore.map fun _ => restored)

/-- The classification of the ends, with the local body as published. -/
def syncClassification (policy : TransferPolicy) (base : Option (SnapRef Id)) (before : Ends) :
    SyncClassification :=
  classifyRedactedLocalBody digests (before.localBody.map policy.redactBody) base before.remoteBody

/-- Sync one index. The ends were read as `before`; they hold `now` at the swap. -/
def sync (key identity : String) (policy : TransferPolicy) (force : SyncForce) (sidecar : SidecarRead Id)
    (before : Ends) (steps : SyncSteps) (now : Ends) : Ends × Except ArtifactStoreError (SyncOutcome Id) :=
  let base := trustedBase sidecar identity
  let classification := syncClassification digests policy base before
  let outcome (action : String) (forced : Bool) (recorded : Option (SnapRef Id)) : SyncOutcome Id :=
    ⟨key, classification.asStr, action, forced, sidecar.corrupt, recorded⟩
  match syncDirection force classification sidecar.corrupt with
  | .error error => (now, .error error)
  | .ok none =>
    let current := base.isSome && base.map SnapRef.snapshotId = before.remoteBody.map digests.snapshotId
    match before.remoteBody with
    | some remote =>
      if current then (now, .ok (outcome "none" false none))
      else (now, steps.record.map fun _ => outcome "none" false (some (digests.snapRef remote)))
    | none => (now, .ok (outcome "none" false none))
  | .ok (some (.push, forced)) =>
    let pushed := syncPush digests key policy forced before steps now
    (pushed.1, pushed.2.bind fun published =>
      steps.record.map fun _ => outcome "push" forced (some (digests.snapRef published)))
  | .ok (some (.pull, forced)) =>
    let pulled := syncPull digests key forced before steps now
    (pulled.1, pulled.2.bind fun restored =>
      steps.record.map fun _ => outcome "pull" forced (some (digests.snapRef restored)))

/-! ### What a sync may replace -/

/-- The commit of a body and its payload stores are held by the base or by the other end. -/
structure Held (base : Option (SnapRef Id)) (other : Option Value) (body : Value) : Prop where
  commit : (∃ agreed, base = some agreed ∧ agreed.logicalId = digests.logicalId body) ∨
    ∃ kept, other = some kept ∧ commitOf kept = commitOf body
  stores : ∀ store manifest, payload body store = some manifest →
    (∃ agreed, base = some agreed ∧ agreed.storeId store = some (digests.store manifest)) ∨
      ∃ kept, other = some kept ∧ payload kept store = some manifest

/-- Every generation a sync replaced was held by the base or the other end. -/
structure Spares (base : Option (SnapRef Id)) (before now after : Ends) : Prop where
  localBody : ∀ body, now.localBody = some body → after.localBody ≠ some body →
    Held digests base before.remoteBody body
  remoteBody : ∀ body, now.remoteBody = some body → after.remoteBody ≠ some body →
    Held digests base before.localBody body

/-- The remote fast-forwards the local end as the policy shows it, while the policy hides a local payload store that
neither the base nor the remote holds. -/
def HidesPayload (policy : TransferPolicy) (base : Option (SnapRef Id)) (before : Ends) : Prop :=
  ∃ localBody remoteBody agreed store manifest, before = ⟨some localBody, some remoteBody⟩ ∧ base = some agreed ∧
      agreed.generation ≤ (digests.snapRef localBody).generation ∧
      agreed.generation ≤ (digests.snapRef remoteBody).generation ∧
      (digests.snapRef (policy.redactBody localBody)).addsNothingOver agreed = true ∧
      digests.logicalId remoteBody ≠ agreed.logicalId ∧
      digests.redactedIdentityMatchesRemoteHead (policy.redactBody localBody) remoteBody = false ∧
      policy.includes store = false ∧ payload localBody store = some manifest ∧
      agreed.storeId store ≠ some (digests.store manifest) ∧ payload remoteBody store ≠ some manifest

variable {digests} {key identity : String} {policy : TransferPolicy} {sidecar : SidecarRead Id}
  {before now : Ends} {steps : SyncSteps}

theorem syncPush_localBody (forced : Bool) :
    (syncPush digests key policy forced before steps now).1.localBody = now.localBody := by
  unfold syncPush
  cases before.localBody with
  | none => rfl
  | some raw => dsimp only; split <;> rfl

theorem syncPull_remoteBody (forced : Bool) :
    (syncPull digests key forced before steps now).1.remoteBody = now.remoteBody := by
  unfold syncPull
  cases before.remoteBody with
  | none => rfl
  | some raw => dsimp only; split <;> rfl

/-- A push that moves the remote pointer replaces the body that was classified. -/
theorem syncPush_replaces
    (hmoved : (syncPush digests key policy forced before steps now).1.remoteBody ≠ now.remoteBody) :
    now.remoteBody = before.remoteBody ∧ before.localBody.isSome := by
  unfold syncPush at hmoved
  cases hraw : before.localBody with
  | none => simp [hraw] at hmoved
  | some raw =>
    rw [hraw] at hmoved
    dsimp only at hmoved
    split at hmoved
    · exact absurd rfl hmoved
    · exact ⟨publishStaged_replaces digests hmoved, rfl⟩

/-- A pull that moves the local pointer replaces the body that was classified. -/
theorem syncPull_replaces (hmoved : (syncPull digests key forced before steps now).1.localBody ≠ now.localBody) :
    now.localBody = before.localBody ∧ before.remoteBody.isSome := by
  unfold syncPull at hmoved
  cases hraw : before.remoteBody with
  | none => simp [hraw] at hmoved
  | some raw =>
    rw [hraw] at hmoved
    dsimp only at hmoved
    split at hmoved
    · exact absurd rfl hmoved
    · exact ⟨publishStaged_replaces digests hmoved, rfl⟩

/-- The ends after a sync without a force flag. -/
theorem sync_ends :
    (sync digests key identity policy .none sidecar before steps now).1 =
      match syncClassification digests policy (trustedBase sidecar identity) before with
      | .localAhead | .republish => (syncPush digests key policy false before steps now).1
      | .remoteAhead => (syncPull digests key false before steps now).1
      | _ => now := by
  unfold sync
  dsimp only
  cases syncClassification digests policy (trustedBase sidecar identity) before with
  | inSync =>
    cases before.remoteBody with
    | none => rfl
    | some remote => dsimp only [syncDirection]; split_ifs <;> rfl
  | _ => rfl

/-- A remote head that is a redacted form of the local body holds its commit. -/
theorem commitOf_eq_of_matches (hbody : Function.Injective digests.body)
    (hmatch : digests.redactedIdentityMatchesRemoteHead localBody remoteBody = true) :
    commitOf remoteBody = commitOf localBody := by
  simp only [Digests.redactedIdentityMatchesRemoteHead, Bool.or_eq_true, decide_eq_true_eq] at hmatch
  rcases hmatch with hid | hid
  · have hremote := hbody hid
    rw [hremote, commitOf_redactBody]
  · have hremote : remoteBody = legacyRedactedBody localBody := hbody hid
    rw [hremote, commitOf_legacyRedactedBody]

theorem commitOf_eq_of_compared (hbody : Function.Injective digests.body)
    (hid : (digests.comparedRef localBody remoteBody).logicalId = digests.logicalId remoteBody) :
    commitOf remoteBody = commitOf localBody := by
  unfold Digests.comparedRef at hid
  split_ifs at hid with hmatch
  · exact commitOf_eq_of_matches hbody hmatch
  · exact (commitOf_eq_of_logicalId hbody hid).symm

/-- A body that adds nothing over the base is held by it. -/
theorem held_of_addsNothing {agreed : SnapRef Id} {other : Option Value} {body : Value}
    (hadds : (digests.snapRef body).addsNothingOver agreed = true) : Held digests (some agreed) other body := by
  obtain ⟨hcmt, hin⟩ := (SnapRef.addsNothingOver_iff _ _).mp hadds
  refine ⟨.inl ⟨agreed, rfl, hcmt.symm⟩, ?_⟩
  intro store manifest hman
  refine .inl ⟨agreed, rfl, hin store _ ?_⟩
  rw [Digests.snapRef_storeId, hman, Option.map_some]

variable {base : Option (SnapRef Id)}

/-- What a push replaces is held by the base or by the local end. -/
theorem held_of_push (hbody : Function.Injective digests.body) (hstore : Function.Injective digests.store)
    (hclass : syncClassification digests policy base ⟨some localBody, some remoteBody⟩ = .localAhead ∨
      syncClassification digests policy base ⟨some localBody, some remoteBody⟩ = .republish) :
    Held digests base (some localBody) remoteBody := by
  rcases classify_push hclass with ⟨agreed, hbase, hadds⟩ | ⟨hsame, hin⟩
  · subst hbase
    exact held_of_addsNothing hadds
  · refine ⟨.inr ⟨localBody, rfl, ?_⟩, ?_⟩
    · rw [commitOf_eq_of_compared hbody hsame, commitOf_redactBody]
    · intro store manifest hman
      have hid := hin store (digests.store manifest)
        (by rw [Digests.snapRef_storeId, hman, Option.map_some])
      rw [comparedRef_storeId, payload_redactBody] at hid
      split_ifs at hid with hincluded
      · obtain ⟨kept, hkept, hdig⟩ := Option.map_eq_some_iff.mp hid
        exact .inr ⟨localBody, rfl, by rw [hkept, hstore hdig]⟩
      · cases hid

/-- When a sync pulls over a local generation. -/
theorem syncClassification_pull_iff :
    syncClassification digests policy base ⟨some localBody, some remoteBody⟩ = .remoteAhead ↔
      ∃ agreed, base = some agreed ∧ agreed.generation ≤ (digests.snapRef localBody).generation ∧
        agreed.generation ≤ (digests.snapRef remoteBody).generation ∧
        (digests.snapRef (policy.redactBody localBody)).addsNothingOver agreed = true ∧
        digests.logicalId remoteBody ≠ agreed.logicalId ∧
        digests.redactedIdentityMatchesRemoteHead (policy.redactBody localBody) remoteBody = false := by
  have hclass : syncClassification digests policy base ⟨some localBody, some remoteBody⟩ =
      classify (some (digests.comparedRef (policy.redactBody localBody) remoteBody)) base
        (some (digests.snapRef remoteBody)) := rfl
  have hgen : (digests.snapRef (policy.redactBody localBody)).generation =
      (digests.snapRef localBody).generation := by
    simp only [Digests.snapRef, bodyGeneration_redactBody]
  rw [hclass, classify_pull_iff]
  cases hmatch : digests.redactedIdentityMatchesRemoteHead (policy.redactBody localBody) remoteBody with
  | true =>
    simp [Digests.comparedRef, hmatch, Digests.snapRef]
  | false =>
    simp only [Digests.comparedRef, hmatch, Bool.false_eq_true, if_false, and_true, hgen]
    apply exists_congr
    intro agreed
    constructor
    · intro hall
      obtain ⟨hbase, hlocal, hremote, hne, hadds⟩ := hall
      refine ⟨hbase, hlocal, hremote, hadds, ?_⟩
      intro hid
      exact hne (((SnapRef.addsNothingOver_iff _ _).mp hadds).1.trans hid.symm)
    · intro hall
      obtain ⟨hbase, hlocal, hremote, hadds, hne⟩ := hall
      refine ⟨hbase, hlocal, hremote, ?_, hadds⟩
      intro hid
      exact hne (hid.symm.trans ((SnapRef.addsNothingOver_iff _ _).mp hadds).1)

/-- What a pull replaces is held, unless the policy hid a payload store of it. -/
theorem held_of_pull (hshown : ¬ HidesPayload digests policy base ⟨some localBody, some remoteBody⟩)
    (hclass : syncClassification digests policy base ⟨some localBody, some remoteBody⟩ = .remoteAhead) :
    Held digests base (some remoteBody) localBody := by
  obtain ⟨agreed, hbase, hlocal, hremote, hadds, hne, hmatch⟩ := syncClassification_pull_iff.mp hclass
  subst hbase
  obtain ⟨hcmt, hin⟩ := (SnapRef.addsNothingOver_iff _ _).mp hadds
  have hlog : digests.logicalId localBody = agreed.logicalId := by
    rw [← hcmt]
    exact (logicalId_redactBody digests policy localBody).symm
  refine ⟨.inl ⟨agreed, rfl, hlog.symm⟩, ?_⟩
  intro store manifest hman
  cases hincluded : policy.includes store with
  | true =>
    refine .inl ⟨agreed, rfl, hin store _ ?_⟩
    rw [Digests.snapRef_storeId, payload_redactBody, if_pos hincluded, hman, Option.map_some]
  | false =>
    by_contra hlost
    rw [not_or] at hlost
    refine hshown ⟨localBody, remoteBody, agreed, store, manifest, rfl, rfl, hlocal, hremote, hadds, hne,
      hmatch, hincluded, hman, ?_, ?_⟩
    · intro hid
      exact hlost.1 ⟨agreed, rfl, hid⟩
    · intro hkept
      exact hlost.2 ⟨remoteBody, rfl, hkept⟩

/-- A remote body that is not the local one in either form is published by a pull. -/
theorem pointerPublished_of_payload (hbody : Function.Injective digests.body) {store : PayloadStore}
    {manifest : Value} (hlocal : payload localBody store = some manifest)
    (hremote : payload remoteBody store ≠ some manifest) :
    pointerPublished digests (some localBody) remoteBody = true := by
  have hne : localBody ≠ remoteBody := by
    intro hsame
    exact hremote (hsame ▸ hlocal)
  have hmatch : digests.redactedBodyMatchesRemoteHead remoteBody localBody = false := by
    by_contra hsame
    simp only [Bool.not_eq_false, Digests.redactedBodyMatchesRemoteHead, Bool.and_eq_true,
      Digests.redactedIdentityMatchesRemoteHead, Bool.or_eq_true, decide_eq_true_eq] at hsame
    rcases hsame.2 with hid | hid
    · have hredacted := hbody hid
      rw [hredacted, payload_redactBody] at hlocal
      cases store <;> cases hlocal
    · have hlegacy : localBody = legacyRedactedBody remoteBody := hbody hid
      rw [hlegacy, payload_legacyRedactedBody] at hlocal
      cases hlocal
  simp [pointerPublished, hne, hmatch]

omit [DecidableEq Id] in
theorem Spares.refl (base : Option (SnapRef Id)) (before now : Ends) : Spares digests base before now now where
  localBody _ hbody hmoved := absurd hbody hmoved
  remoteBody _ hbody hmoved := absurd hbody hmoved

/-- A push spares both ends. -/
theorem syncPush_spares (hbody : Function.Injective digests.body) (hstore : Function.Injective digests.store)
    (hclass : syncClassification digests policy base before = .localAhead ∨
      syncClassification digests policy base before = .republish) :
    Spares digests base before now (syncPush digests key policy false before steps now).1 where
  localBody body hlocal hmoved := absurd (by rw [syncPush_localBody, hlocal]) hmoved
  remoteBody body hremote hmoved := by
    rw [← hremote] at hmoved
    obtain ⟨hcls, hsource⟩ := syncPush_replaces hmoved
    obtain ⟨localBody, hlocalBody⟩ := Option.isSome_iff_exists.mp hsource
    obtain ⟨localEnd, remoteEnd⟩ := before
    have hremoteEnd : remoteEnd = some body := hcls.symm.trans hremote
    subst hremoteEnd
    cases hlocalBody
    exact held_of_push hbody hstore hclass

/-- A pull spares both ends, unless the policy hid a payload store. -/
theorem syncPull_spares (hshown : ¬ HidesPayload digests policy base before)
    (hclass : syncClassification digests policy base before = .remoteAhead) :
    Spares digests base before now (syncPull digests key false before steps now).1 where
  localBody body hlocal hmoved := by
    rw [← hlocal] at hmoved
    obtain ⟨hcls, hsource⟩ := syncPull_replaces hmoved
    obtain ⟨remoteBody, hremoteBody⟩ := Option.isSome_iff_exists.mp hsource
    obtain ⟨localEnd, remoteEnd⟩ := before
    have hlocalEnd : localEnd = some body := hcls.symm.trans hlocal
    subst hlocalEnd
    cases hremoteBody
    exact held_of_pull hshown hclass
  remoteBody body hremote hmoved := absurd (by rw [syncPull_remoteBody, hremote]) hmoved

/-- Steps that all succeed. -/
def smoothSteps : SyncSteps where
  prepare _ _ := .ok ()
  restore := .ok ()
  record := .ok ()

/-- A sync that succeeds replaces a local payload store the policy hid. -/
theorem not_spares_of_hidesPayload (hbody : Function.Injective digests.body)
    (hhides : HidesPayload digests policy (trustedBase sidecar identity) before) :
    ¬ Spares digests (trustedBase sidecar identity) before before
      (sync digests key identity policy .none sidecar before smoothSteps before).1 := by
  obtain ⟨localBody, remoteBody, agreed, store, manifest, rfl, hbase, hlocal, hremote, hadds, hne, hmatch,
    hexcluded, hman, hunrecorded, hunheld⟩ := hhides
  have hclass := syncClassification_pull_iff.mpr ⟨agreed, hbase, hlocal, hremote, hadds, hne, hmatch⟩
  have hafter : (sync digests key identity policy .none sidecar ⟨some localBody, some remoteBody⟩ smoothSteps
      ⟨some localBody, some remoteBody⟩).1 = ⟨some remoteBody, some remoteBody⟩ := by
    have hpub := pointerPublished_of_payload hbody hman hunheld
    rw [sync_ends, hclass]
    simp [syncPull, smoothSteps, publishStaged, compareAndSwapPointer, redactBody_full, hpub]
  intro hspares
  have hheld := hspares.localBody localBody rfl (by
    rw [hafter]
    intro hsame
    exact hunheld (Option.some.inj hsame ▸ hman))
  rcases hheld.stores store manifest hman with ⟨recorded, hrecd, hid⟩ | ⟨kept, hkept, hpay⟩
  · rw [hbase] at hrecd
    exact hunrecorded (Option.some.inj hrecd ▸ hid)
  · exact hunheld (Option.some.inj hkept ▸ hpay)

/-- A sync without a force flag replaces only what the base or the other end holds, exactly when the policy hides no
payload store of a local end that is fast-forwarded. -/
theorem sync_spares_iff (hbody : Function.Injective digests.body) (hstore : Function.Injective digests.store)
    (key identity : String) (policy : TransferPolicy) (sidecar : SidecarRead Id) (before : Ends) :
    (∀ steps now, Spares digests (trustedBase sidecar identity) before now
      (sync digests key identity policy .none sidecar before steps now).1) ↔
      ¬ HidesPayload digests policy (trustedBase sidecar identity) before := by
  constructor
  · intro hspares hhides
    exact not_spares_of_hidesPayload hbody hhides (hspares smoothSteps before)
  · intro hshown steps now
    rw [sync_ends]
    cases hclass : syncClassification digests policy (trustedBase sidecar identity) before with
    | localAhead => exact syncPush_spares hbody hstore (.inl hclass)
    | republish => exact syncPush_spares hbody hstore (.inr hclass)
    | remoteAhead => exact syncPull_spares hshown hclass
    | inSync => exact .refl _ before now
    | diverged => exact .refl _ before now
    | unknown => exact .refl _ before now

/-- A generation with its text, and the remote's next one, made from a copy without it. -/
def enrichedEnds : Ends where
  localBody := some (.object [("generation", .number "1"), ("index_key", .string "notes"),
    ("tvim", .string "g1.tvim"), ("tvtext", .string "g1.tvtext")])
  remoteBody := some (.object [("generation", .number "2"), ("index_key", .string "notes"),
    ("tvim", .string "g2.tvim"), ("tvtext", .null)])

/-- The base a redacted push of the local generation recorded. -/
def redactedSidecar : SidecarRead Value where
  state := some ("s3://bucket", plainDigests.snapRef (.object [("generation", .number "1"),
    ("index_key", .string "notes"), ("tvim", .string "g1.tvim"), ("tvtext", .null)]))
  corrupt := false

theorem redactedSidecar_hides :
    HidesPayload plainDigests .redacted (trustedBase redactedSidecar "s3://bucket") enrichedEnds := by
  refine ⟨_, _, _, .text, .string "g1.tvtext", rfl, rfl, ?_, ?_, ?_, ?_, ?_, rfl, ?_, ?_, ?_⟩ <;>
    decide +kernel

/-- With a policy that ships everything, the same ends are only classified. -/
theorem sync_spares_full :
    ¬ HidesPayload plainDigests .full (trustedBase redactedSidecar "s3://bucket") enrichedEnds ∧
      Spares plainDigests (trustedBase redactedSidecar "s3://bucket") enrichedEnds enrichedEnds
        (sync plainDigests "notes" "s3://bucket" .full .none redactedSidecar enrichedEnds smoothSteps
          enrichedEnds).1 := by
  have hshown : ¬ HidesPayload plainDigests .full (trustedBase redactedSidecar "s3://bucket") enrichedEnds := by
    intro hhides
    obtain ⟨_, _, _, store, _, _, _, _, _, _, _, _, hexcluded, _⟩ := hhides
    cases store <;> cases hexcluded
  exact ⟨hshown, (sync_spares_iff Function.injective_id Function.injective_id _ _ _ _ _).mpr hshown
    smoothSteps enrichedEnds⟩

/-- A sync that ships no text pulls over a text nobody else holds. -/
theorem exists_sync_drops_text :
    ¬ ∀ (key identity : String) (policy : TransferPolicy) (sidecar : SidecarRead Value) (before : Ends)
      (steps : SyncSteps) (now : Ends), Spares plainDigests (trustedBase sidecar identity) before now
        (sync plainDigests key identity policy .none sidecar before steps now).1 := by
  intro hspares
  exact not_spares_of_hidesPayload Function.injective_id redactedSidecar_hides
    (hspares "notes" "s3://bucket" .redacted redactedSidecar enrichedEnds smoothSteps enrichedEnds)

end LodeDB.Cloud
