import LodeDB.Cloud.Body
import Mathlib.Tactic.Tauto

/-!
# Classifying three pointers

A sync compares the local generation as the policy would publish it, the base recorded when both
ends last agreed, and the remote generation. The classification says which transfer, if any, is a
fast-forward.
-/

namespace LodeDB.Cloud

namespace SnapRef

variable {Id : Type} [DecidableEq Id]

/-- Two identities that are both there and differ. -/
def conflicts (mine theirs : Option Id) : Bool := mine.isSome && theirs.isSome && mine ≠ theirs

variable (ref other : SnapRef Id)

/-- Whether a store present on both snapshots differs. -/
def sharedStoreConflict : Bool :=
  conflicts ref.textId other.textId || conflicts ref.lexicalId other.lexicalId

/-- Whether a snapshot's payload stores are among another's. -/
def carriesNoMoreThan : Bool :=
  (ref.textId.isNone || other.textId.isSome) && (ref.lexicalId.isNone || other.lexicalId.isSome)

/-- Whether a snapshot carries a store another lacks, and lacks none it carries. -/
def carriesMoreThan : Bool :=
  ((ref.textId.isSome && other.textId.isNone) || (ref.lexicalId.isSome && other.lexicalId.isNone)) &&
    other.carriesNoMoreThan ref

/-- Whether discarding a snapshot for something derived from the base loses nothing. -/
def addsNothingOver (ref base : SnapRef Id) : Bool :=
  ref.logicalId = base.logicalId && !ref.sharedStoreConflict base && ref.carriesNoMoreThan base

/-- Every payload store of a snapshot is in another, with the same identity. -/
def Within : Prop :=
  ∀ store id, ref.storeId store = some id → other.storeId store = some id

/-- One store is in the other snapshot, with the same identity. -/
theorem kept_iff (mine theirs : Option Id) :
    (∀ id, mine = some id → theirs = some id) ↔
      conflicts mine theirs = false ∧ (mine.isNone || theirs.isSome) = true := by
  cases mine with
  | none => simp [conflicts]
  | some id =>
    cases theirs with
    | none => simp
    | some other => grind [conflicts]

theorem within_iff :
    ref.Within other ↔ ref.sharedStoreConflict other = false ∧ ref.carriesNoMoreThan other = true := by
  have hstores : ref.Within other ↔ (∀ id, ref.textId = some id → other.textId = some id) ∧
      ∀ id, ref.lexicalId = some id → other.lexicalId = some id := by
    constructor
    · intro hin
      exact ⟨hin .text, hin .lexical⟩
    · intro hboth store
      cases store with
      | text => exact hboth.1
      | lexical => exact hboth.2
  rw [hstores, kept_iff, kept_iff, sharedStoreConflict, carriesNoMoreThan, Bool.or_eq_false_iff, Bool.and_eq_true]
  tauto

/-- A snapshot adds nothing over a base with its commit and its stores. -/
theorem addsNothingOver_iff (ref base : SnapRef Id) :
    ref.addsNothingOver base = true ↔ ref.logicalId = base.logicalId ∧ ref.Within base := by
  rw [within_iff]
  simp [addsNothingOver, and_assoc]

end SnapRef

/-- What a sync of one index would have to do. -/
inductive SyncClassification
  | inSync
  | localAhead
  | remoteAhead
  | diverged
  | republish
  | unknown
  deriving DecidableEq

/-- The name reports and error messages use. -/
def SyncClassification.asStr : SyncClassification → String
  | .inSync => "in_sync"
  | .localAhead => "local_ahead"
  | .remoteAhead => "remote_ahead"
  | .diverged => "diverged"
  | .republish => "republish"
  | .unknown => "unknown"

variable {Id : Type} [DecidableEq Id]

/-- Whether a side's generation number moved backwards relative to the base. -/
def regressed (base side : Option (SnapRef Id)) : Bool :=
  match base, side with
  | some base, some side => side.generation < base.generation
  | _, _ => false

/-- Two snapshots of one commit differ by the payload stores they carry. -/
def classifySameCommit (localRef remote : SnapRef Id) : SyncClassification :=
  if localRef.snapshotId = remote.snapshotId then .inSync
  else if localRef.sharedStoreConflict remote then .unknown
  else if localRef.carriesMoreThan remote then .republish
  else if localRef.carriesNoMoreThan remote then .inSync
  else .unknown

/-- Snapshots of different commits: a fast-forward discards the side that adds nothing. -/
def classifyMoved (localRef : SnapRef Id) (base : Option (SnapRef Id)) (remote : SnapRef Id) :
    SyncClassification :=
  match base with
  | none => .unknown
  | some base =>
    match localRef.addsNothingOver base, remote.addsNothingOver base with
    | false, true => .localAhead
    | true, false => .remoteAhead
    | false, false => .diverged
    | true, true => .inSync

/-- Classify one index's sync state from its three pointers. -/
def classify (localRef base remote : Option (SnapRef Id)) : SyncClassification :=
  if localRef.isNone && remote.isNone then .inSync
  else if regressed base localRef || regressed base remote then .unknown
  else match localRef, remote with
    | some localRef, some remote =>
      if localRef.logicalId = remote.logicalId then classifySameCommit localRef remote
      else classifyMoved localRef base remote
    | none, some _ => .remoteAhead
    | _, none => .localAhead

variable (digests : Digests Id)

/-- The identities a redacted local body is compared by, with the remote's commit where that is a redacted form. -/
def Digests.comparedRef (localBody remoteBody : Value) : SnapRef Id :=
  if digests.redactedIdentityMatchesRemoteHead localBody remoteBody then
    { digests.snapRef localBody with logicalId := digests.logicalId remoteBody }
  else digests.snapRef localBody

/-- Classify a redacted local body against a remote head that may be in the older form. -/
def classifyRedactedLocalBody (localBody : Option Value) (base : Option (SnapRef Id))
    (remoteBody : Option Value) : SyncClassification :=
  match localBody, remoteBody with
  | some body, some remote => classify (some (digests.comparedRef body remote)) base (some (digests.snapRef remote))
  | _, _ => classify (localBody.map digests.snapRef) base (remoteBody.map digests.snapRef)

/-! ### What each transfer needs -/

variable {localRef remote : SnapRef Id}

theorem classifySameCommit_republish (hclass : classifySameCommit localRef remote = .republish) :
    remote.Within localRef := by
  unfold classifySameCommit at hclass
  split_ifs at hclass with hsame hconflict hmore
  rw [SnapRef.within_iff]
  constructor
  · have hsymm : remote.sharedStoreConflict localRef = localRef.sharedStoreConflict remote := by
      simp only [SnapRef.sharedStoreConflict, SnapRef.conflicts]
      grind
    rw [hsymm]
    simpa using hconflict
  · rw [SnapRef.carriesMoreThan, Bool.and_eq_true] at hmore
    exact hmore.2

theorem classifySameCommit_ne_ahead (localRef remote : SnapRef Id) :
    classifySameCommit localRef remote ≠ .localAhead ∧ classifySameCommit localRef remote ≠ .remoteAhead := by
  unfold classifySameCommit
  split_ifs <;> simp

variable {base : Option (SnapRef Id)}

/-- A push over a different commit discards a remote that adds nothing over the base. -/
theorem classifyMoved_localAhead (hclass : classifyMoved localRef base remote = .localAhead) :
    ∃ agreed, base = some agreed ∧ remote.addsNothingOver agreed = true := by
  cases base with
  | none => cases hclass
  | some agreed =>
    refine ⟨agreed, rfl, ?_⟩
    unfold classifyMoved at hclass
    cases hremote : remote.addsNothingOver agreed with
    | true => rfl
    | false => cases hlocal : localRef.addsNothingOver agreed <;> simp [hremote, hlocal] at hclass

theorem classifyMoved_ne_republish (localRef remote : SnapRef Id) (base : Option (SnapRef Id)) :
    classifyMoved localRef base remote ≠ .republish := by
  cases base with
  | none => simp [classifyMoved]
  | some agreed =>
    simp only [classifyMoved]
    split <;> simp

/-- What a sync transfers when both ends hold a generation. -/
theorem classify_both (localRef remote : SnapRef Id) (base : Option (SnapRef Id)) :
    classify (some localRef) base (some remote) =
      if regressed base (some localRef) || regressed base (some remote) then .unknown
      else if localRef.logicalId = remote.logicalId then classifySameCommit localRef remote
      else classifyMoved localRef base remote := rfl

/-- A push over a remote discards nothing the base or the local side lacks. -/
theorem classify_push (hclass : classify (some localRef) base (some remote) = .localAhead ∨
      classify (some localRef) base (some remote) = .republish) :
    (∃ agreed, base = some agreed ∧ remote.addsNothingOver agreed = true) ∨
      localRef.logicalId = remote.logicalId ∧ remote.Within localRef := by
  rw [classify_both] at hclass
  split_ifs at hclass with hback hsame
  · simp at hclass
  · rcases hclass with hclass | hclass
    · exact absurd hclass (classifySameCommit_ne_ahead localRef remote).1
    · exact .inr ⟨hsame, classifySameCommit_republish hclass⟩
  · rcases hclass with hclass | hclass
    · exact .inl (classifyMoved_localAhead hclass)
    · exact absurd hclass (classifyMoved_ne_republish localRef remote base)

/-- A pull over a local generation needs a base neither side is behind, a local side that adds nothing over it and a
remote that is another commit. -/
theorem classify_pull_iff :
    classify (some localRef) base (some remote) = .remoteAhead ↔
      ∃ agreed, base = some agreed ∧ agreed.generation ≤ localRef.generation ∧
        agreed.generation ≤ remote.generation ∧ localRef.logicalId ≠ remote.logicalId ∧
        localRef.addsNothingOver agreed = true := by
  rw [classify_both]
  cases base with
  | none =>
    simp only [regressed, Bool.or_false, Bool.false_eq_true, if_false]
    split_ifs
    · simpa using (classifySameCommit_ne_ahead localRef remote).2
    · simp [classifyMoved]
  | some agreed =>
    simp only [regressed, Bool.or_eq_true, decide_eq_true_eq, Option.some.injEq, exists_eq_left']
    by_cases hback : localRef.generation < agreed.generation ∨ remote.generation < agreed.generation
    · rw [if_pos hback]
      constructor
      · intro hclass
        cases hclass
      · intro hall
        omega
    · rw [if_neg hback]
      by_cases hsame : localRef.logicalId = remote.logicalId
      · rw [if_pos hsame]
        simp [(classifySameCommit_ne_ahead localRef remote).2, hsame]
      · rw [if_neg hsame, classifyMoved]
        have hremote : localRef.addsNothingOver agreed = true → remote.addsNothingOver agreed = false := by
          intro hlocal
          by_contra hadds
          rw [Bool.not_eq_false, SnapRef.addsNothingOver_iff] at hadds
          exact hsame (((SnapRef.addsNothingOver_iff _ _).mp hlocal).1.trans hadds.1.symm)
        cases hlocal : localRef.addsNothingOver agreed with
        | true =>
          rw [hremote hlocal]
          have hahead : agreed.generation ≤ localRef.generation ∧ agreed.generation ≤ remote.generation := by
            omega
          simp [hahead, hsame]
        | false => cases remote.addsNothingOver agreed <;> simp

@[simp] theorem comparedRef_storeId (localBody remoteBody : Value) (store : PayloadStore) :
    (digests.comparedRef localBody remoteBody).storeId store = (payload localBody store).map digests.store := by
  unfold Digests.comparedRef
  split_ifs <;> cases store <;> rfl

end LodeDB.Cloud
