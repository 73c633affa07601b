import LodeDB.Core.Json

/-!
# Committed bodies and their identities

A root pointer carries a committed body, a JSON object that names every store of a generation. A transfer policy
nulls the payload stores it leaves out; the identity of a commit is the digest of the body with both nulled. Digests
are only compared, so they are functions into any type with decidable equality.
-/

namespace LodeDB.Cloud

variable {entries : List (String × Value)}

/-- The stores that carry user text or its tokens, which a transfer may leave out. -/
inductive PayloadStore
  | text
  | lexical
  deriving DecidableEq

/-- The key of a payload store in a committed body. -/
def PayloadStore.key : PayloadStore → String
  | .text => "tvtext"
  | .lexical => "tvlex"

/-- Which payload stores a transfer ships. -/
structure TransferPolicy where
  includeText : Bool
  includeLexical : Bool
  deriving DecidableEq

namespace TransferPolicy

/-- Ships everything. -/
def full : TransferPolicy := ⟨true, true⟩

/-- Ships neither text nor tokens: the default. -/
def redacted : TransferPolicy := ⟨false, false⟩

/-- Whether a policy ships a store. -/
def includes (policy : TransferPolicy) : PayloadStore → Bool
  | .text => policy.includeText
  | .lexical => policy.includeLexical

end TransferPolicy

variable (key : String)

/-- Null one entry of an object, if it is there. -/
def nullEntry (entries : List (String × Value)) : List (String × Value) :=
  entries.map fun entry => if entry.1 = key then (entry.1, .null) else entry

/-- Null one entry of an object, unless the policy ships it. -/
def redactStore (included : Bool) (key : String) (entries : List (String × Value)) : List (String × Value) :=
  if included then entries else nullEntry key entries

/-- A committed body with the present stores that the policy leaves out nulled. -/
def TransferPolicy.redactBody (policy : TransferPolicy) (body : Value) : Value :=
  match body with
  | .object entries =>
    .object (redactStore policy.includeLexical "tvlex" (redactStore policy.includeText "tvtext" entries))
  | other => other

variable (body : Value)

theorem redactBody_full : TransferPolicy.full.redactBody body = body := by
  cases body <;> rfl

/-- Insert a null entry at its place in the key order, unless the key is there. -/
def orInsertNull (entries : List (String × Value)) : List (String × Value) :=
  if (entries.lookup key).isSome then entries
  else entries.takeWhile (fun entry => entry.1 < key) ++
    (key, .null) :: entries.dropWhile (fun entry => entry.1 < key)

/-- The redacted body older clients published: payload entries are null in any case. -/
def legacyRedactedBody : Value :=
  match TransferPolicy.redacted.redactBody body with
  | .object entries => .object (orInsertNull "tvlex" (orInsertNull "tvtext" entries))
  | other => other

/-- The digests that identify bodies and the sub-manifests of stores. -/
structure Digests (Id : Type) where
  body : Value → Id
  store : Value → Id

/-- Digests that keep the whole value, for concrete runs. -/
def plainDigests : Digests Value := ⟨id, id⟩

/-- The sub-manifest of a payload store a body carries: its entry, unless it is null. -/
def payload (store : PayloadStore) : Option Value :=
  (body.get store.key).filter (fun manifest => manifest ≠ .null)

/-- The generation number a body records. -/
def bodyGeneration : Option ℕ := (body.get "generation").bind Value.asU64

/-- One side's identity: its body, its commit regardless of redaction, its generation, its payload stores. -/
structure SnapRef (Id : Type) where
  snapshotId : Id
  logicalId : Id
  generation : ℕ
  textId : Option Id
  lexicalId : Option Id
  deriving DecidableEq

/-- The identity of a payload store. -/
def SnapRef.storeId {Id : Type} (ref : SnapRef Id) : PayloadStore → Option Id
  | .text => ref.textId
  | .lexical => ref.lexicalId

namespace Digests

variable {Id : Type} (digests : Digests Id) (body : Value)

/-- The identity of a body's bytes. -/
def snapshotId : Id := digests.body body

/-- The identity of a body's commit: of its fully redacted form. -/
def logicalId : Id := digests.snapshotId (TransferPolicy.redacted.redactBody body)

/-- The identity older clients gave a body's redacted form. -/
def legacyRedactedId : Id := digests.snapshotId (legacyRedactedBody body)

/-- The identities of a body. -/
def snapRef : SnapRef Id where
  snapshotId := digests.snapshotId body
  logicalId := digests.logicalId body
  generation := (bodyGeneration body).getD 0
  textId := (payload body .text).map digests.store
  lexicalId := (payload body .lexical).map digests.store

@[simp] theorem snapRef_storeId (store : PayloadStore) :
    (digests.snapRef body).storeId store = (payload body store).map digests.store := by
  cases store <;> rfl

variable [DecidableEq Id]

/-- Whether the remote body is either redacted form of the local one. -/
def redactedIdentityMatchesRemoteHead (localBody remoteBody : Value) : Bool :=
  digests.snapshotId remoteBody = digests.logicalId localBody ||
    digests.snapshotId remoteBody = digests.legacyRedactedId localBody

/-- Whether a fully redacted local body is already published, in either form. -/
def redactedBodyMatchesRemoteHead (localBody remoteBody : Value) : Bool :=
  digests.snapshotId localBody = digests.logicalId localBody &&
    digests.redactedIdentityMatchesRemoteHead localBody remoteBody

end Digests

/-- A body without the entries of its payload stores: the commit it holds. -/
def commitOf : Value :=
  match body with
  | .object entries => .object (entries.filter fun entry => entry.1 ≠ "tvtext" && entry.1 ≠ "tvlex")
  | other => other

/-! ### Redaction -/

/-- Whether a policy ships the entry of a key. -/
def TransferPolicy.ships (policy : TransferPolicy) (key : String) : Bool :=
  (policy.includeText || key ≠ "tvtext") && (policy.includeLexical || key ≠ "tvlex")

/-- An entry as a policy ships it. -/
def TransferPolicy.redactEntry (policy : TransferPolicy) (entry : String × Value) : String × Value :=
  (entry.1, if policy.ships entry.1 then entry.2 else .null)

theorem redactBody_object (policy : TransferPolicy) (entries : List (String × Value)) :
    policy.redactBody (.object entries) = .object (entries.map policy.redactEntry) := by
  obtain ⟨includeText, includeLexical⟩ := policy
  simp only [TransferPolicy.redactBody, Value.object.injEq]
  cases includeText <;> cases includeLexical <;> simp only [redactStore, nullEntry, Bool.false_eq_true, if_true, if_false,
    List.map_map]
  case true.true => exact (List.map_id entries).symm
  all_goals
    apply List.map_congr_left
    rintro ⟨key, value⟩ -
    by_cases htext : key = "tvtext" <;> by_cases hlexical : key = "tvlex" <;>
      simp_all [TransferPolicy.redactEntry, TransferPolicy.ships]

variable {policy : TransferPolicy}

theorem redactEntry_of_ships {entry : String × Value} (h : policy.ships entry.1 = true) :
    policy.redactEntry entry = entry := by
  rw [TransferPolicy.redactEntry, if_pos h]

/-- The policy that ships what two policies both ship. -/
def TransferPolicy.both (policy other : TransferPolicy) : TransferPolicy :=
  ⟨policy.includeText && other.includeText, policy.includeLexical && other.includeLexical⟩

theorem both_self (policy : TransferPolicy) : policy.both policy = policy := by
  simp [TransferPolicy.both]

theorem ships_both (policy other : TransferPolicy) (key : String) :
    (policy.both other).ships key = (policy.ships key && other.ships key) := by
  simp only [TransferPolicy.ships, TransferPolicy.both]
  grind

/-- Two redactions leave out what either leaves out. -/
theorem redactBody_redactBody (policy other : TransferPolicy) (body : Value) :
    policy.redactBody (other.redactBody body) = (policy.both other).redactBody body := by
  cases body with
  | object entries =>
    rw [redactBody_object, redactBody_object, redactBody_object, List.map_map]
    congr 2
    funext entry
    cases hships : policy.ships entry.1 <;> simp [TransferPolicy.redactEntry, ships_both, hships]
  | _ => rfl

/-- Every redaction of a body keeps its commit's identity. -/
theorem logicalId_redactBody {Id : Type} (digests : Digests Id) (policy : TransferPolicy) (body : Value) :
    digests.logicalId (policy.redactBody body) = digests.logicalId body :=
  congrArg digests.snapshotId (redactBody_redactBody .redacted policy body)

theorem lookup_map_redactEntry (policy : TransferPolicy) (key : String) (entries : List (String × Value)) :
    (entries.map policy.redactEntry).lookup key =
      (entries.lookup key).map fun value => if policy.ships key then value else .null := by
  induction entries with
  | nil => rfl
  | cons entry rest ih =>
    rw [List.map_cons, TransferPolicy.redactEntry, List.lookup_cons, List.lookup_cons, ih]
    cases hkey : key == entry.1 with
    | true =>
      rw [eq_of_beq hkey]
      rfl
    | false => rfl

theorem get_redactBody (policy : TransferPolicy) (body : Value) (key : String) :
    (policy.redactBody body).get key = if policy.ships key then body.get key else (body.get key).map fun _ => .null := by
  cases body with
  | object entries =>
    rw [redactBody_object, Value.get, lookup_map_redactEntry, Value.get]
    split_ifs
    · rw [Option.map_id']
    · rfl
  | _ => simp [TransferPolicy.redactBody, Value.get]

/-- What a redacted body carries is what the policy ships. -/
theorem payload_redactBody (policy : TransferPolicy) (body : Value) (store : PayloadStore) :
    payload (policy.redactBody body) store = if policy.includes store then payload body store else none := by
  have hships : policy.ships store.key = policy.includes store := by
    cases store <;> simp [TransferPolicy.ships, TransferPolicy.includes, PayloadStore.key]
  rw [payload, get_redactBody, hships]
  cases policy.includes store <;> cases hget : body.get store.key <;> simp [payload, hget]

theorem bodyGeneration_redactBody (policy : TransferPolicy) (body : Value) :
    bodyGeneration (policy.redactBody body) = bodyGeneration body := by
  simp [bodyGeneration, get_redactBody, TransferPolicy.ships]

/-- A redacted body holds the same commit. -/
@[simp] theorem commitOf_redactBody (policy : TransferPolicy) (body : Value) :
    commitOf (policy.redactBody body) = commitOf body := by
  cases body with
  | object entries =>
    rw [redactBody_object, commitOf, commitOf, List.filter_map, Value.object.injEq]
    conv_rhs => rw [← List.map_id (entries.filter _)]
    apply List.map_congr_left
    intro entry hentry
    have hkept := (List.mem_filter.mp hentry).2
    simp only [Function.comp_apply, TransferPolicy.redactEntry, Bool.and_eq_true] at hkept
    exact redactEntry_of_ships (by simp [TransferPolicy.ships, of_decide_eq_true hkept.1, of_decide_eq_true hkept.2])
  | _ => rfl

/-- Two bodies with one logical identity hold one commit. -/
theorem commitOf_eq_of_logicalId {Id : Type} {digests : Digests Id} (hbody : Function.Injective digests.body)
    {body other : Value} (hid : digests.logicalId body = digests.logicalId other) : commitOf body = commitOf other := by
  have hredacted := hbody hid
  rw [← commitOf_redactBody .redacted body, hredacted, commitOf_redactBody]

theorem filter_orInsertNull (keep : String → Bool) (hkey : keep key = false)
    (entries : List (String × Value)) :
    (orInsertNull key entries).filter (fun entry => keep entry.1) = entries.filter fun entry => keep entry.1 := by
  unfold orInsertNull
  split
  · rfl
  · rw [List.filter_append, List.filter_cons_of_neg (by simp [hkey]), ← List.filter_append,
      List.takeWhile_append_dropWhile]

/-- The redacted form of older clients holds the same commit too. -/
theorem commitOf_legacyRedactedBody (body : Value) : commitOf (legacyRedactedBody body) = commitOf body := by
  rw [← commitOf_redactBody .redacted body, legacyRedactedBody]
  cases TransferPolicy.redacted.redactBody body with
  | object entries =>
    simp only [commitOf]
    rw [filter_orInsertNull "tvlex" (fun name => name ≠ "tvtext" && name ≠ "tvlex") (by decide),
      filter_orInsertNull "tvtext" (fun name => name ≠ "tvtext" && name ≠ "tvlex") (by decide)]
  | _ => rfl

theorem lookup_orInsertNull_of_ne {key other : String} (hother : other ≠ key) (entries : List (String × Value)) :
    (orInsertNull key entries).lookup other = entries.lookup other := by
  unfold orInsertNull
  split_ifs
  · rfl
  · have hbeq : (other == key) = false := by simpa using hother
    rw [List.lookup_append, List.lookup_cons, hbeq, ← List.lookup_append, List.takeWhile_append_dropWhile]

theorem lookup_orInsertNull_self (entries : List (String × Value)) :
    (orInsertNull key entries).lookup key = some ((entries.lookup key).getD .null) := by
  unfold orInsertNull
  by_cases hfound : (entries.lookup key).isSome
  · rw [if_pos hfound]
    obtain ⟨value, hvalue⟩ := Option.isSome_iff_exists.mp hfound
    rw [hvalue, Option.getD_some]
  · have habsent : entries.lookup key = none := Option.not_isSome_iff_eq_none.mp hfound
    rw [if_neg hfound, habsent, Option.getD_none]
    rw [← List.takeWhile_append_dropWhile (p := fun entry => decide (entry.1 < key)) (l := entries),
      List.lookup_append, Option.or_eq_none_iff] at habsent
    rw [List.lookup_append, List.lookup_cons_self, habsent.1, Option.none_or]

/-! ### The redacted form of older clients -/

/-- Every entry of a payload store is null. -/
def Nulled (entries : List (String × Value)) : Prop :=
  ∀ entry ∈ entries, entry.1 = "tvtext" ∨ entry.1 = "tvlex" → entry.2 = .null

theorem eq_of_not_ships {key : String} (h : policy.ships key = false) : key = "tvtext" ∨ key = "tvlex" := by
  simp only [TransferPolicy.ships] at h
  grind

theorem nulled_redacted (entries : List (String × Value)) :
    Nulled (entries.map TransferPolicy.redacted.redactEntry) := by
  intro entry hentry hkey
  obtain ⟨source, -, rfl⟩ := List.mem_map.mp hentry
  refine if_neg ?_
  rcases hkey with hkey | hkey <;> rw [show source.1 = _ from hkey] <;> decide

theorem Nulled.orInsertNull (hnulled : Nulled entries) (inserted : String) :
    Nulled (orInsertNull inserted entries) := by
  unfold Cloud.orInsertNull
  split_ifs
  · exact hnulled
  · intro entry hentry hkey
    rcases List.mem_append.mp hentry with hbefore | hafter
    · exact hnulled entry ((List.takeWhile_sublist _).subset hbefore) hkey
    · rcases List.mem_cons.mp hafter with rfl | hlater
      · rfl
      · exact hnulled entry ((List.dropWhile_sublist _).subset hlater) hkey

/-- No policy changes entries whose payload stores are null. -/
theorem Nulled.redactBody (hnulled : Nulled entries) (policy : TransferPolicy) :
    policy.redactBody (.object entries) = .object entries := by
  rw [redactBody_object, Value.object.injEq]
  conv_rhs => rw [← List.map_id entries]
  apply List.map_congr_left
  intro entry hentry
  cases hships : policy.ships entry.1 with
  | true => exact redactEntry_of_ships hships
  | false =>
    rw [TransferPolicy.redactEntry, hships, if_neg Bool.false_ne_true, ← hnulled entry hentry (eq_of_not_ships hships)]
    rfl

/-- No policy changes the redacted form of older clients. -/
theorem redactBody_legacyRedactedBody (policy : TransferPolicy) (body : Value) :
    policy.redactBody (legacyRedactedBody body) = legacyRedactedBody body := by
  cases body with
  | object entries =>
    rw [legacyRedactedBody, redactBody_object]
    exact (((nulled_redacted entries).orInsertNull _).orInsertNull _).redactBody policy
  | _ => rfl

/-- The redacted form of older clients carries no payload store. -/
theorem payload_legacyRedactedBody (body : Value) (store : PayloadStore) :
    payload (legacyRedactedBody body) store = none := by
  rw [← redactBody_legacyRedactedBody .redacted, payload_redactBody]
  cases store <;> rfl

end LodeDB.Cloud
