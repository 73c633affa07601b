import LodeDB.Cloud.Inventory

/-!
# The laws of redaction

Redactions compose like the sets of stores they leave out, they keep the identity of the commit,
and they take from the inventory of a body exactly the artifacts of the stores they leave out.
-/

namespace LodeDB.Cloud

open ExceptRules

variable {body : Value} {artifact : ArtifactRef}

/-- A body's entry of a payload store is absent or null. -/
def AbsentOrNull (body : Value) (store : PayloadStore) : Prop :=
  ∀ entry ∈ body.asObject.getD [], entry.1 = store.key → entry.2 = .null

variable {indexKey kind suffix : String} {baseEpoch : ℕ} {artifacts : List ArtifactRef}

theorem redacted_redactBody_eq_self_iff (body : Value) :
    TransferPolicy.redacted.redactBody body = body ↔ ∀ store, AbsentOrNull body store := by
  cases body with
  | object entries =>
    have hsplit : (∀ store, AbsentOrNull (.object entries) store) ↔ Nulled entries := by
      constructor
      · rintro hnull entry hentry (hkey | hkey)
        · exact hnull .text entry hentry hkey
        · exact hnull .lexical entry hentry hkey
      · rintro hnull (_ | _) entry hentry hkey
        · exact hnull entry hentry (.inl hkey)
        · exact hnull entry hentry (.inr hkey)
    rw [hsplit]
    refine ⟨fun hself => ?_, fun hnulled => Nulled.redactBody hnulled .redacted⟩
    rw [redactBody_object, Value.object.injEq] at hself
    exact hself ▸ nulled_redacted entries
  | _ => simp [AbsentOrNull, TransferPolicy.redactBody, Value.asObject]

/-! ### The inventory of a redacted body -/

/-- The checks and the steps of an inventory. -/
theorem inventoryFromBody_eq_ok :
    inventoryFromBody indexKey body = .ok artifacts ↔
      (strField body "index_key" = indexKey ∧ unknownStore body = none ∧ (pinnedGraph body).length ≤ 1) ∧
        ∃ refs, storeKinds.mapM (fun store =>
            refsForStore indexKey store.1 (body.get store.1) store.2 (u64Field body "base_epoch")) = .ok refs ∧
          refs.flatten = artifacts := by
  unfold inventoryFromBody
  by_cases hkey : strField body "index_key" = indexKey
  · cases hunk : unknownStore body with
    | some key => simp [hkey, throw, throwThe, MonadExceptOf.throw]
    | none =>
      by_cases hpin : (pinnedGraph body).length ≤ 1
      · simp [hkey, hpin, Nat.not_lt.mpr hpin, pure, Except.pure]
      · simp [hkey, hpin, Nat.lt_of_not_le hpin, throw, throwThe, MonadExceptOf.throw]
  · simp [hkey, throw, throwThe, MonadExceptOf.throw]

/-- The artifacts of a store are of its kind. -/
theorem kind_of_mem_refsForStore {subManifest : Option Value}
    (h : refsForStore indexKey kind subManifest suffix baseEpoch = .ok artifacts) (hmem : artifact ∈ artifacts) :
    artifact.kind = kind := by
  unfold refsForStore at h
  split at h
  · cases h
    cases hmem
  · cases h
    cases hmem
  · dsimp only at h
    split at h
    · simp only [bind_eq_ok] at h
      obtain ⟨_, -, _, -, deltas, hdeltas, hrefs⟩ := h
      cases hrefs
      rcases List.mem_cons.mp hmem with rfl | hmem
      · rfl
      · obtain ⟨delta, -, hdelta⟩ := exists_of_mem_mapM hdeltas hmem
        unfold deltaRef at hdelta
        split at hdelta
        · cases hdelta
        · simp only [bind_eq_ok] at hdelta
          obtain ⟨_, -, _, -, href⟩ := hdelta
          cases href
          rfl
    · split at h <;> cases h
  · cases h

variable (policy : TransferPolicy)

/-- A redacted body names a store as the body does, or not at all. -/
theorem refsForStore_redactBody (body : Value)
    (h : refsForStore indexKey kind (body.get kind) suffix baseEpoch = .ok artifacts) :
    refsForStore indexKey kind ((policy.redactBody body).get kind) suffix baseEpoch =
      .ok (artifacts.filter fun artifact => policy.ships artifact.kind) := by
  rw [get_redactBody]
  by_cases hships : policy.ships kind = true
  · rw [if_pos hships, h, List.filter_eq_self.mpr fun artifact hmem => by rw [kind_of_mem_refsForStore h hmem, hships]]
  · rw [if_neg hships, List.filter_eq_nil_iff.mpr fun artifact hmem => by rwa [kind_of_mem_refsForStore h hmem]]
    cases body.get kind <;> rfl

theorem unknownStore_redactBody (body : Value) : unknownStore (policy.redactBody body) = unknownStore body := by
  cases body with
  | object entries =>
    simp only [unknownStore, redactBody_object, Value.asObject, Option.getD_some, List.findSome?_map]
    congr 1
    funext entry
    cases hships : policy.ships entry.1 with
    | true => rw [Function.comp_apply, redactEntry_of_ships hships]
    | false => rcases eq_of_not_ships hships with hkey | hkey <;> simp [TransferPolicy.redactEntry, storeKinds, hkey]
  | _ => rfl

/-- The inventory of a redacted body is the body's without the stores left out. -/
theorem inventoryFromBody_redactBody (h : inventoryFromBody indexKey body = .ok artifacts) :
    inventoryFromBody indexKey (policy.redactBody body) =
      .ok (artifacts.filter fun artifact => policy.ships artifact.kind) := by
  obtain ⟨⟨hkey, hunk, hpin⟩, refs, hrefs, rfl⟩ := inventoryFromBody_eq_ok.mp h
  have hget (key : String) (hships : policy.ships key = true) : (policy.redactBody body).get key = body.get key := by
    rw [get_redactBody, if_pos hships]
  refine inventoryFromBody_eq_ok.mpr ⟨⟨?_, (unknownStore_redactBody policy body).trans hunk, ?_⟩, _,
    mapM_ok_of_mapM hrefs fun store _ result hr => ?_, List.filter_flatten.symm⟩
  · rw [← hkey, strField, strField, hget "index_key" (by simp [TransferPolicy.ships])]
  · have hgraph : pinnedGraph (policy.redactBody body) = pinnedGraph body := List.filter_congr fun kind hkind => by
        rw [hget kind (by rcases List.mem_pair.mp hkind with rfl | rfl <;> simp [TransferPolicy.ships])]
    rwa [hgraph]
  · rw [u64Field, hget "base_epoch" (by simp [TransferPolicy.ships])]
    exact refsForStore_redactBody policy body hr

/-- The inventory of a redacted body names no store that is left out. -/
theorem ships_of_mem_inventory (h : inventoryFromBody indexKey (policy.redactBody body) = .ok artifacts)
    (hmem : artifact ∈ artifacts) : policy.ships artifact.kind = true := by
  have hagain := inventoryFromBody_redactBody policy h
  rw [redactBody_redactBody, both_self, h] at hagain
  rw [Except.ok.inj hagain] at hmem
  exact (List.mem_filter.mp hmem).2

/-- The laws of redaction, of the identities and of the inventory of a body. -/
theorem redactBody_laws {Id : Type} (digests : Digests Id) (hbody : Function.Injective digests.body)
    (policy other : TransferPolicy) (body : Value) :
    policy.redactBody (policy.redactBody body) = policy.redactBody body ∧
      policy.redactBody (other.redactBody body) = other.redactBody (policy.redactBody body) ∧
      policy.redactBody (other.redactBody body) = (policy.both other).redactBody body ∧
      digests.logicalId (policy.redactBody body) = digests.logicalId body ∧
      (digests.snapshotId body = digests.logicalId body ↔ ∀ store, AbsentOrNull body store) ∧
      ∀ (indexKey : String) (artifacts : List ArtifactRef),
        (inventoryFromBody indexKey (policy.redactBody body) = .ok artifacts →
          ∀ artifact ∈ artifacts, policy.ships artifact.kind = true) ∧
        (inventoryFromBody indexKey body = .ok artifacts → inventoryFromBody indexKey (policy.redactBody body) =
            .ok (artifacts.filter fun artifact => policy.ships artifact.kind)) := by
  have hcomm : policy.both other = other.both policy := by simp [TransferPolicy.both, Bool.and_comm]
  refine ⟨?_, ?_, redactBody_redactBody policy other body, logicalId_redactBody digests policy body, ?_,
    fun indexKey artifacts => ⟨fun h artifact => ships_of_mem_inventory policy h, inventoryFromBody_redactBody policy⟩⟩
  · rw [redactBody_redactBody, both_self]
  · rw [redactBody_redactBody, redactBody_redactBody, hcomm]
  · rw [← redacted_redactBody_eq_self_iff, Digests.logicalId, Digests.snapshotId, Digests.snapshotId, hbody.eq_iff, eq_comm]

/-- A body with text keeps its commit under redaction, and is not its own redacted form. -/
theorem redactBody_laws_text :
    let body : Value := .object [("generation", .number "1"), ("tvtext", .object [])]
    plainDigests.snapshotId body ≠ plainDigests.logicalId body := by
  intro body h
  have hnull := (redactBody_laws plainDigests Function.injective_id .full .redacted body).2.2.2.2.1.mp h .text
    ("tvtext", .object []) (by simp [body, Value.asObject]) rfl
  cases hnull

end LodeDB.Cloud
