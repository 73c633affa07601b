import LodeDB.Cloud.Body

/-!
# Publishing a staged transfer

The artifacts of a transfer are staged first; its one commit point is the compare-and-swap of the
destination's root pointer, on the exact body the transfer was decided against.
-/

namespace LodeDB.Cloud

/-- A failure of an artifact-store operation. -/
inductive ArtifactStoreError
  | notFound (name : String)
  | pointerConflict (key : String) (expected found : Option ℕ)
  | integrity (message : String)
  | core (error : CoreError)
  | io (message : String)
  | syncConflict (classification hint : String)
  | pendingWal (ops : ℕ) (hint : String)
  | backend (message : String)
  deriving DecidableEq

/-- Refuse a body whose graph topology embeds text that the policy leaves out. -/
def TransferPolicy.refuseUnredactable (policy : TransferPolicy) (body : Value) :
    Except ArtifactStoreError Unit :=
  if !policy.includeText && ((body.get "gtopotext").filter (fun manifest => manifest ≠ .null)).isSome then
    .error (.backend ("this generation's LodeGraph topology embeds user text (gtopotext), which " ++
      "cannot be redacted out of its single SQLite artifact; re-run with the " ++
      "text opt-in (include_text / --include-text) to transfer it verbatim"))
  else .ok ()

/-- The refusal of a compare-and-swap whose pointer moved. -/
def pointerConflict (key : String) (old current : Option Value) : ArtifactStoreError :=
  .pointerConflict key (old.bind bodyGeneration) (current.bind bodyGeneration)

/-- Swap a pointer that still holds the expected body. -/
def compareAndSwapPointer (key : String) (current old : Option Value) (new : Value) :
    Except ArtifactStoreError Value :=
  if current = old then .ok new else .error (pointerConflict key old current)

variable {Id : Type} [DecidableEq Id] (digests : Digests Id)

/-- Whether publishing moves the pointer: not over the body in either form. -/
def pointerPublished (destBody : Option Value) (sourceBody : Value) : Bool :=
  match destBody with
  | none => true
  | some destBody => destBody ≠ sourceBody && !digests.redactedBodyMatchesRemoteHead sourceBody destBody

/-- Publish a staged body over a pointer: the pointer afterwards and the committed body. -/
def publishStaged (key : String) (current destBody : Option Value) (sourceBody : Value) :
    Option Value × Except ArtifactStoreError Value :=
  if pointerPublished digests destBody sourceBody then
    match compareAndSwapPointer key current destBody sourceBody with
    | .ok body => (some body, .ok sourceBody)
    | .error error => (current, .error error)
  else (current, .ok (destBody.getD sourceBody))

/-- A publish that changes the pointer replaces the body it was decided against. -/
theorem publishStaged_replaces {key : String} {current destBody : Option Value} {sourceBody : Value}
    (hmoved : (publishStaged digests key current destBody sourceBody).1 ≠ current) : current = destBody := by
  unfold publishStaged compareAndSwapPointer at hmoved
  by_cases hsame : current = destBody
  · exact hsame
  · split_ifs at hmoved <;> exact absurd rfl hmoved

end LodeDB.Cloud
