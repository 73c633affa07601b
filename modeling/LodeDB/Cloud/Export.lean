import LodeDB.Cloud.Inventory
import LodeDB.Lib.Interleave
import Mathlib.Data.List.Infix

/-!
# Exporters pushing to one object store

An exporter reads the remote pointer, uploads every artifact it does not name yet, and swaps the pointer. Small
artifacts are created if absent; larger ones stream to a scratch object and claim their name by a conditional copy.
Exporters interleave between any two operations of the object store, and an I/O error may end any of them.

Pointer objects are the list of their successful writes; a pointer's entity tag is their number. No committed file
name has the process-unique suffix of a scratch key.
-/

namespace LodeDB.Cloud

variable {digest key name : String} {bytes : List UInt8} {unique : ℕ}

/-- The keys of artifacts and of the scratch objects they are uploaded through. -/
inductive ObjectKey
  | artifact (name : String)
  | scratch (name sha256 : String) (unique : ℕ)
  deriving DecidableEq

/-- One successful write of a pointer. -/
structure PointerWrite (Actor : Type) where
  key : String
  body : Value
  writer : Actor

/-- An object store, and whether it supports a conditional copy. -/
structure Remote (Actor : Type) where
  objects : ObjectKey → Option (List UInt8)
  writes : List (PointerWrite Actor)
  conditionalCopy : Bool

namespace Remote

variable {Actor : Type}

variable (remote : Remote Actor)

/-- The writes of one pointer, oldest first. -/
def history (key : String) : List (PointerWrite Actor) :=
  remote.writes.filter fun write => write.key = key

/-- The entity tag of a pointer. -/
def version (key : String) : ℕ := (remote.history key).length

/-- The body a pointer held at a version. -/
def bodyAt (key : String) : ℕ → Option Value
  | 0 => none
  | version + 1 => ((remote.history key)[version]?).map PointerWrite.body

/-- The body a pointer holds. -/
def readPointer (key : String) : Option Value := remote.bodyAt key (remote.version key)

variable (key : ObjectKey)

/-- Put an object. -/
def put (bytes : List UInt8) : Remote Actor :=
  { remote with objects := Function.update remote.objects key (some bytes) }

/-- Delete an object. -/
def delete : Remote Actor :=
  { remote with objects := Function.update remote.objects key none }

/-- Write a pointer. -/
def write (pointer : PointerWrite Actor) : Remote Actor :=
  { remote with writes := remote.writes ++ [pointer] }

@[simp] theorem put_objects (bytes : List UInt8) :
    (remote.put key bytes).objects = Function.update remote.objects key (some bytes) := rfl

@[simp] theorem delete_objects :
    (remote.delete key).objects = Function.update remote.objects key none := rfl

end Remote

/-- What an exporter ships: the committed body of its source, under a policy. -/
structure Export where
  key : String
  policy : TransferPolicy
  rawBody : Value

/-- The body an exporter publishes. -/
def Export.sourceBody (job : Export) : Value := job.policy.redactBody job.rawBody

/-- Where an exporter stands, with the remote body it started from and the artifacts to come. -/
inductive Phase
  | reading
  | uploading (dest : Option Value) (rest : List ArtifactRef)
  | streaming (dest : Option Value) (artifact : ArtifactRef) (bytes : List UInt8) (scratch : Option ℕ)
      (rest : List ArtifactRef)
  | claiming (dest : Option Value) (artifact : ArtifactRef) (scratch : ℕ) (rest : List ArtifactRef)
  | copying (dest : Option Value) (artifact : ArtifactRef) (scratch : ℕ) (rest : List ArtifactRef)
  | rechecking (dest : Option Value) (artifact : ArtifactRef) (scratch : Option ℕ) (rest : List ArtifactRef)
  | cleaning (dest : Option Value) (artifact : ArtifactRef) (scratch : ℕ)
      (claimed : Except ArtifactStoreError Unit) (rest : List ArtifactRef)
  | publishing (dest : Option Value)
  | swapping (dest : Option Value) (version : ℕ)
  | published (dest : Option Value) (version : ℕ)
  | unchanged (dest : Option Value)
  | failed (error : ArtifactStoreError)

/-- What the world supplies to a step: the bytes read and a scratch number, or an error. -/
inductive Input
  | proceed (bytes : List UInt8) (unique : ℕ)
  | fail (error : ArtifactStoreError)

/-- At or below this size an upload is one conditional put. -/
def multipartThresholdBytes : ℕ := 8 * 1024 * 1024

/-- Above this size no conditional copy can claim an object. -/
def claimableLimitBytes : ℕ := 5 * 1024 * 1024 * 1024

/-- The refusal of bytes whose digest is not the recorded one. -/
def checksumError (artifact : ArtifactRef) (computed : String) : ArtifactStoreError :=
  .integrity ("artifact " ++ quoted artifact.name ++ " failed checksum: expected " ++ artifact.sha256 ++
    ", computed " ++ computed)

/-- The refusal of a name that is taken by other content. -/
def immutableError (name : String) : ArtifactStoreError :=
  .integrity ("artifact " ++ quoted name ++ " already exists with different content; refusing to " ++
    "overwrite an immutable artifact")

/-- The refusal of a stream that outgrew the conditional copy. -/
def ceilingError (name : String) : ArtifactStoreError :=
  .backend ("artifact " ++ quoted name ++ " exceeds the " ++ toString claimableLimitBytes ++
    "-byte conditional-claim ceiling but was written without a size hint; pass the artifact's size so " ++
    "the upload can target the final key directly")

variable {Id Actor : Type} [DecidableEq Id]

/-- The artifacts to upload, once the remote pointer is read. -/
def stageExport (job : Export) (dest : Option Value) : Except ArtifactStoreError (List ArtifactRef) := do
  job.policy.refuseUnredactable job.rawBody
  let source ← inventoryFromBody job.key job.sourceBody
  let remote ← destInventory job.key dest
  return diffInventories source remote

variable (sha256 : List UInt8 → String) (remote : Remote Actor) (dest : Option Value)

/-- Begin an upload: a conditional put, or a probe before a multipart stream. -/
def beginUpload (artifact : ArtifactRef)
    (rest : List ArtifactRef) (bytes : List UInt8) (unique : ℕ) : Remote Actor × Phase :=
  if bytes.length ≤ multipartThresholdBytes then
    if sha256 bytes ≠ artifact.sha256 then (remote, .failed (checksumError artifact (sha256 bytes)))
    else match remote.objects (.artifact artifact.name) with
      | none => (remote.put (.artifact artifact.name) bytes, .uploading dest rest)
      | some _ => (remote, .rechecking dest artifact none rest)
  else match remote.objects (.artifact artifact.name) with
    | some _ => (remote, .rechecking dest artifact none rest)
    | none =>
      (remote, .streaming dest artifact bytes
        (if artifact.sizeBytes ≤ claimableLimitBytes then some unique else none) rest)

/-- Complete a multipart stream, on its scratch key or, above the ceiling, on the name. -/
def completeUpload (artifact : ArtifactRef)
    (bytes : List UInt8) (scratch : Option ℕ) (rest : List ArtifactRef) : Remote Actor × Phase :=
  if scratch.isSome ∧ claimableLimitBytes < bytes.length then (remote, .failed (ceilingError artifact.name))
  else if sha256 bytes ≠ artifact.sha256 then (remote, .failed (checksumError artifact (sha256 bytes)))
  else match scratch with
    | some unique =>
      (remote.put (.scratch artifact.name artifact.sha256 unique) bytes, .claiming dest artifact unique rest)
    | none => (remote.put (.artifact artifact.name) bytes, .uploading dest rest)

/-- Copy a scratch object to its artifact's name. -/
def copyScratch (artifact : ArtifactRef) (unique : ℕ)
    (rest : List ArtifactRef) : Remote Actor × Phase :=
  match remote.objects (.scratch artifact.name artifact.sha256 unique) with
  | some bytes => (remote.put (.artifact artifact.name) bytes, .cleaning dest artifact unique (.ok ()) rest)
  | none => (remote, .cleaning dest artifact unique (.error (.notFound artifact.name)) rest)

/-- Claim a name for a scratch object: by a conditional copy, or by a probe and a copy. -/
def claimScratch (artifact : ArtifactRef) (unique : ℕ)
    (rest : List ArtifactRef) : Remote Actor × Phase :=
  match remote.objects (.artifact artifact.name) with
  | some _ => (remote, .rechecking dest artifact (some unique) rest)
  | none =>
    if remote.conditionalCopy then copyScratch remote dest artifact unique rest
    else (remote, .copying dest artifact unique rest)

/-- Whether a name that is taken holds the same content. -/
def refuseUnlessIdentical (artifact : ArtifactRef) : Except ArtifactStoreError Unit :=
  match remote.objects (.artifact artifact.name) with
  | none => .error (.notFound artifact.name)
  | some bytes => if sha256 bytes = artifact.sha256 then .ok () else .error (immutableError artifact.name)

/-- Go on with the next artifact, or stop at an error. -/
def continueWith (rest : List ArtifactRef) : Except ArtifactStoreError Unit → Phase
  | .ok _ => .uploading dest rest
  | .error error => .failed error

variable (digests : Digests Id)

/-- Decide whether to move the pointer, and re-read it for the swap. -/
def beginPublish (job : Export) (remote : Remote Actor) (dest : Option Value) : Phase :=
  if pointerPublished digests dest job.sourceBody then
    if remote.readPointer job.key = dest then .swapping dest (remote.version job.key)
    else .failed (pointerConflict job.key dest (remote.readPointer job.key))
  else .unchanged dest

/-- Write the pointer if its entity tag is still the one that was read. -/
def swapPointer (job : Export) (writer : Actor) (remote : Remote Actor) (dest : Option Value) (version : ℕ) :
    Remote Actor × Phase :=
  if remote.version job.key = version then
    (remote.write ⟨job.key, job.sourceBody, writer⟩, .published dest (version + 1))
  else (remote, .failed (pointerConflict job.key dest dest))

/-- One operation of an exporter. -/
def exportStep (jobs : Actor → Export) (actor : Actor) (remote : Remote Actor) (phase : Phase) (input : Input) :
    Option (Remote Actor × Phase) :=
  match phase, input with
  | .published _ _, _ | .unchanged _, _ | .failed _, _ => none
  -- deleting a scratch object is best effort
  | .cleaning dest _ _ claimed rest, .fail _ => some (remote, continueWith dest rest claimed)
  | .cleaning dest artifact unique claimed rest, .proceed _ _ =>
    some (remote.delete (.scratch artifact.name artifact.sha256 unique), continueWith dest rest claimed)
  -- an error while claiming still cleans up the scratch object
  | .claiming dest artifact unique rest, .fail error
  | .copying dest artifact unique rest, .fail error
  | .rechecking dest artifact (some unique) rest, .fail error =>
    some (remote, .cleaning dest artifact unique (.error error) rest)
  | _, .fail error => some (remote, .failed error)
  | .reading, .proceed _ _ =>
    let dest := remote.readPointer (jobs actor).key
    match stageExport (jobs actor) dest with
    | .ok uploads => some (remote, .uploading dest uploads)
    | .error error => some (remote, .failed error)
  | .uploading dest [], .proceed _ _ => some (remote, .publishing dest)
  | .uploading dest (artifact :: rest), .proceed bytes unique =>
    some (beginUpload sha256 remote dest artifact rest bytes unique)
  | .streaming dest artifact bytes scratch rest, .proceed _ _ =>
    some (completeUpload sha256 remote dest artifact bytes scratch rest)
  | .claiming dest artifact unique rest, .proceed _ _ => some (claimScratch remote dest artifact unique rest)
  | .copying dest artifact unique rest, .proceed _ _ => some (copyScratch remote dest artifact unique rest)
  | .rechecking dest artifact none rest, .proceed _ _ =>
    some (remote, continueWith dest rest (refuseUnlessIdentical sha256 remote artifact))
  | .rechecking dest artifact (some unique) rest, .proceed _ _ =>
    some (remote, .cleaning dest artifact unique (refuseUnlessIdentical sha256 remote artifact) rest)
  | .publishing dest, .proceed _ _ => some (remote, beginPublish digests (jobs actor) remote dest)
  | .swapping dest version, .proceed _ _ => some (swapPointer (jobs actor) actor remote dest version)

/-! ### What no step of any exporter undoes -/

/-- An artifact is in the store, with the digest its reference records. -/
def Present (artifact : ArtifactRef) : Prop :=
  ∃ bytes, remote.objects (.artifact artifact.name) = some bytes ∧ sha256 bytes = artifact.sha256

/-- Every pointer names only artifacts in the store, with the digests it records. -/
def Pinned : Prop :=
  ∀ key body, remote.readPointer key = some body → ∃ artifacts, inventoryFromBody key body = .ok artifacts ∧
    ∀ artifact ∈ artifacts, Present sha256 remote artifact

/-- A scratch object, if it is there, has the digest its key records. -/
def ScratchSound (name digest : String) (unique : ℕ) : Prop :=
  ∀ bytes, remote.objects (.scratch name digest unique) = some bytes → sha256 bytes = digest

/-- What exporters rely on of each other: artifacts stay, scratch objects keep their digest, pointers are only
written. -/
structure Grows (remote next : Remote Actor) : Prop where
  kept : ∀ name bytes, remote.objects (.artifact name) = some bytes → next.objects (.artifact name) = some bytes
  scratch : ∀ name digest unique, ScratchSound sha256 remote name digest unique →
    ScratchSound sha256 next name digest unique
  writes : remote.writes <+: next.writes

variable {sha256} {remote next : Remote Actor}

theorem Grows.refl (remote : Remote Actor) : Grows sha256 remote remote where
  kept _ _ hobj := hobj
  scratch _ _ _ hsound := hsound
  writes := List.prefix_rfl

section

variable (hgrows : Grows sha256 remote next)

include hgrows

theorem Grows.present {artifact : ArtifactRef} (hpres : Present sha256 remote artifact) :
    Present sha256 next artifact := by
  obtain ⟨bytes, hobj, hdig⟩ := hpres
  exact ⟨bytes, hgrows.kept _ _ hobj, hdig⟩

theorem Grows.history (key : String) :
    remote.history key <+: next.history key := hgrows.writes.filter _

theorem Grows.version_le (key : String) :
    remote.version key ≤ next.version key := (hgrows.history key).length_le

theorem Grows.getElem? {position : ℕ} (hpos : position < remote.version key) :
    (next.history key)[position]? = (remote.history key)[position]? := by
  obtain ⟨later, hlater⟩ := hgrows.history key
  rw [← hlater, List.getElem?_append_left hpos]

/-- A past version of a pointer keeps its body. -/
theorem Grows.bodyAt {version : ℕ} (hver : version ≤ remote.version key) :
    next.bodyAt key version = remote.bodyAt key version := by
  cases version with
  | zero => rfl
  | succ position => rw [Remote.bodyAt, Remote.bodyAt, hgrows.getElem? hver]

end

/-- An artifact put at a free name is added to the store. -/
theorem grows_put (hfree : remote.objects (.artifact name) = none) :
    Grows sha256 remote (remote.put (.artifact name) bytes) where
  kept other held hobj := by
    have hne : other ≠ name := by
      intro hname
      rw [hname, hfree] at hobj
      cases hobj
    simpa [hne] using hobj
  scratch _ _ _ hsound := by simpa [ScratchSound] using hsound
  writes := List.prefix_rfl

/-- A scratch object put with its digest disturbs nothing. -/
theorem grows_putScratch (hdig : sha256 bytes = digest) :
    Grows sha256 remote (remote.put (.scratch name digest unique) bytes) where
  kept _ _ hobj := by simpa using hobj
  scratch otherName otherDigest otherUnique hsound := by
    intro held hheld
    by_cases hkey : ObjectKey.scratch otherName otherDigest otherUnique = .scratch name digest unique
    · cases hkey
      rw [Remote.put_objects, Function.update_self] at hheld
      cases hheld
      exact hdig
    · rw [Remote.put_objects, Function.update_of_ne hkey] at hheld
      exact hsound held hheld
  writes := List.prefix_rfl

/-- Deleting a scratch object disturbs nothing. -/
theorem grows_delete :
    Grows sha256 remote (remote.delete (.scratch name digest unique)) where
  kept _ _ hobj := by simpa using hobj
  scratch otherName otherDigest otherUnique hsound := by
    intro held hheld
    by_cases hkey : ObjectKey.scratch otherName otherDigest otherUnique = .scratch name digest unique
    · rw [hkey, Remote.delete_objects, Function.update_self] at hheld
      cases hheld
    · rw [Remote.delete_objects, Function.update_of_ne hkey] at hheld
      exact hsound held hheld
  writes := List.prefix_rfl

variable (pointer : PointerWrite Actor)

theorem grows_write : Grows sha256 remote (remote.write pointer) where
  kept _ _ hobj := hobj
  scratch _ _ _ hsound := hsound
  writes := List.prefix_append _ _

/-- A pointer's body depends on the writes of that pointer only. -/
theorem readPointer_congr (hhist : next.history key = remote.history key) :
    next.readPointer key = remote.readPointer key := by
  rw [Remote.readPointer, Remote.readPointer, Remote.version, Remote.version, hhist]
  cases (remote.history key).length with
  | zero => rfl
  | succ position => rw [Remote.bodyAt, Remote.bodyAt, hhist]

theorem history_write (key : String) :
    (remote.write pointer).history key = remote.history key ++ if pointer.key = key then [pointer] else [] := by
  simp [Remote.history, Remote.write, List.filter_append, List.filter_singleton]

theorem readPointer_write (key : String) :
    (remote.write pointer).readPointer key = if pointer.key = key then some pointer.body else remote.readPointer key := by
  have hhist : (remote.write pointer).history key =
      remote.history key ++ if pointer.key = key then [pointer] else [] := history_write pointer key
  split_ifs at hhist ⊢ with hkey
  · simp [Remote.readPointer, Remote.version, hhist, Remote.bodyAt]
  · exact readPointer_congr (hhist.trans (List.append_nil _))

end LodeDB.Cloud
