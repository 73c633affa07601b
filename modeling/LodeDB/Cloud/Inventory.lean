import LodeDB.Cloud.Transfer
import LodeDB.Lib.Except

/-!
# The artifacts a committed body names

Each store of a body names a base and the delta segments onto it. A transfer uploads what the
destination's body does not already name with the same digest.
-/

namespace LodeDB.Cloud

/-- One base or delta segment a committed generation names. -/
structure ArtifactRef where
  name : String
  sha256 : String
  sizeBytes : ℕ
  kind : String
  epoch : ℕ
  isBase : Bool
  deriving DecidableEq

/-- A string as messages quote it. -/
def quoted (text : String) : String := "\"" ++ text ++ "\""

mutual

/-- A value as messages show it. -/
def debugValue : Value → String
  | .null => "Null"
  | .bool flag => "Bool(" ++ toString flag ++ ")"
  | .number text => "Number(" ++ text ++ ")"
  | .string text => "String(" ++ quoted text ++ ")"
  | .array items => "Array [" ++ ", ".intercalate (debugItems items) ++ "]"
  | .object entries => "Object \x7b" ++ ", ".intercalate (debugEntries entries) ++ "\x7d"

/-- The items of an array as messages show them. -/
def debugItems : List Value → List String
  | [] => []
  | item :: rest => debugValue item :: debugItems rest

/-- The entries of an object as messages show them. -/
def debugEntries : List (String × Value) → List String
  | [] => []
  | (key, value) :: rest => (quoted key ++ ": " ++ debugValue value) :: debugEntries rest

end

/-- The stores of a body, each with the suffix of its delta directory. -/
def storeKinds : List (String × String) :=
  [("json", ".json-delta"), ("tvim", ".tvim-delta"), ("tvtext", ".tvtext-delta"),
    ("tvlex", ".tvlex-delta"), ("tvmv", ".tvmv-delta"), ("tvann", ".tvann-delta"),
    ("tvvf", ".tvvf-delta"), ("gtopo", ".gtopo-delta"), ("gtopotext", ".gtopotext-delta")]

/-- The topology sidecars of a graph store, of which a body names at most one. -/
def graphStoreKinds : List String := ["gtopo", "gtopotext"]

/-- A string field of a manifest object, empty by default. -/
def strField (object : Value) (key : String) : String := ((object.get key).bind Value.asStr).getD ""

/-- A number field of a manifest object, zero by default. -/
def u64Field (object : Value) (key : String) : ℕ := ((object.get key).bind Value.asU64).getD 0

/-- The digest of a manifest entry: 64 lower-case hexadecimal characters. -/
def checkedSha256 (kind : String) (entry : Value) : Except ArtifactStoreError String :=
  let digest := strField entry "sha256"
  if digest.toList.length = 64 ∧ digest.toList.all (fun c => c.isDigit || ('a' ≤ c && c ≤ 'f')) then .ok digest
  else .error (.integrity (kind ++ " sub-manifest records a malformed artifact sha256 " ++ quoted digest ++
    "; expected 64 lowercase hex characters"))

/-- The refusal of a file name that is not a plain path component. -/
def unsafeFileName (kind shown : String) : ArtifactStoreError :=
  .integrity (kind ++ " sub-manifest has an unsafe artifact file name " ++ shown ++ "; expected a plain file name")

/-- Reject a file name that is not a plain path component. -/
def ensurePlainFileName (kind fileName : String) : Except ArtifactStoreError Unit :=
  if fileName = "" ∨ '/' ∈ fileName.toList ∨ '\\' ∈ fileName.toList ∨ fileName = "." ∨ fileName = ".." then
    .error (unsafeFileName kind (quoted fileName))
  else .ok ()

/-- The epoch and the base file name of a store. A topology is addressed by content, the sidecar by its own epoch. -/
def storeBaseName (kind : String) (subManifest base : Value) (baseEpoch : ℕ) :
    Except ArtifactStoreError (ℕ × String) := do
  if kind ∈ graphStoreKinds then
    match base.get "file_name" with
    | none | some .null => pure ()
    | some (.string recorded) => ensurePlainFileName kind recorded
    | some value => throw (unsafeFileName kind (debugValue value))
    let digest ← checkedSha256 kind base
    return (baseEpoch, digest ++ "." ++ kind)
  else
    let derived ←
      if kind = "tvvf" then
        match (subManifest.get "vf_epoch").bind Value.asU64 with
        | some epoch => pure (epoch, "vf" ++ toString epoch ++ ".tvvf")
        | none => throw (.integrity "tvvf sub-manifest carries no vf_epoch; cannot derive its base path")
      else pure (baseEpoch, "g" ++ toString baseEpoch ++ "." ++ kind)
    let recorded := strField base "file_name"
    if recorded ≠ "" ∧ recorded ≠ derived.2 then
      throw (.integrity (kind ++ " base file_name " ++ quoted recorded ++
        " does not match the engine-derived name " ++ quoted derived.2))
    return derived

/-- The reference of one delta segment. -/
def deltaRef (kind directory : String) (epoch : ℕ) (delta : Value) : Except ArtifactStoreError ArtifactRef := do
  if delta.asObject = none then
    throw (.integrity (kind ++ " sub-manifest has a non-object delta entry"))
  let fileName := strField delta "file_name"
  ensurePlainFileName kind fileName
  let digest ← checkedSha256 kind delta
  return ⟨directory ++ "/" ++ fileName, digest, u64Field delta "file_bytes", kind, epoch, false⟩

/-- The references of one store: none if it is absent, else its base and its deltas. -/
def refsForStore (indexKey kind : String) (subManifest : Option Value) (suffix : String) (baseEpoch : ℕ) :
    Except ArtifactStoreError (List ArtifactRef) :=
  match subManifest with
  | none | some .null => .ok []
  | some (.object entries) =>
    let subManifest := Value.object entries
    match subManifest.get "base" with
    | some (.object base) => do
      let (epoch, baseName) ← storeBaseName kind subManifest (.object base) baseEpoch
      let digest ← checkedSha256 kind (.object base)
      let directory := indexKey ++ ".gen/"
      let deltas ← (((subManifest.get "deltas").bind Value.asArray).getD []).mapM
        (deltaRef kind (directory ++ baseName ++ suffix) epoch)
      return ⟨directory ++ baseName, digest, u64Field (.object base) "file_bytes", kind, epoch, true⟩ :: deltas
    | _ =>
      if ((subManifest.get "present").bind Value.asBool).getD false then
        .error (.integrity (kind ++ " sub-manifest uses the legacy pre-journal layout, which the generation " ++
          "inventory does not support; rewrite the generation first"))
      else
        .error (.integrity (kind ++ " sub-manifest is a non-null object without a base; expected a journaled " ++
          "\x7bbase, deltas\x7d manifest"))
  | some _ => .error (.integrity (kind ++ " sub-manifest is non-null but not a JSON object"))

/-- A body entry shaped like a store that no kind names. -/
def unknownStore (body : Value) : Option String :=
  (body.asObject.getD []).findSome? fun entry =>
    if entry.2.asObject ≠ none ∧ entry.2.get "base" ≠ none ∧ entry.1 ∉ storeKinds.map Prod.fst then some entry.1
    else none

/-- The graph topologies a body names. -/
def pinnedGraph (body : Value) : List String :=
  graphStoreKinds.filter fun kind => ((body.get kind).filter (fun manifest => manifest ≠ .null)).isSome

/-- Every artifact a committed body names. -/
def inventoryFromBody (indexKey : String) (body : Value) : Except ArtifactStoreError (List ArtifactRef) := do
  let bodyKey := strField body "index_key"
  if bodyKey ≠ indexKey then
    throw (.integrity ("commit manifest body index_key " ++ quoted bodyKey ++ " does not match requested key " ++
      quoted indexKey))
  if let some key := unknownStore body then
    throw (.integrity ("commit body carries an unknown store sub-manifest " ++ quoted key ++ "; this " ++
      "OreCloud build does not know how to inventory it — upgrade OreCloud " ++
      "before transferring this generation"))
  if (pinnedGraph body).length > 1 then
    throw (.integrity ("commit body pins both LodeGraph sidecars (" ++ ", ".intercalate (pinnedGraph body) ++
      "); they are mutually exclusive — a topology either embeds user text or it does not"))
  let refs ← storeKinds.mapM fun store =>
    refsForStore indexKey store.1 (body.get store.1) store.2 (u64Field body "base_epoch")
  return refs.flatten

/-- The artifacts the destination names: nothing without a committed generation. -/
def destInventory (indexKey : String) : Option Value → Except ArtifactStoreError (List ArtifactRef)
  | none => .ok []
  | some body => inventoryFromBody indexKey body

/-- The digest the destination records for a name: the last one it has for it. -/
def namedSha256 (remote : List ArtifactRef) (name : String) : Option String :=
  (remote.reverse.find? fun artifact => artifact.name = name).map ArtifactRef.sha256

/-- The artifacts the destination does not name with the same digest. -/
def diffInventories (source remote : List ArtifactRef) : List ArtifactRef :=
  source.filter fun artifact => namedSha256 remote artifact.name ≠ some artifact.sha256

/-- What is not uploaded is named by the destination, with the same digest. -/
theorem exists_of_notMem_diffInventories {source remote : List ArtifactRef} {artifact : ArtifactRef}
    (hsource : artifact ∈ source) (hskip : artifact ∉ diffInventories source remote) :
    ∃ named ∈ remote, named.name = artifact.name ∧ named.sha256 = artifact.sha256 := by
  have hnamed : namedSha256 remote artifact.name = some artifact.sha256 := by
    simpa [diffInventories, hsource] using hskip
  obtain ⟨named, hfound, hsha⟩ := Option.map_eq_some_iff.mp hnamed
  have hmem := List.mem_reverse.mp (List.mem_of_find?_eq_some hfound)
  have hname := List.find?_some hfound
  exact ⟨named, hmem, by simpa using hname, hsha⟩

end LodeDB.Cloud
