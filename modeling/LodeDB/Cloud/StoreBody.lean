import LodeDB.Cloud.Inventory
import LodeDB.Storage.LoadReads
import LodeDB.Storage.Names

/-!
# The body of an engine commit

A commit writes its root manifest as a JSON body. The inventory of such a body derives each file's name on
its own; it comes to the names of the files the root names, with the digests the root records.
-/

namespace LodeDB.Cloud

open Journal ExceptRules
open LodeDB.Storage

variable {kind : StoreKind} {baseEpoch epoch : ℕ} {refs : List ArtifactRef} {key : String}

/-- What a body records besides what a load follows: counts, sizes, fields of bases. -/
structure BodyDetails where
  documentCount : ℕ
  chunkCount : ℕ
  nativeDim : Option ℕ
  compressText : Bool
  fileBytes : StoreKind → Part → ℕ
  baseFields : StoreKind → List (String × Value)

/-- The schema version each store's manifest carries. -/
def schemaVersion : StoreKind → ℕ
  | .tvtext => 2
  | _ => 1

/-- The keys under which a delta entry counts its upserts and deletes. -/
def countKeys : StoreKind → String × String
  | .json => ("upserted_documents", "deleted_documents")
  | .tvim => ("upsert_rows", "removed_rows")
  | .tvvf => ("upsert_rows", "deleted_rows")
  | _ => ("upserted", "deleted")

/-- The name of a row encoding. -/
def dtypeName : TvvfDtype → String
  | .float16 => "float16"
  | .float32 => "float32"
  | .int8 => "int8"

/-- What a manifest records about its base that a load checks. -/
def infoFields : (kind : StoreKind) → BaseInfo kind → List (String × Value)
  | .tvim, fingerprint => [("calibration_fingerprint", natural (UInt64.toNat fingerprint))]
  | .tvvf, info => [("dtype", .string (dtypeName (TvvfInfo.dtype info))),
      ("dim", natural (TvvfInfo.dim info)), ("row_count", natural (TvvfInfo.rowCount info))]
  | _, _ => []

section Render

variable (details : BodyDetails) (indexKey : String)

/-- The base of a store. -/
def baseValue (kind : StoreKind) (epoch : ℕ) (manifest : Manifest (BaseInfo kind)) : Value :=
  .object ([("file_name", .string (baseName kind epoch)), ("sha256", .string manifest.sha256),
    ("file_bytes", natural (details.fileBytes kind (.base epoch)))] ++ infoFields kind manifest.base ++
    details.baseFields kind)

/-- One segment of a store. -/
def deltaValue (kind : StoreKind) (epoch : ℕ) (entry : DeltaEntry) : Value :=
  .object [("file_name", .string (segmentName kind entry.seq)), ("sha256", .string entry.sha256),
    ("file_bytes", natural (details.fileBytes kind (.segment epoch entry.seq))), ("seq", natural entry.seq),
    ((countKeys kind).1, natural entry.upserted), ((countKeys kind).2, natural entry.deleted)]

/-- The manifest of a store. The cluster assignment has no journal; the sidecar names its index and epoch. -/
def manifestValue (kind : StoreKind) (epoch : ℕ) (manifest : Manifest (BaseInfo kind)) : Value :=
  .object ([("schema_version", natural (schemaVersion kind)), ("base", baseValue details kind epoch manifest)] ++
    (if kind = .tvann then []
      else [("deltas", .array (manifest.deltas.map (deltaValue details kind epoch))),
        ("next_seq", natural manifest.nextSeq)]) ++
    (if kind = .tvtext then [("compress", .bool details.compressText)] else []) ++
    if kind = .tvvf then [("index_key", .string indexKey), ("vf_epoch", natural epoch)] else [])

variable (root : CommitManifest)

/-- The entry of a store that may be absent. -/
def storeValue (kind : StoreKind) : Option Value :=
  (root.manifests kind).map fun manifest => manifestValue details indexKey kind (root.epochOf kind manifest) manifest

/-- The body of a commit. An absent store is null; an absent sidecar has no entry. -/
def commitBody : Value :=
  .object ([("index_key", .string indexKey), ("generation", natural root.generation),
    ("applied_lsn", natural root.appliedLsn), ("base_epoch", natural root.baseEpoch),
    ("document_count", natural details.documentCount), ("chunk_count", natural details.chunkCount)] ++
    ([.json, .tvim, .tvtext, .tvlex, .tvmv, .tvann].map fun kind =>
      (StoreKind.key kind, (storeValue details indexKey root kind).getD .null)) ++
    (details.nativeDim.toList.map fun dim => ("native_dim", natural dim)) ++
    (storeValue details indexKey root .tvvf).toList.map fun manifest => ("tvvf", manifest))

/-- The artifacts of one manifest. -/
def manifestRefs {X : Type} (kind : StoreKind) (epoch : ℕ) (manifest : Manifest X) : List ArtifactRef :=
  ⟨filePath indexKey kind (.base epoch), manifest.sha256, details.fileBytes kind (.base epoch), kind.key, epoch,
    true⟩ :: manifest.deltas.map fun entry => ⟨filePath indexKey kind (.segment epoch entry.seq), entry.sha256,
      details.fileBytes kind (.segment epoch entry.seq), kind.key, epoch, false⟩

/-- The artifacts of one store. -/
def storeRefs (kind : StoreKind) : List ArtifactRef :=
  match root.manifests kind with
  | none => []
  | some manifest => manifestRefs details indexKey kind (root.epochOf kind manifest) manifest

/-- The artifacts of a commit. -/
def rootRefs : List ArtifactRef := allKinds.flatMap (storeRefs details indexKey root)

end Render

variable {details : BodyDetails} {indexKey : String} {root : CommitManifest}

theorem get_base (kind : StoreKind) (epoch : ℕ) (manifest : Manifest (BaseInfo kind)) :
    (manifestValue details indexKey kind epoch manifest).get "base" = some (baseValue details kind epoch manifest) := by
  rfl

theorem get_deltas (hkind : kind ≠ .tvann) (epoch : ℕ) (manifest : Manifest (BaseInfo kind)) :
    (manifestValue details indexKey kind epoch manifest).get "deltas" =
      some (.array (manifest.deltas.map (deltaValue details kind epoch))) := by
  simp [manifestValue, Value.get, hkind, List.lookup_cons]

theorem get_deltas_tvann (epoch : ℕ) (manifest : Manifest Unit) :
    (manifestValue details indexKey .tvann epoch manifest).get "deltas" = none := by
  rfl

theorem get_vfEpoch (epoch : ℕ) (manifest : TvvfManifestEntry) :
    (manifestValue details indexKey .tvvf epoch manifest).get "vf_epoch" = some (natural epoch) := by
  rfl

theorem storeKinds_eq : storeKinds = (allKinds.map fun kind => (kind.key, kind.deltaDirSuffix)) ++
    [("gtopo", ".gtopo-delta"), ("gtopotext", ".gtopotext-delta")] := by
  decide

theorem key_ne_of_ne {other : StoreKind} (hne : kind ≠ other) : kind.key ≠ other.key := fun hkey =>
  hne (StoreKind.key_inj hkey)

theorem key_notMem_graphStoreKinds (kind : StoreKind) : kind.key ∉ graphStoreKinds := by
  cases kind <;> decide

/-! ### The inventory of one store -/

theorem storeBaseName_manifestValue (kind : StoreKind) (manifest : Manifest (BaseInfo kind))
    (hepoch : kind ≠ .tvvf → epoch = baseEpoch) :
    storeBaseName kind.key (manifestValue details indexKey kind epoch manifest) (baseValue details kind epoch manifest)
      baseEpoch = .ok (epoch, baseName kind epoch) := by
  have hrecd : strField (baseValue details kind epoch manifest) "file_name" = baseName kind epoch := rfl
  unfold storeBaseName
  rw [if_neg (key_notMem_graphStoreKinds kind)]
  by_cases hkind : kind = .tvvf
  · subst hkind
    simp only [StoreKind.key, if_true, get_vfEpoch, Option.bind_some, asU64_natural, ← baseName_tvvf]
    simp [hrecd]
    rfl
  · have hne : kind.key ≠ "tvvf" := key_ne_of_ne hkind
    rw [← hepoch hkind]
    simp only [if_neg hne, pure_bind, ← baseName_of_ne hkind, hrecd, ne_eq, not_true_eq_false, and_false, if_false]
    rfl

theorem checkedSha256_eq_ok {kind digest : String} {entry : Value} (h : checkedSha256 kind entry = .ok digest) :
    digest = strField entry "sha256" := by
  unfold checkedSha256 at h
  dsimp only at h
  split_ifs at h
  exact (Except.ok.inj h).symm

theorem deltaRef_eq_ok {directory : String} {entry : DeltaEntry} {ref : ArtifactRef}
    (h : deltaRef kind.key directory epoch (deltaValue details kind epoch entry) = .ok ref) :
    ref = ⟨directory ++ "/" ++ segmentName kind entry.seq, entry.sha256,
      details.fileBytes kind (.segment epoch entry.seq), kind.key, epoch, false⟩ := by
  unfold deltaRef at h
  rw [if_neg (by simp [deltaValue, Value.asObject])] at h
  simp only [bind_eq_ok] at h
  obtain ⟨_, _, digest, hdig, href⟩ := h
  obtain rfl := checkedSha256_eq_ok hdig
  have hbytes : u64Field (deltaValue details kind epoch entry) "file_bytes" =
      details.fileBytes kind (.segment epoch entry.seq) := by
    change ((some (natural _)).bind Value.asU64).getD 0 = _
    rw [Option.bind_some, asU64_natural, Option.getD_some]
  cases href
  rw [hbytes]
  rfl

theorem gen_append (name : String) : indexKey ++ ".gen/" ++ name = generationDir indexKey ++ "/" ++ name := by
  simp [generationDir, String.append_assoc]

/-- The deltas the inventory follows are the manifest's; the cluster assignment has none. -/
theorem deltas_manifestValue (epoch : ℕ) {manifest : Manifest (BaseInfo kind)}
    (hann : kind = .tvann → manifest.deltas = []) :
    (((manifestValue details indexKey kind epoch manifest).get "deltas").bind Value.asArray).getD [] =
      manifest.deltas.map (deltaValue details kind epoch) := by
  by_cases hkind : kind = .tvann
  · subst hkind
    rw [get_deltas_tvann, hann rfl]
    rfl
  · rw [get_deltas hkind]
    rfl

variable {manifest : Manifest (BaseInfo kind)}

/-- The inventory of a store whose epoch the body names. -/
theorem refsForStore_eq_ok (hepoch : kind ≠ .tvvf → epoch = baseEpoch)
    (hann : kind = .tvann → manifest.deltas = [])
    (h : refsForStore indexKey kind.key (some (manifestValue details indexKey kind epoch manifest)) kind.deltaDirSuffix
      baseEpoch = .ok refs) : refs = manifestRefs details indexKey kind epoch manifest := by
  have hshape : refsForStore indexKey kind.key (some (manifestValue details indexKey kind epoch manifest))
      kind.deltaDirSuffix baseEpoch = (do
        let derived ← storeBaseName kind.key (manifestValue details indexKey kind epoch manifest)
          (baseValue details kind epoch manifest) baseEpoch
        let digest ← checkedSha256 kind.key (baseValue details kind epoch manifest)
        let deltas ← (((manifestValue details indexKey kind epoch manifest).get "deltas").bind
          Value.asArray).getD [] |>.mapM
            (deltaRef kind.key (indexKey ++ ".gen/" ++ derived.2 ++ kind.deltaDirSuffix) derived.1)
        return ⟨indexKey ++ ".gen/" ++ derived.2, digest, u64Field (baseValue details kind epoch manifest) "file_bytes",
          kind.key, derived.1, true⟩ :: deltas) := rfl
  rw [hshape, storeBaseName_manifestValue kind manifest hepoch, deltas_manifestValue epoch hann] at h
  obtain ⟨_, hderived, h⟩ := bind_eq_ok.mp h
  obtain rfl := Except.ok.inj hderived
  obtain ⟨digest, hdig, h⟩ := bind_eq_ok.mp h
  obtain ⟨deltas, hdeltas, h⟩ := bind_eq_ok.mp h
  obtain rfl := checkedSha256_eq_ok hdig
  obtain rfl := Except.ok.inj h
  rw [List.mapM_map] at hdeltas
  have hrefs : deltas = manifest.deltas.map fun entry => ⟨filePath indexKey kind (.segment epoch entry.seq),
      entry.sha256, details.fileBytes kind (.segment epoch entry.seq), kind.key, epoch, false⟩ := by
    refine mapM_eq_map hdeltas fun entry _ ref href => ?_
    rw [deltaRef_eq_ok href, gen_append]
    simp only [filePath, deltaDir, String.append_assoc]
  have hbytes : u64Field (baseValue details kind epoch manifest) "file_bytes" =
      details.fileBytes kind (.base epoch) := by
    change ((some (natural _)).bind Value.asU64).getD 0 = _
    rw [Option.bind_some, asU64_natural, Option.getD_some]
  rw [hrefs, hbytes, gen_append]
  rfl

/-! ### The inventory of a commit -/

theorem indexKey_commitBody : strField (commitBody details indexKey root) "index_key" = indexKey := rfl

theorem baseEpoch_commitBody : u64Field (commitBody details indexKey root) "base_epoch" = root.baseEpoch := by
  change ((some (natural _)).bind Value.asU64).getD 0 = _
  rw [Option.bind_some, asU64_natural, Option.getD_some]

theorem get_commitBody_tvvf : (commitBody details indexKey root).get "tvvf" = storeValue details indexKey root .tvvf := by
  unfold commitBody
  cases details.nativeDim <;> cases storeValue details indexKey root .tvvf <;> rfl

theorem get_commitBody (hkind : kind ≠ .tvvf) :
    (commitBody details indexKey root).get kind.key = some ((storeValue details indexKey root kind).getD .null) := by
  cases kind <;> first | rfl | exact absurd rfl hkind

theorem get_commitBody_graph (hkey : key ∈ graphStoreKinds) : (commitBody details indexKey root).get key = none := by
  unfold commitBody
  obtain rfl | rfl : key = "gtopo" ∨ key = "gtopotext" := by simpa [graphStoreKinds] using hkey
  all_goals
    cases details.nativeDim <;> cases storeValue details indexKey root .tvvf <;> rfl

theorem refsForStore_commitBody (kind : StoreKind) (suffix : String) (baseEpoch : ℕ) :
    refsForStore indexKey kind.key ((commitBody details indexKey root).get kind.key) suffix baseEpoch =
      refsForStore indexKey kind.key (storeValue details indexKey root kind) suffix baseEpoch := by
  by_cases hkind : kind = .tvvf
  · subst hkind
    rw [show StoreKind.tvvf.key = "tvvf" from rfl, get_commitBody_tvvf]
  · rw [get_commitBody hkind]
    cases storeValue details indexKey root kind <;> rfl

theorem storeRefs_eq_ok (hann : ∀ manifest, root.manifests .tvann = some manifest → manifest.deltas = [])
    (h : refsForStore indexKey kind.key ((commitBody details indexKey root).get kind.key) kind.deltaDirSuffix
      root.baseEpoch = .ok refs) : refs = storeRefs details indexKey root kind := by
  rw [refsForStore_commitBody, storeValue] at h
  unfold storeRefs
  cases hman : root.manifests kind with
  | none =>
    rw [hman] at h
    exact (Except.ok.inj h).symm
  | some manifest =>
    rw [hman] at h
    refine refsForStore_eq_ok (fun hne => CommitManifest.epochOf_of_ne hne manifest) (fun hkind => ?_) h
    subst hkind
    exact hann manifest hman

theorem key_mem_storeKinds (kind : StoreKind) : kind.key ∈ storeKinds.map Prod.fst := by
  cases kind <;> decide

/-- An entry of a commit's body is a store, or is not an object. -/
theorem mem_commitBody {entry : String × Value} (h : entry ∈ ((commitBody details indexKey root).asObject.getD [])) :
    entry.2.asObject = none ∨ ∃ kind, entry.1 = StoreKind.key kind := by
  simp only [commitBody, Value.asObject, Option.getD_some, List.mem_append, List.mem_map, Option.mem_toList] at h
  obtain ((hscalar | ⟨kind, _, rfl⟩) | ⟨dim, _, rfl⟩) | ⟨manifest, _, rfl⟩ := h
  · left
    simp only [List.mem_cons, List.not_mem_nil, or_false] at hscalar
    obtain rfl | rfl | rfl | rfl | rfl | rfl := hscalar <;> rfl
  · exact .inr ⟨kind, rfl⟩
  · exact .inl rfl
  · exact .inr ⟨.tvvf, rfl⟩

theorem unknownStore_commitBody : unknownStore (commitBody details indexKey root) = none := by
  refine List.findSome?_eq_none_iff.mpr fun entry hentry => if_neg ?_
  rintro ⟨hobj, _, hunk⟩
  obtain hscalar | ⟨kind, hkind⟩ := mem_commitBody hentry
  · exact hobj hscalar
  · exact hunk (hkind ▸ key_mem_storeKinds kind)

theorem pinnedGraph_commitBody : pinnedGraph (commitBody details indexKey root) = [] := by
  refine List.filter_eq_nil_iff.mpr fun key hkey => ?_
  rw [get_commitBody_graph hkey]
  simp

/-- The inventory of a commit's body, if accepted, is the files the root names. -/
theorem inventoryFromBody_commitBody {artifacts : List ArtifactRef}
    (hann : ∀ manifest, root.manifests .tvann = some manifest → manifest.deltas = [])
    (h : inventoryFromBody indexKey (commitBody details indexKey root) = .ok artifacts) :
    artifacts = rootRefs details indexKey root := by
  unfold inventoryFromBody at h
  simp only [indexKey_commitBody, unknownStore_commitBody, pinnedGraph_commitBody, baseEpoch_commitBody, storeKinds_eq,
    List.mapM_append, List.mapM_map] at h
  rw [if_neg (not_not_intro rfl), if_neg (by decide)] at h
  obtain ⟨refs, hrefs, h⟩ := bind_eq_ok.mp h
  obtain rfl := Except.ok.inj h
  obtain ⟨stores, hstores, hrefs⟩ := bind_eq_ok.mp hrefs
  obtain ⟨graph, hgraph, hrefs⟩ := bind_eq_ok.mp hrefs
  obtain rfl := Except.ok.inj hrefs
  have hempty : graph = [[], []] := by
    refine mapM_eq_map (f := fun _ => []) hgraph fun store hstore refs hrefs => ?_
    have hkey : store.1 ∈ graphStoreKinds := by
      rcases List.mem_cons.mp hstore with rfl | hstore
      · decide
      · obtain rfl := List.mem_singleton.mp hstore
        decide
    rw [get_commitBody_graph hkey] at hrefs
    exact (Except.ok.inj hrefs).symm
  have heach := mapM_eq_map hstores fun kind _ refs hrefs => storeRefs_eq_ok hann hrefs
  rw [heach, hempty, rootRefs, List.flatten_append, List.flatMap]
  simp

theorem names_rootRefs : (rootRefs details indexKey root).map ArtifactRef.name =
    root.files.map fun file => filePath indexKey file.1 file.2 := by
  rw [rootRefs, CommitManifest.files, List.map_flatMap, List.map_flatMap]
  congr 1
  funext kind
  unfold storeRefs CommitManifest.storeFiles
  cases root.manifests kind with
  | none => rfl
  | some manifest => simp [manifestRefs, namedFiles, manifestFiles]

/-! ### Reading a body back -/

/-- The row encoding of a name. -/
def dtypeOfName (name : String) : Option TvvfDtype :=
  [TvvfDtype.float16, .float32, .int8].find? fun dtype => dtypeName dtype = name

/-- What a manifest records about its base. -/
def infoOfValue : (kind : StoreKind) → Value → Value → Option (BaseInfo kind)
  | .tvim, _, base => ((base.get "calibration_fingerprint").bind Value.asU64).map UInt64.ofNat
  | .tvvf, manifest, base => do
    let vfEpoch ← (manifest.get "vf_epoch").bind Value.asU64
    let dtype ← dtypeOfName (strField base "dtype")
    return (⟨vfEpoch, dtype, u64Field base "dim", u64Field base "row_count"⟩ : TvvfInfo)
  | .json, _, _ | .tvtext, _, _ | .tvlex, _, _ | .tvmv, _, _ | .tvann, _, _ => some ()

/-- The segment an entry names. -/
def entryOfValue (kind : StoreKind) (entry : Value) : DeltaEntry where
  seq := u64Field entry "seq"
  sha256 := strField entry "sha256"
  upserted := u64Field entry (countKeys kind).1
  deleted := u64Field entry (countKeys kind).2

/-- The manifest of a store. -/
def manifestOfValue (kind : StoreKind) (manifest : Value) : Option (Manifest (BaseInfo kind)) := do
  let base ← manifest.get "base"
  let info ← infoOfValue kind manifest base
  return ⟨strField base "sha256", info,
    (((manifest.get "deltas").bind Value.asArray).getD []).map (entryOfValue kind), u64Field manifest "next_seq"⟩

/-- The entry of a store that is present. -/
def presentStore (body : Value) (kind : StoreKind) : Option Value :=
  (body.get kind.key).filter fun manifest => manifest ≠ .null

/-- The commit a body describes. A store that is present has to read back. -/
def rootOfBody (body : Value) : Option CommitManifest :=
  if ∀ kind ∈ allKinds, ∀ manifest ∈ presentStore body kind, (manifestOfValue kind manifest).isSome then
    some ⟨u64Field body "generation", u64Field body "applied_lsn", u64Field body "base_epoch",
      fun kind => (presentStore body kind).bind (manifestOfValue kind)⟩
  else none

theorem u64Field_natural {value : Value} {n : ℕ} (h : value.get key = some (natural n)) : u64Field value key = n := by
  rw [u64Field, h, Option.bind_some, asU64_natural, Option.getD_some]

theorem entryOfValue_deltaValue (kind : StoreKind) (epoch : ℕ) (entry : DeltaEntry) :
    entryOfValue kind (deltaValue details kind epoch entry) = entry := by
  have hseq : u64Field (deltaValue details kind epoch entry) "seq" = entry.seq := u64Field_natural rfl
  have hups : u64Field (deltaValue details kind epoch entry) (countKeys kind).1 = entry.upserted :=
    u64Field_natural (by cases kind <;> rfl)
  have hdel : u64Field (deltaValue details kind epoch entry) (countKeys kind).2 = entry.deleted :=
    u64Field_natural (by cases kind <;> rfl)
  unfold entryOfValue
  rw [hseq, hups, hdel]
  rfl

theorem dtypeOfName_dtypeName (dtype : TvvfDtype) : dtypeOfName (dtypeName dtype) = some dtype := by
  cases dtype <;> decide

theorem infoOfValue_manifestValue (kind : StoreKind) (manifest : Manifest (BaseInfo kind)) :
    infoOfValue kind (manifestValue details indexKey kind (root.epochOf kind manifest) manifest)
      (baseValue details kind (root.epochOf kind manifest) manifest) = some manifest.base := by
  cases kind with
  | tvim =>
    change ((some (natural (UInt64.toNat manifest.base))).bind Value.asU64).map UInt64.ofNat = some manifest.base
    rw [Option.bind_some, asU64_natural, Option.map_some, UInt64.ofNat_toNat]
  | tvvf =>
    have hepoch : (manifestValue details indexKey .tvvf (root.epochOf .tvvf manifest) manifest).get "vf_epoch" =
        some (natural (TvvfInfo.vfEpoch manifest.base)) := get_vfEpoch _ manifest
    have hdim : u64Field (baseValue details .tvvf (root.epochOf .tvvf manifest) manifest) "dim" =
        TvvfInfo.dim manifest.base := u64Field_natural rfl
    have hrows : u64Field (baseValue details .tvvf (root.epochOf .tvvf manifest) manifest) "row_count" =
        TvvfInfo.rowCount manifest.base := u64Field_natural rfl
    have hdtype : strField (baseValue details .tvvf (root.epochOf .tvvf manifest) manifest) "dtype" =
        dtypeName (TvvfInfo.dtype manifest.base) := rfl
    simp only [infoOfValue, hepoch, hdim, hrows, hdtype, Option.bind_some, asU64_natural, dtypeOfName_dtypeName]
    rfl
  | _ => rfl

/-- A manifest reads back. The cluster assignment's has no journal. -/
theorem manifestOfValue_manifestValue
    (hann : kind = .tvann → manifest.deltas = [] ∧ manifest.nextSeq = 0) :
    manifestOfValue kind (manifestValue details indexKey kind (root.epochOf kind manifest) manifest) =
      some manifest := by
  have hnext : u64Field (manifestValue details indexKey kind (root.epochOf kind manifest) manifest) "next_seq" =
      manifest.nextSeq := by
    by_cases hkind : kind = .tvann
    · subst hkind
      rw [(hann rfl).2]
      rfl
    · exact u64Field_natural (by simp [manifestValue, Value.get, hkind, List.lookup_cons])
  have hsha : strField (baseValue details kind (root.epochOf kind manifest) manifest) "sha256" = manifest.sha256 := rfl
  unfold manifestOfValue
  simp only [get_base, Option.bind_eq_bind, Option.bind_some, infoOfValue_manifestValue, hnext, hsha,
    deltas_manifestValue _ fun hkind => (hann hkind).1, List.map_map, Function.comp_def, entryOfValue_deltaValue, List.map_id']
  rfl

theorem presentStore_commitBody (kind : StoreKind) :
    presentStore (commitBody details indexKey root) kind = storeValue details indexKey root kind := by
  have hobj : ∀ value, storeValue details indexKey root kind = some value → value ≠ .null := by
    rintro value hvalue rfl
    obtain ⟨manifest, _, hnull⟩ := Option.map_eq_some_iff.mp hvalue
    cases hnull
  have hfound : (commitBody details indexKey root).get kind.key = storeValue details indexKey root kind ∨
      (commitBody details indexKey root).get kind.key = some ((storeValue details indexKey root kind).getD .null) := by
    by_cases hkind : kind = .tvvf
    · subst hkind
      exact .inl get_commitBody_tvvf
    · exact .inr (get_commitBody hkind)
  unfold presentStore
  cases hvalue : storeValue details indexKey root kind with
  | none =>
    rw [hvalue] at hfound
    obtain hfound | hfound := hfound <;> rw [hfound] <;> rfl
  | some value =>
    rw [hvalue] at hfound
    have hsome : (commitBody details indexKey root).get kind.key = some value := by
      obtain hfound | hfound := hfound <;> exact hfound
    rw [hsome, Option.filter_some, if_pos (by simpa using hobj value hvalue)]

/-- The body of a commit reads back. -/
theorem rootOfBody_commitBody
    (hann : ∀ manifest, root.manifests .tvann = some manifest → manifest.deltas = [] ∧ manifest.nextSeq = 0) :
    rootOfBody (commitBody details indexKey root) = some root := by
  have hstore (kind : StoreKind) : (storeValue details indexKey root kind).bind (manifestOfValue kind) =
      root.manifests kind := by
    unfold storeValue
    cases hman : root.manifests kind with
    | none => rfl
    | some manifest =>
      rw [Option.map_some, Option.bind_some]
      refine manifestOfValue_manifestValue fun hkind => ?_
      subst hkind
      exact hann manifest hman
  have hgen : u64Field (commitBody details indexKey root) "generation" = root.generation := u64Field_natural rfl
  have hlsn : u64Field (commitBody details indexKey root) "applied_lsn" = root.appliedLsn := u64Field_natural rfl
  unfold rootOfBody
  rw [if_pos]
  · simp only [presentStore_commitBody, hstore, hgen, hlsn, baseEpoch_commitBody]
  · intro kind _ value hvalue
    rw [presentStore_commitBody] at hvalue
    have hread := hstore kind
    rw [Option.mem_def.mp hvalue, Option.bind_some] at hread
    obtain ⟨manifest, hman, _⟩ := Option.map_eq_some_iff.mp hvalue
    rw [hread, hman]
    rfl

end LodeDB.Cloud
