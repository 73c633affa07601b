import LodeDB.Engine.Load
import LodeDB.Storage.Agree

/-!
# Opening directories that agree

Directories that agree on their commit open to the same index. If they differ in the original-precision
sidecar only, they open to the same documents and the same live vector index.
-/

namespace LodeDB.Engine

open Journal ExceptRules
open LodeDB.Storage

variable {P : Primitives} {format : Format} {disk other : Disk} {root : CommitManifest}

variable {loaded : LoadedStore}

/-- What an index holds: its documents and its live vector index. -/
def VectorOnlyIndex.contents (index : VectorOnlyIndex) : Documents × Option TurboVecNativeIndex :=
  (index.documents, index.vectorIndex)

theorem indexFromLoadedStore_congr (h : ∀ manifest, loaded.tvimManifest = some manifest →
      SameListed loaded.baseEpoch manifest (disk.stores .tvim) (other.stores .tvim)) (chunkCharacterLimit : ℕ) :
    indexFromLoadedStore P format other loaded chunkCharacterLimit =
      indexFromLoadedStore P format disk loaded chunkCharacterLimit := by
  unfold indexFromLoadedStore reconstructTvimVectors loadVectorIndex TurboVecNativeIndex.loadWithManifestIds
  cases hman : loaded.tvimManifest with
  | none => rfl
  | some manifest => simp only [loadIdMap_congr (h manifest hman)]

theorem indexFromLoadedStore_contents (loaded : LoadedStore) (chunkCharacterLimit : ℕ) :
    (indexFromLoadedStore P format disk loaded chunkCharacterLimit).map VectorOnlyIndex.contents =
      (indexFromLoadedStore P format disk loaded.withoutReader chunkCharacterLimit).map VectorOnlyIndex.contents := by
  unfold indexFromLoadedStore
  simp only [map_bind]
  rfl

theorem loadGenerationStore_root (h : loadGenerationStore format disk root = .ok loaded) :
    loaded.tvimManifest = root.manifests .tvim ∧ loaded.baseEpoch = root.baseEpoch := by
  unfold loadGenerationStore at h
  simp only [bind_eq_ok] at h
  obtain ⟨_, _, _, _, _, _, _, _, _, _, hload⟩ := h
  obtain rfl := Except.ok.inj hload
  exact ⟨rfl, rfl⟩

/-- The index of a loaded store depends on the vector store's listed files only. -/
theorem indexFromLoadedStore_agree (hload : loadGenerationStore format disk root = .ok loaded)
    (h : Agree root disk other .tvim) (chunkCharacterLimit : ℕ) :
    indexFromLoadedStore P format other loaded chunkCharacterLimit =
      indexFromLoadedStore P format disk loaded chunkCharacterLimit := by
  obtain ⟨hman, hepoch⟩ := loadGenerationStore_root hload
  refine indexFromLoadedStore_congr (fun manifest hsome => ?_) chunkCharacterLimit
  rw [hepoch]
  exact h manifest (hman.symm.trans hsome)

/-- Directories that agree on their commit open to the same index. -/
theorem openStore_congr (hroot : disk.root = some root) (hother : other.root = some root)
    (hstate : (root.manifests .json).isSome) (h : ∀ kind, Agree root disk other kind) (chunkCharacterLimit : ℕ) :
    openStore P format other chunkCharacterLimit = openStore P format disk chunkCharacterLimit := by
  unfold openStore
  rw [hroot, hother]
  dsimp only
  rw [loadGenerationStore_congr hstate h]
  cases hload : loadGenerationStore format disk root with
  | error error => rfl
  | ok loaded => rw [ok_bind, ok_bind, indexFromLoadedStore_agree hload (h .tvim)]

/-- What an open yields depends on what a load returns besides the sidecar. -/
theorem openStore_map_contents (hroot : disk.root = some root) (chunkCharacterLimit : ℕ) :
    (openStore P format disk chunkCharacterLimit).map (Option.map VectorOnlyIndex.contents) =
      (loadGenerationStore format disk root).map LoadedStore.withoutReader >>= fun core =>
        ((indexFromLoadedStore P format disk core chunkCharacterLimit).map VectorOnlyIndex.contents).map some := by
  unfold openStore
  rw [hroot]
  dsimp only
  cases loadGenerationStore format disk root with
  | error error => rfl
  | ok loaded =>
    change ((indexFromLoadedStore P format disk loaded chunkCharacterLimit).map some).map
      (Option.map VectorOnlyIndex.contents) = ((indexFromLoadedStore P format disk loaded.withoutReader
        chunkCharacterLimit).map VectorOnlyIndex.contents).map some
    rw [← indexFromLoadedStore_contents]
    cases indexFromLoadedStore P format disk loaded chunkCharacterLimit <;> rfl

/-- Directories that agree but for the sidecar open to the same contents. -/
theorem openStore_contents (hroot : disk.root = some root) (hother : other.root = some root)
    (hstate : (root.manifests .json).isSome) (h : ∀ kind, kind ≠ .tvvf → Agree root disk other kind)
    (chunkCharacterLimit : ℕ) :
    (openStore P format other chunkCharacterLimit).map (Option.map VectorOnlyIndex.contents) =
      (openStore P format disk chunkCharacterLimit).map (Option.map VectorOnlyIndex.contents) := by
  rw [openStore_map_contents hroot, openStore_map_contents hother, loadGenerationStore_withoutReader hstate h]
  cases hload : loadGenerationStore format disk root with
  | error error => rfl
  | ok loaded =>
    obtain ⟨hman, hepoch⟩ := loadGenerationStore_root hload
    have hcore : indexFromLoadedStore P format other loaded.withoutReader chunkCharacterLimit =
        indexFromLoadedStore P format disk loaded.withoutReader chunkCharacterLimit := by
      refine indexFromLoadedStore_congr (fun manifest hsome => ?_) chunkCharacterLimit
      change SameListed loaded.baseEpoch manifest _ _
      rw [hepoch]
      exact h .tvim (by decide) manifest (hman.symm.trans hsome)
    change ((indexFromLoadedStore P format other loaded.withoutReader chunkCharacterLimit).map
      VectorOnlyIndex.contents).map some = _
    rw [hcore]
    rfl

end LodeDB.Engine
