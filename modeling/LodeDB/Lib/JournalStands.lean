import LodeDB.Lib.Journal

/-!
# Manifests whose files stand

A manifest stands when its base and every listed segment are there and match their digests, and its segments are
numbered upwards below the next number. Recording and appending leave it standing, steps that spare the listed files
keep it so, and replaying it applies exactly the listed segments.
-/

namespace Journal

open Traced TreeMapRules

variable {B G X E V : Type} {digests : Digests B G} {files other : Files B G X} {epoch : ℕ}
  {manifest : Manifest X} {base : B} {segments : List G}

/-- The listed segments are numbered upwards, below the next number. -/
structure Numbered (manifest : Manifest X) : Prop where
  ascending : (manifest.deltas.map (·.seq)).Pairwise (· < ·)
  below : ∀ entry ∈ manifest.deltas, entry.seq < manifest.nextSeq

/-- The files a manifest lists are there, with these contents. -/
structure Stands (digests : Digests B G) (files : Files B G X) (epoch : ℕ) (manifest : Manifest X)
    (base : B) (segments : List G) : Prop where
  baseFile : files.bases[epoch]? = some base
  sha256 : manifest.sha256 = digests.base base
  segmentFiles : List.Forall₂ (fun (entry : DeltaEntry) content =>
    files.segment epoch entry.seq = some content ∧ digests.segment content = entry.sha256)
    manifest.deltas segments
  numbered : Numbered manifest

section

variable (h : Stands digests files epoch manifest base segments)

include h

/-- Only the listed files matter. -/
theorem Stands.congr (hbase : other.bases[epoch]? = files.bases[epoch]?)
    (hsegments : ∀ entry ∈ manifest.deltas, other.segment epoch entry.seq = files.segment epoch entry.seq) :
    Stands digests other epoch manifest base segments := by
  have hall : ∀ (entries : List DeltaEntry) (contents : List G),
      (∀ entry ∈ entries, other.segment epoch entry.seq = files.segment epoch entry.seq) →
      List.Forall₂ (fun (entry : DeltaEntry) content =>
        files.segment epoch entry.seq = some content ∧ digests.segment content = entry.sha256)
        entries contents →
      List.Forall₂ (fun (entry : DeltaEntry) content =>
        other.segment epoch entry.seq = some content ∧ digests.segment content = entry.sha256)
        entries contents := by
    intro entries contents hsame hcont
    induction hcont with
    | nil => exact .nil
    | cons hentry _ ih =>
      refine .cons ⟨(hsame _ (by simp)).trans hentry.1, hentry.2⟩ (ih ?_)
      exact fun entry hmem => hsame entry (by simp [hmem])
  exact ⟨hbase.trans h.baseFile, h.sha256, hall _ _ hsegments h.segmentFiles, h.numbered⟩

/-- A listed segment is there, with the digest the manifest records. -/
theorem Stands.exists_segment {entry : DeltaEntry} (hentry : entry ∈ manifest.deltas) :
    ∃ content, files.segment epoch entry.seq = some content ∧ digests.segment content = entry.sha256 := by
  have hfiles := h.segmentFiles
  revert hentry
  clear h
  generalize manifest.deltas = entries at hfiles
  induction hfiles with
  | nil => exact fun hentry => by cases hentry
  | cons hfirst _ ih =>
    intro hentry
    rcases List.mem_cons.mp hentry with rfl | hrest
    · exact ⟨_, hfirst⟩
    · exact ih hrest

/-- A step that spares the listed files keeps the manifest standing. -/
theorem Stands.spared {op : Op B G X} (hspares : ∀ part, manifest.Names epoch part → ¬ op.Modifies part) :
    Stands digests (files.apply op) epoch manifest base segments := by
  apply h.congr
  · exact apply_bases files (hspares _ (.inl rfl))
  · exact fun entry hentry => apply_segment files (hspares _ (.inr ⟨entry, hentry, rfl⟩))

end

/-- Two versions of a store agree on one epoch. -/
structure SameEpoch (epoch : ℕ) (files other : Files B G X) : Prop where
  base : other.bases[epoch]? = files.bases[epoch]?
  dir : other.dir epoch = files.dir epoch

theorem SameEpoch.manifest_eq (h : SameEpoch epoch files other) : other.manifest epoch = files.manifest epoch :=
  congrArg Dir.manifest h.dir

/-- A manifest stands wherever its epoch is the same. -/
theorem Stands.sameEpoch (h : Stands digests files epoch manifest base segments) (hsame : SameEpoch epoch files other) :
    Stands digests other epoch manifest base segments := by
  apply h.congr hsame.base
  intro entry _
  rw [Files.segment, Files.segment, hsame.dir]

theorem SameEpoch.refl (epoch : ℕ) (files : Files B G X) : SameEpoch epoch files files := ⟨rfl, rfl⟩

theorem SameEpoch.trans {last : Files B G X} (h : SameEpoch epoch files other) (hnext : SameEpoch epoch other last) :
    SameEpoch epoch files last := ⟨hnext.base.trans h.base, hnext.dir.trans h.dir⟩

/-- Removing another epoch's base. -/
theorem sameEpoch_removeBase {removed : ℕ} (files : Files B G X) (hne : removed ≠ epoch) :
    SameEpoch epoch files (files.apply (.removeBase removed)) :=
  ⟨by rw [Files.apply, getElem?_erase, if_neg hne], rfl⟩

/-- Removing another epoch's directory. -/
theorem sameEpoch_removeDir {removed : ℕ} (files : Files B G X) (hne : removed ≠ epoch) :
    SameEpoch epoch files (files.apply (.removeDir removed)) :=
  ⟨rfl, by rw [Files.apply, Files.dir, Files.dir, getElem?_erase, if_neg hne]⟩

theorem numbered_push (h : Numbered manifest) (sha256 : String) (upserted deleted : ℕ) :
    Numbered (manifest.push sha256 upserted deleted) := by
  refine ⟨?_, ?_⟩
  · rw [Manifest.push, List.map_append, List.pairwise_append]
    refine ⟨h.ascending, by simp, ?_⟩
    intro seq hseq next hnext
    obtain ⟨entry, hentry, rfl⟩ := List.mem_map.mp hseq
    simp only [List.map_cons, List.map_nil, List.mem_singleton] at hnext
    subst hnext
    exact h.below entry hentry
  · intro entry hentry
    rcases List.mem_append.mp hentry with hold | hnew
    · exact Nat.lt_succ_of_lt (h.below entry hold)
    · rw [List.mem_singleton] at hnew
      subst hnew
      exact Nat.lt_succ_self _

section Record

/-- The manifest that recording a base leaves. -/
def recorded (digests : Digests B G) (numbering : Option ℕ → ℕ) (files : Files B G X) (epoch : ℕ)
    (content : B) (base : X) : Manifest X :=
  ⟨digests.base content, base, [], numbering ((files.manifest epoch).map (·.nextSeq))⟩

/-- The files that recording a base leaves. -/
def recordedFiles (digests : Digests B G) (numbering : Option ℕ → ℕ) (files : Files B G X) (epoch : ℕ)
    (content : B) (base : X) : Files B G X :=
  (files.apply (.writeBase epoch content)).apply
    (.writeManifest epoch (recorded digests numbering files epoch content base))

theorem stands_recorded (numbering : Option ℕ → ℕ) (files : Files B G X) (epoch : ℕ) (content : B) (info : X) :
    Stands digests (recordedFiles digests numbering files epoch content info) epoch
      (recorded digests numbering files epoch content info) content [] := by
  refine ⟨?_, rfl, .nil, ⟨by simp [recorded], by simp [recorded]⟩⟩
  rw [recordedFiles, apply_bases _ (by simp [Op.Modifies]), writeBase_bases]

end Record

section Append

/-- The files that appending a segment leaves. -/
def appendedFiles (digests : Digests B G) (files : Files B G X) (epoch : ℕ) (manifest : Manifest X)
    (content : G) (upserted deleted : ℕ) : Files B G X :=
  (files.apply (.writeSegment epoch manifest.nextSeq content)).apply
    (.writeManifest epoch (manifest.push (digests.segment content) upserted deleted))

theorem appendDelta_runs (hman : files.manifest epoch = some manifest) (missing : E) (content : G)
    (upserted deleted : ℕ) :
    Runs (appendDelta digests missing epoch content upserted deleted) files
      (manifest.push (digests.segment content) upserted deleted)
      (appendedFiles digests files epoch manifest content upserted deleted) := by
  refine Runs.look.bind ?_
  simp only [hman]
  exact (Runs.perform _ _).bind ((Runs.perform _ _).bind Runs.pure)

/-- An append under the number that is next keeps a standing manifest. -/
theorem Stands.appended (h : Stands digests files epoch manifest base segments) (content : G) (upserted deleted : ℕ) :
    Stands digests (appendedFiles digests files epoch manifest content upserted deleted) epoch
      manifest base segments := by
  have hwr : Stands digests (files.apply (.writeSegment epoch manifest.nextSeq content)) epoch
      manifest base segments := by
    apply h.spared
    rintro part (rfl | ⟨entry, hentry, rfl⟩)
    · simp [Op.Modifies]
    · simpa [Op.Modifies] using (h.numbered.below entry hentry).ne
  apply hwr.spared
  rintro part (rfl | ⟨entry, hentry, rfl⟩) <;> simp [Op.Modifies]

theorem appendedFiles_manifest (digests : Digests B G) (files : Files B G X) (epoch : ℕ)
    (manifest : Manifest X) (content : G) (upserted deleted : ℕ) :
    (appendedFiles digests files epoch manifest content upserted deleted).manifest epoch =
      some (manifest.push (digests.segment content) upserted deleted) :=
  writeManifest_manifest _ _ _

/-- Appending to a standing manifest adds one segment. -/
theorem Stands.append (h : Stands digests files epoch manifest base segments) (content : G) (upserted deleted : ℕ) :
    Stands digests (appendedFiles digests files epoch manifest content upserted deleted) epoch
      (manifest.push (digests.segment content) upserted deleted) base (segments ++ [content]) := by
  have hkept := h.appended content upserted deleted
  refine ⟨hkept.baseFile, hkept.sha256, ?_, numbered_push h.numbered _ _ _⟩
  refine List.rel_append hkept.segmentFiles (.cons ⟨?_, rfl⟩ .nil)
  rw [appendedFiles, apply_segment _ (by simp [Op.Modifies]), writeSegment_segment]

end Append

/-- Replaying a standing manifest applies its segments in order. -/
theorem Stands.replayEntries (h : Stands digests files epoch manifest base segments)
    (errors : ReadErrors E) (step : V → G → Except E V) (value : V) :
    Journal.replayEntries errors digests step files epoch none manifest.deltas value =
      segments.foldlM step value := by
  have hall : ∀ (entries : List DeltaEntry) (contents : List G) (previous : Option ℕ) (value : V),
      List.Forall₂ (fun (entry : DeltaEntry) content =>
        files.segment epoch entry.seq = some content ∧ digests.segment content = entry.sha256)
        entries contents →
      (entries.map (·.seq)).Pairwise (· < ·) →
      (∀ last, previous = some last → ∀ entry ∈ entries, last < entry.seq) →
      Journal.replayEntries errors digests step files epoch previous entries value = contents.foldlM step value := by
    intro entries
    induction entries with
    | nil =>
      intro contents previous value hcont _ _
      cases hcont
      rfl
    | cons entry rest ih =>
      intro contents previous value hcont hascending hprev
      cases hcont with
      | cons hentry hrest =>
        rw [List.map_cons, List.pairwise_cons] at hascending
        have horder : previous.any (entry.seq ≤ ·) = false := by
          cases previous with
          | none => rfl
          | some last => simpa using hprev last rfl entry (by simp)
        rw [Journal.replayEntries, horder, if_neg (by simp), hentry.1]
        simp only [hentry.2, if_true, List.foldlM_cons]
        congr 1
        funext next
        apply ih _ _ _ hrest hascending.2
        intro last hlast later hlater
        cases hlast
        exact hascending.1 later.seq (List.mem_map_of_mem hlater)
  exact hall _ _ none value h.segmentFiles h.numbered.ascending (by simp)

end Journal
