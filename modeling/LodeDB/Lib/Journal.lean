import LodeDB.Lib.Traced
import LodeDB.Lib.TreeMap

/-!
# Journaled stores

A store keeps numbered base snapshots. Beside each base lies a directory of numbered delta segments and a manifest
that lists them with their digests. Recording a base writes the snapshot and a manifest without deltas; appending
writes a segment under the manifest's next number and then the manifest. A reader holds a copy of a manifest and
replays what that copy lists.

`Stands` depends only on the files a manifest lists, so it survives every step that spares them.
-/

namespace Journal

open Traced TreeMapRules

variable {B G X E V : Type}

/-- One listed segment: its number, its digest, and how much it upserts and deletes. -/
structure DeltaEntry where
  seq : ℕ
  sha256 : String
  upserted : ℕ
  deleted : ℕ
  deriving DecidableEq

/-- A manifest: the digest of the base and what else is recorded about it, the segments, and the number of the next
one. -/
structure Manifest (X : Type) where
  sha256 : String
  base : X
  deltas : List DeltaEntry
  nextSeq : ℕ
  deriving DecidableEq

/-- The directory beside a base. -/
structure Dir (G X : Type) where
  manifest : Option (Manifest X)
  segments : Std.ExtTreeMap ℕ G compare

/-- The files of a store. -/
structure Files (B G X : Type) where
  bases : Std.ExtTreeMap ℕ B compare
  dirs : Std.ExtTreeMap ℕ (Dir G X) compare

/-- A file of a store. -/
inductive Part
  | base (epoch : ℕ)
  | manifest (epoch : ℕ)
  | segment (epoch seq : ℕ)
  deriving DecidableEq

/-- An atomic step on a store. -/
inductive Op (B G X : Type)
  | writeBase (epoch : ℕ) (content : B)
  | writeManifest (epoch : ℕ) (manifest : Manifest X)
  | writeSegment (epoch seq : ℕ) (content : G)
  | removeBase (epoch : ℕ)
  | removeDir (epoch : ℕ)

namespace Files

/-- No file at all. -/
def empty : Files B G X := ⟨∅, ∅⟩

variable (files : Files B G X)

/-- The directory beside a base, empty if it was never created. -/
def dir (epoch : ℕ) : Dir G X := files.dirs[epoch]?.getD ⟨none, ∅⟩

/-- The manifest beside a base. -/
def manifest (epoch : ℕ) : Option (Manifest X) := (files.dir epoch).manifest

/-- A segment beside a base. -/
def segment (epoch seq : ℕ) : Option G := (files.dir epoch).segments[seq]?

/-- The number the next segment beside a base gets. -/
def nextSeq (epoch : ℕ) : ℕ := ((files.manifest epoch).map (·.nextSeq)).getD 0

/-- Take one step. -/
def apply : Op B G X → Files B G X
  | .writeBase epoch content => { files with bases := files.bases.insert epoch content }
  | .writeManifest epoch manifest =>
    { files with dirs := files.dirs.insert epoch { files.dir epoch with manifest := some manifest } }
  | .writeSegment epoch seq content =>
    { files with
      dirs := files.dirs.insert epoch
        { files.dir epoch with segments := (files.dir epoch).segments.insert seq content } }
  | .removeBase epoch => { files with bases := files.bases.erase epoch }
  | .removeDir epoch => { files with dirs := files.dirs.erase epoch }

end Files

/-- Whether a step writes or removes a file. -/
def Op.Modifies : Op B G X → Part → Prop
  | .writeBase epoch _, part => part = .base epoch
  | .writeManifest epoch _, part => part = .manifest epoch
  | .writeSegment epoch seq _, part => part = .segment epoch seq
  | .removeBase epoch, part => part = .base epoch
  | .removeDir epoch, part => part = .manifest epoch ∨ ∃ seq, part = .segment epoch seq

/-- The files a manifest lists: the base and the segments, not itself. -/
def Manifest.Names (manifest : Manifest X) (epoch : ℕ) (part : Part) : Prop :=
  part = .base epoch ∨ ∃ entry ∈ manifest.deltas, part = .segment epoch entry.seq

/-- The manifest once a segment is appended. -/
def Manifest.push (manifest : Manifest X) (sha256 : String) (upserted deleted : ℕ) : Manifest X :=
  { manifest with
    deltas := manifest.deltas ++ [⟨manifest.nextSeq, sha256, upserted, deleted⟩]
    nextSeq := manifest.nextSeq + 1 }

/-- The digests of base snapshots and segments. -/
structure Digests (B G : Type) where
  base : B → String
  segment : G → String

section Programs

/-- Take one step of a store. -/
def write (op : Op B G X) : Program (Files B G X) (Op B G X) E Unit := .perform op (·.apply op)

/-- Write a base and a manifest without deltas. The numbering goes by the manifest that was there. -/
def recordBase (digests : Digests B G) (numbering : Option ℕ → ℕ) (epoch : ℕ) (content : B) (base : X) :
    Program (Files B G X) (Op B G X) E (Manifest X) := do
  write (.writeBase epoch content)
  let files ← Program.look
  let manifest : Manifest X := ⟨digests.base content, base, [], numbering ((files.manifest epoch).map (·.nextSeq))⟩
  write (.writeManifest epoch manifest)
  return manifest

/-- Append a segment to the manifest that is on disk. -/
def appendDelta (digests : Digests B G) (missing : E) (epoch : ℕ) (content : G) (upserted deleted : ℕ) :
    Program (Files B G X) (Op B G X) E (Manifest X) := do
  let files ← Program.look
  match files.manifest epoch with
  | none => Program.fail missing
  | some manifest =>
    write (.writeSegment epoch manifest.nextSeq content)
    write (.writeManifest epoch (manifest.push (digests.segment content) upserted deleted))
    return manifest.push (digests.segment content) upserted deleted

/-- What can be wrong with a listed segment. -/
structure ReadErrors (E : Type) where
  outOfOrder : E
  missing : ℕ → E
  checksum : ℕ → E

/-- Replay the listed segments in order, checking each before it is applied. -/
def replayEntries (errors : ReadErrors E) (digests : Digests B G) (step : V → G → Except E V)
    (files : Files B G X) (epoch : ℕ) : Option ℕ → List DeltaEntry → V → Except E V
  | _, [], value => .ok value
  | previous, entry :: rest, value =>
    if previous.any (entry.seq ≤ ·) then .error errors.outOfOrder
    else match files.segment epoch entry.seq with
      | none => .error (errors.missing entry.seq)
      | some content =>
        if digests.segment content = entry.sha256 then do
          let value ← step value content
          replayEntries errors digests step files epoch (some entry.seq) rest value
        else .error (errors.checksum entry.seq)

end Programs

section Lookup

variable (files : Files B G X)

@[simp] theorem empty_manifest (epoch : ℕ) : (Files.empty : Files B G X).manifest epoch = none := by
  simp [Files.empty, Files.manifest, Files.dir]

theorem dir_insert (bases : Std.ExtTreeMap ℕ B compare) (dirs : Std.ExtTreeMap ℕ (Dir G X) compare)
    (epoch other : ℕ) (dir : Dir G X) :
    (⟨bases, dirs.insert epoch dir⟩ : Files B G X).dir other =
      if epoch = other then dir else (⟨bases, dirs⟩ : Files B G X).dir other := by
  simp only [Files.dir, getElem?_insert]
  split <;> rfl

/-- A step that spares a base leaves it as it was. -/
theorem apply_bases {op : Op B G X} {epoch : ℕ} (hspares : ¬ op.Modifies (.base epoch)) :
    (files.apply op).bases[epoch]? = files.bases[epoch]? := by
  cases op with
  | writeBase written content =>
    have hne : ¬ written = epoch := fun heq => hspares (by simp [Op.Modifies, heq])
    simp only [Files.apply, getElem?_insert, hne, if_false]
  | removeBase removed =>
    have hne : ¬ removed = epoch := fun heq => hspares (by simp [Op.Modifies, heq])
    simp only [Files.apply, getElem?_erase, hne, if_false]
  | writeManifest => rfl
  | writeSegment => rfl
  | removeDir => rfl

/-- A step that spares a manifest leaves it as it was. -/
theorem apply_manifest {op : Op B G X} {epoch : ℕ} (hspares : ¬ op.Modifies (.manifest epoch)) :
    (files.apply op).manifest epoch = files.manifest epoch := by
  cases op with
  | writeBase => rfl
  | removeBase => rfl
  | writeManifest written manifest =>
    have hne : ¬ written = epoch := fun heq => hspares (by simp [Op.Modifies, heq])
    simp only [Files.apply, Files.manifest, dir_insert, hne, if_false]
  | writeSegment written seq content =>
    simp only [Files.apply, Files.manifest, dir_insert]
    split
    · rename_i heq
      simp [heq]
    · rfl
  | removeDir removed =>
    have hne : ¬ removed = epoch := fun heq => hspares (by simp [Op.Modifies, heq])
    simp only [Files.apply, Files.manifest, Files.dir, getElem?_erase, hne, if_false]

/-- A step that spares a segment leaves it as it was. -/
theorem apply_segment {op : Op B G X} {epoch seq : ℕ} (hspares : ¬ op.Modifies (.segment epoch seq)) :
    (files.apply op).segment epoch seq = files.segment epoch seq := by
  cases op with
  | writeBase => rfl
  | removeBase => rfl
  | writeManifest written manifest =>
    simp only [Files.apply, Files.segment, dir_insert]
    split
    · rename_i heq
      simp [heq]
    · rfl
  | writeSegment written number content =>
    simp only [Files.apply, Files.segment, dir_insert]
    split
    · rename_i heq
      have hne : ¬ number = seq := fun hseq => hspares (by simp [Op.Modifies, heq, hseq])
      simp only [getElem?_insert, hne, if_false, heq]
    · rfl
  | removeDir removed =>
    have hne : ¬ removed = epoch := fun heq => hspares (by simp [Op.Modifies, heq])
    simp only [Files.apply, Files.segment, Files.dir, getElem?_erase, hne, if_false]

@[simp] theorem writeBase_bases (epoch : ℕ) (content : B) :
    (files.apply (.writeBase epoch content)).bases[epoch]? = some content := by
  simp [Files.apply]

@[simp] theorem writeManifest_manifest (epoch : ℕ) (manifest : Manifest X) :
    (files.apply (.writeManifest epoch manifest)).manifest epoch = some manifest := by
  simp [Files.apply, Files.manifest, Files.dir]

@[simp] theorem writeSegment_segment (epoch seq : ℕ) (content : G) :
    (files.apply (.writeSegment epoch seq content)).segment epoch seq = some content := by
  simp [Files.apply, Files.segment, Files.dir]

end Lookup

section Traces

variable {files : Files B G X} {epoch : ℕ} (digests : Digests B G) (missing : E) (content : G)
  (upserted deleted : ℕ)

/-- An append onto a journal without a manifest fails before it writes anything. -/
theorem appendDelta_missing (hman : files.manifest epoch = none) :
    appendDelta digests missing epoch content upserted deleted files = ([], .error missing) := by
  simp [appendDelta, Program.look, Program.fail, Program.andThen, bind, hman]

/-- An append writes the segment under the next number, then the manifest. -/
theorem appendDelta_trace {manifest : Manifest X} (hman : files.manifest epoch = some manifest) :
    appendDelta digests missing epoch content upserted deleted files =
      ([(.writeSegment epoch manifest.nextSeq content, files.apply (.writeSegment epoch manifest.nextSeq content)),
        (.writeManifest epoch (manifest.push (digests.segment content) upserted deleted),
          (files.apply (.writeSegment epoch manifest.nextSeq content)).apply
            (.writeManifest epoch (manifest.push (digests.segment content) upserted deleted)))],
        .ok (manifest.push (digests.segment content) upserted deleted)) := by
  simp only [appendDelta, Program.look, Program.andThen, bind, after_nil, hman]
  rfl

end Traces

end Journal
