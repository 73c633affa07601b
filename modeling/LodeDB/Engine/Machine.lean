import LodeDB.Engine.Frame
import LodeDB.Engine.Persist

/-!
# Writers that crash and reopen

A machine is a directory and, while a writer has it open, the writer's session. A persist may stop
after any of its steps: with an I/O error, which leaves the session open as it was at that step, or
with a crash, which leaves only the directory.
-/

namespace LodeDB.Engine

open Traced
open LodeDB.Storage

/-- A directory and the session of its writer. -/
structure Machine where
  disk : Disk
  session : Option Session

/-- What can happen to a machine. -/
inductive Action
  | call (policy : TextPolicy) (call : Call)
  | compact
  | noteApplied (lsn : ℕ)
  | openReader
  | persist (policy : TextPolicy) (ann : Option (List (List String)))
  | failedPersist (policy : TextPolicy) (ann : Option (List (List String))) (steps : ℕ)
  | crash (policy : TextPolicy) (ann : Option (List (List String))) (steps : ℕ)
  | reopen (chunkCharacterLimit : ℕ)

/-- The index an open store falls back to when nothing is committed yet. -/
structure Creation where
  vectorDim : ℕ
  rescoreDtype : Option TvvfDtype
  annConfigured : Bool

/-- Request a base rewrite. -/
def VectorOnlyIndex.compact (index : VectorOnlyIndex) : VectorOnlyIndex :=
  { index with forceBaseRewrite := true }

/-- Note a folded log record: the watermark moves, and the generation with it. -/
def VectorOnlyIndex.noteApplied (index : VectorOnlyIndex) (lsn : ℕ) : VectorOnlyIndex :=
  { index with
    appliedLsn := max index.appliedLsn lsn
    generation := max index.generation (max index.appliedLsn lsn) }

variable (P : Primitives) (format : Format)

/-- Open the original-precision sidecar for a query; a failure is remembered. -/
def ensureTvvfReader (disk : Disk) (index : VectorOnlyIndex) : VectorOnlyIndex :=
  if index.tvvfReader.isSome || index.tvvfSidecarUnavailable then index
  else match index.tvvfManifest with
    | none => index
    | some manifest =>
      match TvvfReader.openWith format.tvvf (disk.stores .tvvf) manifest with
      | .ok reader => { index with tvvfReader := some reader }
      | .error _ => { index with tvvfSidecarUnavailable := true }

variable (policy : TextPolicy)

/-- The steps of a persist and what it returns. -/
def persistTrace (ann : Option (List (List String))) (store : Store) : List (Event × Store) × Except CoreError Unit :=
  persistIndexGeneration P format policy ann store

/-- The writer once a persist has taken some of its steps. -/
def afterPersist (ann : Option (List (List String))) (steps : ℕ) (store : Store) : Store :=
  after store ((persistTrace P format policy ann store).1.take steps)

/-- The writer once a persist has taken all of its steps. -/
def persisted (ann : Option (List (List String))) (store : Store) : Store :=
  after store (persistTrace P format policy ann store).1

/-- A session that goes on with another index. -/
def Session.withIndex (session : Session) (index : VectorOnlyIndex) : Session :=
  { session with index := index }

/-- A machine whose session is open at a writer's state. -/
def Machine.atStore (session : Session) (store : Store) : Machine :=
  ⟨store.disk, some (session.withIndex store.index)⟩

namespace Machine

variable (creation : Creation)

/-- A machine with an empty directory and a fresh index. -/
def fresh : Machine :=
  ⟨.empty, some (Session.fresh creation.vectorDim creation.rescoreDtype creation.annConfigured)⟩

/-- Open the directory for writing, with a new index if nothing is committed. -/
def reopen (disk : Disk) (chunkCharacterLimit : ℕ) : Option Machine :=
  match openStore P format disk chunkCharacterLimit with
  | .ok (some index) => some ⟨disk, some ⟨index, []⟩⟩
  | .ok none => some ⟨disk, some (Session.fresh creation.vectorDim creation.rescoreDtype creation.annConfigured)⟩
  | .error _ => none

/-- Take one action on an open session. -/
def act (disk : Disk) (session : Session) : Action → Option Machine
  | .call policy call => some ⟨disk, some (session.call P policy call).1⟩
  | .compact => some ⟨disk, some (session.withIndex session.index.compact)⟩
  | .noteApplied lsn => some ⟨disk, some (session.withIndex (session.index.noteApplied lsn))⟩
  | .openReader => some ⟨disk, some (session.withIndex (ensureTvvfReader format disk session.index))⟩
  | .persist policy ann => some (atStore session (persisted P format policy ann ⟨disk, session.index⟩))
  | .failedPersist policy ann steps =>
    some (atStore session (afterPersist P format policy ann steps ⟨disk, session.index⟩))
  | .crash policy ann steps =>
    some ⟨(afterPersist P format policy ann steps ⟨disk, session.index⟩).disk, none⟩
  | .reopen _ => none

/-- Take one action, if it is possible. -/
def step (machine : Machine) (action : Action) : Option Machine :=
  match machine.session, action with
  | some session, action => act P format machine.disk session action
  | none, .reopen chunkCharacterLimit => reopen P format creation machine.disk chunkCharacterLimit
  | none, _ => none

/-- A session applies only plans it holds. -/
def Holds (machine : Machine) : Action → Prop
  | .call _ call => ∀ session, machine.session = some session → session.Holds call
  | _ => True

end Machine

/-- A run of actions, each of which meets a condition on the machine before it. -/
inductive MachineRun (creation : Creation) (condition : Machine → Action → Prop) :
    Machine → List Action → Machine → Prop
  | done (machine : Machine) : MachineRun creation condition machine [] machine
  | step {machine next last : Machine} {action : Action} {rest : List Action}
      (hholds : machine.Holds action) (hcondition : condition machine action)
      (hnext : machine.step P format creation action = some next)
      (hrest : MachineRun creation condition next rest last) :
      MachineRun creation condition machine (action :: rest) last

variable {P format} {creation : Creation} {condition : Machine → Action → Prop}

/-- What every action keeps holds in every machine a run reaches. -/
theorem MachineRun.keeps {I : Machine → Prop} {start last : Machine} {actions : List Action}
    (hkeeps : ∀ machine action next, I machine → machine.Holds action → condition machine action →
      machine.step P format creation action = some next → I next)
    (hrun : MachineRun P format creation condition start actions last) (hstart : I start) : I last := by
  induction hrun with
  | done => exact hstart
  | step hholds hcond hnext _ ih => exact ih (hkeeps _ _ _ hstart hholds hcond hnext)

end LodeDB.Engine
