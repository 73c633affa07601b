import Mathlib.Logic.Function.Basic

/-!
# Actors that interleave over a shared state

Each actor is in a phase of its own; one step of one actor may change the shared state and its phase.
A schedule names the actor of each step, so an actor that stops is one that is named no more.
-/

namespace LodeDB.Interleave

/-- A shared state and the phase each actor is in. -/
structure System (Shared Actor Phase : Type*) where
  shared : Shared
  phases : Actor → Phase

variable {Shared Actor Phase Input : Type*} [DecidableEq Actor]
  (act : Actor → Shared → Phase → Input → Option (Shared × Phase))

/-- One step of one actor, if it has one. -/
def step (system : System Shared Actor Phase) (actor : Actor) (input : Input) :
    Option (System Shared Actor Phase) :=
  (act actor system.shared (system.phases actor) input).map fun next =>
    ⟨next.1, Function.update system.phases actor next.2⟩

/-- The system after a schedule of steps. -/
def run (system : System Shared Actor Phase) : List (Actor × Input) → Option (System Shared Actor Phase)
  | [] => some system
  | (actor, input) :: rest => (step act system actor input).bind fun next => run next rest

variable {act} (global : Shared → Prop) (phase : Actor → Shared → Phase → Prop) (rely : Shared → Shared → Prop)

/-- A shared invariant, and an invariant of each phase that no other actor's step disturbs, hold after
every schedule: each step keeps the shared invariant, establishes its own next phase, and changes the
shared state only as the others rely on. -/
theorem run_keeps (hact : ∀ actor shared before input next after, global shared → phase actor shared before →
      act actor shared before input = some (next, after) → global next ∧ phase actor next after ∧ rely shared next)
    (hstab : ∀ actor shared next before, phase actor shared before → rely shared next → phase actor next before)
    {start last : System Shared Actor Phase} {schedule : List (Actor × Input)}
    (hrun : run act start schedule = some last) (hglobal : global start.shared)
    (hphase : ∀ actor, phase actor start.shared (start.phases actor)) :
    global last.shared ∧ ∀ actor, phase actor last.shared (last.phases actor) := by
  induction schedule generalizing start with
  | nil =>
    cases hrun
    exact ⟨hglobal, hphase⟩
  | cons entry rest ih =>
    obtain ⟨actor, input⟩ := entry
    obtain ⟨next, hstep, hrest⟩ := Option.bind_eq_some_iff.mp hrun
    obtain ⟨⟨shared, after⟩, hnext, hsystem⟩ := Option.map_eq_some_iff.mp hstep
    obtain ⟨hkept, hafter, hrely⟩ := hact actor _ _ _ _ _ hglobal (hphase actor) hnext
    subst hsystem
    apply ih hrest hkept
    intro other
    by_cases hother : other = actor
    · subst hother
      simpa using hafter
    · simpa [hother] using hstab other _ _ _ (hphase other) hrely

end LodeDB.Interleave
