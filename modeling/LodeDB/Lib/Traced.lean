import Mathlib.Data.List.Basic

/-!
# Programs that run in atomic steps

A program over a state takes atomic steps and returns a value or fails. It leaves the steps it took, each with the
state after it. An interrupted program leaves a prefix of its trace, so what holds along the trace holds wherever it
stops.

`Triple` is a partial-correctness rule that also speaks about the steps and about failures; `Runs` says that a
program succeeds, with which value and in which state.
-/

namespace Traced

variable {S T Op Sub E α β : Type}

variable {I : S → Prop}

/-- A program: the steps it takes, each with the state after it, and what it returns. -/
def Program (S Op E α : Type) := S → List (Op × S) × Except E α

/-- The state a trace leaves. -/
def after (start : S) : List (Op × S) → S
  | [] => start
  | step :: rest => after step.2 rest

/-- A relation that every step of a trace satisfies. -/
def Steps (during : S → Op → S → Prop) (start : S) : List (Op × S) → Prop
  | [] => True
  | step :: rest => during start step.1 step.2 ∧ Steps during step.2 rest

@[simp] theorem after_nil (start : S) : after start ([] : List (Op × S)) = start := rfl

@[simp] theorem after_cons (start : S) (step : Op × S) (rest : List (Op × S)) :
    after start (step :: rest) = after step.2 rest := rfl

@[simp] theorem after_append (start : S) (first second : List (Op × S)) :
    after start (first ++ second) = after (after start first) second := by
  induction first generalizing start with
  | nil => rfl
  | cons step first ih => exact ih step.2

section Steps

variable {during : S → Op → S → Prop} {start : S} {first second : List (Op × S)}

@[simp] theorem steps_nil : Steps during start [] := trivial

@[simp] theorem steps_cons {step : Op × S} :
    Steps during start (step :: first) ↔ during start step.1 step.2 ∧ Steps during step.2 first := Iff.rfl

@[simp] theorem steps_append : Steps during start (first ++ second) ↔
    Steps during start first ∧ Steps during (after start first) second := by
  induction first generalizing start with
  | nil => simp
  | cons step first ih => simp [ih, and_assoc]

theorem Steps.imp {weaker : S → Op → S → Prop} (himp : ∀ s op next, during s op next → weaker s op next)
    (h : Steps during start first) : Steps weaker start first := by
  induction first generalizing start with
  | nil => trivial
  | cons step first ih => exact ⟨himp _ _ _ h.1, ih h.2⟩

theorem steps_true : Steps (fun _ _ _ => True) start first := by
  induction first generalizing start with
  | nil => trivial
  | cons step first ih => exact ⟨trivial, ih⟩

/-- What every step keeps holds at the end. -/
theorem Steps.keeps (hkeeps : ∀ s op next, I s → during s op next → I next) (hstart : I start)
    (h : Steps during start first) : I (after start first) := by
  induction first generalizing start with
  | nil => exact hstart
  | cons step first ih => exact ih (hkeeps _ _ _ hstart h.1) h.2

/-- What every step keeps holds after every step. -/
theorem Steps.along (hkeeps : ∀ s op next, I s → during s op next → I next) (hstart : I start)
    (h : Steps during start first) : Steps (fun _ _ next => I next) start first := by
  induction first generalizing start with
  | nil => trivial
  | cons step first ih => exact ⟨hkeeps _ _ _ hstart h.1, ih (hkeeps _ _ _ hstart h.1) h.2⟩

/-- The steps taken before an interruption. -/
theorem Steps.take (h : Steps during start first) (count : ℕ) : Steps during start (first.take count) := by
  rw [← List.take_append_drop count first, steps_append] at h
  exact h.1

end Steps

namespace Program

/-- Run one program after another. A failure stops both. -/
def andThen (first : Program S Op E α) (next : α → Program S Op E β) : Program S Op E β := fun start =>
  match first start with
  | (trace, .error error) => (trace, .error error)
  | (trace, .ok value) =>
    let rest := next value (after start trace)
    (trace ++ rest.1, rest.2)

/-- The state a program leaves. -/
abbrev final (program : Program S Op E α) (start : S) : S := after start (program start).1

instance : Monad (Program S Op E) where
  pure value := fun _ => ([], .ok value)
  bind := andThen

/-- Stop with an error. -/
def fail (error : E) : Program S Op E α := fun _ => ([], .error error)

/-- Look at the state. -/
def look : Program S Op E S := fun start => ([], .ok start)

/-- Take one step. -/
def perform (op : Op) (effect : S → S) : Program S Op E Unit := fun start => ([(op, effect start)], .ok ())

/-- Continue with a value that may be an error. -/
def lift (returned : Except E α) : Program S Op E α := fun _ => ([], returned)

/-- Run a program and continue with what it returned, an error too. -/
def attempt (program : Program S Op E α) : Program S Op E (Except E α) := fun start =>
  ((program start).1, .ok (program start).2)

/-- Run a program for each item in order. -/
def forEach {ι : Type} (items : List ι) (body : ι → Program S Op E Unit) : Program S Op E Unit :=
  match items with
  | [] => Pure.pure ()
  | item :: rest => body item >>= fun _ => forEach rest body

/-- Run a program on a part of the state. -/
def zoom (get : S → T) (set : S → T → S) (tag : Sub → Op) (program : Program T Sub E α) :
    Program S Op E α := fun start =>
  let result := program (get start)
  (result.1.map fun step => (tag step.1, set start step.2), result.2)

end Program

open Program

variable {weaker : α → S → Prop} {stronger : S → Prop} {returned : Except E α} {effect : S → S}
  {next : α → Program S Op E β}

/-- From a state that meets `pre`, every step of a program satisfies `during`; a program that returns ends
in `post`, and one that fails ends in `failed`. -/
structure Triple (pre : S → Prop) (program : Program S Op E α) (during : S → Op → S → Prop)
    (post : α → S → Prop) (failed : E → S → Prop) : Prop where
  steps : ∀ start, pre start → Steps during start (program start).1
  returns : ∀ start value, pre start → (program start).2 = .ok value → post value (after start (program start).1)
  fails : ∀ start error, pre start → (program start).2 = .error error → failed error (after start (program start).1)

section Triple

variable {pre : S → Prop} {during : S → Op → S → Prop} {post : α → S → Prop} {failed : E → S → Prop}
  {program : Program S Op E α} {weakerFailed : E → S → Prop}

theorem Triple.weaken
    (h : Triple pre program during post failed) (hpre : ∀ s, stronger s → pre s)
    (hpost : ∀ value s, post value s → weaker value s) (hfailed : ∀ error s, failed error s → weakerFailed error s) :
    Triple stronger program during weaker weakerFailed :=
  ⟨fun s hs => h.steps s (hpre s hs), fun s value hs hok => hpost value _ (h.returns s value (hpre s hs) hok),
    fun s error hs herror => hfailed error _ (h.fails s error (hpre s hs) herror)⟩

theorem Triple.weakenPre (h : Triple pre program during post failed)
    (hpre : ∀ s, stronger s → pre s) : Triple stronger program during post failed :=
  h.weaken hpre (fun _ _ hs => hs) fun _ _ hs => hs

theorem Triple.weakenPost (h : Triple pre program during post failed)
    (hpost : ∀ value s, post value s → weaker value s) : Triple pre program during weaker failed :=
  h.weaken (fun _ hs => hs) hpost fun _ _ hs => hs

theorem Triple.weakenFailed
    (h : Triple pre program during post failed) (hfailed : ∀ error s, failed error s → weakerFailed error s) :
    Triple pre program during post weakerFailed :=
  h.weaken (fun _ hs => hs) (fun _ _ hs => hs) hfailed

/-- Speak of the steps in weaker terms. -/
theorem Triple.weakenSteps {weaker : S → Op → S → Prop}
    (h : Triple pre program during post failed) (himp : ∀ s op next, during s op next → weaker s op next) :
    Triple pre program weaker post failed :=
  ⟨fun s hs => (h.steps s hs).imp himp, h.returns, h.fails⟩

/-- What every step keeps. -/
theorem Triple.keeping (h : Triple pre program during post failed)
    (hkeeps : ∀ s op next, I s → during s op next → I next) (hpre : ∀ s, stronger s → pre s ∧ I s) :
    Triple stronger program (fun _ _ next => I next) (fun value s => post value s ∧ I s)
      fun error s => failed error s ∧ I s :=
  ⟨fun s hs => (h.steps s (hpre s hs).1).along hkeeps (hpre s hs).2,
    fun s value hs hok => ⟨h.returns s value (hpre s hs).1 hok, (h.steps s (hpre s hs).1).keeps hkeeps (hpre s hs).2⟩,
    fun s error hs herror => ⟨h.fails s error (hpre s hs).1 herror,
      (h.steps s (hpre s hs).1).keeps hkeeps (hpre s hs).2⟩⟩

/-- Name the state a program starts in. -/
theorem Triple.named
    (h : ∀ start, pre start → Triple (fun s => s = start) program during post failed) :
    Triple pre program during post failed :=
  ⟨fun s hs => (h s hs).steps s rfl, fun s value hs => (h s hs).returns s value rfl,
    fun s error hs => (h s hs).fails s error rfl⟩

/-- Split the precondition into a fact that does not look at the state and the rest. -/
theorem Triple.given (fact : Prop) (rest : S → Prop)
    (h : fact → Triple rest program during post failed) (hpre : ∀ s, pre s → fact ∧ rest s) :
    Triple pre program during post failed :=
  ⟨fun s hs => (h (hpre s hs).1).steps s (hpre s hs).2,
    fun s value hs hok => (h (hpre s hs).1).returns s value (hpre s hs).2 hok,
    fun s error hs herror => (h (hpre s hs).1).fails s error (hpre s hs).2 herror⟩

theorem Triple.any :
    Triple pre program (fun _ _ _ => True) (fun _ _ => True) fun _ _ => True :=
  ⟨fun _ _ => steps_true, fun _ _ _ _ => trivial, fun _ _ _ _ => trivial⟩

theorem Triple.pure {value : α} (h : ∀ s, pre s → post value s) :
    Triple pre (Pure.pure value : Program S Op E α) during post failed := by
  refine ⟨fun _ _ => trivial, ?_, fun _ _ _ herror => by cases herror⟩
  intro s other hs hok
  cases hok
  exact h s hs

theorem Triple.fail (error : E) (h : ∀ s, pre s → failed error s) :
    Triple pre (Program.fail error : Program S Op E α) during post failed := by
  refine ⟨fun _ _ => trivial, fun _ _ _ hok => (by cases hok), ?_⟩
  intro s other hs herror
  cases herror
  exact h s hs

theorem Triple.look :
    Triple pre (Program.look : Program S Op E S) during (fun value s => value = s ∧ pre s) failed := by
  refine ⟨fun _ _ => trivial, ?_, fun _ _ _ herror => by cases herror⟩
  intro s value hs hok
  cases hok
  exact ⟨rfl, hs⟩

theorem Triple.lift (h : ∀ s value, pre s → returned = .ok value → post value s)
    (hfailed : ∀ s error, pre s → returned = .error error → failed error s) :
    Triple pre (Program.lift returned : Program S Op E α) during post failed :=
  ⟨fun _ _ => trivial, fun s value hs hok => h s value hs hok, fun s error hs herror => hfailed s error hs herror⟩

theorem Triple.bind {first : Program S Op E α} {middle : α → S → Prop} {post : β → S → Prop}
    (hfirst : Triple pre first during middle failed)
    (hnext : ∀ value, Triple (middle value) (next value) during post failed) :
    Triple pre (first >>= next) during post failed := by
  have hall : ∀ s, pre s → Steps during s ((first >>= next) s).1 ∧
      (∀ value, ((first >>= next) s).2 = .ok value → post value (after s ((first >>= next) s).1)) ∧
      ∀ error, ((first >>= next) s).2 = .error error → failed error (after s ((first >>= next) s).1) := by
    intro s hs
    have hsteps := hfirst.steps s hs
    have hmiddle := fun value => hfirst.returns s value hs
    have hstop := fun error => hfirst.fails s error hs
    change Steps during s (andThen first next s).1 ∧
      (∀ value, (andThen first next s).2 = .ok value → post value (after s (andThen first next s).1)) ∧
      ∀ error, (andThen first next s).2 = .error error → failed error (after s (andThen first next s).1)
    unfold andThen
    cases hrun : first s with
    | mk trace returned =>
      rw [hrun] at hsteps hmiddle hstop
      cases returned with
      | error error =>
        refine ⟨hsteps, fun _ hok => (by cases hok), ?_⟩
        intro other hother
        cases hother
        exact hstop error rfl
      | ok value =>
        simp only [after_append, steps_append]
        have hreach := hmiddle value rfl
        exact ⟨⟨hsteps, (hnext value).steps _ hreach⟩, fun result => (hnext value).returns _ result hreach,
          fun error => (hnext value).fails _ error hreach⟩
  exact ⟨fun s hs => (hall s hs).1, fun s value hs => (hall s hs).2.1 value, fun s error hs => (hall s hs).2.2 error⟩

theorem Triple.perform {op : Op} {post : Unit → S → Prop}
    (h : ∀ s, pre s → during s op (effect s) ∧ post () (effect s)) :
    Triple pre (Program.perform op effect : Program S Op E Unit) during post failed :=
  ⟨fun s hs => ⟨(h s hs).1, trivial⟩, fun s _ hs _ => (h s hs).2, fun _ _ _ herror => by cases herror⟩

/-- Run one program after another through a given middle. -/
theorem Triple.via {first : Program S Op E α} (middle : α → S → Prop) {post : β → S → Prop}
    (hfirst : Triple pre first during middle failed)
    (hnext : ∀ value, Triple (middle value) (next value) during post failed) :
    Triple pre (first >>= next) during post failed := hfirst.bind hnext

/-- Look at the state, and keep what is known of it. -/
theorem Triple.inspect {next : S → Program S Op E β} {post : β → S → Prop}
    (h : ∀ state, pre state → Triple pre (next state) during post failed) :
    Triple pre (Program.look >>= next) during post failed := by
  refine Triple.via (fun value s => value = s ∧ pre s) Triple.look fun value => ?_
  refine Triple.given (pre value) pre (h value) ?_
  rintro s ⟨rfl, hs⟩
  exact ⟨hs, hs⟩

/-- Look at the state a program is known to start in. -/
theorem Triple.lookThen {start : S} {next : S → Program S Op E β} {post : β → S → Prop}
    (h : Triple (fun s => s = start) (next start) during post failed) :
    Triple (fun s => s = start) (Program.look >>= next) during post failed := by
  refine Triple.inspect ?_
  rintro _ rfl
  exact h

/-- Continue with what a computation returned, from where it was made. -/
theorem Triple.liftThen {post : β → S → Prop} (hfailed : ∀ s error, pre s → returned = .error error → failed error s)
    (h : ∀ value, returned = .ok value → Triple pre (next value) during post failed) :
    Triple pre (Program.lift returned >>= next) during post failed := by
  refine Triple.via (fun value s => returned = .ok value ∧ pre s) (Triple.lift (fun s value hs hok => ⟨hok, hs⟩) hfailed) ?_
  intro value
  exact Triple.given (returned = .ok value) pre (h value) fun s hs => hs

/-- An attempt ends where its program ends, and never fails. -/
theorem Triple.attempt {program : Program S Op E α} (h : Triple pre program during post failed)
    {other : E → S → Prop} :
    Triple pre (Program.attempt program) during
      (fun returned s => (∀ value, returned = .ok value → post value s) ∧
        ∀ error, returned = .error error → failed error s) other := by
  refine ⟨h.steps, ?_, fun _ _ _ herror => by cases herror⟩
  intro s returned hs hok
  cases hok
  exact ⟨fun value hvalue => h.returns s value hs hvalue, fun error herror => h.fails s error hs herror⟩

end Triple

/-- What a program does on its way, and what holds if it returns. -/
abbrev Spec (pre : S → Prop) (program : Program S Op E α) (during : S → Op → S → Prop) (post : α → S → Prop) : Prop :=
  Triple pre program during post fun _ _ => True

/-- How a program ends, whatever its steps and its error are. -/
abbrev Ends (pre : S → Prop) (program : Program S Op E α) (post : α → S → Prop) (failed : S → Prop) : Prop :=
  Triple pre program (fun _ _ _ => True) post fun _ => failed

theorem Spec.weaken {pre : S → Prop} {program : Program S Op E α} {during : S → Op → S → Prop} {post : α → S → Prop}
    (h : Spec pre program during post) (hpre : ∀ s, stronger s → pre s)
    (hpost : ∀ value s, post value s → weaker value s) : Spec stronger program during weaker :=
  Triple.weaken h hpre hpost fun _ _ _ => trivial

/-- A program succeeds with a value and in a state. -/
structure Runs (program : Program S Op E α) (start : S) (value : α) (final : S) : Prop where
  returned : (program start).2 = .ok value
  final : after start (program start).1 = final

section Runs

variable {start middle final : S} {value : α}

theorem Runs.pure : Runs (Pure.pure value : Program S Op E α) start value start := ⟨rfl, rfl⟩

theorem Runs.look : Runs (Program.look : Program S Op E S) start start start := ⟨rfl, rfl⟩

theorem Runs.perform (op : Op) (effect : S → S) :
    Runs (Program.perform op effect : Program S Op E Unit) start () (effect start) := ⟨rfl, rfl⟩

theorem Runs.bind {first : Program S Op E α} {result : β} (hfirst : Runs first start value middle)
    (hnext : Runs (next value) middle result final) : Runs (first >>= next) start result final := by
  have hboth : (first >>= next) start = ((first start).1 ++ (next value middle).1, (next value middle).2) := by
    change andThen first next start = _
    unfold andThen
    rw [← hfirst.final]
    cases hrun : first start with
    | mk trace returned =>
      have hok := hfirst.returned
      rw [hrun] at hok
      simp only at hok
      subst hok
      rfl
  refine ⟨?_, ?_⟩
  · rw [hboth]
    exact hnext.returned
  · rw [hboth, after_append, hfirst.final]
    exact hnext.final

end Runs

section Zoom

variable {get : S → T} {set : S → T → S} {tag : Sub → Op} {program : Program T Sub E α} {start : S}

/-- The state after a program on a part of the state. -/
theorem after_zoom (hset : set start (get start) = start) :
    after start (zoom get set tag program start).1 = set start (after (get start) (program (get start)).1) := by
  have hmap : ∀ (trace : List (Sub × T)) (part : T),
      after (set start part) (trace.map fun step => (tag step.1, set start step.2)) =
        set start (after part trace) := by
    intro trace
    induction trace with
    | nil => exact fun _ => rfl
    | cons step trace ih => exact fun _ => ih step.2
  have hall := hmap (program (get start)).1 (get start)
  rw [hset] at hall
  exact hall

/-- The steps of a program on a part of the state. -/
theorem steps_zoom {inner : T → Sub → T → Prop} {during : S → Op → S → Prop} (hset : set start (get start) = start)
    (hstep : ∀ part op next, inner part op next → during (set start part) (tag op) (set start next))
    (hinner : Steps inner (get start) (program (get start)).1) :
    Steps during start (zoom get set tag program start).1 := by
  have hmap : ∀ (trace : List (Sub × T)) (part : T), Steps inner part trace →
      Steps during (set start part) (trace.map fun step => (tag step.1, set start step.2)) := by
    intro trace
    induction trace with
    | nil => exact fun _ _ => trivial
    | cons step trace ih => exact fun part h => ⟨hstep _ _ _ h.1, ih step.2 h.2⟩
  have hall := hmap (program (get start)).1 (get start) hinner
  rw [hset] at hall
  exact hall

/-- Running two programs on a part of the state one after another. -/
theorem zoom_bind (hget : ∀ s t, get (set s t) = t) (hset : ∀ s, set s (get s) = s)
    (hsetset : ∀ s t u, set (set s t) u = set s u) (next : α → Program T Sub E β) :
    zoom get set tag (program >>= next) = zoom get set tag program >>= fun value => zoom get set tag (next value) := by
  funext s
  have hafter : after s (zoom get set tag program s).1 = set s (after (get s) (program (get s)).1) :=
    after_zoom (hset s)
  change zoom get set tag (andThen program next) s =
    andThen (zoom get set tag program) (fun value => zoom get set tag (next value)) s
  unfold andThen
  cases hrun : program (get s) with
  | mk trace returned =>
    have hzoom : zoom get set tag program s = (trace.map fun step => (tag step.1, set s step.2), returned) := by
      simp only [zoom, hrun]
    rw [hzoom, hrun] at hafter
    cases returned with
    | error error => simp only [zoom, hrun]
    | ok value =>
      simp only [hzoom, hafter]
      simp only [zoom, hrun, hget, hsetset, List.map_append]

/-- A program on a part of the state. -/
theorem Triple.zoom (inner : T → Sub → T → Prop) {pre : S → Prop} {during : S → Op → S → Prop} {post : α → S → Prop}
    {failed : E → S → Prop} (hset : ∀ s, set s (get s) = s)
    (hstep : ∀ s, pre s → ∀ part op next, inner part op next → during (set s part) (tag op) (set s next))
    (h : ∀ s, pre s → Triple (· = get s) program inner (fun value part => post value (set s part))
      fun error part => failed error (set s part)) :
    Triple pre (Program.zoom get set tag program) during post failed := by
  refine ⟨fun s hs => steps_zoom (hset s) (hstep s hs) ((h s hs).steps _ rfl), ?_, ?_⟩
  · intro s value hs hok
    rw [after_zoom (hset s)]
    exact (h s hs).returns _ value rfl hok
  · intro s error hs herror
    rw [after_zoom (hset s)]
    exact (h s hs).fails _ error rfl herror

theorem Ends.zoom {pre : S → Prop} {post : α → S → Prop} {failed : S → Prop} (hset : ∀ s, set s (get s) = s)
    (h : ∀ s, pre s → Ends (· = get s) program (fun value part => post value (set s part))
      fun part => failed (set s part)) : Ends pre (Program.zoom get set tag program) post failed :=
  Triple.zoom (fun _ _ _ => True) hset (fun _ _ _ _ _ _ => trivial) h

theorem Runs.zoom {value : α} {final : T} (hset : set start (get start) = start)
    (h : Runs program (get start) value final) :
    Runs (Program.zoom get set tag program) start value (set start final) :=
  ⟨h.returned, by rw [after_zoom hset, h.final]⟩

end Zoom

end Traced
