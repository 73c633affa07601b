import Mathlib.Data.List.Basic

/-!
# Computations that open files

A reading is a computation that may fail, with the names it opened on the way. Erasing the names gives the
plain computation. `Opens` says which names a reading opens: never another one, and all of them once it returns.
-/

/-- The names a computation opened, and what it returned. -/
structure Reading (N E α : Type) where
  opened : List N
  result : Except E α

namespace Reading

variable {N E α β : Type}

/-- Go on with what a reading returned. A failure stops both. -/
def andThen (first : Reading N E α) (next : α → Reading N E β) : Reading N E β :=
  match first.result with
  | .error error => ⟨first.opened, .error error⟩
  | .ok value => ⟨first.opened ++ (next value).opened, (next value).result⟩

instance : Monad (Reading N E) where
  pure value := ⟨[], .ok value⟩
  bind := andThen

/-- Open one name. -/
def openFile (name : N) : Reading N E Unit := ⟨[name], .ok ()⟩

/-- A computation that opens nothing. -/
def lift (returned : Except E α) : Reading N E α := ⟨[], returned⟩

/-- Go on without the value of a reading that failed. -/
def orNone (reading : Reading N E α) : Reading N E (Option α) := ⟨reading.opened, .ok reading.result.toOption⟩

@[simp] theorem pure_result (value : α) : (pure value : Reading N E α).result = .ok value := rfl

@[simp] theorem lift_result (returned : Except E α) : (lift returned : Reading N E α).result = returned := rfl

@[simp] theorem openFile_result (name : N) : (openFile name : Reading N E Unit).result = .ok () := rfl

@[simp] theorem orNone_result (reading : Reading N E α) : reading.orNone.result = .ok reading.result.toOption := rfl

/-- The plain computation of a sequence. -/
@[simp] theorem bind_result (first : Reading N E α) (next : α → Reading N E β) :
    (first >>= next).result = first.result >>= fun value => (next value).result := by
  change (andThen first next).result = _
  unfold andThen
  cases first.result <;> rfl

/-- A reading opens only listed names, and one that returns has opened all of them. -/
structure Opens (listed : List N) (reading : Reading N E α) : Prop where
  within : ∀ name ∈ reading.opened, name ∈ listed
  covers : ∀ value, reading.result = .ok value → ∀ name ∈ listed, name ∈ reading.opened

variable {first reading : Reading N E α} {next : α → Reading N E β} {listed further : List N}

theorem opens_lift (returned : Except E α) : Opens [] (lift returned : Reading N E α) :=
  ⟨fun _ hname => hname, fun _ _ _ hname => hname⟩

theorem opens_pure (value : α) : Opens [] (pure value : Reading N E α) := opens_lift (.ok value)

theorem opens_error (listed : List N) (error : E) : Opens listed (lift (.error error) : Reading N E α) :=
  ⟨fun _ hname => absurd hname List.not_mem_nil, fun _ hok => by cases hok⟩

theorem opens_openFile (name : N) : Opens [name] (openFile name : Reading N E Unit) :=
  ⟨fun _ hname => hname, fun _ _ _ hname => hname⟩

theorem Opens.orNone {value : α} (h : Opens listed reading) (hok : reading.result = .ok value) :
    Opens listed reading.orNone :=
  ⟨h.within, fun _ _ => h.covers value hok⟩

theorem Opens.bind (hfirst : Opens listed first)
    (hnext : ∀ value, first.result = .ok value → Opens further (next value)) :
    Opens (listed ++ further) (first >>= next) := by
  constructor
  · intro name hname
    change name ∈ (andThen first next).opened at hname
    unfold andThen at hname
    split at hname
    next => exact List.mem_append_left _ (hfirst.within name hname)
    next value hvalue =>
      exact List.mem_append.mpr ((List.mem_append.mp hname).imp (hfirst.within name) ((hnext value hvalue).within name))
  · intro result hr name hname
    rw [bind_result] at hr
    change name ∈ (andThen first next).opened
    unfold andThen
    cases hvalue : first.result with
    | error error =>
      rw [hvalue] at hr
      cases hr
    | ok value =>
      rw [hvalue] at hr
      exact List.mem_append.mpr ((List.mem_append.mp hname).imp (hfirst.covers value hvalue name)
        ((hnext value hvalue).covers result hr name))

theorem Opens.map (h : Opens listed first) (f : α → β) : Opens listed (do return f (← first)) :=
  List.append_nil listed ▸ h.bind fun _ _ => opens_pure _

end Reading
