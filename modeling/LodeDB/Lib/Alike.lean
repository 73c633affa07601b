import LodeDB.Lib.Traced

/-!
# Two runs side by side

A relational rule for programs that run in steps: from related states two programs return the same, and where
they return a value they end in related states.
-/

namespace Traced

open Program

variable {S Op E α β : Type}

/-- From states related by `pre`, two programs return alike, and with a value end in states related by `post`. -/
structure Alike (pre : S → S → Prop) (first second : Program S Op E α) (post : α → S → S → Prop) : Prop where
  returned : ∀ s t, pre s t → (first s).2 = (second t).2
  ends : ∀ s t value, pre s t → (first s).2 = .ok value → post value (after s (first s).1) (after t (second t).1)

variable {pre : S → S → Prop}

variable {post : α → S → S → Prop}

theorem Alike.pure {value : α} (h : ∀ s t, pre s t → post value s t) :
    Alike pre (Pure.pure value : Program S Op E α) (Pure.pure value) post := by
  refine ⟨fun _ _ _ => rfl, ?_⟩
  intro s t other hpre hok
  cases hok
  exact h s t hpre

theorem Alike.perform {op : Op} {effect : S → S} {post : Unit → S → S → Prop}
    (h : ∀ s t, pre s t → post () (effect s) (effect t)) :
    Alike pre (Program.perform op effect : Program S Op E Unit) (Program.perform op effect) post :=
  ⟨fun _ _ _ => rfl, fun s t _ hpre _ => h s t hpre⟩

variable {first second : Program S Op E α}

theorem Alike.weaken {stronger : S → S → Prop} (h : Alike pre first second post)
    (hpre : ∀ s t, stronger s t → pre s t) : Alike stronger first second post :=
  ⟨fun s t hs => h.returned s t (hpre s t hs), fun s t value hs => h.ends s t value (hpre s t hs)⟩

/-- Two programs that succeed with one value. -/
theorem Alike.runs (h : ∀ s t, pre s t → ∃ value final other, Runs first s value final ∧ Runs second t value other ∧
      post value final other) : Alike pre first second post := by
  refine ⟨fun s t hpre => ?_, fun s t value hpre hok => ?_⟩
  · obtain ⟨value, final, other, hfirst, hsec, -⟩ := h s t hpre
    rw [hfirst.returned, hsec.returned]
  · obtain ⟨returned, final, other, hfirst, hsec, hpost⟩ := h s t hpre
    rw [hfirst.returned] at hok
    obtain rfl := Except.ok.inj hok
    rw [hfirst.final, hsec.final]
    exact hpost

/-- Two programs that fail with one error. -/
theorem Alike.fails (error : E) (h : ∀ s t, pre s t → (first s).2 = .error error ∧ (second t).2 = .error error) :
    Alike pre first second post := by
  refine ⟨fun s t hpre => (h s t hpre).1.trans (h s t hpre).2.symm, fun s t value hpre hok => ?_⟩
  rw [(h s t hpre).1] at hok
  cases hok

/-- Look at each state, and go on from there. -/
theorem Alike.lookThen {first second : S → Program S Op E β} {post : β → S → S → Prop}
    (h : ∀ s t, pre s t → Alike (fun start other => start = s ∧ other = t) (first s) (second t) post) :
    Alike pre (Program.look >>= first) (Program.look >>= second) post :=
  ⟨fun s t hpre => (h s t hpre).returned s t ⟨rfl, rfl⟩, fun s t value hpre => (h s t hpre).ends s t value ⟨rfl, rfl⟩⟩

variable {next other : α → Program S Op E β}

theorem Alike.bind {middle : α → S → S → Prop} {post : β → S → S → Prop} (hfirst : Alike pre first second middle)
    (hnext : ∀ value, Alike (middle value) (next value) (other value) post) :
    Alike pre (first >>= next) (second >>= other) post := by
  have hboth : ∀ s t, pre s t → ((first >>= next) s).2 = ((second >>= other) t).2 ∧
      ∀ value, ((first >>= next) s).2 = .ok value →
        post value (after s ((first >>= next) s).1) (after t ((second >>= other) t).1) := by
    intro s t hpre
    have hret := hfirst.returned s t hpre
    have hends := fun value => hfirst.ends s t value hpre
    change (andThen first next s).2 = (andThen second other t).2 ∧ ∀ value, (andThen first next s).2 = .ok value →
      post value (after s (andThen first next s).1) (after t (andThen second other t).1)
    unfold andThen
    cases hrun : first s with
    | mk trace result =>
      cases hother : second t with
      | mk otherTrace otherResult =>
        rw [hrun, hother] at hret hends
        dsimp only at hret hends
        subst hret
        cases result with
        | error error => exact ⟨rfl, fun _ hok => (by cases hok)⟩
        | ok value =>
          simp only [after_append]
          exact ⟨(hnext value).returned _ _ (hends value rfl), fun result => (hnext value).ends _ _ result (hends value rfl)⟩
  exact ⟨fun s t hpre => (hboth s t hpre).1, fun s t value hpre => (hboth s t hpre).2 value⟩

/-- Run one program after another through a given middle. -/
theorem Alike.via (middle : α → S → S → Prop) {post : β → S → S → Prop} (hfirst : Alike pre first second middle)
    (hnext : ∀ value, Alike (middle value) (next value) (other value) post) :
    Alike pre (first >>= next) (second >>= other) post := hfirst.bind hnext

end Traced
