/- digest: Runs of a machine whose step may be disabled; calls that may fail. -/

import Mathlib.Data.List.Induction

namespace Cosmix.Lib

variable {S A : Type}

/-- The state after a run; none when a step of it is disabled. -/
def runFrom (step : S → A → Option S) (s : S) : List A → Option S
  | [] => some s
  | a :: acts => (step s a).bind fun s' => runFrom step s' acts

/-- Every step of a run that is taken meets a condition on the state before it. -/
def Guarded (step : S → A → Option S) (ok : S → A → Prop) : S → List A → Prop
  | _, [] => True
  | s, a :: acts => ok s a ∧ ∀ s', step s a = some s' → Guarded step ok s' acts

/-- Whether a condition that can be computed holds before every step of a run. -/
def checkRun (step : S → A → Option S) (ok : S → A → Bool) : S → List A → Bool
  | _, [] => true
  | s, a :: acts => ok s a && (step s a).all fun s' => checkRun step ok s' acts

/-- What a step comes to has a property; a disabled step comes to nothing. -/
abbrev Yields (P : S → Prop) : Option S → Prop
  | none => True
  | some s => P s

@[elab_as_elim]
theorem Yields.elim {P : S → Prop} {o : Option S} {s : S} (heq : o = some s) (h : Yields P o) :
    P s := by
  rwa [heq] at h

@[elab_as_elim]
theorem Yields.elim₂ {B : Type} {P : S → B → Prop} {o : Option (S × B)} {s : S} {b : B}
    (heq : o = some (s, b)) (h : Yields (fun x => P x.1 x.2) o) : P s b := by
  rwa [heq] at h

theorem Yields.guarded {P : S → Prop} {p : Prop} [Decidable p] {x : S} (h : p → P x) :
    Yields P (if p then some x else none) := by
  split
  · exact h ‹p›
  · trivial

theorem Yields.map {B : Type} {P : B → Prop} {o : Option S} {f : S → B}
    (h : ∀ s, o = some s → P (f s)) : Yields P (o.map f) := by
  cases o with
  | none => trivial
  | some s => exact h s rfl

theorem of_guarded {p : Prop} [Decidable p] {x y : S} (h : (if p then some x else none) = some y) :
    p ∧ x = y := by
  split at h
  · exact ⟨‹p›, Option.some.inj h⟩
  · cases h

variable {step : S → A → Option S} {acts : List A} {ok : S → A → Prop} {s : S} {P : S → Prop}

theorem guarded_of_forall {ok : A → Prop} (s : S) (h : ∀ a ∈ acts, ok a) :
    Guarded step (fun _ a => ok a) s acts := by
  induction acts generalizing s with
  | nil => trivial
  | cons a acts ih =>
    exact ⟨h a List.mem_cons_self, fun s' _ => ih s' fun x hx => h x (List.mem_cons_of_mem a hx)⟩

theorem Guarded.and {ok' : S → A → Prop} (h : Guarded step ok s acts)
    (h' : Guarded step ok' s acts) : Guarded step (fun s a => ok s a ∧ ok' s a) s acts := by
  induction acts generalizing s with
  | nil => trivial
  | cons a acts ih => exact ⟨⟨h.1, h'.1⟩, fun s₁ hs₁ => ih (h.2 s₁ hs₁) (h'.2 s₁ hs₁)⟩

theorem guarded_of_checkRun {test : S → A → Bool} (htest : ∀ s a, test s a = true → ok s a)
    (h : checkRun step test s acts = true) : Guarded step ok s acts := by
  induction acts generalizing s with
  | nil => trivial
  | cons a acts ih =>
    obtain ⟨hhere, hrest⟩ := Bool.and_eq_true_iff.mp h
    refine ⟨htest s a hhere, fun s' hs' => ih ?_⟩
    rw [hs'] at hrest
    exact hrest

theorem runFrom_guarded (hstep : ∀ s a s', P s → ok s a → step s a = some s' → P s') {s' : S}
    (hP : P s) (hok : Guarded step ok s acts) (hrun : runFrom step s acts = some s') : P s' := by
  induction acts generalizing s with
  | nil =>
    cases hrun
    exact hP
  | cons a acts ih =>
    obtain ⟨s₁, hs₁, hrun⟩ := Option.bind_eq_some_iff.mp hrun
    exact ih (hstep s a s₁ hP hok.1 hs₁) (hok.2 s₁ hs₁) hrun

theorem exists_runFrom_guarded (hstep : ∀ s a, P s → ok s a → ∃ s', step s a = some s' ∧ P s')
    (hP : P s) (hok : Guarded step ok s acts) : ∃ s', runFrom step s acts = some s' ∧ P s' := by
  induction acts generalizing s with
  | nil => exact ⟨s, rfl, hP⟩
  | cons a acts ih =>
    obtain ⟨s₁, hs₁, hP₁⟩ := hstep s a hP hok.1
    obtain ⟨s', hrun, hP'⟩ := ih hP₁ (hok.2 s₁ hs₁)
    exact ⟨s', by rw [runFrom, hs₁]; exact hrun, hP'⟩

theorem runFrom_invariant (hstep : ∀ s a s', P s → step s a = some s' → P s') {s' : S} (hP : P s)
    (hrun : runFrom step s acts = some s') : P s' := by
  have hok : Guarded step (fun _ _ => True) s acts := guarded_of_forall s fun _ _ => trivial
  exact runFrom_guarded (fun s a s' h _ => hstep s a s' h) hP hok hrun

section

variable {ε α β : Type}

theorem bind_eq_ok {x : Except ε α} {f : α → Except ε β} {b : β} :
    (x >>= f) = .ok b ↔ ∃ a, x = .ok a ∧ f a = .ok b := by
  cases x with
  | ok a => exact ⟨fun h => ⟨a, rfl, h⟩, fun ⟨_, ha, h⟩ => Except.ok.inj ha ▸ h⟩
  | error => exact iff_of_false nofun nofun

theorem mapM_ok {f : α → Except ε β} {g : α → β} {l : List α} (h : ∀ a ∈ l, f a = .ok (g a)) :
    l.mapM f = .ok (l.map g) := by
  induction l with
  | nil => rfl
  | cons a l ih =>
    rw [List.mapM_cons, h a List.mem_cons_self, ih fun b hb => h b (List.mem_cons_of_mem a hb)]
    rfl

end

end Cosmix.Lib
