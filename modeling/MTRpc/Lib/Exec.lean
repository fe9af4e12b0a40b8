import Mathlib.Data.List.Basic
import Mathlib.Logic.Function.Basic

/-!
# Executions of a labelled step relation

A step relation `step s a t` says that the action `a` can take the state `s` to the state
`t`.  An execution is recorded with its history: the states it left, each with the action
taken there.  The rules below are all that the developments over this file use: an invariant
that every admissible step preserves holds at the end of every execution whose steps are
admissible, a property that every inadmissible step breaks holds all along an execution exactly
when its steps are admissible, and an execution of a system that simulates another one is an
execution of the other one with the same actions.
-/

namespace Exec

variable {σ α : Type*}

/-- `Run step s₀ h s`: from `s₀` the actions of the history `h` lead to `s`; the entries of
`h` are the states in which the actions were taken, in order. -/
inductive Run (step : σ → α → σ → Prop) (s₀ : σ) : List (σ × α) → σ → Prop
  | nil : Run step s₀ [] s₀
  | snoc {h : List (σ × α)} {s t : σ} {a : α} :
      Run step s₀ h s → step s a t → Run step s₀ (h ++ [(s, a)]) t

/-- Every step of the history was taken in a state that admits it. -/
def Admits (ok : σ → α → Prop) (h : List (σ × α)) : Prop := ∀ p ∈ h, ok p.1 p.2

/-- Every state of the execution, the last one included, has the property. -/
def Always (P : σ → Prop) (h : List (σ × α)) (s : σ) : Prop := (∀ p ∈ h, P p.1) ∧ P s

variable {step : σ → α → σ → Prop} {s₀ : σ} {h : List (σ × α)} {s : σ}
variable {ok : σ → α → Prop} {Inv P : σ → Prop}

@[simp] lemma admits_nil : Admits ok ([] : List (σ × α)) := by simp [Admits]

@[simp] lemma admits_snoc {a : α} :
    Admits ok (h ++ [(s, a)]) ↔ Admits ok h ∧ ok s a := by
  simp only [Admits, List.mem_append, List.mem_singleton, or_imp, forall_and, forall_eq]

lemma always_snoc {a : α} {t : σ} :
    Always P (h ++ [(s, a)]) t ↔ Always P h s ∧ P t := by
  simp only [Always, List.mem_append, List.mem_singleton, or_imp, forall_and, forall_eq]

lemma Always.last (hP : Always P h s) : P s := hP.2

/-- The invariant rule: what the start has and every admissible step preserves holds at
the end of every execution with admissible steps. -/
theorem Run.invariant (h0 : Inv s₀)
    (hstep : ∀ s a t, Inv s → ok s a → step s a t → Inv t)
    (hrun : Run step s₀ h s) (hok : Admits ok h) : Inv s := by
  induction hrun with
  | nil => exact h0
  | snoc _ hst ih =>
    obtain ⟨hok, hlast⟩ := admits_snoc.mp hok
    exact hstep _ _ _ (ih hok) hlast hst

/-- The invariant rule for all states of the execution. -/
theorem Run.always {I : σ → Prop} (h0 : I s₀)
    (hstep : ∀ s a t, I s → ok s a → step s a t → I t)
    (hrun : Run step s₀ h s) (hok : Admits ok h) : Always I h s := by
  induction hrun with
  | nil => exact ⟨by simp, h0⟩
  | snoc hr hst ih =>
    obtain ⟨hok, hlast⟩ := admits_snoc.mp hok
    exact always_snoc.mpr ⟨ih hok, hstep _ _ _ (ih hok).last hlast hst⟩

/-- The exact rule: when admissible steps preserve an invariant that implies `P`, and a
step that is not admissible leaves a state without `P`, then `P` holds in every state of an
execution if and only if all its steps are admissible. -/
theorem Run.always_iff (h0 : Inv s₀) (hInvP : ∀ s, Inv s → P s)
    (hstep : ∀ s a t, Inv s → ok s a → step s a t → Inv t)
    (hbad : ∀ s a t, Inv s → ¬ ok s a → step s a t → ¬ P t)
    (hrun : Run step s₀ h s) : Always P h s ↔ Admits ok h := by
  constructor
  · intro hP
    induction hrun with
    | nil => exact admits_nil
    | snoc hr hst ih =>
      obtain ⟨hP, hlast⟩ := always_snoc.mp hP
      have hok := ih hP
      refine admits_snoc.mpr ⟨hok, ?_⟩
      by_contra hno
      exact hbad _ _ _ (hr.invariant h0 hstep hok) hno hst hlast
  · intro hok
    have hInv := hrun.always h0 hstep hok
    exact ⟨fun p hp => hInvP _ (hInv.1 p hp), hInvP _ hInv.2⟩

/-- The invariant rule for all states where every step is admissible. -/
theorem Run.always_all (h0 : Inv s₀) (hstep : ∀ s a t, Inv s → step s a t → Inv t)
    (hrun : Run step s₀ h s) : Always Inv h s := by
  have hok : Admits (fun _ _ => True) h := fun _ _ => trivial
  exact hrun.always h0 (fun s a t hs _ hst => hstep s a t hs hst) hok

/-- The rule without admissibility: an invariant of every step holds in every state. -/
theorem Run.invariant_all (Inv : σ → Prop) (h0 : Inv s₀)
    (hstep : ∀ s a t, Inv s → step s a t → Inv t) (hrun : Run step s₀ h s) : Inv s := by
  induction hrun with
  | nil => exact h0
  | snoc _ hst ih => exact hstep _ _ _ ih hst

/-- One execution after another. -/
lemma Run.trans {h' : List (σ × α)} {t : σ} (hrun : Run step s₀ h s) (hnext : Run step s h' t) :
    Run step s₀ (h ++ h') t := by
  induction hnext with
  | nil => rwa [List.append_nil]
  | snoc _ hst ih =>
    rw [← List.append_assoc]
    exact ih.snoc hst

/-- The execution up to an entry of its history. -/
lemma Run.before {h₁ h₂ : List (σ × α)} {r : σ} {a : α} (hrun : Run step s₀ h s)
    (heq : h = h₁ ++ (r, a) :: h₂) : Run step s₀ h₁ r := by
  induction hrun generalizing h₂ with
  | nil => simp at heq
  | @snoc h s t b hr _ ih =>
    rcases List.eq_nil_or_concat h₂ with rfl | ⟨h₂, p, rfl⟩
    · obtain ⟨rfl, hlast⟩ := List.append_inj' heq rfl
      cases hlast
      exact hr
    · rw [List.concat_eq_append, ← List.cons_append, ← List.append_assoc] at heq
      exact ih (List.append_inj' heq rfl).1

/-- Every entry of a history is a step that could be taken. -/
lemma Run.enabled (hrun : Run step s₀ h s) : ∀ p ∈ h, ∃ t, step p.1 p.2 t := by
  induction hrun with
  | nil => simp
  | snoc _ hst ih =>
    intro p hp
    rcases List.mem_append.mp hp with hp | hp
    · exact ih p hp
    · rw [List.mem_singleton.mp hp]
      exact ⟨_, hst⟩

/-- The simulation rule: when every step from a state that shows an abstract one is a step of the
abstract state with the same action, every execution is one of the abstract states with the same
actions. -/
theorem Run.simulates {τ : Type*} {step' : τ → α → τ → Prop} {t₀ : τ} {Shows : σ → τ → Prop}
    (h0 : Shows s₀ t₀)
    (hstep : ∀ s t a s', Shows s t → step s a s' → ∃ t', step' t a t' ∧ Shows s' t')
    (hrun : Run step s₀ h s) :
    ∃ h' t, Run step' t₀ h' t ∧ h'.map Prod.snd = h.map Prod.snd ∧ Shows s t := by
  induction hrun with
  | nil => exact ⟨[], t₀, .nil, rfl, h0⟩
  | @snoc h s s' a _ hst ih =>
    obtain ⟨h', t, hrun', hacts, hs⟩ := ih
    obtain ⟨t', hst', hs'⟩ := hstep s t a s' hs hst
    refine ⟨h' ++ [(t, a)], t', hrun'.snoc hst', ?_, hs'⟩
    rw [List.map_append, List.map_append, hacts]
    rfl

/-! ## Scripts -/

section

variable (act : σ → α → σ)

/-- The history of a script, whose actions can depend on the state they find. -/
def trace : σ → List (σ → α) → List (σ × α)
  | _, [] => []
  | s, f :: fs => (s, f s) :: trace (act s (f s)) fs

/-- The state at the end of a script. -/
def final (s : σ) (script : List (σ → α)) : σ := script.foldl (fun s f => act s (f s)) s

variable {act}

/-- A script whose actions can be taken is an execution. -/
lemma Run.script {enabled : σ → α → Prop} (fs : List (σ → α))
    (hen : Admits enabled (trace act s₀ fs)) :
    Run (fun s a t => enabled s a ∧ t = act s a) s₀ (trace act s₀ fs) (final act s₀ fs) := by
  suffices hgen : ∀ {h : List (σ × α)} {s : σ},
      Run (fun s a t => enabled s a ∧ t = act s a) s₀ h s → Admits enabled (trace act s fs) →
        Run (fun s a t => enabled s a ∧ t = act s a) s₀ (h ++ trace act s fs) (final act s fs) by
    simpa using hgen .nil hen
  clear hen
  induction fs with
  | nil =>
    intro h s hrun _
    simpa [trace, final] using hrun
  | cons f fs ih =>
    intro h s hrun hen
    rw [trace, Admits, List.forall_mem_cons] at hen
    have hnext := ih (hrun.snoc ⟨hen.1, rfl⟩) hen.2
    simpa [trace, final, List.append_assoc] using hnext

end

/-! ## Families of threads -/

section

variable {ι β : Type*} [DecidableEq ι] {P : β → Prop} {f : ι → β} {i : ι} {b : β}

/-- A thread with a property is left when one thread moves, unless that thread loses it. -/
lemma exists_update (hex : ∃ j, P (f j)) (hi : P (f i) → P b) :
    ∃ j, P (Function.update f i b j) := by
  obtain ⟨j, hj⟩ := hex
  refine ⟨j, ?_⟩
  by_cases hji : j = i
  · subst hji
    rw [Function.update_self]
    exact hi hj
  · rw [Function.update_of_ne hji]
    exact hj

lemma exists_update_self (hb : P b) : ∃ j, P (Function.update f i b j) :=
  ⟨i, by rwa [Function.update_self]⟩

end

end Exec
