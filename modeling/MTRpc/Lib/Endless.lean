import MTRpc.Lib.Exec
import Mathlib.Order.WellFounded

/-!
# Executions without an end

An endless execution takes a step from each of its states.  What a party does in it comes to an end
when a rank says how much the party has ahead: no step raises the rank, and the steps of the party
lower it (`finitely_many`).
-/

namespace Exec

variable {σ α β : Type*} {step : σ → α → σ → Prop} {states : ℕ → σ} {acts : ℕ → α}

/-- The actions lead from each state to the next one. -/
def Endless (step : σ → α → σ → Prop) (states : ℕ → σ) (acts : ℕ → α) : Prop :=
  ∀ n, step (states n) (acts n) (states (n + 1))

/-- The invariant rule, where every step is admissible. -/
lemma Endless.invariant (Inv : σ → Prop) {ok : σ → α → Prop} (hrun : Endless step states acts)
    (h0 : Inv (states 0)) (hok : ∀ n, ok (states n) (acts n))
    (hstep : ∀ s a t, Inv s → ok s a → step s a t → Inv t) (n : ℕ) : Inv (states n) := by
  induction n with
  | zero => exact h0
  | succ n ih => exact hstep _ _ _ ih (hok n) (hrun n)

/-- The rule without admissibility. -/
lemma Endless.invariant_all (Inv : σ → Prop) (hrun : Endless step states acts)
    (h0 : Inv (states 0)) (hstep : ∀ s a t, Inv s → step s a t → Inv t) (n : ℕ) :
    Inv (states n) := by
  induction n with
  | zero => exact h0
  | succ n ih => exact hstep _ _ _ ih (hrun n)

/-- A rank that no step raises is lowered finitely often. -/
theorem finitely_many [Preorder β] [WellFoundedLT β] {rank : ℕ → β} {own : ℕ → Prop}
    (hle : ∀ n, rank (n + 1) ≤ rank n) (hlt : ∀ n, own n → rank (n + 1) < rank n) :
    ∃ n, ∀ m, n ≤ m → ¬ own m := by
  -- the rank is lowest somewhere
  obtain ⟨_, ⟨n, rfl⟩, hmin⟩ := wellFounded_lt.has_min (Set.range rank) ⟨_, 0, rfl⟩
  refine ⟨n, ?_⟩
  intro m hm hown
  have hanti : Antitone rank := antitone_nat_of_succ_le hle
  exact hmin _ ⟨m + 1, rfl⟩ ((hlt m hown).trans_le (hanti hm))

end Exec
