import Mathlib.Data.Set.Card

/-!
# Tokens in places

Each place of a system is empty or holds one token.  `held c t` is the number of places that hold
the token `t`.  What a step does to it follows from the one place whose contents it changes: a token
that is put into an empty place is held once more, a token that is taken out once less, and a token
that goes from one place to another, empty one as often as before.
-/

namespace Held

variable {ι τ : Type*} [DecidableEq ι] [DecidableEq τ]

/-- The number of times that a place holds the token. -/
def one (o : Option τ) (t : τ) : ℕ := if o = some t then 1 else 0

/-- The number of places that hold the token. -/
noncomputable def held (c : ι → Option τ) (t : τ) : ℕ∞ := {x | c x = some t}.encard

variable {c : ι → Option τ} {x y : ι} {o : Option τ} {t : τ}

omit [DecidableEq ι] in
@[simp] lemma one_none : one (none : Option τ) t = 0 := rfl

omit [DecidableEq ι] in
lemma one_some (u : τ) : one (some u) t = [u].count t := by
  by_cases hut : u = t <;> simp [one, hut]

omit [DecidableEq ι] [DecidableEq τ] in
/-- Nothing is held when all places are empty. -/
lemma held_empty (h : ∀ x, c x = none) : held c t = 0 := by
  rw [held, Set.encard_eq_zero]
  ext x
  simp [h x]

/-- A place gets other contents. -/
lemma held_update (c : ι → Option τ) (x : ι) (o : Option τ) (t : τ) :
    held (Function.update c x o) t + one (c x) t = held c t + one o t := by
  -- the places other than `x`
  have hothers : ∀ o : Option τ, held (Function.update c x o) t
      = {y | y ≠ x ∧ c y = some t}.encard + one o t := by
    intro o
    by_cases ho : o = some t
    · have hset : {y | Function.update c x o y = some t}
          = insert x {y | y ≠ x ∧ c y = some t} := by
        ext y
        by_cases hy : y = x
        · simp [hy, ho]
        · simp [hy]
      rw [held, hset, Set.encard_insert_of_notMem (by simp), one, if_pos ho]
      rfl
    · have hset : {y | Function.update c x o y = some t} = {y | y ≠ x ∧ c y = some t} := by
        ext y
        by_cases hy : y = x
        · simp [hy, ho]
        · simp [hy]
      rw [held, hset, one, if_neg ho, Nat.cast_zero, add_zero]
  have hold : held c t = {y | y ≠ x ∧ c y = some t}.encard + one (c x) t := by
    rw [← hothers, Function.update_eq_self]
  rw [hothers, hold, add_right_comm]

/-- A token is put into an empty place. -/
lemma held_put (hx : c x = none) (o : Option τ) (t : τ) :
    held (Function.update c x o) t = held c t + one o t := by
  have h := held_update c x o t
  rwa [hx, one_none, Nat.cast_zero, add_zero] at h

/-- A place is emptied. -/
lemma held_take (c : ι → Option τ) (x : ι) (t : τ) :
    held (Function.update c x none) t + one (c x) t = held c t := by
  have h := held_update c x none t
  rwa [one_none, Nat.cast_zero, add_zero] at h

/-- The contents of a place go to another one, which was empty. -/
lemma held_move (hxy : y ≠ x) (hy : c y = none) (t : τ) :
    held (Function.update (Function.update c x none) y (c x)) t = held c t := by
  have hempty : Function.update c x none y = none := by rw [Function.update_of_ne hxy, hy]
  rw [held_put hempty, held_take]

/-- The contents of a place go to another one. -/
lemma held_move_le (c : ι → Option τ) (x y : ι) (t : τ) :
    held (Function.update (Function.update c x none) y (c x)) t ≤ held c t := by
  have h := held_update (Function.update c x none) y (c x) t
  rw [held_take] at h
  exact h ▸ le_self_add

end Held
