import Mathlib.Data.Nat.Basic
import Mathlib.Data.Option.Basic

/-!
# Loops with a bounded number of turns

A loop of the source is a function of the number of turns that it may take, and has no result when
they are used up.  With more turns it has the same result (`Grows`): what it does does not depend on
the number, and it comes to an end when it does for some number.
-/

namespace Fuel

variable {α β : Type*} {x y : Option α} {f g : α → Option β}

/-- The result of `x`, if there is one, is that of `y`. -/
def Le (x y : Option α) : Prop := ∀ a, x = some a → y = some a

lemma Le.refl : Le x x := fun _ h => h

lemma le_none : Le none x := fun _ h => nomatch h

lemma Le.bind (hx : Le x y) (hf : ∀ a, Le (f a) (g a)) : Le (x.bind f) (y.bind g) := by
  intro b hb
  obtain ⟨a, ha, hfa⟩ := Option.bind_eq_some_iff.mp hb
  rw [hx a ha]
  exact hf a b hfa

lemma Le.map {h : α → β} (hx : Le x y) : Le (x.map h) (y.map h) := by
  intro b hb
  obtain ⟨a, ha, rfl⟩ := Option.map_eq_some_iff.mp hb
  rw [hx a ha, Option.map_some]

lemma Le.ite {c : Prop} [Decidable c] {x' y' : Option α} (hx : Le x y) (hx' : Le x' y') :
    Le (if c then x else x') (if c then y else y') := by
  split
  · exact hx
  · exact hx'

/-- More turns do not change the result. -/
def Grows (F : ℕ → Option α) : Prop := ∀ n, Le (F n) (F (n + 1))

variable {F G : ℕ → Option α}

lemma Grows.le (hF : Grows F) {n k : ℕ} (hk : n ≤ k) : Le (F n) (F k) := by
  induction hk with
  | refl => exact .refl
  | step _ ih => exact fun a ha => hF _ a (ih a ha)

lemma grows_const : Grows fun _ => x := fun _ => .refl

lemma Grows.bind {H : α → ℕ → Option β} (hF : Grows F) (hH : ∀ a, Grows (H a)) :
    Grows fun n => (F n).bind (H · n) :=
  fun n => (hF n).bind fun a => hH a n

lemma Grows.map {h : α → β} (hF : Grows F) : Grows fun n => (F n).map h := fun n => (hF n).map

lemma Grows.ite {c : Prop} [Decidable c] (hF : Grows F) (hG : Grows G) :
    Grows fun n => if c then F n else G n :=
  fun n => (hF n).ite (hG n)

/-- The result is the same for every number of turns that has one. -/
lemma Grows.unique (hF : Grows F) {n k : ℕ} {a b : α} (ha : F n = some a) (hb : F k = some b) :
    a = b := by
  have hn := hF.le (le_max_left n k) a ha
  have hk := hF.le (le_max_right n k) b hb
  exact Option.some.inj (hn.symm.trans hk)

end Fuel
