import Mathlib.Data.List.Basic

/-!
# A buffer of bounded size

A buffer is the list of its cells.  `store` writes values from a position on; it has no result
when a cell behind the end would be written.
-/

namespace Memory

variable {α : Type*} {m m' : List α} {p q : ℕ} {s t : List α}

/-- Writes the values `s` from position `p` on. -/
def store (m : List α) (p : ℕ) (s : List α) : Option (List α) :=
  if p + s.length ≤ m.length then some (m.take p ++ s ++ m.drop (p + s.length)) else none

/-- The cells from `p` to `q`, the latter excluded, in the opposite order. -/
def reverse (m : List α) (p q : ℕ) : List α :=
  m.take p ++ ((m.take q).drop p).reverse ++ m.drop q

lemma store_eq_some :
    store m p s = some m' ↔
      p + s.length ≤ m.length ∧ m' = m.take p ++ s ++ m.drop (p + s.length) := by
  rw [store]
  split_ifs with hfit
  · simp [hfit, eq_comm]
  · simp [hfit]

lemma store_eq_none : store m p s = none ↔ m.length < p + s.length := by
  rw [store]
  split_ifs with hfit <;> simp <;> omega

/-- A buffer in which `n` cells fit from position `p` on. -/
lemma exists_split {n : ℕ} (hfit : p + n ≤ m.length) :
    ∃ a c d, m = a ++ c ++ d ∧ a.length = p ∧ c.length = n := by
  refine ⟨m.take p, (m.drop p).take n, m.drop (p + n), ?_, ?_, ?_⟩
  · rw [List.append_assoc, ← List.drop_drop, List.take_append_drop, List.take_append_drop]
  · rw [List.length_take_of_le (by omega)]
  · rw [List.length_take_of_le (by rw [List.length_drop]; omega)]

/-- What `store` makes of the parts of a buffer. -/
lemma store_split (a : List α) {c : List α} (d : List α) (hc : c.length = s.length) :
    store (a ++ c ++ d) a.length s = some (a ++ s ++ d) := by
  have hlen : (a ++ c).length = a.length + s.length := by rw [List.length_append, hc]
  rw [store_eq_some, ← hlen, List.drop_left, List.append_assoc a c, List.take_left]
  exact ⟨by simp, rfl⟩

/-- What is written one after the other is written at once. -/
lemma store_append :
    store m p (s ++ t) = (store m p s).bind fun m' => store m' (p + s.length) t := by
  by_cases hst : p + (s ++ t).length ≤ m.length
  · rw [List.length_append] at hst
    obtain ⟨a, c, d, rfl, rfl, hc⟩ := exists_split hst
    obtain ⟨c₁, c₂, rfl, hc₁, hc₂⟩ :
        ∃ c₁ c₂, c = c₁ ++ c₂ ∧ c₁.length = s.length ∧ c₂.length = t.length :=
      ⟨c.take s.length, c.drop s.length, (List.take_append_drop _ _).symm,
        List.length_take_of_le (by omega), by rw [List.length_drop]; omega⟩
    rw [store_split a d (by simp [hc₁, hc₂]),
      show a ++ (c₁ ++ c₂) ++ d = a ++ c₁ ++ (c₂ ++ d) by simp, store_split a _ hc₁,
      Option.bind_some, ← List.append_assoc (a ++ s), ← List.length_append,
      store_split (a ++ s) d hc₂, List.append_assoc a s]
  · rw [store_eq_none.mpr (by omega)]
    rw [List.length_append] at hst
    by_cases hs : p + s.length ≤ m.length
    · obtain ⟨a, c, d, rfl, rfl, hc⟩ := exists_split hs
      rw [store_split a d hc, Option.bind_some, eq_comm, store_eq_none]
      simp only [List.length_append] at hst ⊢
      omega
    · rw [store_eq_none.mpr (by omega)]
      rfl

lemma store_cons {c : α} :
    store m p (c :: s) = (store m p [c]).bind fun m' => store m' (p + 1) s :=
  @store_append α m p [c] s

lemma store_nil (hp : p ≤ m.length) : store m p [] = some m := by
  rw [store_eq_some]
  simpa using hp

lemma length_store (h : store m p s = some m') : m'.length = m.length := by
  obtain ⟨hfit, rfl⟩ := store_eq_some.mp h
  simp only [List.length_append, List.length_take, List.length_drop]
  omega

/-- Turning round what was just written. -/
lemma store_reverse :
    (store m p (s ++ t)).map (fun m' => reverse m' p (p + s.length))
      = store m p (s.reverse ++ t) := by
  by_cases hfit : p + (s ++ t).length ≤ m.length
  · obtain ⟨a, c, d, rfl, rfl, hc⟩ := exists_split hfit
    rw [store_split a d hc, store_split a d (by simpa using hc), Option.map_some, reverse,
      List.append_assoc a, List.take_left, ← List.length_append,
      show a ++ (s ++ t ++ d) = a ++ s ++ (t ++ d) by simp, List.take_left, List.drop_left,
      List.drop_left]
    simp
  · rw [store_eq_none.mpr (by omega), Option.map_none, eq_comm, store_eq_none]
    rw [List.length_append] at hfit ⊢
    rw [List.length_reverse]
    omega

end Memory
