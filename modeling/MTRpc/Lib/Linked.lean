import Mathlib.Data.List.Nodup
import Mathlib.Logic.Function.Basic

/-!
# Linked nodes on a heap

A list of addresses with values is a segment of a heap when each address holds a node with its
value and a link to the next address, and the node at the end a given link.  A segment can be cut,
it does not depend on other addresses, and the link at its end can be set to a new node.
-/

namespace Linked

variable {α τ : Type*}

/-- A node with a link that can lead nowhere. -/
structure Node (α τ : Type*) where
  next : Option α
  val : τ
deriving DecidableEq, Repr

/-- The address at which a segment begins; an empty one begins where it ends. -/
def first : List (α × τ) → Option α → Option α
  | [], e => e
  | (p, _) :: _, _ => some p

/-- The nodes `cells`, the last one with the link `e`. -/
def Seg (heap : α → Option (Node α τ)) : List (α × τ) → Option α → Prop
  | [], _ => True
  | (p, t) :: cells, e => heap p = some ⟨first cells e, t⟩ ∧ Seg heap cells e

variable {heap heap' : α → Option (Node α τ)} {cells cells' : List (α × τ)} {e : Option α} {p : α}

lemma first_append : first (cells ++ cells') e = first cells (first cells' e) := by
  cases cells <;> rfl

/-- A segment and the one that follows it. -/
lemma seg_append :
    Seg heap (cells ++ cells') e ↔ Seg heap cells (first cells' e) ∧ Seg heap cells' e := by
  induction cells with
  | nil => exact ⟨fun h => ⟨trivial, h⟩, And.right⟩
  | cons cell cells ih =>
    rw [List.cons_append, Seg, Seg, ih, first_append, and_assoc]

/-- A segment depends on its own addresses only. -/
lemma Seg.congr (h : Seg heap cells e) (heq : ∀ p ∈ cells.map Prod.fst, heap' p = heap p) :
    Seg heap' cells e := by
  induction cells with
  | nil => trivial
  | cons cell cells ih =>
    refine ⟨(heq cell.1 (List.mem_cons_self ..)).trans h.1, ih h.2 fun p hp => ?_⟩
    exact heq p (List.mem_cons_of_mem _ hp)

/-- The address of a segment holds a node. -/
lemma Seg.isSome (h : Seg heap cells e) (hp : p ∈ cells.map Prod.fst) : (heap p).isSome := by
  induction cells with
  | nil => simp at hp
  | cons cell cells ih =>
    rcases List.mem_cons.mp hp with rfl | hp
    · rw [h.1]
      rfl
    · exact ih h.2 hp

variable [DecidableEq α]

/-- A change of an address outside the segment. -/
lemma Seg.update (h : Seg heap cells e) (hp : p ∉ cells.map Prod.fst) (o : Option (Node α τ)) :
    Seg (Function.update heap p o) cells e :=
  h.congr fun _ hq => Function.update_of_ne (ne_of_mem_of_not_mem hq hp) _ _

/-- A node is linked behind the last one. -/
lemma Seg.link {front : List (α × τ)} {last n : α} {u t : τ}
    (h : Seg heap (front ++ [(last, u)]) none)
    (hnodup : ((front ++ [(last, u)]).map Prod.fst).Nodup) (hn : heap n = some ⟨none, t⟩)
    (hout : n ∉ (front ++ [(last, u)]).map Prod.fst) :
    Seg (Function.update heap last (some ⟨some n, u⟩)) (front ++ [(last, u)] ++ [(n, t)]) none := by
  obtain ⟨hfront, hlast⟩ := seg_append.mp h
  rw [List.map_append, List.map_singleton] at hnodup hout
  have hfresh : last ∉ front.map Prod.fst := fun hmem =>
    (List.nodup_append.mp hnodup).2.2 last hmem last (List.mem_singleton_self _) rfl
  have hne : n ≠ last := fun heq => hout (heq ▸ by simp)
  rw [List.append_assoc]
  refine seg_append.mpr ⟨hfront.update hfresh _, ?_, ?_, trivial⟩
  · exact Function.update_self ..
  · rw [Function.update_of_ne hne]
    exact hn

end Linked
