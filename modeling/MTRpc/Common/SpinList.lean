import Mathlib.Data.List.Nodup
import Mathlib.Logic.Function.Basic

/-!
# `SpinList` is a queue

`SpinList` links its nodes in both directions; `push` adds a node in front of `head` and `pop`
deletes the node at `tail`.  Each call holds the lock, so that the calls of several threads come
one after the other.  `pop` no longer fills `cache`, so that `push` always makes a new node.

A list of values, the oldest first, describes a `SpinList` (`Holds`) when the nodes from `tail`
to `head` hold these values and all links agree with that; no other node is left on the heap.
`push` adds at the end of the list and `pop` takes from its front.
-/

namespace MTRpc

/-- `SpinList::Node` -/
structure SpinNode (T : Type*) where
  t : T
  next : Option ℕ
  pre : Option ℕ
deriving DecidableEq, Repr

/-- `SpinList` with the nodes that are on the heap; an address that was used is not used again. -/
structure SpinList (T : Type*) where
  node : ℕ → Option (SpinNode T)
  fresh : ℕ
  head : Option ℕ
  tail : Option ℕ

namespace SpinList

variable {T : Type*}

/-- The constructor. -/
def init : SpinList T := ⟨fun _ => none, 0, none, none⟩

/-- A change of the node at an address. -/
def modifyNode (l : SpinList T) (p : ℕ) (f : SpinNode T → SpinNode T) : SpinList T :=
  { l with node := Function.update l.node p ((l.node p).map f) }

/-- `push` -/
def push (l : SpinList T) (t : T) : SpinList T :=
  let tmp := l.fresh
  let l := { l with node := Function.update l.node tmp (some ⟨t, none, none⟩), fresh := tmp + 1 }
  match l.head with
  | none => { l with head := some tmp, tail := some tmp }
  | some head =>
      let l := l.modifyNode tmp fun n => { n with next := some head }
      let l := l.modifyNode head fun n => { n with pre := some tmp }
      { l with head := some tmp }

/-- `pop`; without a result when it returns false. -/
def pop (l : SpinList T) : Option (T × SpinList T) :=
  match l.tail with
  | none => none
  | some tail =>
      match l.node tail with
      | none => none
      | some n =>
          let l : SpinList T :=
            match n.pre with
            | some pre => l.modifyNode pre fun m => { m with next := none }
            | none => { l with head := none }
          -- `delete tail`
          some (n.t, { l with node := Function.update l.node tail none, tail := n.pre })

/-- `empty` -/
def empty (l : SpinList T) : Bool := l.head.isNone

/-! ## What a `SpinList` holds -/

/-- The nodes at the addresses, from `tail` on, hold the values and are linked; `next` is the
node before the first one. -/
def Chain (node : ℕ → Option (SpinNode T)) : Option ℕ → List (ℕ × T) → Prop
  | _, [] => True
  | next, (p, t) :: cells =>
      node p = some ⟨t, next, (cells.head?).map Prod.fst⟩ ∧ Chain node (some p) cells

/-- The cells of a `SpinList`, from `tail` to `head`. -/
structure Cells (l : SpinList T) (cells : List (ℕ × T)) : Prop where
  chain : Chain l.node none cells
  tail : l.tail = cells.head?.map Prod.fst
  head : l.head = cells.getLast?.map Prod.fst
  nodup : (cells.map Prod.fst).Nodup
  only : ∀ p, p ∉ cells.map Prod.fst → l.node p = none
  lt : ∀ p ∈ cells.map Prod.fst, p < l.fresh

/-- A `SpinList` holds the values, the oldest first. -/
def Holds (l : SpinList T) (ts : List T) : Prop := ∃ cells, Cells l cells ∧ cells.map Prod.snd = ts

variable {l : SpinList T} {node node' : ℕ → Option (SpinNode T)} {cells : List (ℕ × T)}

lemma holds_init : Holds (init : SpinList T) [] :=
  ⟨[], ⟨trivial, rfl, rfl, List.nodup_nil, fun _ _ => rfl, by simp⟩, rfl⟩

/-- Only the nodes of the cells matter. -/
lemma Chain.congr {next : Option ℕ} (h : Chain node next cells)
    (hsame : ∀ p ∈ cells.map Prod.fst, node' p = node p) : Chain node' next cells := by
  induction cells generalizing next with
  | nil => trivial
  | cons c cells ih =>
    obtain ⟨hnode, hrest⟩ := h
    refine ⟨(hsame c.1 (by simp)).trans hnode, ih hrest fun p hp => hsame p ?_⟩
    exact List.mem_cons_of_mem _ hp

lemma head?_append_cons (cells ys : List (ℕ × T)) (c : ℕ × T) :
    (cells ++ c :: ys).head? = (cells ++ [c]).head? := by
  cases cells <;> rfl

/-- One chain behind another one: the last node of the first and the first node of the second get
links to each other. -/
lemma Chain.append {next : Option ℕ} {c d : ℕ × T} (cells ds : List (ℕ × T))
    (h : Chain node next (cells ++ [c])) (h' : Chain node none (d :: ds))
    (hnodup : ((cells ++ [c] ++ d :: ds).map Prod.fst).Nodup) :
    Chain (Function.update (Function.update node d.1 ((node d.1).map fun n =>
        { n with next := some c.1 })) c.1 ((node c.1).map fun n => { n with pre := some d.1 }))
      next (cells ++ c :: d :: ds) := by
  induction cells generalizing next with
  | nil =>
    have hc : node c.1 = some ⟨c.2, next, none⟩ := h.1
    have hd : node d.1 = some ⟨d.2, none, ds.head?.map Prod.fst⟩ := h'.1
    simp only [List.nil_append, List.cons_append, List.map_cons, List.nodup_cons, List.mem_cons,
      not_or] at hnodup
    obtain ⟨⟨hcd, hcds⟩, hdds, -⟩ := hnodup
    refine ⟨?_, ?_, h'.2.congr fun p hp => ?_⟩
    · rw [Function.update_self, hc]
      rfl
    · rw [Function.update_of_ne (Ne.symm hcd), Function.update_self, hd]
      rfl
    · have hpc : p ≠ c.1 := fun heq => hcds (heq ▸ hp)
      have hpd : p ≠ d.1 := fun heq => hdds (heq ▸ hp)
      rw [Function.update_of_ne hpc, Function.update_of_ne hpd]
  | cons b cells ih =>
    have hb : node b.1 = some ⟨b.2, next, (cells ++ [c]).head?.map Prod.fst⟩ := h.1
    simp only [List.cons_append, List.map_cons, List.nodup_cons] at hnodup
    have hbc : b.1 ≠ c.1 := fun heq => hnodup.1 (by simp [heq])
    have hbd : b.1 ≠ d.1 := fun heq => hnodup.1 (by simp [heq])
    refine ⟨?_, ih h.2 hnodup.2⟩
    rw [Function.update_of_ne hbc, Function.update_of_ne hbd, hb,
      ← head?_append_cons cells (d :: ds)]
    rfl

/-- The chain with one more node behind its last one, which gets a link to it. -/
lemma Chain.snoc {next : Option ℕ} {c : ℕ × T} {p : ℕ} {t : T} (cells : List (ℕ × T))
    (h : Chain node next (cells ++ [c])) (hnodup : ((cells ++ [c]).map Prod.fst).Nodup)
    (hp : p ∉ (cells ++ [c]).map Prod.fst) :
    Chain (Function.update (Function.update node p (some ⟨t, some c.1, none⟩)) c.1
      ((node c.1).map fun n => { n with pre := some p })) next (cells ++ [c, (p, t)]) := by
  have hne : c.1 ≠ p := fun heq => hp (by simp [← heq])
  -- first the new node is alone
  have hchain : Chain (Function.update node p (some ⟨t, none, none⟩)) next (cells ++ [c]) :=
    h.congr fun q hq => Function.update_of_ne (ne_of_mem_of_not_mem hq hp) _ _
  have hnew : Chain (Function.update node p (some ⟨t, none, none⟩)) none [(p, t)] :=
    ⟨Function.update_self _ _ _, trivial⟩
  have happ := hchain.append cells [] hnew (by
    rw [List.map_append]
    exact hnodup.append (List.nodup_singleton _) (List.disjoint_singleton.mpr hp))
  simpa [hne] using happ

/-- A new cell at the end keeps the addresses apart and below the next fresh one. -/
lemma Cells.fresh (h : Cells l cells) (t : T) :
    ((cells ++ [(l.fresh, t)]).map Prod.fst).Nodup ∧
      ∀ p ∈ (cells ++ [(l.fresh, t)]).map Prod.fst, p < l.fresh + 1 := by
  have hmap : (cells ++ [(l.fresh, t)]).map Prod.fst = cells.map Prod.fst ++ [l.fresh] := by simp
  rw [hmap]
  refine ⟨h.nodup.append (List.nodup_singleton _) fun p hp hq => ?_, ?_⟩
  · rw [List.mem_singleton.mp hq] at hp
    exact Nat.lt_irrefl _ (h.lt _ hp)
  · intro p hp
    rcases List.mem_append.mp hp with hp | hp
    · exact Nat.lt_succ_of_lt (h.lt p hp)
    · rw [List.mem_singleton.mp hp]
      exact Nat.lt_succ_self _

/-- `push` adds a value at the end. -/
theorem Holds.push {ts : List T} (h : Holds l ts) (t : T) : Holds (l.push t) (ts ++ [t]) := by
  obtain ⟨cells, hcells, rfl⟩ := h
  have hfresh : l.fresh ∉ cells.map Prod.fst := fun hp => Nat.lt_irrefl _ (hcells.lt _ hp)
  obtain ⟨hnodup, hlt⟩ := hcells.fresh t
  refine ⟨cells ++ [(l.fresh, t)], ?_, by simp⟩
  rw [SpinList.push]
  rcases List.eq_nil_or_concat' cells with rfl | ⟨cells, c, rfl⟩
  · -- the first node
    have hhead : l.head = none := hcells.head
    simp only [hhead]
    refine ⟨⟨Function.update_self .., trivial⟩, rfl, rfl, hnodup, ?_, hlt⟩
    intro p hp
    have hne : p ≠ l.fresh := by simpa using hp
    exact (Function.update_of_ne hne ..).trans (hcells.only p (by simp))
  · have hhead : l.head = some c.1 := by simpa using hcells.head
    have hne : c.1 ≠ l.fresh := fun heq => hfresh (by simp [← heq])
    simp only [hhead, modifyNode, Function.update_self, Option.map_some, Function.update_idem,
      Function.update_of_ne hne]
    refine ⟨?_, ?_, by simp, hnodup, ?_, hlt⟩
    · rw [List.append_assoc]
      exact hcells.chain.snoc cells hcells.nodup hfresh
    · rw [List.append_assoc, List.singleton_append, head?_append_cons]
      exact hcells.tail
    · intro p hp
      rw [List.map_append, List.mem_append, not_or, List.map_singleton, List.mem_singleton] at hp
      have hc : p ≠ c.1 := fun heq => hp.1 (by simp [heq])
      have hnew := (Function.update_of_ne hp.2 (some ⟨t, some c.1, none⟩) l.node).trans
        (hcells.only p hp.1)
      exact (Function.update_of_ne hc ..).trans hnew

/-- `pop` takes the oldest value. -/
theorem Holds.pop {t : T} {ts : List T} (h : Holds l (t :: ts)) :
    ∃ l', l.pop = some (t, l') ∧ Holds l' ts := by
  obtain ⟨cells, hcells, hmap⟩ := h
  cases cells with
  | nil => exact absurd hmap (by simp)
  | cons c cells =>
    obtain ⟨rfl, rfl⟩ := List.cons.inj hmap
    have htail : l.tail = some c.1 := hcells.tail
    have hnode : l.node c.1 = some ⟨c.2, none, cells.head?.map Prod.fst⟩ := hcells.chain.1
    have hnodup : c.1 ∉ cells.map Prod.fst ∧ (cells.map Prod.fst).Nodup :=
      List.nodup_cons.mp hcells.nodup
    have hlt : ∀ p ∈ cells.map Prod.fst, p < l.fresh := fun p hp =>
      hcells.lt p (List.mem_cons_of_mem _ hp)
    rw [SpinList.pop]
    simp only [htail, hnode]
    refine ⟨_, rfl, cells, ?_, rfl⟩
    cases cells with
    | nil =>
      refine ⟨trivial, rfl, rfl, hnodup.2, ?_, hlt⟩
      intro p _
      by_cases hp : p = c.1
      · exact hp ▸ Function.update_self ..
      · exact (Function.update_of_ne hp ..).trans (hcells.only p (by simpa using hp))
    | cons d cells =>
      -- the next node becomes the tail
      have hd : l.node d.1 = some ⟨d.2, some c.1, cells.head?.map Prod.fst⟩ := hcells.chain.2.1
      have hrest : Chain l.node (some d.1) cells := hcells.chain.2.2
      have hcd : d.1 ≠ c.1 := fun heq => hnodup.1 (by simp [heq])
      have hnext : d.1 ∉ cells.map Prod.fst := (List.nodup_cons.mp hnodup.2).1
      refine ⟨⟨?_, hrest.congr fun p hp => ?_⟩, rfl, ?_, hnodup.2, ?_, hlt⟩
      · simp [modifyNode, hcd, hd]
      · have hpd : p ≠ d.1 := fun heq => hnext (heq ▸ hp)
        have hpc : p ≠ c.1 := fun heq => hnodup.1 (heq ▸ List.mem_cons_of_mem _ hp)
        simp [modifyNode, hpd, hpc]
      · exact hcells.head.trans (by rw [List.getLast?_cons_cons])
      · intro p hp
        have hpd : p ≠ d.1 := fun heq => hp (by simp [heq])
        by_cases hpc : p = c.1
        · exact hpc ▸ Function.update_self ..
        · simp only [List.head?_cons, Option.map_some, modifyNode, Function.update_of_ne hpc,
            Function.update_of_ne hpd]
          exact hcells.only p (by simpa [hpc] using hp)

/-- An empty `SpinList` has nothing to pop. -/
theorem Holds.pop_nil (h : Holds l []) : l.pop = none := by
  obtain ⟨cells, hcells, hmap⟩ := h
  rw [List.map_eq_nil_iff.mp hmap] at hcells
  rw [SpinList.pop, hcells.tail]
  rfl

/-- `empty` says whether a value is left. -/
theorem Holds.empty {ts : List T} (h : Holds l ts) : l.empty = ts.isEmpty := by
  obtain ⟨cells, hcells, rfl⟩ := h
  rw [SpinList.empty, hcells.head]
  cases hlast : cells.getLast? with
  | none => simp [List.getLast?_eq_none_iff.mp hlast]
  | some c =>
    have hne : cells ≠ [] := fun heq => by simp [heq] at hlast
    simp [hne]

/-- The second `SpinList` comes from the first one by calls of `push` and `pop`. -/
inductive Reaches (l : SpinList T) : SpinList T → Prop
  | refl : Reaches l l
  | push {l' : SpinList T} (t : T) : Reaches l l' → Reaches l (l'.push t)
  | pop {l' l'' : SpinList T} {t : T} : Reaches l l' → l'.pop = some (t, l'') → Reaches l l''

/-- Taking several values. -/
lemma Reaches.drop {l' : SpinList T} {ts : List T} (k : ℕ) (h : Reaches l l') (hts : Holds l' ts) :
    ∃ l'', Reaches l l'' ∧ Holds l'' (ts.drop k) := by
  induction k generalizing l' ts with
  | zero => exact ⟨l', h, hts⟩
  | succ k ih =>
    cases ts with
    | nil => exact ⟨l', h, hts⟩
    | cons t ts =>
      obtain ⟨l'', hpop, hrest⟩ := hts.pop
      exact ih (h.pop hpop) hrest

end SpinList

end MTRpc
