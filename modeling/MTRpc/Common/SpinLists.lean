import Mathlib.Data.Set.Insert
import MTRpc.Common.SpinList

/-!
# Several `SpinList`s on one heap

`MoveTo` and `Merge` take the nodes of one `SpinList` over to another one.  Here the lists share the
heap, and a store through NULL, or to a node that was deleted, is undefined: the operation has no
result.  With a result, `push` and `pop` do what they do to a `SpinList` on its own (`view_push`,
`view_pop`).

The lists refine FIFO queues: `Holds` says which values each list holds, the oldest first, and that
no node is in two lists, or left on the heap without a list.  `Merge` stores through the tail of the
other list when its own list is not empty, without a test: `refines_iff` says that a sequence of
operations does what it does to queues, with the same results, exactly when it merges an empty list
into an empty one only.
-/

namespace MTRpc

/-- `head` and `tail` of a `SpinList` -/
structure SpinEnds where
  head : Option ℕ
  tail : Option ℕ
deriving DecidableEq, Repr

/-- `SpinList`s, called `κ`, with the nodes that are on the heap; an address that was used is not
used again. -/
structure SpinLists (κ T : Type) where
  node : ℕ → Option (SpinNode T)
  fresh : ℕ
  ends : κ → SpinEnds

/-- The operations.  `moveTo k k'` is `MoveTo` of `k` with the argument `k'`, and so is `merge`. -/
inductive SpinOp (κ T : Type)
  | push (k : κ) (t : T)
  | pop (k : κ)
  | empty (k : κ)
  | moveTo (k k' : κ)
  | merge (k k' : κ)

/-- What an operation returns; `pop` without a value when it returns false. -/
inductive SpinResult (T : Type)
  | done
  | popped (t : Option T)
  | isEmpty (b : Bool)

namespace SpinLists

variable {κ T : Type}

/-- The constructors. -/
def init : SpinLists κ T := ⟨fun _ => none, 0, fun _ => ⟨none, none⟩⟩

/-- A store to a field of the node that a pointer points to. -/
def store (s : SpinLists κ T) (p : Option ℕ) (f : SpinNode T → SpinNode T) :
    Option (SpinLists κ T) := do
  let p ← p
  let n ← s.node p
  return { s with node := Function.update s.node p (some (f n)) }

variable [DecidableEq κ]

section

variable (s : SpinLists κ T)

def setEnds (k : κ) (e : SpinEnds) : SpinLists κ T :=
  { s with ends := Function.update s.ends k e }

/-- `push` -/
def push (k : κ) (t : T) : Option (SpinLists κ T) :=
  let tmp := s.fresh
  let s := { s with node := Function.update s.node tmp (some ⟨t, none, none⟩), fresh := tmp + 1 }
  match (s.ends k).head with
  | none => some (s.setEnds k ⟨some tmp, some tmp⟩)
  | some head => do
      let s ← s.store (some tmp) fun n => { n with next := some head }
      let s ← s.store (some head) fun n => { n with pre := some tmp }
      return s.setEnds k { s.ends k with head := some tmp }

/-- `pop` -/
def pop (k : κ) : Option (Option T × SpinLists κ T) :=
  match (s.ends k).tail with
  | none => some (none, s)
  | some tail => do
      let n ← s.node tail
      let s ← match n.pre with
        | some pre => s.store (some pre) fun m => { m with next := none }
        | none => some (s.setEnds k { s.ends k with head := none })
      -- `delete tail`
      let s := { s with node := Function.update s.node tail none }
      return (some n.t, s.setEnds k { s.ends k with tail := n.pre })

/-- `empty` -/
def empty (k : κ) : Bool := (s.ends k).head.isNone

/-- `MoveTo` -/
def moveTo (k k' : κ) : SpinLists κ T :=
  (s.setEnds k' (s.ends k)).setEnds k ⟨none, none⟩

/-- `Merge` -/
def merge (k k' : κ) : Option (SpinLists κ T) := do
  let s ← if (s.ends k).head = none then some (s.setEnds k (s.ends k'))
    else do
      let s ← s.store (s.ends k').tail fun n => { n with next := (s.ends k).head }
      let s ← s.store (s.ends k).head fun n => { n with pre := (s.ends k').tail }
      some (s.setEnds k { s.ends k with head := (s.ends k').head })
  return s.setEnds k' ⟨none, none⟩

/-- An operation, with what it returns. -/
def step : SpinOp κ T → Option (SpinResult T × SpinLists κ T)
  | .push k t => do
      let s ← s.push k t
      return (.done, s)
  | .pop k => do
      let (t, s) ← s.pop k
      return (.popped t, s)
  | .empty k => some (.isEmpty (s.empty k), s)
  | .moveTo k k' => some (.done, s.moveTo k k')
  | .merge k k' => do
      let s ← s.merge k k'
      return (.done, s)

end

/-- The operations, one after the other. -/
def run (s : SpinLists κ T) : List (SpinOp κ T) → Option (List (SpinResult T) × SpinLists κ T)
  | [] => some ([], s)
  | op :: ops => do
      let (r, s) ← s.step op
      let (rs, s) ← run s ops
      return (r :: rs, s)

/-! ## One of the lists -/

/-- A list on its own, with the heap. -/
def view (s : SpinLists κ T) (k : κ) : SpinList T :=
  ⟨s.node, s.fresh, (s.ends k).head, (s.ends k).tail⟩

omit [DecidableEq κ] in
/-- A store that has a result changes the node. -/
lemma store_eq {s s' : SpinLists κ T} {p : ℕ} {f : SpinNode T → SpinNode T}
    (h : s.store (some p) f = some s') :
    s' = { s with node := Function.update s.node p ((s.node p).map f) } := by
  cases hn : s.node p with
  | none => simp [store, hn] at h
  | some n => simpa [store, hn, eq_comm] using h

/-- `push` of one of the lists is that of `SpinList`. -/
lemma view_push {s s' : SpinLists κ T} {k : κ} {t : T} (h : s.push k t = some s') :
    s'.view k = (s.view k).push t := by
  rw [push] at h
  rw [SpinList.push]
  cases hhead : (s.ends k).head with
  | none =>
    simp only [hhead, Option.some.injEq] at h
    subst h
    simp [view, setEnds, hhead]
  | some head =>
    simp only [hhead] at h
    obtain ⟨s₁, hs₁, h⟩ := Option.bind_eq_some_iff.mp h
    obtain ⟨s₂, hs₂, h⟩ := Option.bind_eq_some_iff.mp h
    obtain rfl := store_eq hs₁
    obtain rfl := store_eq hs₂
    obtain rfl := (Option.some.inj h).symm
    simp [view, setEnds, hhead, SpinList.modifyNode]

/-- `pop` of one of the lists is that of `SpinList`. -/
lemma view_pop {s s' : SpinLists κ T} {k : κ} {o : Option T} (h : s.pop k = some (o, s')) :
    (s.view k).pop = o.map (·, s'.view k) := by
  rw [pop] at h
  rw [SpinList.pop]
  cases htail : (s.ends k).tail with
  | none =>
    simp only [htail, Option.some.injEq, Prod.mk.injEq] at h
    obtain ⟨rfl, -⟩ := h
    simp [view, htail]
  | some tail =>
    simp only [htail] at h
    obtain ⟨n, hn, h⟩ := Option.bind_eq_some_iff.mp h
    cases hpre : n.pre with
    | none =>
      simp only [hpre] at h
      obtain ⟨rfl, rfl⟩ := Prod.mk.inj (Option.some.inj h)
      simp [view, setEnds, htail, hn, hpre]
    | some pre =>
      simp only [hpre] at h
      obtain ⟨s₁, hs₁, h⟩ := Option.bind_eq_some_iff.mp h
      obtain rfl := store_eq hs₁
      obtain ⟨rfl, rfl⟩ := Prod.mk.inj (Option.some.inj h)
      simp [view, setEnds, htail, hn, hpre, SpinList.modifyNode]

/-! ## Queues -/

/-- What an operation does to FIFO queues, whose oldest values are in front. -/
def fifo (q : κ → List T) : SpinOp κ T → SpinResult T × (κ → List T)
  | .push k t => (.done, Function.update q k (q k ++ [t]))
  | .pop k => (.popped (q k).head?, Function.update q k (q k).tail)
  | .empty k => (.isEmpty (q k).isEmpty, q)
  | .moveTo k k' => (.done, Function.update (Function.update q k' (q k)) k [])
  | .merge k k' => (.done, Function.update (Function.update q k (q k ++ q k')) k' [])

def fifoRun (q : κ → List T) : List (SpinOp κ T) → List (SpinResult T) × (κ → List T)
  | [] => ([], q)
  | op :: ops =>
      let r := fifoRun (fifo q op).2 ops
      ((fifo q op).1 :: r.1, r.2)

/-- Each operation of the sequence meets a condition on the queues that it finds. -/
def Along (ok : (κ → List T) → SpinOp κ T → Prop) (q : κ → List T) : List (SpinOp κ T) → Prop
  | [] => True
  | op :: ops => ok q op ∧ Along ok (fifo q op).2 ops

/-- `MoveTo` goes to an empty list, and `Merge` takes another one. -/
def Allowed (q : κ → List T) : SpinOp κ T → Prop
  | .moveTo _ k' => q k' = []
  | .merge k k' => k ≠ k'
  | _ => True

/-- An empty list is merged into an empty one only. -/
def MergesSome (q : κ → List T) : SpinOp κ T → Prop
  | .merge k k' => q k = [] ∨ q k' ≠ []
  | _ => True

/-! ## What the lists hold -/

/-- The ends of a list with these cells, from `tail` to `head`. -/
def endsOf (cells : List (ℕ × T)) : SpinEnds :=
  ⟨cells.getLast?.map Prod.fst, cells.head?.map Prod.fst⟩

/-- The cells of each list: they are linked (`SpinList.Chain`), in one list only, and the only nodes
on the heap. -/
structure Cells (s : SpinLists κ T) (cells : κ → List (ℕ × T)) : Prop where
  chain : ∀ k, SpinList.Chain s.node none (cells k)
  ends : ∀ k, s.ends k = endsOf (cells k)
  nodup : ∀ k, ((cells k).map Prod.fst).Nodup
  apart : ∀ k k' p, p ∈ (cells k).map Prod.fst → p ∈ (cells k').map Prod.fst → k = k'
  only : ∀ p, (∀ k, p ∉ (cells k).map Prod.fst) → s.node p = none
  lt : ∀ k, ∀ p ∈ (cells k).map Prod.fst, p < s.fresh

/-- The lists hold the values of the queues. -/
def Holds (s : SpinLists κ T) (q : κ → List T) : Prop :=
  ∃ cells, Cells s cells ∧ ∀ k, (cells k).map Prod.snd = q k

variable {s s' : SpinLists κ T} {cells : κ → List (ℕ × T)} {q : κ → List T}

omit [DecidableEq κ] in
lemma holds_init : Holds (init : SpinLists κ T) fun _ => [] :=
  ⟨fun _ => [], ⟨fun _ => trivial, fun _ => rfl, fun _ => List.nodup_nil, by simp, fun _ _ => rfl,
    by simp⟩, fun _ => rfl⟩

omit [DecidableEq κ] in
/-- New cells for some lists: they take up nodes of these lists, or fresh ones, and the nodes that
they leave are deleted. -/
lemma Cells.change (h : Cells s cells) (ks : Set κ) {new : κ → List (ℕ × T)}
    (hkeep : ∀ k ∉ ks, new k = cells k) (hends : ∀ k, s'.ends k = endsOf (new k))
    (hchain : ∀ k ∈ ks, SpinList.Chain s'.node none (new k))
    (hnodup : ∀ k ∈ ks, ((new k).map Prod.fst).Nodup)
    (hapart : ∀ k ∈ ks, ∀ k' ∈ ks, ∀ p ∈ (new k).map Prod.fst, p ∈ (new k').map Prod.fst → k = k')
    (hfresh : s.fresh ≤ s'.fresh) (hlt : ∀ k ∈ ks, ∀ p ∈ (new k).map Prod.fst, p < s'.fresh)
    (hold : ∀ k ∈ ks, ∀ p ∈ (new k).map Prod.fst,
      (∃ j ∈ ks, p ∈ (cells j).map Prod.fst) ∨ s.fresh ≤ p)
    (hsame : ∀ p, (∀ k ∈ ks, p ∉ (cells k).map Prod.fst ∧ p ∉ (new k).map Prod.fst) →
      s'.node p = s.node p)
    (hgone : ∀ k ∈ ks, ∀ p ∈ (cells k).map Prod.fst, (∀ j ∈ ks, p ∉ (new j).map Prod.fst) →
      s'.node p = none) : Cells s' new := by
  -- the nodes of the other lists are not concerned
  have hother : ∀ k ∉ ks, ∀ p ∈ (cells k).map Prod.fst, ∀ j ∈ ks,
      p ∉ (cells j).map Prod.fst ∧ p ∉ (new j).map Prod.fst := by
    intro k hk p hp j hj
    have hno : ∀ i ∈ ks, p ∉ (cells i).map Prod.fst := fun i hi hpi =>
      hk (h.apart k i p hp hpi ▸ hi)
    refine ⟨hno j hj, ?_⟩
    intro hpj
    rcases hold j hj p hpj with ⟨i, hi, hpi⟩ | hge
    · exact hno i hi hpi
    · exact absurd (h.lt k p hp) (Nat.not_lt.mpr hge)
  refine ⟨?_, hends, ?_, ?_, ?_, ?_⟩
  · intro k
    by_cases hk : k ∈ ks
    · exact hchain k hk
    · rw [hkeep k hk]
      exact (h.chain k).congr fun p hp => hsame p (hother k hk p hp)
  · intro k
    by_cases hk : k ∈ ks
    · exact hnodup k hk
    · rw [hkeep k hk]
      exact h.nodup k
  · intro k k' p hp hp'
    by_cases hk : k ∈ ks <;> by_cases hk' : k' ∈ ks
    · exact hapart k hk k' hk' p hp hp'
    · rw [hkeep k' hk'] at hp'
      exact absurd hp (hother k' hk' p hp' k hk).2
    · rw [hkeep k hk] at hp
      exact absurd hp' (hother k hk p hp k' hk').2
    · rw [hkeep k hk] at hp
      rw [hkeep k' hk'] at hp'
      exact h.apart k k' p hp hp'
  · intro p hp
    by_cases hmem : ∃ k ∈ ks, p ∈ (cells k).map Prod.fst
    · obtain ⟨k, hk, hpk⟩ := hmem
      exact hgone k hk p hpk fun j _ => hp j
    · refine (hsame p fun k hk => ⟨fun hpk => hmem ⟨k, hk, hpk⟩, hp k⟩).trans (h.only p fun k => ?_)
      by_cases hk : k ∈ ks
      · exact fun hpk => hmem ⟨k, hk, hpk⟩
      · rw [← hkeep k hk]
        exact hp k
  · intro k p hp
    by_cases hk : k ∈ ks
    · exact hlt k hk p hp
    · rw [hkeep k hk] at hp
      exact Nat.lt_of_lt_of_le (h.lt k p hp) hfresh

/-- New cells for one list. -/
lemma Cells.replace (h : Cells s cells) {k : κ} {new : List (ℕ × T)}
    (hends : s'.ends = Function.update s.ends k (endsOf new))
    (hchain : SpinList.Chain s'.node none new) (hnodup : (new.map Prod.fst).Nodup)
    (hfresh : s.fresh ≤ s'.fresh) (hlt : ∀ p ∈ new.map Prod.fst, p < s'.fresh)
    (hold : ∀ p ∈ new.map Prod.fst, p ∈ (cells k).map Prod.fst ∨ s.fresh ≤ p)
    (hsame : ∀ p, p ∉ (cells k).map Prod.fst → p ∉ new.map Prod.fst → s'.node p = s.node p)
    (hgone : ∀ p ∈ (cells k).map Prod.fst, p ∉ new.map Prod.fst → s'.node p = none) :
    Cells s' (Function.update cells k new) := by
  have hk : Function.update cells k new k = new := Function.update_self _ _ _
  refine h.change {k} (fun j hj => Function.update_of_ne hj _ _) (fun j => ?_) ?_ ?_ ?_ hfresh ?_ ?_
    (fun p hp => ?_) ?_
  · rw [hends]
    by_cases hj : j = k
    · subst hj
      rw [Function.update_self, Function.update_self]
    · rw [Function.update_of_ne hj, Function.update_of_ne hj, h.ends]
  · rintro _ rfl
    rwa [hk]
  · rintro _ rfl
    rwa [hk]
  · rintro _ rfl _ rfl _ _ _
    rfl
  · rintro _ rfl
    rwa [hk]
  · rintro _ rfl p hp
    rw [hk] at hp
    exact (hold p hp).imp_left fun hp => ⟨_, rfl, hp⟩
  · have hp := hp k rfl
    rw [hk] at hp
    exact hsame p hp.1 hp.2
  · rintro _ rfl p hp hno
    have hno := hno _ rfl
    rw [hk] at hno
    exact hgone p hp hno

/-- The values of the other lists stay. -/
lemma map_update (hq : ∀ k, (cells k).map Prod.snd = q k) (k : κ)
    (new : List (ℕ × T)) (j : κ) :
    (Function.update cells k new j).map Prod.snd
      = Function.update q k (new.map Prod.snd) j := by
  by_cases hj : j = k
  · subst hj
    rw [Function.update_self, Function.update_self]
  · rw [Function.update_of_ne hj, Function.update_of_ne hj, hq]

/-! ## The operations -/

/-- The nodes of a chain are on the heap. -/
lemma exists_node {node : ℕ → Option (SpinNode T)} {cells : List (ℕ × T)} {next : Option ℕ}
    (h : SpinList.Chain node next cells) {p : ℕ} (hp : p ∈ cells.map Prod.fst) :
    ∃ n, node p = some n := by
  induction cells generalizing next with
  | nil => exact absurd hp List.not_mem_nil
  | cons c cells ih =>
    obtain ⟨hnode, hrest⟩ := h
    rcases List.mem_cons.mp hp with rfl | hp
    · exact ⟨_, hnode⟩
    · exact ih hrest hp

omit [DecidableEq κ] in
/-- A new address behind those of a list. -/
lemma Cells.fresh_append (h : Cells s cells) (k : κ) (t : T) :
    (((cells k) ++ [(s.fresh, t)]).map Prod.fst).Nodup ∧
      ∀ p ∈ ((cells k) ++ [(s.fresh, t)]).map Prod.fst,
        p < s.fresh + 1 ∧ (p ∈ (cells k).map Prod.fst ∨ s.fresh ≤ p) := by
  rw [List.map_append, List.map_singleton]
  refine ⟨(h.nodup k).append (List.nodup_singleton _) fun p hp hq => ?_, ?_⟩
  · rw [List.mem_singleton.mp hq] at hp
    exact Nat.lt_irrefl _ (h.lt k _ hp)
  · intro p hp
    rcases List.mem_append.mp hp with hp | hp
    · exact ⟨Nat.lt_succ_of_lt (h.lt k p hp), Or.inl hp⟩
    · rw [List.mem_singleton.mp hp]
      exact ⟨Nat.lt_succ_self _, Or.inr (Nat.le_refl _)⟩

lemma Holds.push (h : Holds s q) (k : κ) (t : T) :
    ∃ s', s.push k t = some s' ∧ Holds s' (Function.update q k (q k ++ [t])) := by
  obtain ⟨cells, hcells, hq⟩ := h
  obtain ⟨hnodup, hnew⟩ := hcells.fresh_append k t
  have hvalues : ∀ j, (Function.update cells k (cells k ++ [(s.fresh, t)]) j).map Prod.snd
      = Function.update q k (q k ++ [t]) j := by
    intro j
    rw [map_update hq, List.map_append, hq]
    rfl
  have hfresh : s.fresh ∉ (cells k).map Prod.fst := fun hp => Nat.lt_irrefl _ (hcells.lt k _ hp)
  have hends := hcells.ends k
  rcases List.eq_nil_or_concat' (cells k) with hk | ⟨cs, c, hk⟩
  · -- the first node
    have hpush : s.push k t = some { s with
        node := Function.update s.node s.fresh (some ⟨t, none, none⟩)
        fresh := s.fresh + 1
        ends := Function.update s.ends k ⟨some s.fresh, some s.fresh⟩ } := by
      rw [hk] at hends
      simp [SpinLists.push, setEnds, hends, endsOf]
    refine ⟨_, hpush, _, hcells.replace ?_ ?_ hnodup (Nat.le_succ _) (fun p hp => (hnew p hp).1)
      (fun p hp => (hnew p hp).2) (fun p _ hp => ?_) (fun p hp hno => ?_), hvalues⟩
    · rw [hk]
      rfl
    · rw [hk]
      exact ⟨Function.update_self _ _ _, trivial⟩
    · exact Function.update_of_ne (fun heq => hp (by simp [heq])) _ _
    · exact absurd hp (by simp [hk])
  · have hc : c.1 ∈ (cells k).map Prod.fst := by simp [hk]
    obtain ⟨n, hn⟩ := exists_node (hcells.chain k) hc
    have hne : c.1 ≠ s.fresh := fun heq => hfresh (heq ▸ hc)
    have hpush : s.push k t = some { s with
        node := Function.update (Function.update s.node s.fresh (some ⟨t, some c.1, none⟩)) c.1
          ((s.node c.1).map fun n => { n with pre := some s.fresh })
        fresh := s.fresh + 1
        ends := Function.update s.ends k ⟨some s.fresh, (s.ends k).tail⟩ } := by
      have hhead : (s.ends k).head = some c.1 := by simp [hends, hk, endsOf]
      simp [SpinLists.push, store, setEnds, hhead, hne, hn]
    refine ⟨_, hpush, _, hcells.replace ?_ ?_ hnodup (Nat.le_succ _) (fun p hp => (hnew p hp).1)
      (fun p hp => (hnew p hp).2) (fun p hno hp => ?_) (fun p hp hno => ?_), hvalues⟩
    · rw [hends, hk]
      simp [endsOf]
    · have hchain := hcells.chain k
      rw [hk] at hchain hfresh ⊢
      rw [List.append_assoc]
      exact hchain.snoc cs (hk ▸ hcells.nodup k) hfresh
    · have hpc : p ≠ c.1 := fun heq => hno (heq ▸ hc)
      have hpf : p ≠ s.fresh := fun heq => hp (by simp [heq])
      exact (Function.update_of_ne hpc _ _).trans (Function.update_of_ne hpf _ _)
    · exact absurd (List.mem_map.mpr ((List.mem_map.mp hp).imp fun _ hx =>
        ⟨List.mem_append_left _ hx.1, hx.2⟩)) hno

lemma Holds.pop (h : Holds s q) (k : κ) :
    ∃ s', s.pop k = some ((q k).head?, s') ∧ Holds s' (Function.update q k (q k).tail) := by
  obtain ⟨cells, hcells, hq⟩ := h
  have hends := hcells.ends k
  have hchain := hcells.chain k
  have hnodup := hcells.nodup k
  cases hk : cells k with
  | nil =>
    have hqk : q k = [] := by rw [← hq k, hk]; rfl
    have hpop : s.pop k = some (none, s) := by
      rw [hk] at hends
      simp [SpinLists.pop, hends, endsOf]
    refine ⟨s, by rw [hpop, hqk]; rfl, cells, hcells, ?_⟩
    rw [hqk, List.tail_nil, ← hqk, Function.update_eq_self]
    exact hq
  | cons c cs =>
    have hqk : q k = c.2 :: cs.map Prod.snd := by rw [← hq k, hk]; rfl
    have hvalues := map_update hq k cs
    rw [hqk]
    change ∃ s', s.pop k = some (some c.2, s') ∧ Holds s' (Function.update q k (cs.map Prod.snd))
    rw [hk] at hends hchain hnodup
    obtain ⟨hnode, hrest⟩ := hchain
    obtain ⟨hc, hnodup⟩ := List.nodup_cons.mp hnodup
    have hlt : ∀ p ∈ cs.map Prod.fst, p < s.fresh := fun p hp =>
      hcells.lt k p (by rw [hk]; exact List.mem_cons_of_mem _ hp)
    have hold : ∀ p ∈ cs.map Prod.fst, p ∈ (cells k).map Prod.fst ∨ s.fresh ≤ p := fun p hp =>
      Or.inl (by rw [hk]; exact List.mem_cons_of_mem _ hp)
    cases cs with
    | nil =>
      -- the last node
      have hpop : s.pop k = some (some c.2, { s with
          node := Function.update s.node c.1 none
          ends := Function.update s.ends k ⟨none, none⟩ }) := by
        simp [SpinLists.pop, setEnds, hends, endsOf, hnode]
      refine ⟨_, hpop, _, hcells.replace ?_ ?_ hnodup (Nat.le_refl _) hlt hold
        (fun p hp _ => ?_) (fun p hp _ => ?_), hvalues⟩
      · rfl
      · trivial
      · exact Function.update_of_ne (fun heq => hp (by simp [hk, heq])) _ _
      · have hpc : p = c.1 := by simpa [hk] using hp
        exact hpc ▸ Function.update_self ..
    | cons d ds =>
      -- the next node becomes the tail
      have hd : s.node d.1 = some ⟨d.2, some c.1, ds.head?.map Prod.fst⟩ := hrest.1
      have hcd : d.1 ≠ c.1 := fun heq => hc (by simp [heq])
      have hdds : d.1 ∉ ds.map Prod.fst := (List.nodup_cons.mp hnodup).1
      have hpop : s.pop k = some (some c.2, { s with
          node := Function.update (Function.update s.node d.1
            (some ⟨d.2, none, ds.head?.map Prod.fst⟩)) c.1 none
          ends := Function.update s.ends k ⟨(s.ends k).head, some d.1⟩ }) := by
        have htail : (s.ends k).tail = some c.1 := by simp [hends, endsOf]
        simp [SpinLists.pop, store, setEnds, htail, hnode, hd]
      have hchain : SpinList.Chain (Function.update (Function.update s.node d.1
          (some ⟨d.2, none, ds.head?.map Prod.fst⟩)) c.1 none) none (d :: ds) := by
        refine ⟨?_, hrest.2.congr fun p hp => ?_⟩
        · exact (Function.update_of_ne hcd _ _).trans (Function.update_self _ _ _)
        · have hpd : p ≠ d.1 := fun heq => hdds (heq ▸ hp)
          have hpc : p ≠ c.1 := fun heq => hc (heq ▸ List.mem_cons_of_mem _ hp)
          exact (Function.update_of_ne hpc _ _).trans (Function.update_of_ne hpd _ _)
      refine ⟨_, hpop, _, hcells.replace ?_ hchain hnodup (Nat.le_refl _) hlt hold
        (fun p hp _ => ?_) (fun p hp hno => ?_), hvalues⟩
      · rw [hends]
        simp [endsOf]
      · rw [hk] at hp
        have hpd : p ≠ d.1 := fun heq => hp (by simp [heq])
        have hpc : p ≠ c.1 := fun heq => hp (by simp [heq])
        exact (Function.update_of_ne hpc _ _).trans (Function.update_of_ne hpd _ _)
      · rw [hk] at hp
        have hpc : p = c.1 := (List.mem_cons.mp hp).resolve_right hno
        exact hpc ▸ Function.update_self ..

omit [DecidableEq κ] in
lemma Holds.empty (h : Holds s q) (k : κ) : s.empty k = (q k).isEmpty := by
  obtain ⟨cells, hcells, hq⟩ := h
  rw [SpinLists.empty, hcells.ends, ← hq k, endsOf]
  cases hlast : (cells k).getLast? with
  | none => simp [List.getLast?_eq_none_iff.mp hlast]
  | some c =>
    have hne : cells k ≠ [] := fun heq => by simp [heq] at hlast
    simp [hne]

/-- The cells of a list go behind those of another one. -/
lemma Cells.take (h : Cells s cells) {k k' : κ} (hne : k ≠ k')
    (hends : s'.ends
      = Function.update (Function.update s.ends k (endsOf (cells k ++ cells k'))) k' ⟨none, none⟩)
    (hfresh : s'.fresh = s.fresh) (hchain : SpinList.Chain s'.node none (cells k ++ cells k'))
    (hsame : ∀ p, p ∉ (cells k).map Prod.fst → p ∉ (cells k').map Prod.fst →
      s'.node p = s.node p) :
    Cells s' (Function.update (Function.update cells k (cells k ++ cells k')) k' []) := by
  have hk : Function.update (Function.update cells k (cells k ++ cells k')) k' [] k
      = cells k ++ cells k' := by rw [Function.update_of_ne hne, Function.update_self]
  have hk' : Function.update (Function.update cells k (cells k ++ cells k')) k' [] k' = [] :=
    Function.update_self _ _ _
  have hmem : ∀ p, p ∈ (cells k ++ cells k').map Prod.fst ↔
      p ∈ (cells k).map Prod.fst ∨ p ∈ (cells k').map Prod.fst := by
    intro p
    rw [List.map_append, List.mem_append]
  refine h.change {k, k'} (fun j hj => ?_) (fun j => ?_) ?_ ?_ ?_ (Nat.le_of_eq hfresh.symm) ?_ ?_
    (fun p hp => ?_) ?_
  · obtain ⟨hjk, hjk'⟩ : j ≠ k ∧ j ≠ k' := by simpa using hj
    rw [Function.update_of_ne hjk', Function.update_of_ne hjk]
  · rw [hends]
    by_cases hjk' : j = k'
    · subst hjk'
      rw [Function.update_self, hk']
      rfl
    · rw [Function.update_of_ne hjk', Function.update_of_ne hjk']
      by_cases hjk : j = k
      · subst hjk
        rw [Function.update_self, Function.update_self]
      · rw [Function.update_of_ne hjk, Function.update_of_ne hjk, h.ends]
  · rintro j (rfl | rfl)
    · rwa [hk]
    · rw [hk']
      trivial
  · rintro j (rfl | rfl)
    · rw [hk, List.map_append]
      exact (h.nodup _).append (h.nodup _) fun p hp hp' => hne (h.apart _ _ p hp hp')
    · rw [hk']
      exact List.nodup_nil
  · -- only one of the two has nodes
    rintro j (rfl | rfl) j' (rfl | rfl) p hp hp'
    · rfl
    · rw [hk'] at hp'
      exact absurd hp' List.not_mem_nil
    · rw [hk'] at hp
      exact absurd hp List.not_mem_nil
    · rfl
  · rintro j (rfl | rfl) p hp
    · rw [hk, hmem] at hp
      rw [hfresh]
      exact hp.elim (h.lt _ p) (h.lt _ p)
    · rw [hk'] at hp
      exact absurd hp List.not_mem_nil
  · rintro j (rfl | rfl) p hp
    · rw [hk, hmem] at hp
      exact .inl (hp.elim (fun hp => ⟨_, .inl rfl, hp⟩) fun hp => ⟨_, .inr rfl, hp⟩)
    · rw [hk'] at hp
      exact absurd hp List.not_mem_nil
  · exact hsame p (hp k (.inl rfl)).1 (hp k' (.inr rfl)).1
  · -- no node is left
    rintro j (rfl | rfl) p hp hno
    · have hno := hno _ (.inl rfl)
      rw [hk, hmem] at hno
      exact absurd (Or.inl hp) hno
    · have hno := hno _ (.inl rfl)
      rw [hk, hmem] at hno
      exact absurd (Or.inr hp) hno

lemma Holds.moveTo (h : Holds s q) {k k' : κ} (hk' : q k' = []) :
    Holds (s.moveTo k k') (Function.update (Function.update q k' (q k)) k []) := by
  obtain ⟨cells, hcells, hq⟩ := h
  have hempty : cells k' = [] := by rw [← List.map_eq_nil_iff, hq, hk']
  by_cases hne : k' = k
  · -- the list is empty and stays so
    subst hne
    have hs : s.moveTo k' k' = s := by
      have hends := hcells.ends k'
      rw [hempty] at hends
      rw [SpinLists.moveTo, setEnds, setEnds, Function.update_idem]
      congr 1
      rw [← show s.ends k' = ⟨none, none⟩ from hends, Function.update_eq_self]
    have hqs : Function.update (Function.update q k' (q k')) k' [] = q := by
      rw [Function.update_idem, ← hk', Function.update_eq_self]
    rw [hs, hqs]
    exact ⟨cells, hcells, hq⟩
  · have hmoved : Cells (s.moveTo k k')
        (Function.update (Function.update cells k' (cells k' ++ cells k)) k []) := by
      refine hcells.take hne ?_ rfl ?_ fun _ _ _ => rfl
      · rw [hempty, List.nil_append, ← hcells.ends]
        rfl
      · rw [hempty, List.nil_append]
        exact hcells.chain k
    refine ⟨_, hmoved, ?_⟩
    intro j
    rw [hempty, List.nil_append, map_update (map_update hq k' (cells k)), hq]
    rfl

/-- `Merge` into an empty list: it takes the ends of the other one. -/
lemma Cells.merge_nil (h : Cells s cells) {k k' : κ} (hne : k ≠ k') (hk : cells k = []) :
    ∃ s', s.merge k k' = some s' ∧
      Cells s' (Function.update (Function.update cells k (cells k ++ cells k')) k' []) := by
  have hhead : (s.ends k).head = none := by
    rw [h.ends, hk]
    rfl
  refine ⟨(s.setEnds k (s.ends k')).setEnds k' ⟨none, none⟩, ?_, ?_⟩
  · simp [SpinLists.merge, hhead]
  · refine h.take hne ?_ rfl ?_ fun _ _ _ => rfl
    · rw [hk, List.nil_append, ← h.ends]
      rfl
    · rw [hk, List.nil_append]
      exact h.chain k'

/-- `Merge` of two lists with nodes: the head of the one and the tail of the other are linked. -/
lemma Cells.merge_cons (h : Cells s cells) {k k' : κ} (hne : k ≠ k') {cs ds : List (ℕ × T)}
    {c d : ℕ × T} (hk : cells k = cs ++ [c]) (hk' : cells k' = d :: ds) :
    ∃ s', s.merge k k' = some s' ∧
      Cells s' (Function.update (Function.update cells k (cells k ++ cells k')) k' []) := by
  have hc : c.1 ∈ (cells k).map Prod.fst := by simp [hk]
  have hd : d.1 ∈ (cells k').map Prod.fst := by simp [hk']
  obtain ⟨n, hn⟩ := exists_node (h.chain k) hc
  obtain ⟨m, hm⟩ := exists_node (h.chain k') hd
  have hcd : c.1 ≠ d.1 := fun heq => hne (h.apart k k' c.1 hc (heq ▸ hd))
  have hhead : (s.ends k).head = some c.1 := by simp [h.ends, hk, endsOf]
  have htail : (s.ends k').tail = some d.1 := by simp [h.ends, hk', endsOf]
  have hmerge : s.merge k k' = some { s with
      node := Function.update (Function.update s.node d.1 ((s.node d.1).map fun n =>
        { n with next := some c.1 })) c.1 ((s.node c.1).map fun n => { n with pre := some d.1 })
      ends := Function.update (Function.update s.ends k ⟨(s.ends k').head, (s.ends k).tail⟩) k'
        ⟨none, none⟩ } := by
    simp [SpinLists.merge, store, setEnds, hhead, htail, hn, hm, hcd]
  refine ⟨_, hmerge, h.take hne ?_ rfl ?_ fun p hp hp' => ?_⟩
  · have hends : endsOf (cells k ++ cells k') = ⟨(s.ends k').head, (s.ends k).tail⟩ := by
      rw [h.ends, h.ends, hk, hk']
      have hlast : (cs ++ [c] ++ d :: ds).getLast? = (d :: ds).getLast? := by
        rw [List.getLast?_append, List.getLast?_eq_some_getLast (List.cons_ne_nil d ds)]
        rfl
      have hfirst : (cs ++ [c] ++ d :: ds).head? = (cs ++ [c]).head? := by
        rw [List.append_assoc, List.singleton_append, SpinList.head?_append_cons]
      rw [endsOf, hlast, hfirst]
      rfl
    rw [hends]
  · have hchain := h.chain k
    have hchain' := h.chain k'
    have hnodup : ((cells k ++ cells k').map Prod.fst).Nodup := by
      rw [List.map_append]
      exact (h.nodup k).append (h.nodup k') fun p hp hp' => hne (h.apart k k' p hp hp')
    rw [hk] at hchain
    rw [hk'] at hchain'
    rw [hk, hk'] at hnodup ⊢
    rw [List.append_assoc]
    exact hchain.append cs ds hchain' hnodup
  · have hpc : p ≠ c.1 := fun heq => hp (heq ▸ hc)
    have hpd : p ≠ d.1 := fun heq => hp' (heq ▸ hd)
    exact (Function.update_of_ne hpc _ _).trans (Function.update_of_ne hpd _ _)

lemma Holds.merge (h : Holds s q) {k k' : κ} (hne : k ≠ k') (hsome : q k = [] ∨ q k' ≠ []) :
    ∃ s', s.merge k k' = some s' ∧
      Holds s' (Function.update (Function.update q k (q k ++ q k')) k' []) := by
  obtain ⟨cells, hcells, hq⟩ := h
  have hempty : ∀ j, cells j = [] ↔ q j = [] := fun j => by rw [← hq j, List.map_eq_nil_iff]
  have hmerge : ∃ s', s.merge k k' = some s' ∧
      Cells s' (Function.update (Function.update cells k (cells k ++ cells k')) k' []) := by
    rcases List.eq_nil_or_concat' (cells k) with hk | ⟨cs, c, hk⟩
    · exact hcells.merge_nil hne hk
    · cases hk' : cells k' with
      | nil =>
        -- this is what the condition excludes
        rcases hsome with hqk | hqk'
        · exact absurd ((hempty k).mpr hqk) (by simp [hk])
        · exact absurd ((hempty k').mp hk') hqk'
      | cons d ds =>
        rw [← hk']
        exact hcells.merge_cons hne hk hk'
  obtain ⟨s', hs', hcells'⟩ := hmerge
  refine ⟨s', hs', _, hcells', ?_⟩
  intro j
  rw [map_update (map_update hq k (cells k ++ cells k')), List.map_append, hq, hq]
  rfl

/-- `Merge` of an empty list into another one stores through NULL. -/
lemma Holds.merge_none (h : Holds s q) {k k' : κ} (hk : q k ≠ []) (hk' : q k' = []) :
    s.merge k k' = none := by
  obtain ⟨cells, hcells, hq⟩ := h
  have hempty : cells k' = [] := by rw [← List.map_eq_nil_iff, hq, hk']
  have htail : (s.ends k').tail = none := by
    rw [hcells.ends, hempty]
    rfl
  have hhead : (s.ends k).head ≠ none := by
    rw [hcells.ends, ← hq] at *
    intro hnone
    have hlast : (cells k).getLast? = none := Option.map_eq_none_iff.mp hnone
    exact hk (by rw [List.getLast?_eq_none_iff.mp hlast]; rfl)
  simp [SpinLists.merge, store, hhead, htail]

/-! ## Sequences of operations -/

lemma Holds.step {op : SpinOp κ T} (h : Holds s q) (hallowed : Allowed q op)
    (hsome : MergesSome q op) :
    ∃ s', s.step op = some ((fifo q op).1, s') ∧ Holds s' (fifo q op).2 := by
  cases op with
  | push k t =>
    obtain ⟨s', hpush, h'⟩ := h.push k t
    exact ⟨s', by rw [SpinLists.step, hpush]; rfl, h'⟩
  | pop k =>
    obtain ⟨s', hpop, h'⟩ := h.pop k
    exact ⟨s', by rw [SpinLists.step, hpop]; rfl, h'⟩
  | empty k => exact ⟨s, by rw [SpinLists.step, h.empty]; rfl, h⟩
  | moveTo k k' => exact ⟨_, rfl, h.moveTo hallowed⟩
  | merge k k' =>
    obtain ⟨s', hmerge, h'⟩ := h.merge hallowed hsome
    exact ⟨s', by rw [SpinLists.step, hmerge]; rfl, h'⟩

lemma Holds.step_none {op : SpinOp κ T} (h : Holds s q) (hno : ¬ MergesSome q op) :
    s.step op = none := by
  cases op with
  | merge k k' =>
    obtain ⟨hk, hk'⟩ := not_or.mp hno
    rw [SpinLists.step, h.merge_none hk (not_not.mp hk')]
    rfl
  | push k t => exact absurd trivial hno
  | pop k => exact absurd trivial hno
  | empty k => exact absurd trivial hno
  | moveTo k k' => exact absurd trivial hno

/-- From lists that hold the values of queues, a sequence of operations refines the queues exactly
when no empty list is merged into another one. -/
lemma Holds.run_iff (h : Holds s q) {ops : List (SpinOp κ T)} (hallowed : Along Allowed q ops) :
    (∃ s', s.run ops = some ((fifoRun q ops).1, s') ∧ Holds s' (fifoRun q ops).2) ↔
      Along MergesSome q ops := by
  induction ops generalizing s q with
  | nil => exact iff_of_true ⟨s, rfl, h⟩ trivial
  | cons op ops ih =>
    obtain ⟨hop, hops⟩ := hallowed
    by_cases hsome : MergesSome q op
    · obtain ⟨s₁, hstep, h₁⟩ := h.step hop hsome
      rw [Along, and_iff_right hsome, ← ih h₁ hops]
      -- the rest of the operations
      have hrun : s.run (op :: ops)
          = (s₁.run ops).map fun r => ((fifo q op).1 :: r.1, r.2) := by
        rw [SpinLists.run, hstep]
        cases hrest : s₁.run ops <;> simp [hrest]
      rw [hrun]
      constructor
      · rintro ⟨s', hs', h'⟩
        obtain ⟨⟨rs, s''⟩, hrest, heq⟩ := Option.map_eq_some_iff.mp hs'
        obtain ⟨hrs, rfl⟩ := Prod.mk.inj heq
        exact ⟨s'', by rw [hrest, ← (List.cons.inj hrs).2], h'⟩
      · rintro ⟨s', hs', h'⟩
        exact ⟨s', by rw [hs']; rfl, h'⟩
    · refine iff_of_false ?_ fun h => hsome h.1
      rintro ⟨s', hs', -⟩
      rw [SpinLists.run, h.step_none hsome] at hs'
      exact absurd hs' (by simp)

/-- A sequence of operations, from the empty lists on, never stores through NULL or to a deleted
node, returns what FIFO queues return and leaves well-formed lists that hold the values of the
queues, exactly when no empty list is merged into another one. -/
theorem refines_iff {ops : List (SpinOp κ T)} (hallowed : Along Allowed (fun _ => []) ops) :
    (∃ s, (init : SpinLists κ T).run ops = some ((fifoRun (fun _ => []) ops).1, s) ∧
        Holds s (fifoRun (fun _ => []) ops).2) ↔
      Along MergesSome (fun _ => []) ops :=
  holds_init.run_iff hallowed

/-- A value in one list, and an empty list is merged into it. -/
theorem not_refines :
    ¬ ∀ ops : List (SpinOp Bool ℕ), Along Allowed (fun _ => []) ops →
      ∃ s, (init : SpinLists Bool ℕ).run ops = some ((fifoRun (fun _ => []) ops).1, s) ∧
        Holds s (fifoRun (fun _ => []) ops).2 := by
  intro hall
  obtain ⟨s, hrun, -⟩ := hall [.push true 0, .merge true false]
    ⟨trivial, Bool.noConfusion, trivial⟩
  have hnone : (init : SpinLists Bool ℕ).run [.push true 0, .merge true false] = none := rfl
  rw [hnone] at hrun
  exact absurd hrun (by simp)

/-- Two lists with a value each are merged. -/
theorem refines_merge :
    (∃ s, (init : SpinLists Bool ℕ).run
          [.push true 0, .push false 1, .merge true false, .pop true, .pop true]
        = some ([.done, .done, .done, .popped (some 0), .popped (some 1)], s) ∧
      Holds s (fifoRun (fun _ => [])
        [.push true 0, .push false 1, .merge true false, .pop true, .pop true]).2) ↔
      Along MergesSome (fun _ => [])
        [.push true 0, .push false 1, .merge true false, .pop true, .pop (true : Bool)] :=
  refines_iff ⟨trivial, trivial, Bool.noConfusion, trivial, trivial, trivial⟩

end SpinLists

end MTRpc
