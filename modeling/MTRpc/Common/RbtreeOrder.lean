import MTRpc.Lib.Fuel
import MTRpc.Common.RbtreeInsert
import MTRpc.Common.RbtreeDelete

/-!
# The tree of timers as an ordered list

What `ngx_rbtree_insert` and `ngx_rbtree_delete` do to the nodes from left to right, how often their
loops turn, and that the number of turns they are given does not matter beyond that.
-/

namespace MTRpc

open RedBlack HeapTree RbTree Fuel

namespace NgxRbtree

variable {P δ : Type} [DecidableEq P] {s p : P} {m m' : NgxRbtree P δ} {q : Option P}
variable {t : RbTree (P × Entry δ)} {a : P × Entry δ} {n : Node P (Entry δ)} {fuel : ℕ}

/-! ## The number of turns -/

lemma grows_min (x : Option P) : Grows fun fuel => m.min s fuel x := by
  intro fuel
  induction fuel generalizing x with
  | zero => exact le_none
  | succ fuel ih =>
    simp only [min]
    exact .bind .refl fun l => .ite .refl (ih l)

lemma grows_insertBy (before : ℕ → ℕ → Bool) (x y : Option P) :
    Grows fun fuel => m.insertBy s before fuel x y := by
  intro fuel
  induction fuel generalizing x with
  | zero => exact le_none
  | succ fuel ih =>
    simp only [insertBy]
    exact .bind .refl fun k => .bind .refl fun k' => .bind .refl fun l => .ite .refl (ih l)

lemma grows_insertLoop (x : Option P) : Grows fun fuel => m.insertLoop s fuel x := by
  intro fuel
  induction fuel generalizing x m with
  | zero => exact le_none
  | succ fuel ih =>
    simp only [insertLoop]
    refine .ite .refl (.bind .refl fun l => .bind .refl fun c => .ite .refl ?_)
    exact .bind .refl fun _ => .bind .refl fun _ => .bind .refl fun _ => .bind .refl fun r => ih r.2

lemma grows_insert (before : ℕ → ℕ → Bool) (x : Option P) :
    Grows fun fuel => m.insert s before fuel x :=
  .ite grows_const ((grows_insertBy before m.root x).bind fun _ => grows_insertLoop x)

lemma grows_deleteLoop (x : Option P) : Grows fun fuel => m.deleteLoop s fuel x := by
  intro fuel
  induction fuel generalizing x m with
  | zero => exact le_none
  | succ fuel ih =>
    simp only [deleteLoop]
    refine .ite .refl (.bind .refl fun c => .ite .refl ?_)
    exact .bind .refl fun _ => .bind .refl fun _ => .bind .refl fun r => ih r.2

lemma grows_delete (x : Option P) : Grows fun fuel => m.delete s fuel x := by
  intro fuel
  simp only [delete]
  refine .bind ?_ fun r => .ite .refl (.bind .refl fun c => .bind .refl fun m' => .ite .refl ?_)
  · simp only [substTemp]
    refine .bind .refl fun l => .ite .refl (.bind .refl fun r => .ite .refl ?_)
    exact .bind .refl fun r => .bind (grows_min r fuel) fun _ => .refl
  · exact grows_deleteLoop r.2 fuel

/-! ## The order of the nodes -/

variable {l xs ys : List (P × Entry δ)}

variable (s m l) in
/-- The nodes `l`, from left to right, are a red-black tree on the heap. -/
def Built : Prop := ∃ q t, Is s m q t ∧ t.IsRedBlack ∧ t.toList = l

omit [DecidableEq P] in
lemma Built.nodup (h : Built s m l) : (l.map Prod.fst).Nodup := by
  obtain ⟨q, t, ht, -, rfl⟩ := h
  exact ht.tree.nodup

omit [DecidableEq P] in
lemma Built.sentinel (h : Built s m l) : s ∉ l.map Prod.fst := by
  obtain ⟨q, t, ht, -, rfl⟩ := h
  exact ht.tree.sentinel

omit [DecidableEq P] in
lemma Built.node_of_mem (h : Built s m l) (ha : a ∈ l) :
    ∃ n, m.heap a.1 = some n ∧ n.val = a.2 := by
  obtain ⟨q, t, ht, -, rfl⟩ := h
  exact ht.tree.rep.node_of_mem ha

omit [DecidableEq P] in
/-- The tree is its nodes, the root and the colour of the sentinel. -/
lemma Built.of_eq (h : Built s m l) (hroot : m'.root = m.root)
    (heap : ∀ a ∈ l, m'.heap a.1 = m.heap a.1)
    (hs : ∃ x, m'.heap s = (m.heap s).map (·.setParent x)) : Built s m' l := by
  obtain ⟨q, t, ⟨⟨hr, hrep, hnodup, hout⟩, n, hn, hblack⟩, hrb, rfl⟩ := h
  obtain ⟨x, hx⟩ := hs
  refine ⟨q, t, ⟨⟨hroot.trans hr, hrep.congr fun p hp => ?_, hnodup, hout⟩, n.setParent x, ?_,
    hblack⟩, hrb, rfl⟩
  · obtain ⟨a, ha, rfl⟩ := List.mem_map.mp hp
    exact heap a ha
  · rw [hx, hn, Option.map_some]

omit [DecidableEq P] in
/-- A node stands in one place of the list. -/
lemma split_unique {us vs : List (P × Entry δ)} (hnodup : ((xs ++ a :: ys).map Prod.fst).Nodup)
    (heq : us ++ a :: vs = xs ++ a :: ys) : us = xs ∧ vs = ys := by
  have hout : a ∉ xs ∧ a ∉ ys := by
    have hn := hnodup.of_map
    rw [List.nodup_append, List.nodup_cons] at hn
    exact ⟨fun hmem => hn.2.2 a hmem a List.mem_cons_self rfl, hn.2.1.1⟩
  obtain ⟨hxs, -, hys⟩ := (List.append_cons_inj_of_notMem hout.1 hout.2).mp heq.symm
  exact ⟨hxs.symm, hys.symm⟩

omit [DecidableEq P] in
/-- A node of the tree and the ones before and behind it. -/
lemma Built.place (h : Built s m (xs ++ a :: ys)) :
    ∃ q fs c l r, Is s m q (fill fs (.node c l a r)) ∧ (fill fs (.node c l a r)).IsRedBlack ∧
      ∀ b, (fill fs (.node c l b r)).toList = xs ++ b :: ys := by
  have hnodup := h.nodup
  obtain ⟨q, t, ht, hrb, hlist⟩ := h
  obtain ⟨fs, c, l, r, rfl⟩ := exists_fill_of_mem (t := t) (a := a) (by simp [hlist])
  refine ⟨q, fs, c, l, r, ht, hrb, ?_⟩
  obtain ⟨us, vs, hfill⟩ := toList_fill fs
  have hnode : ∀ b,
      (fill fs (.node c l b r)).toList = (us ++ l.toList) ++ b :: (r.toList ++ vs) := by
    intro b
    rw [hfill, toList]
    simp
  obtain ⟨hxs, hys⟩ := split_unique hnodup ((hnode a).symm.trans hlist)
  intro b
  rw [hnode, hxs, hys]

/-- The value of a node is written. -/
lemma Built.setVal (h : Built s m (xs ++ a :: ys)) (v : Entry δ → Entry δ) :
    ∃ m', m.store (some a.1) (fun n => { n with val := v n.val }) = some m' ∧
      Built s m' (xs ++ (a.1, v a.2) :: ys) ∧ Changes [a.1] m.heap m'.heap := by
  obtain ⟨q, fs, c, l, r, ⟨⟨hroot, hrep, hnodup, hs⟩, n, hn, hblack⟩, hrb, hlist⟩ := h.place
  obtain ⟨hfs, ha, hl, hr⟩ := (rep_fill_branch (d := .left)).mp hrep
  have haddrs : addrs (fill fs (.node c l (a.1, v a.2) r)) = addrs (fill fs (.node c l a r)) := by
    rw [addrs, addrs, hlist, hlist, List.map_append, List.map_append, List.map_cons, List.map_cons]
  have hperm :
      (addrs (fill fs (.node c l a r))).Perm (a.1 :: (addrs l ++ addrs r ++ pathAddrs fs)) :=
    perm_addrs_fill_branch (d := .left)
  have hsub := hnodup
  rw [hperm.nodup_iff, List.nodup_cons, List.mem_append, List.mem_append, not_or, not_or] at hsub
  have hsa : s ≠ a.1 := by
    rw [hperm.mem_iff, List.mem_cons, not_or] at hs
    exact hs.1
  obtain ⟨m', e, hr', ha', hc⟩ := store_spec ha fun n => { n with val := v n.val }
  refine ⟨m', e, ⟨q, fill fs (.node c l (a.1, v a.2) r), ⟨⟨?_, (rep_fill_branch (d := .left)).mpr
    ⟨?_, ?_, ?_, ?_⟩, ?_, ?_⟩, n, ?_, hblack⟩, isRedBlack_fill_val (d := .left) hrb, hlist _⟩, hc⟩
  · rw [hr', hroot]
    cases fs with
    | nil => rfl
    | cons f fs => rw [(ptr_fill f fs _ (.node c l (a.1, v a.2) r)).1]
  · exact hfs.of_changes hc (by simpa using hsub.1.2)
  · exact ha'
  · exact hl.of_changes hc (by simpa using hsub.1.1.1)
  · exact hr.of_changes hc (by simpa using hsub.1.1.2)
  · rwa [haddrs]
  · rwa [haddrs]
  · rw [hc s (by simpa using hsa), hn]

/-- `ngx_rbtree_min` finds the first node, or the sentinel. -/
lemma Built.min (h : Built s m l) (hs : ∃ n, m.heap s = some n ∧ n.left = some s)
    (hfuel : 2 * Nat.log 2 (l.length + 1) < fuel) :
    m.min s fuel m.root = some (some (l.head?.elim s Prod.fst)) := by
  obtain ⟨q, t, ht, hrb, rfl⟩ := h
  obtain ⟨fuel, rfl⟩ : ∃ fuel', fuel = fuel' + 1 := Nat.exists_eq_add_one.mpr (by omega)
  rw [ht.root]
  cases t with
  | nil =>
    obtain ⟨n, hn, hleft⟩ := hs
    have e1 : m.child .left (some s) = some (some s) := (child_eq hn).trans (congrArg some hleft)
    rw [ptr_nil, NgxRbtree.min, e1]
    exact if_pos rfl
  | node c l a r =>
    obtain ⟨ms, c', b, x, hleft, -, hlist⟩ :=
      leftmost_spec [] (c := c) (a := a) (l := l) (r := r)
    have hheight := hrb.height_le.trans_lt hfuel
    have hl : l.height < fuel + 1 := by
      rw [height] at hheight
      omega
    have ht' : Is s m q (fill [] (.node c l a r)) := ht
    have hmin := min_spec ht' hl []
    rw [hleft] at hmin
    rw [hlist]
    exact hmin

/-- The node 1 with the key 5 is the tree, and the node 2 with the key 3 is free. -/
def oneNode : NgxRbtree ℕ ℕ where
  root := some 1
  heap
    | 0 => some ⟨⟨0, 0⟩, .black, none, none, none⟩
    | 1 => some ⟨⟨5, 7⟩, .black, some 0, some 0, none⟩
    | 2 => some ⟨⟨3, 8⟩, .red, some 1, none, some 1⟩
    | _ => none

lemma built_oneNode : oneNode.Built 0 [(1, ⟨5, 7⟩)] := by
  refine ⟨none, .node .black .nil (1, ⟨5, 7⟩) .nil,
    ⟨⟨rfl, ⟨rfl, trivial, trivial⟩, ?_, ?_⟩, _, rfl, rfl⟩, ⟨rfl, 1, ?_⟩, rfl⟩
  · decide
  · decide
  · simp [RbTree.Balanced]

/-- `ngx_rbtree_insert` with `ngx_rbtree_insert_value` puts a free node in front of the first larger
key of a red-black tree, which stays one, with at most `2 * log2 (k + 1)` turns of a loop for `k`
nodes, and writes to no other node than those of the tree. -/
theorem insert_keeps (h : Built s m l) (hsorted : l.Pairwise (·.2.key ≤ ·.2.key))
    (hp : m.heap p = some n) (hs : p ≠ s) (hout : p ∉ l.map Prod.fst)
    (hfuel : 2 * Nat.log 2 (l.length + 1) < fuel) :
    ∃ m', m.insert s (fun key key' => key < key') fuel (some p) = some m' ∧
      Built s m' (l.orderedInsert (·.2.key < ·.2.key) (p, n.val)) ∧
        Changes (p :: l.map Prod.fst) m.heap m'.heap := by
  obtain ⟨q, t, ht, hrb, rfl⟩ := h
  obtain ⟨m', q', e, hm, hc⟩ := insert_spec ht hrb hp hs hout
    (hrb.height_le.trans_lt hfuel)
  refine ⟨m', e, ⟨q', _, hm, isRedBlack_insert _ hrb, ?_⟩, hc⟩
  exact toList_insert (a := (p, n.val)) (fun b => b.2.key) hsorted

theorem insert_keeps_oneNode :
    ∃ m', oneNode.insert 0 (fun key key' => key < key') 3 (some 2) = some m' ∧
      m'.Built 0 [(2, ⟨3, 8⟩), (1, ⟨5, 7⟩)] ∧ Changes [2, 1] oneNode.heap m'.heap :=
  insert_keeps built_oneNode (List.pairwise_singleton _ _) (p := 2)
    (n := ⟨⟨3, 8⟩, .red, some 1, none, some 1⟩) rfl (by decide) (by decide)
    (show 2 * Nat.log 2 (1 + 1) < 3 by decide)

/-- `ngx_rbtree_delete` takes a node out of a red-black tree, which stays one, with at most
`2 * log2 (k + 1)` turns of a loop for `k` nodes, and writes to no other node than those of the tree
and the parent of the sentinel.  The key of the node is 0 then. -/
theorem delete_keeps (h : Built s m (xs ++ a :: ys))
    (hfuel : 2 * Nat.log 2 ((xs ++ a :: ys).length + 1) < fuel) :
    ∃ m', m.delete s fuel (some a.1) = some m' ∧ Built s m' (xs ++ ys) ∧
      (∃ n, m'.heap a.1 = some n ∧ n.val = { a.2 with key := 0 }) ∧
        Changes (s :: (xs ++ a :: ys).map Prod.fst) m.heap m'.heap ∧
          ∃ x, m'.heap s = (m.heap s).map (·.setParent x) := by
  obtain ⟨q, fs, c, l, r, ht, hrb, hlist⟩ := h.place
  obtain ⟨m', q', e, hdel⟩ := delete_spec ht hrb (hrb.height_le.trans_lt (by rwa [hlist]))
  obtain ⟨hrb', us, vs, hsplit, hrest⟩ := RedBlack.delete_spec hrb
  obtain ⟨rfl, rfl⟩ := split_unique h.nodup (hsplit.symm.trans (hlist a))
  refine ⟨m', e, ⟨q', _, hdel.is, hrb', hrest⟩, hdel.cleared, ?_, hdel.sentinel⟩
  rw [← hlist a]
  exact hdel.changes

theorem delete_keeps_oneNode :
    ∃ m', oneNode.delete 0 3 (some 1) = some m' ∧ m'.Built 0 [] ∧
      (∃ n, m'.heap 1 = some n ∧ n.val = ⟨0, 7⟩) ∧ Changes [0, 1] oneNode.heap m'.heap ∧
        ∃ x, m'.heap 0 = (oneNode.heap 0).map (·.setParent x) := by
  have hbuilt : oneNode.Built 0 ([] ++ (1, ⟨5, 7⟩) :: []) := built_oneNode
  exact delete_keeps hbuilt (show 2 * Nat.log 2 (1 + 1) < 3 by decide)

end NgxRbtree

end MTRpc
