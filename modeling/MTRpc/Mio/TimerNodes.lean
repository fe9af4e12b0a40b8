import MTRpc.Common.RbtreeOrder
import MTRpc.Mio.Timers

/-!
# The timers of a poller on their nodes

The two nodes of an event are members of it, and the trees of a poller are made of these nodes and
of one static sentinel.  All pollers have the same sentinel, so that its parent, into which
`ngx_rbtree_delete` writes, can have changed when a function begins.  A node is in its tree if and
only if its key is set, which the functions look at and `ngx_rbtree_delete` clears.

The functions of `Epoller` are given here on the nodes.  A run of them follows no pointer that is
`NULL` or leads to freed memory, and is a run of `Timers` with the same reports and the same waits
(`timers_run`): what holds of the multisets of deadlines holds of the trees.  The functions of one
poller run one after another, in its thread.
-/

namespace MTRpc

open RedBlack HeapTree Fuel

/-- The nodes: `rtimernode` and `wtimernode` of the events, and `Epoller::sentinel`. -/
inductive TimerAddr (ι : Type)
  | sentinel
  | node (t : Timer) (ev : ι)
deriving DecidableEq, Repr

/-- The roots of the trees of a poller, and the nodes, whose data is the event or `NULL`. -/
structure TimerNodes (ι : Type) where
  root : Timer → Option (TimerAddr ι)
  heap : Heap (TimerAddr ι) (Entry (Option ι))

namespace NgxRbtree

variable {P δ : Type} [DecidableEq P] (m : NgxRbtree P δ)

def setKey (p : Option P) (key : ℕ) : Option (NgxRbtree P δ) :=
  m.store p fun n => { n with val := { n.val with key := key } }

def setData (p : Option P) (data : δ) : Option (NgxRbtree P δ) :=
  m.store p fun n => { n with val := { n.val with data := data } }

omit [DecidableEq P] in
def data (p : Option P) : Option δ := (m.load p).map (·.val.data)

end NgxRbtree

namespace TimerNodes

variable {ι : Type}

/-- What the constructor of `Epoller` leaves, whatever the parent of the sentinel is. -/
def init (parent : Option (TimerAddr ι)) : TimerNodes ι where
  root _ := some .sentinel
  heap
    | .sentinel => some ⟨⟨0, none⟩, .black, some .sentinel, some .sentinel, parent⟩
    | .node _ _ => none

variable [DecidableEq ι] (s : TimerNodes ι)

/-- `rtimerroot` or `wtimerroot` -/
def tree (t : Timer) : NgxRbtree (TimerAddr ι) (Option ι) := ⟨s.root t, s.heap⟩

/-- The nodes with a tree as a function has left it. -/
def put (t : Timer) (m : NgxRbtree (TimerAddr ι) (Option ι)) : TimerNodes ι :=
  ⟨Function.update s.root t m.root, m.heap⟩

/-- `if (ev->rtimernode.key)`: a node is taken out of its tree, or initialised if it is in none. -/
def freeNode (fuel : ℕ) (t : Timer) (ev : ι) : Option (NgxRbtree (TimerAddr ι) (Option ι)) := do
  let node := some (TimerAddr.node t ev)
  let m := s.tree t
  if (← m.key node) ≠ 0 then
    let m ← m.delete .sentinel fuel node
    m.setKey node 0
  else
    let m ← m.setParent node none
    let m ← m.setChild .left node (some .sentinel)
    m.setChild .right node (some .sentinel)

/-- `SetReadTimeOut` or `SetWriteTimeOut` -/
def setTimeOut (fuel : ℕ) (t : Timer) (ev : ι) (now timeSec : ℕ) : Option (TimerNodes ι) := do
  let node := some (TimerAddr.node t ev)
  let m ← s.freeNode fuel t ev
  let m ← m.setData node (some ev)
  let m ← m.setKey node (now + timeSec)
  let m ← m.insert .sentinel (fun key key' => key < key') fuel node
  return s.put t m

/-- `DelReadTimeOut` or `DelWriteTimeOut` -/
def delTimeOut (fuel : ℕ) (t : Timer) (ev : ι) : Option (TimerNodes ι) := do
  let node := some (TimerAddr.node t ev)
  let m := s.tree t
  if (← m.key node) ≠ 0 then
    let m ← m.setKey node 0
    let m ← m.delete .sentinel fuel node
    return s.put t m
  else return s

/-- `while (left->key > 0 && left->key <= nowsec)`: the events that are reported, the tree, and the
key of the leftmost node that is left. -/
def expireLoop (fuel now : ℕ) :
    ℕ → NgxRbtree (TimerAddr ι) (Option ι) →
      Option (List ι × NgxRbtree (TimerAddr ι) (Option ι) × ℕ)
  | 0, _ => none
  | k + 1, m => do
      let left ← m.min .sentinel fuel m.root
      let key ← m.key left
      if 0 < key ∧ key ≤ now then
        let ev ← (← m.data left)
        let m ← m.delete .sentinel fuel left
        let r ← expireLoop fuel now k m
        return (ev :: r.1, r.2)
      else return ([], m, key)

/-- `ProcessTimeOut`: what it returns, what it reports, and the nodes. -/
def processTimeOut (fuel now : ℕ) :
    Option (Option ℤ × List (ι × BitVec 32) × TimerNodes ι) := do
  let w ← expireLoop fuel now fuel (s.tree .write)
  let s := s.put .write w.2.1
  let r ← expireLoop fuel now fuel (s.tree .read)
  let s := s.put .read r.2.1
  let waittime := Timers.waittime (Timers.waitFor now w.2.2) (Timers.waitFor now r.2.2)
  return (Timers.toMillis waittime,
    w.1.map (·, Timer.write.flag) ++ r.1.map (·, Timer.read.flag), s)

/-! ## What the nodes show -/

/-- A node of the tree of `Timers`, where it is and what is in it. -/
def entry (t : Timer) (n : RbNode ι) : TimerAddr ι × Entry (Option ι) :=
  (.node t n.data, ⟨n.key, some n.data⟩)

/-- The key of an event that is not in the tree is 0. -/
def Idle (t : Timer) (heap : Heap (TimerAddr ι) (Entry (Option ι))) (ns : List (RbNode ι))
    (ev : ι) : Prop :=
  (∀ n ∈ ns, n.data ≠ ev) → ∀ n, heap (.node t ev) = some n → n.val.key = 0

/-- The sentinel, but for its parent. -/
def HasSentinel (heap : Heap (TimerAddr ι) (Entry (Option ι))) : Prop :=
  ∃ q, heap .sentinel = some ⟨⟨0, none⟩, .black, some .sentinel, some .sentinel, q⟩

/-- A tree is on the nodes, and the keys of the other events are 0. -/
structure ShowsTree (t : Timer) (m : NgxRbtree (TimerAddr ι) (Option ι)) (ns : List (RbNode ι)) :
    Prop where
  built : m.Built .sentinel (ns.map (entry t))
  idle : ∀ ev, Idle t m.heap ns ev
  sentinel : HasSentinel m.heap

/-- The heaps differ at the nodes of one tree and at the parent of the sentinel at most, and the
same nodes are in memory. -/
structure Off (t : Timer) (h h' : Heap (TimerAddr ι) (Entry (Option ι))) : Prop where
  other : ∀ t' ev, t' ≠ t → h' (.node t' ev) = h (.node t' ev)
  sentinel : ∃ q, h' .sentinel = (h .sentinel).map (·.setParent q)
  same : ∀ a, (h' a).isSome = (h a).isSome

variable {s} {t t' : Timer} {m m' m'' : NgxRbtree (TimerAddr ι) (Option ι)}
variable {ns xs ys : List (RbNode ι)} {k : RbNode ι} {ev : ι} {fuel : ℕ}
variable {h h' h'' : Heap (TimerAddr ι) (Entry (Option ι))}

omit [DecidableEq ι] in
lemma Off.trans (h₁ : Off t h h') (h₂ : Off t h' h'') : Off t h h'' where
  other t' ev hne := (h₂.other t' ev hne).trans (h₁.other t' ev hne)
  sentinel := by
    obtain ⟨q, hq⟩ := h₁.sentinel
    obtain ⟨q', hq'⟩ := h₂.sentinel
    refine ⟨q', ?_⟩
    rw [hq', hq, Option.map_map]
    rfl
  same a := (h₂.same a).trans (h₁.same a)

omit [DecidableEq ι] in
lemma Off.hasSentinel (hoff : Off t h h') (hs : HasSentinel h) : HasSentinel h' := by
  obtain ⟨q, hq⟩ := hs
  obtain ⟨q', hq'⟩ := hoff.sentinel
  refine ⟨q', ?_⟩
  rw [hq', hq]
  rfl

omit [DecidableEq ι] in
lemma isSome_of_changes {L : List (TimerAddr ι)} (hc : Changes L h h')
    (hmem : ∀ a ∈ L, (h' a).isSome = (h a).isSome) (a : TimerAddr ι) :
    (h' a).isSome = (h a).isSome := by
  by_cases ha : a ∈ L
  · exact hmem a ha
  · rw [hc a ha]

omit [DecidableEq ι] in
/-- A change to nodes of the tree. -/
lemma off_of_changes {L : List (TimerAddr ι)} (hc : Changes L h h')
    (hL : ∀ a ∈ L, ∃ ev, a = .node t ev) (hmem : ∀ a ∈ L, (h' a).isSome = (h a).isSome) :
    Off t h h' where
  other t' ev hne := by
    refine hc _ fun hmem => ?_
    obtain ⟨ev', heq⟩ := hL _ hmem
    exact hne (TimerAddr.node.inj heq).1
  sentinel := by
    have hout : TimerAddr.sentinel ∉ L := by
      intro hmem
      obtain ⟨ev', heq⟩ := hL _ hmem
      cases heq
    rw [hc _ hout]
    cases h .sentinel with
    | none => exact ⟨none, rfl⟩
    | some n => exact ⟨n.parent, rfl⟩
  same := isSome_of_changes hc hmem

omit [DecidableEq ι] in
lemma off_of_changes_nodes {L : List (TimerAddr ι)} {q : Option (TimerAddr ι)}
    (hc : Changes (.sentinel :: L) h h') (hL : ∀ a ∈ L, ∃ ev, a = .node t ev)
    (hmem : ∀ a ∈ L, (h' a).isSome = (h a).isSome)
    (hs : h' .sentinel = (h .sentinel).map (·.setParent q)) : Off t h h' where
  other t' ev hne := by
    refine hc _ fun hmem => ?_
    rcases List.mem_cons.mp hmem with heq | hmem
    · cases heq
    · obtain ⟨ev', heq⟩ := hL _ hmem
      exact hne (TimerAddr.node.inj heq).1
  sentinel := ⟨q, hs⟩
  same := isSome_of_changes hc (List.forall_mem_cons.mpr ⟨by rw [hs, Option.isSome_map], hmem⟩)

omit [DecidableEq ι] in
/-- The nodes of a tree are in memory. -/
lemma isSome_of_built {l : List (TimerAddr ι × Entry (Option ι))} (hb : m.Built .sentinel l)
    {a : TimerAddr ι} (ha : a ∈ l.map Prod.fst) : (m.heap a).isSome := by
  obtain ⟨e, he, rfl⟩ := List.mem_map.mp ha
  obtain ⟨n, hn, -⟩ := hb.node_of_mem he
  exact Option.isSome_iff_exists.mpr ⟨n, hn⟩

omit [DecidableEq ι] in
lemma fst_entry : (ns.map (entry t)).map Prod.fst = ns.map fun n => .node t n.data := by
  rw [List.map_map]
  rfl

/-- A node is taken out of its tree; its key may have been cleared before. -/
lemma delete_node {e : Entry (Option ι)}
    (hb : m.Built .sentinel (xs.map (entry t) ++ (.node t ev, e) :: ys.map (entry t)))
    (hfuel : 2 * Nat.log 2 (xs.length + ys.length + 2) < fuel) :
    ∃ m', m.delete .sentinel fuel (some (.node t ev)) = some m' ∧
      m'.Built .sentinel ((xs ++ ys).map (entry t)) ∧
        (∃ n, m'.heap (.node t ev) = some n ∧ n.val.key = 0) ∧
          (∀ ev', ev' ≠ ev → (∀ n ∈ xs ++ ys, n.data ≠ ev') →
            m'.heap (.node t ev') = m.heap (.node t ev')) ∧ Off t m.heap m'.heap := by
  have hlen : (xs.map (entry t) ++ (TimerAddr.node t ev, e) :: ys.map (entry t)).length + 1
      = xs.length + ys.length + 2 := by
    simp only [List.length_append, List.length_cons, List.length_map]
    omega
  obtain ⟨m', hm, hb', ⟨n, hn, hval⟩, hc, q, hq⟩ := NgxRbtree.delete_keeps hb (by rwa [hlen])
  rw [← List.map_append] at hb'
  refine ⟨m', hm, hb', ⟨n, hn, by rw [hval]⟩, ?_, off_of_changes_nodes hc ?_ ?_ hq⟩
  · intro ev' hne hout
    refine hc _ ?_
    simp only [List.map_append, List.map_cons, fst_entry, List.mem_cons, List.mem_append,
      List.mem_map]
    grind
  · intro a ha
    simp only [List.map_append, List.map_cons, fst_entry, List.mem_cons, List.mem_append,
      List.mem_map] at ha
    grind
  · intro a ha
    rw [isSome_of_built hb ha]
    by_cases heq : a = .node t ev
    · rw [heq, hn, Option.isSome_some]
    · refine isSome_of_built hb' ?_
      simp only [List.map_append, List.map_cons, List.mem_append, List.mem_cons, heq,
        false_or] at ha ⊢
      exact ha

/-- The node of `ev` is in memory and in no tree. -/
structure Free (t : Timer) (m : NgxRbtree (TimerAddr ι) (Option ι)) (ns : List (RbNode ι))
    (ev : ι) : Prop where
  built : m.Built .sentinel (ns.map (entry t))
  out : ∀ n ∈ ns, n.data ≠ ev
  idle : ∀ ev', ev' ≠ ev → Idle t m.heap ns ev'
  sentinel : HasSentinel m.heap

omit [DecidableEq ι] in
lemma node_notMem (hout : ∀ n ∈ ns, n.data ≠ ev) :
    TimerAddr.node t ev ∉ (ns.map (entry t)).map Prod.fst := by
  rw [fst_entry, List.mem_map]
  rintro ⟨n, hn, heq⟩
  exact hout n hn (TimerAddr.node.inj heq).2

/-- A field of a free node is written. -/
lemma Free.store {n : Node (TimerAddr ι) (Entry (Option ι))} (hf : Free t m ns ev)
    (hn : m.heap (.node t ev) = some n)
    (f : Node (TimerAddr ι) (Entry (Option ι)) → Node (TimerAddr ι) (Entry (Option ι))) :
    ∃ m', m.store (some (.node t ev)) f = some m' ∧ Free t m' ns ev ∧
      m'.heap (.node t ev) = some (f n) ∧ Off t m.heap m'.heap := by
  obtain ⟨m', hm, hroot, hn', hc⟩ := NgxRbtree.store_spec hn f
  have hoff : Off t m.heap m'.heap := by
    refine off_of_changes hc (fun a ha => ⟨ev, List.mem_singleton.mp ha⟩) fun a ha => ?_
    rw [List.mem_singleton.mp ha, hn, hn', Option.isSome_some, Option.isSome_some]
  refine ⟨m', hm, ⟨?_, hf.out, ?_, hoff.hasSentinel hf.sentinel⟩, hn', hoff⟩
  · refine hf.built.of_eq hroot (fun a ha => hc _ ?_) hoff.sentinel
    rw [List.mem_singleton]
    intro heq
    exact node_notMem hf.out (List.mem_map.mpr ⟨a, ha, heq⟩)
  · intro ev' hne hout k hk
    rw [hc _ (by simpa using hne)] at hk
    exact hf.idle ev' hne hout k hk

omit [DecidableEq ι] in
/-- The key of a node is set if and only if it is in its tree. -/
lemma ShowsTree.key {n : Node (TimerAddr ι) (Entry (Option ι))} (h : ShowsTree t m ns)
    (harmed : ∀ k ∈ ns, 0 < k.key) (hn : m.heap (.node t ev) = some n) :
    n.val.key ≠ 0 ↔ ∃ k ∈ ns, k.data = ev := by
  constructor
  · intro hkey
    by_contra hno
    refine hkey (h.idle ev (fun k hk heq => hno ⟨k, hk, heq⟩) n hn)
  · rintro ⟨k, hk, rfl⟩
    obtain ⟨n', hn', hval⟩ := h.built.node_of_mem (List.mem_map_of_mem hk)
    obtain rfl : n = n' := Option.some.inj (hn.symm.trans hn')
    rw [hval]
    exact (harmed k hk).ne'

omit [DecidableEq ι] in
/-- The nodes of a tree without one of them. -/
lemma exists_split (hk : ∃ k ∈ ns, k.data = ev) :
    ∃ xs k ys, ns = xs ++ k :: ys ∧ k.data = ev := by
  obtain ⟨k, hk, rfl⟩ := hk
  obtain ⟨xs, ys, rfl⟩ := List.append_of_mem hk
  exact ⟨xs, k, ys, rfl, rfl⟩

/-- The tree without the node of an event. -/
lemma nodes_delete {T : TimerTree ι} (hT : T.nodes = xs ++ k :: ys) :
    (T.delete k.data).nodes = xs ++ ys ∧ ∀ n ∈ xs ++ ys, n.data ≠ k.data := by
  have hnodup := T.nodup
  rw [hT, List.map_append, List.map_cons, List.nodup_append, List.nodup_cons] at hnodup
  obtain ⟨-, ⟨hys, -⟩, hdisj⟩ := hnodup
  have hout : ∀ n ∈ xs ++ ys, n.data ≠ k.data := by
    intro n hn heq
    rcases List.mem_append.mp hn with hn | hn
    · exact hdisj _ (List.mem_map_of_mem hn) _ List.mem_cons_self heq
    · exact hys (heq ▸ List.mem_map_of_mem hn)
  refine ⟨?_, hout⟩
  change T.nodes.filter _ = _
  rw [hT, List.filter_append, List.filter_cons_of_neg (by simp), ← List.filter_append]
  exact List.filter_eq_self.mpr fun n hn => by simpa using hout n hn

/-- An event that is not in the tree. -/
lemma nodes_delete_of_out {T : TimerTree ι} (hout : ∀ n ∈ T.nodes, n.data ≠ ev) :
    (T.delete ev).nodes = T.nodes :=
  List.filter_eq_self.mpr fun n hn => by simpa using hout n hn

/-- A node is taken out of its tree. -/
lemma showsTree_delete {e : Entry (Option ι)}
    (hb : m.Built .sentinel (xs.map (entry t) ++ (.node t k.data, e) :: ys.map (entry t)))
    (hidle : ∀ ev, ev ≠ k.data → Idle t m.heap (xs ++ k :: ys) ev) (hs : HasSentinel m.heap)
    (hfuel : 2 * Nat.log 2 ((xs ++ k :: ys).length + 1) < fuel) :
    ∃ m', m.delete .sentinel fuel (some (.node t k.data)) = some m' ∧
      ShowsTree t m' (xs ++ ys) ∧ (∃ n, m'.heap (.node t k.data) = some n) ∧
        Off t m.heap m'.heap := by
  rw [List.length_append, List.length_cons] at hfuel
  obtain ⟨m', hm, hb', ⟨n, hn, hkey⟩, hsame, hoff⟩ := delete_node hb hfuel
  refine ⟨m', hm, ⟨hb', ?_, hoff.hasSentinel hs⟩, ⟨n, hn⟩, hoff⟩
  intro ev hev n' hn'
  by_cases heq : ev = k.data
  · subst heq
    rwa [Option.some.inj (hn'.symm.trans hn)]
  · rw [hsame ev heq hev] at hn'
    refine hidle ev heq ?_ n' hn'
    intro k' hk'
    rw [List.mem_append, List.mem_cons] at hk'
    rcases hk' with hk' | rfl | hk'
    · exact hev k' (List.mem_append_left _ hk')
    · exact Ne.symm heq
    · exact hev k' (List.mem_append_right _ hk')

omit [DecidableEq ι] in
lemma ShowsTree.built_split (h : ShowsTree t m (xs ++ k :: ys)) :
    m.Built .sentinel (xs.map (entry t) ++ entry t k :: ys.map (entry t)) := by
  have hb := h.built
  rwa [List.map_append, List.map_cons] at hb

omit [DecidableEq ι] in
lemma ShowsTree.free (h : ShowsTree t m ns) (hout : ∀ n ∈ ns, n.data ≠ ev) : Free t m ns ev :=
  ⟨h.built, hout, fun ev' _ => h.idle ev', h.sentinel⟩

omit [DecidableEq ι] in
lemma map_insertNode : (TimerTree.insertNode k ns).map (entry t)
    = (ns.map (entry t)).orderedInsert (·.2.key < ·.2.key) (entry t k) := by
  induction ns with
  | nil => rfl
  | cons n ns ih =>
    rw [TimerTree.insertNode, List.map_cons, List.orderedInsert_cons]
    by_cases hlt : k.key < n.key
    · rw [if_pos hlt, if_pos (show (entry t k).2.key < (entry t n).2.key from hlt)]
      rfl
    · rw [if_neg hlt, if_neg (show ¬ (entry t k).2.key < (entry t n).2.key from hlt),
        List.map_cons, ih]

/-- A free node is put into its tree. -/
lemma Free.insert {n : Node (TimerAddr ι) (Entry (Option ι))} {key : ℕ} (hf : Free t m ns ev)
    (hn : m.heap (.node t ev) = some n) (hval : n.val = ⟨key, some ev⟩)
    (hsorted : ns.Pairwise fun a b => a.key ≤ b.key)
    (hfuel : 2 * Nat.log 2 (ns.length + 1) < fuel) :
    ∃ m', m.insert .sentinel (fun key key' => key < key') fuel (some (.node t ev)) = some m' ∧
      ShowsTree t m' (TimerTree.insertNode ⟨key, ev⟩ ns) ∧ Off t m.heap m'.heap := by
  obtain ⟨m', hm, hb, hc⟩ := NgxRbtree.insert_keeps hf.built (List.pairwise_map.mpr hsorted) hn
    (by simp) (node_notMem hf.out) (by rwa [List.length_map])
  have hoff : Off t m.heap m'.heap := by
    refine off_of_changes hc ?_ ?_
    · intro a ha
      rw [List.mem_cons, fst_entry, List.mem_map] at ha
      grind
    · intro a ha
      have hnew : (m'.heap a).isSome := by
        refine isSome_of_built hb (((List.perm_orderedInsert _ _ _).map _).mem_iff.mpr ?_)
        exact ha
      rw [hnew]
      rcases List.mem_cons.mp ha with rfl | ha
      · rw [hn, Option.isSome_some]
      · exact (isSome_of_built hf.built ha).symm
  refine ⟨m', hm, ⟨?_, ?_, hoff.hasSentinel hf.sentinel⟩, hoff⟩
  · rw [map_insertNode]
    rwa [hval] at hb
  · intro ev' hev n' hn'
    have hne : ev' ≠ ev := Ne.symm (hev _ (TimerTree.mem_insertNode.mpr (.inl rfl)))
    have hout : ∀ k ∈ ns, k.data ≠ ev' := fun k hk => hev k (TimerTree.mem_insertNode.mpr (.inr hk))
    rw [hc _ ?_] at hn'
    · exact hf.idle ev' hne hout n' hn'
    · rw [List.mem_cons, not_or]
      exact ⟨by simpa using hne, node_notMem hout⟩

/-! ## The functions -/

end TimerNodes

/-- The tree of a kind of timers. -/
def Timers.tree {ι : Type} (T : Timers ι) : Timer → TimerTree ι
  | .read => T.rtimerroot
  | .write => T.wtimerroot

def Timers.put {ι : Type} (T : Timers ι) (t : Timer) (u : TimerTree ι) : Timers ι :=
  match t with
  | .read => { T with rtimerroot := u }
  | .write => { T with wtimerroot := u }

namespace TimerNodes

variable {ι : Type}

/-- The same nodes are in memory. -/
def SameNodes (s s' : TimerNodes ι) : Prop := ∀ a, (s'.heap a).isSome = (s.heap a).isSome

/-- The nodes show the timers. -/
def Shows (s : TimerNodes ι) (T : Timers ι) : Prop := ∀ t, ShowsTree t (s.tree t) (T.tree t).nodes

variable [DecidableEq ι] {s : TimerNodes ι} {T : Timers ι} {U : TimerTree ι} {t : Timer}
variable {m : NgxRbtree (TimerAddr ι) (Option ι)} {ev : ι} {fuel now timeSec : ℕ}

lemma tree_put {ι : Type} {T : Timers ι} {U : TimerTree ι} {t t' : Timer} :
    (T.put t U).tree t' = if t' = t then U else T.tree t' := by
  cases t <;> cases t' <;> rfl

omit [DecidableEq ι] in
/-- A function has worked on one tree. -/
lemma Shows.put (h : Shows s T) (hm : ShowsTree t m U.nodes) (hoff : Off t s.heap m.heap) :
    Shows (s.put t m) (T.put t U) := by
  intro t'
  by_cases ht : t' = t
  · subst ht
    have htree : (s.put t' m).tree t' = m :=
      congrArg (fun root => (⟨root, m.heap⟩ : NgxRbtree (TimerAddr ι) (Option ι)))
        (Function.update_self ..)
    rwa [htree, tree_put, if_pos rfl]
  · rw [tree_put, if_neg ht]
    refine ⟨(h t').built.of_eq ?_ ?_ hoff.sentinel, ?_, hoff.hasSentinel (h t').sentinel⟩
    · exact Function.update_of_ne ht _ _
    · intro a ha
      obtain ⟨n, -, rfl⟩ := List.mem_map.mp ha
      exact hoff.other t' _ ht
    · intro ev hev n hn
      have hn' : m.heap (.node t' ev) = some n := hn
      rw [hoff.other t' _ ht] at hn'
      exact (h t').idle ev hev n hn'

/-- The turns that the loops may take for a tree. -/
def Turns (fuel : ℕ) (ns : List (RbNode ι)) : Prop := 2 * Nat.log 2 (ns.length + 1) < fuel

omit [DecidableEq ι] in
lemma Turns.mono {ns ns' : List (RbNode ι)} (h : Turns fuel ns) (hlen : ns'.length ≤ ns.length) :
    Turns fuel ns' := by
  refine lt_of_le_of_lt (Nat.mul_le_mul_left 2 (Nat.log_mono_right ?_)) h
  exact Nat.succ_le_succ hlen

/-- The node is free for `SetReadTimeOut` or `SetWriteTimeOut`. -/
lemma freeNode_spec (h : ShowsTree t (s.tree t) U.nodes)
    {n : Node (TimerAddr ι) (Entry (Option ι))} (hn : s.heap (.node t ev) = some n)
    (hfuel : Turns fuel U.nodes) :
    ∃ m₁ n₁, s.freeNode fuel t ev = some m₁ ∧ Free t m₁ (U.delete ev).nodes ev ∧
      m₁.heap (.node t ev) = some n₁ ∧ Off t s.heap m₁.heap := by
  have e : (s.tree t).key (some (.node t ev)) = some n.val.key := NgxRbtree.key_eq hn
  simp only [freeNode, e, Option.bind_eq_bind, Option.bind_some]
  by_cases hmem : ∃ k ∈ U.nodes, k.data = ev
  · obtain ⟨xs, k, ys, hU, rfl⟩ := exists_split hmem
    obtain ⟨hdel, hout⟩ := nodes_delete hU
    rw [if_pos ((h.key U.armed hn).mpr hmem), hdel]
    rw [hU] at h
    obtain ⟨m₁, e₁, hm, ⟨n₁, hn₁⟩, hoff₁⟩ := showsTree_delete h.built_split (fun ev _ => h.idle ev)
      h.sentinel (by rwa [Turns, hU] at hfuel)
    obtain ⟨m₂, e₂, hf, hn₂, hoff₂⟩ := (hm.free hout).store hn₁ fun n =>
      { n with val := { n.val with key := 0 } }
    refine ⟨m₂, _, ?_, hf, hn₂, hoff₁.trans hoff₂⟩
    rw [e₁]
    exact e₂
  · have hout : ∀ k ∈ U.nodes, k.data ≠ ev := fun k hk heq => hmem ⟨k, hk, heq⟩
    rw [if_neg (mt (h.key U.armed hn).mp hmem), nodes_delete_of_out hout]
    obtain ⟨m₁, e₁, hf, hn₁, hoff₁⟩ := (h.free hout).store hn (·.setParent none)
    obtain ⟨m₂, e₂, hf, hn₂, hoff₂⟩ := hf.store hn₁ (·.setChild .left (some .sentinel))
    obtain ⟨m₃, e₃, hf, hn₃, hoff₃⟩ := hf.store hn₂ (·.setChild .right (some .sentinel))
    refine ⟨m₃, _, ?_, hf, hn₃, hoff₁.trans (hoff₂.trans hoff₃)⟩
    simp only [NgxRbtree.setParent, NgxRbtree.setChild, e₁, e₂, e₃, Option.bind_some]

/-- `SetReadTimeOut` and `SetWriteTimeOut` on the nodes do what they do to the timers. -/
lemma setTimeOut_spec (timeSec : ℕ) (h : Shows s T) (hev : (s.heap (.node t ev)).isSome)
    (hnow : 0 < now) (hfuel : Turns fuel (T.tree t).nodes) :
    ∃ s', s.setTimeOut fuel t ev now timeSec = some s' ∧
      Shows s' (T.put t ((T.tree t).setTimeOut ev now timeSec hnow)) ∧ SameNodes s s' := by
  obtain ⟨n, hn⟩ := Option.isSome_iff_exists.mp hev
  have hlen : ((T.tree t).delete ev).nodes.length ≤ (T.tree t).nodes.length :=
    List.length_filter_le _ _
  obtain ⟨m₁, n₁, e₁, hf, hn₁, hoff₁⟩ := freeNode_spec (h t) hn hfuel
  obtain ⟨m₂, e₂, hf, hn₂, hoff₂⟩ := hf.store hn₁ fun n =>
    { n with val := { n.val with data := some ev } }
  obtain ⟨m₃, e₃, hf, hn₃, hoff₃⟩ := hf.store hn₂ fun n =>
    { n with val := { n.val with key := now + timeSec } }
  obtain ⟨m₄, e₄, hm₄, hoff₄⟩ := hf.insert hn₃ rfl ((T.tree t).delete ev).sorted (hfuel.mono hlen)
  have hoff := hoff₁.trans (hoff₂.trans (hoff₃.trans hoff₄))
  refine ⟨s.put t m₄, ?_, h.put hm₄ hoff, hoff.same⟩
  simp only [setTimeOut, NgxRbtree.setData, NgxRbtree.setKey, Option.bind_eq_bind, Option.bind_some,
    Option.pure_def, e₁, e₂, e₃, e₄]

/-- `DelReadTimeOut` and `DelWriteTimeOut` on the nodes do what they do to the timers. -/
lemma delTimeOut_spec (h : Shows s T) (hev : (s.heap (.node t ev)).isSome)
    (hfuel : Turns fuel (T.tree t).nodes) :
    ∃ s', s.delTimeOut fuel t ev = some s' ∧ Shows s' (T.put t ((T.tree t).delete ev)) ∧
      SameNodes s s' := by
  obtain ⟨n, hn⟩ := Option.isSome_iff_exists.mp hev
  have ht := h t
  have e : (s.tree t).key (some (.node t ev)) = some n.val.key := NgxRbtree.key_eq hn
  simp only [delTimeOut, e, Option.bind_eq_bind, Option.bind_some, Option.pure_def]
  by_cases hmem : ∃ k ∈ (T.tree t).nodes, k.data = ev
  · rw [if_pos ((ht.key (T.tree t).armed hn).mpr hmem)]
    obtain ⟨xs, k, ys, hT, rfl⟩ := exists_split hmem
    obtain ⟨hdel, hout⟩ := nodes_delete hT
    rw [hT] at ht
    -- the key is cleared before the node is taken out
    obtain ⟨m₁, e₁, hb, hc⟩ := ht.built_split.setVal fun v => { v with key := 0 }
    have hoff₁ : Off t s.heap m₁.heap := by
      refine off_of_changes hc (fun a ha => ⟨k.data, List.mem_singleton.mp ha⟩) fun a ha => ?_
      rw [List.mem_singleton.mp ha]
      exact (isSome_of_built hb (by simp)).trans (isSome_of_built ht.built_split (by simp)).symm
    obtain ⟨m₂, e₂, hm, -, hoff₂⟩ := showsTree_delete hb
      (fun ev hne hev n hn => ht.idle ev hev n (by
        rw [hc _ (by simpa [entry] using hne)] at hn
        exact hn))
      (hoff₁.hasSentinel ht.sentinel) (by rwa [Turns, hT] at hfuel)
    refine ⟨s.put t m₂, ?_, h.put (hdel ▸ hm) (hoff₁.trans hoff₂), (hoff₁.trans hoff₂).same⟩
    have e₁ : (s.tree t).setKey (some (.node t k.data)) 0 = some m₁ := e₁
    simp only [e₁, e₂, Option.bind_some]
  · have hout : ∀ k ∈ (T.tree t).nodes, k.data ≠ ev := fun k hk heq => hmem ⟨k, hk, heq⟩
    rw [if_neg (mt (ht.key (T.tree t).armed hn).mp hmem)]
    refine ⟨s, rfl, fun t' => ?_, fun _ => rfl⟩
    rw [tree_put]
    split
    · rename_i ht'
      rw [ht', nodes_delete_of_out hout]
      exact ht
    · exact h t'

/-! ### `ProcessTimeOut` -/

omit [DecidableEq ι] in
lemma HasSentinel.off {h : Heap (TimerAddr ι) (Entry (Option ι))} (hs : HasSentinel h) :
    Off t h h := by
  obtain ⟨q, hq⟩ := hs
  exact ⟨fun _ _ _ => rfl, ⟨q, by rw [hq]; rfl⟩, fun _ => rfl⟩

/-- The leftmost node, or the sentinel. -/
lemma ShowsTree.min {ns : List (RbNode ι)} (h : ShowsTree t m ns) (hfuel : Turns fuel ns) :
    ∃ left, m.min .sentinel fuel m.root = some left ∧ m.key left = some (TimerTree.minKey ns) ∧
      ∀ n ∈ ns.head?, left = some (.node t n.data) ∧ m.data left = some (some n.data) := by
  obtain ⟨q, hq⟩ := h.sentinel
  have hmin := h.built.min ⟨_, hq, rfl⟩ (by rwa [List.length_map])
  refine ⟨_, hmin, ?_, ?_⟩
  · cases ns with
    | nil => exact NgxRbtree.key_eq hq
    | cons n ns =>
      obtain ⟨n', hn', hval⟩ := h.built.node_of_mem List.mem_cons_self
      exact (NgxRbtree.key_eq hn').trans (by rw [hval]; rfl)
  · intro n hn
    cases ns with
    | nil => cases hn
    | cons n' ns =>
      obtain rfl : n = n' := by simpa using hn.symm
      obtain ⟨n', hn', hval⟩ := h.built.node_of_mem List.mem_cons_self
      refine ⟨rfl, ?_⟩
      change (m.heap (entry t n).1).map (·.val.data) = _
      rw [hn', Option.map_some, hval]
      rfl

/-- The loop on the nodes takes out the nodes that the loop on the timers takes out. -/
lemma expireLoop_spec (now : ℕ) {ns : List (RbNode ι)} {k : ℕ} (h : ShowsTree t m ns)
    (hfuel : Turns fuel ns) (hk : ns.length < k) :
    ∃ m', expireLoop fuel now k m = some ((TimerTree.expireLoop now ns).1, m',
        TimerTree.minKey (TimerTree.expireLoop now ns).2) ∧
      ShowsTree t m' (TimerTree.expireLoop now ns).2 ∧ Off t m.heap m'.heap := by
  induction ns generalizing m k with
  | nil =>
    obtain ⟨k, rfl⟩ := Nat.exists_eq_add_of_lt hk
    obtain ⟨left, e₁, e₂, -⟩ := h.min hfuel
    refine ⟨m, ?_, h, h.sentinel.off⟩
    rw [expireLoop]
    simp [e₁, e₂, TimerTree.minKey, TimerTree.expireLoop]
  | cons n ns ih =>
    rw [List.length_cons] at hk
    obtain ⟨k, rfl⟩ : ∃ k', k = k' + 1 := Nat.exists_eq_add_one.mpr (by omega)
    obtain ⟨left, e₁, e₂, hleft⟩ := h.min hfuel
    obtain ⟨rfl, e₃⟩ := hleft n rfl
    rw [expireLoop, TimerTree.expireLoop]
    simp only [Option.bind_eq_bind, Option.bind_some, Option.pure_def, e₁, e₂, e₃, TimerTree.minKey]
    by_cases hdue : 0 < n.key ∧ n.key ≤ now
    · have hb : m.Built .sentinel (([] : List (RbNode ι)).map (entry t) ++ entry t n ::
          ns.map (entry t)) := h.built
      obtain ⟨m₁, e₄, h₁, -, hoff₁⟩ :=
        showsTree_delete hb (fun ev _ => h.idle ev) h.sentinel hfuel
      obtain ⟨m₂, e₅, h₂, hoff₂⟩ := ih h₁ (hfuel.mono (by simp)) (by omega : ns.length < k)
      refine ⟨m₂, ?_, by rwa [if_pos hdue], hoff₁.trans hoff₂⟩
      rw [if_pos hdue, if_pos hdue, e₄, Option.bind_some]
      exact (congrArg (Option.bind · _) e₅).trans rfl
    · rw [if_neg hdue, if_neg hdue]
      exact ⟨m, rfl, h, h.sentinel.off⟩

/-- `ProcessTimeOut` on the nodes returns and reports what it returns and reports for the timers. -/
lemma processTimeOut_spec (now : ℕ) (h : Shows s T) (hfuel : ∀ t, Turns fuel (T.tree t).nodes)
    (hk : ∀ t, (T.tree t).nodes.length < fuel) :
    ∃ s', s.processTimeOut fuel now
        = some ((T.processTimeOut now).ret, (T.processTimeOut now).reported, s') ∧
      Shows s' (T.processTimeOut now).timers ∧ SameNodes s s' := by
  obtain ⟨m₁, e₁, h₁, hoff₁⟩ := expireLoop_spec now (h .write) (hfuel .write) (hk .write)
  have hs₁ := h.put (U := (T.wtimerroot.expire now).2) h₁ hoff₁
  have hread : ((s.put .write m₁).tree .read).heap = m₁.heap := rfl
  obtain ⟨m₂, e₂, h₂, hoff₂⟩ := expireLoop_spec now (hs₁ .read) (hfuel .read) (hk .read)
  refine ⟨(s.put .write m₁).put .read m₂, ?_, hs₁.put (U := (T.rtimerroot.expire now).2) h₂ hoff₂,
    fun a => (hoff₂.same a).trans (hoff₁.same a)⟩
  simp only [processTimeOut, e₁, Option.bind_eq_bind, Option.bind_some, Option.pure_def]
  exact (congrArg (Option.bind · _) e₂).trans rfl

/-! ### Any number of turns -/

lemma grows_setTimeOut : Grows fun fuel => s.setTimeOut fuel t ev now timeSec := by
  intro fuel
  simp only [setTimeOut]
  refine .bind ?_ fun m => .bind .refl fun m => .bind .refl fun m =>
    .bind (NgxRbtree.grows_insert _ _ fuel) fun _ => .refl
  simp only [freeNode]
  exact .bind .refl fun _ => .ite (.bind (NgxRbtree.grows_delete _ fuel) fun _ => .refl) .refl

lemma grows_delTimeOut : Grows fun fuel => s.delTimeOut fuel t ev := by
  intro fuel
  simp only [delTimeOut]
  exact .bind .refl fun _ => .ite (.bind .refl fun m =>
    .bind (NgxRbtree.grows_delete _ fuel) fun _ => .refl) .refl

lemma le_expireLoop (fuel k : ℕ) :
    Le (expireLoop fuel now k m) (expireLoop (fuel + 1) now (k + 1) m) := by
  induction k generalizing m with
  | zero => exact le_none
  | succ k ih =>
    rw [expireLoop, expireLoop]
    refine .bind (NgxRbtree.grows_min _ fuel) fun _ => .bind .refl fun _ => .ite ?_ .refl
    exact .bind .refl fun _ => .bind .refl fun _ =>
      .bind (NgxRbtree.grows_delete _ fuel) fun _ => .bind ih fun _ => .refl

lemma grows_processTimeOut : Grows fun fuel => s.processTimeOut fuel now := by
  intro fuel
  simp only [processTimeOut]
  exact .bind (le_expireLoop fuel fuel) fun _ => .bind (le_expireLoop fuel fuel) fun _ => .refl

end TimerNodes

/-! ## Runs -/

/-- What happens to the timers of a poller. -/
inductive TimerAct (ι : Type)
  | setTimeOut (t : Timer) (ev : ι) (now timeSec : ℕ)
  | delTimeOut (t : Timer) (ev : ι)
  /-- With what it returns and what it reports. -/
  | processTimeOut (now : ℕ) (ret : Option ℤ) (reported : List (ι × BitVec 32))
  /-- The constructor of an event, which leaves the other fields as they are in memory. -/
  | create (ev : ι) (memory : Timer → Node (TimerAddr ι) (Entry (Option ι)))
  /-- An event is deleted. -/
  | delete (ev : ι)
  /-- Another poller writes to the parent of the sentinel. -/
  | other (parent : Option (TimerAddr ι))

namespace TimerNodes

variable {ι : Type} [DecidableEq ι]

/-- `IOEvent::IOEvent` -/
def create (s : TimerNodes ι) (ev : ι) (memory : Timer → Node (TimerAddr ι) (Entry (Option ι))) :
    TimerNodes ι where
  root := s.root
  heap
    | .node t ev' =>
        if ev' = ev then
          some { memory t with val := { (memory t).val with key := 0 }, parent := none }
        else s.heap (.node t ev')
    | .sentinel => s.heap .sentinel

/-- The memory of an event is freed. -/
def delete (s : TimerNodes ι) (ev : ι) : TimerNodes ι where
  root := s.root
  heap
    | .node t ev' => if ev' = ev then none else s.heap (.node t ev')
    | .sentinel => s.heap .sentinel

/-- The functions are called for events that are there.  An event is deleted when its references
are given back, so that no timer of it is set. -/
def Step (s : TimerNodes ι) : TimerAct ι → TimerNodes ι → Prop
  | .setTimeOut t ev now timeSec, s' =>
      ((s.heap (.node t ev)).isSome ∧ 0 < now) ∧
        ∃ fuel, s.setTimeOut fuel t ev now timeSec = some s'
  | .delTimeOut t ev, s' =>
      (s.heap (.node t ev)).isSome ∧ ∃ fuel, s.delTimeOut fuel t ev = some s'
  | .processTimeOut now ret reported, s' =>
      ∃ fuel, s.processTimeOut fuel now = some (ret, reported, s')
  | .create ev memory, s' => (∀ t, s.heap (.node t ev) = none) ∧ s' = s.create ev memory
  | .delete ev, s' =>
      (∀ t, ∃ n, s.heap (.node t ev) = some n ∧ n.val.key = 0) ∧ s' = s.delete ev
  | .other parent, s' => s' = { s with heap := s.heap.modify .sentinel (·.setParent parent) }

/-- The key of an event, if the event is there. -/
def keys (s : TimerNodes ι) (t : Timer) (ev : ι) : Option ℕ :=
  (s.heap (.node t ev)).map (·.val.key)

/-- What an action does to the keys. -/
def keysAfter : TimerAct ι → (Timer → ι → Option ℕ) → Timer → ι → Option ℕ
  | .setTimeOut t' ev' now timeSec, keys, t, ev =>
      if t' = t ∧ ev' = ev then some (now + timeSec) else keys t ev
  | .delTimeOut t' ev', keys, t, ev => if t' = t ∧ ev' = ev then some 0 else keys t ev
  | .processTimeOut now _ _, keys, t, ev =>
      (keys t ev).map fun key => if key ≤ now then 0 else key
  | .create ev' _, keys, t, ev => if ev' = ev then some 0 else keys t ev
  | .delete ev', keys, t, ev => if ev' = ev then none else keys t ev
  | .other _, keys, t, ev => keys t ev

/-- Every call of a function comes to an end. -/
structure Live (s : TimerNodes ι) : Prop where
  setTimeOut : ∀ t ev now timeSec, (s.heap (.node t ev)).isSome → 0 < now →
    ∃ s', s.Step (.setTimeOut t ev now timeSec) s'
  delTimeOut : ∀ t ev, (s.heap (.node t ev)).isSome → ∃ s', s.Step (.delTimeOut t ev) s'
  processTimeOut : ∀ now, ∃ ret reported s', s.Step (.processTimeOut now ret reported) s'

end TimerNodes

namespace Timers

variable {ι : Type} [DecidableEq ι]

def init : Timers ι := ⟨.init, .init⟩

/-- The same for the timers, where a node is in its tree when its timer is set. -/
def Step (T : Timers ι) : TimerAct ι → Timers ι → Prop
  | .setTimeOut t ev now timeSec, T' =>
      ∃ hnow, T' = T.put t ((T.tree t).setTimeOut ev now timeSec hnow)
  | .delTimeOut t ev, T' => T' = T.put t ((T.tree t).delete ev)
  | .processTimeOut now ret reported, T' => T.processTimeOut now = ⟨ret, reported, T'⟩
  | .create _ _, T' => T' = T
  | .delete ev, T' => (∀ t, ∀ n ∈ (T.tree t).nodes, n.data ≠ ev) ∧ T' = T
  | .other _, T' => T' = T

end Timers

namespace TimerNodes

variable {ι : Type} [DecidableEq ι] {s s' : TimerNodes ι} {T : Timers ι} {a : TimerAct ι}

omit [DecidableEq ι] in
/-- Turns that are enough for both trees. -/
lemma exists_turns (T : Timers ι) :
    ∃ fuel, ∀ t, Turns fuel (T.tree t).nodes ∧ (T.tree t).nodes.length < fuel := by
  refine ⟨2 * Nat.log 2 (T.rtimerroot.nodes.length + 1)
    + 2 * Nat.log 2 (T.wtimerroot.nodes.length + 1) + T.rtimerroot.nodes.length
    + T.wtimerroot.nodes.length + 1, ?_⟩
  rintro (_ | _)
  all_goals
    simp only [Turns, Timers.tree]
    omega

/-- The functions come to an end. -/
lemma Shows.live (h : Shows s T) : s.Live where
  setTimeOut t ev now timeSec hev hnow := by
    obtain ⟨fuel, hfuel⟩ := exists_turns T
    obtain ⟨s', e, -⟩ := setTimeOut_spec timeSec h hev hnow (hfuel t).1
    exact ⟨s', ⟨hev, hnow⟩, fuel, e⟩
  delTimeOut t ev hev := by
    obtain ⟨fuel, hfuel⟩ := exists_turns T
    obtain ⟨s', e, -⟩ := delTimeOut_spec h hev (hfuel t).1
    exact ⟨s', hev, fuel, e⟩
  processTimeOut now := by
    obtain ⟨fuel, hfuel⟩ := exists_turns T
    obtain ⟨s', e, -⟩ := processTimeOut_spec now h (fun t => (hfuel t).1) fun t => (hfuel t).2
    exact ⟨_, _, s', fuel, e⟩

/-- The constructor of an event writes to no tree. -/
lemma Shows.create {memory : Timer → Node (TimerAddr ι) (Entry (Option ι))} (h : Shows s T)
    (hnew : ∀ t, s.heap (.node t ev) = none) : Shows (s.create ev memory) T := by
  intro t
  have ht := h t
  refine ⟨ht.built.of_eq rfl ?_ (ht.sentinel.off (t := t)).sentinel, ?_, ht.sentinel⟩
  · intro a ha
    obtain ⟨n, -, rfl⟩ := List.mem_map.mp ha
    have hne : n.data ≠ ev := by
      rintro rfl
      obtain ⟨n', hn', -⟩ := ht.built.node_of_mem ha
      exact absurd hn' (by simp [tree, entry, hnew t])
    exact if_neg hne
  · intro ev' hout n hn
    have hn : (if ev' = ev then some { memory t with
          val := { (memory t).val with key := 0 }, parent := none }
        else s.heap (.node t ev')) = some n := hn
    split at hn
    · obtain rfl := Option.some.inj hn
      rfl
    · exact ht.idle ev' hout n hn

omit [DecidableEq ι] in
/-- An event whose keys are 0 is in no tree. -/
lemma Shows.out (h : Shows s T) (hidle : ∀ t, ∃ n, s.heap (.node t ev) = some n ∧ n.val.key = 0)
    (t : Timer) : ∀ n ∈ (T.tree t).nodes, n.data ≠ ev := by
  obtain ⟨n, hn, hkey⟩ := hidle t
  intro k hk heq
  exact ((h t).key (T.tree t).armed hn).mpr ⟨k, hk, heq⟩ hkey

/-- The memory of an event that is in no tree is freed. -/
lemma Shows.delete (h : Shows s T) (hout : ∀ t, ∀ n ∈ (T.tree t).nodes, n.data ≠ ev) :
    Shows (s.delete ev) T := by
  intro t
  have ht := h t
  refine ⟨ht.built.of_eq rfl ?_ (ht.sentinel.off (t := t)).sentinel, ?_, ht.sentinel⟩
  · intro a ha
    obtain ⟨n, hn, rfl⟩ := List.mem_map.mp ha
    exact if_neg (hout t n hn)
  · intro ev' hev n hn
    have hn : (if ev' = ev then none else s.heap (.node t ev')) = some n := hn
    split at hn
    · cases hn
    · exact ht.idle ev' hev n hn

/-- The parent of the sentinel belongs to no tree. -/
lemma Shows.other {parent : Option (TimerAddr ι)} (h : Shows s T) :
    Shows { s with heap := s.heap.modify .sentinel (·.setParent parent) } T := by
  have hoff : ∀ t, Off t s.heap (s.heap.modify .sentinel (·.setParent parent)) := fun t =>
    ⟨fun t' ev _ => rfl, ⟨parent, rfl⟩, fun _ => Heap.isSome_modify⟩
  intro t
  have ht := h t
  exact ⟨ht.built.of_eq rfl (fun a ha => by
    obtain ⟨n, -, rfl⟩ := List.mem_map.mp ha
    rfl) (hoff t).sentinel, ht.idle, (hoff t).hasSentinel ht.sentinel⟩

/-! ### The keys -/

omit [DecidableEq ι] in
/-- The key of an event is the key of its node in the tree. -/
lemma Shows.keys_eq_some (h : Shows s T) {key : ℕ} (hkey : 0 < key) :
    s.keys t ev = some key ↔ ⟨key, ev⟩ ∈ (T.tree t).nodes := by
  have hkeys : ∀ n ∈ (T.tree t).nodes, s.keys t n.data = some n.key := by
    intro n hn
    obtain ⟨n', hn', hval⟩ := (h t).built.node_of_mem (List.mem_map_of_mem hn)
    have hn' : s.heap (.node t n.data) = some n' := hn'
    rw [keys, hn', Option.map_some, hval]
    rfl
  constructor
  · intro hev
    obtain ⟨n, hn, rfl⟩ := Option.map_eq_some_iff.mp hev
    obtain ⟨k, hk, rfl⟩ := ((h t).key (T.tree t).armed hn).mp hkey.ne'
    rw [hkeys k hk] at hev
    rwa [← Option.some.inj hev]
  · intro hmem
    exact hkeys _ hmem

/-- Two keys are the same when they are if they are set. -/
lemma key_ext {x y : Option ℕ} (hmem : x.isSome = y.isSome)
    (hset : ∀ key, 0 < key → (x = some key ↔ y = some key)) : x = y := by
  cases x with
  | none =>
    cases y with
    | none => rfl
    | some key => exact Bool.noConfusion hmem
  | some key =>
    obtain ⟨key', rfl⟩ := Option.isSome_iff_exists.mp hmem.symm
    by_cases hkey : 0 < key
    · exact ((hset key hkey).mp rfl).symm
    · by_cases hkey' : 0 < key'
      · exact (hset key' hkey').mpr rfl
      · rw [Nat.eq_zero_of_not_pos hkey, Nat.eq_zero_of_not_pos hkey']

omit [DecidableEq ι] in
/-- The keys are those of the trees. -/
lemma Shows.keys_ext {keys : Timer → ι → Option ℕ} (h : Shows s T)
    (hmem : ∀ t ev, (s.keys t ev).isSome = (keys t ev).isSome)
    (hset : ∀ t ev key, 0 < key → (⟨key, ev⟩ ∈ (T.tree t).nodes ↔ keys t ev = some key)) :
    s.keys = keys := by
  funext t ev
  refine key_ext (hmem t ev) fun key hkey => ?_
  rw [h.keys_eq_some hkey]
  exact hset t ev key hkey

omit [DecidableEq ι] in
lemma SameNodes.keys {s s' : TimerNodes ι} (h : SameNodes s s') (t : Timer) (ev : ι) :
    (s'.keys t ev).isSome = (s.keys t ev).isSome := by
  rw [TimerNodes.keys, TimerNodes.keys, Option.isSome_map, Option.isSome_map]
  exact h _

lemma keys_setTimeOut {hnow : 0 < now} (h : Shows s T) (hev : (s.heap (.node t ev)).isSome)
    (h' : Shows s' (T.put t ((T.tree t).setTimeOut ev now timeSec hnow))) (hsame : SameNodes s s') :
    s'.keys = keysAfter (.setTimeOut t ev now timeSec) s.keys := by
  refine h'.keys_ext ?_ ?_
  · intro t' ev'
    rw [hsame.keys, keysAfter]
    split
    · rename_i heq
      rw [← heq.1, ← heq.2, TimerNodes.keys, Option.isSome_map, hev, Option.isSome_some]
    · rfl
  · intro t' ev' key hkey
    rw [tree_put, keysAfter]
    by_cases ht : t' = t
    · subst ht
      rw [if_pos rfl]
      change _ ∈ TimerTree.insertNode _ ((T.tree t').nodes.filter _) ↔ _
      rw [TimerTree.mem_insertNode, List.mem_filter, ← h.keys_eq_some hkey]
      by_cases heq : ev = ev'
      · subst heq
        simp [eq_comm]
      · simp [heq, Ne.symm heq]
    · rw [if_neg ht, if_neg fun hc => ht hc.1.symm, h.keys_eq_some hkey]

lemma keys_delTimeOut (h : Shows s T) (hev : (s.heap (.node t ev)).isSome)
    (h' : Shows s' (T.put t ((T.tree t).delete ev))) (hsame : SameNodes s s') :
    s'.keys = keysAfter (.delTimeOut t ev) s.keys := by
  refine h'.keys_ext ?_ ?_
  · intro t' ev'
    rw [hsame.keys, keysAfter]
    split
    · rename_i heq
      rw [← heq.1, ← heq.2, TimerNodes.keys, Option.isSome_map, hev, Option.isSome_some]
    · rfl
  · intro t' ev' key hkey
    rw [tree_put, keysAfter]
    by_cases ht : t' = t
    · subst ht
      rw [if_pos rfl]
      change _ ∈ (T.tree t').nodes.filter _ ↔ _
      rw [List.mem_filter, ← h.keys_eq_some hkey]
      by_cases heq : ev = ev'
      · subst heq
        simp [hkey.ne]
      · simp [heq, Ne.symm heq]
    · rw [if_neg ht, if_neg fun hc => ht hc.1.symm, h.keys_eq_some hkey]

lemma keys_processTimeOut {ret : Option ℤ} {reported : List (ι × BitVec 32)} (h : Shows s T)
    (h' : Shows s' (T.processTimeOut now).timers) (hsame : SameNodes s s') :
    s'.keys = keysAfter (.processTimeOut now ret reported) s.keys := by
  refine h'.keys_ext ?_ ?_
  · intro t ev
    rw [hsame.keys, keysAfter, Option.isSome_map]
  · intro t ev key hkey
    have htree : ((T.processTimeOut now).timers.tree t).nodes
        = (T.tree t).nodes.filter (now < ·.key) := by
      cases t with
      | read => exact T.rtimerroot.nodes_expire now
      | write => exact T.wtimerroot.nodes_expire now
    rw [htree, List.mem_filter, ← h.keys_eq_some hkey, keysAfter, Option.map_eq_some_iff]
    grind

/-- A step on the nodes is a step of the timers, and does to the keys what the action does. -/
lemma Shows.step (h : Shows s T) (hstep : s.Step a s') :
    ∃ T', T.Step a T' ∧ Shows s' T' ∧ s'.keys = keysAfter a s.keys := by
  obtain ⟨fuel, hfuel⟩ := exists_turns T
  cases a with
  | setTimeOut t ev now timeSec =>
    obtain ⟨⟨hev, hnow⟩, k, e⟩ := hstep
    obtain ⟨s₁, e₁, h₁, hsame⟩ := setTimeOut_spec timeSec h hev hnow (hfuel t).1
    obtain rfl := grows_setTimeOut.unique e e₁
    exact ⟨_, ⟨hnow, rfl⟩, h₁, keys_setTimeOut h hev h₁ hsame⟩
  | delTimeOut t ev =>
    obtain ⟨hev, k, e⟩ := hstep
    obtain ⟨s₁, e₁, h₁, hsame⟩ := delTimeOut_spec h hev (hfuel t).1
    obtain rfl := grows_delTimeOut.unique e e₁
    exact ⟨_, rfl, h₁, keys_delTimeOut h hev h₁ hsame⟩
  | processTimeOut now ret reported =>
    obtain ⟨k, e⟩ := hstep
    obtain ⟨s₁, e₁, h₁, hsame⟩ :=
      processTimeOut_spec now h (fun t => (hfuel t).1) fun t => (hfuel t).2
    obtain ⟨rfl, rfl, rfl⟩ := Prod.mk.injEq .. ▸ grows_processTimeOut.unique e e₁
    exact ⟨_, rfl, h₁, keys_processTimeOut h h₁ hsame⟩
  | create ev memory =>
    obtain ⟨hnew, rfl⟩ := hstep
    refine ⟨T, rfl, h.create hnew, ?_⟩
    funext t ev'
    simp only [keys, keysAfter, TimerNodes.create, eq_comm (a := ev')]
    split
    · rfl
    · rfl
  | delete ev =>
    obtain ⟨hidle, rfl⟩ := hstep
    refine ⟨T, ⟨h.out hidle, rfl⟩, h.delete (h.out hidle), ?_⟩
    funext t ev'
    simp only [keys, keysAfter, TimerNodes.delete, eq_comm (a := ev')]
    split
    · rfl
    · rfl
  | other parent =>
    obtain rfl := hstep
    exact ⟨T, rfl, h.other, rfl⟩

omit [DecidableEq ι] in
lemma shows_init (parent : Option (TimerAddr ι)) : Shows (init parent) .init := by
  intro t
  refine ⟨⟨none, .nil, ⟨⟨rfl, trivial, ?_, ?_⟩, _, rfl, rfl⟩, ⟨rfl, 0, rfl⟩, ?_⟩, ?_, parent, rfl⟩
  · exact List.nodup_nil
  · exact List.not_mem_nil
  · cases t <;> rfl
  · intro ev _ n hn
    cases hn

variable {parent : Option (TimerAddr ι)} {h : List (TimerNodes ι × TimerAct ι)}

lemma shows_run (hrun : Exec.Run Step (init parent) h s) :
    ∃ h' T, Exec.Run Timers.Step .init h' T ∧ h'.map Prod.snd = h.map Prod.snd ∧ Shows s T := by
  refine hrun.simulates (shows_init parent) fun s T a s' hs hst => ?_
  obtain ⟨T', hT', hs', -⟩ := hs.step hst
  exact ⟨T', hT', hs'⟩

/-! ### A run -/

/-- An event, whose nodes are in memory that was used before. -/
def someMemory : Timer → Node (TimerAddr ℕ) (Entry (Option ℕ)) :=
  fun _ => ⟨⟨7, none⟩, .red, none, some (.node .read 1), some .sentinel⟩

def madeEvent : TimerNodes ℕ := (init none).create 0 someMemory

/-- Its read timer is set for the second 2. -/
def armedEvent : TimerNodes ℕ := (madeEvent.setTimeOut 1 .read 0 1 1).get (by decide)

/-- It expires. -/
def firedEvent : TimerNodes ℕ := ((armedEvent.processTimeOut 2 2).get (by decide)).2.2

lemma run_firedEvent : Exec.Run Step (init none)
    [(init none, .create 0 someMemory), (madeEvent, .setTimeOut .read 0 1 1),
      (armedEvent, .processTimeOut 2 (some (-1)) [(0, readTimeOut)])] firedEvent := by
  have hmade : (init none).Step (.create 0 someMemory) madeEvent := ⟨fun _ => rfl, rfl⟩
  have harmed : madeEvent.Step (.setTimeOut .read 0 1 1) armedEvent :=
    ⟨⟨rfl, Nat.one_pos⟩, 1, (Option.some_get _).symm⟩
  have hfired : armedEvent.Step (.processTimeOut 2 (some (-1)) [(0, readTimeOut)]) firedEvent := by
    refine ⟨2, ?_⟩
    have hret : ((armedEvent.processTimeOut 2 2).get (by decide)).1 = some (-1) := by decide
    have hreported :
        ((armedEvent.processTimeOut 2 2).get (by decide)).2.1 = [(0, readTimeOut)] := by decide
    have hsome : (armedEvent.processTimeOut 2 2).isSome := by decide
    rw [← Option.some_get hsome, ← hret, ← hreported]
    rfl
  exact ((Exec.Run.nil.snoc hmade).snoc harmed).snoc hfired

/-- A run of the functions on the nodes is a run of them on the timers, with the same arguments,
waits and reports, and at its end every function can be called and returns. -/
theorem timers_run (hrun : Exec.Run Step (init parent) h s) :
    ∃ h' T, Exec.Run Timers.Step .init h' T ∧ h'.map Prod.snd = h.map Prod.snd ∧ Shows s T ∧
      s.Live := by
  obtain ⟨h', T, hrun', hacts, hs⟩ := shows_run hrun
  exact ⟨h', T, hrun', hacts, hs, hs.live⟩

theorem timers_run_firedEvent : ∃ h' T, Exec.Run Timers.Step .init h' T ∧
    h'.map Prod.snd = [.create 0 someMemory, .setTimeOut .read 0 1 1,
      .processTimeOut 2 (some (-1)) [(0, readTimeOut)]] ∧ Shows firedEvent T ∧ firedEvent.Live :=
  timers_run run_firedEvent

/-- A timer is reported when its key is due. -/
lemma Shows.count_reported {now : ℕ} {t : Timer} {ev : ι} (h : Shows s T) :
    (T.processTimeOut now).reported.count (ev, t.flag)
      = if ∃ key, s.keys t ev = some key ∧ 0 < key ∧ key ≤ now then 1 else 0 := by
  have hcount : (T.processTimeOut now).reported.count (ev, t.flag)
      = ((T.tree t).expire now).1.count ev := by
    cases t with
    | read => exact (Timers.count_reported T now ev).1
    | write => exact (Timers.count_reported T now ev).2
  rw [hcount, TimerTree.count_expire]
  refine if_congr ?_ rfl rfl
  constructor
  · rintro ⟨n, hn, rfl, hdue⟩
    have hkey := (T.tree t).armed n hn
    exact ⟨n.key, (h.keys_eq_some hkey).mpr hn, hkey, hdue⟩
  · rintro ⟨key, hev, hkey, hdue⟩
    exact ⟨⟨key, ev⟩, (h.keys_eq_some hkey).mp hev, rfl, hdue⟩

/-- In a run the key of an event is what the calls for it make it, and `ProcessTimeOut` reports a
timer when its key is due, once, and no other. -/
theorem keys_run (hrun : Exec.Run Step (init parent) h s) :
    s.keys = (h.map Prod.snd).foldl (fun keys a => keysAfter a keys) (fun _ _ => none) ∧
      ∀ r now ret reported, (r, .processTimeOut now ret reported) ∈ h → ∀ t ev,
        reported.count (ev, t.flag)
          = if ∃ key, r.keys t ev = some key ∧ 0 < key ∧ key ≤ now then 1 else 0 := by
  induction hrun with
  | nil =>
    refine ⟨rfl, ?_⟩
    intro r now ret reported hmem
    exact absurd hmem List.not_mem_nil
  | @snoc h s s' a hr hst ih =>
    obtain ⟨hkeys, hreports⟩ := ih
    obtain ⟨-, T, -, -, hs⟩ := shows_run hr
    obtain ⟨T', hT', -, hafter⟩ := hs.step hst
    refine ⟨?_, ?_⟩
    · rw [hafter, hkeys, List.map_append, List.foldl_append]
      rfl
    · intro r now ret reported hmem t ev
      rcases List.mem_append.mp hmem with hmem | hmem
      · exact hreports r now ret reported hmem t ev
      · obtain ⟨rfl, rfl⟩ := Prod.mk.inj (List.mem_singleton.mp hmem)
        have hreported : (T.processTimeOut now).reported = reported := congrArg (·.reported) hT'
        rw [← hreported]
        exact hs.count_reported

theorem keys_run_firedEvent :
    firedEvent.keys .read 0 = some 0 ∧ [(0, readTimeOut)].count (0, Timer.read.flag) = 1 := by
  obtain ⟨hkeys, hreports⟩ := keys_run run_firedEvent
  refine ⟨congrFun (congrFun hkeys .read) 0, ?_⟩
  rw [hreports armedEvent 2 (some (-1)) _ (by simp) .read 0]
  exact if_pos ⟨2, by decide, by decide⟩

end TimerNodes

end MTRpc
