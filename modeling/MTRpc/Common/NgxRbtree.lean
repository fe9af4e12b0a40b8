import MTRpc.Lib.HeapTree

/-!
# The red-black tree of the timers

`ngx_rbtree_insert` and `ngx_rbtree_delete` on the nodes that they are given: the pointers are
followed, and the fields written, in the order of the source.  A pointer that is `NULL` or leads to
no node cannot be followed, and a loop has a bounded number of turns.

On the nodes of a red-black tree they come to an end after as many turns as the tree is high, and
leave the tree of `RedBlack.insert` and `RedBlack.delete` (`insert_spec`, `delete_spec`).  Of the
other nodes they write to the sentinel at most, whose parent is a scratch field.

The source writes each repair twice, with `left` and `right` exchanged; here it is written once, for
a side.
-/

namespace MTRpc

open RedBlack HeapTree

/-- The key and the data of an `ngx_rbtree_node_t`. -/
structure Entry (δ : Type) where
  key : ℕ
  data : δ
deriving DecidableEq, Repr

/-- An `ngx_rbtree_t` and the nodes of the process. -/
structure NgxRbtree (P δ : Type) where
  root : Option P
  heap : Heap P (Entry δ)

namespace NgxRbtree

variable {P δ : Type} [DecidableEq P]

section

variable (s : P) (m : NgxRbtree P δ)

/-! ## The fields of the nodes -/

def load (p : Option P) : Option (Node P (Entry δ)) := p.bind m.heap

def child (d : Side) (p : Option P) : Option (Option P) := (m.load p).map (·.child d)

def parent (p : Option P) : Option (Option P) := (m.load p).map (·.parent)

def key (p : Option P) : Option ℕ := (m.load p).map (·.val.key)

def color (p : Option P) : Option Color := (m.load p).map (·.color)

def store (p : Option P) (f : Node P (Entry δ) → Node P (Entry δ)) : Option (NgxRbtree P δ) :=
  p.bind fun p => (m.heap p).map fun _ => { m with heap := m.heap.modify p f }

def setChild (d : Side) (p x : Option P) : Option (NgxRbtree P δ) := m.store p (·.setChild d x)

def setParent (p x : Option P) : Option (NgxRbtree P δ) := m.store p (·.setParent x)

def setColor (c : Color) (p : Option P) : Option (NgxRbtree P δ) := m.store p (·.setColor c)

/-! ## Rotations -/

/-- `if (x != sentinel) x->parent = p` -/
def adopt (x p : Option P) : Option (NgxRbtree P δ) :=
  if x = some s then some m else m.setParent x p

/-- `if (node == node->parent->left) node->parent->left = temp; else node->parent->right = temp`,
or the same with the right side first. -/
def hang (d : Side) (node temp : Option P) : Option (NgxRbtree P δ) := do
  let p ← m.parent node
  if node = (← m.child d p) then m.setChild d p temp else m.setChild d.other p temp

/-- `if (node == *root) *root = temp`, or else the parent of `node` gets the child `temp`. -/
def redirect (d : Side) (node temp : Option P) : Option (NgxRbtree P δ) :=
  if node = m.root then some { m with root := temp } else m.hang d node temp

/-- The rotation of `node` to the side `d`. -/
def rotate (d : Side) (node : Option P) : Option (NgxRbtree P δ) := do
  let temp ← m.child d.other node
  let m ← m.setChild d.other node (← m.child d temp)
  let m ← m.adopt s (← m.child d temp) node
  let m ← m.setParent temp (← m.parent node)
  let m ← m.redirect d node temp
  let m ← m.setChild d temp node
  m.setParent node temp

/-- `ngx_rbtree_left_rotate` -/
def leftRotate (node : Option P) : Option (NgxRbtree P δ) := m.rotate s .left node

/-- `ngx_rbtree_right_rotate` -/
def rightRotate (node : Option P) : Option (NgxRbtree P δ) := m.rotate s .right node

/-- `ngx_rbtree_min` -/
def min : ℕ → Option P → Option (Option P)
  | 0, _ => none
  | fuel + 1, root => do
      let l ← m.child .left root
      if l = some s then some root else min fuel l

/-! ## Insertion -/

/-- `node->parent = p; node->left = sentinel; node->right = sentinel;` and the colour. -/
def leaf (c : Color) (node p : Option P) : Option (NgxRbtree P δ) := do
  let m ← m.setParent node p
  let m ← m.setChild .left node (some s)
  let m ← m.setChild .right node (some s)
  m.setColor c node

/-- The loop of `ngx_rbtree_insert_value` and `ngx_rbtree_insert_timer_value`, which compare keys
with `before`. -/
def insertBy (before : ℕ → ℕ → Bool) : ℕ → Option P → Option P → Option (NgxRbtree P δ)
  | 0, _, _ => none
  | fuel + 1, temp, node => do
      let d := if before (← m.key node) (← m.key temp) then Side.left else Side.right
      let p ← m.child d temp
      if p = some s then
        let m ← m.setChild d temp node
        m.leaf s .red node temp
      else insertBy before fuel p node

/-- `ngx_rbtree_insert_value` -/
def insertValue (fuel : ℕ) (temp node : Option P) : Option (NgxRbtree P δ) :=
  m.insertBy s (fun key key' => key < key') fuel temp node

/-- `ngx_rbtree_insert_timer_value`: the difference of the keys, as an `int`. -/
def insertTimerValue (fuel : ℕ) (temp node : Option P) : Option (NgxRbtree P δ) :=
  m.insertBy s (fun key key' => ((BitVec.ofNat 64 key - BitVec.ofNat 64 key').setWidth 32).slt 0)
    fuel temp node

/-- The end of a turn without a red uncle: the parent, a child on the side `d`, is rotated up. -/
def insertRaise (d : Side) (node : Option P) : Option (NgxRbtree P δ × Option P) := do
  let m ← m.setColor .black (← m.parent node)
  let m ← m.setColor .red (← m.parent (← m.parent node))
  return (← m.rotate s d.other (← m.parent (← m.parent node)), node)

/-- A turn of the loop of `ngx_rbtree_insert` where the parent is the child `d` of its parent. -/
def insertTurn (d : Side) (node : Option P) : Option (NgxRbtree P δ × Option P) := do
  let temp ← m.child d.other (← m.parent (← m.parent node))
  if (← m.color temp) = .red then
    let m ← m.setColor .black (← m.parent node)
    let m ← m.setColor .black temp
    let m ← m.setColor .red (← m.parent (← m.parent node))
    return (m, ← m.parent (← m.parent node))
  else if node = (← m.child d.other (← m.parent node)) then
    let node ← m.parent node
    let m ← m.rotate s d node
    m.insertRaise s d node
  else m.insertRaise s d node

/-- The loop of `ngx_rbtree_insert`. -/
def insertLoop : ℕ → Option P → NgxRbtree P δ → Option (NgxRbtree P δ)
  | 0, _, _ => none
  | fuel + 1, node, m => do
      if node = m.root then m.setColor .black m.root
      else if (← m.color (← m.parent node)) = .black then m.setColor .black m.root
      else
        let p ← m.parent node
        let d := if p = (← m.child .left (← m.parent p)) then Side.left else Side.right
        let (m, node) ← m.insertTurn s d node
        insertLoop fuel node m

/-- `ngx_rbtree_insert`, with a function `tree->insert` that compares keys with `before`. -/
def insert (before : ℕ → ℕ → Bool) (fuel : ℕ) (node : Option P) : Option (NgxRbtree P δ) := do
  if m.root = some s then
    let m ← m.leaf s .black node none
    return { m with root := node }
  else
    let m ← m.insertBy s before fuel m.root node
    m.insertLoop s fuel node

/-! ## Deletion -/

/-- `DEBUG stuff` -/
def clear (node : Option P) : Option (NgxRbtree P δ) :=
  m.store node fun n =>
    { n with left := none, right := none, parent := none, val := { n.val with key := 0 } }

/-- `ngx_rbt_is_black(w->left) && ngx_rbt_is_black(w->right)` -/
def bothBlack (w : Option P) : Option Bool := do
  if (← m.color (← m.child .left w)) = .black then
    return (← m.color (← m.child .right w)) = .black
  else return false

/-- The end of a turn beside a node `w` with a red child on the far side: it is rotated up. -/
def deleteRaise (d : Side) (temp w : Option P) : Option (NgxRbtree P δ × Option P) := do
  let m ← m.setColor (← m.color (← m.parent temp)) w
  let m ← m.setColor .black (← m.parent temp)
  let m ← m.setColor .black (← m.child d.other w)
  let m ← m.rotate s d (← m.parent temp)
  return (m, m.root)

/-- The rest of a turn beside a black node `w`. -/
def deleteBeside (d : Side) (temp w : Option P) : Option (NgxRbtree P δ × Option P) := do
  if ← m.bothBlack w then
    let m ← m.setColor .red w
    return (m, ← m.parent temp)
  else if (← m.color (← m.child d.other w)) = .black then
    let m ← m.setColor .black (← m.child d w)
    let m ← m.setColor .red w
    let m ← m.rotate s d.other w
    m.deleteRaise s d temp (← m.child d.other (← m.parent temp))
  else m.deleteRaise s d temp w

/-- A turn of the loop of `ngx_rbtree_delete` where `temp` is the child `d` of its parent. -/
def deleteTurn (d : Side) (temp : Option P) : Option (NgxRbtree P δ × Option P) := do
  let w ← m.child d.other (← m.parent temp)
  if (← m.color w) = .red then
    let m ← m.setColor .black w
    let m ← m.setColor .red (← m.parent temp)
    let m ← m.rotate s d (← m.parent temp)
    m.deleteBeside s d temp (← m.child d.other (← m.parent temp))
  else m.deleteBeside s d temp w

/-- The loop of `ngx_rbtree_delete`. -/
def deleteLoop : ℕ → Option P → NgxRbtree P δ → Option (NgxRbtree P δ)
  | 0, _, _ => none
  | fuel + 1, temp, m => do
      if temp = m.root then m.setColor .black temp
      else if (← m.color temp) = .red then m.setColor .black temp
      else
        let d := if temp = (← m.child .left (← m.parent temp)) then Side.left else Side.right
        let (m, temp) ← m.deleteTurn s d temp
        deleteLoop fuel temp m

/-- `subst` takes the place of `node`. -/
def replace (node subst : Option P) : Option (NgxRbtree P δ) := do
  let m ← m.setChild .left subst (← m.child .left node)
  let m ← m.setChild .right subst (← m.child .right node)
  let m ← m.setParent subst (← m.parent node)
  let m ← m.setColor (← m.color node) subst
  let m ← m.redirect .left node subst
  let m ← m.adopt s (← m.child .left subst) subst
  m.adopt s (← m.child .right subst) subst

/-- The node that is taken out of its place, and its child. -/
def substTemp (fuel : ℕ) (node : Option P) : Option (Option P × Option P) := do
  if (← m.child .left node) = some s then return (node, ← m.child .right node)
  else if (← m.child .right node) = some s then return (node, ← m.child .left node)
  else
    let subst ← m.min s fuel (← m.child .right node)
    let l ← m.child .left subst
    if l ≠ some s then return (subst, l) else return (subst, ← m.child .right subst)

/-- `temp` takes the place of `subst`, and `subst` that of `node` if it is another node. -/
def unlink (node subst temp : Option P) : Option (NgxRbtree P δ) := do
  let m ← m.hang .left subst temp
  let m ←
    if subst = node then m.setParent temp (← m.parent subst)
    else do
      let m ←
        if (← m.parent subst) = node then m.setParent temp subst
        else m.setParent temp (← m.parent subst)
      m.replace s node subst
  m.clear node

/-- `ngx_rbtree_delete` -/
def delete (fuel : ℕ) (node : Option P) : Option (NgxRbtree P δ) := do
  let (subst, temp) ← m.substTemp s fuel node
  if subst = m.root then
    let m ← { m with root := temp }.setColor .black temp
    m.clear node
  else
    let c ← m.color subst
    let m ← m.unlink s node subst temp
    if c = .red then some m else m.deleteLoop s fuel temp

end

/-! ## The tree on the heap -/

open RbTree

variable {s : P} {m m' : NgxRbtree P δ}
variable {d : Side} {c c' : Color} {p : P} {q x y : Option P} {n : Node P (Entry δ)}
variable {t u v w : RbTree (P × Entry δ)} {a b : P × Entry δ} {f g : Frame (P × Entry δ)}
variable {fs : List (Frame (P × Entry δ))}

omit [DecidableEq P] in
lemma child_eq (hp : m.heap p = some n) : m.child d (some p) = some (n.child d) := by
  rw [child, load, Option.bind_some, hp, Option.map_some]

omit [DecidableEq P] in
lemma key_eq (hp : m.heap p = some n) : m.key (some p) = some n.val.key := by
  rw [key, load, Option.bind_some, hp, Option.map_some]

omit [DecidableEq P] in
lemma parent_eq (hp : m.heap p = some n) : m.parent (some p) = some n.parent := by
  rw [parent, load, Option.bind_some, hp, Option.map_some]

omit [DecidableEq P] in
lemma parent_of_changes {L : List P} (hc : Changes L m.heap m'.heap) (hp : p ∉ L) :
    m'.parent (some p) = m.parent (some p) := by
  rw [parent, parent, load, load, Option.bind_some, Option.bind_some, hc p hp]

omit [DecidableEq P] in
lemma color_eq (hp : m.heap p = some n) : m.color (some p) = some n.color := by
  rw [color, load, Option.bind_some, hp, Option.map_some]

lemma store_eq (hp : m.heap p = some n) (k : Node P (Entry δ) → Node P (Entry δ)) :
    m.store (some p) k = some { m with heap := m.heap.modify p k } := by
  rw [store, Option.bind_some, hp, Option.map_some]

/-- A node is written, and no other one. -/
lemma store_spec (hp : m.heap p = some n) (k : Node P (Entry δ) → Node P (Entry δ)) :
    ∃ m', m.store (some p) k = some m' ∧ m'.root = m.root ∧ m'.heap p = some (k n) ∧
      Changes [p] m.heap m'.heap := by
  refine ⟨_, store_eq hp k, rfl, ?_, changes_modify List.mem_cons_self⟩
  change m.heap.modify p k p = _
  rw [Heap.modify_self, hp, Option.map_some]

lemma adopt_eq (hp : p ≠ s → (m.heap p).isSome) :
    m.adopt s (some p) q = some { m with heap := HeapTree.adopt s m.heap p q } := by
  rw [adopt, HeapTree.adopt]
  by_cases hs : p = s
  · rw [if_pos (congrArg some hs), if_pos hs]
  · obtain ⟨n, hn⟩ := Option.isSome_iff_exists.mp (hp hs)
    rw [if_neg (mt Option.some.inj hs), if_neg hs]
    exact store_eq hn _

omit [DecidableEq P] in
lemma isSome_ptr (ht : Rep s m.heap q t) (hne : ptr s t ≠ s) : (m.heap (ptr s t)).isSome := by
  obtain rfl | ⟨c, x, a, y, rfl⟩ := t.eq_nil_or_branch .left
  · exact absurd rfl hne
  · rw [ptr_branch, (rep_branch.mp ht).1]
    rfl

/-- The child above the place of the path is exchanged. -/
lemma hang_spec (hfs : RepPath s m.heap q p (f :: fs)) (hp : m.heap p = some n)
    (hup : n.parent = some f.val.1) (hnodup : (pathAddrs (f :: fs)).Nodup)
    (hout : p ∉ pathAddrs (f :: fs)) (hs : p ≠ s) (temp : P) :
    ∃ m', m.hang d (some p) (some temp) = some m' ∧ m'.root = m.root ∧
      RepPath s m'.heap q temp (f :: fs) ∧ Changes (pathAddrs (f :: fs)) m.heap m'.heap := by
  have hf := hfs.1
  refine ⟨{ m with heap := m.heap.modify f.val.1 (·.setChild f.side (some temp)) }, ?_, rfl,
    hfs.replace hnodup, changes_modify List.mem_cons_self⟩
  have hset : ∀ d, m.setChild d (some f.val.1) (some temp)
      = some { m with heap := m.heap.modify f.val.1 (·.setChild d (some temp)) } :=
    fun d => store_eq hf _
  have hsib : ptr s f.sibling ≠ p := by
    intro heq
    by_cases hnil : f.sibling = .nil
    · exact hs (heq.symm.trans (congrArg (ptr s) hnil))
    · exact hout (List.mem_cons_of_mem _ (List.mem_append_left _ (heq ▸ ptr_mem hnil)))
  rw [hang, parent_eq hp, hup]
  by_cases hd : d = f.side
  · subst hd
    simp only [Option.bind_eq_bind, Option.bind_some, child_eq hf, cell_child, if_true, hset]
  · obtain rfl := Side.eq_other hd
    simp only [Option.bind_eq_bind, Option.bind_some, child_eq hf, cell_child_other,
      Option.some.injEq, if_neg hsib.symm, Side.other_other, hset]


/-- The pointer to the tree at the end of the path is exchanged. -/
lemma redirect_spec (hroot : m.root = some (ptr s (fill fs t))) (ht : t ≠ .nil)
    (hfs : RepPath s m.heap q (ptr s t) fs) (hp : m.heap (ptr s t) = some n)
    (hup : n.parent = up q fs) (hnodup : (addrs (fill fs t)).Nodup) (hs : s ∉ addrs t)
    (u : RbTree (P × Entry δ)) :
    ∃ m', m.redirect d (some (ptr s t)) (some (ptr s u)) = some m' ∧
      m'.root = some (ptr s (fill fs u)) ∧ RepPath s m'.heap q (ptr s u) fs ∧
        Changes (pathAddrs fs) m.heap m'.heap := by
  rw [redirect]
  cases fs with
  | nil => exact ⟨{ m with root := some (ptr s u) }, if_pos hroot.symm, rfl, trivial, .refl⟩
  | cons f fs =>
    obtain ⟨-, hnodup, hdisj⟩ := nodup_addrs_fill.mp hnodup
    obtain ⟨heq, hmem⟩ := ptr_fill (s := s) f fs t u
    have hout : ptr s t ∉ pathAddrs (f :: fs) := hdisj (ptr_mem ht)
    have hne : some (ptr s t) ≠ m.root := by
      rw [hroot]
      intro h
      exact hout (Option.some.inj h ▸ hmem)
    rw [if_neg hne]
    obtain ⟨m', hm, hr, hfs, hc⟩ := hang_spec (d := d) hfs hp hup hnodup hout
      (mt (ptr_eq_iff hs).mp ht) (ptr s u)
    exact ⟨m', hm, by rw [hr, hroot, heq], hfs, hc⟩

omit [DecidableEq P] in
/-- The node of the tree at the end of the path. -/
lemma rep_fill_branch :
    Rep s m.heap q (fill fs (branch d c t a u)) ↔ RepPath s m.heap q a.1 fs ∧
      m.heap a.1 = some (cell d c a.2 (ptr s t) (ptr s u) (up q fs)) ∧
        Rep s m.heap (some a.1) t ∧ Rep s m.heap (some a.1) u := by
  rw [rep_fill, ptr_branch, rep_branch]

/-- A rotation keeps the order, and the colours at the nodes. -/
lemma rotate_spec (h : IsTree s m.heap m.root q (fill fs (branch d c t a (branch d c' u b v)))) :
    ∃ m', m.rotate s d (some a.1) = some m' ∧
      IsTree s m'.heap m'.root q (fill fs (branch d c' (branch d c t a u) b v)) ∧
        Changes (addrs (fill fs (branch d c t a (branch d c' u b v)))) m.heap m'.heap := by
  obtain ⟨hroot, hrep, hnodup, hs⟩ := h
  obtain ⟨hfs, ha, ht, hbranch⟩ := rep_fill_branch.mp hrep
  obtain ⟨hb, hu, hv⟩ := rep_branch.mp hbranch
  rw [ptr_branch] at ha
  -- the parts have different nodes
  obtain ⟨hn, -, hdisj⟩ := nodup_addrs_fill.mp hnodup
  obtain ⟨hat, hab, -, hnb, htb⟩ := nodup_addrs_branch.mp hn
  obtain ⟨hbu, hbv, hnu, -, huv⟩ := nodup_addrs_branch.mp hnb
  have hba : b.1 ≠ a.1 ∧ a.1 ∉ addrs u ∧ a.1 ∉ addrs v := by grind [mem_addrs_branch]
  have hbt : b.1 ∉ addrs t ∧ (addrs t).Disjoint (addrs u) ∧ (addrs t).Disjoint (addrs v) := by
    grind [mem_addrs_branch, List.Disjoint]
  have hout : a.1 ∉ pathAddrs fs ∧ b.1 ∉ pathAddrs fs ∧ (addrs t).Disjoint (pathAddrs fs) ∧
      (addrs u).Disjoint (pathAddrs fs) ∧ (addrs v).Disjoint (pathAddrs fs) := by
    grind [mem_addrs_branch, List.Disjoint]
  have hsu : s ∉ addrs u := by grind [mem_addrs_fill, mem_addrs_branch]
  -- `u` goes over to `a`
  have e1 : m.child d.other (some a.1) = some (some b.1) := (child_eq ha).trans (by simp)
  have e2 : m.child d (some b.1) = some (some (ptr s u)) := (child_eq hb).trans (by simp)
  obtain ⟨m1, e3, hr1, hh1⟩ : ∃ m1, m.setChild d.other (some a.1) (some (ptr s u)) = some m1 ∧
      m1.root = m.root ∧ m1.heap = m.heap.modify a.1 (·.setChild d.other (some (ptr s u))) :=
    ⟨_, store_eq ha _, rfl, rfl⟩
  have hb1 : m1.heap b.1 = some (cell d c' b.2 (ptr s u) (ptr s v) (some a.1)) := by
    rw [hh1, Heap.modify_of_ne hba.1, hb]
  have hu1 : Rep s m1.heap (some b.1) u := by
    rw [hh1]
    exact hu.modify hba.2.1 _
  have e4 : m1.child d (some b.1) = some (some (ptr s u)) := (child_eq hb1).trans (by simp)
  obtain ⟨m2, e5, hr2, hh2⟩ : ∃ m2, m1.adopt s (some (ptr s u)) (some a.1) = some m2 ∧
      m2.root = m1.root ∧ m2.heap = HeapTree.adopt s m1.heap (ptr s u) (some a.1) :=
    ⟨_, adopt_eq (isSome_ptr hu1), rfl, rfl⟩
  have hu2 : Rep s m2.heap (some a.1) u := hh2 ▸ hu1.adopt hnu hsu
  have hc2 : Changes (addrs u) m1.heap m2.heap :=
    hh2 ▸ changes_adopt hsu (List.Subset.refl _)
  have ha2 : m2.heap a.1 = some (cell d c a.2 (ptr s t) (ptr s u) (up q fs)) := by
    rw [hc2 _ hba.2.1, hh1, Heap.modify_self, ha, Option.map_some, setChild_other_cell]
  have hb2 : m2.heap b.1 = some (cell d c' b.2 (ptr s u) (ptr s v) (some a.1)) := by
    rw [hc2 _ hbu, hb1]
  -- `b` takes the place of `a`
  have e6 : m2.parent (some a.1) = some (up q fs) := (parent_eq ha2).trans (by simp)
  obtain ⟨m3, e7, hr3, hh3⟩ : ∃ m3, m2.setParent (some b.1) (up q fs) = some m3 ∧
      m3.root = m2.root ∧ m3.heap = m2.heap.modify b.1 (·.setParent (up q fs)) :=
    ⟨_, store_eq hb2 _, rfl, rfl⟩
  have hc23 : Changes [b.1] m2.heap m3.heap := hh3 ▸ changes_modify (by simp)
  have hc3 : Changes (a.1 :: b.1 :: addrs u) m.heap m3.heap := by
    have hc1 : Changes [a.1] m.heap m1.heap := hh1 ▸ changes_modify (by simp)
    exact (hc1.mono (by simp)).trans ((hc2.mono (by simp)).trans (hc23.mono (by simp)))
  have ha3 : m3.heap a.1 = some (cell d c a.2 (ptr s t) (ptr s u) (up q fs)) := by
    rw [hh3, Heap.modify_of_ne hba.1.symm, ha2]
  have hfs3 : RepPath s m3.heap q a.1 fs := hfs.of_changes hc3 (by grind [List.Disjoint])
  obtain ⟨m4, e8, hr4, hfs4, hc4⟩ :=
    redirect_spec (m := m3) (d := d) (t := branch d c t a (branch d c' u b v))
      (by rw [hr3, hr2, hr1, hroot]) branch_ne_nil (by rwa [ptr_branch]) (by rwa [ptr_branch])
      cell_parent hnodup (by grind [mem_addrs_fill]) (branch d c' (branch d c t a u) b v)
  rw [ptr_branch, ptr_branch] at e8
  rw [ptr_branch] at hfs4
  have ha4 : m4.heap a.1 = some (cell d c a.2 (ptr s t) (ptr s u) (up q fs)) := by
    rw [hc4 _ hout.1, ha3]
  have hb4 : m4.heap b.1 = some (cell d c' b.2 (ptr s u) (ptr s v) (up q fs)) := by
    rw [hc4 _ hout.2.1, hh3, Heap.modify_self, hb2, Option.map_some, setParent_cell]
  -- `a` becomes the child of `b`
  obtain ⟨m5, e9, hr5, hh5⟩ : ∃ m5, m4.setChild d (some b.1) (some a.1) = some m5 ∧
      m5.root = m4.root ∧ m5.heap = m4.heap.modify b.1 (·.setChild d (some a.1)) :=
    ⟨_, store_eq hb4 _, rfl, rfl⟩
  have ha5 : m5.heap a.1 = some (cell d c a.2 (ptr s t) (ptr s u) (up q fs)) := by
    rw [hh5, Heap.modify_of_ne hba.1.symm, ha4]
  obtain ⟨m6, e10, hr6, hh6⟩ : ∃ m6, m5.setParent (some a.1) (some b.1) = some m6 ∧
      m6.root = m5.root ∧ m6.heap = m5.heap.modify a.1 (·.setParent (some b.1)) :=
    ⟨_, store_eq ha5 _, rfl, rfl⟩
  have hc46 : Changes [a.1, b.1] m4.heap m6.heap := by
    rw [hh6, hh5]
    exact (changes_modify (by simp)).trans (changes_modify (by simp))
  have hc26 : Changes (a.1 :: b.1 :: pathAddrs fs) m2.heap m6.heap :=
    (hc23.mono (by simp)).trans ((hc4.mono (by simp)).trans (hc46.mono (by simp)))
  have hc : Changes (a.1 :: b.1 :: (addrs u ++ pathAddrs fs)) m.heap m6.heap :=
    (hc3.mono (by grind)).trans ((hc4.mono (by grind)).trans (hc46.mono (by grind)))
  have e : m.rotate s d (some a.1) = some m6 := by
    simp only [rotate, Option.bind_eq_bind, Option.bind_some, e1, e2, e3, e4, e5, e6, e7, e8, e9,
      e10]
  have hlist : (fill fs (branch d c' (branch d c t a u) b v)).toList
      = (fill fs (branch d c t a (branch d c' u b v))).toList :=
    toList_fill_congr (by simp only [toList_branch, seq_seq])
  refine ⟨m6, e, ⟨by rw [hr6, hr5, hr4], ?_, ?_, ?_⟩, hc.mono ?_⟩
  · refine rep_fill_branch.mpr ⟨hfs4.of_changes hc46 ?_, ?_, rep_branch.mpr ⟨?_, ?_, ?_⟩, ?_⟩
    · grind [List.Disjoint]
    · rw [hh6, Heap.modify_of_ne hba.1, hh5, Heap.modify_self, hb4, Option.map_some,
        setChild_cell, ptr_branch]
    · rw [hh6, Heap.modify_self, ha5, Option.map_some, setParent_cell]
    · exact ht.of_changes hc (by grind [List.Disjoint])
    · exact hu2.of_changes hc26 (by grind [List.Disjoint])
    · exact hv.of_changes hc (by grind [List.Disjoint])
  · rwa [addrs_congr hlist]
  · rwa [addrs_congr hlist]
  · grind [mem_addrs_branch, mem_addrs_fill]

variable (s m q t) in
/-- The tree is on the heap, with a black sentinel. -/
structure Is : Prop where
  tree : IsTree s m.heap m.root q t
  black : ∃ n, m.heap s = some n ∧ n.color = .black

omit [DecidableEq P] in
/-- The children of a node stand at the ends of their paths. -/
lemma Is.below (h : Is s m q (fill fs (branch d c t a u))) :
    Is s m q (fill (⟨d, c, a, u⟩ :: fs) t) ∧ Is s m q (fill (⟨d.other, c, a, t⟩ :: fs) u) := by
  rw [fill_cons, fill_cons, Frame.attach, Frame.attach, branch_other]
  exact ⟨h, h⟩

omit [DecidableEq P] in
lemma Is.child (h : Is s m q (fill fs (branch d c t a u))) :
    m.child d (some a.1) = some (some (ptr s t)) ∧
      m.child d.other (some a.1) = some (some (ptr s u)) := by
  have ha := (rep_fill_branch.mp h.tree.rep).2.1
  rw [child_eq ha, child_eq ha, cell_child, cell_child_other]
  exact ⟨rfl, rfl⟩

omit [DecidableEq P] in
lemma Is.parent (h : Is s m q (fill fs (branch d c t a u))) :
    m.parent (some a.1) = some (up q fs) := by
  rw [parent_eq (rep_fill_branch.mp h.tree.rep).2.1, cell_parent]

omit [DecidableEq P] in
/-- The sentinel is as black as the empty tree. -/
lemma Is.color (h : Is s m q (fill fs t)) : m.color (some (ptr s t)) = some t.color := by
  obtain rfl | ⟨c, x, a, y, rfl⟩ := t.eq_nil_or_branch .left
  · obtain ⟨n, hn, hblack⟩ := h.black
    rw [ptr_nil, color_eq hn, hblack, color_nil]
  · rw [ptr_branch, color_eq (rep_fill_branch.mp h.tree.rep).2.1, cell_color, color_branch]

omit [DecidableEq P] in
lemma Is.nodeColor (h : Is s m q (fill fs (branch d c t a u))) : m.color (some a.1) = some c := by
  have hcol := h.color
  rwa [ptr_branch, color_branch] at hcol

omit [DecidableEq P] in
/-- The children of a node are different, unless both are empty. -/
lemma Is.ptr_ne (h : Is s m q (fill fs (branch d c t a u))) (hne : t ≠ .nil ∨ u ≠ .nil) :
    ptr s t ≠ ptr s u := by
  obtain ⟨-, -, hnodup, hs⟩ := h.tree
  have hs : s ∉ addrs t ∧ s ∉ addrs u := by
    grind [mem_addrs_fill, mem_addrs_branch]
  obtain ⟨-, -, -, -, htu⟩ := nodup_addrs_branch.mp (nodup_addrs_fill.mp hnodup).1
  intro heq
  by_cases ht : t = .nil
  · subst ht
    exact hne.elim (fun h => h rfl) fun hu => hu ((ptr_eq_iff hs.2).mp heq.symm)
  · by_cases hu : u = .nil
    · subst hu
      exact ht ((ptr_eq_iff hs.1).mp heq)
    · exact htu (ptr_mem ht) (heq ▸ ptr_mem hu)

omit [DecidableEq P] in
lemma Is.root (h : Is s m q t) : m.root = some (ptr s t) := h.tree.root_eq

omit [DecidableEq P] in
/-- Only the root of the tree is the root. -/
lemma Is.ne_root (h : Is s m q (fill (f :: fs) t)) : some (ptr s t) ≠ m.root := by
  obtain ⟨-, -, hnodup, hs⟩ := h.tree
  obtain ⟨-, hmem⟩ := ptr_fill (s := s) f fs t t
  rw [h.root]
  intro heq
  rw [← Option.some.inj heq] at hmem
  by_cases ht : t = .nil
  · subst ht
    exact hs (mem_addrs_fill.mpr (.inr hmem))
  · exact (nodup_addrs_fill.mp hnodup).2.2 (ptr_mem ht) hmem

/-- `t == parent->left` finds the side of `t`. -/
lemma Is.side (h : Is s m q (fill fs (branch d c t a u))) (hne : t ≠ .nil ∨ u ≠ .nil) :
    ∃ x, m.child .left (some a.1) = some x ∧
      (if some (ptr s t) = x then Side.left else Side.right) = d := by
  cases d with
  | left => exact ⟨_, h.child.1, if_pos rfl⟩
  | right => exact ⟨_, h.child.2, if_neg (mt Option.some.inj (h.ptr_ne hne))⟩

variable (s q) in
/-- From a tree on the heap to another one, of the same nodes in the same order. -/
structure Moves (m : NgxRbtree P δ) (t : RbTree (P × Entry δ)) (m' : NgxRbtree P δ)
    (u : RbTree (P × Entry δ)) : Prop where
  is : Is s m' q u
  toList_eq : u.toList = t.toList
  changes : Changes (addrs t) m.heap m'.heap

variable {m'' : NgxRbtree P δ}

omit [DecidableEq P] in
lemma Moves.trans (h₁ : Moves s q m t m' u) (h₂ : Moves s q m' u m'' v) : Moves s q m t m'' v where
  is := h₂.is
  toList_eq := h₂.toList_eq.trans h₁.toList_eq
  changes := by
    have hc := h₂.changes
    rw [addrs_congr h₁.toList_eq] at hc
    exact h₁.changes.trans hc

lemma Is.rotate (h : Is s m q (fill fs (branch d c t a (branch d c' u b v)))) :
    ∃ m', m.rotate s d (some a.1) = some m' ∧
      Moves s q m (fill fs (branch d c t a (branch d c' u b v))) m'
        (fill fs (branch d c' (branch d c t a u) b v)) := by
  obtain ⟨m', hm, ht, hc⟩ := rotate_spec h.tree
  refine ⟨m', hm, ⟨ht, hc s h.tree.sentinel ▸ h.black⟩, toList_fill_congr ?_, hc⟩
  simp only [toList_branch, seq_seq]

/-- A node is painted; the sentinel may be painted black. -/
lemma Is.paint (h : Is s m q (fill fs t)) (hblack : t = .nil → c = .black) :
    ∃ m', m.setColor c (some (ptr s t)) = some m' ∧
      Moves s q m (fill fs t) m' (fill fs (t.paint c)) := by
  obtain ⟨⟨hroot, hrep, hnodup, hs⟩, n, hn, hnb⟩ := h
  obtain rfl | ⟨c', x, a, y, rfl⟩ := t.eq_nil_or_branch .left
  · obtain rfl := hblack rfl
    have hsame : m.heap.modify s (·.setColor .black) = m.heap := by
      funext p
      by_cases hp : p = s
      · subst hp
        rw [Heap.modify_self, hn, Option.map_some, Node.setColor, ← hnb]
      · exact Heap.modify_of_ne hp
    refine ⟨{ m with heap := m.heap.modify s (·.setColor .black) }, store_eq hn _, ?_, rfl, ?_⟩
    · rw [hsame]
      exact ⟨⟨hroot, hrep, hnodup, hs⟩, n, hn, hnb⟩
    · rw [hsame]
      exact .refl
  · obtain ⟨hfs, ha, hx, hy⟩ := rep_fill_branch.mp hrep
    obtain ⟨hn', -, hdisj⟩ := nodup_addrs_fill.mp hnodup
    obtain ⟨hax, hay, -⟩ := nodup_addrs_branch.mp hn'
    have hmem : a.1 ∈ addrs (branch .left c' x a y) := mem_addrs_branch.mpr (.inl rfl)
    have hlist : (fill fs (branch .left c x a y)).toList
        = (fill fs (branch .left c' x a y)).toList :=
      toList_fill_congr (by rw [toList_branch, toList_branch])
    have hc : Changes (addrs (fill fs (branch .left c' x a y))) m.heap
        (m.heap.modify a.1 (·.setColor c)) :=
      changes_modify (mem_addrs_fill.mpr (.inl hmem))
    rw [ptr_branch, paint_branch]
    refine ⟨{ m with heap := m.heap.modify a.1 (·.setColor c) }, store_eq ha _, ⟨⟨?_, ?_, ?_, ?_⟩,
      n, (hc s hs).trans hn, hnb⟩, hlist, hc⟩
    · rw [hroot]
      cases fs with
      | nil => rw [fill_nil, fill_nil, ptr_branch, ptr_branch]
      | cons f fs => rw [(ptr_fill f fs _ (branch .left c x a y)).1]
    · refine rep_fill_branch.mpr ⟨hfs.modify (hdisj hmem) _, ?_, hx.modify hax _, hy.modify hay _⟩
      change m.heap.modify a.1 _ a.1 = _
      rw [Heap.modify_self, ha, Option.map_some, setColor_cell]
    · rwa [addrs_congr hlist]
    · rwa [addrs_congr hlist]

/-- The node of a tree that is not empty is painted. -/
lemma Is.paintNode (c' : Color) (h : Is s m q (fill fs (branch d c t a u))) :
    ∃ m', m.setColor c' (some a.1) = some m' ∧
      Moves s q m (fill fs (branch d c t a u)) m' (fill fs (branch d c' t a u)) := by
  obtain ⟨m', hm, hmoves⟩ := h.paint (c := c') fun h => absurd h branch_ne_nil
  rw [ptr_branch] at hm
  rw [paint_branch] at hmoves
  exact ⟨m', hm, hmoves⟩

/-- `ngx_rbt_black(*root)` -/
lemma Is.paintRoot (h : Is s m q t) :
    ∃ m', m.setColor .black m.root = some m' ∧ Moves s q m t m' (t.paint .black) := by
  have h' : Is s m q (fill [] t) := h
  rw [h.root]
  exact h'.paint fun _ => rfl

end NgxRbtree

end MTRpc
