import Mathlib.Data.List.Nodup
import MTRpc.Lib.RedBlack

/-!
# Trees on a heap

The nodes of a tree lie on a heap, each with pointers to its two children and to its parent.  The
empty trees are all one node, the sentinel.  `Rep` says that a tree is on the heap, below a given
parent, and `RepPath` that a path is there with a given node at its end; a tree is there when it is
at the end of its path (`rep_fill`).

The nodes of a tree are its own (`IsTree`), so that what is written to one of them leaves the
subtrees without it as they are.
-/

namespace HeapTree

open RedBlack RbTree

variable {P V : Type*}

/-- A node on the heap. -/
structure Node (P V : Type*) where
  val : V
  color : Color
  left : Option P
  right : Option P
  parent : Option P
deriving DecidableEq, Repr

namespace Node

def child (n : Node P V) : Side → Option P
  | .left => n.left
  | .right => n.right

def setChild (d : Side) (x : Option P) (n : Node P V) : Node P V :=
  match d with
  | .left => { n with left := x }
  | .right => { n with right := x }

def setParent (x : Option P) (n : Node P V) : Node P V := { n with parent := x }

def setColor (c : Color) (n : Node P V) : Node P V := { n with color := c }

end Node

/-- The node with the child `x` on the side `d` and `y` on the other one. -/
def cell (d : Side) (c : Color) (v : V) (x y : P) (q : Option P) : Node P V :=
  match d with
  | .left => ⟨v, c, some x, some y, q⟩
  | .right => ⟨v, c, some y, some x, q⟩

variable {d d' : Side} {c c' : Color} {v : V} {p x y s : P} {q q' : Option P}

@[simp] lemma cell_val : (cell d c v x y q).val = v := by
  cases d <;> rfl

@[simp] lemma cell_color : (cell d c v x y q).color = c := by
  cases d <;> rfl

@[simp] lemma cell_parent : (cell d c v x y q).parent = q := by
  cases d <;> rfl

@[simp] lemma cell_child : (cell d c v x y q).child d = some x := by
  cases d <;> rfl

@[simp] lemma cell_child_other : (cell d c v x y q).child d.other = some y := by
  cases d <;> rfl

@[simp] lemma setColor_cell : (cell d c v x y q).setColor c' = cell d c' v x y q := by
  cases d <;> rfl

@[simp] lemma setParent_cell : (cell d c v x y q).setParent q' = cell d c v x y q' := by
  cases d <;> rfl

@[simp] lemma setChild_cell : (cell d c v x y q).setChild d (some p) = cell d c v p y q := by
  cases d <;> rfl

@[simp] lemma setChild_other_cell :
    (cell d c v x y q).setChild d.other (some p) = cell d c v x p q := by
  cases d <;> rfl

lemma cell_other : cell d.other c v x y q = cell d c v y x q := by
  cases d <;> rfl

/-- The nodes of the process.  A place can be free. -/
abbrev Heap (P V : Type*) := P → Option (Node P V)

variable {h h' : Heap P V}

section

variable [DecidableEq P]

/-- A node is changed in place. -/
def Heap.modify (h : Heap P V) (p : P) (f : Node P V → Node P V) : Heap P V :=
  fun x => if x = p then (h x).map f else h x

lemma Heap.modify_self {f : Node P V → Node P V} : h.modify p f p = (h p).map f := if_pos rfl

lemma Heap.modify_of_ne {f : Node P V → Node P V} (hne : x ≠ p) : h.modify p f x = h x := if_neg hne

lemma Heap.isSome_modify {f : Node P V → Node P V} : (h.modify p f x).isSome = (h x).isSome := by
  rw [modify]
  split
  · rw [Option.isSome_map]
  · rfl

end

/-! ## Trees -/

variable {t u l r : RbTree (P × V)} {a b : P × V} {f g : Frame (P × V)} {fs : List (Frame (P × V))}

/-- The addresses of the nodes. -/
def addrs (t : RbTree (P × V)) : List P := t.toList.map Prod.fst

@[simp] lemma addrs_nil : addrs (.nil : RbTree (P × V)) = [] := rfl

lemma mem_addrs_branch :
    p ∈ addrs (branch d c t a u) ↔ p = a.1 ∨ p ∈ addrs t ∨ p ∈ addrs u := by
  cases d <;> simp only [addrs, branch, toList, List.map_append, List.map_cons, List.mem_append,
    List.mem_cons] <;> tauto

lemma perm_addrs_branch :
    (addrs (branch d c t a u)).Perm (a.1 :: (addrs t ++ addrs u)) := by
  cases d with
  | left =>
    simp only [addrs, branch, toList, List.map_append, List.map_cons]
    exact List.perm_middle
  | right =>
    simp only [addrs, branch, toList, List.map_append, List.map_cons]
    exact List.perm_middle.trans (List.perm_append_comm.cons _)

lemma addrs_congr (hlist : t.toList = u.toList) : addrs t = addrs u := by
  rw [addrs, addrs, hlist]

lemma addrs_paint : addrs (t.paint c) = addrs t := addrs_congr toList_paint

/-- The addresses of a path. -/
def pathAddrs : List (Frame (P × V)) → List P
  | [] => []
  | f :: fs => f.val.1 :: (addrs f.sibling ++ pathAddrs fs)

lemma pathAddrs_append {gs : List (Frame (P × V))} :
    pathAddrs (fs ++ gs) = pathAddrs fs ++ pathAddrs gs := by
  induction fs with
  | nil => rfl
  | cons f fs ih =>
    rw [List.cons_append, pathAddrs, pathAddrs, ih, List.cons_append, List.append_assoc]

lemma perm_addrs_fill : (addrs (fill fs t)).Perm (addrs t ++ pathAddrs fs) := by
  induction fs generalizing t with
  | nil => simp [pathAddrs]
  | cons f fs ih =>
    refine ih.trans ((perm_addrs_branch.append_right _).trans ?_)
    rw [pathAddrs, List.cons_append, List.append_assoc]
    exact List.perm_middle.symm

lemma perm_addrs_fill_branch :
    (addrs (fill fs (branch d c t a u))).Perm (a.1 :: (addrs t ++ addrs u ++ pathAddrs fs)) :=
  perm_addrs_fill.trans (perm_addrs_branch.append_right _)

lemma mem_addrs_fill : p ∈ addrs (fill fs t) ↔ p ∈ addrs t ∨ p ∈ pathAddrs fs := by
  rw [perm_addrs_fill.mem_iff, List.mem_append]

variable (s) in
/-- The pointer to a tree. -/
def ptr : RbTree (P × V) → P
  | .nil => s
  | .node _ _ a _ => a.1

@[simp] lemma ptr_nil : ptr s (.nil : RbTree (P × V)) = s := rfl

@[simp] lemma ptr_branch : ptr s (branch d c t a u) = a.1 := by
  cases d <;> rfl

@[simp] lemma ptr_paint : ptr s (t.paint c) = ptr s t := by
  cases t <;> rfl

lemma ptr_mem (ht : t ≠ .nil) : ptr s t ∈ addrs t := by
  obtain rfl | ⟨c, x, a, y, rfl⟩ := t.eq_nil_or_branch .left
  · exact absurd rfl ht
  · rw [ptr_branch, mem_addrs_branch]
    exact .inl rfl

/-- The pointer leads to the sentinel only when the tree is empty. -/
lemma ptr_eq_iff (hs : s ∉ addrs t) : ptr s t = s ↔ t = .nil := by
  constructor
  · intro heq
    by_contra hne
    exact hs (heq ▸ ptr_mem hne)
  · rintro rfl
    rfl

variable (s) in
/-- The tree is on the heap, below the parent `q`. -/
def Rep (h : Heap P V) : Option P → RbTree (P × V) → Prop
  | _, .nil => True
  | q, .node c l a r =>
      h a.1 = some ⟨a.2, c, some (ptr s l), some (ptr s r), q⟩ ∧
        Rep h (some a.1) l ∧ Rep h (some a.1) r

@[simp] lemma rep_nil : Rep s h q .nil := trivial

lemma rep_branch :
    Rep s h q (branch d c t a u) ↔
      h a.1 = some (cell d c a.2 (ptr s t) (ptr s u) q) ∧
        Rep s h (some a.1) t ∧ Rep s h (some a.1) u := by
  cases d with
  | left => rfl
  | right => exact and_congr_right fun _ => and_comm

/-- The node of a value. -/
lemma Rep.node_of_mem (ht : Rep s h q t) (ha : a ∈ t.toList) :
    ∃ n, h a.1 = some n ∧ n.val = a.2 := by
  induction t generalizing q with
  | nil => cases ha
  | node c l b r ihl ihr =>
    obtain ⟨hb, hl, hr⟩ := ht
    rcases List.mem_append.mp ha with ha | ha
    · exact ihl hl ha
    · rcases List.mem_cons.mp ha with rfl | ha
      · exact ⟨_, hb, rfl⟩
      · exact ihr hr ha

/-- A tree depends on its own nodes only. -/
lemma Rep.congr (ht : Rep s h q t) (heq : ∀ p ∈ addrs t, h' p = h p) : Rep s h' q t := by
  induction t generalizing q with
  | nil => trivial
  | node c l a r ihl ihr =>
    obtain ⟨ha, hl, hr⟩ := ht
    refine ⟨(heq a.1 ?_).trans ha, ihl hl fun p hp => heq p ?_, ihr hr fun p hp => heq p ?_⟩
    · exact mem_addrs_branch (d := .left).mpr (.inl rfl)
    · exact mem_addrs_branch (d := .left).mpr (.inr (.inl hp))
    · exact mem_addrs_branch (d := .left).mpr (.inr (.inr hp))

/-- The parent of the place of a path. -/
def up (q : Option P) : List (Frame (P × V)) → Option P
  | [] => q
  | f :: _ => some f.val.1

variable (s) in
/-- The path is on the heap, with the node `x` at its end and the parent `q` above its root. -/
def RepPath (h : Heap P V) (q : Option P) : P → List (Frame (P × V)) → Prop
  | _, [] => True
  | x, f :: fs =>
      h f.val.1 = some (cell f.side f.color f.val.2 x (ptr s f.sibling) (up q fs)) ∧
        Rep s h (some f.val.1) f.sibling ∧ RepPath h q f.val.1 fs

/-- A tree is on the heap when its path is and it is at the end of its path. -/
lemma rep_fill :
    Rep s h q (fill fs t) ↔ RepPath s h q (ptr s t) fs ∧ Rep s h (up q fs) t := by
  induction fs generalizing t with
  | nil => simp [RepPath, up]
  | cons f fs ih =>
    rw [fill_cons, ih, Frame.attach, rep_branch, ptr_branch, RepPath, up]
    tauto

/-- The root of a tree is the last node of the path. -/
lemma ptr_fill (f : Frame (P × V)) (fs : List (Frame (P × V))) (t u : RbTree (P × V)) :
    ptr s (fill (f :: fs) t) = ptr s (fill (f :: fs) u) ∧
      ptr s (fill (f :: fs) t) ∈ pathAddrs (f :: fs) := by
  induction fs generalizing f t u with
  | nil =>
    rw [fill_cons, fill_cons, fill_nil, fill_nil, Frame.attach, Frame.attach, ptr_branch,
      ptr_branch]
    exact ⟨rfl, List.mem_cons_self⟩
  | cons g fs ih =>
    rw [fill_cons, fill_cons]
    obtain ⟨heq, hmem⟩ := ih g (f.attach t) (f.attach u)
    exact ⟨heq, List.mem_cons_of_mem _ (List.mem_append_right _ hmem)⟩

lemma RepPath.congr (hfs : RepPath s h q x fs) (heq : ∀ p ∈ pathAddrs fs, h' p = h p) :
    RepPath s h' q x fs := by
  induction fs generalizing x with
  | nil => trivial
  | cons f fs ih =>
    obtain ⟨hf, hs, hfs⟩ := hfs
    refine ⟨(heq _ ?_).trans hf, hs.congr fun p hp => heq p ?_, ih hfs fun p hp => heq p ?_⟩
    · exact List.mem_cons_self
    · exact List.mem_cons_of_mem _ (List.mem_append_left _ hp)
    · exact List.mem_cons_of_mem _ (List.mem_append_right _ hp)

lemma up_append {gs : List (Frame (P × V))} : up q (fs ++ gs) = up (up q gs) fs := by
  cases fs <;> rfl

/-- A path in two parts. -/
lemma repPath_append {gs : List (Frame (P × V))} :
    RepPath s h q (ptr s t) (fs ++ gs) ↔
      RepPath s h (up q gs) (ptr s t) fs ∧ RepPath s h q (ptr s (fill fs t)) gs := by
  induction fs generalizing t with
  | nil => exact ⟨fun h => ⟨trivial, h⟩, And.right⟩
  | cons f fs ih =>
    have hattach : ptr s (f.attach t) = f.val.1 := ptr_branch
    rw [List.cons_append, RepPath, RepPath, up_append, fill_cons, ← hattach, ih, and_assoc,
      and_assoc]

variable [DecidableEq P]

lemma Rep.modify (ht : Rep s h q t) (hp : p ∉ addrs t) (k : Node P V → Node P V) :
    Rep s (h.modify p k) q t :=
  ht.congr fun _ hx => Heap.modify_of_ne (ne_of_mem_of_not_mem hx hp)

lemma RepPath.modify (hfs : RepPath s h q x fs) (hp : p ∉ pathAddrs fs)
    (k : Node P V → Node P V) : RepPath s (h.modify p k) q x fs :=
  hfs.congr fun _ hx => Heap.modify_of_ne (ne_of_mem_of_not_mem hx hp)

variable (s) in
/-- The tree at `x`, unless it is empty, gets the parent `q`. -/
def adopt (h : Heap P V) (x : P) (q : Option P) : Heap P V :=
  if x = s then h else h.modify x (·.setParent q)

/-- A tree gets another parent. -/
lemma Rep.adopt (ht : Rep s h q t) (hnodup : (addrs t).Nodup) (hs : s ∉ addrs t) :
    Rep s (adopt s h (ptr s t) q') q' t := by
  obtain rfl | ⟨c, x, a, y, rfl⟩ := t.eq_nil_or_branch .left
  · trivial
  · rw [HeapTree.adopt, if_neg (mt (ptr_eq_iff hs).mp branch_ne_nil), ptr_branch]
    obtain ⟨ha, hx, hy⟩ := rep_branch.mp ht
    have hout := (List.nodup_cons.mp (perm_addrs_branch.nodup_iff.mp hnodup)).1
    rw [List.mem_append, not_or] at hout
    refine rep_branch.mpr ⟨?_, hx.modify hout.1 _, hy.modify hout.2 _⟩
    rw [Heap.modify_self, ha, Option.map_some, setParent_cell]

/-- Another tree is put at the end of the path. -/
lemma RepPath.replace (hfs : RepPath s h q x (f :: fs)) (hnodup : (pathAddrs (f :: fs)).Nodup) :
    RepPath s (h.modify f.val.1 (·.setChild f.side (some y))) q y (f :: fs) := by
  obtain ⟨hf, hs, hfs⟩ := hfs
  rw [pathAddrs, List.nodup_cons, List.mem_append, not_or] at hnodup
  refine ⟨?_, hs.modify hnodup.1.1 _, hfs.modify hnodup.1.2 _⟩
  rw [Heap.modify_self, hf, Option.map_some, setChild_cell]

/-! ## Changes to the heap -/

omit [DecidableEq P] in
/-- The heaps differ at these nodes at most. -/
def Changes (L : List P) (h h' : Heap P V) : Prop := ∀ p, p ∉ L → h' p = h p

variable {L L' : List P} {h'' : Heap P V}

omit [DecidableEq P] in
lemma Changes.refl : Changes L h h := fun _ _ => rfl

omit [DecidableEq P] in
lemma Changes.trans (h₁ : Changes L h h') (h₂ : Changes L h' h'') : Changes L h h'' :=
  fun p hp => (h₂ p hp).trans (h₁ p hp)

omit [DecidableEq P] in
lemma Changes.mono (hc : Changes L h h') (hL : L ⊆ L') : Changes L' h h' :=
  fun p hp => hc p (mt (@hL p) hp)

lemma changes_modify (hp : p ∈ L) {k : Node P V → Node P V} : Changes L h (h.modify p k) :=
  fun _ hx => Heap.modify_of_ne fun heq => hx (heq ▸ hp)

lemma changes_adopt (hs : s ∉ addrs t) (hL : addrs t ⊆ L) :
    Changes L h (adopt s h (ptr s t) q) := by
  rw [adopt]
  split
  · exact .refl
  · rename_i hne
    exact changes_modify (hL (ptr_mem (mt (ptr_eq_iff hs).mpr hne)))

omit [DecidableEq P] in
lemma Rep.of_changes (ht : Rep s h q t) (hc : Changes L h h') (hL : (addrs t).Disjoint L) :
    Rep s h' q t :=
  ht.congr fun p hp => hc p (hL hp)

omit [DecidableEq P] in
lemma RepPath.of_changes (hfs : RepPath s h q x fs) (hc : Changes L h h')
    (hL : (pathAddrs fs).Disjoint L) : RepPath s h' q x fs :=
  hfs.congr fun p hp => hc p (hL hp)

omit [DecidableEq P] in
lemma nodup_addrs_branch :
    (addrs (branch d c t a u)).Nodup ↔
      a.1 ∉ addrs t ∧ a.1 ∉ addrs u ∧ (addrs t).Nodup ∧ (addrs u).Nodup ∧
        (addrs t).Disjoint (addrs u) := by
  rw [perm_addrs_branch.nodup_iff, List.nodup_cons, List.nodup_append', List.mem_append, not_or,
    and_assoc]

omit [DecidableEq P] in
lemma nodup_addrs_fill :
    (addrs (fill fs t)).Nodup ↔
      (addrs t).Nodup ∧ (pathAddrs fs).Nodup ∧ (addrs t).Disjoint (pathAddrs fs) := by
  rw [perm_addrs_fill.nodup_iff, List.nodup_append']

variable (s) in
/-- The tree is on the heap, with the pointer `root` to it, and no other node stands at one of its
addresses. -/
structure IsTree (h : Heap P V) (root : Option P) (q : Option P) (t : RbTree (P × V)) : Prop where
  root_eq : root = some (ptr s t)
  rep : Rep s h q t
  nodup : (addrs t).Nodup
  sentinel : s ∉ addrs t

omit [DecidableEq P] in
lemma IsTree.of_changes {root : Option P} (ht : IsTree s h root q t) (hc : Changes L h h')
    (hL : (addrs t).Disjoint L) : IsTree s h' root q t :=
  { ht with rep := ht.rep.of_changes hc hL }

end HeapTree
