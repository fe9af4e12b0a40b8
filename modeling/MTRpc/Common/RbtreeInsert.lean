import MTRpc.Common.NgxRbtree

/-!
# Insertion into the tree of timers

The path from the root to the empty place is a path of the tree, and the loop of
`ngx_rbtree_insert` climbs it as `RedBlack.insertFixup` does.
-/

namespace MTRpc

open RedBlack HeapTree RbTree

namespace NgxRbtree

variable {P δ : Type} [DecidableEq P] {s p : P} {m m' : NgxRbtree P δ} {c : Color} {q q' : Option P}
variable {n : Node P (Entry δ)} {t : RbTree (P × Entry δ)} {f g : Frame (P × Entry δ)}
variable {fs : List (Frame (P × Entry δ))}

/-! ## The loop -/

variable {d d' e : Side} {a b z : P × Entry δ} {c' c'' : Color} {x y u v : RbTree (P × Entry δ)}

/-- The new node, whose parent is red, has a red uncle. -/
lemma insertTurn_red
    (h : Is s m q (fill fs (branch d c (branch e c' (branch d' c'' x a y) b u) z v)))
    (hv : v.color = .red) :
    ∃ m', m.insertTurn s d (some a.1) = some (m', some z.1) ∧
      Moves s q m (fill fs (branch d c (branch e c' (branch d' c'' x a y) b u) z v)) m'
        (fill fs (branch d .red (branch e .black (branch d' c'' x a y) b u) z
          (v.paint .black))) := by
  have e1 : m.parent (some a.1) = some (some b.1) := h.below.1.below.1.parent
  have e2 : m.parent (some b.1) = some (some z.1) := h.below.1.parent
  have e3 : m.child d.other (some z.1) = some (some (ptr s v)) := h.child.2
  have e4 : m.color (some (ptr s v)) = some .red := hv ▸ h.below.2.color
  obtain ⟨m1, e5, hm1⟩ := h.below.1.paintNode .black
  have h1 : Is s m1 q (fill fs (branch d c (branch e .black (branch d' c'' x a y) b u) z v)) :=
    hm1.is
  obtain ⟨m2, e6, hm2⟩ := h1.below.2.paint (c := .black) fun _ => rfl
  rw [fill_cons, fill_cons, Frame.attach, Frame.attach, branch_other, branch_other] at hm2
  have e7 : m2.parent (some a.1) = some (some b.1) := hm2.is.below.1.below.1.parent
  have e8 : m2.parent (some b.1) = some (some z.1) := hm2.is.below.1.parent
  obtain ⟨m3, e9, hm3⟩ := hm2.is.paintNode .red
  have e10 : m3.parent (some a.1) = some (some b.1) := hm3.is.below.1.below.1.parent
  have e11 : m3.parent (some b.1) = some (some z.1) := hm3.is.below.1.parent
  refine ⟨m3, ?_, hm1.trans (hm2.trans hm3)⟩
  simp only [insertTurn, Option.bind_eq_bind, Option.bind_some, Option.pure_def, e1, e2, e3, e4,
    e5, e6, e7, e8, e9, e10, e11, if_true]

/-- The parent of the red node is rotated up. -/
lemma insertRaise_spec
    (h : Is s m q (fill fs (branch d c (branch d c' (branch d' c'' x a y) b u) z v))) :
    ∃ m', m.insertRaise s d (some a.1) = some (m', some a.1) ∧
      Moves s q m (fill fs (branch d c (branch d c' (branch d' c'' x a y) b u) z v)) m'
        (fill fs (branch d .black (branch d' c'' x a y) b (branch d .red u z v))) := by
  have e1 : m.parent (some a.1) = some (some b.1) := h.below.1.below.1.parent
  obtain ⟨m1, e2, hm1⟩ := h.below.1.paintNode .black
  have h1 : Is s m1 q (fill fs (branch d c (branch d .black (branch d' c'' x a y) b u) z v)) :=
    hm1.is
  have e3 : m1.parent (some a.1) = some (some b.1) := h1.below.1.below.1.parent
  have e4 : m1.parent (some b.1) = some (some z.1) := h1.below.1.parent
  obtain ⟨m2, e5, hm2⟩ := h1.paintNode .red
  have e6 : m2.parent (some a.1) = some (some b.1) := hm2.is.below.1.below.1.parent
  have e7 : m2.parent (some b.1) = some (some z.1) := hm2.is.below.1.parent
  have h2 : Is s m2 q (fill fs (branch d.other .red v z
      (branch d.other .black u b (branch d' c'' x a y)))) := by
    rw [branch_other, branch_other]
    exact hm2.is
  obtain ⟨m3, e8, hm3⟩ := h2.rotate
  rw [branch_other, branch_other, branch_other, branch_other] at hm3
  refine ⟨m3, ?_, hm1.trans (hm2.trans hm3)⟩
  simp only [insertRaise, Option.bind_eq_bind, Option.bind_some, Option.pure_def, e1, e2, e3, e4,
    e5, e6, e7, e8]

/-- The new node is the inner child of its parent. -/
lemma insertTurn_inner
    (h : Is s m q (fill fs (branch d c (branch d c' u b (branch d c'' x a y)) z v)))
    (hv : v.color = .black) :
    ∃ m', m.insertTurn s d (some a.1) = some (m', some b.1) ∧
      Moves s q m (fill fs (branch d c (branch d c' u b (branch d c'' x a y)) z v)) m'
        (fill fs (branch d .black (branch d c' u b x) a (branch d .red y z v))) := by
  have e1 : m.parent (some a.1) = some (some b.1) := h.below.1.below.2.parent
  have e2 : m.parent (some b.1) = some (some z.1) := h.below.1.parent
  have e3 : m.child d.other (some z.1) = some (some (ptr s v)) := h.child.2
  have e4 : m.color (some (ptr s v)) = some .black := hv ▸ h.below.2.color
  have e5 : m.child d.other (some b.1) = some (some a.1) := by
    rw [h.below.1.child.2, ptr_branch]
  obtain ⟨m1, e6, hm1⟩ := h.below.1.rotate
  have h1 : Is s m1 q (fill fs (branch d c (branch d c'' (branch d c' u b x) a y) z v)) := hm1.is
  obtain ⟨m2, e7, hm2⟩ := insertRaise_spec h1
  refine ⟨m2, ?_, hm1.trans hm2⟩
  simp [insertTurn, e1, e2, e3, e4, e5, e6, e7]

/-- The new node is the outer child of its parent. -/
lemma insertTurn_outer
    (h : Is s m q (fill fs (branch d c (branch d c' (branch d' c'' x a y) b u) z v)))
    (hv : v.color = .black) :
    ∃ m', m.insertTurn s d (some a.1) = some (m', some a.1) ∧
      Moves s q m (fill fs (branch d c (branch d c' (branch d' c'' x a y) b u) z v)) m'
        (fill fs (branch d .black (branch d' c'' x a y) b (branch d .red u z v))) := by
  have e1 : m.parent (some a.1) = some (some b.1) := h.below.1.below.1.parent
  have e2 : m.parent (some b.1) = some (some z.1) := h.below.1.parent
  have e3 : m.child d.other (some z.1) = some (some (ptr s v)) := h.child.2
  have e4 : m.color (some (ptr s v)) = some .black := hv ▸ h.below.2.color
  have e5 : m.child d.other (some b.1) = some (some (ptr s u)) := h.below.1.child.2
  have hne : a.1 ≠ ptr s u := by
    have hne := h.below.1.ptr_ne (.inl branch_ne_nil)
    rwa [ptr_branch] at hne
  obtain ⟨m1, e6, hm1⟩ := insertRaise_spec h
  refine ⟨m1, ?_, hm1⟩
  simp [insertTurn, e1, e2, e3, e4, e5, e6, hne]

/-- The loop ends at the root and below a black parent. -/
lemma insertLoop_done {fuel : ℕ} {node : Option P} (h : Is s m q t)
    (hend : node = m.root ∨ ∃ pp, m.parent node = some pp ∧ m.color pp = some .black) :
    ∃ m', m.insertLoop s (fuel + 1) node = some m' ∧ Moves s q m t m' (t.paint .black) := by
  obtain ⟨m', hm, hmoves⟩ := h.paintRoot
  refine ⟨m', ?_, hmoves⟩
  rw [insertLoop]
  split
  · exact hm
  · rename_i hne
    obtain ⟨pp, e1, e2⟩ := hend.resolve_left hne
    simp only [Option.bind_eq_bind, Option.bind_some, e1, e2, if_true, hm]

/-- Below a red parent the loop makes a turn. -/
lemma insertLoop_turn {fuel : ℕ} {node : Option P}
    (h : Is s m q (fill fs (branch d c (branch e .red (branch d' c'' x a y) b u) z v)))
    (hturn : m.insertTurn s d (some a.1) = some (m', node)) :
    m.insertLoop s (fuel + 1) (some a.1) = m'.insertLoop s fuel node := by
  have hne : some a.1 ≠ m.root := by
    have hne := h.below.1.below.1.ne_root
    rwa [ptr_branch] at hne
  have e1 : m.parent (some a.1) = some (some b.1) := h.below.1.below.1.parent
  have e2 : m.color (some b.1) = some .red := h.below.1.nodeColor
  have e3 : m.parent (some b.1) = some (some z.1) := h.below.1.parent
  obtain ⟨l, e4, hside⟩ := h.side (.inl branch_ne_nil)
  rw [ptr_branch] at hside
  rw [insertLoop, if_neg hne]
  simp only [Option.bind_eq_bind, Option.bind_some, e1, e2, e3, e4, hside, hturn, reduceCtorEq,
    if_false]

variable {k fuel : ℕ}

/-- The loop climbs as the repair does. -/
lemma insertLoop_spec (h : Is s m q (fill fs t)) (hfs : Hole k fs) (hred : t.color = .red)
    (hfuel : fs.length < fuel) :
    ∃ m', m.insertLoop s fuel (some (ptr s t)) = some m' ∧
      Moves s q m (fill fs t) m' (insertFixup fs t) := by
  induction fs, t using insertFixup.induct generalizing k m fuel with
  | case1 t =>
    obtain ⟨fuel, rfl⟩ := Nat.exists_eq_add_of_lt hfuel
    exact insertLoop_done h (.inl h.root.symm)
  | case2 f t =>
    obtain ⟨fuel, rfl⟩ := Nat.exists_eq_add_of_lt hfuel
    obtain rfl | ⟨ct, x, a, y, rfl⟩ := t.eq_nil_or_branch .left
    · cases hred
    -- the root is black
    have hf : f.color = .black := by
      cases hf : f.color with
      | black => rfl
      | red => exact Color.noConfusion ((hole_red hf).mp hfs).2.1.2
    rw [ptr_branch]
    refine insertLoop_done h (.inr ⟨some f.val.1, h.parent, ?_⟩)
    exact hf ▸ Is.nodeColor h
  | case3 f g fs t hf =>
    obtain ⟨fuel, rfl⟩ := Nat.exists_eq_add_of_lt hfuel
    obtain rfl | ⟨ct, x, a, y, rfl⟩ := t.eq_nil_or_branch .left
    · cases hred
    rw [ptr_branch, insertFixup, hf]
    refine insertLoop_done h (.inr ⟨some f.val.1, h.parent, ?_⟩)
    exact hf ▸ Is.nodeColor h
  | case4 f g fs t hf hg ih =>
    obtain ⟨fuel, rfl⟩ : ∃ fuel', fuel = fuel' + 1 := Nat.exists_eq_add_one.mpr (by omega)
    obtain ⟨-, ⟨-, hgc⟩, hg'⟩ := (hole_red hf).mp hfs
    obtain ⟨-, hup⟩ := (hole_black hgc).mp hg'
    obtain rfl | ⟨ct, x, a, y, rfl⟩ := t.eq_nil_or_branch .left
    · cases hred
    have hlt : fs.length < fuel := by
      simp only [List.length_cons] at hfuel
      omega
    rw [insertFixup, hf, hg, ptr_branch]
    obtain ⟨e, cf, b, u⟩ := f
    obtain ⟨d, cg, z, v⟩ := g
    obtain rfl : cf = .red := hf
    obtain ⟨m1, e1, hm1⟩ := insertTurn_red h hg
    obtain ⟨m2, e2, hm2⟩ := ih hm1.is hup color_branch hlt
    rw [ptr_branch] at e2
    exact ⟨m2, (insertLoop_turn h e1).trans e2, hm1.trans hm2⟩
  | case5 f g fs t hf hg =>
    obtain ⟨fuel, rfl⟩ : ∃ fuel', fuel = fuel' + 1 + 1 := by
      simp only [List.length_cons] at hfuel
      exact ⟨fuel - 2, by omega⟩
    rw [insertFixup, hf, hg, insertRotate]
    obtain rfl | ⟨ct, x, a, y, rfl⟩ := t.eq_nil_or_branch g.side
    · cases hred
    rw [ptr_branch, onSide_branch]
    obtain ⟨e, cf, b, u⟩ := f
    obtain ⟨d, cg, z, v⟩ := g
    obtain rfl : cf = .red := hf
    by_cases he : e = d
    · subst he
      rw [if_pos rfl]
      obtain ⟨m1, e1, hm1⟩ := insertTurn_outer h hg
      obtain ⟨m2, e2, hm2⟩ := insertLoop_done hm1.is
        (.inr ⟨some b.1, hm1.is.below.1.parent, hm1.is.nodeColor⟩)
      exact ⟨m2, (insertLoop_turn h e1).trans e2, hm1.trans hm2⟩
    · rw [if_neg he]
      obtain rfl := Side.eq_other he
      obtain rfl : ct = .red := by simpa using hred
      have hinner : fill (⟨d.other, .red, b, u⟩ :: ⟨d, cg, z, v⟩ :: fs) (branch d .red x a y)
          = fill fs (branch d cg (branch d .red u b (branch d .red x a y)) z v) := by
        rw [fill_cons, Frame.attach, branch_other]
        rfl
      obtain ⟨m1, e1, hm1⟩ := insertTurn_inner (hinner ▸ h) hg
      obtain ⟨m2, e2, hm2⟩ := insertLoop_done hm1.is
        (.inr ⟨some a.1, hm1.is.below.1.parent, hm1.is.nodeColor⟩)
      exact ⟨m2, (insertLoop_turn h e1).trans e2, hinner ▸ hm1.trans hm2⟩

/-! ## The new node -/

/-- The fields of a new node. -/
lemma leaf_spec (hp : m.heap p = some n) (c : Color) (x : Option P) :
    ∃ m', m.leaf s c (some p) x = some m' ∧ m'.root = m.root ∧
      m'.heap p = some (cell .left c n.val s s x) ∧ Changes [p] m.heap m'.heap := by
  obtain ⟨m1, e1, hr1, hp1, hc1⟩ := store_spec hp (·.setParent x)
  obtain ⟨m2, e2, hr2, hp2, hc2⟩ := store_spec hp1 (·.setChild .left (some s))
  obtain ⟨m3, e3, hr3, hp3, hc3⟩ := store_spec hp2 (·.setChild .right (some s))
  obtain ⟨m4, e4, hr4, hp4, hc4⟩ := store_spec hp3 (·.setColor c)
  refine ⟨m4, ?_, by rw [hr4, hr3, hr2, hr1], hp4, hc1.trans (hc2.trans (hc3.trans hc4))⟩
  simp only [leaf, setParent, setChild, setColor, Option.bind_eq_bind, Option.bind_some, e1, e2, e3,
    e4]

/-- The new node is hung in at the end of the path. -/
lemma hangLeaf_spec (h : Is s m q (fill (f :: fs) .nil)) (hp : m.heap p = some n) (hs : p ≠ s)
    (hout : p ∉ addrs (fill (f :: fs) .nil)) :
    ∃ m₁ m', m.setChild f.side (some f.val.1) (some p) = some m₁ ∧
      m₁.leaf s .red (some p) (some f.val.1) = some m' ∧
        Is s m' q (fill (f :: fs) (.node .red .nil (p, n.val) .nil)) ∧
          Changes (p :: addrs (fill (f :: fs) .nil)) m.heap m'.heap := by
  obtain ⟨⟨hroot, hrep, hnodup, hsent⟩, n', hn', hblack⟩ := h
  obtain ⟨hfs, -⟩ := rep_fill.mp hrep
  have hnew : (addrs (fill (f :: fs) (.node .red .nil (p, n.val) .nil))).Perm
      (p :: addrs (fill (f :: fs) .nil)) :=
    perm_addrs_fill.trans (perm_addrs_fill.symm.cons p)
  rw [mem_addrs_fill, not_or] at hout
  have hup : f.val.1 ∈ addrs (fill (f :: fs) .nil) :=
    mem_addrs_fill.mpr (.inr List.mem_cons_self)
  have hne : p ≠ f.val.1 := fun heq => hout.2 (heq ▸ List.mem_cons_self)
  have hpath := (nodup_addrs_fill.mp hnodup).2.1
  obtain ⟨m₁, e1, hr1, hh1⟩ : ∃ m₁, m.setChild f.side (some f.val.1) (some p) = some m₁ ∧
      m₁.root = m.root ∧ m₁.heap = m.heap.modify f.val.1 (·.setChild f.side (some p)) :=
    ⟨_, store_eq hfs.1 _, rfl, rfl⟩
  have hp1 : m₁.heap p = some n := by
    rw [hh1, Heap.modify_of_ne hne, hp]
  obtain ⟨m', e2, hr2, hp2, hc2⟩ := leaf_spec (s := s) hp1 .red (some f.val.1)
  have hc : Changes (p :: addrs (fill (f :: fs) .nil)) m.heap m'.heap := by
    refine .trans ?_ (hc2.mono (by simp))
    rw [hh1]
    exact changes_modify (List.mem_cons_of_mem _ hup)
  refine ⟨m₁, m', e1, e2,
    ⟨⟨?_, rep_fill.mpr ⟨?_, hp2, trivial, trivial⟩, ?_, ?_⟩, n', ?_, hblack⟩, hc⟩
  · rw [hr2, hr1, hroot, (ptr_fill f fs .nil _).1]
  · have hfs1 := hh1 ▸ hfs.replace (y := p) hpath
    exact hfs1.of_changes hc2 (by simpa using hout.2)
  · rw [hnew.nodup_iff, List.nodup_cons, mem_addrs_fill, not_or]
    exact ⟨hout, hnodup⟩
  · rw [hnew.mem_iff, List.mem_cons, not_or]
    exact ⟨hs.symm, hsent⟩
  · rw [hc s ?_, hn']
    rw [List.mem_cons, not_or]
    exact ⟨hs.symm, hsent⟩

section

variable {before : ℕ → ℕ → Bool}

/-- What the loop of `ngx_rbtree_insert_value` does below the path `fs`. -/
def Inserts (s : P) (before : ℕ → ℕ → Bool) (fuel : ℕ) (m : NgxRbtree P δ) (q : Option P) (p : P)
    (val : Entry δ) (fs : List (Frame (P × Entry δ))) (t : RbTree (P × Entry δ)) : Prop :=
  ∃ m', m.insertBy s before fuel (some (ptr s t)) (some p) = some m' ∧
    Is s m' q (fill (descend (fun b => before val.key b.2.key) fs t)
      (.node .red .nil (p, val) .nil)) ∧
      Changes (p :: addrs (fill fs t)) m.heap m'.heap

/-- A turn goes on with the child on the side of the key, or hangs the node in there. -/
lemma inserts_branch (h : Is s m q (fill fs (branch d c x b y))) (hp : m.heap p = some n)
    (hd : (if before n.val.key b.2.key then Side.left else Side.right) = d) (hs : p ≠ s)
    (hout : p ∉ addrs (fill fs (branch d c x b y)))
    (ih : x ≠ .nil → Inserts s before fuel m q p n.val (⟨d, c, b, y⟩ :: fs) x) :
    Inserts s before (fuel + 1) m q p n.val fs (branch d c x b y) := by
  have hb : m.key (some b.1) = some b.2.key :=
    (key_eq (rep_fill_branch.mp h.tree.rep).2.1).trans (by rw [cell_val])
  have hdescend : descend (fun b => before n.val.key b.2.key) fs (branch d c x b y)
      = descend (fun b => before n.val.key b.2.key) (⟨d, c, b, y⟩ :: fs) x := by
    cases d with
    | left => exact if_pos (by simpa using hd)
    | right => exact if_neg (by simpa using hd)
  rw [Inserts, insertBy, hdescend, ptr_branch]
  simp only [Option.bind_eq_bind, Option.bind_some, hb, key_eq hp, hd, h.child.1, Option.some.injEq]
  by_cases hx : x = .nil
  · subst hx
    obtain ⟨m₁, m', e1, e2, hm, hc⟩ := hangLeaf_spec h.below.1 hp hs hout
    refine ⟨m', ?_, hm, hc⟩
    rw [ptr_nil, if_pos rfl, e1, Option.bind_some]
    exact e2
  · have hsx : s ∉ addrs x := by
      have hs := h.tree.sentinel
      grind [mem_addrs_fill, mem_addrs_branch]
    rw [if_neg (mt (ptr_eq_iff hsx).mp hx)]
    exact ih hx

/-- The loop of `ngx_rbtree_insert_value` goes down to an empty place and hangs the node in. -/
lemma insertBy_spec (h : Is s m q (fill fs t)) (ht : t ≠ .nil) (hp : m.heap p = some n)
    (hs : p ≠ s) (hout : p ∉ addrs (fill fs t)) (hfuel : t.height ≤ fuel) :
    Inserts s before fuel m q p n.val fs t := by
  induction t generalizing fs fuel with
  | nil => exact absurd rfl ht
  | node c l b r ihl ihr =>
    rw [height] at hfuel
    obtain ⟨fuel, rfl⟩ : ∃ fuel', fuel = fuel' + 1 := Nat.exists_eq_add_one.mpr (by omega)
    by_cases hlt : before n.val.key b.2.key
    · refine inserts_branch (d := .left) h hp (if_pos hlt) hs hout fun hl => ?_
      exact ihl h hl hout (by omega)
    · refine inserts_branch (d := .right) h hp (if_neg hlt) hs hout fun hr => ?_
      exact ihr h hr hout (by omega)

/-- The first node of a tree. -/
lemma insert_nil (h : Is s m q .nil) (hp : m.heap p = some n) (hs : p ≠ s) :
    ∃ m', m.insert s before fuel (some p) = some m' ∧
      Is s m' none (.node .black .nil (p, n.val) .nil) ∧ Changes [p] m.heap m'.heap := by
  obtain ⟨m₁, e1, -, hp1, hc⟩ := leaf_spec (s := s) hp .black none
  obtain ⟨n', hn', hblack⟩ := h.black
  refine ⟨{ m₁ with root := some p }, ?_,
    ⟨⟨rfl, ⟨hp1, trivial, trivial⟩, ?_, ?_⟩, n', ?_, hblack⟩, hc⟩
  · have hroot : m.root = some s := h.root
    rw [insert, if_pos hroot]
    simp only [Option.bind_eq_bind, Option.bind_some, Option.pure_def, e1]
  · exact List.nodup_singleton p
  · exact mt List.mem_singleton.mp hs.symm
  · rw [← hn']
    exact hc s (mt List.mem_singleton.mp hs.symm)

/-- `ngx_rbtree_insert` puts a free node into a red-black tree, with no more turns than the tree is
high, and writes to the nodes of the tree only. -/
theorem insert_spec (h : Is s m q t) (hrb : t.IsRedBlack) (hp : m.heap p = some n) (hs : p ≠ s)
    (hout : p ∉ addrs t) (hfuel : t.height < fuel) :
    ∃ m' q', m.insert s before fuel (some p) = some m' ∧
      Is s m' q' (RedBlack.insert (fun b => before n.val.key b.2.key) (p, n.val) t) ∧
        Changes (p :: addrs t) m.heap m'.heap := by
  by_cases ht : t = .nil
  · subst ht
    obtain ⟨m', e, hm, hc⟩ := insert_nil h hp hs
    exact ⟨m', none, e, hm, hc⟩
  · have h' : Is s m q (fill [] t) := h
    have hout' : p ∉ addrs (fill [] t) := hout
    obtain ⟨m₁, e1, h1, hc1⟩ := insertBy_spec h' ht hp hs hout' hfuel.le
    have hlen := length_descend (t := t) (fun b => before n.val.key b.2.key) []
    obtain ⟨m', e2, hm⟩ := insertLoop_spec h1 (hole_descend _ hrb) rfl
      (hlen.trans_lt (by simpa using hfuel))
    refine ⟨m', q, ?_, hm.is, hc1.trans (hm.changes.mono ?_)⟩
    · have hroot : m.root ≠ some s := by
        rw [h.root]
        exact mt Option.some.inj (mt (ptr_eq_iff h.tree.sentinel).mp ht)
      rw [insert, if_neg hroot, h.root, e1]
      exact e2
    · intro x hx
      rw [mem_addrs_fill] at hx
      refine List.mem_cons.mpr (hx.imp List.mem_singleton.mp fun hx => ?_)
      rw [← fill_nil (t := t), ← fill_descend (fun b => before n.val.key b.2.key)]
      exact mem_addrs_fill.mpr (.inr hx)

end

end NgxRbtree

end MTRpc
