import MTRpc.Common.NgxRbtree

/-!
# Deletion from the tree of timers

The loop of `ngx_rbtree_delete` climbs from the place of the missing black node as
`RedBlack.deleteFixup` does.  At the beginning this place can be empty; the loop then begins at the
sentinel, whose parent has been set to the node above.
-/

namespace MTRpc

open RedBlack HeapTree RbTree

namespace NgxRbtree

variable {P δ : Type} [DecidableEq P] {s : P} {m m' : NgxRbtree P δ} {c c' cw : Color} {d : Side}
variable {q : Option P} {t near far u v : RbTree (P × Entry δ)} {a b e : P × Entry δ}
variable {f : Frame (P × Entry δ)} {fs : List (Frame (P × Entry δ))}

/-! ## The loop -/

variable (s m t) in
/-- The pointer to `t`, and to the sentinel if `t` is empty, has the parent `x`. -/
def Below (x : Option P) : Prop := m.parent (some (ptr s t)) = some x

omit [DecidableEq P] in
/-- The node of a tree has the right parent. -/
lemma Is.below_of_ne (h : Is s m q (fill (f :: fs) t)) (ht : t ≠ .nil) :
    Below s m t (some f.val.1) := by
  obtain rfl | ⟨ct, x, a, y, rfl⟩ := t.eq_nil_or_branch .left
  · exact absurd rfl ht
  · rw [Below, ptr_branch]
    exact h.parent

omit [DecidableEq P] in
lemma Is.below_head (h : Is s m q (fill fs t)) (ht : t ≠ .nil) :
    ∀ f ∈ fs.head?, Below s m t (some f.val.1) := by
  cases fs with
  | nil =>
    intro f hf
    cases hf
  | cons g fs =>
    intro f hf
    obtain rfl : g = f := by simpa using hf
    exact h.below_of_ne ht

omit [DecidableEq P] in
/-- The nodes of a tree have the right parents, and the sentinel keeps the one it has. -/
lemma Moves.below (hm : Moves s q m u m' (fill (⟨d, c, b, v⟩ :: fs) t)) (h : Is s m q u)
    (hb : Below s m t (some b.1)) : Below s m' t (some b.1) := by
  by_cases ht : t = .nil
  · subst ht
    exact (parent_of_changes hm.changes h.tree.sentinel).trans hb
  · exact hm.is.below_of_ne ht

/-- The node `e` is rotated up. -/
lemma deleteRaise_spec (h : Is s m q (fill fs (branch d c t b (branch d cw near e far))))
    (hb : Below s m t (some b.1)) :
    ∃ m', m.deleteRaise s d (some (ptr s t)) (some e.1) = some (m', m'.root) ∧
      Moves s q m (fill fs (branch d c t b (branch d cw near e far))) m'
        (fill fs (branch d c (branch d .black t b near) e (far.paint .black))) := by
  have e1 : m.parent (some (ptr s t)) = some (some b.1) := hb
  have e2 : m.color (some b.1) = some c := h.nodeColor
  obtain ⟨m1, e3, hm1⟩ := h.below.2.paintNode c
  simp only [fill_cons, Frame.attach, branch_other] at hm1
  have e4 : m1.parent (some (ptr s t)) = some (some b.1) := hm1.below h hb
  obtain ⟨m2, e5, hm2⟩ := hm1.is.paintNode .black
  have e6 : m2.child d.other (some e.1) = some (some (ptr s far)) := hm2.is.below.2.child.2
  obtain ⟨m3, e7, hm3⟩ := hm2.is.below.2.below.2.paint (c := .black) fun _ => rfl
  simp only [fill_cons, Frame.attach, branch_other] at hm3
  have hm13 := hm1.trans (hm2.trans hm3)
  have e8 : m3.parent (some (ptr s t)) = some (some b.1) := hm13.below h hb
  obtain ⟨m4, e9, hm4⟩ := hm3.is.rotate
  refine ⟨m4, ?_, hm13.trans hm4⟩
  simp only [deleteRaise, Option.bind_eq_bind, Option.bind_some, Option.pure_def, e1, e2, e3, e4,
    e5, e6, e7, e8, e9]

omit [DecidableEq P] in
lemma bothBlack_eq (h : Is s m q (fill fs (branch d c near e far))) :
    m.bothBlack (some e.1) = some (decide (near.color = .black ∧ far.color = .black)) := by
  have e1 := h.below.1.color
  have e2 := h.below.2.color
  cases d with
  | left =>
    have e3 : m.child .left (some e.1) = some (some (ptr s near)) := h.child.1
    have e4 : m.child .right (some e.1) = some (some (ptr s far)) := h.child.2
    cases hn : near.color <;> cases hf : far.color <;>
      simp [bothBlack, e1, e2, e3, e4, hn, hf]
  | right =>
    have e3 : m.child .right (some e.1) = some (some (ptr s near)) := h.child.1
    have e4 : m.child .left (some e.1) = some (some (ptr s far)) := h.child.2
    cases hn : near.color <;> cases hf : far.color <;>
      simp [bothBlack, e1, e2, e3, e4, hn, hf]

/-- Where the loop goes on after a repair: at the root when it is done, or else above. -/
def Goes (s : P) (m : NgxRbtree P δ) (q : Option P) (u : RbTree (P × Entry δ))
    (fs : List (Frame (P × Entry δ))) (r : Option (NgxRbtree P δ × Option P)) :
    Mended (P × Entry δ) → Prop
  | .done t => ∃ m', r = some (m', m'.root) ∧ Moves s q m u m' (fill fs t)
  | .up t => ∃ m', r = some (m', some (ptr s t)) ∧ Moves s q m u m' (fill fs t)

omit [DecidableEq P] in
lemma Goes.trans {r : Option (NgxRbtree P δ × Option P)} {x : Mended (P × Entry δ)}
    (hm : Moves s q m u m' v) (h : Goes s m' q v fs r x) : Goes s m q u fs r x := by
  cases x with
  | done t =>
    obtain ⟨m'', hr, hmoves⟩ := h
    exact ⟨m'', hr, hm.trans hmoves⟩
  | up t =>
    obtain ⟨m'', hr, hmoves⟩ := h
    exact ⟨m'', hr, hm.trans hmoves⟩

/-- Beside a black node the code repairs as `Frame.mend` does. -/
lemma deleteBeside_spec (h : Is s m q (fill fs (branch d c t b (branch d .black near e far))))
    (hb : Below s m t (some b.1)) :
    Goes s m q (fill fs (branch d c t b (branch d .black near e far))) fs
      (m.deleteBeside s d (some (ptr s t)) (some e.1)) (Frame.mend ⟨d, c, b, v⟩ t near e far) := by
  have e1 : m.parent (some (ptr s t)) = some (some b.1) := hb
  have e2 := bothBlack_eq h.below.2
  have e3 : m.child d.other (some e.1) = some (some (ptr s far)) := h.below.2.child.2
  have e4 := h.below.2.below.2.color
  rw [Frame.mend]
  split
  · rename_i hn hf
    obtain ⟨m1, e5, hm1⟩ := h.below.2.paintNode .red
    simp only [fill_cons, Frame.attach, branch_other] at hm1
    have e6 : m1.parent (some (ptr s t)) = some (some b.1) := hm1.below h hb
    refine ⟨m1, ?_, hm1⟩
    simp [deleteBeside, e2, e5, e6, hn, hf]
  · rename_i hn hf
    obtain rfl | ⟨cn, x, a, y, rfl⟩ := near.eq_nil_or_branch d
    · cases hn
    obtain rfl : cn = .red := by simpa using hn
    have e5 : m.child d (some e.1) = some (some a.1) := by
      rw [h.below.2.child.1, ptr_branch]
    obtain ⟨m1, e6, hm1⟩ := h.below.2.below.1.paintNode .black
    simp only [fill_cons, Frame.attach, branch_other] at hm1
    obtain ⟨m2, e7, hm2⟩ := hm1.is.below.2.paintNode .red
    have h2 : Is s m2 q (fill (⟨d.other, c, b, t⟩ :: fs)
        (branch d.other .red far e (branch d.other .black y a x))) := by
      rw [branch_other, branch_other]
      exact hm2.is
    obtain ⟨m3, e8, hm3⟩ := h2.rotate
    simp only [fill_cons, Frame.attach, branch_other] at hm2 hm3
    have hm := hm1.trans (hm2.trans hm3)
    have e9 : m3.parent (some (ptr s t)) = some (some b.1) := hm.below h hb
    have e10 : m3.child d.other (some b.1) = some (some a.1) := by
      rw [hm3.is.child.2, ptr_branch]
    obtain ⟨m4, e11, hm4⟩ := deleteRaise_spec hm3.is e9
    rw [onSide_branch]
    rw [paint_branch] at hm4
    refine ⟨m4, ?_, hm.trans hm4⟩
    simp [deleteBeside, e2, e3, e4, e5, e6, e7, e8, e9, e10, e11, hn, hf]
  · rename_i hf
    obtain ⟨m1, e5, hm1⟩ := deleteRaise_spec h hb
    refine ⟨m1, ?_, hm1⟩
    simp [deleteBeside, e2, e3, e4, e5, hf]

/-- A red sibling is rotated up first. -/
lemma deleteTurn_red (h : Is s m q (fill fs (branch d c t b (branch d .red near e far))))
    (hb : Below s m t (some b.1)) :
    ∃ m', m.deleteTurn s d (some (ptr s t))
        = m'.deleteBeside s d (some (ptr s t)) (some (ptr s near)) ∧
      Below s m' t (some b.1) ∧
        Moves s q m (fill fs (branch d c t b (branch d .red near e far))) m'
          (fill fs (branch d .black (branch d .red t b near) e far)) := by
  have e1 : m.parent (some (ptr s t)) = some (some b.1) := hb
  have e2 : m.child d.other (some b.1) = some (some e.1) := by
    rw [h.child.2, ptr_branch]
  have e3 : m.color (some e.1) = some .red := h.below.2.nodeColor
  obtain ⟨m1, e4, hm1⟩ := h.below.2.paintNode .black
  simp only [fill_cons, Frame.attach, branch_other] at hm1
  have e5 : m1.parent (some (ptr s t)) = some (some b.1) := hm1.below h hb
  obtain ⟨m2, e6, hm2⟩ := hm1.is.paintNode .red
  have hm12 := hm1.trans hm2
  have e7 : m2.parent (some (ptr s t)) = some (some b.1) := hm12.below h hb
  obtain ⟨m3, e8, hm3⟩ := hm2.is.rotate
  have hm13 := hm12.trans hm3
  have hpath : Moves s q m (fill fs (branch d c t b (branch d .red near e far))) m3
      (fill (⟨d, .red, b, near⟩ :: ⟨d, .black, e, far⟩ :: fs) t) := hm13
  have hbelow : Below s m3 t (some b.1) := hpath.below h hb
  have e9 : m3.parent (some (ptr s t)) = some (some b.1) := hbelow
  have e10 : m3.child d.other (some b.1) = some (some (ptr s near)) := hm3.is.below.1.child.2
  refine ⟨m3, ?_, hbelow, hm13⟩
  simp [deleteTurn, e1, e2, e3, e4, e5, e6, e7, e8, e9, e10]

lemma deleteTurn_black (h : Is s m q (fill fs (branch d c t b (branch d .black near e far))))
    (hb : Below s m t (some b.1)) :
    m.deleteTurn s d (some (ptr s t)) = m.deleteBeside s d (some (ptr s t)) (some e.1) := by
  have e1 : m.parent (some (ptr s t)) = some (some b.1) := hb
  have e2 : m.child d.other (some b.1) = some (some e.1) := by
    rw [h.child.2, ptr_branch]
  have e3 : m.color (some e.1) = some .black := h.below.2.nodeColor
  simp [deleteTurn, e1, e2, e3]

variable {k fuel : ℕ}

/-- The loop ends at the root. -/
lemma deleteLoop_root (h : Is s m q t) :
    ∃ m', m.deleteLoop s (fuel + 1) m.root = some m' ∧ Moves s q m t m' (t.paint .black) := by
  obtain ⟨m', hm, hmoves⟩ := h.paintRoot
  exact ⟨m', by rw [deleteLoop, if_pos rfl, hm], hmoves⟩

/-- The loop ends at a red node. -/
lemma deleteLoop_red (h : Is s m q (fill (f :: fs) t)) (hred : t.color = .red) :
    ∃ m', m.deleteLoop s (fuel + 1) (some (ptr s t)) = some m' ∧
      Moves s q m (fill (f :: fs) t) m' (fill (f :: fs) (t.paint .black)) := by
  have hne : some (ptr s t) ≠ m.root := Is.ne_root h
  have e1 : m.color (some (ptr s t)) = some .red := hred ▸ h.color
  obtain ⟨m', hm, hmoves⟩ := h.paint (c := .black) fun _ => rfl
  refine ⟨m', ?_, hmoves⟩
  rw [deleteLoop, if_neg hne]
  simp only [Option.bind_eq_bind, Option.bind_some, e1, if_true, hm]

/-- The loop makes a turn at a black place below a node with another child. -/
lemma deleteLoop_turn (h : Is s m q (fill fs (branch d c t b v))) (hb : Below s m t (some b.1))
    (hblack : t.color = .black) (hv : v ≠ .nil) :
    m.deleteLoop s (fuel + 1) (some (ptr s t))
      = (m.deleteTurn s d (some (ptr s t))).bind fun r => r.1.deleteLoop s fuel r.2 := by
  have e1 : m.color (some (ptr s t)) = some .black := hblack ▸ h.below.1.color
  have e2 : m.parent (some (ptr s t)) = some (some b.1) := hb
  obtain ⟨l, e3, hside⟩ := h.side (.inr hv)
  rw [deleteLoop, if_neg h.below.1.ne_root]
  simp only [Option.bind_eq_bind, Option.bind_some, e1, e2, e3, hside, reduceCtorEq, if_false]

/-- The loop climbs as the repair does. -/
lemma deleteLoop_spec (h : Is s m q (fill fs t)) (hb : ∀ f ∈ fs.head?, Below s m t (some f.val.1))
    (hfs : Hole (k + 1) fs) (ht : OneShort k t) (hfuel : fs.length < fuel) :
    ∃ m', m.deleteLoop s fuel (some (ptr s t)) = some m' ∧
      Moves s q m (fill fs t) m' (deleteFixup fs t) := by
  induction fs generalizing k t m fuel with
  | nil =>
    obtain ⟨fuel, rfl⟩ := Nat.exists_eq_add_of_lt hfuel
    have hroot : m.root = some (ptr s t) := h.root
    rw [← hroot]
    exact deleteLoop_root h
  | cons f fs ih =>
    rw [List.length_cons] at hfuel
    obtain ⟨fuel, rfl⟩ : ∃ fuel', fuel = fuel' + 1 + 1 := ⟨fuel - 2, by omega⟩
    rw [deleteFixup]
    split
    · rename_i htc
      exact deleteLoop_red h htc
    · rename_i htc
      rw [OneShort, htc] at ht
      have hsib : f.sibling.Balanced (k + 1) := hfs.1
      have hb : Below s m t (some f.val.1) := hb f rfl
      obtain ⟨d, c, b, w⟩ := f
      obtain hnil | ⟨cw, near, e, far, rfl⟩ := w.eq_nil_or_branch d
      · -- the sibling has a black node
        obtain rfl : w = .nil := hnil
        exact absurd (balanced_nil.mp hsib) (Nat.succ_ne_zero k)
      rw [deleteLoop_turn h hb htc branch_ne_nil, onSide_branch]
      cases cw with
      | black =>
        have hgoes := deleteBeside_spec (v := branch d .black near e far) h hb
        obtain ⟨hnear, hfar⟩ := balanced_black_succ.mp hsib
        have hright := right_mend (b := e) hfs ht hnear hfar
        rw [deleteTurn_black h hb]
        cases hmend : Frame.mend ⟨d, c, b, branch d .black near e far⟩ t near e far with
        | done u =>
          rw [hmend] at hgoes
          obtain ⟨m1, e1, hm1⟩ := hgoes
          obtain ⟨m2, e2, hm2⟩ := deleteLoop_root hm1.is
          rw [e1]
          exact ⟨m2, e2, hm1.trans hm2⟩
        | up u =>
          rw [hmend] at hgoes hright
          obtain ⟨m1, e1, hm1⟩ := hgoes
          obtain ⟨-, k', hup, hu⟩ := hright
          have hne : u ≠ .nil := mend_up hmend ▸ branch_ne_nil
          have hlen : fs.length < fuel + 1 := by omega
          obtain ⟨m2, e2, hm2⟩ := ih hm1.is (hm1.is.below_head hne) hup hu hlen
          rw [e1]
          exact ⟨m2, e2, hm1.trans hm2⟩
      | red =>
        have hc : c = .black := by
          cases c with
          | black => rfl
          | red => exact Color.noConfusion (color_branch.symm.trans ((hole_red rfl).mp hfs).2.1.1)
        subst hc
        obtain ⟨-, hfs⟩ := (hole_black rfl).mp hfs
        obtain ⟨⟨hnc, hfc⟩, hnear, hfar⟩ := balanced_red.mp hsib
        obtain rfl | ⟨cn, x, a, y, rfl⟩ := near.eq_nil_or_branch d
        · exact absurd (balanced_nil.mp hnear) (Nat.succ_ne_zero k)
        obtain rfl : cn = .black := by simpa using hnc
        obtain ⟨m1, e1, hb1, hm1⟩ := deleteTurn_red h hb
        have h1 : Is s m1 q (fill (⟨d, .black, e, far⟩ :: fs)
            (branch d .red t b (branch d .black x a y))) := hm1.is
        have hgoes := deleteBeside_spec (v := branch d .black x a y) h1 hb1
        rw [e1, ptr_branch, onSide_branch]
        cases hmend : Frame.mend ⟨d, .red, b, branch d .black x a y⟩ t x a y with
        | done u =>
          rw [hmend] at hgoes
          obtain ⟨m2, e2, hm2⟩ := hgoes
          obtain ⟨m3, e3, hm3⟩ := deleteLoop_root hm2.is
          rw [e2]
          exact ⟨m3, e3, hm1.trans (hm2.trans hm3)⟩
        | up u =>
          -- the node above the hole is red, and the loop ends there
          have hu : u.color = .red := mend_up hmend ▸ color_branch
          rw [hmend] at hgoes
          obtain ⟨m2, e2, hm2⟩ := hgoes
          obtain ⟨m3, e3, hm3⟩ := deleteLoop_red hm2.is hu
          rw [e2]
          exact ⟨m3, e3, hm1.trans (hm2.trans hm3)⟩

variable {l r : RbTree (P × Entry δ)} {x y : Option P} {n : Node P (Entry δ)}

/-! ## The place of the node -/

/-- The root of `t`, or the sentinel, gets a parent. -/
lemma setParent_ptr (ht : Rep s m.heap x t) (hnodup : (addrs t).Nodup) (hs : s ∉ addrs t)
    (hn : m.heap s = some n) (y : Option P) :
    ∃ m', m.setParent (some (ptr s t)) y = some m' ∧ m'.root = m.root ∧ Rep s m'.heap y t ∧
      m'.parent (some (ptr s t)) = some y ∧ Changes (s :: addrs t) m.heap m'.heap ∧
        ∃ z, m'.heap s = some (n.setParent z) := by
  obtain ⟨n', hn'⟩ : ∃ n', m.heap (ptr s t) = some n' := by
    by_cases hne : ptr s t = s
    · exact ⟨n, by rw [hne, hn]⟩
    · exact Option.isSome_iff_exists.mp (isSome_ptr ht hne)
  have hset := store_eq hn' (·.setParent y)
  have hpar : m.heap.modify (ptr s t) (·.setParent y) (ptr s t) = some (n'.setParent y) := by
    rw [Heap.modify_self, hn', Option.map_some]
  refine ⟨_, hset, rfl, ?_, (parent_eq hpar).trans rfl, ?_, ?_⟩
  · by_cases hnil : t = .nil
    · subst hnil
      trivial
    · have hadopt : Rep s (HeapTree.adopt s m.heap (ptr s t) y) y t := ht.adopt hnodup hs
      rwa [HeapTree.adopt, if_neg (mt (ptr_eq_iff hs).mp hnil)] at hadopt
  · refine changes_modify ?_
    by_cases hnil : t = .nil
    · subst hnil
      exact List.mem_cons_self
    · exact List.mem_cons_of_mem _ (ptr_mem hnil)
  · by_cases hne : ptr s t = s
    · refine ⟨y, ?_⟩
      rw [hne, hn] at hn'
      rw [hne] at hpar
      cases hn'
      rw [← hpar, hne]
    · refine ⟨n.parent, ?_⟩
      change m.heap.modify (ptr s t) _ s = _
      rw [Heap.modify_of_ne (Ne.symm hne), hn]
      rfl

/-- `subst`, which is not in the tree, takes the place of `node`. -/
lemma replace_spec (hroot : m.root = some (ptr s (fill fs (branch .left c l a r))))
    (hfs : RepPath s m.heap q a.1 fs)
    (ha : m.heap a.1 = some (cell .left c a.2 (ptr s l) (ptr s r) (up q fs)))
    (hl : Rep s m.heap x l) (hr : Rep s m.heap y r) (hb : m.heap b.1 = some n) (hval : n.val = b.2)
    (hnodup : (b.1 :: addrs (fill fs (branch .left c l a r))).Nodup)
    (hs : s ∉ b.1 :: addrs (fill fs (branch .left c l a r))) :
    ∃ m', m.replace s (some a.1) (some b.1) = some m' ∧
      IsTree s m'.heap m'.root q (fill fs (branch .left c l b r)) ∧
        Changes (b.1 :: (addrs l ++ addrs r ++ pathAddrs fs)) m.heap m'.heap := by
  obtain ⟨hbout, hnodup⟩ := List.nodup_cons.mp hnodup
  rw [List.mem_cons, not_or] at hs
  obtain ⟨hn, hnp, hdisj⟩ := nodup_addrs_fill.mp hnodup
  obtain ⟨hal, har, hnl, hnr, hlr⟩ := nodup_addrs_branch.mp hn
  have hba : b.1 ≠ a.1 := by grind [mem_addrs_fill, mem_addrs_branch]
  have hbl : b.1 ∉ addrs l ∧ b.1 ∉ addrs r ∧ b.1 ∉ pathAddrs fs := by
    grind [mem_addrs_fill, mem_addrs_branch]
  have hpl : (pathAddrs fs).Disjoint (addrs l) ∧ (pathAddrs fs).Disjoint (addrs r) ∧
      a.1 ∉ pathAddrs fs := by
    grind [mem_addrs_branch, List.Disjoint]
  have hsl : s ∉ addrs l ∧ s ∉ addrs r := by grind [mem_addrs_fill, mem_addrs_branch]
  -- the fields of `node` are copied
  have e1 : m.child .left (some a.1) = some (some (ptr s l)) := child_eq ha
  obtain ⟨m1, e2, hr1, hb1, hc1⟩ := store_spec hb (·.setChild .left (some (ptr s l)))
  have ha1 := (hc1 a.1 (by simpa using hba.symm)).trans ha
  have e3 : m1.child .right (some a.1) = some (some (ptr s r)) := child_eq ha1
  obtain ⟨m2, e4, hr2, hb2, hc2⟩ := store_spec hb1 (·.setChild .right (some (ptr s r)))
  have ha2 := (hc2 a.1 (by simpa using hba.symm)).trans ha1
  have e5 : m2.parent (some a.1) = some (up q fs) := parent_eq ha2
  obtain ⟨m3, e6, hr3, hb3, hc3⟩ := store_spec hb2 (·.setParent (up q fs))
  have ha3 := (hc3 a.1 (by simpa using hba.symm)).trans ha2
  have e7 : m3.color (some a.1) = some c := color_eq ha3
  obtain ⟨m4, e8, hr4, hb4, hc4⟩ := store_spec hb3 (·.setColor c)
  have ha4 := (hc4 a.1 (by simpa using hba.symm)).trans ha3
  replace hb4 : m4.heap b.1 = some (cell .left c b.2 (ptr s l) (ptr s r) (up q fs)) := by
    rw [hb4, ← hval]
    rfl
  have hc04 : Changes [b.1] m.heap m4.heap := hc1.trans (hc2.trans (hc3.trans hc4))
  -- the pointer to `node`
  obtain ⟨m5, e9, hr5, hfs5, hc5⟩ :=
    redirect_spec (m := m4) (d := .left) (t := branch .left c l a r)
      (by rw [hr4, hr3, hr2, hr1, hroot]) branch_ne_nil
      (by
        rw [ptr_branch]
        exact hfs.of_changes hc04 (by simpa using hbl.2.2))
      (by rwa [ptr_branch]) rfl hnodup (by grind [mem_addrs_fill]) (branch .left c l b r)
  rw [ptr_branch, ptr_branch] at e9
  rw [ptr_branch] at hfs5
  have hc05 : Changes (b.1 :: pathAddrs fs) m.heap m5.heap :=
    (hc04.mono (by simp)).trans (hc5.mono (by simp))
  have hb5 := (hc5 b.1 hbl.2.2).trans hb4
  -- the children
  have e10 : m5.child .left (some b.1) = some (some (ptr s l)) := child_eq hb5
  have hl5 := hl.of_changes hc05 (by grind [List.Disjoint])
  obtain ⟨m6, e11, hr6, hh6⟩ : ∃ m6, m5.adopt s (some (ptr s l)) (some b.1) = some m6 ∧
      m6.root = m5.root ∧ m6.heap = HeapTree.adopt s m5.heap (ptr s l) (some b.1) :=
    ⟨_, adopt_eq (isSome_ptr hl5), rfl, rfl⟩
  have hc6 : Changes (addrs l) m5.heap m6.heap := hh6 ▸ changes_adopt hsl.1 (List.Subset.refl _)
  have hb6 := (hc6 b.1 hbl.1).trans hb5
  have e12 : m6.child .right (some b.1) = some (some (ptr s r)) := child_eq hb6
  have hr6' := (hr.of_changes hc05 (by grind [List.Disjoint])).of_changes hc6
    (by grind [List.Disjoint])
  obtain ⟨m7, e13, hr7, hh7⟩ : ∃ m7, m6.adopt s (some (ptr s r)) (some b.1) = some m7 ∧
      m7.root = m6.root ∧ m7.heap = HeapTree.adopt s m6.heap (ptr s r) (some b.1) :=
    ⟨_, adopt_eq (isSome_ptr hr6'), rfl, rfl⟩
  have hc7 : Changes (addrs r) m6.heap m7.heap := hh7 ▸ changes_adopt hsl.2 (List.Subset.refl _)
  have hl6 : Rep s m6.heap (some b.1) l := hh6 ▸ hl5.adopt hnl hsl.1
  have hr7' : Rep s m7.heap (some b.1) r := hh7 ▸ hr6'.adopt hnr hsl.2
  have hrest := hnodup
  rw [perm_addrs_fill_branch.nodup_iff, List.nodup_cons] at hrest
  have hc57 : Changes (addrs l ++ addrs r) m5.heap m7.heap :=
    (hc6.mono (by simp)).trans (hc7.mono (by simp))
  refine ⟨m7, ?_, ⟨?_, rep_fill_branch.mpr ⟨?_, ?_, ?_, hr7'⟩, ?_, ?_⟩, ?_⟩
  · simp only [replace, setChild, setParent, setColor, Option.bind_eq_bind, Option.bind_some, e1,
      e2, e3, e4, e5, e6, e7, e8, e9, e10, e11, e12, e13]
  · rw [hr7, hr6, hr5]
  · exact hfs5.of_changes hc57 (by grind [List.Disjoint])
  · rw [hc7 b.1 hbl.2.1, hb6]
  · exact hl6.of_changes hc7 hlr
  · rw [perm_addrs_fill_branch.nodup_iff, List.nodup_cons]
    exact ⟨by grind, hrest.2⟩
  · rw [perm_addrs_fill_branch.mem_iff]
    grind [mem_addrs_fill, mem_addrs_branch]
  · exact (hc05.mono (by grind)).trans (hc57.mono (by grind))

/-- The node `a` is out of the tree, and its child `t` in its place or in that of the node that
takes its place. -/
structure Cut (s : P) (m : NgxRbtree P δ) (q : Option P) (u : RbTree (P × Entry δ))
    (a : P × Entry δ) (m' : NgxRbtree P δ) (fs : List (Frame (P × Entry δ)))
    (t : RbTree (P × Entry δ)) : Prop where
  is : Is s m' q (fill fs t)
  below : ∀ f ∈ fs.head?, Below s m' t (some f.val.1)
  cleared : ∃ n, m'.heap a.1 = some n ∧ n.val = { a.2 with key := 0 }
  changes : Changes (s :: addrs u) m.heap m'.heap
  sentinel : ∃ z, m'.heap s = (m.heap s).map (·.setParent z)

/-- A node with one child at most. -/
lemma cut_one (h : Is s m q (fill (f :: fs) (branch d c .nil a t))) :
    ∃ m', m.unlink s (some a.1) (some a.1) (some (ptr s t)) = some m' ∧
      Cut s m q (fill (f :: fs) (branch d c .nil a t)) a m' (f :: fs) t := by
  obtain ⟨⟨hroot, hrep, hnodup, hs⟩, ns, hns, hblack⟩ := h
  obtain ⟨hfs, ha, -, ht⟩ := rep_fill_branch.mp hrep
  have hsub := hnodup
  rw [perm_addrs_fill_branch.nodup_iff, List.nodup_cons] at hsub
  simp only [addrs_nil, List.nil_append, List.mem_append, not_or, List.nodup_append'] at hsub
  obtain ⟨⟨hat, hafs⟩, hnt, hnfs, hdisj⟩ := hsub
  have hout : s ≠ a.1 ∧ s ∉ addrs t ∧ s ∉ pathAddrs (f :: fs) := by
    rw [perm_addrs_fill_branch.mem_iff] at hs
    simpa [not_or] using hs
  obtain ⟨m1, e1, hr1, hfs1, hc1⟩ := hang_spec (d := .left) hfs ha cell_parent hnfs hafs
    hout.1.symm (ptr s t)
  have ha1 := (hc1 a.1 hafs).trans ha
  have e2 : m1.parent (some a.1) = some (some f.val.1) :=
    (parent_eq ha1).trans (by rw [cell_parent]; rfl)
  have ht1 : Rep s m1.heap (some a.1) t := ht.of_changes hc1 hdisj
  obtain ⟨m2, e3, hr2, ht2, hb2, hc2, z, hz⟩ := setParent_ptr ht1 hnt hout.2.1
    ((hc1 s hout.2.2).trans hns) (some f.val.1)
  have ha2 := (hc2 a.1 (by simpa using ⟨hout.1.symm, hat⟩)).trans ha1
  obtain ⟨m3, e4, hr3, ha3, hc3⟩ := store_spec ha2 fun n =>
    { n with left := none, right := none, parent := none, val := { n.val with key := 0 } }
  have hs3 : m3.heap s = some (ns.setParent z) := (hc3 s (by simpa using hout.1)).trans hz
  have ht3 : Rep s m3.heap (some f.val.1) t := ht2.of_changes hc3 (by simpa using hat)
  refine ⟨m3, ?_, ⟨⟨⟨?_, rep_fill.mpr ⟨?_, ht3⟩, ?_, ?_⟩, ?_⟩, ?_, ⟨_, ha3, ?_⟩, ?_, ?_⟩⟩
  · simp only [unlink, clear, Option.bind_eq_bind, Option.bind_some, e1, e2, e3, e4, if_true]
  · rw [hr3, hr2, hr1, hroot, (ptr_fill f fs _ t).1]
  · exact (hfs1.of_changes hc2 (by grind [List.Disjoint])).of_changes hc3 (by simpa using hafs)
  · exact nodup_addrs_fill.mpr ⟨hnt, hnfs, hdisj⟩
  · rw [mem_addrs_fill, not_or]
    exact hout.2
  · exact ⟨_, hs3, hblack⟩
  · intro g hg
    obtain rfl : f = g := by simpa using hg
    refine (parent_of_changes hc3 ?_).trans hb2
    by_cases hnil : t = .nil
    · subst hnil
      simpa using hout.1
    · simpa using ne_of_mem_of_not_mem (ptr_mem hnil) hat
  · rw [cell_val]
  · refine (hc1.mono ?_).trans ((hc2.mono ?_).trans (hc3.mono ?_))
    · grind [mem_addrs_fill]
    · grind [mem_addrs_fill, mem_addrs_branch]
    · grind [mem_addrs_fill, mem_addrs_branch]
  · exact ⟨z, by rw [hs3, hns]; rfl⟩

/-- A node with two children: the leftmost node on the right takes its place. -/
lemma cut_two {ms : List (Frame (P × Entry δ))} {w : RbTree (P × Entry δ)}
    (h : Is s m q (fill fs (branch .left c l a (fill ms (branch .left c' .nil b w))))) :
    ∃ m', m.unlink s (some a.1) (some b.1) (some (ptr s w)) = some m' ∧
      Cut s m q (fill fs (branch .left c l a (fill ms (branch .left c' .nil b w)))) a m'
        (ms ++ ⟨.right, c, b, l⟩ :: fs) w := by
  -- the node above the leftmost node, before and after
  obtain ⟨f, f', gs, hpath, hhead, hf⟩ : ∃ f f' gs, ms ++ ⟨.right, c, a, l⟩ :: fs = f :: gs ∧
      (ms ++ ⟨.right, c, b, l⟩ :: fs).head? = some f' ∧
        (ms = [] ∧ f.val = a ∧ f'.val = b ∨ f = f' ∧ ms.head? = some f) := by
    cases ms with
    | nil => exact ⟨_, _, _, rfl, rfl, .inl ⟨rfl, rfl, rfl⟩⟩
    | cons g ms => exact ⟨_, _, _, rfl, rfl, .inr ⟨rfl, rfl⟩⟩
  have hfill : ∀ v : RbTree (P × Entry δ),
      fill fs (branch .left c l a (fill ms v)) = fill (f :: gs) v := by
    intro v
    rw [← hpath, fill_append]
    rfl
  rw [hfill] at h ⊢
  obtain ⟨⟨hroot, hrep, hnodup, hs⟩, ns, hns, hblack⟩ := h
  obtain ⟨hfs, hb, -, hw⟩ := rep_fill_branch.mp hrep
  have hsub := hnodup
  rw [perm_addrs_fill_branch.nodup_iff, List.nodup_cons] at hsub
  simp only [addrs_nil, List.nil_append, List.mem_append, not_or, List.nodup_append'] at hsub
  obtain ⟨⟨hbw, hbfs⟩, hnw, hnfs, hdisj⟩ := hsub
  have hout : s ≠ b.1 ∧ s ∉ addrs w ∧ s ∉ pathAddrs (f :: gs) := by
    rw [perm_addrs_fill_branch.mem_iff] at hs
    simpa [not_or] using hs
  -- `temp` takes the place of `subst`
  obtain ⟨m1, e1, hr1, hfs1, hc1⟩ := hang_spec (d := .left) hfs hb cell_parent hnfs hbfs
    hout.1.symm (ptr s w)
  have hb1 := (hc1 b.1 hbfs).trans hb
  have e2 : m1.parent (some b.1) = some (some f.val.1) :=
    (parent_eq hb1).trans (by rw [cell_parent]; rfl)
  have hw1 : Rep s m1.heap (some b.1) w := hw.of_changes hc1 hdisj
  obtain ⟨m2, e3, hr2, hw2, hb2, hc2, z, hz⟩ := setParent_ptr hw1 hnw hout.2.1
    ((hc1 s hout.2.2).trans hns) (some f'.val.1)
  have hfs2 := hfs1.of_changes hc2 (by grind [List.Disjoint])
  rw [← hpath, repPath_append] at hfs2
  obtain ⟨hms, ha, hl, hfs2⟩ := hfs2
  dsimp only at ha hl hfs2
  obtain ⟨e4, y, hr⟩ : (if some f.val.1 = some a.1 then m1.setParent (some (ptr s w)) (some b.1)
      else m1.setParent (some (ptr s w)) (some f.val.1)) = some m2 ∧
        ∃ y, Rep s m2.heap y (fill ms w) := by
    rcases hf with ⟨rfl, hfa, hfb⟩ | ⟨rfl, hmf⟩
    · rw [hfb] at e3 hw2
      rw [hfa, if_pos rfl]
      exact ⟨e3, _, hw2⟩
    · obtain ⟨ms, rfl⟩ := List.head?_eq_some_iff.mp hmf
      have hne : f.val.1 ≠ a.1 := by
        rw [← hpath, pathAddrs_append, List.nodup_append'] at hnfs
        exact fun heq => hnfs.2.2 List.mem_cons_self (heq ▸ List.mem_cons_self)
      rw [if_neg (mt Option.some.inj hne)]
      exact ⟨e3, _, rep_fill.mpr ⟨hms, hw2⟩⟩
  -- `subst` takes the place of `node`
  have hb2' := (hc2 b.1 (by simpa using ⟨hout.1.symm, hbw⟩)).trans hb1
  have hmem : b.1 ∉ addrs (fill fs (branch .left c l a (fill ms w))) := by
    rw [hfill, mem_addrs_fill, not_or]
    exact ⟨hbw, hbfs⟩
  have hsmem : s ∉ addrs (fill fs (branch .left c l a (fill ms w))) := by
    rw [hfill, mem_addrs_fill, not_or]
    exact hout.2
  have hnew : (addrs (fill fs (branch .left c l a (fill ms w)))).Nodup := by
    rw [hfill, nodup_addrs_fill]
    exact ⟨hnw, hnfs, hdisj⟩
  obtain ⟨m3, e5, ht3, hc3⟩ := replace_spec (b := b)
    (by rw [hr2, hr1, hroot, hfill, (ptr_fill f gs _ w).1]) hfs2 ha hl hr hb2' cell_val
    (List.nodup_cons.mpr ⟨hmem, hnew⟩) (by simpa using ⟨hout.1, hsmem⟩)
  have hsub := hnew
  rw [perm_addrs_fill_branch.nodup_iff, List.nodup_cons] at hsub
  rw [perm_addrs_fill_branch.mem_iff, List.mem_cons, not_or] at hmem hsmem
  -- `node` is out of the tree
  have ha3 := (hc3 a.1 (by
    rw [List.mem_cons, not_or]
    exact ⟨Ne.symm hmem.1, hsub.1⟩)).trans ha
  obtain ⟨m4, e6, hr4, ha4, hc4⟩ := store_spec ha3 fun n =>
    { n with left := none, right := none, parent := none, val := { n.val with key := 0 } }
  have hs4 : m4.heap s = some (ns.setParent z) := by
    refine (hc4 s (by simpa using hsmem.1)).trans ((hc3 s ?_).trans hz)
    rw [List.mem_cons, not_or]
    exact ⟨hout.1, hsmem.2⟩
  have hnewfill :
      fill (ms ++ ⟨.right, c, b, l⟩ :: fs) w = fill fs (branch .left c l b (fill ms w)) := by
    rw [fill_append]
    rfl
  have hanew : a.1 ∉ addrs (fill fs (branch .left c l b (fill ms w))) := by
    rw [perm_addrs_fill_branch.mem_iff, List.mem_cons, not_or]
    exact ⟨Ne.symm hmem.1, hsub.1⟩
  have his : Is s m4 q (fill (ms ++ ⟨.right, c, b, l⟩ :: fs) w) := by
    rw [hnewfill]
    refine ⟨?_, _, hs4, hblack⟩
    rw [hr4]
    exact ht3.of_changes hc4 (by simpa using hanew)
  refine ⟨m4, ?_, his, ?_, ⟨_, ha4, by rw [cell_val]⟩, ?_, z, by rw [hs4, hns]; rfl⟩
  · have hne : some b.1 ≠ some a.1 := mt Option.some.inj hmem.1
    split at e4
    · rename_i hfa
      simp only [unlink, clear, Option.bind_eq_bind, Option.bind_some, e1, e2, hfa, e4, e5, e6, hne,
        if_true, if_false]
    · rename_i hfa
      simp only [unlink, clear, Option.bind_eq_bind, Option.bind_some, e1, e2, hfa, e4, e5, e6, hne,
        if_false]
  · by_cases hnil : w = .nil
    · subst hnil
      intro g hg
      rw [Option.mem_def, hhead, Option.some.injEq] at hg
      rw [ptr_nil, parent_eq hz] at hb2
      exact (parent_eq hs4).trans (hg ▸ hb2)
    · exact his.below_head hnil
  · have hsubset : b.1 :: (addrs l ++ addrs (fill ms w) ++ pathAddrs fs)
        ⊆ s :: addrs (fill (f :: gs) (branch .left c' .nil b w)) := by
      intro p hp
      rw [List.mem_cons, perm_addrs_fill_branch.mem_iff, List.mem_cons]
      refine .inr ((List.mem_cons.mp hp).imp id fun hp => ?_)
      have hold := (perm_addrs_fill_branch (d := .left) (c := c) (a := a)).mem_iff.mpr
        (List.mem_cons_of_mem _ hp)
      rw [hfill, mem_addrs_fill] at hold
      simpa using hold
    have hamem : a.1 ∈ pathAddrs (f :: gs) := by
      rw [← hpath, pathAddrs_append]
      exact List.mem_append_right _ List.mem_cons_self
    refine (hc1.mono ?_).trans ((hc2.mono ?_).trans ((hc3.mono hsubset).trans (hc4.mono ?_)))
    · grind [mem_addrs_fill]
    · grind [mem_addrs_fill, mem_addrs_branch]
    · grind [mem_addrs_fill]

/-! ## `ngx_rbtree_delete` -/

/-- `ngx_rbtree_min` goes to the leftmost node. -/
lemma min_spec (h : Is s m q (fill fs (.node c l a r))) (hfuel : l.height < fuel)
    (gs : List (Frame (P × Entry δ))) :
    m.min s fuel (some a.1) = some (some (leftmost gs c l a r).2.2.1.1) := by
  induction l generalizing fs gs c a r fuel with
  | nil =>
    obtain ⟨fuel, rfl⟩ := Nat.exists_eq_add_of_lt hfuel
    have e1 : m.child .left (some a.1) = some (some s) := (Is.child (d := .left) h).1
    rw [min, e1, leftmost]
    exact if_pos rfl
  | node c₁ l₁ a₁ r₁ ih =>
    rw [height] at hfuel
    obtain ⟨fuel, rfl⟩ : ∃ fuel', fuel = fuel' + 1 := Nat.exists_eq_add_one.mpr (by omega)
    have e1 : m.child .left (some a.1) = some (some a₁.1) := (Is.child (d := .left) h).1
    have hne : a₁.1 ≠ s := by
      have hs := h.tree.sentinel
      rintro rfl
      exact hs (mem_addrs_fill.mpr (.inl ((mem_addrs_branch (d := .left)).mpr
        (.inr (.inl ((mem_addrs_branch (d := .left)).mpr (.inl rfl)))))))
    have hbelow : Is s m q (fill (⟨.left, c, a, r⟩ :: fs) (.node c₁ l₁ a₁ r₁)) := h
    rw [min, e1, leftmost]
    exact (if_neg (mt Option.some.inj hne)).trans (ih hbelow (by omega) _)

/-- What `ngx_rbtree_delete` leaves of the node and of the sentinel. -/
structure Deleted (s : P) (m : NgxRbtree P δ) (u : RbTree (P × Entry δ)) (a : P × Entry δ)
    (m' : NgxRbtree P δ) (q : Option P) (t : RbTree (P × Entry δ)) : Prop where
  is : Is s m' q t
  cleared : ∃ n, m'.heap a.1 = some n ∧ n.val = { a.2 with key := 0 }
  changes : Changes (s :: addrs u) m.heap m'.heap
  sentinel : ∃ z, m'.heap s = (m.heap s).map (·.setParent z)

/-- The colours are repaired when a black node is missing. -/
lemma Cut.repair (h : Cut s m q u a m' (f :: fs) t)
    (hrb : (fill (f :: fs) (branch d c .nil b t)).IsRedBlack) (hfuel : (f :: fs).length < fuel)
    (hsub : addrs (fill (f :: fs) t) ⊆ addrs u) (hout : a.1 ∉ addrs (fill (f :: fs) t)) :
    ∃ m'', (if c = .red then some m' else m'.deleteLoop s fuel (some (ptr s t))) = some m'' ∧
      Deleted s m u a m'' q (RedBlack.unlink c (f :: fs) t) := by
  obtain ⟨k, hfs, hk, -⟩ := isRedBlack_fill.mp hrb
  cases c with
  | red => exact ⟨m', if_pos rfl, h.is, h.cleared, h.changes, h.sentinel⟩
  | black =>
    obtain ⟨k, rfl, -, ht⟩ := balanced_black.mp hk
    obtain ⟨m'', e, hm⟩ := deleteLoop_spec h.is h.below hfs (oneShort_of_balanced ht) hfuel
    refine ⟨m'', (if_neg (by simp)).trans e, hm.is, ?_, ?_, ?_⟩
    · rw [hm.changes a.1 hout]
      exact h.cleared
    · exact h.changes.trans (hm.changes.mono fun p hp => List.mem_cons_of_mem _ (hsub hp))
    · rw [hm.changes s h.is.tree.sentinel]
      exact h.sentinel

/-- A root with one child at most. -/
lemma delete_root (h : Is s m q (branch d c .nil a t)) :
    ∃ m' m'', { m with root := some (ptr s t) }.setColor .black (some (ptr s t)) = some m' ∧
      m'.clear (some a.1) = some m'' ∧
        Deleted s m (branch d c .nil a t) a m'' (some a.1) (t.paint .black) := by
  obtain ⟨⟨hroot, hrep, hnodup, hs⟩, ns, hns, hblack⟩ := h
  obtain ⟨ha, -, ht⟩ := rep_branch.mp hrep
  obtain ⟨-, hat, -, hnt, -⟩ := nodup_addrs_branch.mp hnodup
  have hst : s ≠ a.1 ∧ s ∉ addrs t := by
    rw [mem_addrs_branch] at hs
    simpa [not_or] using hs
  have hsub : Is s { m with root := some (ptr s t) } (some a.1) (fill [] t) :=
    ⟨⟨rfl, ht, hnt, hst.2⟩, ns, hns, hblack⟩
  obtain ⟨m1, e1, hm1⟩ := hsub.paint (c := .black) fun _ => rfl
  have hc1 : Changes (addrs t) m.heap m1.heap := hm1.changes
  have ha1 := (hc1 a.1 hat).trans ha
  obtain ⟨m2, e2, hr2, ha2, hc2⟩ := store_spec ha1 fun n =>
    { n with left := none, right := none, parent := none, val := { n.val with key := 0 } }
  have hs2 : m2.heap s = some ns :=
    (hc2 s (by simpa using hst.1)).trans ((hc1 s hst.2).trans hns)
  refine ⟨m1, m2, e1, e2, ⟨?_, ns, hs2, hblack⟩, ⟨_, ha2, by rw [cell_val]⟩, ?_, ns.parent, ?_⟩
  · rw [hr2]
    refine hm1.is.tree.of_changes hc2 ?_
    rw [fill_nil, addrs_paint]
    simpa using hat
  · exact (hc1.mono (by grind [mem_addrs_branch])).trans (hc2.mono (by grind [mem_addrs_branch]))
  · rw [hs2, hns]
    rfl

omit [DecidableEq P] in
lemma Is.ne_sentinel (h : Is s m q (fill fs (branch d c l a r))) : a.1 ≠ s := by
  rintro rfl
  exact h.tree.sentinel (mem_addrs_fill.mpr (.inl (mem_addrs_branch.mpr (.inl rfl))))

/-- A node with one child at most is deleted. -/
lemma delete_one (h : Is s m q (fill fs (branch d c .nil a t)))
    (hrb : (fill fs (branch d c .nil a t)).IsRedBlack)
    (hsubst : m.substTemp s fuel (some a.1) = some (some a.1, some (ptr s t)))
    (hfuel : fs.length < fuel) :
    ∃ m' q', m.delete s fuel (some a.1) = some m' ∧
      Deleted s m (fill fs (branch d c .nil a t)) a m' q' (RedBlack.unlink c fs t) := by
  cases fs with
  | nil =>
    have hroot : some a.1 = m.root := by
      rw [h.root, fill_nil, ptr_branch]
    obtain ⟨m1, m2, e1, e2, hdel⟩ := delete_root h
    refine ⟨m2, some a.1, ?_, hdel⟩
    rw [delete, hsubst]
    simp only [Option.bind_eq_bind, Option.bind_some]
    rw [if_pos hroot, e1]
    exact e2
  | cons f fs =>
    have hroot : some a.1 ≠ m.root := by
      have hne := Is.ne_root (t := branch d c .nil a t) h
      rwa [ptr_branch] at hne
    have e1 : m.color (some a.1) = some c := h.nodeColor
    obtain ⟨m1, e2, hcut⟩ := cut_one h
    have hnodup := h.tree.nodup
    rw [perm_addrs_fill_branch.nodup_iff, List.nodup_cons] at hnodup
    obtain ⟨m2, e3, hdel⟩ := hcut.repair hrb hfuel
      (fun p hp => by
        rw [perm_addrs_fill_branch.mem_iff]
        exact List.mem_cons_of_mem _ (perm_addrs_fill.mem_iff.mp hp))
      (mt perm_addrs_fill.mem_iff.mp hnodup.1)
    refine ⟨m2, q, ?_, hdel⟩
    simp only [delete, hsubst, Option.bind_eq_bind, Option.bind_some, hroot, if_false, e1, e2]
    exact e3

/-- A node with two children is deleted. -/
lemma delete_two {ms : List (Frame (P × Entry δ))} {w : RbTree (P × Entry δ)}
    (h : Is s m q (fill fs (branch .left c l a (fill ms (branch .left c' .nil b w)))))
    (hrb : (fill fs (branch .left c l a (fill ms (branch .left c' .nil b w)))).IsRedBlack)
    (hsubst : m.substTemp s fuel (some a.1) = some (some b.1, some (ptr s w)))
    (hfuel : ms.length + fs.length + 1 < fuel) :
    ∃ m' q', m.delete s fuel (some a.1) = some m' ∧
      Deleted s m (fill fs (branch .left c l a (fill ms (branch .left c' .nil b w)))) a m' q'
        (RedBlack.unlink c' (ms ++ ⟨.right, c, b, l⟩ :: fs) w) := by
  have hpath : ∀ (e : P × Entry δ) (v : RbTree (P × Entry δ)),
      fill (ms ++ ⟨.right, c, e, l⟩ :: fs) v = fill fs (branch .left c l e (fill ms v)) := by
    intro e v
    rw [fill_append]
    rfl
  obtain ⟨f, gs, hcons⟩ : ∃ f gs, ms ++ ⟨.right, c, b, l⟩ :: fs = f :: gs :=
    List.exists_cons_of_ne_nil (by simp)
  have hplace : Is s m q (fill (ms ++ ⟨.right, c, a, l⟩ :: fs) (branch .left c' .nil b w)) := by
    rwa [hpath]
  have hroot : some b.1 ≠ m.root := by
    obtain ⟨g, gs', hcons'⟩ : ∃ f gs, ms ++ ⟨.right, c, a, l⟩ :: fs = f :: gs :=
      List.exists_cons_of_ne_nil (by simp)
    rw [hcons'] at hplace
    have hne := Is.ne_root hplace
    rwa [ptr_branch] at hne
  have e1 : m.color (some b.1) = some c' := hplace.nodeColor
  obtain ⟨m1, e2, hcut⟩ := cut_two h
  have hnew : (fill (f :: gs) (branch .left c' .nil b w)).IsRedBlack := by
    rw [← hcons, hpath]
    exact isRedBlack_fill_val hrb
  have hnodup := h.tree.nodup
  rw [perm_addrs_fill_branch.nodup_iff, List.nodup_cons] at hnodup
  have hadd : ∀ p, p ∈ addrs (fill (f :: gs) w) ↔
      p = b.1 ∨ p ∈ addrs l ∨ p ∈ addrs (fill ms w) ∨ p ∈ pathAddrs fs := by
    intro p
    rw [← hcons, hpath, perm_addrs_fill_branch.mem_iff]
    simp
  have hold : ∀ p, p ∈ addrs (fill ms (branch .left c' .nil b w)) ↔
      p = b.1 ∨ p ∈ addrs (fill ms w) := by
    intro p
    rw [perm_addrs_fill_branch.mem_iff, mem_addrs_fill]
    simp
  rw [hcons] at hcut ⊢
  obtain ⟨m2, e3, hdel⟩ := hcut.repair hnew
    (by
      rw [← hcons, List.length_append, List.length_cons]
      omega)
    (fun p hp => by
      rw [perm_addrs_fill_branch.mem_iff]
      have hp := (hadd p).mp hp
      have hp' := hold p
      grind)
    (fun ha => by
      have ha := (hadd a.1).mp ha
      have ha' := hold a.1
      grind)
  refine ⟨m2, q, ?_, hdel⟩
  simp only [delete, hsubst, Option.bind_eq_bind, Option.bind_some, hroot, if_false, e1, e2]
  exact e3

/-- `ngx_rbtree_delete` takes a node out of a red-black tree, with no more turns than the tree is
high, and writes to the nodes of the tree only and to the parent of the sentinel.  The node is left
with the key 0. -/
theorem delete_spec (h : Is s m q (fill fs (.node c l a r)))
    (hrb : (fill fs (.node c l a r)).IsRedBlack)
    (hfuel : (fill fs (.node c l a r)).height < fuel) :
    ∃ m' q', m.delete s fuel (some a.1) = some m' ∧
      Deleted s m (fill fs (.node c l a r)) a m' q' (RedBlack.delete fs c l r) := by
  have hlen : fs.length + (RbTree.node c l a r).height ≤ (fill fs (.node c l a r)).height :=
    length_add_height_le
  rw [height] at hlen
  have hchild := Is.child (d := .left) h
  have hsl : s ∉ addrs l ∧ s ∉ addrs r := by
    have hs := h.tree.sentinel
    have hmem := mem_addrs_branch (d := .left) (c := c) (a := a) (t := l) (u := r) (p := s)
    rw [branch] at hmem
    rw [mem_addrs_fill, hmem] at hs
    tauto
  cases l with
  | nil =>
    refine delete_one (d := .left) h hrb ?_ (by omega)
    have e1 : m.child .left (some a.1) = some (some s) := hchild.1
    have e2 : m.child .right (some a.1) = some (some (ptr s r)) := hchild.2
    simp [substTemp, e1, e2]
  | node cl ll al rl =>
    have hls : al.1 ≠ s := Is.ne_sentinel (d := .left) (Is.below (d := .left) h).1
    have e1 : m.child .left (some a.1) = some (some al.1) := hchild.1
    cases r with
    | nil =>
      refine delete_one (d := .right) h hrb ?_ (by omega)
      have e2 : m.child .right (some a.1) = some (some s) := hchild.2
      simp [substTemp, e1, e2, hls, ptr]
    | node cr lr ar rr =>
      have hrs : ar.1 ≠ s := Is.ne_sentinel (d := .left) (Is.below (d := .left) h).2
      have e2 : m.child .right (some a.1) = some (some ar.1) := hchild.2
      obtain ⟨ms, c', b, x, hleft, hfill, -⟩ :=
        leftmost_spec [] (c := cr) (a := ar) (l := lr) (r := rr)
      rw [List.append_nil] at hleft
      have e3 : m.min s fuel (some ar.1) = some (some b.1) := by
        have hheight : lr.height < fuel := by
          simp only [height] at hlen
          omega
        have hmin := min_spec (Is.below (d := .left) h).2 hheight []
        rwa [hleft] at hmin
      have hplace : Is s m q (fill (ms ++ ⟨.right, c, a, .node cl ll al rl⟩ :: fs)
          (branch .left c' .nil b x)) := by
        rw [fill_append, branch, hfill]
        exact h
      have e4 : m.child .left (some b.1) = some (some s) := hplace.child.1
      have e5 : m.child .right (some b.1) = some (some (ptr s x)) := hplace.child.2
      have hms :
          ms.length + (RbTree.node c' .nil b x).height ≤ (RbTree.node cr lr ar rr).height := by
        rw [← hfill]
        exact length_add_height_le
      rw [RedBlack.delete, hleft, ← hfill]
      rw [← hfill] at h hrb
      refine delete_two h hrb ?_ ?_
      · simp [substTemp, e1, e2, hls, hrs, e3, e4, e5]
      · simp only [height] at hms hlen
        omega

end NgxRbtree

end MTRpc
