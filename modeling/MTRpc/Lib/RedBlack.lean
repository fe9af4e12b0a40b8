import Mathlib.Algebra.Group.Nat.Defs
import Mathlib.Data.List.Sort
import Mathlib.Data.Nat.Log

/-!
# Red-black trees with a path

A tree is worked on below a path that leads to it from the root (`fill`).  A new node is hung in at
the end of a path and the colours are repaired upwards from there (`insertFixup`); a node is taken
out with at most one child and the missing black is repaired upwards (`deleteFixup`).  Both keep the
tree red-black and the order of the rest (`isRedBlack_insert`, `toList_insert`, `delete_spec`).

The two sides of a tree play the same part: an operation is given the side on which it works, and a
node is written from this side (`branch`).
-/

namespace RedBlack

inductive Color
  | black
  | red
deriving DecidableEq, Repr

inductive Side
  | left
  | right
deriving DecidableEq, Repr

def Side.other : Side → Side
  | .left => .right
  | .right => .left

@[simp] lemma Side.other_other (d : Side) : d.other.other = d := by
  cases d <;> rfl

@[simp] lemma Side.other_ne (d : Side) : d.other ≠ d := by
  cases d <;> decide

lemma Side.eq_other {d d' : Side} (h : d' ≠ d) : d' = d.other := by
  cases d <;> cases d' <;> first | rfl | exact absurd rfl h

inductive RbTree (α : Type*)
  | nil
  | node (color : Color) (left : RbTree α) (val : α) (right : RbTree α)
deriving DecidableEq, Repr

variable {α κ : Type*} {d : Side} {c : Color} {t u x y z : RbTree α} {a b : α} {n : ℕ}

/-- A list written from one side. -/
def seq : Side → List α → α → List α → List α
  | .left, xs, a, ys => xs ++ a :: ys
  | .right, xs, a, ys => ys ++ a :: xs

namespace RbTree

/-- The node with `x` on the side `d` and `y` on the other one. -/
def branch : Side → Color → RbTree α → α → RbTree α → RbTree α
  | .left, c, x, a, y => node c x a y
  | .right, c, x, a, y => node c y a x

/-- A node seen from the side `d`. -/
def onSide {β : Sort*} (d : Side) (t : RbTree α) (nil : β)
    (branch : Color → RbTree α → α → RbTree α → β) : β :=
  match d, t with
  | _, .nil => nil
  | .left, .node c l a r => branch c l a r
  | .right, .node c l a r => branch c r a l

@[simp] lemma onSide_nil {β : Sort*} (e : β) (k : Color → RbTree α → α → RbTree α → β) :
    onSide d (.nil : RbTree α) e k = e := by
  cases d <;> rfl

@[simp] lemma onSide_branch {β : Sort*} (e : β) (k : Color → RbTree α → α → RbTree α → β) :
    onSide d (branch d c x a y) e k = k c x a y := by
  cases d <;> rfl

lemma branch_other : branch d.other c x a y = branch d c y a x := by
  cases d <;> rfl

lemma branch_ne_nil : branch d c x a y ≠ nil := by
  cases d <;> simp [branch]

/-- A tree is empty or has a root, from either side. -/
lemma eq_nil_or_branch (d : Side) (t : RbTree α) : t = nil ∨ ∃ c x a y, t = branch d c x a y := by
  cases t with
  | nil => exact .inl rfl
  | node c l a r =>
    cases d with
    | left => exact .inr ⟨c, l, a, r, rfl⟩
    | right => exact .inr ⟨c, r, a, l, rfl⟩

/-- The colour of the root; an empty tree is black. -/
def color : RbTree α → Color
  | nil => .black
  | node c _ _ _ => c

@[simp] lemma color_nil : (nil : RbTree α).color = .black := rfl

@[simp] lemma color_branch : (branch d c x a y).color = c := by
  cases d <;> rfl

def paint (c : Color) : RbTree α → RbTree α
  | nil => nil
  | node _ l a r => node c l a r

@[simp] lemma paint_nil : (nil : RbTree α).paint c = nil := rfl

@[simp] lemma paint_branch {c' : Color} :
    (branch d c' x a y).paint c = branch d c x a y := by
  cases d <;> rfl

@[simp] lemma paint_color : t.paint t.color = t := by
  cases t <;> rfl

/-- What is painted black is black. -/
lemma color_paint_black : (t.paint .black).color = .black := by
  cases t <;> rfl

lemma paint_of_color (h : t.color = c) : t.paint c = t := h ▸ paint_color

def toList : RbTree α → List α
  | nil => []
  | node _ l a r => l.toList ++ a :: r.toList

@[simp] lemma toList_nil : (nil : RbTree α).toList = [] := rfl

@[simp] lemma toList_branch : (branch d c x a y).toList = seq d x.toList a y.toList := by
  cases d <;> rfl

@[simp] lemma toList_paint : (t.paint c).toList = t.toList := by
  cases t <;> rfl

def height : RbTree α → ℕ
  | nil => 0
  | node _ l _ r => max l.height r.height + 1

/-! ### Balance -/

/-- No red node has a red child, and `n` black nodes stand on every way down. -/
def Balanced : ℕ → RbTree α → Prop
  | n, nil => n = 0
  | n, node .red l _ r => (l.color = .black ∧ r.color = .black) ∧ l.Balanced n ∧ r.Balanced n
  | 0, node .black _ _ _ => False
  | n + 1, node .black l _ r => l.Balanced n ∧ r.Balanced n

/-- A red-black tree: balanced, with a black root. -/
def IsRedBlack (t : RbTree α) : Prop := t.color = .black ∧ ∃ n, t.Balanced n

@[simp] lemma balanced_nil : (nil : RbTree α).Balanced n ↔ n = 0 := by
  cases n <;> rfl

@[simp] lemma balanced_red :
    (branch d .red x a y).Balanced n ↔
      (x.color = .black ∧ y.color = .black) ∧ x.Balanced n ∧ y.Balanced n := by
  cases d <;> cases n <;> simp only [branch, Balanced] <;> tauto

@[simp] lemma balanced_black :
    (branch d .black x a y).Balanced n ↔ ∃ m, n = m + 1 ∧ x.Balanced m ∧ y.Balanced m := by
  cases d <;> cases n <;> simp [branch, Balanced, and_comm]

lemma balanced_black_succ :
    (branch d .black x a y).Balanced (n + 1) ↔ x.Balanced n ∧ y.Balanced n := by
  simp

/-- A tree with a red root can be painted black. -/
lemma Balanced.paint (ht : t.Balanced n) (hred : t.color = .red) :
    (t.paint .black).Balanced (n + 1) := by
  obtain rfl | ⟨c, x, a, y, rfl⟩ := t.eq_nil_or_branch .left
  · cases hred
  · obtain rfl : c = .red := by simpa using hred
    rw [balanced_red] at ht
    rw [paint_branch, balanced_black_succ]
    exact ht.2

/-- The height is at most twice the number of black nodes, one more below a red root. -/
lemma Balanced.height_le (ht : t.Balanced n) :
    t.height ≤ 2 * n + 1 ∧ (t.color = .black → t.height ≤ 2 * n) := by
  induction t generalizing n with
  | nil => simp [height]
  | node c l a r ihl ihr =>
    cases c with
    | red =>
      obtain ⟨⟨hl, hr⟩, htl, htr⟩ := balanced_red (d := .left).mp ht
      have hl := (ihl htl).2 hl
      have hr := (ihr htr).2 hr
      simp only [height, color, reduceCtorEq, false_implies, and_true]
      omega
    | black =>
      obtain ⟨m, rfl, htl, htr⟩ := balanced_black (d := .left).mp ht
      have hl := (ihl htl).1
      have hr := (ihr htr).1
      simp only [height]
      omega

/-- A tree with `n` black nodes on every way down has at least `2 ^ n - 1` nodes. -/
lemma Balanced.le_length (ht : t.Balanced n) : 2 ^ n ≤ t.toList.length + 1 := by
  induction t generalizing n with
  | nil =>
    obtain rfl := balanced_nil.mp ht
    simp
  | node c l a r ihl ihr =>
    cases c with
    | red =>
      obtain ⟨-, htl, htr⟩ := balanced_red (d := .left).mp ht
      have hl := ihl htl
      rw [toList, List.length_append, List.length_cons]
      omega
    | black =>
      obtain ⟨m, rfl, htl, htr⟩ := balanced_black (d := .left).mp ht
      have hl := ihl htl
      have hr := ihr htr
      rw [toList, List.length_append, List.length_cons, Nat.pow_succ]
      omega

/-- The height of a red-black tree is logarithmic in the number of its nodes. -/
theorem IsRedBlack.height_le (ht : t.IsRedBlack) :
    t.height ≤ 2 * Nat.log 2 (t.toList.length + 1) := by
  obtain ⟨hblack, n, hn⟩ := ht
  refine (hn.height_le.2 hblack).trans (Nat.mul_le_mul_left 2 ?_)
  exact Nat.le_log_of_pow_le Nat.one_lt_two hn.le_length

end RbTree

open RbTree

/-! ## Paths -/

/-- A node above the place of the path: the side on which the path goes on, and what stands on the
other side. -/
structure Frame (α : Type*) where
  side : Side
  color : Color
  val : α
  sibling : RbTree α
deriving DecidableEq, Repr

/-- The node with the tree below it. -/
def Frame.attach (f : Frame α) (t : RbTree α) : RbTree α := branch f.side f.color t f.val f.sibling

/-- The tree at the end of the path, which begins with the node right above it. -/
def fill : List (Frame α) → RbTree α → RbTree α
  | [], t => t
  | f :: fs, t => fill fs (f.attach t)

variable {f g : Frame α} {fs gs : List (Frame α)}

@[simp] lemma fill_nil : fill [] t = t := rfl

lemma fill_cons : fill (f :: fs) t = fill fs (f.attach t) := rfl

lemma fill_append : fill (fs ++ gs) t = fill gs (fill fs t) := by
  induction fs generalizing t with
  | nil => rfl
  | cons f fs ih => exact ih

/-- The list depends on the list at the end of the path only. -/
lemma toList_fill_congr (h : t.toList = u.toList) : (fill fs t).toList = (fill fs u).toList := by
  induction fs generalizing t u with
  | nil => exact h
  | cons f fs ih =>
    refine ih ?_
    rw [Frame.attach, Frame.attach, toList_branch, toList_branch, h]

/-- The path and the tree at its end are not higher than the whole. -/
lemma length_add_height_le : fs.length + t.height ≤ (fill fs t).height := by
  induction fs generalizing t with
  | nil => exact (Nat.zero_add _).le
  | cons f fs ih =>
    refine le_trans ?_ ih
    obtain ⟨side, c, a, s⟩ := f
    cases side with
    | left =>
      rw [List.length_cons, Frame.attach, branch, height]
      omega
    | right =>
      rw [List.length_cons, Frame.attach, branch, height]
      omega

/-- A value of a tree stands at the end of a path. -/
lemma exists_fill_of_mem (ha : a ∈ t.toList) : ∃ fs c l r, t = fill fs (.node c l a r) := by
  induction t with
  | nil => cases ha
  | node c l b r ihl ihr =>
    rw [toList, List.mem_append, List.mem_cons] at ha
    rcases ha with ha | rfl | ha
    · obtain ⟨fs, c', l', r', rfl⟩ := ihl ha
      refine ⟨fs ++ [⟨.left, c, b, r⟩], c', l', r', ?_⟩
      rw [fill_append]
      rfl
    · exact ⟨[], c, l, r, rfl⟩
    · obtain ⟨fs, c', l', r', rfl⟩ := ihr ha
      refine ⟨fs ++ [⟨.right, c, b, l⟩], c', l', r', ?_⟩
      rw [fill_append]
      rfl

/-- What stands before and behind the place of the path. -/
lemma toList_fill (fs : List (Frame α)) :
    ∃ xs ys : List α, ∀ t : RbTree α, (fill fs t).toList = xs ++ t.toList ++ ys := by
  induction fs with
  | nil => exact ⟨[], [], fun t => by simp⟩
  | cons f fs ih =>
    obtain ⟨xs, ys, h⟩ := ih
    obtain ⟨side, c, a, s⟩ := f
    cases side with
    | left => exact ⟨xs, a :: s.toList ++ ys, fun t => by simp [fill_cons, h, Frame.attach, seq]⟩
    | right => exact ⟨xs ++ s.toList ++ [a], ys, fun t => by simp [fill_cons, h, Frame.attach, seq]⟩

/-- The colour above the place of the path.  Above the root it counts as red, as the root has to be
black. -/
def above : List (Frame α) → Color
  | [] => .red
  | f :: _ => f.color

/-- The path of a red-black tree, to a place with `n` black nodes on every way down. -/
def Hole : ℕ → List (Frame α) → Prop
  | _, [] => True
  | n, f :: fs =>
    f.sibling.Balanced n ∧
      match f.color with
      | .red => (f.sibling.color = .black ∧ above fs = .black) ∧ Hole n fs
      | .black => Hole (n + 1) fs

lemma hole_red (hf : f.color = .red) :
    Hole n (f :: fs) ↔
      f.sibling.Balanced n ∧ (f.sibling.color = .black ∧ above fs = .black) ∧ Hole n fs := by
  rw [Hole, hf]

lemma hole_black (hf : f.color = .black) :
    Hole n (f :: fs) ↔ f.sibling.Balanced n ∧ Hole (n + 1) fs := by
  rw [Hole, hf]

/-- A tree is red-black when the path and the tree at its end are, and do not make two red nodes. -/
lemma isRedBlack_fill :
    (fill fs t).IsRedBlack ↔
      ∃ n, Hole n fs ∧ t.Balanced n ∧ (t.color = .red → above fs = .black) := by
  induction fs generalizing t with
  | nil =>
    constructor
    · rintro ⟨hblack, n, hn⟩
      exact ⟨n, trivial, hn, fun hred => Color.noConfusion (hblack.symm.trans hred)⟩
    · rintro ⟨n, -, hn, hred⟩
      refine ⟨?_, n, hn⟩
      cases hcol : t.color with
      | black => exact hcol
      | red => exact Color.noConfusion (hred hcol)
  | cons f fs ih =>
    rw [fill_cons, ih]
    cases hf : f.color with
    | red =>
      constructor
      · rintro ⟨n, hfs, ht, habove⟩
        rw [Frame.attach, hf, balanced_red] at ht
        rw [Frame.attach, hf, color_branch] at habove
        obtain ⟨⟨htc, hsc⟩, ht, hs⟩ := ht
        refine ⟨n, (hole_red hf).mpr ⟨hs, ⟨hsc, habove rfl⟩, hfs⟩, ht, fun hred => ?_⟩
        exact Color.noConfusion (htc.symm.trans hred)
      · rintro ⟨n, hfs, ht, habove⟩
        obtain ⟨hs, ⟨hsc, hup⟩, hfs⟩ := (hole_red hf).mp hfs
        have htc : t.color = .black := by
          cases hcol : t.color with
          | black => rfl
          | red => exact Color.noConfusion (hf.symm.trans (habove hcol))
        refine ⟨n, hfs, ?_, fun _ => hup⟩
        rw [Frame.attach, hf, balanced_red]
        exact ⟨⟨htc, hsc⟩, ht, hs⟩
    | black =>
      constructor
      · rintro ⟨n, hfs, ht, -⟩
        rw [Frame.attach, hf, balanced_black] at ht
        obtain ⟨m, rfl, ht, hs⟩ := ht
        exact ⟨m, (hole_black hf).mpr ⟨hs, hfs⟩, ht, fun _ => hf⟩
      · rintro ⟨n, hfs, ht, -⟩
        obtain ⟨hs, hfs⟩ := (hole_black hf).mp hfs
        refine ⟨n + 1, hfs, ?_, fun hred => ?_⟩
        · rw [Frame.attach, hf, balanced_black_succ]
          exact ⟨ht, hs⟩
        · rw [Frame.attach, hf, color_branch] at hred
          exact Color.noConfusion hred

/-- A tree with a black root at the end of a path. -/
lemma Hole.fill (hfs : Hole n fs) (ht : t.Balanced n) (hblack : t.color = .black) :
    (fill fs t).IsRedBlack := by
  refine isRedBlack_fill.mpr ⟨n, hfs, ht, fun hred => ?_⟩
  exact Color.noConfusion (hblack.symm.trans hred)

/-- Painting the root of a red-black tree black changes nothing. -/
lemma RbTree.IsRedBlack.paint (ht : t.IsRedBlack) : t.paint .black = t := paint_of_color ht.1

lemma RbTree.IsRedBlack.painted (ht : t.IsRedBlack) : (t.paint .black).IsRedBlack :=
  ht.paint.symm ▸ ht

/-! ## Insertion -/

/-- The path to the empty place for a new value, below the path `fs`; `before b` says that the value
stands in front of `b`. -/
def descend (before : α → Bool) : List (Frame α) → RbTree α → List (Frame α)
  | fs, .nil => fs
  | fs, .node c l b r =>
      if before b then descend before (⟨.left, c, b, r⟩ :: fs) l
      else descend before (⟨.right, c, b, l⟩ :: fs) r

/-- The red tree `t`, a child of the red node `f`, is rotated up to below `g`. -/
def insertRotate (f g : Frame α) (t : RbTree α) : RbTree α :=
  if f.side = g.side then
    branch g.side .black t f.val (branch g.side .red f.sibling g.val g.sibling)
  else
    t.onSide g.side .nil fun _ x a y =>
      branch g.side .black (branch g.side .red f.sibling f.val x) a
        (branch g.side .red y g.val g.sibling)

/-- The colours are repaired above the red tree `t`. -/
def insertFixup : List (Frame α) → RbTree α → RbTree α
  | [], t => t.paint .black
  | [f], t => (fill [f] t).paint .black
  | f :: g :: fs, t =>
      match f.color with
      | .black => (fill (f :: g :: fs) t).paint .black
      | .red =>
          match g.sibling.color with
          | .red =>
              insertFixup fs
                (branch g.side .red (branch f.side .black t f.val f.sibling) g.val
                  (g.sibling.paint .black))
          | .black => (fill fs (insertRotate f g t)).paint .black

/-- `a` is inserted behind the values that do not stand behind it. -/
def insert (before : α → Bool) (a : α) (t : RbTree α) : RbTree α :=
  insertFixup (descend before [] t) (.node .red .nil a .nil)

/-- The rotation leaves a black root. -/
lemma balanced_insertRotate (hf : f.sibling.Balanced n) (hfc : f.sibling.color = .black)
    (hg : g.sibling.Balanced n) (hgc : g.sibling.color = .black) (ht : t.Balanced n)
    (hred : t.color = .red) :
    (insertRotate f g t).Balanced (n + 1) ∧ (insertRotate f g t).color = .black := by
  rw [insertRotate]
  split
  · rename_i hside
    rw [balanced_black_succ, balanced_red, color_branch]
    exact ⟨⟨ht, ⟨hfc, hgc⟩, hf, hg⟩, rfl⟩
  · obtain rfl | ⟨c, x, a, y, rfl⟩ := t.eq_nil_or_branch g.side
    · cases hred
    · obtain rfl : c = .red := by simpa using hred
      obtain ⟨⟨hxc, hyc⟩, hx, hy⟩ := balanced_red.mp ht
      rw [onSide_branch, balanced_black_succ, balanced_red, balanced_red, color_branch]
      exact ⟨⟨⟨⟨hfc, hxc⟩, hf, hx⟩, ⟨hyc, hgc⟩, hy, hg⟩, rfl⟩

/-- The tree is red-black when the repair has come to an end. -/
lemma isRedBlack_insertFixup (hfs : Hole n fs) (ht : t.Balanced n) (hred : t.color = .red) :
    (insertFixup fs t).IsRedBlack := by
  induction fs, t using insertFixup.induct generalizing n with
  | case1 t => exact ⟨color_paint_black, n + 1, ht.paint hred⟩
  | case2 f t =>
    -- the root is black
    have hf : f.color = .black := by
      cases hf : f.color with
      | black => rfl
      | red => exact Color.noConfusion ((hole_red hf).mp hfs).2.1.2
    have hfill : (fill [f] t).IsRedBlack := isRedBlack_fill.mpr ⟨n, hfs, ht, fun _ => hf⟩
    exact hfill.painted
  | case3 f g fs t hf =>
    have hfill : (fill (f :: g :: fs) t).IsRedBlack :=
      isRedBlack_fill.mpr ⟨n, hfs, ht, fun _ => hf⟩
    rw [insertFixup, hf]
    exact hfill.painted
  | case4 f g fs t hf hg ih =>
    obtain ⟨hs, ⟨hsc, hgc⟩, hfs⟩ := (hole_red hf).mp hfs
    obtain ⟨hu, hfs⟩ := (hole_black hgc).mp hfs
    rw [insertFixup, hf, hg]
    -- both children of the node two above are black now
    refine ih hfs (balanced_red.mpr ⟨⟨color_branch, color_paint_black⟩, ?_, hu.paint hg⟩)
      color_branch
    exact balanced_black_succ.mpr ⟨ht, hs⟩
  | case5 f g fs t hf hg =>
    obtain ⟨hs, ⟨hsc, hgc⟩, hfs⟩ := (hole_red hf).mp hfs
    obtain ⟨hu, hfs⟩ := (hole_black hgc).mp hfs
    obtain ⟨hbal, hblack⟩ := balanced_insertRotate hs hsc hu hg ht hred
    have hfill : (fill fs (insertRotate f g t)).IsRedBlack := hfs.fill hbal hblack
    rw [insertFixup, hf, hg]
    exact hfill.painted

lemma seq_seq {xs ys zs : List α} :
    seq d xs a (seq d ys b zs) = seq d (seq d xs a ys) b zs := by
  cases d <;> simp [seq]

lemma seq_other {xs ys : List α} : seq d.other xs a ys = seq d ys a xs := by
  cases d <;> rfl

/-- The rotation does not change the order. -/
lemma toList_insertRotate (ht : t ≠ .nil) :
    (insertRotate f g t).toList = (fill [f, g] t).toList := by
  rw [insertRotate, fill_cons, fill_cons, fill_nil]
  split
  · rename_i hside
    simp only [Frame.attach, toList_branch, hside, seq_seq]
  · rename_i hside
    obtain rfl | ⟨c, x, a, y, rfl⟩ := t.eq_nil_or_branch g.side
    · exact absurd rfl ht
    · rw [onSide_branch]
      simp only [Frame.attach, toList_branch, Side.eq_other hside, seq_other, seq_seq]

/-- The repair does not change the order. -/
lemma toList_insertFixup (ht : t ≠ .nil) :
    (insertFixup fs t).toList = (fill fs t).toList := by
  induction fs, t using insertFixup.induct with
  | case1 t => exact toList_paint
  | case2 f t => exact toList_paint
  | case3 f g fs t hf =>
    rw [insertFixup, hf]
    exact toList_paint
  | case4 f g fs t hf hg ih =>
    rw [insertFixup, hf, hg]
    refine (ih branch_ne_nil).trans (toList_fill_congr ?_)
    simp only [Frame.attach, toList_branch, toList_paint]
  | case5 f g fs t hf hg =>
    rw [insertFixup, hf, hg]
    exact toList_paint.trans (toList_fill_congr (toList_insertRotate ht))

/-! ### The place of a new value -/

/-- The path goes on from `fs`, and the tree of the path is the tree below `fs`. -/
lemma fill_descend (before : α → Bool) : fill (descend before fs t) .nil = fill fs t := by
  induction t generalizing fs with
  | nil => rfl
  | node c l b r ihl ihr =>
    rw [descend]
    split
    · exact ihl
    · exact ihr

lemma descend_append (before : α → Bool) (fs : List (Frame α)) :
    descend before (fs ++ gs) t = descend before fs t ++ gs := by
  induction t generalizing fs with
  | nil => rfl
  | node c l b r ihl ihr =>
    rw [descend, descend]
    split
    · exact ihl (_ :: fs)
    · exact ihr (_ :: fs)

/-- A tree is a path and the tree at its end. -/
lemma hole_descend (before : α → Bool) (ht : t.IsRedBlack) :
    Hole 0 (descend before [] t) := by
  rw [← fill_nil (t := t), ← fill_descend before, isRedBlack_fill] at ht
  obtain ⟨n, hfs, hn, -⟩ := ht
  exact balanced_nil.mp hn ▸ hfs

lemma length_descend (before : α → Bool) (fs : List (Frame α)) :
    (descend before fs t).length ≤ fs.length + t.height := by
  induction t generalizing fs with
  | nil => exact Nat.le_add_right _ _
  | node c l b r ihl ihr =>
    rw [descend, height]
    split
    · refine (ihl _).trans ?_
      rw [List.length_cons]
      omega
    · refine (ihr _).trans ?_
      rw [List.length_cons]
      omega

/-- A red-black tree stays one when a value is inserted. -/
theorem isRedBlack_insert (before : α → Bool) (ht : t.IsRedBlack) :
    (insert before a t).IsRedBlack := by
  refine isRedBlack_insertFixup (hole_descend before ht) ?_ rfl
  exact balanced_red (d := .left).mpr ⟨⟨rfl, rfl⟩, rfl, rfl⟩

/-- The path into a child of the root. -/
lemma fill_descend_cons (before : α → Bool) (f : Frame α) :
    fill (descend before [f] t) u = f.attach (fill (descend before [] t) u) := by
  have happ : descend before ([] ++ [f]) t = descend before [] t ++ [f] := descend_append before []
  rw [List.nil_append] at happ
  rw [happ, fill_append, fill_cons, fill_nil]

section

variable [LinearOrder κ] (key : α → κ)

lemma orderedInsert_append {xs ys : List α} (h : ∀ b ∈ xs, key b ≤ key a) :
    (xs ++ ys).orderedInsert (key · < key ·) a = xs ++ ys.orderedInsert (key · < key ·) a := by
  induction xs with
  | nil => rfl
  | cons b xs ih =>
    rw [List.forall_mem_cons] at h
    rw [List.cons_append, List.orderedInsert_cons, if_neg (not_lt.mpr h.1), ih h.2,
      List.cons_append]

lemma orderedInsert_before {xs ys : List α} (h : key a < key b) :
    (xs ++ b :: ys).orderedInsert (key · < key ·) a
      = xs.orderedInsert (key · < key ·) a ++ b :: ys := by
  induction xs with
  | nil =>
    rw [List.nil_append, List.orderedInsert_cons, if_pos h]
    rfl
  | cons x xs ih =>
    rw [List.cons_append, List.orderedInsert_cons, List.orderedInsert_cons]
    split
    · rfl
    · rw [ih, List.cons_append]

/-- The place of a new value is in front of the first larger key. -/
lemma toList_descend (ht : t.toList.Pairwise (key · ≤ key ·)) :
    (fill (descend (key a < key ·) [] t) (.node c .nil a .nil)).toList
      = t.toList.orderedInsert (key · < key ·) a := by
  induction t with
  | nil => rfl
  | node c l b r ihl ihr =>
    obtain ⟨hl, hr, hlr⟩ := List.pairwise_append.mp ht
    obtain ⟨hb, hr⟩ := List.pairwise_cons.mp hr
    rw [descend, toList]
    by_cases hlt : key a < key b
    · rw [if_pos (by simpa using hlt), fill_descend_cons, Frame.attach, toList_branch, ihl hl,
        orderedInsert_before key hlt]
      rfl
    · rw [if_neg (by simpa using hlt), fill_descend_cons, Frame.attach, toList_branch, ihr hr]
      have hle : key b ≤ key a := not_lt.mp hlt
      rw [orderedInsert_append key fun x hx => (hlr x hx b List.mem_cons_self).trans hle,
        List.orderedInsert_cons, if_neg hlt]
      rfl

/-- A value is inserted in front of the first larger key. -/
theorem toList_insert (ht : t.toList.Pairwise (key · ≤ key ·)) :
    (insert (key a < key ·) a t).toList = t.toList.orderedInsert (key · < key ·) a :=
  (toList_insertFixup (by simp)).trans (toList_descend key ht)

end

/-! ## Deletion -/

/-- What the repair below a node comes to: it is done, or it goes on above. -/
inductive Mended (α : Type*)
  | done (t : RbTree α)
  | up (t : RbTree α)

/-- The repair where `t` lacks a black node beside the black node between `near` and `far`. -/
def Frame.mend (f : Frame α) (t near : RbTree α) (b : α) (far : RbTree α) : Mended α :=
  match near.color, far.color with
  | .black, .black =>
      .up (branch f.side f.color t f.val (branch f.side .red near b far))
  | .red, .black =>
      .done (near.onSide f.side .nil fun _ x a y =>
        branch f.side f.color (branch f.side .black t f.val x) a (branch f.side .black y b far))
  | _, .red =>
      .done (branch f.side f.color (branch f.side .black t f.val near) b (far.paint .black))

/-- The colours are repaired above the tree `t`, which lacks a black node. -/
def deleteFixup : List (Frame α) → RbTree α → RbTree α
  | [], t => t.paint .black
  | f :: fs, t =>
      match t.color with
      | .red => fill (f :: fs) (t.paint .black)
      | .black =>
          f.sibling.onSide f.side .nil fun cw near b far =>
            match cw with
            | .black =>
                match f.mend t near b far with
                | .done u => (fill fs u).paint .black
                | .up u => deleteFixup fs u
            | .red =>
                -- the sibling is rotated up and `near` becomes the sibling
                near.onSide f.side .nil fun _ x a y =>
                  match Frame.mend ⟨f.side, .red, f.val, near⟩ t x a y with
                  | .done u => (fill (⟨f.side, .black, b, far⟩ :: fs) u).paint .black
                  | .up u => fill (⟨f.side, .black, b, far⟩ :: fs) (u.paint .black)

/-- The tree when a node of the colour `c` with at most the child `t` is taken out. -/
def unlink (c : Color) (fs : List (Frame α)) (t : RbTree α) : RbTree α :=
  match fs, c with
  | [], _ => t.paint .black
  | fs, .red => fill fs t
  | fs, .black => deleteFixup fs t

/-- The path to the leftmost node, below the path `fs`, its colour, value and right child. -/
def leftmost :
    List (Frame α) → Color → RbTree α → α → RbTree α → List (Frame α) × Color × α × RbTree α
  | fs, c, .nil, a, r => (fs, c, a, r)
  | fs, c, .node c' l' a' r', a, r => leftmost (⟨.left, c, a, r⟩ :: fs) c' l' a' r'

/-- The tree when the node between `l` and `r` is taken out. -/
def delete (fs : List (Frame α)) (c : Color) : RbTree α → RbTree α → RbTree α
  | .nil, r => unlink c fs r
  | .node cl ll al rl, .nil => unlink c fs (.node cl ll al rl)
  | .node cl ll al rl, .node cr lr ar rr =>
      -- the leftmost node on the right takes the place of the node
      let s := leftmost [] cr lr ar rr
      unlink s.2.1 (s.1 ++ ⟨.right, c, s.2.2.1, .node cl ll al rl⟩ :: fs) s.2.2.2

/-- The tree would have `n + 1` black nodes on every way down if its root counted as one more. -/
def OneShort (n : ℕ) (t : RbTree α) : Prop :=
  match t.color with
  | .red => (t.paint .black).Balanced (n + 1)
  | .black => t.Balanced n

/-- What a repair leaves is red-black, or can be repaired above. -/
def Mended.Right (c : Color) (fs : List (Frame α)) : Mended α → Prop
  | .done u => (fill fs u).IsRedBlack
  | .up u => u.color = c ∧ ∃ n, Hole (n + 1) fs ∧ OneShort n u

/-- The colour of the node is kept where a repair is done. -/
lemma isRedBlack_fill_branch (hfs : Hole (n + 1) (f :: fs)) (hx : x.Balanced (n + 1))
    (hy : y.Balanced (n + 1)) (hxc : x.color = .black) (hyc : y.color = .black) :
    (fill fs (branch d f.color x a y)).IsRedBlack := by
  cases hf : f.color with
  | red =>
    obtain ⟨-, ⟨-, hup⟩, hfs⟩ := (hole_red hf).mp hfs
    exact isRedBlack_fill.mpr ⟨n + 1, hfs, balanced_red.mpr ⟨⟨hxc, hyc⟩, hx, hy⟩, fun _ => hup⟩
  | black =>
    obtain ⟨-, hfs⟩ := (hole_black hf).mp hfs
    exact hfs.fill (balanced_black_succ.mpr ⟨hx, hy⟩) color_branch

/-- The repair beside a black node. -/
lemma right_mend {near far : RbTree α} (hfs : Hole (n + 1) (f :: fs)) (ht : t.Balanced n)
    (hnear : near.Balanced n) (hfar : far.Balanced n) :
    (f.mend t near b far).Right f.color fs := by
  rw [Frame.mend]
  split
  · rename_i hnc hfc
    refine ⟨color_branch, ?_⟩
    have hsib : (branch f.side .red near b far).Balanced n :=
      balanced_red.mpr ⟨⟨hnc, hfc⟩, hnear, hfar⟩
    cases hf : f.color with
    | red =>
      -- painted black, the node makes up for the missing one
      obtain ⟨-, -, hfs⟩ := (hole_red hf).mp hfs
      refine ⟨n, hfs, ?_⟩
      rw [OneShort, color_branch, paint_branch]
      exact balanced_black_succ.mpr ⟨ht, hsib⟩
    | black =>
      obtain ⟨-, hfs⟩ := (hole_black hf).mp hfs
      refine ⟨n + 1, hfs, ?_⟩
      rw [OneShort, color_branch]
      exact balanced_black_succ.mpr ⟨ht, hsib⟩
  · rename_i hnc hfc
    obtain rfl | ⟨c, x, a, y, rfl⟩ := near.eq_nil_or_branch f.side
    · cases hnc
    · obtain rfl : c = .red := by simpa using hnc
      obtain ⟨⟨hxc, hyc⟩, hx, hy⟩ := balanced_red.mp hnear
      rw [onSide_branch]
      exact isRedBlack_fill_branch hfs (balanced_black_succ.mpr ⟨ht, hx⟩)
        (balanced_black_succ.mpr ⟨hy, hfar⟩) color_branch color_branch
  · rename_i hfc
    exact isRedBlack_fill_branch hfs (balanced_black_succ.mpr ⟨ht, hnear⟩) (hfar.paint hfc)
      color_branch color_paint_black

/-- The tree that a repair leaves. -/
def Mended.tree : Mended α → RbTree α
  | .done u => u
  | .up u => u

lemma mend_up {near far : RbTree α} (h : f.mend t near b far = .up u) :
    u = branch f.side f.color t f.val (branch f.side .red near b far) := by
  rw [Frame.mend] at h
  split at h
  · exact (Mended.up.inj h).symm
  · cases h
  · cases h

/-- The repair does not change the order. -/
lemma toList_mend {near far : RbTree α} :
    (f.mend t near b far).tree.toList
      = seq f.side t.toList f.val (seq f.side near.toList b far.toList) := by
  rw [Frame.mend]
  split
  · simp only [Mended.tree, toList_branch]
  · rename_i hnc hfc
    obtain rfl | ⟨c, x, a, y, rfl⟩ := near.eq_nil_or_branch f.side
    · cases hnc
    · simp only [Mended.tree, onSide_branch, toList_branch, seq_seq]
  · simp only [Mended.tree, toList_branch, toList_paint, seq_seq]

/-- The tree is red-black when the repair has come to an end, and its order is the same. -/
lemma deleteFixup_spec (hfs : Hole (n + 1) fs) (ht : OneShort n t) :
    (deleteFixup fs t).IsRedBlack ∧ (deleteFixup fs t).toList = (fill fs t).toList := by
  induction fs generalizing n t with
  | nil =>
    refine ⟨?_, toList_paint⟩
    rw [deleteFixup]
    cases htc : t.color with
    | red =>
      rw [OneShort, htc] at ht
      exact ⟨color_paint_black, n + 1, ht⟩
    | black =>
      rw [OneShort, htc] at ht
      exact ⟨color_paint_black, n, (paint_of_color htc).symm ▸ ht⟩
  | cons f fs ih =>
    rw [deleteFixup]
    split
    · rename_i htc
      rw [OneShort, htc] at ht
      exact ⟨hfs.fill ht color_paint_black, toList_fill_congr toList_paint⟩
    · rename_i htc
      rw [OneShort, htc] at ht
      have hsib : f.sibling.Balanced (n + 1) := hfs.1
      obtain hnil | ⟨cw, near, b, far, hs⟩ := f.sibling.eq_nil_or_branch f.side
      · -- the sibling has a black node
        rw [hnil] at hsib
        exact absurd (balanced_nil.mp hsib) (Nat.succ_ne_zero n)
      · rw [hs] at hsib
        have horder : (f.attach t).toList
            = seq f.side t.toList f.val (seq f.side near.toList b far.toList) := by
          rw [Frame.attach, toList_branch, hs, toList_branch]
        rw [hs, onSide_branch, fill_cons]
        cases cw with
        | black =>
          obtain ⟨hnear, hfar⟩ := balanced_black_succ.mp hsib
          have hright := right_mend (b := b) hfs ht hnear hfar
          have hlist : (f.mend t near b far).tree.toList = (f.attach t).toList :=
            toList_mend.trans horder.symm
          cases hm : f.mend t near b far with
          | done u =>
            rw [hm] at hright hlist
            exact ⟨hright.painted, toList_paint.trans (toList_fill_congr hlist)⟩
          | up u =>
            rw [hm] at hright hlist
            obtain ⟨-, m, hfs, hu⟩ := hright
            obtain ⟨hrb, heq⟩ := ih hfs hu
            exact ⟨hrb, heq.trans (toList_fill_congr hlist)⟩
        | red =>
          have hf : f.color = .black := by
            cases hf : f.color with
            | black => rfl
            | red =>
              have hblack := ((hole_red hf).mp hfs).2.1.1
              rw [hs, color_branch] at hblack
              exact Color.noConfusion hblack
          obtain ⟨-, hfs⟩ := (hole_black hf).mp hfs
          obtain ⟨⟨hnc, hfc⟩, hnear, hfar⟩ := balanced_red.mp hsib
          have hg : Hole (n + 1) (⟨f.side, .black, b, far⟩ :: fs) :=
            (hole_black rfl).mpr ⟨hfar, hfs⟩
          have hf' : Hole (n + 1) (⟨f.side, .red, f.val, near⟩ :: ⟨f.side, .black, b, far⟩ :: fs) :=
            (hole_red rfl).mpr ⟨hnear, ⟨hnc, rfl⟩, hg⟩
          obtain rfl | ⟨c, x, a, y, rfl⟩ := near.eq_nil_or_branch f.side
          · exact absurd (balanced_nil.mp hnear) (Nat.succ_ne_zero n)
          · obtain rfl : c = .black := by simpa using hnc
            obtain ⟨hx, hy⟩ := balanced_black_succ.mp hnear
            have hright := right_mend (b := a) hf' ht hx hy
            have hlist : ∀ u, (Frame.mend ⟨f.side, .red, f.val, branch f.side .black x a y⟩
                t x a y).tree = u →
                (Frame.attach ⟨f.side, .black, b, far⟩ u).toList = (f.attach t).toList := by
              rintro u rfl
              simp only [Frame.attach, hs, toList_branch, toList_mend, seq_seq]
            simp only [onSide_branch]
            cases hm : Frame.mend ⟨f.side, .red, f.val, branch f.side .black x a y⟩ t x a y with
            | done u =>
              rw [hm] at hright hlist
              refine ⟨hright.painted, toList_paint.trans ?_⟩
              exact toList_fill_congr (hlist u rfl)
            | up u =>
              -- the node above the hole is red, and the repair ends there
              rw [hm] at hright hlist
              obtain ⟨huc, m, hfs, hu⟩ := hright
              rw [OneShort, huc] at hu
              refine ⟨hfs.fill hu color_paint_black, (toList_fill_congr toList_paint).trans ?_⟩
              exact toList_fill_congr (hlist u rfl)

lemma oneShort_of_balanced (ht : t.Balanced n) : OneShort n t := by
  rw [OneShort]
  split
  · rename_i htc
    exact ht.paint htc
  · exact ht

/-- A node with at most one child is taken out. -/
lemma unlink_spec (h : (fill fs (branch d c .nil a t)).IsRedBlack) :
    (unlink c fs t).IsRedBlack ∧ (unlink c fs t).toList = (fill fs t).toList := by
  obtain ⟨n, hfs, hn, habove⟩ := isRedBlack_fill.mp h
  rw [color_branch] at habove
  cases c with
  | red =>
    obtain ⟨⟨-, htc⟩, -, ht⟩ := balanced_red.mp hn
    cases fs with
    | nil => exact Color.noConfusion (habove rfl)
    | cons f fs => exact ⟨hfs.fill ht htc, rfl⟩
  | black =>
    obtain ⟨m, rfl, -, ht⟩ := balanced_black.mp hn
    cases fs with
    | nil => exact deleteFixup_spec hfs (oneShort_of_balanced ht)
    | cons f fs => exact deleteFixup_spec hfs (oneShort_of_balanced ht)

/-- The leftmost node has no left child, and is the first of the list. -/
lemma leftmost_spec (fs : List (Frame α)) {l r : RbTree α} :
    ∃ ms c' b x, leftmost fs c l a r = (ms ++ fs, c', b, x) ∧
      fill ms (.node c' .nil b x) = .node c l a r ∧
        (RbTree.node c l a r).toList = b :: (fill ms x).toList := by
  induction l generalizing fs c a r with
  | nil => exact ⟨[], c, a, r, rfl, rfl, rfl⟩
  | node c₁ l₁ a₁ r₁ ih =>
    obtain ⟨ms, c', b, x, heq, hfill, hlist⟩ := ih (⟨.left, c, a, r⟩ :: fs)
    refine ⟨ms ++ [⟨.left, c, a, r⟩], c', b, x, ?_, ?_, ?_⟩
    · rw [leftmost, heq, List.append_assoc]
      rfl
    · rw [fill_append, hfill]
      rfl
    · rw [toList, hlist, fill_append]
      rfl

/-- The balance does not depend on the values. -/
lemma isRedBlack_fill_val (h : (fill fs (branch d c x a y)).IsRedBlack) :
    (fill fs (branch d c x b y)).IsRedBlack := by
  obtain ⟨n, hfs, hn, habove⟩ := isRedBlack_fill.mp h
  refine isRedBlack_fill.mpr ⟨n, hfs, ?_, by simpa using habove⟩
  cases c with
  | red => exact balanced_red.mpr (balanced_red.mp hn)
  | black => exact balanced_black.mpr (balanced_black.mp hn)

/-- A red-black tree stays one when a node is taken out, and the rest keeps its order. -/
theorem delete_spec {l r : RbTree α} (h : (fill fs (.node c l a r)).IsRedBlack) :
    (delete fs c l r).IsRedBlack ∧ ∃ xs ys, (fill fs (.node c l a r)).toList = xs ++ a :: ys ∧
      (delete fs c l r).toList = xs ++ ys := by
  obtain ⟨xs, ys, hlist⟩ := toList_fill fs
  cases l with
  | nil =>
    obtain ⟨hrb, heq⟩ := unlink_spec (d := .left) h
    refine ⟨hrb, xs, r.toList ++ ys, ?_, ?_⟩
    · rw [hlist, toList, toList_nil]
      simp
    · rw [delete, heq, hlist, List.append_assoc]
  | node cl ll al rl =>
    cases r with
    | nil =>
      obtain ⟨hrb, heq⟩ := unlink_spec (d := .right) h
      refine ⟨hrb, xs ++ (RbTree.node cl ll al rl).toList, ys, ?_, ?_⟩
      · rw [hlist, toList, toList_nil]
        simp
      · rw [delete, heq, hlist]
    | node cr lr ar rr =>
      obtain ⟨ms, c', b, x, hleft, hfill, hfirst⟩ :=
        leftmost_spec [] (c := cr) (a := ar) (l := lr) (r := rr)
      rw [List.append_nil] at hleft
      have hb : (fill (ms ++ ⟨.right, c, b, .node cl ll al rl⟩ :: fs)
          (.node c' .nil b x)).IsRedBlack := by
        rw [fill_append, hfill]
        exact isRedBlack_fill_val (d := .left) (b := b) h
      obtain ⟨hrb, heq⟩ := unlink_spec (d := .left) hb
      rw [delete, hleft]
      refine ⟨hrb, xs ++ (RbTree.node cl ll al rl).toList,
        (RbTree.node cr lr ar rr).toList ++ ys, ?_, ?_⟩
      · rw [hlist, toList]
        simp
      · rw [heq, fill_append, fill_cons, hlist, hfirst]
        simp [Frame.attach, branch, toList]

end RedBlack
