import MTRpc.Lib.Exec
import MTRpc.Lib.Linked

/-!
# The work queue with two locks

`WorkQueue` is a linked list with a sentinel in front.  `push` takes `pushlock`, links its node
behind `tail` and moves `tail`; `pop` takes `poplock`, copies the element out of the node behind
`head`, moves `head` there and deletes the old sentinel after it has released the lock.  The two
locks do not exclude each other, so that a `pop` can delete the node that `tail` still names
between the two writes of a `push`.

The threads take their memory steps in any order.  `new` never gives a pointer twice here, so that
a pointer to a deleted node stays one.  The elements are popped in the order in which they were
linked, and no step goes through a deleted node (`workQueue_fifo`).
-/

namespace MTRpc

open Exec (Run)
open Linked (Node Seg first)

/-- Where a thread stands: in no call, in `push` with the node `n` and the argument `t`, or in
`pop` with its local variables. -/
inductive QueuePc (T : Type)
  | idle
  | fill (n : ℕ) (t : T)
  | lockPush (n : ℕ) (t : T)
  | readTail (n : ℕ) (t : T)
  | setNext (n : ℕ) (t : T) (last : ℕ)
  | setTail (n : ℕ)
  | unlockPush
  | lockPop
  | readHead
  | readNext (node : ℕ)
  | copy (node newHead : ℕ)
  | setHead (node newHead : ℕ) (t : T)
  | unlockEmpty
  | unlockPop (node : ℕ) (t : T)
  | deleteNode (node : ℕ) (t : T)
deriving DecidableEq, Repr

/-- The heap with the pointer that the next `new` gives, the queue and its two locks, and the
threads. -/
structure WorkQueue (ι T : Type) where
  heap : ℕ → Option (Node ℕ T)
  fresh : ℕ
  head : ℕ
  tail : ℕ
  pushlock : Option ι
  poplock : Option ι
  pc : ι → QueuePc T

/-- A thread calls `push` or `pop`, or takes the next step of its call. -/
inductive QueueAction (ι T : Type)
  | push (i : ι) (t : T)
  | pop (i : ι)
  | next (i : ι)
deriving DecidableEq, Repr

/-- The thread of an action. -/
def QueueAction.thread {ι T : Type} : QueueAction ι T → ι
  | .push i _ => i
  | .pop i => i
  | .next i => i

namespace WorkQueue

variable {ι T : Type} [DecidableEq ι] [Inhabited T]

/-- `WorkQueue()`: the sentinel `0`. -/
def init : WorkQueue ι T where
  heap := Function.update (fun _ => none) 0 (some ⟨none, default⟩)
  fresh := 1
  head := 0
  tail := 0
  pushlock := none
  poplock := none
  pc _ := .idle

/-- The thread `i` goes on at `p`. -/
def goto (s : WorkQueue ι T) (i : ι) (p : QueuePc T) : WorkQueue ι T :=
  { s with pc := Function.update s.pc i p }

/-- A write through the pointer `n`. -/
def write (s : WorkQueue ι T) (n : ℕ) (f : Node ℕ T → Node ℕ T) : WorkQueue ι T :=
  { s with heap := Function.update s.heap n ((s.heap n).map f) }

/-- The next step of the call of the thread `i`. -/
def next (s : WorkQueue ι T) (i : ι) : WorkQueue ι T :=
  match s.pc i with
  | .idle => s
  | .fill n t => (s.write n fun c => { c with val := t }).goto i (.lockPush n t)
  | .lockPush n t => { s with pushlock := some i }.goto i (.readTail n t)
  | .readTail n t => s.goto i (.setNext n t s.tail)
  | .setNext n _ last => (s.write last fun c => { c with next := some n }).goto i (.setTail n)
  | .setTail n => { s with tail := n }.goto i .unlockPush
  | .unlockPush => { s with pushlock := none }.goto i .idle
  | .lockPop => { s with poplock := some i }.goto i .readHead
  | .readHead => s.goto i (.readNext s.head)
  | .readNext node =>
    match (s.heap node).bind Node.next with
    | none => s.goto i .unlockEmpty
    | some newHead => s.goto i (.copy node newHead)
  | .copy node newHead =>
    s.goto i (.setHead node newHead (((s.heap newHead).map Node.val).getD default))
  | .setHead node newHead t => { s with head := newHead }.goto i (.unlockPop node t)
  | .unlockEmpty => { s with poplock := none }.goto i .idle
  | .unlockPop node t => { s with poplock := none }.goto i (.deleteNode node t)
  | .deleteNode node _ => { s with heap := Function.update s.heap node none }.goto i .idle

/-- The effect of an action. -/
def act (s : WorkQueue ι T) : QueueAction ι T → WorkQueue ι T
  | .push i t =>
    { s with
      heap := Function.update s.heap s.fresh (some ⟨none, default⟩)
      fresh := s.fresh + 1 }.goto i (.fill s.fresh t)
  | .pop i => s.goto i .lockPop
  | .next i => s.next i

/-- A call that waits for a lock goes on when the lock is free. -/
def Ready (s : WorkQueue ι T) : QueuePc T → Prop
  | .idle => False
  | .lockPush _ _ => s.pushlock = none
  | .lockPop => s.poplock = none
  | _ => True

/-- When the thread of an action can take it. -/
def Enabled (s : WorkQueue ι T) : QueueAction ι T → Prop
  | .push i _ => s.pc i = .idle
  | .pop i => s.pc i = .idle
  | .next i => s.Ready (s.pc i)

instance (s : WorkQueue ι T) : DecidablePred s.Ready
  | .idle => isFalse id
  | .lockPush _ _ => inferInstanceAs (Decidable (s.pushlock = none))
  | .lockPop => inferInstanceAs (Decidable (s.poplock = none))
  | .fill _ _ | .readTail _ _ | .setNext _ _ _ | .setTail _ | .unlockPush | .readHead
  | .readNext _ | .copy _ _ | .setHead _ _ _ | .unlockEmpty | .unlockPop _ _
  | .deleteNode _ _ => isTrue trivial

instance [DecidableEq T] (s : WorkQueue ι T) : DecidablePred s.Enabled
  | .push i _ => inferInstanceAs (Decidable (s.pc i = .idle))
  | .pop i => inferInstanceAs (Decidable (s.pc i = .idle))
  | .next i => inferInstanceAs (Decidable (s.Ready (s.pc i)))

/-- A step of the threads. -/
def step (s : WorkQueue ι T) (a : QueueAction ι T) (t : WorkQueue ι T) : Prop :=
  s.Enabled a ∧ t = s.act a

/-- The pointer that an action goes through or deletes. -/
def deref (s : WorkQueue ι T) : QueueAction ι T → Option ℕ
  | .push _ _ => none
  | .pop _ => none
  | .next i =>
    match s.pc i with
    | .fill n _ => some n
    | .setNext _ _ last => some last
    | .readNext node => some node
    | .copy _ newHead => some newHead
    | .deleteNode node _ => some node
    | _ => none

/-- The element that a call of `push` gets. -/
def pushes (_ : WorkQueue ι T) : QueueAction ι T → Option T
  | .push _ t => some t
  | _ => none

/-- The element that is linked by the write to `tail->next`. -/
def links (s : WorkQueue ι T) : QueueAction ι T → Option T
  | .next i =>
    match s.pc i with
    | .setNext _ t _ => some t
    | _ => none
  | _ => none

/-- The element that `pop` takes when it moves `head`. -/
def takes (s : WorkQueue ι T) : QueueAction ι T → Option T
  | .next i =>
    match s.pc i with
    | .setHead _ _ t => some t
    | _ => none
  | _ => none

/-- The element with which `pop` returns. -/
def returns (s : WorkQueue ι T) : QueueAction ι T → Option T
  | .next i =>
    match s.pc i with
    | .deleteNode _ t => some t
    | _ => none
  | _ => none

/-- The elements of a history, in its order. -/
def elems (f : WorkQueue ι T → QueueAction ι T → Option T)
    (h : List (WorkQueue ι T × QueueAction ι T)) : List T :=
  h.filterMap fun p => f p.1 p.2

/-- The part of a history that is the thread's. -/
def ofThread (i : ι) (h : List (WorkQueue ι T × QueueAction ι T)) :
    List (WorkQueue ι T × QueueAction ι T) :=
  h.filter (·.2.thread = i)

/-- The element that a call of `push` has not linked yet. -/
def pushing : QueuePc T → Option T
  | .fill _ t => some t
  | .lockPush _ t => some t
  | .readTail _ t => some t
  | .setNext _ t _ => some t
  | _ => none

/-- The element that a call of `pop` has taken and not returned yet. -/
def popping : QueuePc T → Option T
  | .unlockPop _ t => some t
  | .deleteNode _ t => some t
  | _ => none

/-! ### The invariant -/

variable {s t : WorkQueue ι T} {cells : List (ℕ × T)} {i j : ι}

/-- The last node of the chain. -/
def lastOf (cells : List (ℕ × T)) : Option ℕ := cells.getLast?.map Prod.fst

/-- A node that is not in the chain. -/
def Outside (s : WorkQueue ι T) (cells : List (ℕ × T)) (n : ℕ) : Prop :=
  (s.heap n).isSome ∧ n ∉ cells.map Prod.fst

/-- A node that is not in the chain, and what it holds. -/
def Built (s : WorkQueue ι T) (cells : List (ℕ × T)) (n : ℕ) (t : T) : Prop :=
  s.heap n = some ⟨none, t⟩ ∧ n ∉ cells.map Prod.fst

/-- What a thread knows of the queue where it stands. -/
def Knows (s : WorkQueue ι T) (cells : List (ℕ × T)) (i : ι) : QueuePc T → Prop
  | .idle => True
  | .fill n _ => s.Built cells n default
  | .lockPush n t => s.Built cells n t
  | .readTail n t => s.Built cells n t ∧ s.pushlock = some i ∧ lastOf cells = some s.tail
  | .setNext n t last => s.Built cells n t ∧ s.pushlock = some i ∧ lastOf cells = some last
  | .setTail n => s.pushlock = some i ∧ lastOf cells = some n
  | .unlockPush => s.pushlock = some i ∧ lastOf cells = some s.tail
  | .lockPop => True
  | .readHead => s.poplock = some i
  | .readNext node => s.poplock = some i ∧ s.head = node
  | .copy node newHead =>
    s.poplock = some i ∧ s.head = node ∧ ∃ t, cells.tail.head? = some (newHead, t)
  | .setHead node newHead t =>
    s.poplock = some i ∧ s.head = node ∧ cells.tail.head? = some (newHead, t)
  | .unlockEmpty => s.poplock = some i
  | .unlockPop node _ => s.poplock = some i ∧ s.Outside cells node
  | .deleteNode node _ => s.Outside cells node

/-- The node that only the thread knows: the new one, or the one to be deleted. -/
def own : QueuePc T → Option ℕ
  | .fill n _ => some n
  | .lockPush n _ => some n
  | .readTail n _ => some n
  | .setNext n _ _ => some n
  | .unlockPop node _ => some node
  | .deleteNode node _ => some node
  | _ => none

/-- The nodes from `head` on are `cells`; `linked` are the elements linked so far, and `taken` those
that `pop` has taken. -/
structure Chain (linked taken : List T) (s : WorkQueue ι T) (cells : List (ℕ × T)) : Prop where
  seg : Seg s.heap cells none
  nodup : (cells.map Prod.fst).Nodup
  head : first cells none = some s.head
  fifo : linked = taken ++ cells.tail.map Prod.snd
  tail : s.pushlock = none → lastOf cells = some s.tail
  fresh : ∀ n, (s.heap n).isSome → n < s.fresh

/-- The chain, what the threads know, and that no two have the same node. -/
structure Inv (linked taken : List T) (s : WorkQueue ι T) (cells : List (ℕ × T)) : Prop extends
    Chain linked taken s cells where
  knows : ∀ i, s.Knows cells i (s.pc i)
  own : ∀ i j n, own (s.pc i) = some n → own (s.pc j) = some n → i = j

omit [DecidableEq ι] in
/-- The node of a thread is not in the chain. -/
lemma Knows.outside {p : QueuePc T} {n : ℕ} (h : s.Knows cells i p) (hown : own p = some n) :
    s.Outside cells n := by
  cases p <;> simp only [own, reduceCtorEq, Option.some.injEq] at hown <;> subst hown
  case fill => exact ⟨h.1 ▸ rfl, h.2⟩
  case lockPush => exact ⟨h.1 ▸ rfl, h.2⟩
  case readTail => exact ⟨h.1.1 ▸ rfl, h.1.2⟩
  case setNext => exact ⟨h.1.1 ▸ rfl, h.1.2⟩
  case unlockPop => exact h.2
  case deleteNode => exact h

omit [DecidableEq ι] in
/-- What a thread knows stays so when the others leave its node alone, and, as long as it has a
lock, the end of the queue that the lock guards. -/
lemma Knows.frame {p : QueuePc T} {cells' : List (ℕ × T)} (h : s.Knows cells i p)
    (hheap : ∀ n, own p = some n → t.heap n = s.heap n ∧ n ∉ cells'.map Prod.fst)
    (hpush : s.pushlock = some i →
      t.pushlock = some i ∧ t.tail = s.tail ∧ lastOf cells' = lastOf cells)
    (hpop : s.poplock = some i → t.poplock = some i ∧ t.head = s.head ∧
      ∀ c, cells.tail.head? = some c → cells'.tail.head? = some c) : t.Knows cells' i p := by
  have hbuilt : ∀ n t', own p = some n → s.Built cells n t' → t.Built cells' n t' :=
    fun n t' hown hb => ⟨(hheap n hown).1.trans hb.1, (hheap n hown).2⟩
  have hout : ∀ n, own p = some n → s.Outside cells n → t.Outside cells' n :=
    fun n hown hb => ⟨(hheap n hown).1 ▸ hb.1, (hheap n hown).2⟩
  cases p with
  | idle => trivial
  | fill n t' => exact hbuilt n _ rfl h
  | lockPush n t' => exact hbuilt n t' rfl h
  | readTail n t' =>
    obtain ⟨hb, hlock, hlast⟩ := h
    obtain ⟨hlock', htail, hlast'⟩ := hpush hlock
    exact ⟨hbuilt n t' rfl hb, hlock', by rw [hlast', htail, hlast]⟩
  | setNext n t' last =>
    obtain ⟨hb, hlock, hlast⟩ := h
    obtain ⟨hlock', -, hlast'⟩ := hpush hlock
    exact ⟨hbuilt n t' rfl hb, hlock', hlast'.trans hlast⟩
  | setTail n =>
    obtain ⟨hlock', -, hlast'⟩ := hpush h.1
    exact ⟨hlock', hlast'.trans h.2⟩
  | unlockPush =>
    obtain ⟨hlock', htail, hlast'⟩ := hpush h.1
    exact ⟨hlock', by rw [hlast', htail, h.2]⟩
  | lockPop => trivial
  | readHead => exact (hpop h).1
  | readNext node => exact ⟨(hpop h.1).1, (hpop h.1).2.1.trans h.2⟩
  | copy node newHead =>
    obtain ⟨hlock, hhead, t', hnext⟩ := h
    obtain ⟨hlock', hhead', hcells⟩ := hpop hlock
    exact ⟨hlock', hhead'.trans hhead, t', hcells _ hnext⟩
  | setHead node newHead t' =>
    obtain ⟨hlock, hhead, hnext⟩ := h
    obtain ⟨hlock', hhead', hcells⟩ := hpop hlock
    exact ⟨hlock', hhead'.trans hhead, hcells _ hnext⟩
  | unlockEmpty => exact (hpop h).1
  | unlockPop node t' => exact ⟨(hpop h.1).1, hout node rfl h.2⟩
  | deleteNode node t' => exact hout node rfl h

variable {linked taken linked' taken' : List T} {cells' : List (ℕ × T)} {p : QueuePc T} {n : ℕ}

/-- A step of the thread `i`: the chain after it, what the thread knows then, and what the others
still know. -/
lemma Inv.goto (h : Inv linked taken s cells) (hchain : Chain linked' taken' t cells')
    (hpc : t.pc = s.pc) (hknows : t.Knows cells' i p)
    (hothers : ∀ j ≠ i, t.Knows cells' j (s.pc j))
    (hown : ∀ n, WorkQueue.own p = some n →
      ∀ j ≠ i, WorkQueue.own (s.pc j) ≠ some n) :
    Inv linked' taken' (t.goto i p) cells' where
  toChain := ⟨hchain.seg, hchain.nodup, hchain.head, hchain.fifo, hchain.tail, hchain.fresh⟩
  knows j := by
    change t.Knows cells' j (Function.update t.pc i p j)
    rw [hpc]
    rcases eq_or_ne j i with rfl | hne
    · rwa [Function.update_self]
    · rw [Function.update_of_ne hne]
      exact hothers j hne
  own j k n hj hk := by
    change WorkQueue.own (Function.update t.pc i p j) = some n at hj
    change WorkQueue.own (Function.update t.pc i p k) = some n at hk
    rw [hpc] at hj hk
    rcases eq_or_ne j i with rfl | hji
    · rcases eq_or_ne k j with rfl | hkj
      · rfl
      · rw [Function.update_self] at hj
        rw [Function.update_of_ne hkj] at hk
        exact absurd hk (hown n hj k hkj)
    · rw [Function.update_of_ne hji] at hj
      rcases eq_or_ne k i with rfl | hki
      · rw [Function.update_self] at hk
        exact absurd hj (hown n hk j hji)
      · rw [Function.update_of_ne hki] at hk
        exact h.own j k n hj hk

omit [DecidableEq ι] in
/-- The node of a thread is on the heap and not in the chain. -/
lemma Inv.outside (h : Inv linked taken s cells) (hown : WorkQueue.own (s.pc i) = some n) :
    s.Outside cells n :=
  (h.knows i).outside hown

omit [DecidableEq ι] in
lemma Inv.knows_at (h : Inv linked taken s cells) (hpc : s.pc i = p) : s.Knows cells i p :=
  hpc ▸ h.knows i

omit [DecidableEq ι] in
lemma Inv.own_ne (h : Inv linked taken s cells) (hi : WorkQueue.own (s.pc i) = some n) :
    ∀ j ≠ i, WorkQueue.own (s.pc j) ≠ some n :=
  fun j hne hj => hne (h.own j i n hj hi)

/-- A step that reads only. -/
lemma Inv.read (h : Inv linked taken s cells) (hknows : s.Knows cells i p)
    (hown : ∀ n, WorkQueue.own p = some n → WorkQueue.own (s.pc i) = some n) :
    Inv linked taken (s.goto i p) cells :=
  h.goto h.toChain rfl hknows (fun j _ => h.knows j) fun n hn => h.own_ne (hown n hn)

omit [DecidableEq ι] in
/-- What the others know does not depend on the node of this thread. -/
lemma Inv.others (h : Inv linked taken s cells) (hi : WorkQueue.own (s.pc i) = some n)
    {o : Option (Node ℕ T)} :
    ∀ j ≠ i, Knows { s with heap := Function.update s.heap n o } cells j (s.pc j) := by
  intro j hne
  refine (h.knows j).frame (fun m hm => ⟨?_, (h.outside hm).2⟩) (fun hl => ⟨hl, rfl, rfl⟩)
    fun hl => ⟨hl, rfl, fun _ hc => hc⟩
  refine Function.update_of_ne ?_ _ _
  rintro rfl
  exact h.own_ne hi j hne hm

omit [DecidableEq ι] [Inhabited T] in
/-- A lock has one owner. -/
lemma lock_ne {lock : Option ι} (hlock : lock = some i) : ∀ j ≠ i, lock ≠ some j :=
  fun _ hne hl => hne (Option.some.inj (hlock.symm.trans hl)).symm

omit [DecidableEq ι] in
/-- What the others know does not depend on `pushlock` and `tail`. -/
lemma Inv.others_push (h : Inv linked taken s cells) (hlock : ∀ j ≠ i, s.pushlock ≠ some j)
    (lock : Option ι) (n : ℕ) :
    ∀ j ≠ i, Knows { s with pushlock := lock, tail := n } cells j (s.pc j) := by
  intro j hne
  exact (h.knows j).frame (fun m hm => ⟨rfl, (h.outside hm).2⟩)
    (fun hl => absurd hl (hlock j hne)) fun hl => ⟨hl, rfl, fun _ hc => hc⟩

omit [DecidableEq ι] in
/-- What the others know does not depend on `poplock`. -/
lemma Inv.others_pop (h : Inv linked taken s cells) (hlock : ∀ j ≠ i, s.poplock ≠ some j)
    (lock : Option ι) : ∀ j ≠ i, Knows { s with poplock := lock } cells j (s.pc j) := by
  intro j hne
  exact (h.knows j).frame (fun m hm => ⟨rfl, (h.outside hm).2⟩) (fun hl => ⟨hl, rfl, rfl⟩)
    fun hl => absurd hl (hlock j hne)

omit [DecidableEq ι] [Inhabited T] in
/-- The bound of the heap when one address changes. -/
lemma Chain.fresh_update (h : Chain linked taken s cells) {k : ℕ} (hk : s.fresh ≤ k) (hn : n < k)
    {o : Option (Node ℕ T)} : ∀ m, (Function.update s.heap n o m).isSome → m < k := by
  intro m hm
  rcases eq_or_ne m n with rfl | hne
  · exact hn
  · rw [Function.update_of_ne hne] at hm
    exact Nat.lt_of_lt_of_le (h.fresh m hm) hk

/-! ### The steps -/

/-- `new Node()` -/
lemma Inv.push (h : Inv linked taken s cells) (e : T) :
    Inv linked taken (s.act (.push i e)) cells := by
  have hfree : ∀ n, (s.heap n).isSome → n ≠ s.fresh := fun n hn => Nat.ne_of_lt (h.fresh n hn)
  have hout : s.fresh ∉ cells.map Prod.fst := fun hmem => hfree _ (h.seg.isSome hmem) rfl
  refine h.goto ⟨h.seg.update hout _, h.nodup, h.head, h.fifo, h.tail, ?_⟩ rfl ?_ ?_ ?_
  · exact h.fresh_update (Nat.le_succ _) (Nat.lt_succ_self _)
  · exact ⟨Function.update_self .., hout⟩
  · intro j _
    refine (h.knows j).frame (fun m hm => ⟨?_, (h.outside hm).2⟩) (fun hl => ⟨hl, rfl, rfl⟩)
      fun hl => ⟨hl, rfl, fun _ hc => hc⟩
    exact Function.update_of_ne (hfree m (h.outside hm).1) _ _
  · intro n hn j _ hj
    exact hfree n (h.outside hj).1 (Option.some.inj hn).symm

/-- `n->_t = t` -/
lemma Inv.fill {e : T} (h : Inv linked taken s cells) (hpc : s.pc i = .fill n e) :
    Inv linked taken (s.next i) cells := by
  have hown : WorkQueue.own (s.pc i) = some n := by rw [hpc]; rfl
  have hknows := h.knows_at hpc
  simp only [next, hpc]
  refine h.goto ⟨h.seg.update hknows.2 _, h.nodup, h.head, h.fifo, h.tail, ?_⟩ rfl ?_
    (h.others hown) fun m hm => h.own_ne (hown.trans hm)
  · exact h.fresh_update (Nat.le_refl _) (h.fresh n (h.outside hown).1)
  · refine ⟨?_, hknows.2⟩
    simp only [write, Function.update_self, hknows.1, Option.map_some]

/-- `WriteLock<Lock> _wl(pushlock)` -/
lemma Inv.lockPush {e : T} (h : Inv linked taken s cells) (hpc : s.pc i = .lockPush n e)
    (hfree : s.pushlock = none) : Inv linked taken (s.next i) cells := by
  have hown : WorkQueue.own (s.pc i) = some n := by rw [hpc]; rfl
  have hknows := h.knows_at hpc
  simp only [next, hpc]
  refine h.goto ⟨h.seg, h.nodup, h.head, h.fifo, fun hl => ?_, h.fresh⟩ rfl ?_ ?_
    fun m hm => h.own_ne (hown.trans hm)
  · cases hl
  · exact ⟨hknows, rfl, h.tail hfree⟩
  · exact h.others_push (fun j _ hl => nomatch hfree.symm.trans hl) (some i) s.tail

/-- `tail->next = n` -/
lemma Inv.setNext {e : T} {last : ℕ} (h : Inv linked taken s cells)
    (hpc : s.pc i = .setNext n e last) :
    Inv (linked ++ [e]) taken (s.next i) (cells ++ [(n, e)]) := by
  have hown : WorkQueue.own (s.pc i) = some n := by rw [hpc]; rfl
  have hknows := h.knows_at hpc
  obtain ⟨⟨hbuilt, hout⟩, hlock, hlast⟩ := hknows
  obtain ⟨⟨last, u⟩, hget, rfl⟩ := Option.map_eq_some_iff.mp hlast
  obtain ⟨front, rfl⟩ := List.getLast?_eq_some_iff.mp hget
  have hheap : s.heap last = some ⟨none, u⟩ := (Linked.seg_append.mp h.seg).2.1
  have hmem : last ∈ (front ++ [(last, u)]).map Prod.fst := by simp
  simp only [next, hpc, write, hheap, Option.map_some]
  refine h.goto ⟨?_, ?_, ?_, ?_, fun hl => ?_, ?_⟩ rfl ⟨hlock, ?_⟩ ?_ fun m hm => by cases hm
  · exact h.seg.link h.nodup hbuilt hout
  · rw [List.map_append]
    exact h.nodup.append (List.nodup_singleton _) (by simpa using hout)
  · rw [Linked.first_append, ← h.head]
    cases front <;> rfl
  · rw [h.fifo]
    cases front <;> simp
  · rw [hlock] at hl
    cases hl
  · exact h.fresh_update (Nat.le_refl _) (h.fresh last (h.seg.isSome hmem))
  · simp [lastOf]
  · intro j hne
    refine (h.knows j).frame (fun m hm => ⟨?_, ?_⟩) (fun hl => ?_)
      fun hl => ⟨hl, rfl, fun c hc => ?_⟩
    · refine Function.update_of_ne ?_ _ _
      rintro rfl
      exact (h.outside hm).2 hmem
    · rw [List.map_append, List.mem_append, not_or]
      refine ⟨(h.outside hm).2, ?_⟩
      intro hmn
      rw [List.mem_singleton.mp hmn] at hm
      exact h.own_ne hown j hne hm
    · exact absurd hl (lock_ne hlock j hne)
    · cases front with
      | nil => cases hc
      | cons c' front => cases front <;> exact hc

/-- `tail = n` -/
lemma Inv.setTail (h : Inv linked taken s cells) (hpc : s.pc i = .setTail n) :
    Inv linked taken (s.next i) cells := by
  have hknows := h.knows_at hpc
  obtain ⟨hlock, hlast⟩ := hknows
  simp only [next, hpc]
  exact h.goto ⟨h.seg, h.nodup, h.head, h.fifo, fun _ => hlast, h.fresh⟩ rfl ⟨hlock, hlast⟩
    (h.others_push (lock_ne hlock) s.pushlock n) fun m hm => by cases hm

/-- The end of `push`. -/
lemma Inv.unlockPush (h : Inv linked taken s cells) (hpc : s.pc i = .unlockPush) :
    Inv linked taken (s.next i) cells := by
  have hknows := h.knows_at hpc
  obtain ⟨hlock, hlast⟩ := hknows
  simp only [next, hpc]
  exact h.goto ⟨h.seg, h.nodup, h.head, h.fifo, fun _ => hlast, h.fresh⟩ rfl trivial
    (h.others_push (lock_ne hlock) none s.tail) fun m hm => by cases hm

/-- `WriteLock<Lock> _wl(poplock)` -/
lemma Inv.lockPop (h : Inv linked taken s cells) (hpc : s.pc i = .lockPop)
    (hfree : s.poplock = none) : Inv linked taken (s.next i) cells := by
  have hlock : ∀ j ≠ i, s.poplock ≠ some j := fun j _ hl => nomatch hfree.symm.trans hl
  simp only [next, hpc]
  exact h.goto ⟨h.seg, h.nodup, h.head, h.fifo, h.tail, h.fresh⟩ rfl rfl
    (h.others_pop hlock (some i)) fun m hm => by cases hm

omit [DecidableEq ι] [Inhabited T] in
/-- `node->next` is the node behind the sentinel. -/
lemma Chain.next_head (h : Chain linked taken s cells) :
    (s.heap s.head).bind Node.next = cells.tail.head?.map Prod.fst := by
  have hseg := h.seg
  have hhead := h.head
  match cells, hhead with
  | (p, t) :: cells, hhead =>
    rw [← Option.some.inj hhead, hseg.1]
    cases cells <;> rfl

/-- `Node* new_head = node->next` -/
lemma Inv.readNext {node : ℕ} (h : Inv linked taken s cells) (hpc : s.pc i = .readNext node) :
    Inv linked taken (s.next i) cells := by
  have hknows := h.knows_at hpc
  obtain ⟨hlock, rfl⟩ := hknows
  simp only [next, hpc, h.next_head]
  cases hcells : cells.tail.head? with
  | none => exact h.read hlock fun m hm => by cases hm
  | some c => exact h.read ⟨hlock, rfl, c.2, hcells⟩ fun m hm => by cases hm

omit [DecidableEq ι] [Inhabited T] in
/-- The chain when there is a node behind the sentinel. -/
lemma Chain.cells_eq {c : ℕ × T} (h : Chain linked taken s cells) (hc : cells.tail.head? = some c) :
    ∃ u rest, cells = (s.head, u) :: c :: rest := by
  have hhead := h.head
  match cells, hhead, hc with
  | (p, u) :: c' :: rest, hhead, hc =>
    cases hhead
    cases hc
    exact ⟨u, rest, rfl⟩

/-- `t = new_head->_t` -/
lemma Inv.copy {node newHead : ℕ} (h : Inv linked taken s cells)
    (hpc : s.pc i = .copy node newHead) : Inv linked taken (s.next i) cells := by
  have hknows := h.knows_at hpc
  obtain ⟨hlock, rfl, e, hcells⟩ := hknows
  obtain ⟨u, rest, rfl⟩ := h.cells_eq hcells
  simp only [next, hpc, h.seg.2.1, Option.map_some, Option.getD_some]
  exact h.read ⟨hlock, rfl, rfl⟩ fun m hm => by cases hm

/-- `head = new_head` -/
lemma Inv.setHead {node newHead : ℕ} {e : T} (h : Inv linked taken s cells)
    (hpc : s.pc i = .setHead node newHead e) :
    Inv linked (taken ++ [e]) (s.next i) cells.tail := by
  have hknows := h.knows_at hpc
  obtain ⟨hlock, rfl, hcells⟩ := hknows
  obtain ⟨u, rest, rfl⟩ := h.cells_eq hcells
  have hsub : ∀ m, m ∉ ((s.head, u) :: (newHead, e) :: rest).map Prod.fst →
      m ∉ ((newHead, e) :: rest).map Prod.fst := fun m hm hmem => hm (List.mem_cons_of_mem _ hmem)
  have hhead : s.head ∉ ((newHead, e) :: rest).map Prod.fst := (List.nodup_cons.mp h.nodup).1
  have hlast : lastOf ((newHead, e) :: rest) = lastOf ((s.head, u) :: (newHead, e) :: rest) := rfl
  simp only [next, hpc]
  refine h.goto ⟨h.seg.2, (List.nodup_cons.mp h.nodup).2, rfl, ?_, h.tail, h.fresh⟩ rfl
    ⟨hlock, h.seg.1 ▸ rfl, hhead⟩ ?_ ?_
  · rw [h.fifo]
    simp
  · intro j hne
    refine (h.knows j).frame (fun m hm => ⟨rfl, hsub m (h.outside hm).2⟩)
      (fun hl => ⟨hl, rfl, hlast⟩) fun hl => ?_
    exact absurd hl (lock_ne hlock j hne)
  · intro m hm j _ hj
    cases hm
    exact (h.outside hj).2 (List.mem_cons_self ..)

/-- The end of `pop` with `false`, and the release of the lock in front of `delete node`. -/
lemma Inv.unlockPop (h : Inv linked taken s cells) (hlock : s.poplock = some i)
    (hknows : Knows { s with poplock := none } cells i p)
    (hown : ∀ n, WorkQueue.own p = some n → WorkQueue.own (s.pc i) = some n) :
    Inv linked taken (WorkQueue.goto { s with poplock := none } i p) cells := by
  exact h.goto ⟨h.seg, h.nodup, h.head, h.fifo, h.tail, h.fresh⟩ rfl hknows
    (h.others_pop (lock_ne hlock) none) fun n hn => h.own_ne (hown n hn)

/-- `delete node` -/
lemma Inv.deleteNode {e : T} (h : Inv linked taken s cells) (hpc : s.pc i = .deleteNode n e) :
    Inv linked taken (s.next i) cells := by
  have hown : WorkQueue.own (s.pc i) = some n := by rw [hpc]; rfl
  simp only [next, hpc]
  refine h.goto ⟨h.seg.update (h.outside hown).2 _, h.nodup, h.head, h.fifo, h.tail, ?_⟩ rfl
    trivial (h.others hown) fun m hm => by cases hm
  exact h.fresh_update (Nat.le_refl _) (h.fresh n (h.outside hown).1)

/-- A step adds to the elements linked and to the elements taken what it links and takes. -/
theorem Inv.step (h : Inv linked taken s cells) {a : QueueAction ι T} (hst : s.step a t) :
    ∃ cells', Inv (linked ++ (s.links a).toList) (taken ++ (s.takes a).toList) t cells' := by
  obtain ⟨hen, rfl⟩ := hst
  cases a with
  | push i e =>
    simp only [links, takes, Option.toList_none, List.append_nil]
    exact ⟨cells, h.push e⟩
  | pop i =>
    simp only [links, takes, Option.toList_none, List.append_nil]
    exact ⟨cells, h.read trivial fun m hm => by cases hm⟩
  | next i =>
    have hknows := h.knows i
    change s.Ready (s.pc i) at hen
    change ∃ cells', Inv _ _ (s.next i) cells'
    cases hpc : s.pc i <;> rw [hpc] at hen hknows <;>
      simp only [links, takes, hpc, Option.toList_none, Option.toList_some, List.append_nil]
    case idle => exact hen.elim
    case fill => exact ⟨cells, h.fill hpc⟩
    case lockPush => exact ⟨cells, h.lockPush hpc hen⟩
    case readTail =>
      simp only [next, hpc]
      exact ⟨cells, h.read hknows fun m hm => hpc ▸ hm⟩
    case setNext => exact ⟨_, h.setNext hpc⟩
    case setTail => exact ⟨cells, h.setTail hpc⟩
    case unlockPush => exact ⟨cells, h.unlockPush hpc⟩
    case lockPop => exact ⟨cells, h.lockPop hpc hen⟩
    case readHead =>
      simp only [next, hpc]
      exact ⟨cells, h.read ⟨hknows, rfl⟩ fun m hm => by cases hm⟩
    case readNext => exact ⟨cells, h.readNext hpc⟩
    case copy => exact ⟨cells, h.copy hpc⟩
    case setHead => exact ⟨_, h.setHead hpc⟩
    case unlockEmpty =>
      simp only [next, hpc]
      exact ⟨cells, h.unlockPop hknows trivial fun m hm => by cases hm⟩
    case unlockPop =>
      simp only [next, hpc]
      exact ⟨cells, h.unlockPop hknows.1 hknows.2 fun m hm => hpc ▸ hm⟩
    case deleteNode => exact ⟨cells, h.deleteNode hpc⟩

omit [DecidableEq ι] in
/-- An action goes through a node that is on the heap. -/
lemma Inv.deref (h : Inv linked taken s cells) {a : QueueAction ι T} (hn : s.deref a = some n) :
    (s.heap n).isSome := by
  cases a with
  | push i e => cases hn
  | pop i => cases hn
  | next i =>
    have hknows := h.knows i
    simp only [WorkQueue.deref] at hn
    cases hpc : s.pc i <;> rw [hpc] at hn hknows <;> cases hn
    case next.fill.refl => exact hknows.1 ▸ rfl
    case next.setNext.refl =>
      obtain ⟨c, hget, rfl⟩ := Option.map_eq_some_iff.mp hknows.2.2
      exact h.seg.isSome (List.mem_map_of_mem (List.mem_of_getLast? hget))
    case next.readNext.refl =>
      obtain ⟨c, cells, rfl⟩ : ∃ c cells', cells = c :: cells' := by
        have hhead := h.head
        cases cells with
        | nil => cases hhead
        | cons c cells => exact ⟨c, cells, rfl⟩
      rw [← hknows.2, ← Option.some.inj h.head, h.seg.1]
      rfl
    case next.copy.refl =>
      obtain ⟨-, -, e, hcells⟩ := hknows
      obtain ⟨u, rest, rfl⟩ := h.cells_eq hcells
      rw [h.seg.2.1]
      rfl
    case next.deleteNode.refl => exact hknows.1

omit [DecidableEq ι] in
lemma init_inv : Inv [] [] (init : WorkQueue ι T) [(0, default)] where
  seg := ⟨rfl, trivial⟩
  nodup := List.nodup_singleton _
  head := rfl
  fifo := rfl
  tail _ := rfl
  fresh n hn := by
    rcases eq_or_ne n 0 with rfl | hne
    · exact Nat.one_pos
    · simp [init, Function.update_of_ne hne] at hn
  knows _ := trivial
  own _ _ _ hi := by cases hi

/-! ### Executions -/

variable {h : List (WorkQueue ι T × QueueAction ι T)} {a : QueueAction ι T}
variable {f g : WorkQueue ι T → QueueAction ι T → Option T}

omit [DecidableEq ι] [Inhabited T] in
lemma elems_snoc : elems f (h ++ [(s, a)]) = elems f h ++ (f s a).toList := by
  cases hf : f s a <;> simp [elems, hf]

theorem run_inv (hrun : Run step init h s) :
    ∃ cells, Inv (elems links h) (elems takes h) s cells := by
  induction hrun with
  | nil => exact ⟨_, init_inv⟩
  | @snoc h s t a _ hst ih =>
    obtain ⟨cells, hinv⟩ := ih
    rw [elems_snoc, elems_snoc]
    exact hinv.step hst

/-- A step moves its own thread only. -/
lemma act_pc_of_ne (hne : a.thread ≠ i) : (s.act a).pc i = s.pc i := by
  have hgoto : ∀ (r : WorkQueue ι T) p, r.pc = s.pc → (r.goto a.thread p).pc i = s.pc i :=
    fun r p hpc => (Function.update_of_ne hne.symm _ _).trans (congrFun hpc i)
  cases a with
  | push j e => exact hgoto _ _ rfl
  | pop j => exact hgoto _ _ rfl
  | next j =>
    simp only [act, next]
    cases s.pc j
    case idle => rfl
    case readNext node =>
      simp only
      split <;> exact hgoto _ _ rfl
    all_goals exact hgoto _ _ rfl

/-- A call of `pop` finds the queue empty when it reads `head->next` and finds `NULL`. -/
lemma step_unlockEmpty (hst : s.step a t) (hpc : t.pc i = .unlockEmpty) :
    (a.thread ≠ i ∧ s.pc i = .unlockEmpty) ∨
      a = .next i ∧ ∃ node, s.pc i = .readNext node ∧ (s.heap node).bind Node.next = none := by
  obtain ⟨hen, rfl⟩ := hst
  by_cases hne : a.thread ≠ i
  · exact .inl ⟨hne, act_pc_of_ne hne ▸ hpc⟩
  · have hgoto : ∀ (r : WorkQueue ι T) p, (r.goto i p).pc i = p :=
      fun r p => Function.update_self ..
    obtain rfl := not_not.mp hne
    refine .inr ?_
    cases a with
    | push i e => exact absurd ((hgoto _ _).symm.trans hpc) (by simp)
    | pop i => exact absurd ((hgoto _ _).symm.trans hpc) (by simp)
    | next i =>
      refine ⟨rfl, ?_⟩
      change (s.next i).pc i = _ at hpc
      simp only [next, QueueAction.thread] at hpc ⊢
      cases hs : s.pc i <;> rw [hs] at hpc
      case idle => exact absurd (hs.symm.trans hpc) (by simp)
      case readNext node =>
        refine ⟨node, rfl, ?_⟩
        simp only at hpc
        cases hnext : (s.heap node).bind Node.next with
        | none => rfl
        | some newHead =>
          rw [hnext] at hpc
          exact absurd ((hgoto _ _).symm.trans hpc) (by simp)
      all_goals exact absurd ((hgoto _ _).symm.trans hpc) (by simp)

/-- A call of `pop` that is about to return `false` has found nothing behind `head`, and then all
elements linked so far were taken. -/
theorem run_unlockEmpty (hrun : Run step init h s) (hpc : s.pc i = .unlockEmpty) :
    ∃ h₁ r node h₂, h = h₁ ++ (r, .next i) :: h₂ ∧ r.pc i = .readNext node ∧
      (r.heap node).bind Node.next = none ∧ ofThread i h₂ = [] ∧
      elems takes h₁ = elems links h₁ := by
  induction hrun with
  | nil => cases hpc
  | @snoc h s t a hr hst ih =>
    rcases step_unlockEmpty hst hpc with ⟨hne, hpc⟩ | ⟨rfl, node, hpc, hnext⟩
    · obtain ⟨h₁, r, node, h₂, rfl, hread, hnext, hother, heq⟩ := ih hpc
      refine ⟨h₁, r, node, h₂ ++ [(s, a)], by simp, hread, hnext, ?_, heq⟩
      simpa [ofThread, hne] using hother
    · obtain ⟨cells, hinv⟩ := run_inv hr
      have hknows := hinv.knows i
      rw [hpc] at hknows
      rw [← hknows.2, hinv.next_head, Option.map_eq_none_iff, List.head?_eq_none_iff] at hnext
      refine ⟨h, s, node, [], rfl, hpc, ?_, rfl, ?_⟩
      · rw [← hknows.2, hinv.next_head, hnext]
        rfl
      · rw [hinv.fifo, hnext]
        simp

/-- What comes in with `f` goes out with `g`, when a step keeps this for its thread. -/
lemma elems_ofThread {pend : QueuePc T → Option T} (hidle : pend .idle = none)
    (hstep : ∀ (s : WorkQueue ι T) a, s.Enabled a →
      (pend (s.pc a.thread)).toList ++ (f s a).toList =
        (g s a).toList ++ (pend ((s.act a).pc a.thread)).toList)
    (hrun : Run step init h s) (i : ι) :
    elems f (ofThread i h) = elems g (ofThread i h) ++ (pend (s.pc i)).toList := by
  induction hrun with
  | nil => simp [elems, ofThread, init, hidle]
  | @snoc h s t a _ hst ih =>
    obtain ⟨hen, rfl⟩ := hst
    by_cases hi : a.thread = i
    · subst hi
      have hof : ofThread a.thread (h ++ [(s, a)]) = ofThread a.thread h ++ [(s, a)] := by
        simp [ofThread]
      rw [hof, elems_snoc, elems_snoc, ih, List.append_assoc, List.append_assoc, hstep s a hen]
    · have hof : ofThread i (h ++ [(s, a)]) = ofThread i h := by simp [ofThread, hi]
      rw [hof, ih, act_pc_of_ne hi]

/-- A call of `push` links the element that it gets. -/
lemma step_pushing (s : WorkQueue ι T) (a : QueueAction ι T) (hen : s.Enabled a) :
    (pushing (s.pc a.thread)).toList ++ (s.pushes a).toList =
      (s.links a).toList ++ (pushing ((s.act a).pc a.thread)).toList := by
  cases a with
  | push i t =>
    rw [show s.pc (QueueAction.push i t).thread = .idle from hen]
    simp [pushes, links, act, WorkQueue.goto, QueueAction.thread, pushing]
  | pop i =>
    rw [show s.pc (QueueAction.pop i : QueueAction ι T).thread = .idle from hen]
    simp [pushes, links, act, WorkQueue.goto, QueueAction.thread, pushing]
  | next i =>
    simp only [QueueAction.thread, pushes, links, act, next]
    cases hpc : s.pc i
    case idle => simp [pushing, hpc]
    case readNext node =>
      simp only
      split <;> simp [pushing, WorkQueue.goto]
    all_goals simp [pushing, WorkQueue.goto, write]

/-- A call of `pop` returns the element that it takes. -/
lemma step_popping (s : WorkQueue ι T) (a : QueueAction ι T) (hen : s.Enabled a) :
    (popping (s.pc a.thread)).toList ++ (s.takes a).toList =
      (s.returns a).toList ++ (popping ((s.act a).pc a.thread)).toList := by
  cases a with
  | push i t =>
    rw [show s.pc (QueueAction.push i t).thread = .idle from hen]
    simp [takes, returns, act, WorkQueue.goto, QueueAction.thread, popping]
  | pop i =>
    rw [show s.pc (QueueAction.pop i : QueueAction ι T).thread = .idle from hen]
    simp [takes, returns, act, WorkQueue.goto, QueueAction.thread, popping]
  | next i =>
    simp only [QueueAction.thread, takes, returns, act, next]
    cases hpc : s.pc i
    case idle => simp [popping, hpc]
    case readNext node =>
      simp only
      split <;> simp [popping, WorkQueue.goto]
    all_goals simp [popping, WorkQueue.goto, write]

/-- The queue is first in, first out: the elements are taken in the order
in which they were linked, and the chain holds the ones that are left.  Each thread links what it
pushes, and returns what it takes, once and in order.  A `pop` that returns `false` has read
`head->next` when all elements linked before were taken, and every pointer that a step goes through
leads to a node. -/
structure IsFifo (h : List (WorkQueue ι T × QueueAction ι T)) (s : WorkQueue ι T) : Prop where
  order : elems takes h <+: elems links h
  rest : ∃ cells, Seg s.heap cells none ∧ first cells none = some s.head ∧
    elems links h = elems takes h ++ cells.tail.map Prod.snd
  pushed : ∀ i, elems pushes (ofThread i h) =
    elems links (ofThread i h) ++ (pushing (s.pc i)).toList
  popped : ∀ i, elems takes (ofThread i h) =
    elems returns (ofThread i h) ++ (popping (s.pc i)).toList
  empty : ∀ h₀ r₀ i h', h = h₀ ++ (r₀, .next i) :: h' → r₀.pc i = .unlockEmpty →
    ∃ h₁ r node h₂, h₀ = h₁ ++ (r, .next i) :: h₂ ∧ r.pc i = .readNext node ∧
      (r.heap node).bind Node.next = none ∧ ofThread i h₂ = [] ∧ elems takes h₁ = elems links h₁
  alive : ∀ e ∈ h, ∀ n, e.1.deref e.2 = some n → (e.1.heap n).isSome

end WorkQueue

open WorkQueue in
/-- Any number of threads push and pop in any order of their memory steps. -/
theorem workQueue_fifo {ι T : Type} [DecidableEq ι] [Inhabited T] {s : WorkQueue ι T}
    {h : List (WorkQueue ι T × QueueAction ι T)} (hrun : Run WorkQueue.step init h s) :
    IsFifo h s where
  order := by
    obtain ⟨cells, hinv⟩ := run_inv hrun
    exact ⟨_, hinv.fifo.symm⟩
  rest := by
    obtain ⟨cells, hinv⟩ := run_inv hrun
    exact ⟨cells, hinv.seg, hinv.head, hinv.fifo⟩
  pushed := elems_ofThread rfl step_pushing hrun
  popped := elems_ofThread rfl step_popping hrun
  empty _ _ _ _ heq hpc := run_unlockEmpty (hrun.before heq) hpc
  alive := by
    rintro ⟨r, a⟩ he n hn
    obtain ⟨h₁, h₂, rfl⟩ := List.append_of_mem he
    obtain ⟨cells, hinv⟩ := run_inv (hrun.before rfl)
    exact hinv.deref hn

open WorkQueue in
/-- A `push` is interrupted between its two writes, while another thread takes its element and
deletes the node that `tail` still names; a second `pop` finds the queue empty. -/
def overtakenPush : List (WorkQueue Bool ℕ → QueueAction Bool ℕ) :=
  let pop (n : ℕ) : List (QueueAction Bool ℕ) := .pop true :: List.replicate n (.next true)
  (QueueAction.push false 7 :: List.replicate 4 (.next false) ++ pop 7 ++ pop 3).map fun a _ => a

open WorkQueue in
theorem workQueue_fifo_overtaken :
    ∃ (h : List (WorkQueue Bool ℕ × QueueAction Bool ℕ)) (s : WorkQueue Bool ℕ),
      Run WorkQueue.step init h s ∧ IsFifo h s ∧ elems returns h = [7] ∧
        s.heap s.tail = none ∧ s.pc true = .unlockEmpty := by
  have hrun : Run WorkQueue.step init (Exec.trace act init overtakenPush)
      (Exec.final act init overtakenPush) :=
    Run.script overtakenPush (by rw [Exec.Admits]; decide +kernel)
  refine ⟨_, _, hrun, workQueue_fifo hrun, ?_, ?_, ?_⟩
  · decide +kernel
  · decide +kernel
  · decide +kernel

end MTRpc
