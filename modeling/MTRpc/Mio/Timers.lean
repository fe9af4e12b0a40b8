import MTRpc.Mio.References

/-!
# The expiry of timers

The poller keeps the deadlines of its events in two red-black trees, in the order of their keys.
`ProcessTimeOut` takes the leftmost node as long as it is due, reports the expiry to its event, and
computes from the leftmost nodes that are left how long `epoll_wait` may wait, in milliseconds.

The loops do what they should (`TimerTree.expire_passed`, `TimerTree.nodes_expire`).  The wait is
computed in an `int`, though, into which neither every number of seconds nor its product with 1000
fits: `processTimeOut_iff`.
-/

namespace MTRpc

variable {ι : Type}

/-- `ngx_rbtree_node_t` -/
structure RbNode (ι : Type) where
  key : ℕ
  data : ι
deriving DecidableEq, Repr

/-- A tree of timers: its nodes from left to right, with a key that is set, and one for an event at
most. -/
structure TimerTree (ι : Type) where
  nodes : List (RbNode ι)
  sorted : nodes.Pairwise fun a b => a.key ≤ b.key
  nodup : (nodes.map RbNode.data).Nodup
  armed : ∀ n ∈ nodes, 0 < n.key

namespace TimerTree

/-- `ngx_rbtree_init` -/
def init : TimerTree ι := ⟨[], .nil, List.nodup_nil, fun _ hn => absurd hn List.not_mem_nil⟩

/-- `ngx_rbtree_min(root, &sentinel)->key`: the key of the sentinel is 0. -/
def minKey : List (RbNode ι) → ℕ
  | [] => 0
  | n :: _ => n.key

/-- `ngx_rbtree_insert`: behind the nodes with the same key. -/
def insertNode (n : RbNode ι) : List (RbNode ι) → List (RbNode ι)
  | [] => [n]
  | m :: ms => if n.key < m.key then n :: m :: ms else m :: insertNode n ms

lemma mem_insertNode {n m : RbNode ι} {ms : List (RbNode ι)} :
    m ∈ insertNode n ms ↔ m = n ∨ m ∈ ms := by
  induction ms with
  | nil => simp [insertNode]
  | cons k ms ih =>
    rw [insertNode]
    split
    · simp
    · simp only [List.mem_cons, ih]
      tauto

lemma sorted_insertNode {n : RbNode ι} {ms : List (RbNode ι)}
    (hs : ms.Pairwise fun a b => a.key ≤ b.key) :
    (insertNode n ms).Pairwise fun a b => a.key ≤ b.key := by
  induction hs with
  | nil => exact List.pairwise_singleton _ _
  | @cons m ms hm hs ih =>
    rw [insertNode]
    split
    · rename_i hlt
      refine .cons (fun k hk => ?_) (.cons hm hs)
      rcases List.mem_cons.mp hk with rfl | hk
      · exact hlt.le
      · exact hlt.le.trans (hm k hk)
    · rename_i hge
      refine .cons (fun k hk => ?_) ih
      rcases mem_insertNode.mp hk with rfl | hk
      · exact Nat.le_of_not_lt hge
      · exact hm k hk

lemma perm_insertNode (n : RbNode ι) (ms : List (RbNode ι)) : (insertNode n ms).Perm (n :: ms) := by
  induction ms with
  | nil => exact .refl _
  | cons m ms ih =>
    rw [insertNode]
    split
    · exact .refl _
    · exact (ih.cons m).trans (.swap n m ms)

variable [DecidableEq ι] (t : TimerTree ι)

/-- `ngx_rbtree_delete` -/
def delete (ev : ι) : TimerTree ι where
  nodes := t.nodes.filter (·.data ≠ ev)
  sorted := t.sorted.filter _
  nodup := t.nodup.sublist (List.filter_sublist.map _)
  armed n hn := t.armed n (List.mem_of_mem_filter hn)

/-- `SetReadTimeOut` or `SetWriteTimeOut`, at the second `now`. -/
def setTimeOut (ev : ι) (now timeSec : ℕ) (hnow : 0 < now) : TimerTree ι where
  nodes := insertNode ⟨now + timeSec, ev⟩ (t.delete ev).nodes
  sorted := sorted_insertNode (t.delete ev).sorted
  nodup := by
    rw [((perm_insertNode _ _).map _).nodup_iff, List.map_cons, List.nodup_cons]
    refine ⟨?_, (t.delete ev).nodup⟩
    intro hmem
    obtain ⟨n, hn, hdata⟩ := List.mem_map.mp hmem
    exact absurd hdata (by simpa using (List.mem_filter.mp hn).2)
  armed n hn := by
    rcases mem_insertNode.mp hn with rfl | hn
    · exact Nat.lt_of_lt_of_le hnow (Nat.le_add_right _ _)
    · exact (t.delete ev).armed n hn

/-! ### The loop of `ProcessTimeOut` -/

/-- `while (left->key > 0 && left->key <= nowsec)`: the events that are reported, and the nodes that
are left. -/
def expireLoop (now : ℕ) : List (RbNode ι) → List ι × List (RbNode ι)
  | [] => ([], [])
  | n :: ns =>
      if 0 < n.key ∧ n.key ≤ now then
        let r := expireLoop now ns
        (n.data :: r.1, r.2)
      else ([], n :: ns)

omit [DecidableEq ι] in
lemma suffix_expireLoop (now : ℕ) (ns : List (RbNode ι)) : (expireLoop now ns).2 <:+ ns := by
  induction ns with
  | nil => exact List.suffix_refl _
  | cons n ns ih =>
    rw [expireLoop]
    split
    · exact ih.trans (List.suffix_cons n ns)
    · exact List.suffix_refl _

omit [DecidableEq ι] in
/-- The due nodes are in front. -/
lemma expireLoop_eq {now : ℕ} {ns : List (RbNode ι)} (hs : ns.Pairwise fun a b => a.key ≤ b.key)
    (hpos : ∀ n ∈ ns, 0 < n.key) :
    expireLoop now ns = ((ns.filter (·.key ≤ now)).map RbNode.data, ns.filter (now < ·.key)) := by
  induction hs with
  | nil => rfl
  | @cons n ns hn hs ih =>
    rw [expireLoop]
    by_cases hdue : n.key ≤ now
    · rw [if_pos ⟨hpos n List.mem_cons_self, hdue⟩,
        ih fun m hm => hpos m (List.mem_cons_of_mem _ hm)]
      simp [hdue]
    · -- the keys behind a key that is not due are not due either
      have hlate : ∀ m ∈ ns, now < m.key := fun m hm => (Nat.lt_of_not_le hdue).trans_le (hn m hm)
      have hnone : ns.filter (·.key ≤ now) = [] := by
        rw [List.filter_eq_nil_iff]
        intro m hm
        simpa using hlate m hm
      have hall : ns.filter (now < ·.key) = ns :=
        List.filter_eq_self.mpr fun m hm => by simpa using hlate m hm
      rw [if_neg fun h => hdue h.2, List.filter_cons_of_neg (by simpa using hdue), hnone,
        List.filter_cons_of_pos (by simpa using hdue), hall]
      rfl

/-- A loop of `ProcessTimeOut`. -/
def expire (now : ℕ) : List ι × TimerTree ι :=
  ((expireLoop now t.nodes).1,
    { nodes := (expireLoop now t.nodes).2
      sorted := t.sorted.sublist (suffix_expireLoop now t.nodes).sublist
      nodup := t.nodup.sublist ((suffix_expireLoop now t.nodes).sublist.map _)
      armed := fun n hn => t.armed n ((suffix_expireLoop now t.nodes).subset hn) })

omit [DecidableEq ι] in
/-- The events of the due nodes are reported. -/
lemma expire_reported (now : ℕ) :
    (t.expire now).1 = (t.nodes.filter (·.key ≤ now)).map RbNode.data :=
  congrArg Prod.fst (expireLoop_eq t.sorted t.armed)

omit [DecidableEq ι] in
/-- The other nodes are left. -/
lemma nodes_expire (now : ℕ) : (t.expire now).2.nodes = t.nodes.filter (now < ·.key) :=
  congrArg Prod.snd (expireLoop_eq t.sorted t.armed)

/-- An event is reported once, or not at all. -/
lemma count_expire (now : ℕ) (ev : ι) :
    (t.expire now).1.count ev = if ∃ n ∈ t.nodes, n.data = ev ∧ n.key ≤ now then 1 else 0 := by
  have hnodup : (t.expire now).1.Nodup := by
    rw [expire_reported]
    exact t.nodup.sublist (List.filter_sublist.map _)
  rw [hnodup.count]
  refine if_congr ?_ rfl rfl
  rw [expire_reported, List.mem_map]
  constructor
  · rintro ⟨n, hn, rfl⟩
    obtain ⟨hmem, hdue⟩ := List.mem_filter.mp hn
    exact ⟨n, hmem, rfl, by simpa using hdue⟩
  · rintro ⟨n, hmem, rfl, hdue⟩
    exact ⟨n, List.mem_filter.mpr ⟨hmem, by simpa using hdue⟩, rfl⟩

end TimerTree

/-- The trees of a poller. -/
structure Timers (ι : Type) where
  rtimerroot : TimerTree ι
  wtimerroot : TimerTree ι

namespace Timers

/-- What `ProcessTimeOut` leaves: what it returns, the expiries that it reports, and the trees.  A
product that does not fit into an `int` is undefined. -/
structure Processed (ι : Type) where
  ret : Option ℤ
  reported : List (ι × BitVec 32)
  timers : Timers ι

/-- The wait for a leftmost node: `if (left->key >= nowsec)`, in an `int`. -/
def waitFor (now key : ℕ) : Option ℤ := if now ≤ key then some (toInt32 (key - now)) else none

/-- The waits for the write and the read timers put together. -/
def waittime (w r : Option ℤ) : ℤ :=
  let waittime := w.getD (-1)
  match r with
  | none => waittime
  | some waittimeRead =>
      let waittime :=
        if 0 ≤ waittime then (if waittime < waittimeRead then waittime else waittimeRead)
        else waittimeRead
      if waittime = 0 then 1 else waittime

/-- `waittime == -1 ? -1 : waittime*1000` -/
def toMillis (waittime : ℤ) : Option ℤ :=
  if waittime = -1 then some (-1)
  else if -2 ^ 31 ≤ waittime * 1000 ∧ waittime * 1000 < 2 ^ 31 then some (waittime * 1000)
  else none

/-- `ProcessTimeOut`, at the second `now`. -/
def processTimeOut (s : Timers ι) (now : ℕ) : Processed ι :=
  let w := s.wtimerroot.expire now
  let r := s.rtimerroot.expire now
  { ret := toMillis (waittime (waitFor now (TimerTree.minKey w.2.nodes))
      (waitFor now (TimerTree.minKey r.2.nodes)))
    reported := w.1.map (·, writeTimeOut) ++ r.1.map (·, readTimeOut)
    timers := ⟨r.2, w.2⟩ }

variable [DecidableEq ι]

/-- Every timer that is due is reported once to its event and disarmed, and no other; the wait is
the time to the next deadline. -/
structure ExpiresExactly (s : Timers ι) (now : ℕ) (p : Processed ι) : Prop where
  read : ∀ ev, p.reported.count (ev, readTimeOut)
    = if ∃ n ∈ s.rtimerroot.nodes, n.data = ev ∧ n.key ≤ now then 1 else 0
  write : ∀ ev, p.reported.count (ev, writeTimeOut)
    = if ∃ n ∈ s.wtimerroot.nodes, n.data = ev ∧ n.key ≤ now then 1 else 0
  other : ∀ e ∈ p.reported, e.2 = readTimeOut ∨ e.2 = writeTimeOut
  leftRead : ∀ n, n ∈ p.timers.rtimerroot.nodes ↔ n ∈ s.rtimerroot.nodes ∧ now < n.key
  leftWrite : ∀ n, n ∈ p.timers.wtimerroot.nodes ↔ n ∈ s.wtimerroot.nodes ∧ now < n.key
  none : p.ret = some (-1) ↔ p.timers.rtimerroot.nodes ++ p.timers.wtimerroot.nodes = []
  next : ∀ n ∈ p.timers.rtimerroot.nodes ++ p.timers.wtimerroot.nodes,
    (∀ m ∈ p.timers.rtimerroot.nodes ++ p.timers.wtimerroot.nodes, n.key ≤ m.key) →
      now < n.key ∧ p.ret = some (((n.key : ℤ) - now) * 1000)

end Timers

/-- The seconds from `now` to the first deadline behind it. -/
def TimerTree.wait (t : TimerTree ι) (now : ℕ) : Option ℕ :=
  (t.nodes.find? (now < ·.key)).map (·.key - now)

namespace TimerTree

variable {t : TimerTree ι} {now n : ℕ}

/-- The wait is the one for the leftmost node that is left. -/
lemma wait_eq (t : TimerTree ι) (now : ℕ) :
    t.wait now = (t.expire now).2.nodes.head?.map (·.key - now) := by
  rw [wait, nodes_expire, List.head?_filter]

lemma wait_eq_none : t.wait now = none ↔ (t.expire now).2.nodes = [] := by
  rw [wait_eq, Option.map_eq_none_iff, List.head?_eq_none_iff]

lemma minKey_eq (t : TimerTree ι) (now : ℕ) :
    minKey (t.expire now).2.nodes = (t.wait now).elim 0 (now + ·) := by
  rw [wait_eq]
  cases hnodes : (t.expire now).2.nodes with
  | nil => rfl
  | cons n ns =>
    have hn : n ∈ t.nodes.filter (now < ·.key) := by
      rw [← nodes_expire, hnodes]
      exact List.mem_cons_self
    have hlate : now < n.key := by simpa using (List.mem_filter.mp hn).2
    change n.key = now + (n.key - now)
    omega

/-- No deadline that is left is nearer. -/
lemma wait_spec (h : t.wait now = some n) :
    0 < n ∧ (∃ m ∈ (t.expire now).2.nodes, m.key = now + n) ∧
      ∀ m ∈ (t.expire now).2.nodes, now + n ≤ m.key := by
  have hsorted := (t.expire now).2.sorted
  have hmin := minKey_eq t now
  rw [h] at hmin
  rw [wait_eq] at h
  cases hnodes : (t.expire now).2.nodes with
  | nil =>
    rw [hnodes] at h
    exact absurd h (by simp)
  | cons m ms =>
    rw [hnodes] at hmin hsorted
    have hkey : m.key = now + n := hmin
    have hm : m ∈ t.nodes.filter (now < ·.key) := by
      rw [← nodes_expire, hnodes]
      exact List.mem_cons_self
    have hlate : now < m.key := by simpa using (List.mem_filter.mp hm).2
    refine ⟨by omega, ⟨m, List.mem_cons_self, hkey⟩, ?_⟩
    intro k hk
    rcases List.mem_cons.mp hk with rfl | hk
    · exact hkey.ge
    · exact hkey ▸ (List.pairwise_cons.mp hsorted).1 k hk

end TimerTree

/-- The milliseconds fit into an `int`. -/
def FitsInt (n : ℕ) : Prop := n * 1000 < 2 ^ 31

/-- The waits for the next write and the next read deadline, for which the wait is computed right.
At the second 0 the key of the sentinel counts as a deadline. -/
def WaitFits (now : ℕ) : Option ℕ → Option ℕ → Prop
  | none, none => 0 < now
  | some w, none => FitsInt w ∧ (now = 0 → w = 1)
  | none, some r => FitsInt r ∧ (now = 0 → r = 1)
  | some w, some r =>
      FitsInt (min w r) ∧
        -- a later read deadline that does not fit is taken for an earlier one
        (w < r → (w : ℤ) ≤ toInt32 r ∨ w = 1 ∧ toInt32 r = 0) ∧
        (r < w → toInt32 w < 0 ∨ (r : ℤ) ≤ toInt32 w ∨ r = 1 ∧ toInt32 w = 0)

namespace Timers

/-! ### The wait -/

/-- The right number of milliseconds, for a wait that fits. -/
lemma toMillis_eq {x : ℤ} {n : ℕ} (hn : 0 < n) :
    toMillis x = some ((n : ℤ) * 1000) ↔ x = n ∧ FitsInt n := by
  rw [toMillis, FitsInt]
  split
  · simp only [Option.some.injEq]
    omega
  · split
    · simp only [Option.some.injEq]
      omega
    · simp only [reduceCtorEq, false_iff]
      omega

lemma toMillis_neg_one {x : ℤ} : toMillis x = some (-1) ↔ x = -1 := by
  rw [toMillis]
  split
  · simpa
  · split
    · simp only [Option.some.injEq]
      omega
    · simpa

/-- The wait for a deadline, or for the sentinel. -/
lemma waitFor_elim (now : ℕ) (n : Option ℕ) :
    waitFor now (n.elim 0 (now + ·)) =
      n.elim (if now = 0 then some 0 else none) fun n => some (toInt32 n) := by
  cases n with
  | none =>
    change (if now ≤ 0 then some (toInt32 (((0 : ℕ) : ℤ) - now)) else none)
      = if now = 0 then some 0 else none
    by_cases hnow : now = 0
    · subst hnow
      rfl
    · rw [if_neg (by omega), if_neg hnow]
  | some n =>
    change (if now ≤ now + n then some (toInt32 (((now + n : ℕ) : ℤ) - now)) else none)
      = some (toInt32 n)
    rw [if_pos (by omega)]
    congr 2
    omega

/-- The wait for the write timers is taken: it is the shorter one, or one second because of the
other. -/
lemma waittime_eq_write {a b : ℤ} (ha : 0 < a) :
    waittime (some a) (some b) = a ↔ a ≤ b ∨ a = 1 ∧ b = 0 := by
  simp only [waittime, Option.getD_some]
  split_ifs <;> omega

lemma waittime_eq_read {a b : ℤ} (hb : 0 < b) :
    waittime (some a) (some b) = b ↔ a < 0 ∨ b ≤ a ∨ b = 1 ∧ a = 0 := by
  simp only [waittime, Option.getD_some]
  split_ifs <;> omega

/-- What is computed for these deadlines. -/
def waits (now : ℕ) (w r : Option ℕ) : ℤ :=
  waittime (waitFor now (w.elim 0 (now + ·))) (waitFor now (r.elim 0 (now + ·)))

lemma toInt32_of_fitsInt {n : ℕ} (h : FitsInt n) : toInt32 n = n := by
  rw [FitsInt] at h
  rw [toInt32]
  omega

lemma waits_none (now : ℕ) : waits now none none = -1 ↔ WaitFits now none none := by
  rw [waits, waitFor_elim, WaitFits]
  by_cases hnow : now = 0
  · subst hnow
    decide
  · change waittime (if now = 0 then some 0 else none) (if now = 0 then some 0 else none) = -1 ↔ _
    rw [if_neg hnow]
    exact iff_of_true rfl (Nat.pos_of_ne_zero hnow)

lemma waits_write {now w : ℕ} (hw : 0 < w) :
    waits now (some w) none = w ∧ FitsInt w ↔ WaitFits now (some w) none := by
  rw [waits, waitFor_elim, waitFor_elim, WaitFits, and_comm]
  refine and_congr_right fun hfit => ?_
  change waittime (some (toInt32 w)) (if now = 0 then some 0 else none) = w ↔ _
  rw [toInt32_of_fitsInt hfit]
  by_cases hnow : now = 0
  · -- the sentinel is a deadline, now
    rw [if_pos hnow]
    have hzero : waittime (some (w : ℤ)) (some 0) = 1 := by
      simp only [waittime, Option.getD_some]
      split_ifs <;> omega
    rw [hzero]
    omega
  · rw [if_neg hnow]
    exact iff_of_true rfl fun h => absurd h hnow

lemma waits_read {now r : ℕ} (hr : 0 < r) :
    waits now none (some r) = r ∧ FitsInt r ↔ WaitFits now none (some r) := by
  rw [waits, waitFor_elim, waitFor_elim, WaitFits, and_comm]
  refine and_congr_right fun hfit => ?_
  change waittime (if now = 0 then some 0 else none) (some (toInt32 r)) = r ↔ _
  rw [toInt32_of_fitsInt hfit]
  by_cases hnow : now = 0
  · rw [if_pos hnow]
    have hzero : waittime (some 0) (some (r : ℤ)) = 1 := by
      simp only [waittime, Option.getD_some]
      split_ifs <;> omega
    rw [hzero]
    omega
  · rw [if_neg hnow]
    have hread : waittime none (some (r : ℤ)) = r := by
      simp only [waittime, Option.getD_none]
      split_ifs <;> omega
    exact iff_of_true hread fun h => absurd h hnow

lemma waits_both {now w r : ℕ} (hw : 0 < w) (hr : 0 < r) :
    waits now (some w) (some r) = (min w r : ℕ) ∧ FitsInt (min w r) ↔
      WaitFits now (some w) (some r) := by
  rw [waits, waitFor_elim, waitFor_elim, WaitFits, and_comm]
  refine and_congr_right fun hfit => ?_
  change waittime (some (toInt32 w)) (some (toInt32 r)) = _ ↔ _
  have hone : ∀ n : ℕ, (n : ℤ) = 1 ↔ n = 1 := fun n => by omega
  rcases lt_trichotomy w r with hlt | rfl | hlt
  · rw [min_eq_left hlt.le] at hfit ⊢
    rw [toInt32_of_fitsInt hfit, waittime_eq_write (by exact_mod_cast hw), hone]
    exact ⟨fun h => ⟨fun _ => h, fun h => absurd h hlt.asymm⟩, fun h => h.1 hlt⟩
  · rw [min_self] at hfit ⊢
    rw [toInt32_of_fitsInt hfit, waittime_eq_write (by exact_mod_cast hw)]
    have hirrefl : ¬ w < w := lt_irrefl w
    exact iff_of_true (.inl le_rfl) ⟨fun h => absurd h hirrefl, fun h => absurd h hirrefl⟩
  · rw [min_eq_right hlt.le] at hfit ⊢
    rw [toInt32_of_fitsInt hfit, waittime_eq_read (by exact_mod_cast hr), hone]
    exact ⟨fun h => ⟨fun h => absurd h hlt.asymm, fun _ => h⟩, fun h => h.2 hlt⟩

/-! ### The expiries -/

variable [DecidableEq ι]

lemma count_reported (s : Timers ι) (now : ℕ) (ev : ι) :
    (s.processTimeOut now).reported.count (ev, readTimeOut) = (s.rtimerroot.expire now).1.count ev ∧
      (s.processTimeOut now).reported.count (ev, writeTimeOut)
        = (s.wtimerroot.expire now).1.count ev := by
  have hinj : ∀ flag : BitVec 32, Function.Injective fun ev : ι => (ev, flag) :=
    fun flag a b h => (Prod.mk.inj h).1
  have hnone : ∀ (evs : List ι) {flag flag' : BitVec 32}, flag ≠ flag' →
      (evs.map fun ev => (ev, flag)).count (ev, flag') = 0 := by
    intro evs flag flag' hne
    rw [List.count_eq_zero]
    intro hmem
    obtain ⟨_, -, heq⟩ := List.mem_map.mp hmem
    exact hne (Prod.mk.inj heq).2
  have hne : readTimeOut ≠ writeTimeOut := by decide
  constructor
  · rw [processTimeOut, List.count_append, hnone _ hne.symm, Nat.zero_add,
      List.count_map_of_injective _ _ (hinj readTimeOut)]
  · rw [processTimeOut, List.count_append, hnone _ hne, Nat.add_zero,
      List.count_map_of_injective _ _ (hinj writeTimeOut)]

omit [DecidableEq ι] in
lemma ret_processTimeOut (s : Timers ι) (now : ℕ) :
    (s.processTimeOut now).ret
      = toMillis (waits now (s.wtimerroot.wait now) (s.rtimerroot.wait now)) := by
  rw [waits, ← TimerTree.minKey_eq, ← TimerTree.minKey_eq]
  rfl

omit [DecidableEq ι] in
/-- With a first deadline, the wait is right if it is the wait for this one. -/
lemma next_iff {ret : Option ℤ} {now d : ℕ} {left : List (RbNode ι)} (hd : 0 < d)
    (hmem : ∃ m ∈ left, m.key = now + d) (hmin : ∀ m ∈ left, now + d ≤ m.key) :
    ((ret = some (-1) ↔ left = []) ∧ ∀ n ∈ left, (∀ m ∈ left, n.key ≤ m.key) →
        now < n.key ∧ ret = some (((n.key : ℤ) - now) * 1000)) ↔
      ret = some ((d : ℤ) * 1000) := by
  obtain ⟨n, hn, hkey⟩ := hmem
  constructor
  · rintro ⟨-, hnext⟩
    obtain ⟨-, hret⟩ := hnext n hn fun m hm => hkey ▸ hmin m hm
    rw [hret, hkey]
    congr 2
    omega
  · intro hret
    refine ⟨iff_of_false ?_ (List.ne_nil_of_mem hn), ?_⟩
    · rw [hret, Option.some.injEq]
      omega
    · intro k hk hleast
      -- every leftmost node has this key
      have hk : k.key = now + d := le_antisymm (hkey ▸ hleast n hn) (hmin k hk)
      refine ⟨by omega, ?_⟩
      rw [hret, hk]
      congr 2
      omega

omit [DecidableEq ι] in
/-- The wait is right if it fits. -/
lemma wait_iff (s : Timers ι) (now : ℕ) :
    let p := s.processTimeOut now
    let left := p.timers.rtimerroot.nodes ++ p.timers.wtimerroot.nodes
    ((p.ret = some (-1) ↔ left = []) ∧ ∀ n ∈ left, (∀ m ∈ left, n.key ≤ m.key) →
        now < n.key ∧ p.ret = some (((n.key : ℤ) - now) * 1000)) ↔
      WaitFits now (s.wtimerroot.wait now) (s.rtimerroot.wait now) := by
  intro p left
  have hret : p.ret = toMillis (waits now (s.wtimerroot.wait now) (s.rtimerroot.wait now)) :=
    ret_processTimeOut s now
  have hleft : left = (s.rtimerroot.expire now).2.nodes ++ (s.wtimerroot.expire now).2.nodes := rfl
  rw [hret, hleft]
  cases hw : s.wtimerroot.wait now with
  | none =>
    rw [TimerTree.wait_eq_none.mp hw, List.append_nil]
    cases hr : s.rtimerroot.wait now with
    | none =>
      rw [TimerTree.wait_eq_none.mp hr, toMillis_neg_one, waits_none]
      simp
    | some r =>
      obtain ⟨hpos, hmem, hmin⟩ := TimerTree.wait_spec hr
      rw [next_iff hpos hmem hmin, toMillis_eq hpos, waits_read hpos]
  | some w =>
    obtain ⟨hwpos, ⟨n, hn, hnkey⟩, hwmin⟩ := TimerTree.wait_spec hw
    cases hr : s.rtimerroot.wait now with
    | none =>
      rw [TimerTree.wait_eq_none.mp hr, List.nil_append, next_iff hwpos ⟨n, hn, hnkey⟩ hwmin,
        toMillis_eq hwpos, waits_write hwpos]
    | some r =>
      obtain ⟨hrpos, ⟨m, hm, hmkey⟩, hrmin⟩ := TimerTree.wait_spec hr
      have hpos : 0 < min w r := lt_min hwpos hrpos
      rw [next_iff hpos ?_ ?_, toMillis_eq hpos, waits_both hwpos hrpos]
      · -- one of the two is the first deadline
        rcases le_total w r with hle | hle
        · exact ⟨n, List.mem_append_right _ hn, by rw [hnkey, min_eq_left hle]⟩
        · exact ⟨m, List.mem_append_left _ hm, by rw [hmkey, min_eq_right hle]⟩
      · intro k hk
        rcases List.mem_append.mp hk with hk | hk
        · exact (Nat.add_le_add_left (min_le_right w r) now).trans (hrmin k hk)
        · exact (Nat.add_le_add_left (min_le_left w r) now).trans (hwmin k hk)

/-- Timers expire exactly, if and only if the wait fits. -/
theorem processTimeOut_iff (s : Timers ι) (now : ℕ) :
    s.ExpiresExactly now (s.processTimeOut now) ↔
      WaitFits now (s.wtimerroot.wait now) (s.rtimerroot.wait now) := by
  refine Iff.trans ?_ (wait_iff s now)
  constructor
  · intro h
    exact ⟨h.none, h.next⟩
  · rintro ⟨hnone, hnext⟩
    refine ⟨?_, ?_, ?_, ?_, ?_, hnone, hnext⟩
    · intro ev
      rw [(count_reported s now ev).1, TimerTree.count_expire]
    · intro ev
      rw [(count_reported s now ev).2, TimerTree.count_expire]
    · intro e he
      rcases List.mem_append.mp he with he | he
      · obtain ⟨ev, -, rfl⟩ := List.mem_map.mp he
        exact .inr rfl
      · obtain ⟨ev, -, rfl⟩ := List.mem_map.mp he
        exact .inl rfl
    · intro n
      change n ∈ (s.rtimerroot.expire now).2.nodes ↔ _
      rw [TimerTree.nodes_expire, List.mem_filter, decide_eq_true_iff]
    · intro n
      change n ∈ (s.wtimerroot.expire now).2.nodes ↔ _
      rw [TimerTree.nodes_expire, List.mem_filter, decide_eq_true_iff]

/-- One event that may be read within 2147484 s. -/
def farDeadline : Timers Unit where
  rtimerroot := TimerTree.init.setTimeOut () 1 2147484 Nat.one_pos
  wtimerroot := .init

/-- The milliseconds do not fit into an `int`. -/
theorem not_expiresExactly :
    ¬ farDeadline.ExpiresExactly 1 (farDeadline.processTimeOut 1) := by
  intro h
  obtain ⟨-, hret⟩ := h.next ⟨2147485, ()⟩ (by decide +kernel) (by decide +kernel)
  exact absurd hret (by decide +kernel)

end Timers

end MTRpc
