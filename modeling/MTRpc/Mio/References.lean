import Mathlib.Algebra.BigOperators.Group.List.Basic
import Mathlib.Algebra.Ring.Int.Defs
import MTRpc.Lib.Exec
import MTRpc.Mio.Keeps

/-!
# The references of a stream

A stream is deleted when its count of references falls to 0.  A reference is held by the owner
until `handerClose` gives it back, by an `AddEvent` that is posted, by the epoller in which the
stream is registered, by each timer in a tree of the poller, by each expiry that waits in the
event word or in the mask of a running wrapper, and by each wrapper (`References.holders`).

The functions of `Epoller` and `IOEvent` that take and give back references are the actions.
They tell by the key of a node whether it is in its tree: `ngx_rbtree_delete` clears it
(`References.Keyed`).  But two expiries of one timer can meet in the event word, and `OnEvent` can
return before it comes to an expiry.
`counted_iff` says which actions of a run keep the count equal to the number of holders.
-/

namespace MTRpc

/-- The two timers of a stream. -/
inductive Timer
  | read
  | write
deriving DecidableEq, Repr

/-- The event with which a timer expires. -/
def Timer.flag : Timer → BitVec 32
  | .read => readTimeOut
  | .write => writeTimeOut

/-- `rtimernode` or `wtimernode`. -/
structure TimerNode where
  key : ℕ
  /-- The node is in the tree of the poller. -/
  linked : Bool
deriving DecidableEq, Repr

/-- A stream, its event word and wrappers, and what the poller knows of it. -/
structure References (σ : Type) where
  world : World σ
  word : EventState Unit
  node : Timer → TimerNode
  /-- The calls of `AddEvent` that `AddEventASync` has posted. -/
  adding : ℕ
  /-- The stream is in the epoller. -/
  registered : Bool

namespace References

variable {σ : Type}

/-- The owner has taken its reference. -/
def init (ext : σ) : References σ :=
  ⟨⟨{ Stream.init with refCount := 1 }, ext⟩, .init, fun _ => ⟨0, false⟩, 0, false⟩

variable (s : References σ)

/-- `ref_count` -/
abbrev refCount : ℤ := s.world.stream.refCount

/-- `RequireRef` and `ReleaseRef`: the count changes by `n`. -/
def addRef (n : ℤ) : References σ :=
  { s with world.stream.refCount := s.refCount + n }

/-! ## The functions -/

/-- `AddEventASync` -/
def addEventAsync : References σ := { s.addRef 1 with adding := s.adding + 1 }

/-- `AddEvent`, posted or called by itself. -/
def addEvent : References σ := { s with adding := s.adding - 1, registered := true }

/-- `SetReadTimeOut` or `SetWriteTimeOut`: a node with a key is taken out of its tree first. -/
def setTimeOut (t : Timer) (now timeSec : ℕ) : References σ :=
  let s := if (s.node t).key ≠ 0 then s else s.addRef 1
  { s with node := Function.update s.node t ⟨now + timeSec, true⟩ }

/-- `DelReadTimeOut` or `DelWriteTimeOut` -/
def delTimeOut (t : Timer) : References σ :=
  if (s.node t).key ≠ 0 then
    { s.addRef (-1) with node := Function.update s.node t ⟨0, false⟩ }
  else s

/-- `DelEvent` -/
def delEvent : References σ :=
  { ((s.delTimeOut .read).delTimeOut .write).addRef (-1) with registered := false }

/-- `OnEventAsync` with a group: a wrapper is posted when the word was idle. -/
def report (mask : BitVec 32) : References σ :=
  let word := s.word.fetchOr () mask
  if Has s.word.events eventPending ∨ Has s.word.events eventProcessing then { s with word := word }
  else { s.addRef 1 with word := word.post () }

/-- `OnEvent` -/
def onEvent (c : StreamClass σ) (k : Kernel) (mask : BitVec 32) : References σ :=
  { s with world := (c.onEvent k mask s.world).toWorld }

/-- `OnEventAsync` -/
def onEventAsync (c : StreamClass σ) (group : Bool) (k : Kernel) (mask : BitVec 32) :
    References σ :=
  if group then s.report mask else s.onEvent c k mask

/-- The body of a loop of `ProcessTimeOut`, for a node that is due: `ngx_rbtree_delete` clears the
key. -/
def expire (c : StreamClass σ) (group : Bool) (k : Kernel) (t : Timer) : References σ :=
  let s := s.onEventAsync c group k t.flag
  { s with node := Function.update s.node t ⟨0, false⟩ }

/-- A wrapper takes the word. -/
def exchange (i : ℕ) : References σ := { s with word := s.word.exchange i }

/-- `OnEvent` of a wrapper, with the mask it took. -/
def wrapperEvent (c : StreamClass σ) (k : Kernel) (i : ℕ) (mask : BitVec 32) : References σ :=
  { s.onEvent c k mask with word := s.word.onEvent i }

/-- The end of a round of a wrapper, and of the wrapper unless something was reported. -/
def cas (i : ℕ) : References σ :=
  if s.word.events = eventProcessing then { s.addRef (-1) with word := s.word.cas i }
  else { s with word := s.word.cas i }

end References

/-! ## Runs -/

/-- What can happen to a stream; `E` is what its handlers find outside the source. -/
inductive RefAct (E σ : Type)
  | addEventAsync
  | addEvent
  | delEvent
  | setTimeOut (t : Timer) (now timeSec : ℕ)
  | delTimeOut (t : Timer)
  | expire (env : E) (k : Kernel) (t : Timer) (now : ℕ)
  | onEventAsync (env : E) (k : Kernel) (mask : BitVec 32)
  | exchange (i : ℕ)
  | wrapperEvent (env : E) (k : Kernel) (i : ℕ) (mask : BitVec 32)
  | cas (i : ℕ)
  | onEvent (env : E) (k : Kernel) (mask : BitVec 32)
  /-- Anything else: the owner and the stream change, without a call of these functions. -/
  | other (w : World σ)

namespace References

variable {E σ : Type}

/-- What an action does. -/
def act (c : E → StreamClass σ) (group : Bool) (s : References σ) : RefAct E σ → References σ
  | .addEventAsync => s.addEventAsync
  | .addEvent => s.addEvent
  | .delEvent => s.delEvent
  | .setTimeOut t now timeSec => s.setTimeOut t now timeSec
  | .delTimeOut t => s.delTimeOut t
  | .expire env k t _ => s.expire (c env) group k t
  | .onEventAsync env k mask => s.onEventAsync (c env) group k mask
  | .exchange i => s.exchange i
  | .wrapperEvent env k i mask => s.wrapperEvent (c env) k i mask
  | .cas i => s.cas i
  | .onEvent env k mask => s.onEvent (c env) k mask
  | .other w => { s with world := w }

/-- When an action can happen: time is positive, a node expires when it is due, and a wrapper
goes on from where it stands. -/
def Enabled (s : References σ) : RefAct E σ → Prop
  | .setTimeOut _ now _ => 0 < now
  | .expire _ _ t now => (s.node t).linked = true ∧ 0 < (s.node t).key ∧ (s.node t).key ≤ now
  | .exchange i => s.word.wrappers[i]? = some .exchange
  | .wrapperEvent _ _ i mask => s.word.wrappers[i]? = some (.onEvent mask)
  | .cas i => s.word.wrappers[i]? = some .cas
  | .other w => w.stream.isClosed = s.world.stream.isClosed ∧
      w.stream.refCount = s.world.stream.refCount
  | _ => True

/-- A step, as long as the stream is there. -/
def Step (c : E → StreamClass σ) (group : Bool) (s : References σ) (a : RefAct E σ)
    (s' : References σ) : Prop :=
  s.refCount ≠ 0 ∧ s.Enabled a ∧ s' = s.act c group a

/-! ## Holders -/

/-- 1 for `true`. -/
def one (b : Bool) : ℤ := if b then 1 else 0

@[simp] lemma one_true : one true = 1 := rfl

@[simp] lemma one_false : one false = 0 := rfl

/-- The expiries in a mask. -/
def expiries (mask : BitVec 32) : ℤ :=
  one (decide (Has mask readTimeOut)) + one (decide (Has mask writeTimeOut))

/-- A wrapper, and the expiries that it has taken. -/
def wrapperHolders : WrapperPc → ℤ
  | .onEvent mask => 1 + expiries mask
  | _ => 1

/-- The number of holders. -/
def holders (s : References σ) : ℤ :=
  one (!s.world.stream.isClosed) + s.adding + one s.registered
    + (one (s.node .read).linked + one (s.node .write).linked)
    + expiries s.word.events + (s.word.wrappers.map wrapperHolders).sum

/-- The count is the number of holders. -/
def Counted (s : References σ) : Prop := s.refCount = s.holders

/-- The actions that keep the count. -/
def Accounted (c : E → StreamClass σ) (group : Bool) (s : References σ) : RefAct E σ → Prop
  | .addEvent => 0 < s.adding ↔ s.registered = false
  | .delEvent => s.registered = true
  | .expire _ _ t _ =>
      if group then ¬ Has s.word.events t.flag else s.world.stream.isClosed = false
  | .onEventAsync env k mask =>
      if group then ∀ t : Timer, Has mask t.flag → Has s.word.events t.flag
      else (c env).ReturnsEarly k mask s.world ∨ ∀ t : Timer, ¬ Has mask t.flag
  | .wrapperEvent env k _ mask =>
      (c env).ReturnsEarly k mask s.world → ∀ t : Timer, ¬ Has mask t.flag
  | .onEvent env k mask => (c env).ReturnsEarly k mask s.world ∨ ∀ t : Timer, ¬ Has mask t.flag
  | _ => True

end References

/-! ## What an event gives back -/

/-- The count and whether the stream is closed are as in `w`. -/
def World.SameAs {σ : Type} (w' w : World σ) : Prop :=
  w'.stream.isClosed = w.stream.isClosed ∧ w'.stream.refCount = w.stream.refCount

lemma World.SameAs.trans {σ : Type} {w w' w'' : World σ} (h : w''.SameAs w') (h' : w'.SameAs w) :
    w''.SameAs w :=
  ⟨h.1.trans h'.1, h.2.trans h'.2⟩

/-- A function leaves them as they are. -/
def SameCount {σ : Type} (f : World σ → World σ) : Prop := ∀ w, (f w).SameAs w

/-- The handlers leave the count alone, but for `handerClose`, which gives back the reference
of the owner. -/
structure StreamClass.Counts {σ : Type} (c : StreamClass σ) : Prop where
  connected : ∀ f ∈ c.handerConnected, SameCount f
  readable : ∀ f ∈ c.handerReadable, SameCount f
  writeable : ∀ f ∈ c.handerWriteable, SameCount f
  readTimeOut : ∀ f ∈ c.handerReadTimeOut, SameCount f
  writeTimeOut : ∀ f ∈ c.handerWriteTimeOut, SameCount f
  messageError : ∀ code, SameCount (c.handerMessageError code)
  recived : ∀ n, SameCount (c.onRecived n)
  sended : ∀ n, SameCount (c.onSended n)
  afterConnect : SameCount c.afterConnect
  afterClose : SameCount c.afterClose
  close : ∃ f ∈ c.handerClose, ∀ w, (f w).stream.isClosed = w.stream.isClosed ∧
    (f w).stream.refCount = w.stream.refCount - 1

namespace References

variable {E σ : Type}

/-- The count without the reference of the owner. -/
def rest (w : World σ) : ℤ := w.stream.refCount - one (!w.stream.isClosed)

def Holds (n : ℤ) (w : World σ) : Prop := rest w = n

lemma holds_sameCount {f : World σ → World σ} (hf : SameCount f) {n : ℤ} {w : World σ}
    (hw : Holds n w) : Holds n (f w) := by
  rw [Holds, rest, (hf w).1, (hf w).2]
  exact hw

variable {c : StreamClass σ} {n : ℤ} {d : Dispatch σ}

/-- A close takes the reference of the owner. -/
lemma holds_onClose (hc : c.Counts) (hd : Holds n d.toWorld) : Holds n (c.onClose d).toWorld := by
  obtain ⟨f, hf, hclose⟩ := hc.close
  refine holds_sameCount hc.afterClose ?_
  split
  · exact hd
  · rename_i hopen
    have hopen : d.stream.isClosed = false := by simpa using hopen
    rw [Holds, rest, hopen] at hd
    -- the handler runs on a stream that is closed already
    obtain ⟨hclosed, hcount⟩ := hclose { d.toWorld with
      stream := { d.stream with isClosed := true, isConnected := false } }
    rw [show c.handerClose.getD id = f by rw [Option.mem_def.mp hf]; rfl, Holds, rest]
    refine (congrArg₂ (fun n b => n - one (!b)) hcount hclosed).trans ?_
    rw [← hd]
    exact sub_zero _

lemma keeps_holds (hc : c.Counts) : c.Keeps (Holds n) where
  stream w s hclosed hcount hw := by
    rw [Holds, rest, hclosed, hcount]
    exact hw
  connected f hf _ := holds_sameCount (hc.connected f hf)
  writeable f hf _ := holds_sameCount (hc.writeable f hf)
  sended n _ := holds_sameCount (hc.sended n)
  afterConnect _ := holds_sameCount hc.afterConnect
  onClose _ := holds_onClose hc

/-- The time-outs give back what the expiries hold. -/
lemma holds_timeOuts (hc : c.Counts) (mask : BitVec 32) (hd : Holds n d.toWorld) :
    Holds (n - expiries mask) (c.timeOuts mask d).toWorld := by
  have hone : ∀ (flag : BitVec 32) (e : Call) (f : Option (World σ → World σ)) (n : ℤ)
      (d : Dispatch σ), (∀ g ∈ f, SameCount g) → Holds n d.toWorld →
        Holds (n - one (decide (Has mask flag)))
          (if Has mask flag then (d.call e (f.getD id)).modify Stream.releaseRef
            else d).toWorld := by
    intro flag e f n d hf hd
    by_cases hflag : Has mask flag
    · have hrun : Holds n (f.getD id d.toWorld) :=
        StreamClass.keeps_getD (fun g hg _ => holds_sameCount (hf g hg)) hd
      rw [if_pos hflag, decide_eq_true hflag, ← hrun]
      change (f.getD id d.toWorld).stream.refCount - 1 - one (!(f.getD id d.toWorld).stream.isClosed)
        = rest (f.getD id d.toWorld) - 1
      rw [rest]
      omega
    · rw [if_neg hflag, decide_eq_false hflag]
      exact hd.trans (sub_zero n).symm
  rw [StreamClass.timeOuts, expiries, ← sub_sub]
  exact hone _ _ _ _ _ hc.writeTimeOut (hone _ _ _ _ _ hc.readTimeOut hd)

/-- An event gives back the reference of the owner when it closes the stream, and those of its
expiries unless it returns early. -/
lemma rest_onEvent (hc : c.Counts) (k : Kernel) (mask : BitVec 32) (w : World σ) :
    rest (c.onEvent k mask w).toWorld
      = rest w - if c.ReturnsEarly k mask w then 0 else expiries mask := by
  have hw : Holds (rest w) w := rfl
  by_cases hearly : c.ReturnsEarly k mask w
  · rw [if_pos hearly, sub_zero]
    exact (keeps_holds hc).changes.onEvent_early hearly hw
  · rw [if_neg hearly, StreamClass.onEvent_eq_process hearly]
    refine (keeps_holds hc).changes.process (keeps_holds hc).changes k mask
      (fun _ hd => holds_timeOuts hc mask hd) ?_
    have hconnect := (keeps_holds hc).changes.connectFirst k mask (d := ⟨w, []⟩) hw
    split
    · exact (keeps_holds hc).changes.onReadable (fun f hf _ => holds_sameCount (hc.readable f hf))
        (fun code _ => holds_sameCount (hc.messageError code))
        (fun n _ => holds_sameCount (hc.recived n)) _ hconnect
    · exact hconnect

/-! ## What an action does to the count -/

/-- The timers in the trees. -/
def linkedCount (node : Timer → TimerNode) : ℤ :=
  one (node .read).linked + one (node .write).linked

lemma linkedCount_update (node : Timer → TimerNode) (t : Timer) (n : TimerNode) :
    linkedCount (Function.update node t n)
      = linkedCount node - one (node t).linked + one n.linked := by
  cases t with
  | read => simp [linkedCount, add_comm]
  | write => simp [linkedCount]

/-- The wrappers and what they have taken. -/
def wrapperCount (ws : List WrapperPc) : ℤ := (ws.map wrapperHolders).sum

lemma wrapperCount_set {ws : List WrapperPc} {i : ℕ} {v : WrapperPc} (h : ws[i]? = some v)
    (v' : WrapperPc) :
    wrapperCount (ws.set i v') = wrapperCount ws - wrapperHolders v + wrapperHolders v' := by
  induction ws generalizing i with
  | nil => simp at h
  | cons w ws ih =>
    cases i with
    | zero =>
      obtain rfl : w = v := by simpa using h
      simp only [wrapperCount, List.set_cons_zero, List.map_cons, List.sum_cons]
      omega
    | succ i =>
      have htail := ih (by simpa using h)
      simp only [wrapperCount, List.set_cons_succ, List.map_cons, List.sum_cons] at htail ⊢
      omega

lemma wrapperCount_eraseIdx {ws : List WrapperPc} {i : ℕ} {v : WrapperPc}
    (h : ws[i]? = some v) :
    wrapperCount (ws.eraseIdx i) = wrapperCount ws - wrapperHolders v := by
  induction ws generalizing i with
  | nil => simp at h
  | cons w ws ih =>
    cases i with
    | zero =>
      obtain rfl : w = v := by simpa using h
      simp only [wrapperCount, List.eraseIdx_cons_zero, List.map_cons, List.sum_cons]
      omega
    | succ i =>
      have htail := ih (by simpa using h)
      simp only [wrapperCount, List.eraseIdx_cons_succ, List.map_cons, List.sum_cons] at htail ⊢
      omega

lemma has_or (a b flag : BitVec 32) : Has (a ||| b) flag ↔ Has a flag ∨ Has b flag := by
  have hzero : (a ||| b) &&& flag = 0#32 ↔ a &&& flag = 0#32 ∧ b &&& flag = 0#32 := by
    rw [BitVec.and_comm, BitVec.and_or_distrib_left, BitVec.or_eq_zero_iff, BitVec.and_comm flag,
      BitVec.and_comm flag]
  exact hzero.not.trans not_and_or

lemma one_or (p q : Bool) : one (p || q) = one p + one (q && !p) := by
  cases p <;> cases q <;> rfl

/-- The expiries that are in `mask` and not in `events`. -/
def newExpiries (events mask : BitVec 32) : ℤ :=
  one (decide (Has mask readTimeOut) && !decide (Has events readTimeOut))
    + one (decide (Has mask writeTimeOut) && !decide (Has events writeTimeOut))

lemma expiries_or (events mask : BitVec 32) :
    expiries (events ||| (mask ||| eventPending)) = expiries events + newExpiries events mask := by
  have hone : ∀ flag : BitVec 32, ¬ Has eventPending flag →
      one (decide (Has (events ||| (mask ||| eventPending)) flag))
        = one (decide (Has events flag))
          + one (decide (Has mask flag) && !decide (Has events flag)) := by
    intro flag hflag
    rw [← one_or, ← Bool.decide_or]
    exact congrArg one (decide_eq_decide.mpr (by rw [has_or, has_or, or_iff_left hflag]))
  rw [expiries, hone _ (by decide), hone _ (by decide), expiries, newExpiries]
  omega

/-- The count less the number of holders. -/
def balance (s : References σ) : ℤ :=
  rest s.world - s.adding - one s.registered - linkedCount s.node - expiries s.word.events
    - wrapperCount s.word.wrappers

lemma counted_iff_balance (s : References σ) : Counted s ↔ balance s = 0 := by
  simp only [Counted, holders, balance, rest, linkedCount, wrapperCount, refCount]
  omega

/-- What an action adds to the balance. -/
lemma counted_of_balance {s s' : References σ} {x : ℤ} (hs : Counted s)
    (h : balance s' = balance s + x) : Counted s' ↔ x = 0 := by
  rw [counted_iff_balance] at hs ⊢
  omega

section

variable {s : References σ}

lemma balance_addRef (s : References σ) (n : ℤ) : balance (s.addRef n) = balance s + n := by
  simp only [balance, rest, addRef, refCount]
  omega

lemma balance_node (s : References σ) (t : Timer) (n : TimerNode) :
    balance { s with node := Function.update s.node t n }
      = balance s + one (s.node t).linked - one n.linked := by
  simp only [balance, linkedCount_update]
  omega

lemma balance_registered (s : References σ) (b : Bool) :
    balance { s with registered := b } = balance s + one s.registered - one b := by
  simp only [balance]
  omega

lemma balance_setTimeOut (s : References σ) (t : Timer) (now timeSec : ℕ) :
    balance (s.setTimeOut t now timeSec)
      = balance s + (one ((s.node t).key == 0) + one (s.node t).linked - 1) := by
  rw [setTimeOut]
  by_cases hkey : (s.node t).key = 0
  · rw [if_neg (not_not.mpr hkey), hkey, beq_self_eq_true, one_true]
    refine (balance_node (s.addRef 1) t _).trans ?_
    rw [balance_addRef, one_true, addRef]
    dsimp only
    omega
  · rw [if_pos hkey, beq_false_of_ne hkey, one_false]
    refine (balance_node s t _).trans ?_
    rw [one_true]
    omega

/-- A deletion gives back the reference of a timer in the tree. -/
lemma balance_delTimeOut (s : References σ) (t : Timer)
    (hk : (s.node t).linked = true ↔ (s.node t).key ≠ 0) :
    balance (s.delTimeOut t) = balance s := by
  rw [delTimeOut]
  by_cases hkey : (s.node t).key = 0
  · rw [if_neg (not_not.mpr hkey)]
  · rw [if_pos hkey]
    refine (balance_node (s.addRef (-1)) t _).trans ?_
    rw [balance_addRef, one_false, addRef]
    dsimp only
    rw [hk.mpr hkey, one_true]
    omega

lemma balance_report (s : References σ) (mask : BitVec 32) :
    balance (s.report mask) = balance s - newExpiries s.word.events mask := by
  have hfetch : balance { s with word := s.word.fetchOr () mask }
      = balance s - newExpiries s.word.events mask := by
    simp only [balance, EventState.fetchOr, expiries_or]
    omega
  rw [report]
  split
  · exact hfetch
  · -- a wrapper, and its reference
    rw [← hfetch]
    simp only [balance, rest, addRef, EventState.post, wrapperCount, List.map_append,
      List.map_singleton, List.sum_append, List.sum_singleton, wrapperHolders, refCount]
    omega

lemma balance_onEvent (hc : c.Counts) (s : References σ) (k : Kernel) (mask : BitVec 32) :
    balance (s.onEvent c k mask)
      = balance s - if c.ReturnsEarly k mask s.world then 0 else expiries mask := by
  have hrest := rest_onEvent hc k mask s.world
  simp only [balance, onEvent]
  rw [hrest]
  omega

lemma one_eq_zero {b : Bool} : one b = 0 ↔ b = false := by cases b <;> decide

lemma one_nonneg (b : Bool) : 0 ≤ one b := by cases b <;> decide

lemma forall_timer {p : Timer → Prop} : (∀ t, p t) ↔ p .read ∧ p .write :=
  ⟨fun h => ⟨h _, h _⟩, fun h t => by cases t with | read => exact h.1 | write => exact h.2⟩

lemma expiries_eq_zero {mask : BitVec 32} : expiries mask = 0 ↔ ∀ t : Timer, ¬ Has mask t.flag := by
  have hone : ∀ flag, one (decide (Has mask flag)) = 0 ↔ ¬ Has mask flag :=
    fun flag => one_eq_zero.trans decide_eq_false_iff_not
  have hr := one_nonneg (decide (Has mask readTimeOut))
  have hw := one_nonneg (decide (Has mask writeTimeOut))
  rw [forall_timer, Timer.flag, Timer.flag, ← hone, ← hone, expiries]
  omega

lemma newExpiries_eq_zero {events mask : BitVec 32} :
    newExpiries events mask = 0 ↔ ∀ t : Timer, Has mask t.flag → Has events t.flag := by
  have hone : ∀ flag, one (decide (Has mask flag) && !decide (Has events flag)) = 0 ↔
      (Has mask flag → Has events flag) := by
    intro flag
    rw [one_eq_zero, Bool.and_eq_false_iff, decide_eq_false_iff_not, Bool.not_eq_false',
      decide_eq_true_iff]
    exact imp_iff_not_or.symm
  have hr := one_nonneg (decide (Has mask readTimeOut) && !decide (Has events readTimeOut))
  have hw := one_nonneg (decide (Has mask writeTimeOut) && !decide (Has events writeTimeOut))
  rw [forall_timer, Timer.flag, Timer.flag, ← hone, ← hone, newExpiries]
  omega

lemma newExpiries_flag (events : BitVec 32) (t : Timer) :
    newExpiries events t.flag = one (!decide (Has events t.flag)) := by
  cases t with
  | read =>
    rw [newExpiries, Timer.flag, decide_eq_true (by decide : Has readTimeOut readTimeOut),
      decide_eq_false (by decide : ¬ Has readTimeOut writeTimeOut)]
    exact add_zero _
  | write =>
    rw [newExpiries, Timer.flag, decide_eq_true (by decide : Has writeTimeOut writeTimeOut),
      decide_eq_false (by decide : ¬ Has writeTimeOut readTimeOut)]
    exact zero_add _

lemma expiries_flag (t : Timer) : expiries t.flag = 1 := by
  cases t <;> decide

/-- An expiry alone comes to the time-outs of an open stream. -/
lemma returnsEarly_flag (t : Timer) (k : Kernel) (w : World σ) :
    c.ReturnsEarly k t.flag w ↔ w.stream.isClosed = true := by
  have hflag : ¬ Has t.flag eventClose ∧ ¬ Has t.flag eventErr ∧ ¬ Has t.flag eventRead ∧
      ¬ Has t.flag eventWrite := by
    cases t <;> decide
  obtain ⟨hclose, herr, hread, hwrite⟩ := hflag
  refine ⟨?_, Or.inl⟩
  intro h
  rcases h with h | h | h | h
  · exact h
  · exact absurd h hclose
  · exact absurd h herr
  · exact absurd h.2.1 (not_or.mpr ⟨hread, hwrite⟩)

end

/-! ## The steps -/

section

variable {cls : E → StreamClass σ} {group : Bool} {s s' : References σ} {a : RefAct E σ}

/-- A timer is in its tree when it has a key. -/
def Keyed (s : References σ) : Prop := ∀ t, (s.node t).linked = true ↔ (s.node t).key ≠ 0

lemma counted_addEvent (hs : Counted s) :
    Counted s.addEvent ↔ (0 < s.adding ↔ s.registered = false) := by
  have hbalance : balance s.addEvent
      = balance s + (s.adding - (s.adding - 1 : ℕ) + one s.registered - 1) := by
    simp only [balance, addEvent, one_true]
    omega
  rw [counted_of_balance hs hbalance]
  cases s.registered with
  | false =>
    simp only [one_false, iff_true]
    omega
  | true =>
    simp only [one_true, Bool.true_eq_false, iff_false]
    omega

/-- A node with a key, or outside the tree. -/
lemma keyed_update (hk : Keyed s) (t : Timer) {n : TimerNode} (hn : n.linked = true ↔ n.key ≠ 0) :
    ∀ u, (Function.update s.node t n u).linked = true ↔ (Function.update s.node t n u).key ≠ 0 := by
  intro u
  by_cases hu : u = t
  · subst hu
    rw [Function.update_self]
    exact hn
  · rw [Function.update_of_ne hu]
    exact hk u

lemma keyed_delTimeOut (hk : Keyed s) (t : Timer) : Keyed (s.delTimeOut t) := by
  rw [delTimeOut]
  split
  · exact keyed_update hk t (by decide)
  · exact hk

lemma counted_delEvent (hs : Counted s) (hk : Keyed s) :
    Counted s.delEvent ↔ s.registered = true := by
  have hkeep : ∀ (s : References σ) t, (s.delTimeOut t).registered = s.registered := by
    intro s t
    rw [delTimeOut]
    split <;> rfl
  have hregistered : (((s.delTimeOut .read).delTimeOut .write).addRef (-1)).registered
      = s.registered := (hkeep _ _).trans (hkeep _ _)
  have hbalance : balance s.delEvent = balance s + (one s.registered - 1) := by
    have hlast := balance_registered (((s.delTimeOut .read).delTimeOut .write).addRef (-1)) false
    rw [balance_addRef, balance_delTimeOut _ _ (keyed_delTimeOut hk .read .write),
      balance_delTimeOut _ _ (hk .read), hregistered, one_false] at hlast
    refine hlast.trans ?_
    omega
  rw [counted_of_balance hs hbalance]
  cases s.registered <;> decide

lemma counted_setTimeOut (hs : Counted s) (hk : Keyed s) (t : Timer) (now timeSec : ℕ) :
    Counted (s.setTimeOut t now timeSec) := by
  rw [counted_of_balance hs (balance_setTimeOut s t now timeSec)]
  have hkeyed := hk t
  cases hkey : (s.node t).key == 0 with
  | false =>
    rw [hkeyed.mpr (by simpa using hkey)]
    decide
  | true =>
    have hlinked : (s.node t).linked = false :=
      Bool.eq_false_iff.mpr fun h => hkeyed.mp h (beq_iff_eq.mp hkey)
    rw [hlinked]
    decide

lemma counted_delTimeOut (hs : Counted s) (hk : Keyed s) (t : Timer) :
    Counted (s.delTimeOut t) := by
  rw [counted_iff_balance] at hs ⊢
  rw [balance_delTimeOut s t (hk t), hs]

lemma counted_onEvent {c : StreamClass σ} (hc : c.Counts) (hs : Counted s) (k : Kernel)
    (mask : BitVec 32) :
    Counted (s.onEvent c k mask) ↔
      c.ReturnsEarly k mask s.world ∨ ∀ t : Timer, ¬ Has mask t.flag := by
  rw [counted_of_balance hs ((balance_onEvent hc s k mask).trans (sub_eq_add_neg _ _)), neg_eq_zero,
    ← expiries_eq_zero]
  by_cases hearly : c.ReturnsEarly k mask s.world
  · simp [hearly]
  · simp [hearly]

lemma counted_onEventAsync {c : StreamClass σ} (hc : c.Counts) (hs : Counted s) (k : Kernel)
    (mask : BitVec 32) :
    Counted (s.onEventAsync c group k mask) ↔
      if group then ∀ t : Timer, Has mask t.flag → Has s.word.events t.flag
      else c.ReturnsEarly k mask s.world ∨ ∀ t : Timer, ¬ Has mask t.flag := by
  rw [onEventAsync]
  cases group with
  | true =>
    rw [if_pos rfl, if_pos rfl, ← newExpiries_eq_zero,
      counted_of_balance hs ((balance_report s mask).trans (sub_eq_add_neg _ _)), neg_eq_zero]
  | false =>
    rw [if_neg (by decide), if_neg (by decide)]
    exact counted_onEvent hc hs k mask

lemma counted_expire {c : StreamClass σ} (hc : c.Counts) (hs : Counted s) (k : Kernel) (t : Timer)
    (hlinked : (s.node t).linked = true) :
    Counted (s.expire c group k t) ↔
      if group then ¬ Has s.word.events t.flag else s.world.stream.isClosed = false := by
  have hnode : (s.onEventAsync c group k t.flag).node = s.node := by
    rw [onEventAsync]
    split
    · rw [report]
      split <;> rfl
    · rfl
  have hbalance : balance (s.expire c group k t)
      = balance (s.onEventAsync c group k t.flag) + 1 := by
    refine (balance_node (s.onEventAsync c group k t.flag) t _).trans ?_
    rw [hnode, hlinked, one_true, one_false, sub_zero]
  rw [onEventAsync] at hbalance
  cases group with
  | true =>
    rw [if_pos rfl] at hbalance ⊢
    rw [balance_report, newExpiries_flag] at hbalance
    rw [counted_of_balance (x := 1 - one (!decide (Has s.word.events t.flag))) hs (by omega)]
    by_cases hbit : Has s.word.events t.flag
    · rw [decide_eq_true hbit]
      exact iff_of_false (by decide) (not_not.mpr hbit)
    · rw [decide_eq_false hbit]
      exact iff_of_true (by decide) hbit
  | false =>
    rw [if_neg (by decide)] at hbalance ⊢
    rw [balance_onEvent hc, expiries_flag] at hbalance
    rw [counted_of_balance (x := 1 - if c.ReturnsEarly k t.flag s.world then 0 else 1) hs
      (by omega)]
    have hearly := returnsEarly_flag (c := c) t k s.world
    cases hclosed : s.world.stream.isClosed with
    | false => simp [hearly, hclosed]
    | true => simp [hearly, hclosed]

lemma counted_exchange (hs : Counted s) {i : ℕ} (h : s.word.wrappers[i]? = some .exchange) :
    Counted (s.exchange i) := by
  have hwrappers := wrapperCount_set h (.onEvent s.word.events)
  have hbalance : balance (s.exchange i) = balance s + 0 := by
    simp only [balance, exchange, EventState.exchange, hwrappers, wrapperHolders,
      show expiries eventProcessing = 0 by decide]
    omega
  exact (counted_of_balance hs hbalance).mpr rfl

lemma counted_wrapperEvent {c : StreamClass σ} (hc : c.Counts) (hs : Counted s) (k : Kernel)
    {i : ℕ} {mask : BitVec 32} (h : s.word.wrappers[i]? = some (.onEvent mask)) :
    Counted (s.wrapperEvent c k i mask) ↔
      (c.ReturnsEarly k mask s.world → ∀ t : Timer, ¬ Has mask t.flag) := by
  have hwrappers := wrapperCount_set h .cas
  have hevent := balance_onEvent hc s k mask
  have hbalance : balance (s.wrapperEvent c k i mask)
      = balance s + (expiries mask - if c.ReturnsEarly k mask s.world then 0 else expiries mask) := by
    have hword : balance (s.wrapperEvent c k i mask)
        = balance (s.onEvent c k mask) + expiries mask := by
      simp only [balance, wrapperEvent, onEvent, EventState.onEvent, hwrappers, wrapperHolders]
      omega
    omega
  rw [counted_of_balance hs hbalance, ← expiries_eq_zero]
  by_cases hearly : c.ReturnsEarly k mask s.world
  · simp [hearly]
  · simp [hearly]

lemma counted_cas (hs : Counted s) {i : ℕ} (h : s.word.wrappers[i]? = some .cas) :
    Counted (s.cas i) := by
  have hbalance : balance (s.cas i) = balance s + 0 := by
    rw [cas]
    split
    · rename_i hidle
      have hword : s.word.cas i
          = { s.word with events := 0, wrappers := s.word.wrappers.eraseIdx i } := if_pos hidle
      have hevents : expiries s.word.events = 0 := by
        rw [hidle]
        decide
      simp only [balance, rest, addRef, refCount, hword, wrapperCount_eraseIdx h, wrapperHolders,
        hevents, show expiries 0 = 0 by decide]
      omega
    · rename_i hbusy
      simp only [balance, EventState.cas, if_neg hbusy, wrapperCount_set h, wrapperHolders]
      omega
  exact (counted_of_balance hs hbalance).mpr rfl

/-- An action keeps the count exactly when it is accounted for. -/
lemma counted_act (hc : ∀ env, (cls env).Counts) (hs : Counted s) (hk : Keyed s)
    (ha : s.Enabled a) : Counted (s.act cls group a) ↔ Accounted cls group s a := by
  cases a with
  | addEventAsync =>
    have hbalance : balance s.addEventAsync = balance s + 0 := by
      simp only [balance, addEventAsync, rest, addRef, refCount]
      omega
    exact iff_of_true ((counted_of_balance hs hbalance).mpr rfl) trivial
  | addEvent => exact counted_addEvent hs
  | delEvent => exact counted_delEvent hs hk
  | setTimeOut t now timeSec => exact iff_of_true (counted_setTimeOut hs hk t now timeSec) trivial
  | delTimeOut t => exact iff_of_true (counted_delTimeOut hs hk t) trivial
  | expire env k t now => exact counted_expire (hc env) hs k t ha.1
  | onEventAsync env k mask => exact counted_onEventAsync (hc env) hs k mask
  | exchange i => exact iff_of_true (counted_exchange hs ha) trivial
  | wrapperEvent env k i mask => exact counted_wrapperEvent (hc env) hs k ha
  | cas i => exact iff_of_true (counted_cas hs ha) trivial
  | onEvent env k mask => exact counted_onEvent (hc env) hs k mask
  | other w =>
    obtain ⟨hclosed, hcount⟩ := ha
    have hbalance : balance (s.act cls group (.other w)) = balance s + 0 := by
      simp only [balance, act, rest, hclosed, hcount, add_zero]
    exact iff_of_true ((counted_of_balance hs hbalance).mpr rfl) trivial

lemma keyed_act (hk : Keyed s) (ha : s.Enabled a) : Keyed (s.act cls group a) := by
  have hreport : ∀ mask, (s.report mask).node = s.node := by
    intro mask
    rw [report]
    split <;> rfl
  have hasync : ∀ (c : StreamClass σ) k mask, (s.onEventAsync c group k mask).node = s.node := by
    intro c k mask
    rw [onEventAsync]
    split
    · exact hreport mask
    · rfl
  cases a with
  | addEventAsync => exact hk
  | addEvent => exact hk
  | delEvent => exact keyed_delTimeOut (keyed_delTimeOut hk .read) .write
  | setTimeOut t now timeSec =>
    have hnow : 0 < now := ha
    have hset := keyed_update hk t (n := ⟨now + timeSec, true⟩)
      (iff_of_true rfl (by dsimp only; omega))
    rw [act, setTimeOut]
    split <;> exact hset
  | delTimeOut t => exact keyed_delTimeOut hk t
  | expire env k t now =>
    intro u
    rw [act, expire, hasync]
    exact keyed_update hk t (by decide) u
  | onEventAsync env k mask =>
    rw [act, Keyed, hasync]
    exact hk
  | exchange i => exact hk
  | wrapperEvent env k i mask => exact hk
  | cas i =>
    rw [act, cas]
    split <;> exact hk
  | onEvent env k mask => exact hk
  | other w => exact hk

end

end References

end MTRpc
