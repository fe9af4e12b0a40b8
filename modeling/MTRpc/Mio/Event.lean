import Mathlib.Algebra.GroupWithZero.Nat
import MTRpc.Lib.Exec

/-!
# The event word

`IOEvent` keeps the events that wait for a dispatch, and whether a dispatch is under way, in
one word.  Any number of threads report events (`OnEventAsync`), each with a fetch-or; the
thread that found the word idle posts a wrapper to the group.  A wrapper (`OnEventWrapper`)
takes the word with an exchange, runs `OnEvent` on what it took, and ends with a
compare-and-swap that fails when something was reported in the meantime.

A state holds the word, the threads that stand between their fetch-or and their post, the
wrappers that are queued or running, and the log of the masks asked for and dispatched.  The
invariant `EventState.Inv` ties the word to the one wrapper or poster that there is.
-/

namespace MTRpc

/-! ## `EVENT_STATUS` -/

/-- `EVENT_PENDING` -/
def eventPending : BitVec 32 := 0x1
/-- `EVENT_PROCESSING` -/
def eventProcessing : BitVec 32 := 0x2
/-- `EVENT_READ` -/
def eventRead : BitVec 32 := 0x10
/-- `EVENT_WRITE` -/
def eventWrite : BitVec 32 := 0x20
/-- `EVENT_CLOSE` -/
def eventClose : BitVec 32 := 0x40
/-- `READ_TIME_OUT` -/
def readTimeOut : BitVec 32 := 0x80
/-- `WRITE_TIME_OUT` -/
def writeTimeOut : BitVec 32 := 0x100
/-- `EVENT_ERR` -/
def eventErr : BitVec 32 := 0x200

/-- `mask & flag` as a condition. -/
abbrev Has (mask flag : BitVec 32) : Prop := mask &&& flag ≠ 0

lemma has_twoPow (mask : BitVec 32) (i : ℕ) (hi : i < 32) :
    Has mask (BitVec.twoPow 32 i) ↔ mask.getLsbD i = true := by
  rw [Has, BitVec.and_twoPow]
  by_cases h : mask.getLsbD i = true
  · simp only [h, if_true, iff_true]
    intro h0
    have hbit := congrArg (BitVec.getLsbD · i) h0
    simp [hi] at hbit
  · simp [h]

lemma has_pending (mask : BitVec 32) : Has mask eventPending ↔ mask.getLsbD 0 = true :=
  has_twoPow mask 0 (by decide)

/-! ## The steps -/

/-- Where an `OnEventWrapper` stands. -/
inductive WrapperPc
  /-- In the queue of the group, or at the head of the loop: before the exchange. -/
  | exchange
  /-- In `OnEvent`, with the mask it took. -/
  | onEvent (mask : BitVec 32)
  /-- Before the compare-and-swap. -/
  | cas
deriving DecidableEq, Repr

/-- What the log records. -/
inductive EventEntry
  /-- A fetch-or with a mask. -/
  | asked (mask : BitVec 32)
  /-- The start of `OnEvent` with a mask. -/
  | event (mask : BitVec 32)
deriving DecidableEq, Repr

/-- An `IOEvent` with a group, and the threads at it. -/
structure EventState (T : Type*) where
  /-- `_events` -/
  events : BitVec 32
  /-- The threads in `OnEventAsync` that found the word idle and have not posted yet. -/
  posting : List T
  /-- The wrappers in the queue of the group or running. -/
  wrappers : List WrapperPc
  log : List EventEntry

/-- The atomic steps; wrappers are named by their place in the list. -/
inductive EventAct (T : Type*)
  | fetchOr (t : T) (mask : BitVec 32)
  | post (t : T)
  | exchange (k : ℕ)
  | onEvent (k : ℕ)
  | cas (k : ℕ)

namespace EventState

variable {T : Type*}

/-- After the constructor. -/
def init : EventState T := ⟨0, [], [], []⟩

variable (s : EventState T)

/-- `__sync_fetch_and_or(&_events, event_mask | EVENT_PENDING)` and the tests of what it
found: a thread that found neither flag goes on to post. -/
def fetchOr (t : T) (mask : BitVec 32) : EventState T :=
  { s with
    events := s.events ||| (mask ||| eventPending)
    posting :=
      if Has s.events eventPending then s.posting
      else if Has s.events eventProcessing then s.posting
      else t :: s.posting
    log := s.log ++ [.asked mask] }

/-- `group->Post(closure)` -/
def post [DecidableEq T] (t : T) : EventState T :=
  { s with posting := s.posting.erase t, wrappers := s.wrappers ++ [.exchange] }

/-- `__sync_lock_test_and_set(&_events, EVENT_PROCESSING)`, and `OnEvent` begins. -/
def exchange (k : ℕ) : EventState T :=
  { s with
    events := eventProcessing
    wrappers := s.wrappers.set k (.onEvent s.events)
    log := s.log ++ [.event s.events] }

/-- `OnEvent` returns. -/
def onEvent (k : ℕ) : EventState T := { s with wrappers := s.wrappers.set k .cas }

/-- `__sync_bool_compare_and_swap(&_events, EVENT_PROCESSING, 0)`: the end of the wrapper, or
another round. -/
def cas (k : ℕ) : EventState T :=
  if s.events = eventProcessing then { s with events := 0, wrappers := s.wrappers.eraseIdx k }
  else { s with wrappers := s.wrappers.set k .exchange }

/-- Any thread that is not on its way to a post can call `OnEventAsync`, with any mask. -/
def Step [DecidableEq T] (s : EventState T) : EventAct T → EventState T → Prop
  | .fetchOr t mask, s' => t ∉ s.posting ∧ s' = s.fetchOr t mask
  | .post t, s' => t ∈ s.posting ∧ s' = s.post t
  | .exchange k, s' => s.wrappers[k]? = some .exchange ∧ s' = s.exchange k
  | .onEvent k, s' => (∃ mask, s.wrappers[k]? = some (.onEvent mask)) ∧ s' = s.onEvent k
  | .cas k, s' => s.wrappers[k]? = some .cas ∧ s' = s.cas k

/-! ## The invariant -/

/-- Who is responsible for the word. -/
inductive Owner (s : EventState T) : Prop
  /-- Nobody: the word is idle. -/
  | nobody (hp : s.posting = []) (hw : s.wrappers = []) (he : s.events = 0)
  /-- A thread that is going to post. -/
  | poster (t : T) (hp : s.posting = [t]) (hw : s.wrappers = []) (he : Has s.events eventPending)
  /-- A wrapper that is going to take the word. -/
  | taker (hp : s.posting = []) (hw : s.wrappers = [.exchange]) (he : Has s.events eventPending)
  /-- A wrapper in `OnEvent` or behind it. -/
  | runner (w : WrapperPc) (hne : w ≠ .exchange) (hp : s.posting = []) (hw : s.wrappers = [w])
    (he : s.events = eventProcessing ∨ Has s.events eventPending)

/-- The bit `i`, asked for before `post` in the log, is in the mask of a later `OnEvent`. -/
def Delivered (i : ℕ) (post : List EventEntry) : Prop :=
  ∃ mask, EventEntry.event mask ∈ post ∧ mask.getLsbD i = true

/-- Every bit that was asked for is delivered, or it is in the word next to the flag
`EVENT_PENDING`. -/
def Kept (s : EventState T) : Prop :=
  ∀ pre mask post i, s.log = pre ++ EventEntry.asked mask :: post → mask.getLsbD i = true →
    Delivered i post ∨ s.events.getLsbD i = true ∧ Has s.events eventPending

structure Inv (s : EventState T) : Prop where
  owner : Owner s
  kept : Kept s

variable {s s' : EventState T} {a : EventAct T}

lemma inv_init : Inv (init : EventState T) where
  owner := .nobody rfl rfl rfl
  kept := by
    intro pre mask post i hlog
    exact absurd hlog (by simp [init])

lemma getElem?_one {w v : WrapperPc} {k : ℕ} (h : [w][k]? = some v) : k = 0 ∧ w = v := by
  rw [List.getElem?_singleton] at h
  split at h
  · exact ⟨by assumption, by simpa using h⟩
  · exact absurd h (by simp)

/-- A fetch-or leaves the flag `EVENT_PENDING` set. -/
lemma has_pending_fetchOr (s : EventState T) (t : T) (mask : BitVec 32) :
    Has (s.fetchOr t mask).events eventPending := by
  rw [has_pending, fetchOr, BitVec.getLsbD_or, BitVec.getLsbD_or,
    show eventPending.getLsbD 0 = true from rfl, Bool.or_true, Bool.or_true]

/-- A fetch-or on a word that is not idle makes nobody post. -/
lemma posting_fetchOr {t : T} {mask : BitVec 32}
    (he : s.events = eventProcessing ∨ Has s.events eventPending) :
    (s.fetchOr t mask).posting = s.posting := by
  rcases he with he | he
  · rw [fetchOr, if_neg (by rw [he]; decide), if_pos (by rw [he]; decide)]
  · rw [fetchOr, if_pos he]

/-- A wrapper that has taken the word is the only one, and nothing waits to be posted. -/
lemma Owner.runs (ho : Owner s) {k : ℕ} {w : WrapperPc} (hk : s.wrappers[k]? = some w)
    (hne : w ≠ .exchange) : k = 0 ∧ s.wrappers = [w] ∧ s.posting = [] ∧
      (s.events = eventProcessing ∨ Has s.events eventPending) := by
  cases ho with
  | nobody hp hw he => exact absurd hk (by simp [hw])
  | poster u hp hw he => exact absurd hk (by simp [hw])
  | taker hp hw he =>
    obtain ⟨-, rfl⟩ := getElem?_one (hw ▸ hk)
    exact absurd rfl hne
  | runner w' _ hp hw he =>
    obtain ⟨rfl, rfl⟩ := getElem?_one (hw ▸ hk)
    exact ⟨rfl, hw, hp, he⟩

/-- There is one poster or one wrapper, or the word is idle: every step passes the word on. -/
lemma Owner.step [DecidableEq T] (ho : Owner s) (hst : s.Step a s') : Owner s' := by
  cases a with
  | fetchOr t mask =>
    obtain ⟨-, rfl⟩ := hst
    have he' := has_pending_fetchOr s t mask
    cases ho with
    | nobody hp hw he =>
      refine .poster t ?_ hw he'
      rw [fetchOr, if_neg (by rw [he]; decide), if_neg (by rw [he]; decide), hp]
    | poster u hp hw he => exact .poster u ((posting_fetchOr (Or.inr he)).trans hp) hw he'
    | taker hp hw he => exact .taker ((posting_fetchOr (Or.inr he)).trans hp) hw he'
    | runner w hne hp hw he =>
      exact .runner w hne ((posting_fetchOr he).trans hp) hw (Or.inr he')
  | post t =>
    obtain ⟨ht, rfl⟩ := hst
    cases ho with
    | nobody hp hw he => exact absurd ht (by simp [hp])
    | poster u hp hw he =>
      have htu : t = u := by simpa [hp] using ht
      exact .taker (by simp [post, hp, htu]) (by simp [post, hw]) he
    | taker hp hw he => exact absurd ht (by simp [hp])
    | runner w hne hp hw he => exact absurd ht (by simp [hp])
  | exchange k =>
    obtain ⟨hk, rfl⟩ := hst
    cases ho with
    | nobody hp hw he => exact absurd hk (by simp [hw])
    | poster u hp hw he => exact absurd hk (by simp [hw])
    | taker hp hw he =>
      obtain ⟨rfl, -⟩ := getElem?_one (hw ▸ hk)
      have hw' : (s.exchange 0).wrappers = [.onEvent s.events] := by
        simp only [exchange, hw]
        rfl
      exact .runner _ (by simp) hp hw' (Or.inl rfl)
    | runner w hne hp hw he => exact absurd (getElem?_one (hw ▸ hk)).2 hne
  | onEvent k =>
    obtain ⟨⟨mask, hk⟩, rfl⟩ := hst
    obtain ⟨rfl, hw, hp, he⟩ := ho.runs hk (by simp)
    exact .runner .cas (by simp) hp (by simp only [onEvent, hw]; rfl) he
  | cas k =>
    obtain ⟨hk, rfl⟩ := hst
    obtain ⟨rfl, hw, hp, he⟩ := ho.runs hk (by simp)
    rw [cas]
    split
    · exact .nobody hp (by simp only [hw]; rfl) rfl
    · next hproc => exact .taker hp (by simp only [hw]; rfl) (he.resolve_left hproc)

/-- An entry of a log with one entry more is the last one or one of the log. -/
lemma log_snoc {log pre post : List EventEntry} {e e' : EventEntry}
    (h : log ++ [e] = pre ++ e' :: post) :
    (post = [] ∧ e' = e) ∨ ∃ post', post = post' ++ [e] ∧ log = pre ++ e' :: post' := by
  rcases List.eq_nil_or_concat post with rfl | ⟨post', x, rfl⟩
  · left
    exact ⟨rfl, (List.append_inj_right' h rfl |> List.cons.inj).1.symm⟩
  · right
    rw [List.concat_eq_append, ← List.cons_append, ← List.append_assoc] at h
    obtain ⟨hlog, hx⟩ := List.append_inj' h rfl
    exact ⟨post', by rw [List.concat_eq_append, (List.cons.inj hx).1], hlog⟩

lemma Delivered.snoc {i : ℕ} {post : List EventEntry} (h : Delivered i post) (e : EventEntry) :
    Delivered i (post ++ [e]) := by
  obtain ⟨mask, hmem, hbit⟩ := h
  exact ⟨mask, List.mem_append_left _ hmem, hbit⟩

/-- No step loses a bit. -/
lemma Inv.step [DecidableEq T] (hi : Inv s) (hst : s.Step a s') : Inv s' := by
  refine ⟨hi.owner.step hst, ?_⟩
  intro pre mask post i hlog hbit
  cases a with
  | fetchOr t m =>
    obtain ⟨-, rfl⟩ := hst
    have he' := has_pending_fetchOr s t m
    rcases log_snoc hlog with ⟨-, he⟩ | ⟨post', rfl, hold⟩
    · -- the bits asked for now are set
      obtain rfl : mask = m := by simpa using he
      exact Or.inr ⟨by simp [fetchOr, hbit], he'⟩
    · rcases hi.kept pre mask post' i hold hbit with hdel | ⟨hset, -⟩
      · exact Or.inl (hdel.snoc _)
      · exact Or.inr ⟨by simp [fetchOr, hset], he'⟩
  | post t =>
    obtain ⟨-, rfl⟩ := hst
    exact hi.kept pre mask post i hlog hbit
  | exchange k =>
    obtain ⟨-, rfl⟩ := hst
    rcases log_snoc hlog with ⟨-, he⟩ | ⟨post', rfl, hold⟩
    · exact absurd he (by simp)
    · rcases hi.kept pre mask post' i hold hbit with hdel | ⟨hset, -⟩
      · exact Or.inl (hdel.snoc _)
      · exact Or.inl ⟨s.events, by simp, hset⟩
  | onEvent k =>
    obtain ⟨-, rfl⟩ := hst
    exact hi.kept pre mask post i hlog hbit
  | cas k =>
    obtain ⟨-, rfl⟩ := hst
    have hlog' : s.log = pre ++ .asked mask :: post := by
      rw [cas] at hlog
      split at hlog <;> exact hlog
    rcases hi.kept pre mask post i hlog' hbit with hdel | ⟨hset, hpend⟩
    · exact Or.inl hdel
    · -- with the flag set the compare-and-swap fails
      refine Or.inr ?_
      rw [cas, if_neg]
      · exact ⟨hset, hpend⟩
      · intro hproc
        rw [hproc] at hpend
        exact absurd hpend (by decide)

/-! ## Delivery -/

/-- The steps that a wrapper needs to the next exchange, this one included. -/
def wrapperDelay : WrapperPc → ℕ
  | .exchange => 1
  | .cas => 2
  | .onEvent _ => 3

/-- The steps of the wrapper or the poster to the next exchange. -/
def delay (s : EventState T) : ℕ := (s.wrappers.map wrapperDelay).sum + 2 * s.posting.length

/-- The step is one of the wrapper or the poster, not a report. -/
def own : EventState T × EventAct T → Bool
  | (_, .fetchOr _ _) => false
  | _ => true

lemma delay_le (ho : Owner s) : s.delay ≤ 3 := by
  cases ho with
  | nobody hp hw he => simp [delay, hp, hw]
  | poster u hp hw he => simp [delay, hp, hw]
  | taker hp hw he => simp [delay, hp, hw, wrapperDelay]
  | runner w hne hp hw he => cases w <;> simp [delay, hp, hw, wrapperDelay]

/-- Without a step to take the word is idle. -/
lemma events_of_delay_eq_zero (ho : Owner s) (h0 : s.delay = 0) : s.events = 0 := by
  cases ho with
  | nobody hp hw he => exact he
  | poster u hp hw he => exact absurd h0 (by simp [delay, hp, hw])
  | taker hp hw he => exact absurd h0 (by simp [delay, hp, hw, wrapperDelay])
  | runner w hne hp hw he => cases w <;> exact absurd h0 (by simp [delay, hp, hw, wrapperDelay])

/-- While something waits for a dispatch, reports change no delay and other steps lower it or
dispatch. -/
lemma delay_step [DecidableEq T] (ho : Owner s) (hpend : Has s.events eventPending)
    (hst : s.Step a s') :
    (∃ k, a = .exchange k) ∨ s'.log = s.log ∧ s'.delay + 1 ≤ s.delay ∨
      ∃ t mask, a = .fetchOr t mask ∧ s'.delay = s.delay := by
  cases a with
  | fetchOr t mask =>
    obtain ⟨-, rfl⟩ := hst
    right; right
    refine ⟨t, mask, rfl, ?_⟩
    rw [delay, delay, posting_fetchOr (Or.inr hpend)]
    rfl
  | post t =>
    obtain ⟨ht, rfl⟩ := hst
    right; left
    refine ⟨rfl, ?_⟩
    have hlen := List.length_erase_of_mem ht
    have hpos := List.length_pos_of_mem ht
    simp only [delay, post, List.map_append, List.map_cons, List.map_nil, List.sum_append,
      List.sum_singleton, wrapperDelay, hlen]
    omega
  | exchange k => exact Or.inl ⟨k, rfl⟩
  | onEvent k =>
    obtain ⟨⟨mask, hk⟩, rfl⟩ := hst
    right; left
    obtain ⟨rfl, hw, hp, -⟩ := ho.runs hk (by simp)
    simp [delay, onEvent, hw, hp, wrapperDelay]
  | cas k =>
    obtain ⟨hk, rfl⟩ := hst
    right; left
    obtain ⟨rfl, hw, hp, -⟩ := ho.runs hk (by simp)
    have hproc : s.events ≠ eventProcessing := by
      rintro hproc
      rw [hproc] at hpend
      exact absurd hpend (by decide)
    simp [delay, cas, hproc, hw, hp, wrapperDelay]

/-- A step leaves the log or adds an entry. -/
lemma log_step [DecidableEq T] (hst : s.Step a s') : ∃ es, s'.log = s.log ++ es := by
  cases a with
  | fetchOr t mask => exact ⟨_, by rw [hst.2]; rfl⟩
  | post t => exact ⟨[], by rw [hst.2]; simp [post]⟩
  | exchange k => exact ⟨_, by rw [hst.2]; rfl⟩
  | onEvent k => exact ⟨[], by rw [hst.2]; simp [onEvent]⟩
  | cas k =>
    refine ⟨[], ?_⟩
    rw [hst.2, cas]
    split <;> simp

section

variable [DecidableEq T] {h : List (EventState T × EventAct T)}

lemma inv_run (hi : Inv s) (hrun : Exec.Run Step s h s') : Inv s' :=
  hrun.invariant_all Inv hi (fun _ _ _ hi hst => hi.step hst)

/-- In a run a bit that was asked for is delivered, or its delivery comes nearer with every
step that is not a report. -/
lemma delivered_run (hi : Inv s) (hrun : Exec.Run Step s h s') {pre post : List EventEntry}
    {mask : BitVec 32} {i : ℕ} (hlog : s.log = pre ++ .asked mask :: post)
    (hbit : mask.getLsbD i = true) :
    ∃ post', s'.log = pre ++ .asked mask :: post' ∧
      (Delivered i post' ∨ (h.filter own).length + s'.delay ≤ 3) := by
  induction hrun with
  | nil => exact ⟨post, hlog, Or.inr (by simpa using delay_le hi.owner)⟩
  | @snoc h t u a hrun hst ih =>
    obtain ⟨post', hlog', hcase⟩ := ih
    have hit := inv_run hi hrun
    obtain ⟨es, hes⟩ := log_step hst
    refine ⟨post' ++ es, by rw [hes, hlog', List.append_assoc, List.cons_append], ?_⟩
    by_cases hdel : Delivered i post'
    · obtain ⟨m, hmem, hm⟩ := hdel
      exact Or.inl ⟨m, List.mem_append_left _ hmem, hm⟩
    · obtain ⟨hset, hpend⟩ := (hit.kept pre mask post' i hlog' hbit).resolve_left hdel
      have hle := hcase.resolve_left hdel
      rcases delay_step hit.owner hpend hst with ⟨k, rfl⟩ | ⟨-, hlt⟩ | ⟨r, m, rfl, heq⟩
      · -- the exchange takes the bit
        have hlog'' : t.log ++ es = t.log ++ [.event t.events] := by
          rw [← hes, hst.2]
          rfl
        rw [List.append_cancel_left hlog'']
        exact Or.inl ⟨t.events, by simp, hset⟩
      · right
        rw [List.filter_append, List.length_append]
        have : ([(t, a)].filter own).length ≤ 1 := List.length_filter_le _ _
        omega
      · right
        rw [List.filter_append, List.length_append, heq]
        simpa [own] using hle

end

end EventState

/-- **Event dispatch.**  With any number of threads, any masks and any interleaving: one
wrapper at most is queued or running, and none while a thread is about to post one; a wrapper
that takes the word finds `EVENT_PENDING`; a bit that was asked for is in the mask of a later
`OnEvent`, or it is in the word and there is a wrapper, or a thread about to post one; and
three steps of them, whatever is reported meanwhile, deliver it. -/
theorem event_dispatch {T : Type*} [DecidableEq T] {h : List (EventState T × EventAct T)}
    {s : EventState T} (hrun : Exec.Run EventState.Step .init h s) :
    s.wrappers.length + s.posting.length ≤ 1 ∧
    (.exchange ∈ s.wrappers → Has s.events eventPending) ∧
    ∀ pre mask post i, s.log = pre ++ .asked mask :: post → mask.getLsbD i = true →
      (EventState.Delivered i post ∨
        s.events.getLsbD i = true ∧ (s.wrappers ≠ [] ∨ s.posting ≠ [])) ∧
      ∀ h' s', Exec.Run EventState.Step s h' s' → 3 ≤ (h'.filter EventState.own).length →
        ∃ post', s'.log = pre ++ .asked mask :: post' ∧ EventState.Delivered i post' := by
  have hi := EventState.inv_run EventState.inv_init hrun
  refine ⟨?_, ?_, fun pre mask post i hlog hbit => ⟨?_, fun h' s' hrun' hown => ?_⟩⟩
  · cases hi.owner with
    | nobody hp hw he => simp [hp, hw]
    | poster u hp hw he => simp [hp, hw]
    | taker hp hw he => simp [hp, hw]
    | runner w hne hp hw he => simp [hp, hw]
  · intro hmem
    cases hi.owner with
    | nobody hp hw he => exact absurd hmem (by simp [hw])
    | poster u hp hw he => exact he
    | taker hp hw he => exact he
    | runner w hne hp hw he => exact absurd hmem (by simpa [hw] using hne.symm)
  · refine (hi.kept pre mask post i hlog hbit).imp_right fun hset => ⟨hset.1, ?_⟩
    cases hi.owner with
    | nobody hp hw he =>
      rw [he] at hset
      exact absurd hset.2 (by decide)
    | poster u hp hw he => exact Or.inr (by simp [hp])
    | taker hp hw he => exact Or.inl (by simp [hw])
    | runner w hne hp hw he => exact Or.inl (by simp [hw])
  · obtain ⟨post', hlog', hcase⟩ := EventState.delivered_run hi hrun' hlog hbit
    refine ⟨post', hlog', ?_⟩
    rcases hcase with hdel | hle
    · exact hdel
    · -- no step is left to take, so that the word is idle
      have hi' := EventState.inv_run hi hrun'
      have hidle := EventState.events_of_delay_eq_zero hi'.owner (by omega)
      refine (hi'.kept pre mask post' i hlog' hbit).resolve_right fun hset => ?_
      rw [hidle] at hset
      exact absurd hset.2 (by decide)

/-- A thread has reported a READ and has not posted yet, and a second one has reported a
WRITE and returned: no wrapper is queued or running. -/
theorem event_dispatch_window :
    ¬ ∀ (h : List (EventState ℕ × EventAct ℕ)) (s : EventState ℕ),
      Exec.Run EventState.Step .init h s →
        s.wrappers.length ≤ 1 ∧
        (.exchange ∈ s.wrappers → Has s.events eventPending) ∧
        ∀ pre mask post i, s.log = pre ++ .asked mask :: post → mask.getLsbD i = true →
          EventState.Delivered i post ∨ s.wrappers ≠ [] := by
  intro hall
  have hread : EventState.init.Step (.fetchOr 0 eventRead)
      (EventState.init.fetchOr 0 eventRead) := ⟨by decide, rfl⟩
  have hwrite : (EventState.init.fetchOr 0 eventRead).Step (.fetchOr 1 eventWrite)
      ((EventState.init.fetchOr 0 eventRead).fetchOr 1 eventWrite) := ⟨by decide, rfl⟩
  obtain ⟨-, -, hkept⟩ := hall _ _ ((Exec.Run.nil.snoc hread).snoc hwrite)
  rcases hkept [.asked eventRead] eventWrite [] 5 rfl (by decide) with ⟨m, hmem, -⟩ | hw
  · exact absurd hmem (by simp)
  · exact hw rfl

/-- One report, posted. -/
theorem event_dispatch_post :
    let s := (EventState.init.fetchOr 0 eventRead).post 0
    s.wrappers.length + s.posting.length ≤ 1 ∧
    (.exchange ∈ s.wrappers → Has s.events eventPending) ∧
    ∀ pre mask post i, s.log = pre ++ .asked mask :: post → mask.getLsbD i = true →
      (EventState.Delivered i post ∨
        s.events.getLsbD i = true ∧ (s.wrappers ≠ [] ∨ s.posting ≠ [])) ∧
      ∀ h' s', Exec.Run EventState.Step s h' s' → 3 ≤ (h'.filter EventState.own).length →
        ∃ post', s'.log = pre ++ .asked mask :: post' ∧ EventState.Delivered i post' := by
  have hread : EventState.init.Step (.fetchOr 0 eventRead)
      (EventState.init.fetchOr 0 eventRead) := ⟨by decide, rfl⟩
  have hpost : (EventState.init.fetchOr 0 eventRead).Step (.post 0)
      ((EventState.init.fetchOr 0 eventRead).post 0) := ⟨by decide, rfl⟩
  exact event_dispatch ((Exec.Run.nil.snoc hread).snoc hpost)

end MTRpc
