import MTRpc.Rpc.ServerControllers

/-!
# The backlog of the server

`SendMessage` compares the length of `pending` with `HTTP_MAX_REQUEST_PENDING`, but only behind a
test that has returned already when `pending` is not empty: no request is ever refused.

Along a run, each request that comes to `SendMessage` makes `pending` longer by one, and it becomes
shorter only when its last call is answered or the connection ends (`length_pending_le`).  So the
backlog is bounded along exactly those runs in which no request comes to `SendMessage` while
`pending` is full (`boundedBacklog_iff`), and there are runs with any number of waiting calls
(`exists_run_pending`).
-/

namespace MTRpc

open ServerConnect

variable {Req Res : Type}

/-- The call is not put into the queue, and `HTTP_REQUEST_OVERFLOW` is sent instead. -/
structure Refuses (w w' : ServerWorld Req Res) : Prop where
  pending : w'.owner.pending = w.owner.pending
  status : w'.resheader.status = ErrorCode.httpRequestOverflow.code
  closes : w'.stream.closeWhenEmpty = true

/-- No more than `HTTP_MAX_REQUEST_PENDING + 1` controllers wait, and a request that comes to
`SendMessage` while that many wait is refused. -/
structure BoundedBacklog (h : List (ServerWorld Req Res × ServerAct Req Res))
    (w : ServerWorld Req Res) : Prop where
  bounded : Exec.Always (fun w => w.owner.pending.length ≤ httpMaxRequestPending + 1) h w
  refused : ∀ u env, (u, ServerAct.recived env) ∈ h → (handed env u).isSome →
    u.owner.pending.length = httpMaxRequestPending + 1 → Refuses u (u.act (.recived env))

/-- No request comes to `SendMessage` while `HTTP_MAX_REQUEST_PENDING + 1` controllers wait. -/
def KeepsBacklog (w : ServerWorld Req Res) : ServerAct Req Res → Prop
  | .recived env => (handed env w).isSome → w.owner.pending.length ≤ httpMaxRequestPending
  | _ => True

/-! ## The length of the queue -/

lemma length_pending_recived (env : ServerEnv Req Res) (w : ServerWorld Req Res) :
    (w.act (.recived env)).owner.pending.length
      = w.owner.pending.length + if (handed env w).isSome then 1 else 0 := by
  change (onMessageRecived env w).owner.pending.length = _
  rcases onMessageRecived_effect env w with ⟨hno, -, h⟩ | ⟨hno, -, h⟩ | ⟨messages, hsome, -, h⟩
  · rw [h.pending, hno]
    rfl
  · rw [h.pending, hno]
    rfl
  · rw [h.pending, Option.mem_def.mp hsome, List.length_append]
    rfl

open Classical in
/-- The queue becomes shorter with its last call only: a call that comes to the front is put behind
the others once more. -/
lemma length_pending_sended (env : ServerEnv Req Res) (bufferSize : ℤ) (w : ServerWorld Req Res) :
    (w.act (.sended env bufferSize)).owner.pending.length
      = if w.Completes bufferSize ∧ w.owner.pending.length = 1 then 0
        else w.owner.pending.length := by
  change (onMessageSended env bufferSize w).owner.pending.length = _
  rcases onMessageSended_cases env bufferSize w with ⟨hno, hk⟩ | ⟨hcompletes, hlast | hmore⟩
  · rw [hk.pending, if_neg fun h => hno h.1]
  · obtain ⟨id, hp, hpop⟩ := hlast
    rw [hpop.pending, if_pos ⟨hcompletes, by rw [hp]; rfl⟩]
    rfl
  · obtain ⟨id, next, rest, hp, hpop⟩ := hmore
    rw [hpop.pending, hp, if_neg (by simp)]
    simp

/-- The queue never becomes shorter without becoming empty. -/
lemma length_pending_le (w : ServerWorld Req Res) (a : ServerAct Req Res) :
    (w.act a).owner.pending = [] ∨ w.owner.pending.length ≤ (w.act a).owner.pending.length := by
  cases a with
  | stream s reqheader => exact .inr le_rfl
  | recived env =>
    rw [length_pending_recived]
    exact .inr (Nat.le_add_right _ _)
  | sended env bufferSize =>
    rw [← List.length_eq_zero_iff, length_pending_sended]
    split
    · exact .inl rfl
    · exact .inr le_rfl
  | error code =>
    change (onMessageError code w).owner.pending = [] ∨
      w.owner.pending.length ≤ (onMessageError code w).owner.pending.length
    rw [onMessageError_owner]
    exact .inr le_rfl
  | close => exact .inl rfl

/-! ## Runs -/

section

variable {h : List (ServerWorld Req Res × ServerAct Req Res)} {w w' : ServerWorld Req Res}
  {a : ServerAct Req Res}

lemma length_pending_step (hle : w.owner.pending.length ≤ httpMaxRequestPending + 1)
    (hok : KeepsBacklog w a) (hst : ServerWorld.Step w a w') :
    w'.owner.pending.length ≤ httpMaxRequestPending + 1 := by
  obtain ⟨-, rfl⟩ := hst
  cases a with
  | stream s reqheader => exact hle
  | recived env =>
    rw [length_pending_recived]
    split
    · rename_i hhanded
      exact Nat.succ_le_succ (hok hhanded)
    · exact hle
  | sended env bufferSize =>
    rw [length_pending_sended]
    split
    · exact Nat.zero_le _
    · exact hle
  | error code =>
    change (onMessageError code w).owner.pending.length ≤ _
    rw [onMessageError_owner]
    exact hle
  | close => exact Nat.zero_le _

/-- A request that comes to `SendMessage` is put into a queue that is full. -/
lemma lt_length_pending_step (hno : ¬ KeepsBacklog w a) (hst : ServerWorld.Step w a w') :
    httpMaxRequestPending + 1 < w'.owner.pending.length := by
  obtain ⟨-, rfl⟩ := hst
  cases a with
  | recived env =>
    simp only [KeepsBacklog, not_forall, Nat.not_le] at hno
    obtain ⟨hhanded, hlong⟩ := hno
    rw [length_pending_recived, if_pos hhanded]
    exact Nat.succ_lt_succ hlong
  | stream s reqheader => exact absurd trivial hno
  | sended env bufferSize => exact absurd trivial hno
  | error code => exact absurd trivial hno
  | close => exact absurd trivial hno

/-- Along every run of a connect, the backlog is bounded exactly when no request comes to
`SendMessage` while `HTTP_MAX_REQUEST_PENDING + 1` controllers wait. -/
theorem boundedBacklog_iff (hrun : Exec.Run ServerWorld.Step ServerWorld.init h w) :
    BoundedBacklog h w ↔ Exec.Admits KeepsBacklog h := by
  have hiff : Exec.Always (fun w => w.owner.pending.length ≤ httpMaxRequestPending + 1) h w
      ↔ Exec.Admits KeepsBacklog h :=
    hrun.always_iff (Nat.zero_le _) (fun _ hle => hle) (fun _ _ _ => length_pending_step)
      fun _ _ _ _ hno hst => Nat.not_le.mpr (lt_length_pending_step hno hst)
  constructor
  · intro hb
    exact hiff.mp hb.bounded
  · intro hok
    refine ⟨hiff.mpr hok, ?_⟩
    -- no request comes while the queue is full
    intro u env hmem hhanded hfull
    have hle : u.owner.pending.length ≤ httpMaxRequestPending := hok _ hmem hhanded
    omega

end

/-! ## Any number of calls -/

/-- The header of a request is parsed, and the request is dispatched. -/
lemma exists_run_dispatched {h : List (ServerWorld Unit Unit × ServerAct Unit Unit)}
    {w : ServerWorld Unit Unit} (hrun : Exec.Run ServerWorld.Step ServerWorld.init h w)
    (hdown : w.owner.down = false) :
    ∃ (h' : List (ServerWorld Unit Unit × ServerAct Unit Unit)) (w' : ServerWorld Unit Unit),
      Exec.Run ServerWorld.Step ServerWorld.init h' w' ∧ w'.owner.down = false ∧
        w'.owner.pending.length = w.owner.pending.length + 1 := by
  have hparsed := hrun.snoc (a := .stream w.stream methodHeader) ⟨hdown, rfl⟩
  refine ⟨_, _, hparsed.snoc (a := .recived echoEnv) ⟨hdown, rfl⟩, ?_, ?_⟩
  · rcases onMessageRecived_cases echoEnv (w.act (.stream w.stream methodHeader)) with
      hk | ⟨seq, hd⟩
    · exact hk.down.trans hdown
    · exact hd.down.trans hdown
  · rw [length_pending_recived]
    rfl

/-- Any number of controllers can wait. -/
theorem exists_run_pending (n : ℕ) :
    ∃ (h : List (ServerWorld Unit Unit × ServerAct Unit Unit)) (w : ServerWorld Unit Unit),
      Exec.Run ServerWorld.Step ServerWorld.init h w ∧ w.owner.down = false ∧
        w.owner.pending.length = n := by
  induction n with
  | zero => exact ⟨[], .init, .nil, rfl, rfl⟩
  | succ n ih =>
    obtain ⟨h, w, hrun, hdown, hlen⟩ := ih
    obtain ⟨h', w', hrun', hdown', hlen'⟩ := exists_run_dispatched hrun hdown
    exact ⟨h', w', hrun', hdown', by rw [hlen', hlen]⟩

/-- Seven requests wait. -/
theorem not_boundedBacklog :
    ¬ ∀ (Req Res : Type) (h : List (ServerWorld Req Res × ServerAct Req Res))
      (w : ServerWorld Req Res), Exec.Run ServerWorld.Step ServerWorld.init h w →
        BoundedBacklog h w := by
  intro hall
  obtain ⟨h, w, hrun, -, hlen⟩ := exists_run_pending (httpMaxRequestPending + 2)
  have hle := (hall Unit Unit h w hrun).bounded.last
  rw [hlen] at hle
  exact absurd hle (by decide)

/-- Two requests may wait. -/
theorem boundedBacklog_twoDispatched :
    BoundedBacklog twoHistory twoDispatched ↔ Exec.Admits KeepsBacklog twoHistory :=
  boundedBacklog_iff run_twoDispatched

end MTRpc
