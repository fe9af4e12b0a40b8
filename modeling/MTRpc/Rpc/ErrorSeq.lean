import MTRpc.Rpc.ServerControllers

/-!
# The numbers of error frames

`OnMessageError` gives its frame the number of the call at the front of `pending`, or 0 when the
queue is empty.  It is called for a request in two situations.  When the request fails before
`SendMessage` (its method is unknown, its body is not a message, or the service fails), its call
is not in the queue, and the number is that of another request.  When `SendMessage` cannot send
the response, the call is alone in the queue and the number is its own.

`errorSeq_iff` says that along a run all error frames name their requests exactly when each
request that fails before `SendMessage` has, by chance, the number of the front call.
-/

namespace MTRpc

variable {Req Res : Type}

namespace ServerConnect

/-- `OnMessageRecived` ends in `OnMessageError`. -/
def Fails (env : ServerEnv Req Res) (w : ServerWorld Req Res) : Prop :=
  match handed env w with
  | none => True
  | some messages => w.owner.pending = [] ∧ unsendable env messages w.stream.writebuf = true

instance (env : ServerEnv Req Res) (w : ServerWorld Req Res) : Decidable (Fails env w) :=
  match h : handed env w with
  | none => isTrue (by rw [Fails.eq_def, h]; trivial)
  | some messages =>
      decidable_of_iff (w.owner.pending = [] ∧ unsendable env messages w.stream.writebuf = true)
        (by rw [Fails.eq_def, h])

/-- A request that does not come to `SendMessage` ends in `OnMessageError`; the others go there
with a new controller. -/
lemma onMessageRecived_ends (env : ServerEnv Req Res) (w : ServerWorld Req Res) :
    (handed env w = none ∧ ∃ (code : ErrorCode) (w' : ServerWorld Req Res),
        onMessageRecived env w = onMessageError code w' ∧
        w'.owner.pending = w.owner.pending ∧
        (∀ id ≠ w.owner.next, w'.owner.cntl id = w.owner.cntl id) ∧
        w'.stream.writebuf = w.stream.writebuf) ∨
      ∃ (messages : Option (Req × Res)) (c : RpcServerController Req Res)
        (w' : ServerWorld Req Res), handed env w = some messages ∧ c.seq = w.reqheader.getSeq ∧
        onMessageRecived env w = sendMessage env w.owner.next messages (w'.modifyOwner fun s =>
          (s.newCntl c).record (.dispatch w.owner.next c.seq)) ∧
        w'.owner.pending = w.owner.pending ∧ w'.owner.next = w.owner.next ∧
        w'.stream.writebuf = w.stream.writebuf ∧
        w'.stream.closeWhenEmpty = w.stream.closeWhenEmpty := by
  rw [onMessageRecived, handed]
  dsimp only
  by_cases hpath : w.reqheader.path.length ≤ 1
  · simp only [if_pos hpath]
    exact Or.inr ⟨none, _, w, rfl, rfl, rfl, rfl, rfl, rfl, rfl⟩
  simp only [if_neg hpath]
  have hname : (w.reqheader.path.drop 1).length ≠ 0 := by
    rw [List.length_drop]
    omega
  simp only [if_neg hname]
  cases env.getServiceAndMethod (w.reqheader.path.drop 1) with
  | none => exact Or.inl ⟨rfl, _, w, rfl, rfl, fun _ _ => rfl, rfl⟩
  | some method =>
    dsimp only
    cases hparse : method.parse w.stream.readbuf.beginPacket.parseFromZeroCopyStream.1 with
    | none => exact Or.inl ⟨by simp [hparse], _, _, rfl, rfl, fun _ _ => rfl, rfl⟩
    | some request =>
      dsimp only
      cases hcall : method.callMethod request with
      | none =>
        -- the controller is created and deleted
        refine Or.inl ⟨by simp [hparse, hcall], _, _, rfl, rfl, fun id hid => ?_, rfl⟩
        exact Function.update_of_ne hid _ _
      | some response =>
        refine Or.inr ⟨some (request, response),
          { seq := w.reqheader.getSeq, messages := some (request, response) }, _,
          by simp [hparse, hcall], rfl, rfl, rfl, rfl, rfl, rfl⟩

/-- A request that comes to `SendMessage` is put into the queue. -/
lemma pending_handed {env : ServerEnv Req Res} {w : ServerWorld Req Res}
    {messages : Option (Req × Res)} (h : handed env w = some messages) :
    (onMessageRecived env w).owner.pending = w.owner.pending ++ [w.owner.next] := by
  rcases onMessageRecived_ends env w with ⟨hnone, -⟩ | ⟨messages', c, w', -, -, heq, hp, -⟩
  · rw [hnone] at h
    exact absurd h (by simp)
  · rw [heq, ← hp]
    by_cases hempty : w'.owner.pending = []
    · exact (sendMessage_packs env w.owner.next messages' (w := w'.modifyOwner
        fun s => (s.newCntl c).record (.dispatch w.owner.next c.seq)) hempty).2.2.1
    · exact congrArg _ (sendMessage_waits env w.owner.next messages'
        (w := w'.modifyOwner fun s => (s.newCntl c).record (.dispatch w.owner.next c.seq)) hempty)

/-- A response that cannot be sent is replaced by an error, when its call is alone in the queue. -/
lemma sendMessage_unsendable (env : ServerEnv Req Res) (id : ℕ) (messages : Option (Req × Res))
    {w : ServerWorld Req Res} (hp : w.owner.pending = [])
    (hbad : unsendable env messages w.stream.writebuf = true) :
    ∃ code w', sendMessage env id messages w = sendError code id w' ∧
      w'.owner = w.owner.push id := by
  rw [sendMessage, if_neg (by simp [hp]), if_neg (by simp [hp])]
  rw [unsendable.eq_def] at hbad
  cases messages with
  | none =>
    have hfull : (w.stream.writebuf.reset.reserve maxHeaderSize).1 = false := by simpa using hbad
    dsimp only
    rw [sendList]
    dsimp only
    rw [if_pos (by exact hfull)]
    exact ⟨_, _, rfl, rfl⟩
  | some messages =>
    dsimp only at hbad ⊢
    rw [sendResponse]
    dsimp only
    by_cases hfull : (w.stream.writebuf.reset.reserve maxHeaderSize).1 = false
    · rw [if_pos (by exact hfull)]
      exact ⟨_, _, rfl, rfl⟩
    · have hserial : (env.serialize messages.2
          (w.stream.writebuf.reset.reserve maxHeaderSize).2.alignWritePos.beginPacket).1 = false := by
        simpa [hfull] using hbad
      rw [if_neg (by exact hfull), if_pos (by exact hserial)]
      exact ⟨_, _, rfl, rfl⟩

/-- With an empty queue the error carries 0. -/
lemma onMessageError_seq_nil (code : ErrorCode) {w : ServerWorld Req Res}
    (hp : w.owner.pending = []) :
    seqHeader (onMessageError code w).resheader = some (decimal 0) := by
  have hheader : (onMessageError code w).resheader
      = ((w.resheader.reset.setSeq 0).setStatus code.code code.errorString).setContentLength 0 := by
    rw [onMessageError, hp]
    rfl
  rw [hheader, seqHeader_setContentLength, seqHeader_setStatus, seqHeader_setSeq]

/-- The error in place of a response carries the number of its call. -/
lemma sendError_seq (code : ErrorCode) {id : ℕ} {w : ServerWorld Req Res}
    (hp : w.owner.pending = [id]) :
    seqHeader (sendError code id w).resheader = some (decimal (w.owner.cntl id).seq) :=
  onMessageError_seq code hp

/-! ## The flag of the stream -/

lemma putResponse_closeWhenEmpty (id : ℕ) (packetStart bodyStart : Iterator)
    (w : ServerWorld Req Res) :
    (putResponse id packetStart bodyStart w).stream.closeWhenEmpty = w.stream.closeWhenEmpty := by
  simp only [putResponse, World.modifyStream, World.modifyBuf, World.modifyOwner, World.modifyRes,
    Stream.modEventAsync]

/-- A response that can be sent leaves the flag of the stream alone. -/
lemma sendMessage_sendable (env : ServerEnv Req Res) (id : ℕ) (messages : Option (Req × Res))
    {w : ServerWorld Req Res}
    (hok : w.owner.pending = [] → unsendable env messages w.stream.writebuf = false) :
    (sendMessage env id messages w).stream.closeWhenEmpty = w.stream.closeWhenEmpty := by
  rw [sendMessage]
  by_cases hp : w.owner.pending = []
  · have hok := hok hp
    rw [unsendable.eq_def] at hok
    rw [if_neg (by simp [hp]), if_neg (by simp [hp])]
    cases messages with
    | none =>
      have hroom : ¬ (w.stream.writebuf.reset.reserve maxHeaderSize).1 = false := by simpa using hok
      dsimp only
      rw [sendList]
      dsimp only
      rw [if_neg (by exact hroom)]
      rfl
    | some messages =>
      dsimp only at hok ⊢
      rw [sendResponse]
      dsimp only
      simp only [Bool.or_eq_false_iff, Bool.not_eq_false'] at hok
      have hroom : ¬ (w.stream.writebuf.reset.reserve maxHeaderSize).1 = false := by simp [hok.1]
      have hserial : ¬ (env.serialize messages.2
          (w.stream.writebuf.reset.reserve maxHeaderSize).2.alignWritePos.beginPacket).1 = false := by
        simp [hok.2]
      rw [if_neg (by exact hroom), if_neg (by exact hserial), putResponse_closeWhenEmpty]
      rfl
  · rw [if_pos hp]
    rfl

/-- `OnMessageRecived` marks the stream exactly when it ends in `OnMessageError`. -/
lemma closeWhenEmpty_recived (env : ServerEnv Req Res) (w : ServerWorld Req Res) :
    (onMessageRecived env w).stream.closeWhenEmpty = true ↔
      Fails env w ∨ w.stream.closeWhenEmpty = true := by
  rw [Fails.eq_def]
  rcases onMessageRecived_ends env w with ⟨hnone, code, w', heq, -⟩ |
    ⟨messages, c, w', hsome, -, heq, hp, -, hbuf, hclose⟩
  · rw [hnone, heq]
    exact ⟨fun _ => Or.inl trivial, fun _ => rfl⟩
  · rw [hsome, heq]
    dsimp only
    by_cases hbad : w.owner.pending = [] ∧ unsendable env messages w.stream.writebuf = true
    · obtain ⟨code, w'', heq', -⟩ := sendMessage_unsendable env w.owner.next messages
        (w := w'.modifyOwner fun s => (s.newCntl c).record (.dispatch w.owner.next c.seq))
        (hp.trans hbad.1) ((congrArg _ hbuf).trans hbad.2)
      rw [heq']
      exact ⟨fun _ => Or.inl hbad, fun _ => rfl⟩
    · rw [sendMessage_sendable, World.modifyOwner, hclose]
      · exact ⟨Or.inr, fun h => h.resolve_left hbad⟩
      · intro hempty
        have hsame := congrArg (unsendable env messages) hbuf
        refine Bool.eq_false_iff.mpr fun htrue => hbad ⟨hp.symm.trans hempty, ?_⟩
        exact hsame.symm.trans htrue

end ServerConnect

open ServerConnect

/-! ## Runs -/

/-- When a request ends in `OnMessageError`, the number of the error frame is read from a call
that has not been deleted, if from any, and is the number of the request. -/
def NamesRequest (w : ServerWorld Req Res) : ServerAct Req Res → Prop
  | .recived env => Fails env w →
      (∀ id ∈ w.owner.pending.head?, id ∉ w.owner.deleted) ∧
        seqHeader (onMessageRecived env w).resheader = some (decimal w.reqheader.getSeq)
  | _ => True

/-- A request that does not come to `SendMessage` has the number of the front call, which has not
been deleted, or the number 0 when no call is in the queue. -/
def FrontNamed (w : ServerWorld Req Res) : ServerAct Req Res → Prop
  | .recived env => handed env w = none →
      match w.owner.pending with
      | [] => w.reqheader.getSeq = 0
      | id :: _ => id ∉ w.owner.deleted ∧ (w.owner.cntl id).seq = w.reqheader.getSeq
  | _ => True

lemma decimal_inj {m n : ℕ} : decimal m = decimal n ↔ m = n := by
  refine ⟨?_, fun h => h ▸ rfl⟩
  intro h
  have hm := digitsValue_decimal m (u := []) (by simp)
  have hn := digitsValue_decimal n (u := []) (by simp)
  rw [← hm, ← hn, List.append_nil, List.append_nil, h]

/-- The calls in the queue have been created. -/
def PendingMade (w : ServerWorld Req Res) : Prop := ∀ id ∈ w.owner.pending, id < w.owner.next

lemma pendingMade_step {w w' : ServerWorld Req Res} {a : ServerAct Req Res} (h : PendingMade w)
    (hst : ServerWorld.Step w a w') : PendingMade w' := by
  obtain ⟨-, rfl⟩ := hst
  cases a with
  | stream s reqheader => exact h
  | error code =>
    rw [PendingMade, ServerWorld.act, onMessageError_owner]
    exact h
  | close => exact fun id hid => absurd hid List.not_mem_nil
  | recived env =>
    intro id hid
    rcases onMessageRecived_cases env w with hk | ⟨seq, hd⟩
    · rw [ServerWorld.act, hk.pending] at hid
      exact (h id hid).trans_le hk.next
    · rw [ServerWorld.act, hd.pending, List.mem_append, List.mem_singleton] at hid
      rw [ServerWorld.act, hd.next]
      rcases hid with hid | rfl
      · exact (h id hid).trans (Nat.lt_succ_self _)
      · exact Nat.lt_succ_self _
  | sended env bufferSize =>
    intro id hid
    rcases onMessageSended_cases env bufferSize w with ⟨-, hk⟩ | ⟨-, hlast | hmore⟩
    · rw [ServerWorld.act, hk.pending] at hid
      exact (h id hid).trans_le hk.next
    · obtain ⟨_, -, hpop⟩ := hlast
      rw [ServerWorld.act, hpop.pending] at hid
      exact absurd hid List.not_mem_nil
    · obtain ⟨first, next, rest, hp, hpop⟩ := hmore
      rw [ServerWorld.act, hpop.pending] at hid
      rw [ServerWorld.act, hpop.next]
      refine h id ?_
      rw [hp]
      simp only [List.cons_append, List.mem_cons, List.mem_append, List.not_mem_nil,
        or_false] at hid ⊢
      tauto

/-- One request: the error frame names it exactly when it has the number of the front call. -/
lemma namesRequest_iff {w : ServerWorld Req Res} {a : ServerAct Req Res} (h : PendingMade w) :
    NamesRequest w a ↔ FrontNamed w a := by
  cases a with
  | stream s reqheader => exact Iff.rfl
  | error code => exact Iff.rfl
  | close => exact Iff.rfl
  | sended env bufferSize => exact Iff.rfl
  | recived env =>
    simp only [NamesRequest, FrontNamed, Fails.eq_def]
    rcases onMessageRecived_ends env w with ⟨hnone, code, w', heq, hp, hcntl, -⟩ |
      ⟨messages, c, w', hsome, hseq, heq, hp, hnext, hbuf, -⟩
    · -- the number of the front call
      simp only [hnone, heq, forall_const]
      cases hpending : w.owner.pending with
      | nil =>
        rw [onMessageError_seq_nil code (hp.trans hpending), Option.some_inj, decimal_inj]
        simp [eq_comm]
      | cons id rest =>
        have hne : id ≠ w.owner.next := (h id (by simp [hpending])).ne
        rw [onMessageError_seq code (hp.trans hpending), hcntl id hne, Option.some_inj, decimal_inj]
        simp
    · -- the number of the call itself
      simp only [hsome, reduceCtorEq, false_implies, iff_true]
      rintro ⟨hempty, hbad⟩
      refine ⟨by simp [hempty], ?_⟩
      obtain ⟨code, w'', heq', howner⟩ := sendMessage_unsendable env w.owner.next messages
        (w := w'.modifyOwner fun s => (s.newCntl c).record (.dispatch w.owner.next c.seq))
        (hp.trans hempty) ((congrArg _ hbuf).trans hbad)
      have hpending : w''.owner.pending = [w.owner.next] := by
        simp [howner, newCntl, record, push, hp, hempty]
      have hcntl : (w''.owner.cntl w.owner.next) = c := by
        simp [howner, newCntl, record, push, hnext]
      rw [heq, heq', sendError_seq code hpending, hcntl, hseq]

/-- Along every run of a connect, the error frames for requests have the numbers of their requests
if and only if each request that does not come to `SendMessage` has the number of the front call,
or 0 when no call is in the queue. -/
theorem errorSeq_iff {h : List (ServerWorld Req Res × ServerAct Req Res)}
    {w : ServerWorld Req Res} (hrun : Exec.Run ServerWorld.Step ServerWorld.init h w) :
    Exec.Admits NamesRequest h ↔ Exec.Admits FrontNamed h := by
  have hmade : Exec.Always PendingMade h w :=
    hrun.always_all (fun id hid => absurd hid List.not_mem_nil) fun _ _ _ => pendingMade_step
  exact forall₂_congr fun p hp => namesRequest_iff (hmade.1 p hp)

/-! ## A method that does not exist -/

/-- A server without methods. -/
def noMethodEnv : ServerEnv Unit Unit := { echoEnv with getServiceAndMethod := fun _ => none }

/-- The header of a request for a method, with the number 7. -/
def numberedHeader : HttpRequestHeader :=
  { methodHeader with toHttpHeader := methodHeader.toHttpHeader.setSeq 7 }

lemma getSeq_numberedHeader : numberedHeader.getSeq = 7 := by
  have hheader : numberedHeader.headers[HttpHeader.seqKey]? = some (decimal 7) :=
    Std.ExtTreeMap.getElem?_insert_self
  have hvalue := strtoull_decimal (n := 7) (u := []) (by simp) (by simp) (by omega)
  rw [List.append_nil] at hvalue
  rw [HttpHeader.getSeq, hheader]
  exact hvalue

/-- A fresh connect whose stream has parsed this header. -/
def numberedParsed : ServerWorld Unit Unit := ServerWorld.init.act (.stream .init numberedHeader)

/-- The run in which the request is taken. -/
def noMethodHistory : List (ServerWorld Unit Unit × ServerAct Unit Unit) :=
  [(ServerWorld.init, .stream .init numberedHeader), (numberedParsed, .recived noMethodEnv)]

lemma run_noMethodHistory : Exec.Run ServerWorld.Step ServerWorld.init noMethodHistory
    (numberedParsed.act (.recived noMethodEnv)) := by
  have hone : Exec.Run ServerWorld.Step ServerWorld.init
      [(ServerWorld.init, .stream .init numberedHeader)] numberedParsed :=
    Exec.Run.nil.snoc ⟨rfl, rfl⟩
  exact hone.snoc ⟨rfl, rfl⟩

/-- The error for the request with the number 7 has the number 0. -/
theorem not_errorSeq :
    ¬ ∀ (Req Res : Type) (h : List (ServerWorld Req Res × ServerAct Req Res))
      (w : ServerWorld Req Res), Exec.Run ServerWorld.Step ServerWorld.init h w →
        Exec.Admits NamesRequest h := by
  intro hall
  have hnames := hall Unit Unit _ _ run_noMethodHistory
    (numberedParsed, .recived noMethodEnv) (by simp [noMethodHistory])
  have hmade : PendingMade numberedParsed := fun id hid => absurd hid List.not_mem_nil
  have hfront : numberedHeader.getSeq = 0 := (namesRequest_iff hmade).mp hnames rfl
  rw [getSeq_numberedHeader] at hfront
  exact absurd hfront (by decide)

/-- The run of a request for a method that does not exist. -/
theorem errorSeq_noMethod :
    Exec.Admits NamesRequest noMethodHistory ↔ Exec.Admits FrontNamed noMethodHistory :=
  errorSeq_iff run_noMethodHistory

end MTRpc
