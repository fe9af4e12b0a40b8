import MTRpc.Lib.Touches
import MTRpc.Rpc.ServerRuns

/-!
# The controllers of the server

A controller is created for a request, waits in `pending` and is deleted when its packet is
sent, when the service fails, or when the connection ends.  The functions of `ServerConnect` are
given once more as the accesses that they make to controllers (`ServerAct.touches`); what these
create and delete is what the functions do (`run_trace`).

`ownedOnce_iff` says along which runs each controller is owned once: those in which `SendMessage`
never deletes the call that it has just pushed, and `OnMessageSended` completes a call only while
no other waits.
-/

namespace MTRpc

open Touch (Safe)

variable {Req Res : Type}

/-! ## The accesses -/

namespace ServerConnect

/-- In an empty queue, `SendMessage` fails: there is no room for the header, or the response
cannot be serialised. -/
def unsendable (env : ServerEnv Req Res) (messages : Option (Req × Res)) (buf : WriteBuffer) :
    Bool :=
  let reserved := buf.reset.reserve maxHeaderSize
  !reserved.1 ||
    match messages with
    | none => false
    | some (_, response) => !(env.serialize response reserved.2.alignWritePos.beginPacket).1

/-- `OnMessageError`: the number of the front call. -/
def errorTouches (pending : List ℕ) : List (Touch ℕ) := pending.head?.toList.map .use

/-- `SendMessage`: the number of the call, and then its body or the size of its packet. -/
def sendTouches (env : ServerEnv Req Res) (id : ℕ) (messages : Option (Req × Res))
    (pending : List ℕ) (buf : WriteBuffer) : List (Touch ℕ) :=
  if pending ≠ [] then []
  else if httpMaxRequestPending < pending.length then errorTouches pending
  else if unsendable env messages buf then
    .use id :: errorTouches (pending ++ [id]) ++ [.delete id]
  else [.use id, .use id]

/-- `OnMessageRecived` and `OnListServer`. -/
def recivedTouches (env : ServerEnv Req Res) (w : ServerWorld Req Res) : List (Touch ℕ) :=
  let id := w.owner.next
  let pending := w.owner.pending
  let path := w.reqheader.path
  if path.length ≤ 1 then
    .create id :: .use id :: sendTouches env id none pending w.stream.writebuf
  else if (path.drop 1).length = 0 then errorTouches pending
  else
    match env.getServiceAndMethod (path.drop 1) with
    | none => errorTouches pending
    | some method =>
        match method.parse w.stream.readbuf.beginPacket.parseFromZeroCopyStream.1 with
        | none => errorTouches pending
        | some request =>
            match method.callMethod request with
            | none => .create id :: .use id :: .delete id :: errorTouches pending
            | some response =>
                .create id :: .use id ::
                  sendTouches env id (some (request, response)) pending w.stream.writebuf

/-- `OnMessageSended`: the counts of the front call, and then the messages of the next one. -/
def sendedTouches (bufferSize : ℤ) (w : ServerWorld Req Res) : List (Touch ℕ) :=
  match w.owner.pending with
  | [] => []
  | id :: rest =>
      if w.stream.closeWhenEmpty then []
      else if (w.owner.cntl id).resSendSize + UInt32.ofInt bufferSize
          < (w.owner.cntl id).resPackSize then [.use id]
      else .use id :: .delete id :: rest.head?.toList.map .use

/-- `OnClose` -/
def closeTouches (pending : List ℕ) : List (Touch ℕ) :=
  pending.flatMap fun id => [.use id, .delete id]

/-- What `OnMessageRecived` hands to `SendMessage` with a new controller: the messages, or
nothing for the list of services; `none` when it does not come to that. -/
def handed (env : ServerEnv Req Res) (w : ServerWorld Req Res) : Option (Option (Req × Res)) :=
  if w.reqheader.path.length ≤ 1 then some none
  else do
    let method ← env.getServiceAndMethod (w.reqheader.path.drop 1)
    let request ← method.parse w.stream.readbuf.beginPacket.parseFromZeroCopyStream.1
    let response ← method.callMethod request
    return some (request, response)

end ServerConnect

open ServerConnect

/-- The accesses of an action. -/
def ServerAct.touches (w : ServerWorld Req Res) : ServerAct Req Res → List (Touch ℕ)
  | .stream _ _ => []
  | .recived env => recivedTouches env w
  | .sended _ bufferSize => sendedTouches bufferSize w
  | .error _ => errorTouches w.owner.pending
  | .close => closeTouches w.owner.pending

/-- The accesses of a run. -/
def trace (h : List (ServerWorld Req Res × ServerAct Req Res)) : List (Touch ℕ) :=
  h.flatMap fun p => p.2.touches p.1

/-- No deleted controller is in the queue, and none is there twice. -/
def PendingOwned (w : ServerWorld Req Res) : Prop :=
  w.owner.pending.Nodup ∧ ∀ id ∈ w.owner.pending, id ∉ w.owner.deleted

/-- Each controller is owned once: no deleted one is used or deleted again, the queue holds none
and none twice, and when the connect is gone, all have been deleted once. -/
structure OwnedOnce (h : List (ServerWorld Req Res × ServerAct Req Res))
    (w : ServerWorld Req Res) : Prop where
  safe : Safe [] [] (trace h)
  pending : Exec.Always PendingOwned h w
  closed : w.owner.down = true →
    ∀ id ∈ Touch.created (trace h), (Touch.deleted (trace h)).count id = 1

/-- `SendMessage` does not fail for a call that finds the queue empty, and `OnMessageSended`
completes a call only when no other waits. -/
def KeepsOwned (w : ServerWorld Req Res) : ServerAct Req Res → Prop
  | .recived env => w.owner.pending = [] →
      ∀ messages ∈ handed env w, unsendable env messages w.stream.writebuf = false
  | .sended _ bufferSize => w.Completes bufferSize → w.owner.pending.length ≤ 1
  | _ => True

/-! ## What the functions do -/

namespace ServerConnect

/-- The accesses `tr` and the queue `pending` are those of a function that takes the connect from
`s` to `s'`. -/
structure Effect (tr : List (Touch ℕ)) (pending : List ℕ) (s s' : ServerConnect Req Res) :
    Prop where
  pending : s'.pending = pending
  next : List.range s'.next = List.range s.next ++ Touch.created tr
  deleted : s'.deleted = s.deleted ++ Touch.deleted tr

@[simp] lemma created_errorTouches (pending : List ℕ) : Touch.created (errorTouches pending) = [] :=
  Touch.created_uses _

@[simp] lemma deleted_errorTouches (pending : List ℕ) : Touch.deleted (errorTouches pending) = [] :=
  Touch.deleted_uses _

/-- Nothing but uses. -/
lemma effect_quiet {tr : List (Touch ℕ)} {s s' : ServerConnect Req Res}
    (hc : Touch.created tr = []) (hd : Touch.deleted tr = []) (hpending : s'.pending = s.pending)
    (hnext : s'.next = s.next) (hdeleted : s'.deleted = s.deleted) :
    Effect tr s.pending s s' where
  pending := hpending
  next := by rw [hc, hnext, List.append_nil]
  deleted := by rw [hd, hdeleted, List.append_nil]

lemma onMessageError_effect (code : ErrorCode) {w : ServerWorld Req Res}
    {s : ServerConnect Req Res} (hpending : w.owner.pending = s.pending)
    (hnext : w.owner.next = s.next) (hdeleted : w.owner.deleted = s.deleted) :
    Effect (errorTouches s.pending) s.pending s (onMessageError code w).owner := by
  rw [onMessageError_owner]
  exact effect_quiet (created_errorTouches _) (deleted_errorTouches _) hpending hnext hdeleted

/-- A controller that is deleted again before the error. -/
lemma onMessageError_effect_deleted (code : ErrorCode) (c : RpcServerController Req Res)
    {w : ServerWorld Req Res} {s : ServerConnect Req Res}
    (hpending : w.owner.pending = s.pending) (hnext : w.owner.next = s.next)
    (hdeleted : w.owner.deleted = s.deleted) :
    Effect (.create s.next :: .use s.next :: .delete s.next :: errorTouches s.pending) s.pending s
      (onMessageError code (w.modifyOwner fun s => (s.newCntl c).delete w.owner.next)).owner := by
  rw [onMessageError_owner, hnext]
  refine ⟨hpending, ?_, ?_⟩
  · rw [Touch.created_create, Touch.created_use, Touch.created_delete, created_errorTouches,
      ← List.range_succ, ← hnext]
    rfl
  · rw [Touch.deleted_create, Touch.deleted_use, Touch.deleted_delete, deleted_errorTouches,
      ← hdeleted]
    rfl

lemma sendError_deleted (code : ErrorCode) (id : ℕ) (w : ServerWorld Req Res) :
    (sendError code id w).owner.deleted = w.owner.deleted ++ [id] := by
  simp [sendError, onMessageError_owner, record, delete]

lemma sendList_deleted (env : ServerEnv Req Res) (id : ℕ) (w : ServerWorld Req Res) :
    (sendList env id w).owner.deleted
      = w.owner.deleted ++ if (w.stream.writebuf.reserve maxHeaderSize).1 then [] else [id] := by
  rw [sendList]
  dsimp only
  by_cases hreserve : (w.stream.writebuf.reserve maxHeaderSize).1 = false
  · rw [if_pos (by exact hreserve), sendError_deleted, hreserve]
    rfl
  · rw [if_neg (by exact hreserve), Bool.eq_true_of_not_eq_false hreserve]
    exact (List.append_nil _).symm

lemma sendResponse_deleted (env : ServerEnv Req Res) (id : ℕ) (response : Res)
    (w : ServerWorld Req Res) :
    (sendResponse env id response w).owner.deleted
      = w.owner.deleted ++
        if (w.stream.writebuf.reserve maxHeaderSize).1 && (env.serialize response
          (w.stream.writebuf.reserve maxHeaderSize).2.alignWritePos.beginPacket).1
        then [] else [id] := by
  rw [sendResponse]
  dsimp only
  by_cases hreserve : (w.stream.writebuf.reserve maxHeaderSize).1 = false
  · rw [if_pos hreserve, sendError_deleted, hreserve]
    rfl
  rw [if_neg hreserve, Bool.eq_true_of_not_eq_false hreserve, Bool.true_and]
  by_cases hserial : (env.serialize response
      (w.stream.writebuf.reserve maxHeaderSize).2.alignWritePos.beginPacket).1 = false
  · rw [if_pos (by exact hserial), sendError_deleted, hserial]
    rfl
  · rw [if_neg (by exact hserial), Bool.eq_true_of_not_eq_false hserial]
    exact (List.append_nil _).symm

/-- A call that finds the queue empty is deleted when it cannot be sent. -/
lemma sendMessage_deleted (env : ServerEnv Req Res) (id : ℕ) (messages : Option (Req × Res))
    {w : ServerWorld Req Res} (hp : w.owner.pending = []) :
    (sendMessage env id messages w).owner.deleted
      = w.owner.deleted ++ if unsendable env messages w.stream.writebuf then [id] else [] := by
  rw [sendMessage, if_neg (by simp [hp]), if_neg (by simp [hp]), unsendable.eq_def]
  cases messages with
  | none =>
    refine (sendList_deleted env id _).trans ?_
    change w.owner.deleted ++ (if (w.stream.writebuf.reset.reserve maxHeaderSize).1 then [] else [id])
      = _
    cases hok : (w.stream.writebuf.reset.reserve maxHeaderSize).1 <;> simp [hok]
  | some messages =>
    refine (sendResponse_deleted env id messages.2 _).trans ?_
    change w.owner.deleted ++
      (if (w.stream.writebuf.reset.reserve maxHeaderSize).1 && (env.serialize messages.2
        (w.stream.writebuf.reset.reserve maxHeaderSize).2.alignWritePos.beginPacket).1
        then [] else [id]) = _
    rcases w.stream.writebuf.reset.reserve maxHeaderSize with ⟨ok, buf⟩
    cases ok <;> cases hok : (env.serialize messages.2 buf.alignWritePos.beginPacket).1 <;>
      simp [hok]

/-- `SendMessage` for a new call. -/
lemma sendMessage_effect (env : ServerEnv Req Res) (id : ℕ) (messages : Option (Req × Res))
    (w : ServerWorld Req Res) :
    Effect (sendTouches env id messages w.owner.pending w.stream.writebuf)
      (w.owner.pending ++ [id]) w.owner (sendMessage env id messages w).owner := by
  by_cases hp : w.owner.pending = []
  · obtain ⟨-, -, hpending, hnext, -⟩ := sendMessage_packs env id messages hp
    have htouches : sendTouches env id messages w.owner.pending w.stream.writebuf
        = if unsendable env messages w.stream.writebuf then [.use id, .use id, .delete id]
          else [.use id, .use id] := by
      rw [sendTouches, if_neg (by simp [hp]), if_neg (by simp [hp]), hp]
      rfl
    rw [htouches]
    refine ⟨hpending, ?_, ?_⟩
    · rw [show (sendMessage env id messages w).owner.next = w.owner.next from hnext]
      split <;> simp
    · rw [sendMessage_deleted env id messages hp]
      split <;> simp
  · rw [sendTouches, if_pos hp, sendMessage_waits env id messages hp]
    exact ⟨rfl, by simp [push], by simp [push]⟩

/-- `SendMessage` for a controller that is created for it. -/
lemma create_effect (env : ServerEnv Req Res) (c : RpcServerController Req Res)
    (messages : Option (Req × Res)) (w : ServerWorld Req Res) (e : ServerEvent) :
    Effect (.create w.owner.next :: .use w.owner.next ::
        sendTouches env w.owner.next messages w.owner.pending w.stream.writebuf)
      (w.owner.pending ++ [w.owner.next]) w.owner
      (sendMessage env w.owner.next messages
        (w.modifyOwner fun s => (s.newCntl c).record e)).owner := by
  obtain ⟨hpending, hnext, hdeleted⟩ := sendMessage_effect env w.owner.next messages
    (w.modifyOwner fun s => (s.newCntl c).record e)
  refine ⟨hpending, hnext.trans ?_, hdeleted⟩
  change List.range (w.owner.next + 1) ++ _ = _
  rw [List.range_succ, List.append_assoc]
  rfl

/-- `OnMessageRecived` reports an error, with or without a controller that is created and deleted,
or a new controller goes to `SendMessage`. -/
lemma onMessageRecived_effect (env : ServerEnv Req Res) (w : ServerWorld Req Res) :
    (handed env w = none ∧ recivedTouches env w = errorTouches w.owner.pending ∧
        Effect (recivedTouches env w) w.owner.pending w.owner (onMessageRecived env w).owner) ∨
      (handed env w = none ∧ recivedTouches env w = .create w.owner.next :: .use w.owner.next ::
          .delete w.owner.next :: errorTouches w.owner.pending ∧
        Effect (recivedTouches env w) w.owner.pending w.owner (onMessageRecived env w).owner) ∨
      ∃ messages ∈ handed env w, recivedTouches env w = .create w.owner.next ::
          .use w.owner.next ::
            sendTouches env w.owner.next messages w.owner.pending w.stream.writebuf ∧
        Effect (recivedTouches env w) (w.owner.pending ++ [w.owner.next]) w.owner
          (onMessageRecived env w).owner := by
  rw [onMessageRecived, recivedTouches, handed]
  dsimp only
  by_cases hpath : w.reqheader.path.length ≤ 1
  · simp only [if_pos hpath]
    exact Or.inr (Or.inr ⟨none, rfl, rfl, create_effect env _ none w _⟩)
  simp only [if_neg hpath]
  have hname : (w.reqheader.path.drop 1).length ≠ 0 := by
    rw [List.length_drop]
    omega
  simp only [if_neg hname]
  cases env.getServiceAndMethod (w.reqheader.path.drop 1) with
  | none => exact Or.inl ⟨rfl, rfl, onMessageError_effect _ rfl rfl rfl⟩
  | some method =>
    dsimp only
    cases hparse : method.parse w.stream.readbuf.beginPacket.parseFromZeroCopyStream.1 with
    | none => exact Or.inl ⟨by simp [hparse], rfl, onMessageError_effect _ rfl rfl rfl⟩
    | some request =>
      dsimp only
      cases hcall : method.callMethod request with
      | none =>
        exact Or.inr (Or.inl ⟨by simp [hparse, hcall], rfl,
          onMessageError_effect_deleted _ _ rfl rfl rfl⟩)
      | some response =>
        refine Or.inr (Or.inr ⟨some (request, response), ?_, rfl, ?_⟩)
        · simp [hparse, hcall]
        · obtain ⟨hpending, hnext, hdeleted⟩ := create_effect env
            { seq := w.reqheader.getSeq, messages := some (request, response) }
            (some (request, response)) ((w.modifyStream fun s =>
              { s with readbuf := w.stream.readbuf.beginPacket.parseFromZeroCopyStream.2 }).modifyOwner
                (·.record (.parse w.stream.readbuf.beginPacket.parseFromZeroCopyStream.1)))
            (.dispatch w.owner.next w.reqheader.getSeq)
          exact ⟨hpending, hnext, hdeleted⟩

/-- `OnMessageSended` completes the front call, or nothing changes for the calls. -/
lemma onMessageSended_effect (env : ServerEnv Req Res) (bufferSize : ℤ) (w : ServerWorld Req Res) :
    (¬ w.Completes bufferSize ∧
      (sendedTouches bufferSize w = [] ∨
        sendedTouches bufferSize w = w.owner.pending.head?.toList.map .use) ∧
      Effect (sendedTouches bufferSize w) w.owner.pending w.owner
        (onMessageSended env bufferSize w).owner) ∨
    w.Completes bufferSize ∧ ∃ id rest, w.owner.pending = id :: rest ∧
      sendedTouches bufferSize w = .use id :: .delete id :: rest.head?.toList.map .use ∧
      Effect (sendedTouches bufferSize w) (rest ++ rest.head?.toList) w.owner
        (onMessageSended env bufferSize w).owner := by
  rw [onMessageSended, sendedTouches, ServerWorld.Completes]
  cases hp : w.owner.pending with
  | nil =>
    exact Or.inl ⟨not_false, Or.inl rfl, hp, (List.append_nil _).symm, (List.append_nil _).symm⟩
  | cons id rest =>
    dsimp only
    by_cases hclose : w.stream.closeWhenEmpty = true
    · rw [if_pos hclose, if_pos hclose, ← hp]
      exact Or.inl ⟨by simp [hclose], Or.inl rfl, effect_quiet rfl rfl rfl rfl rfl⟩
    rw [if_neg hclose, if_neg hclose]
    by_cases hmore : (w.owner.cntl id).resSendSize + UInt32.ofInt bufferSize
        < (w.owner.cntl id).resPackSize
    · refine Or.inl ⟨fun h => absurd hmore (UInt32.not_lt.mpr h.2), Or.inr ?_, ?_⟩
      · rw [if_pos hmore]
        rfl
      rw [if_pos hmore, if_pos (by simpa [modifyCntl] using hmore), ← hp]
      exact effect_quiet rfl rfl rfl rfl rfl
    refine Or.inr ⟨⟨by simpa using hclose, UInt32.not_lt.mp hmore⟩, id, rest, rfl,
      by rw [if_neg hmore], ?_⟩
    rw [if_neg hmore, if_neg (by simpa [modifyCntl] using hmore)]
    cases rest with
    | nil => exact ⟨rfl, by simp [modifyCntl, delete], by simp [modifyCntl, delete]⟩
    | cons next rest =>
      dsimp only
      rw [sendMessage_waits _ _ _ (by simp [modifyCntl, delete])]
      exact ⟨rfl, by simp [modifyCntl, delete, push], by simp [modifyCntl, delete, push]⟩

end ServerConnect

/-! ## The invariant -/

/-- What an action creates and deletes is among its accesses. -/
lemma act_effect (w : ServerWorld Req Res) (a : ServerAct Req Res) :
    ∃ pending, Effect (a.touches w) pending w.owner (w.act a).owner := by
  cases a with
  | stream s reqheader => exact ⟨_, effect_quiet rfl rfl rfl rfl rfl⟩
  | recived env =>
    rcases onMessageRecived_effect env w with ⟨-, -, h⟩ | ⟨-, -, h⟩ | ⟨_, -, -, h⟩ <;> exact ⟨_, h⟩
  | sended env bufferSize =>
    rcases onMessageSended_effect env bufferSize w with ⟨-, -, h⟩ | ⟨-, _, _, -, -, h⟩ <;>
      exact ⟨_, h⟩
  | error code => exact ⟨_, onMessageError_effect code rfl rfl rfl⟩
  | close =>
    refine ⟨[], rfl, ?_, ?_⟩
    · rw [ServerAct.touches, closeTouches, Touch.created_release, List.append_nil]
      rfl
    · rw [ServerAct.touches, closeTouches, Touch.deleted_release]
      rfl

/-- What a run has created and deleted. -/
lemma run_trace {h : List (ServerWorld Req Res × ServerAct Req Res)} {w : ServerWorld Req Res}
    (hrun : Exec.Run ServerWorld.Step ServerWorld.init h w) :
    Touch.created (trace h) = List.range w.owner.next ∧
      Touch.deleted (trace h) = w.owner.deleted := by
  induction hrun with
  | nil => exact ⟨rfl, rfl⟩
  | @snoc h w _ a hrun hst ih =>
    obtain ⟨-, rfl⟩ := hst
    obtain ⟨pending, heffect⟩ := act_effect w a
    rw [trace, List.flatMap_append, List.flatMap_singleton, Touch.created_append,
      Touch.deleted_append, heffect.next, heffect.deleted]
    exact ⟨congrArg (· ++ _) ih.1, congrArg (· ++ _) ih.2⟩

/-- The controllers that were created are those in the queue and the deleted ones, each once. -/
def Owned (s : ServerConnect Req Res) : Prop :=
  (s.pending ++ s.deleted).Perm (List.range s.next)

namespace Owned

variable {s s' : ServerConnect Req Res} {tr : List (Touch ℕ)} {pending : List ℕ} {id : ℕ}

lemma alive (h : Owned s) : ∀ id ∈ s.pending, id ∈ List.range s.next ∧ id ∉ s.deleted := by
  intro id hid
  have hnodup := h.nodup_iff.mpr List.nodup_range
  exact ⟨h.subset (List.mem_append_left _ hid),
    fun hdel => (List.nodup_append.mp hnodup).2.2 id hid id hdel rfl⟩

lemma nodup (h : Owned s) : s.pending.Nodup :=
  (List.nodup_append.mp (h.nodup_iff.mpr List.nodup_range)).1

open scoped List in
/-- What keeps the created ones together. -/
lemma effect (h : Owned s) (he : Effect tr pending s s')
    (hp : (pending ++ Touch.deleted tr).Perm (s.pending ++ Touch.created tr)) : Owned s' := by
  rw [Owned, he.pending, he.next, he.deleted]
  calc pending ++ (s.deleted ++ Touch.deleted tr)
      ~ pending ++ (Touch.deleted tr ++ s.deleted) := (List.perm_append_comm).append_left _
    _ = pending ++ Touch.deleted tr ++ s.deleted := (List.append_assoc ..).symm
    _ ~ s.pending ++ Touch.created tr ++ s.deleted := hp.append_right _
    _ = s.pending ++ (Touch.created tr ++ s.deleted) := List.append_assoc ..
    _ ~ s.pending ++ (s.deleted ++ Touch.created tr) := (List.perm_append_comm).append_left _
    _ = s.pending ++ s.deleted ++ Touch.created tr := (List.append_assoc ..).symm
    _ ~ List.range s.next ++ Touch.created tr := h.append_right _

/-- The created ones are left as they are. -/
lemma effect_quiet (h : Owned s) (he : Effect tr s.pending s s') (hc : Touch.created tr = [])
    (hd : Touch.deleted tr = []) : Owned s' :=
  h.effect he (by rw [hc, hd])

lemma safe_head (h : Owned s) :
    Safe (List.range s.next) s.deleted (s.pending.head?.toList.map .use) := by
  refine Touch.safe_uses fun id hid => h.alive id ?_
  rw [Option.mem_toList] at hid
  exact List.mem_of_mem_head? hid

end Owned

/-- A call that can be sent, or has to wait, is only used. -/
lemma sendTouches_eq (env : ServerEnv Req Res) (id : ℕ) (messages : Option (Req × Res))
    (pending : List ℕ) (buf : WriteBuffer)
    (hok : pending = [] → unsendable env messages buf = false) :
    sendTouches env id messages pending buf
      = (if pending = [] then [id, id] else []).map .use := by
  by_cases hp : pending = []
  · rw [sendTouches, if_neg (not_not.mpr hp), if_neg (by simp [hp]), if_neg (by simp [hok hp]),
      if_pos hp]
    rfl
  · rw [sendTouches, if_pos hp, if_neg hp]
    rfl

/-- A call that finds the queue empty and cannot be sent is deleted. -/
lemma deleted_sendTouches (env : ServerEnv Req Res) (id : ℕ) (messages : Option (Req × Res))
    (buf : WriteBuffer) (hbad : unsendable env messages buf = true) :
    Touch.deleted (sendTouches env id messages [] buf) = [id] := by
  rw [sendTouches, if_neg (by simp), if_neg (by simp), if_pos hbad]
  rfl

section

variable {w w' : ServerWorld Req Res} {a : ServerAct Req Res}

/-- A new call stays in the queue. -/
lemma Owned.recived (h : Owned w.owner) {env : ServerEnv Req Res}
    (hok : KeepsOwned w (.recived env)) :
    Safe (List.range w.owner.next) w.owner.deleted (recivedTouches env w) ∧
      Owned (onMessageRecived env w).owner := by
  have hfresh : w.owner.next ∉ List.range w.owner.next := by simp
  have hdead : w.owner.next ∉ w.owner.deleted := fun hmem =>
    hfresh (h.subset (List.mem_append_right _ hmem))
  rcases onMessageRecived_effect env w with ⟨-, htouches, heffect⟩ | ⟨-, htouches, heffect⟩ |
    ⟨messages, hmem, htouches, heffect⟩
  · -- an error
    rw [htouches] at heffect ⊢
    exact ⟨h.safe_head, h.effect_quiet heffect (created_errorTouches _) (deleted_errorTouches _)⟩
  · -- a controller that is created and deleted
    rw [htouches] at heffect ⊢
    refine ⟨?_, h.effect heffect ?_⟩
    · simp only [Touch.safe_create, Touch.safe_use, Touch.safe_delete, List.mem_append,
        List.mem_singleton, or_true, true_and]
      refine ⟨hfresh, hdead, hdead, Touch.safe_uses fun id hid => ?_⟩
      obtain ⟨hmade, halive⟩ := h.alive id (List.mem_of_mem_head? (Option.mem_toList.mp hid))
      have hne : id ≠ w.owner.next := fun heq => hfresh (heq ▸ hmade)
      simp [List.mem_range.mp hmade, halive, hne]
    · simp
  · -- a controller that goes to `SendMessage`
    have hsend := sendTouches_eq env w.owner.next messages w.owner.pending w.stream.writebuf
      fun hp => hok hp messages hmem
    rw [htouches, hsend] at heffect ⊢
    refine ⟨?_, h.effect heffect ?_⟩
    · simp only [Touch.safe_create, Touch.safe_use, List.mem_append, List.mem_singleton, or_true,
        true_and]
      refine ⟨hfresh, hdead, Touch.safe_uses fun id hid => ?_⟩
      have hid : id = w.owner.next := by
        split at hid <;> simp_all
      subst hid
      exact ⟨by simp, hdead⟩
    · simp

/-- A call that is completed without others behind it leaves the queue. -/
lemma Owned.sended (h : Owned w.owner) {env : ServerEnv Req Res} {bufferSize : ℤ}
    (hok : KeepsOwned w (.sended env bufferSize)) :
    Safe (List.range w.owner.next) w.owner.deleted (sendedTouches bufferSize w) ∧
      Owned (onMessageSended env bufferSize w).owner := by
  rcases onMessageSended_effect env bufferSize w with ⟨-, htouches, heffect⟩ |
    ⟨hcompletes, id, rest, hp, htouches, heffect⟩
  · rcases htouches with htouches | htouches
    · rw [htouches] at heffect ⊢
      exact ⟨trivial, h.effect_quiet heffect rfl rfl⟩
    · rw [htouches] at heffect ⊢
      exact ⟨h.safe_head, h.effect_quiet heffect (Touch.created_uses _) (Touch.deleted_uses _)⟩
  · have hrest : rest = [] := by
      have hle := hok hcompletes
      rw [hp, List.length_cons] at hle
      exact List.length_eq_zero_iff.mp (by omega)
    subst hrest
    have halive := h.alive id (by simp [hp])
    rw [htouches] at heffect ⊢
    exact ⟨⟨halive, halive, trivial⟩, h.effect heffect (by simp [hp])⟩

/-- The end deletes what is in the queue. -/
lemma Owned.close (h : Owned w.owner) :
    Safe (List.range w.owner.next) w.owner.deleted (closeTouches w.owner.pending) ∧
      Owned (onClose w).owner := by
  have hperm : (w.owner.deleted ++ w.owner.pending).Perm (List.range w.owner.next) :=
    List.perm_append_comm.trans h
  exact ⟨Touch.safe_release h.alive h.nodup, hperm⟩

/-- An admitted step is safe and keeps the controllers owned. -/
lemma owned_step (h : Owned w.owner) (hok : KeepsOwned w a) :
    Safe (List.range w.owner.next) w.owner.deleted (a.touches w) ∧ Owned (w.act a).owner := by
  cases a with
  | stream s reqheader => exact ⟨trivial, h⟩
  | recived env => exact h.recived hok
  | sended env bufferSize => exact h.sended hok
  | error code =>
    exact ⟨h.safe_head, by rw [ServerWorld.act, onMessageError_owner]; exact h⟩
  | close => exact h.close

/-- A step that is not admitted leaves a deleted controller in the queue, or one twice. -/
lemma not_pendingOwned_step (hok : ¬ KeepsOwned w a) : ¬ PendingOwned (w.act a) := by
  rintro ⟨hnodup, halive⟩
  cases a with
  | stream s reqheader => exact hok trivial
  | error code => exact hok trivial
  | close => exact hok trivial
  | recived env =>
    simp only [KeepsOwned, not_forall, Bool.not_eq_false] at hok
    obtain ⟨hp, messages, hmem, hbad⟩ := hok
    rcases onMessageRecived_effect env w with ⟨hno, -⟩ | ⟨hno, -⟩ | ⟨messages', hmem', ht, he⟩
    · simp [hno] at hmem
    · simp [hno] at hmem
    · obtain rfl : messages' = messages := Option.some_inj.mp (hmem'.symm.trans hmem)
      refine halive w.owner.next ?_ ?_
      · change _ ∈ (onMessageRecived env w).owner.pending
        rw [he.pending]
        simp
      · change _ ∈ (onMessageRecived env w).owner.deleted
        rw [he.deleted, ht, hp]
        simp [deleted_sendTouches env _ _ _ hbad]
  | sended env bufferSize =>
    simp only [KeepsOwned, not_forall] at hok
    obtain ⟨hcompletes, hlong⟩ := hok
    rcases onMessageSended_effect env bufferSize w with ⟨hno, -⟩ | ⟨-, id, rest, hp, -, he⟩
    · exact hno hcompletes
    · cases rest with
      | nil => simp [hp] at hlong
      | cons next rest =>
        change (onMessageSended env bufferSize w).owner.pending.Nodup at hnodup
        rw [he.pending] at hnodup
        simp at hnodup

/-- Only the end takes the connect away. -/
lemma act_down (hdown : w.owner.down = false) :
    (w.act a).owner.down = true → (w.act a).owner.pending = [] := by
  have hkeep : (w.act a).owner.down = w.owner.down → (w.act a).owner.down = true →
      (w.act a).owner.pending = [] := by
    intro hsame htrue
    rw [hsame, hdown] at htrue
    exact absurd htrue (by decide)
  cases a with
  | stream s reqheader => exact hkeep rfl
  | error code => exact hkeep (congrArg _ (onMessageError_owner code w))
  | recived env =>
    refine hkeep ?_
    rcases onMessageRecived_cases env w with h | ⟨_, h⟩ <;> exact h.down
  | sended env bufferSize =>
    refine hkeep ?_
    rcases onMessageSended_cases env bufferSize w with ⟨-, h⟩ | ⟨-, ⟨_, -, h⟩ | ⟨_, _, _, -, h⟩⟩ <;>
      exact h.down
  | close => exact fun _ => rfl

end

/-! ## Runs -/

/-- Along a run whose steps are admitted all accesses are safe. -/
lemma safe_trace {h : List (ServerWorld Req Res × ServerAct Req Res)} {w : ServerWorld Req Res}
    (hrun : Exec.Run ServerWorld.Step ServerWorld.init h w) (hok : Exec.Admits KeepsOwned h) :
    Safe [] [] (trace h) ∧ Owned w.owner := by
  induction hrun with
  | nil => exact ⟨trivial, .refl _⟩
  | @snoc h w _ a hrun hst ih =>
    obtain ⟨-, rfl⟩ := hst
    obtain ⟨hok, hlast⟩ := Exec.admits_snoc.mp hok
    obtain ⟨hsafe, howned⟩ := ih hok
    obtain ⟨hcreated, hdeleted⟩ := run_trace hrun
    obtain ⟨hstep, howned'⟩ := owned_step howned hlast
    refine ⟨?_, howned'⟩
    rw [trace, List.flatMap_append, List.flatMap_singleton, Touch.safe_append]
    refine ⟨hsafe, ?_⟩
    rw [← hcreated, ← hdeleted] at hstep
    exact hstep

/-- When the connect is gone, the queue is empty. -/
lemma run_down {h : List (ServerWorld Req Res × ServerAct Req Res)} {w : ServerWorld Req Res}
    (hrun : Exec.Run ServerWorld.Step ServerWorld.init h w) (hdown : w.owner.down = true) :
    w.owner.pending = [] := by
  cases hrun with
  | nil => rfl
  | snoc _ hst =>
    obtain ⟨hopen, rfl⟩ := hst
    exact act_down hopen hdown

/-- Along every run of a connect, each controller is owned once exactly when `SendMessage` does
not fail for a call that finds the queue empty and `OnMessageSended` completes a call only while
no other call waits. -/
theorem ownedOnce_iff {h : List (ServerWorld Req Res × ServerAct Req Res)}
    {w : ServerWorld Req Res} (hrun : Exec.Run ServerWorld.Step ServerWorld.init h w) :
    OwnedOnce h w ↔ Exec.Admits KeepsOwned h := by
  have hiff : Exec.Always PendingOwned h w ↔ Exec.Admits KeepsOwned h := by
    refine hrun.always_iff ?_ (fun w (h : Owned w.owner) =>
      ⟨h.nodup, fun id hid => (h.alive id hid).2⟩) ?_ ?_
    · exact .refl _
    · rintro w a _ h hok ⟨-, rfl⟩
      exact (owned_step h hok).2
    · rintro w a _ - hok ⟨-, rfl⟩
      exact not_pendingOwned_step hok
  refine ⟨fun h => hiff.mp h.pending, ?_⟩
  intro hok
  obtain ⟨hsafe, howned⟩ := safe_trace hrun hok
  obtain ⟨hcreated, hdeleted⟩ := run_trace hrun
  refine ⟨hsafe, hiff.mpr hok, ?_⟩
  intro hdown id hid
  rw [Owned, run_down hrun hdown, List.nil_append] at howned
  rw [hcreated] at hid
  rw [hdeleted, howned.count_eq]
  exact List.count_eq_one_of_mem List.nodup_range hid

/-! ## A response that cannot be serialised -/

/-- A service with one method, whose responses cannot be serialised. -/
def muteEnv : ServerEnv Unit Unit := { echoEnv with serialize := fun _ b => (false, b) }

/-- The run of one request. -/
def muteHistory : List (ServerWorld Unit Unit × ServerAct Unit Unit) :=
  [(ServerWorld.init, .stream .init methodHeader), (headerParsed, .recived muteEnv)]

lemma run_muteHistory :
    Exec.Run ServerWorld.Step ServerWorld.init muteHistory
      (headerParsed.act (.recived muteEnv)) := by
  have hone : Exec.Run ServerWorld.Step ServerWorld.init
      [(ServerWorld.init, .stream .init methodHeader)] headerParsed :=
    Exec.Run.nil.snoc ⟨rfl, rfl⟩
  exact hone.snoc ⟨rfl, rfl⟩

/-- The controller is deleted while it is in the queue. -/
theorem not_ownedOnce :
    ¬ ∀ (Req Res : Type) (h : List (ServerWorld Req Res × ServerAct Req Res))
      (w : ServerWorld Req Res), Exec.Run ServerWorld.Step ServerWorld.init h w →
        OwnedOnce h w := by
  intro hall
  refine not_pendingOwned_step (w := headerParsed) (a := .recived muteEnv) ?_
    (hall Unit Unit _ _ run_muteHistory).pending.last
  intro hok
  exact absurd (hok rfl (some ((), ())) rfl) (by decide)

/-- The run up to the second dispatch of two requests. -/
theorem ownedOnce_twoDispatched :
    OwnedOnce twoHistory twoDispatched ↔ Exec.Admits KeepsOwned twoHistory :=
  ownedOnce_iff run_twoDispatched

end MTRpc
