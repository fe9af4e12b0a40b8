import MTRpc.Common.SpinList
import MTRpc.Rpc.ChannelRuns

/-!
# One call in flight

Nothing in a response says which call it is for: `OnMessageRecived` gives it to the front of
`donecall`.  This is right because a `RpcChannelImpl` never has two calls on their way.  New calls
are handed to `SendToServer` by `OnWriteable`, when `waitcall` and `donecall` are empty, and by
`OnMessageRecived`, after it has emptied `donecall`; a call that cannot be sent takes all others
out of the queues before it comes to `waitcall` itself.

`InFlight` is the invariant.  It knows the calls that were handed to `SendToServer`, which the
history of a run gives (`handedIn`).  In the source the calls of user threads come at any time;
they only add to the end of `sendcall`, so that they can be taken before or after the function
they meet.
-/

namespace MTRpc

namespace RpcChannelImpl

variable {Req : Type}

/-- The call that an action hands to `SendToServer`. -/
def handed (w : ChannelWorld Req) : ChannelAct Req → Option ℕ
  | .writeable _ =>
      if w.owner.waitcall = [] ∧ w.owner.donecall = [] then w.owner.sendcall.head? else none
  | .recived env =>
      if w.owner.donecall ≠ [] ∧ (parseResponse env w).1 = true then w.owner.sendcall.head?
      else none
  | _ => none

/-- The calls that were handed to `SendToServer`, in order. -/
def handedIn (h : List (ChannelWorld Req × ChannelAct Req)) : List ℕ :=
  h.filterMap fun p => handed p.1 p.2

/-- The status of a call that is cancelled. -/
def IsCancel (e : ChannelEvent) : Prop := ∃ id code, e = .setStatus id (ErrorCode.code code)

/-- At most one call is on its way, which is the last one that was handed over, and the calls
handed over were accepted in this order. -/
structure InFlight (handed : List ℕ) (s : RpcChannelImpl Req) : Prop where
  one : (s.waitcall ++ s.donecall).length ≤ 1
  last : ∀ id ∈ s.waitcall ++ s.donecall, handed.getLast? = some id
  order : ∃ taken, s.accepted = taken ++ s.sendcall ∧ handed.Sublist taken

/-- The queues are as before or all empty, and the log has cancelled calls only. -/
structure Passes (s s' : RpcChannelImpl Req) : Prop where
  queues : (s'.sendcall = s.sendcall ∧ s'.waitcall = s.waitcall ∧ s'.donecall = s.donecall) ∨
    (s'.sendcall = [] ∧ s'.waitcall = [] ∧ s'.donecall = [])
  log : ∃ cancels, s'.log = s.log ++ cancels ∧ ∀ e ∈ cancels, IsCancel e

variable {s s' s'' : RpcChannelImpl Req} {calls : List ℕ}

lemma Passes.refl (s : RpcChannelImpl Req) : Passes s s :=
  ⟨Or.inl ⟨rfl, rfl, rfl⟩, [], (List.append_nil _).symm, by simp⟩

/-- Changes of the controllers and one more status. -/
lemma Passes.congr (h : Passes s s') (hsend : s''.sendcall = s'.sendcall)
    (hwait : s''.waitcall = s'.waitcall) (hdone : s''.donecall = s'.donecall)
    (hlog : ∃ cancels, s''.log = s'.log ++ cancels ∧ ∀ e ∈ cancels, IsCancel e) :
    Passes s s'' := by
  obtain ⟨cs, hcs, hall⟩ := h.log
  obtain ⟨cs', hcs', hall'⟩ := hlog
  refine ⟨by rw [hsend, hwait, hdone]; exact h.queues, cs ++ cs', ?_, ?_⟩
  · rw [hcs', hcs, List.append_assoc]
  · intro e he
    rcases List.mem_append.mp he with he | he
    · exact hall e he
    · exact hall' e he

/-- Cancelled calls were accepted before. -/
lemma Passes.accepted (h : Passes s s') : s'.accepted = s.accepted := by
  obtain ⟨cs, hcs, hall⟩ := h.log
  rw [RpcChannelImpl.accepted, hcs, List.filterMap_append]
  refine (congrArg (s.accepted ++ ·) (List.filterMap_eq_nil_iff.mpr fun e he => ?_)).trans
    (List.append_nil _)
  obtain ⟨id, code, rfl⟩ := hall e he
  rfl

/-! ## What the functions do to the queues -/

lemma onMessageError_passes (code : ErrorCode) (w : ChannelWorld Req) :
    Passes w.owner (onMessageError code w).owner := by
  obtain ⟨cntl, heq, -⟩ := onMessageError_owner code w
  rw [heq]
  refine ⟨Or.inr ⟨rfl, rfl, rfl⟩, _, rfl, ?_⟩
  intro e he
  simp only [statusEvents, List.mem_append, List.mem_map] at he
  rcases he with ⟨id, -, rfl⟩ | ⟨id, -, rfl⟩
  · exact ⟨id, _, rfl⟩
  · exact ⟨id, _, rfl⟩

lemma sendError_passes (code : ErrorCode) (id : ℕ) (w : ChannelWorld Req) :
    Passes w.owner (sendError code id w).owner :=
  (onMessageError_passes code w).congr rfl rfl rfl
    ⟨[.setStatus id code.code], rfl, fun _ he => ⟨id, code, List.mem_singleton.mp he⟩⟩

/-- `SendToServer` leaves the queues alone or empties them. -/
lemma sendToServer_passes (env : ChannelEnv Req) (id : ℕ) (w : ChannelWorld Req) :
    Passes w.owner (sendToServer env id w).owner := by
  have herror (code : ErrorCode) (w' : ChannelWorld Req)
      (hw : w'.owner = w.owner.modifyCntl id fun c => { c with seq := env.generateSeq }) :
      Passes w.owner (sendError code id w').owner := by
    have hpass := sendError_passes code id w'
    rw [hw] at hpass
    exact ⟨hpass.queues, hpass.log⟩
  rw [sendToServer]
  dsimp only
  split
  · exact herror _ _ rfl
  split
  · exact herror _ _ rfl
  · exact (Passes.refl _).congr rfl rfl rfl ⟨[], (List.append_nil _).symm, by simp⟩

/-- Sending the next call cancels calls at most. -/
lemma sendNext_log (env : ChannelEnv Req) (w : ChannelWorld Req) :
    ∃ cancels, (sendNext env w).owner.log = w.owner.log ++ cancels ∧ ∀ e ∈ cancels, IsCancel e := by
  rw [sendNext]
  cases hs : w.owner.sendcall with
  | nil => exact ⟨[], (List.append_nil _).symm, by simp⟩
  | cons id rest =>
    exact (sendToServer_passes env id (w.modifyOwner fun s => { s with sendcall := rest })).log

/-- `OnMessageSended` takes calls from `waitcall` to `donecall`. -/
lemma sendedLoop_queues (fuel : ℕ) (bufferSize : ℤ) (w : ChannelWorld Req) :
    (sendedLoop fuel bufferSize w).owner.sendcall = w.owner.sendcall ∧
      ((sendedLoop fuel bufferSize w).owner.waitcall ++
        (sendedLoop fuel bufferSize w).owner.donecall).Perm
          (w.owner.waitcall ++ w.owner.donecall) := by
  induction fuel generalizing bufferSize w with
  | zero => exact ⟨rfl, .refl _⟩
  | succ fuel ih =>
    rw [sendedLoop]
    cases hw : w.owner.waitcall with
    | nil => exact ⟨rfl, by rw [hw]⟩
    | cons id rest =>
      dsimp only
      split
      · split
        · -- the front call is sent
          obtain ⟨hsend, hperm⟩ := ih _ _
          refine ⟨hsend, hperm.trans ?_⟩
          change (rest ++ (w.owner.donecall ++ [id])).Perm (id :: (rest ++ w.owner.donecall))
          rw [← List.append_assoc]
          exact List.perm_append_singleton _ _
        · obtain ⟨hsend, hperm⟩ := ih _ _
          refine ⟨hsend, hperm.trans ?_⟩
          change (w.owner.waitcall ++ w.owner.donecall).Perm _
          rw [hw]
      · exact ⟨rfl, by rw [hw]⟩

/-! ## The invariant -/

/-- Calls that leave the queues with an error. -/
lemma InFlight.passes (h : InFlight calls s) (hp : Passes s s') : InFlight calls s' := by
  obtain ⟨taken, htaken, hsub⟩ := h.order
  rcases hp.queues with ⟨hsend, hwait, hdone⟩ | ⟨hsend, hwait, hdone⟩
  · exact ⟨by rw [hwait, hdone]; exact h.one, by rw [hwait, hdone]; exact h.last,
      taken, by rw [hp.accepted, hsend, htaken], hsub⟩
  · refine ⟨by simp [hwait, hdone], by simp [hwait, hdone], taken ++ s.sendcall, ?_, ?_⟩
    · rw [hp.accepted, hsend, htaken, List.append_nil]
    · exact hsub.trans (List.sublist_append_left _ _)

/-- The front of `sendcall` is handed over while no call is on its way. -/
lemma InFlight.hand (h : InFlight calls s) {id : ℕ} {rest : List ℕ} (hs : s.sendcall = id :: rest)
    (hwait : s.waitcall = []) (hdone : s.donecall = [])
    (hp : Passes { s with sendcall := rest } s') :
    InFlight (calls ++ [id]) { s' with waitcall := s'.waitcall ++ [id] } := by
  obtain ⟨taken, htaken, hsub⟩ := h.order
  have haccepted : s'.accepted = taken ++ id :: rest := by
    rw [hp.accepted, ← hs, ← htaken]
    rfl
  have hnone : s'.waitcall = [] ∧ s'.donecall = [] := by
    rcases hp.queues with ⟨-, hw, hd⟩ | ⟨-, hw, hd⟩
    · exact ⟨hw.trans hwait, hd.trans hdone⟩
    · exact ⟨hw, hd⟩
  refine ⟨by simp [hnone.1, hnone.2], ?_, ?_⟩
  · intro i hi
    simp only [hnone.1, hnone.2, List.nil_append, List.append_nil, List.mem_singleton] at hi
    rw [hi, List.getLast?_append, List.getLast?_singleton]
    rfl
  · have hcalls : (calls ++ [id]).Sublist (taken ++ [id]) := hsub.append_right _
    rcases hp.queues with ⟨hsend, -, -⟩ | ⟨hsend, -, -⟩
    · refine ⟨taken ++ [id], ?_, hcalls⟩
      change s'.accepted = taken ++ [id] ++ s'.sendcall
      rw [haccepted, hsend, List.append_assoc]
      rfl
    · -- the calls behind it are cancelled
      refine ⟨taken ++ [id] ++ rest, ?_, hcalls.trans (List.sublist_append_left _ _)⟩
      change s'.accepted = taken ++ [id] ++ rest ++ s'.sendcall
      rw [haccepted, hsend, List.append_assoc taken]
      simp

/-- The front call of `donecall` is answered; no other is left. -/
lemma InFlight.answered (h : InFlight calls s) {id : ℕ} {rest : List ℕ}
    (hd : s.donecall = id :: rest) :
    s.waitcall = [] ∧ rest = [] ∧ calls.getLast? = some id := by
  have hone := h.one
  rw [hd, List.length_append, List.length_cons] at hone
  refine ⟨?_, ?_, h.last id (by simp [hd])⟩
  · exact List.length_eq_zero_iff.mp (by omega)
  · exact List.length_eq_zero_iff.mp (by omega)

/-- `OnWriteable` and what it hands over. -/
lemma InFlight.onWriteable (env : ChannelEnv Req) {w : ChannelWorld Req}
    (h : InFlight calls w.owner) :
    InFlight (calls ++ (handed w (.writeable env)).toList) (onWriteable env w).owner := by
  rw [RpcChannelImpl.onWriteable, handed]
  cases hs : w.owner.sendcall with
  | nil => simpa using h
  | cons id rest =>
    dsimp only
    split
    · rename_i hempty
      refine h.hand hs hempty.1 hempty.2 ?_
      exact sendToServer_passes env id (w.modifyOwner fun s => { s with sendcall := rest })
    · simpa using h

/-- The end of `OnMessageRecived` hands the front of `sendcall` over. -/
lemma InFlight.sendNext (env : ChannelEnv Req) {w : ChannelWorld Req} (h : InFlight calls w.owner)
    (hwait : w.owner.waitcall = []) (hdone : w.owner.donecall = []) :
    InFlight (calls ++ w.owner.sendcall.head?.toList) (sendNext env w).owner := by
  rw [RpcChannelImpl.sendNext]
  cases hs : w.owner.sendcall with
  | nil => simpa using h
  | cons id rest =>
    refine h.hand hs hwait hdone ?_
    exact sendToServer_passes env id (w.modifyOwner fun s => { s with sendcall := rest })

/-- What the log says of a call that gets the response. -/
def answer (w : ChannelWorld Req) (id : ℕ) : List ChannelEvent :=
  (if (w.owner.cntl id).done then [.runDone id] else []) ++ [.setStatus id w.resheader.status]

/-- `OnMessageRecived` when it finds a call in `donecall`: it is cancelled with all others, or it
gets the response and the next call is handed over. -/
lemma onMessageRecived_owner (env : ChannelEnv Req) (w : ChannelWorld Req) {id : ℕ}
    {rest : List ℕ} (hd : w.owner.donecall = id :: rest) :
    (handed w (.recived env) = none ∧
        Passes { w.owner with donecall := rest } (onMessageRecived env w).owner) ∨
      ∃ w', w'.owner.log = w.owner.log ++ answer w id ∧ w'.owner.sendcall = w.owner.sendcall ∧
        w'.owner.waitcall = w.owner.waitcall ∧ w'.owner.donecall = rest ∧
        handed w (.recived env) = w.owner.sendcall.head? ∧
        onMessageRecived env w = sendNext env w' := by
  have hne : w.owner.donecall ≠ [] := by simp [hd]
  obtain ⟨hparse, hext, -⟩ := parseResponse_spec env
    ((w.modifyStream (·.delReadTimeOutAsync)).modifyOwner fun s => { s with donecall := rest })
  have hsame : (parseResponse env w).1 = true ↔ ParseOk env w := (parseResponse_spec env w).1
  rw [onMessageRecived]
  simp only [World.owner_modifyStream, hd]
  split
  · rename_i w' heq
    rw [heq] at hparse hext
    have hfail : ¬ (parseResponse env w).1 = true := fun h =>
      absurd (hparse.mpr (hsame.mp h)) (by simp)
    have howner : w'.owner = { w.owner with donecall := rest } :=
      congrArg MessageStream.owner hext
    have hpass := sendError_passes .serverReqParserFailed id (w'.modifyRes (·.reset))
    rw [World.owner_modifyRes, howner] at hpass
    exact Or.inl ⟨by simp [handed, hfail], hpass⟩
  · rename_i w' heq
    rw [heq] at hparse hext
    have hok : (parseResponse env w).1 = true := hsame.mpr (hparse.mp rfl)
    have howner : w'.owner = { w.owner with donecall := rest } :=
      congrArg MessageStream.owner hext
    have hres : w'.resheader = w.resheader := by
      have hext : w'.ext = _ := hext
      rw [World.resheader, hext]
      rfl
    have hhanded : handed w (.recived env) = w.owner.sendcall.head? := by simp [handed, hne, hok]
    by_cases hdone : (w.owner.cntl id).done = true
    · rw [if_pos ((congrArg (fun s => (s.cntl id).done) howner).trans hdone)]
      refine Or.inr ⟨_, ?_, ?_, ?_, ?_, hhanded, rfl⟩
      · simp [answer, hdone, howner, hres, setStatus, runDone, modifyCntl]
      all_goals simp [howner, setStatus, runDone, modifyCntl]
    · rw [if_neg (fun h => hdone ((congrArg (fun s => (s.cntl id).done) howner).symm.trans h))]
      refine Or.inr ⟨_, ?_, ?_, ?_, ?_, hhanded, rfl⟩
      · simp [answer, hdone, howner, hres, setStatus, modifyCntl]
      all_goals simp [howner, setStatus, modifyCntl]

/-- `OnMessageRecived` and what it hands over. -/
lemma InFlight.onMessageRecived (env : ChannelEnv Req) {w : ChannelWorld Req}
    (h : InFlight calls w.owner) :
    InFlight (calls ++ (handed w (.recived env)).toList) (onMessageRecived env w).owner := by
  cases hd : w.owner.donecall with
  | nil =>
    rw [onMessageRecived_nil env w hd]
    simpa [handed, hd] using h
  | cons id rest =>
    obtain ⟨hwait, rfl, -⟩ := h.answered hd
    obtain ⟨taken, htaken, hsub⟩ := h.order
    have hanswered : InFlight calls { w.owner with donecall := [] } :=
      ⟨by simp [hwait], by simp [hwait], taken, htaken, hsub⟩
    rcases onMessageRecived_owner env w hd with
      ⟨hnone, hpass⟩ | ⟨w', hlog, hsend, hwait', hdone, hhanded, heq⟩
    · rw [hnone, Option.toList_none, List.append_nil]
      exact hanswered.passes hpass
    · rw [heq, hhanded, ← hsend]
      have hwait' := hwait'.trans hwait
      have hlen : (w'.owner.waitcall ++ w'.owner.donecall).length ≤ 1 := by simp [hwait', hdone]
      refine InFlight.sendNext env ⟨hlen, by simp [hwait', hdone], taken, ?_, hsub⟩ hwait' hdone
      -- an answer accepts no call
      rw [accepted, hlog, List.filterMap_append, hsend, ← htaken, answer]
      split
      · exact List.append_nil _
      · exact List.append_nil _

/-- `CallMethod` adds a call to the end of `sendcall`. -/
lemma InFlight.callMethod (connectFail : Bool) (controller : RpcClientController Req)
    (method : Bytes) (request : Req) (done : Bool) {w : ChannelWorld Req}
    (h : InFlight calls w.owner) :
    InFlight calls (callMethod connectFail controller method request done w).owner := by
  obtain ⟨taken, htaken, hsub⟩ := h.order
  rw [RpcChannelImpl.callMethod]
  dsimp only
  split
  · rw [World.owner_modifyOwner]
    split
    · refine ⟨h.one, h.last, taken, ?_, hsub⟩
      rw [accepted_runDone, accepted_setStatus, accepted_newCntl, htaken]
      rfl
    · refine ⟨h.one, h.last, taken, ?_, hsub⟩
      rw [accepted_setStatus, accepted_newCntl, htaken]
      rfl
  · refine ⟨h.one, h.last, taken, ?_, hsub⟩
    rw [accepted] at htaken ⊢
    simp [newCntl, htaken]

/-- `OnMessageSended` keeps the call that is on its way. -/
lemma InFlight.onMessageSended (bufferSize : ℤ) {w : ChannelWorld Req}
    (h : InFlight calls w.owner) : InFlight calls (onMessageSended bufferSize w).owner := by
  obtain ⟨hsend, hperm⟩ :=
    sendedLoop_queues (2 ^ 32 * (w.owner.waitcall.length + 1)) bufferSize w
  have haccepted := (sendedLoop_settles (2 ^ 32 * (w.owner.waitcall.length + 1)) bufferSize w
    rfl).accepted
  obtain ⟨taken, htaken, hsub⟩ := h.order
  refine ⟨hperm.length_eq.trans_le h.one, fun id hid => h.last id (hperm.mem_iff.mp hid),
    taken, ?_, hsub⟩
  rw [RpcChannelImpl.onMessageSended, haccepted, hsend, htaken]

/-- Every action keeps the invariant. -/
lemma InFlight.act {w : ChannelWorld Req} (h : InFlight calls w.owner) (a : ChannelAct Req) :
    InFlight (calls ++ (handed w a).toList) (w.act a).owner := by
  have hnone : calls ++ (none : Option ℕ).toList = calls := by simp
  cases a with
  | stream s resheader => exact hnone.symm ▸ h
  | call connectFail controller method request done =>
    exact hnone.symm ▸ h.callMethod connectFail controller method request done
  | writeable env => exact h.onWriteable env
  | sended bufferSize => exact hnone.symm ▸ h.onMessageSended bufferSize
  | recived env => exact h.onMessageRecived env
  | sendTimeout => exact hnone.symm ▸ h.passes (onMessageError_passes _ w)
  | recvTimeout => exact hnone.symm ▸ h.passes (onMessageError_passes _ w)
  | close =>
    refine hnone.symm ▸ ?_
    change InFlight calls (onClose w).owner
    rw [onClose]
    split
    · exact h.passes ((onMessageError_passes _ w).congr rfl rfl rfl
        ⟨[], (List.append_nil _).symm, by simp⟩)
    · exact h.passes ((Passes.refl _).congr rfl rfl rfl ⟨[], (List.append_nil _).symm, by simp⟩)

/-- The invariant along a run. -/
lemma inFlight_run {options : RpcChannelOptions} {cntl : ℕ → RpcClientController Req}
    {h : List (ChannelWorld Req × ChannelAct Req)} {w : ChannelWorld Req}
    (hrun : Exec.Run ChannelWorld.Step (ChannelWorld.init options cntl) h w) :
    InFlight (handedIn h) w.owner := by
  induction hrun with
  | nil => exact ⟨by simp [ChannelWorld.init], by simp [ChannelWorld.init], [], rfl, .refl _⟩
  | @snoc h w t a _ hst ih =>
    obtain ⟨-, rfl⟩ := hst
    have hhanded : handedIn (h ++ [(w, a)]) = handedIn h ++ (handed w a).toList := by
      rw [handedIn, List.filterMap_append]
      cases hcall : handed w a <;> simp [hcall, handedIn]
    rw [hhanded]
    exact ih.act a

/-! ## `sendcall` as a `SpinList` -/

lemma Passes.sendcall (h : Passes s s') : ∃ k, s'.sendcall = s.sendcall.drop k := by
  rcases h.queues with ⟨hsend, -, -⟩ | ⟨hsend, -, -⟩
  · exact ⟨0, hsend⟩
  · exact ⟨s.sendcall.length, by rw [hsend, List.drop_length]⟩

lemma sendNext_sendcall (env : ChannelEnv Req) (w : ChannelWorld Req) :
    ∃ k, (sendNext env w).owner.sendcall = w.owner.sendcall.drop k := by
  rw [sendNext]
  cases hs : w.owner.sendcall with
  | nil => exact ⟨0, hs⟩
  | cons id rest =>
    obtain ⟨k, hk⟩ :=
      (sendToServer_passes env id (w.modifyOwner fun s => { s with sendcall := rest })).sendcall
    exact ⟨k + 1, hk⟩

/-- An action puts one call behind the others, or takes some from the front. -/
lemma act_sendcall (w : ChannelWorld Req) (a : ChannelAct Req) :
    (∃ id, (w.act a).owner.sendcall = w.owner.sendcall ++ [id]) ∨
      ∃ k, (w.act a).owner.sendcall = w.owner.sendcall.drop k := by
  cases a with
  | stream s resheader => exact Or.inr ⟨0, rfl⟩
  | call connectFail controller method request done =>
    change (∃ id, (callMethod connectFail controller method request done w).owner.sendcall = _) ∨
      ∃ k, (callMethod connectFail controller method request done w).owner.sendcall = _
    rw [callMethod]
    dsimp only
    split
    · refine Or.inr ⟨0, ?_⟩
      rw [World.owner_modifyOwner]
      split
      · rfl
      · rfl
    · exact Or.inl ⟨w.owner.next, rfl⟩
  | writeable env =>
    refine Or.inr ?_
    change ∃ k, (onWriteable env w).owner.sendcall = _
    rw [onWriteable]
    cases hs : w.owner.sendcall with
    | nil => exact ⟨0, hs⟩
    | cons id rest =>
      dsimp only
      split
      · obtain ⟨k, hk⟩ :=
          (sendToServer_passes env id (w.modifyOwner fun s => { s with sendcall := rest })).sendcall
        exact ⟨k + 1, hk⟩
      · exact ⟨0, hs⟩
  | sended bufferSize => exact Or.inr ⟨0, (sendedLoop_queues _ bufferSize w).1⟩
  | recived env =>
    refine Or.inr ?_
    change ∃ k, (onMessageRecived env w).owner.sendcall = _
    cases hd : w.owner.donecall with
    | nil => exact ⟨0, by rw [onMessageRecived_nil env w hd]; rfl⟩
    | cons id rest =>
      rcases onMessageRecived_owner env w hd with ⟨-, hpass⟩ | ⟨w', -, hsend, -, -, -, heq⟩
      · exact hpass.sendcall
      · rw [heq, ← hsend]
        exact sendNext_sendcall env w'
  | sendTimeout => exact Or.inr (onMessageError_passes _ w).sendcall
  | recvTimeout => exact Or.inr (onMessageError_passes _ w).sendcall
  | close =>
    refine Or.inr ?_
    change ∃ k, (onClose w).owner.sendcall = _
    rw [onClose]
    split
    · exact (onMessageError_passes .clientCancelByClose w).sendcall
    · exact ⟨0, rfl⟩

/-- The queue `sendcall` of every run is what a `SpinList` holds after some calls of `push` and
`pop`. -/
theorem sendcall_spinList {options : RpcChannelOptions} {cntl : ℕ → RpcClientController Req}
    {h : List (ChannelWorld Req × ChannelAct Req)} {w : ChannelWorld Req}
    (hrun : Exec.Run ChannelWorld.Step (ChannelWorld.init options cntl) h w) :
    ∃ l, SpinList.Reaches SpinList.init l ∧ SpinList.Holds l w.owner.sendcall := by
  refine hrun.invariant_all
    (fun w => ∃ l, SpinList.Reaches SpinList.init l ∧ SpinList.Holds l w.owner.sendcall)
    ⟨SpinList.init, .refl, SpinList.holds_init⟩ ?_
  rintro w a t ⟨l, hreach, hholds⟩ ⟨-, rfl⟩
  rcases act_sendcall w a with ⟨id, hid⟩ | ⟨k, hk⟩
  · exact ⟨l.push id, hreach.push id, by rw [hid]; exact hholds.push id⟩
  · rw [hk]
    exact hreach.drop k hholds

end RpcChannelImpl

open RpcChannelImpl

/-- In every run of a channel at most one call is in `waitcall` and `donecall`, calls are handed
to `SendToServer` in the order in which `CallMethod` took them, the call on its way is the one
that was handed over last, and `OnMessageRecived` gives the response to this call or to none. -/
theorem one_in_flight {Req : Type} {options : RpcChannelOptions}
    {cntl : ℕ → RpcClientController Req} {h : List (ChannelWorld Req × ChannelAct Req)}
    {w : ChannelWorld Req} (hrun : Exec.Run ChannelWorld.Step (ChannelWorld.init options cntl) h w) :
    (w.owner.waitcall ++ w.owner.donecall).length ≤ 1 ∧
      (∃ taken, w.owner.accepted = taken ++ w.owner.sendcall ∧ (handedIn h).Sublist taken) ∧
      (∀ id ∈ w.owner.waitcall ++ w.owner.donecall, (handedIn h).getLast? = some id) ∧
      ∀ env, ∃ answers cancels,
        (onMessageRecived env w).owner.log = w.owner.log ++ answers ++ cancels ∧
          (∀ e ∈ cancels, IsCancel e) ∧
          (answers = [] ∨ ∃ id, (handedIn h).getLast? = some id ∧ answers = answer w id) := by
  have hinv := inFlight_run hrun
  refine ⟨hinv.one, hinv.order, hinv.last, ?_⟩
  intro env
  cases hd : w.owner.donecall with
  | nil => exact ⟨[], [], by simp [onMessageRecived_nil env w hd], by simp, Or.inl rfl⟩
  | cons id rest =>
    obtain ⟨hwait, rfl, hlast⟩ := hinv.answered hd
    rcases onMessageRecived_owner env w hd with
      ⟨-, hpass⟩ | ⟨w', hlog, -, -, -, -, heq⟩
    · obtain ⟨cancels, hlog, hall⟩ := hpass.log
      exact ⟨[], cancels, by simpa using hlog, hall, Or.inl rfl⟩
    · obtain ⟨cancels, hcancels, hall⟩ := sendNext_log env w'
      exact ⟨answer w id, cancels, by rw [heq, hcancels, hlog], hall, Or.inr ⟨id, hlast, rfl⟩⟩

/-- protobuf for a message without fields. -/
def emptyEnv : ChannelEnv Unit := ⟨fun _ buf => (true, buf), fun _ => true, 1⟩

/-- A call is taken and sent. -/
def sendHistory : List (ChannelWorld Unit × ChannelAct Unit) :=
  [(noCall, plainCall false), (noCall.act (plainCall false), .writeable emptyEnv)]

/-- The channel afterwards. -/
def sent : ChannelWorld Unit := (noCall.act (plainCall false)).act (.writeable emptyEnv)

lemma run_sendHistory : Exec.Run ChannelWorld.Step noCall sendHistory sent := by
  have hcall : Exec.Run ChannelWorld.Step noCall [(noCall, plainCall false)]
      (noCall.act (plainCall false)) :=
    Exec.Run.nil.snoc ⟨rfl, rfl⟩
  exact hcall.snoc ⟨rfl, rfl⟩

/-- The call that was sent is the one that the channel waits for. -/
theorem one_in_flight_sent :
    (sent.owner.waitcall ++ sent.owner.donecall).length ≤ 1 ∧
      (∃ taken, sent.owner.accepted = taken ++ sent.owner.sendcall ∧
        (handedIn sendHistory).Sublist taken) ∧
      (∀ id ∈ sent.owner.waitcall ++ sent.owner.donecall,
        (handedIn sendHistory).getLast? = some id) ∧
      ∀ env, ∃ answers cancels,
        (onMessageRecived env sent).owner.log = sent.owner.log ++ answers ++ cancels ∧
          (∀ e ∈ cancels, IsCancel e) ∧
          (answers = [] ∨
            ∃ id, (handedIn sendHistory).getLast? = some id ∧ answers = answer sent id) :=
  one_in_flight run_sendHistory

end MTRpc
