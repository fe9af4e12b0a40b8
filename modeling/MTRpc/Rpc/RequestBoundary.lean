import MTRpc.Http.HeaderChunks
import MTRpc.Rpc.ServerConnect

/-!
# Where a request ends

When the header of a request has been parsed, the next `Content-Length` bytes are its body, and
what follows belongs to the next request.  `OnRecived` waits until the body is there
(`recvPacket_eq`) and `OnMessageRecived` then consumes it: a registered method takes all that is
unread, and the list of services takes nothing.  So a request ends where it should exactly when
nothing follows it, or when it has no body (`request_boundary_iff`).
-/

namespace MTRpc

open PieceRing (Shape)

/-! ## After a header -/

/-- A header is parsed: the read position is the one behind its last byte. -/
structure AfterHeader (h : HttpRequestHeader) (b : ReadBuffer) : Prop where
  reachable : b.Reachable
  state : h.state = .atEnd
  bodyStart : pieces.Valid h.bodyStart
  readpos : b.readpos = Iterator.incr b.que h.bodyStart

namespace HttpRequestHeader

/-- The last byte of the header is remembered. -/
lemma step_atEnd {h : HttpRequestHeader} (hs : h.state ≠ .atEnd) (l : ParserLocals)
    (it : Iterator) (c : UInt8) : (h.step l (it, c)).All (fun r _ => r ≠ .finish)
      (fun h' _ => h'.state = .atEnd → h'.bodyStart = it) := by
  have hover : ParserRet.overrun ≠ .finish := by decide
  have hfail : ParserRet.fail ≠ .finish := by decide
  have hput : (h.put l c).All (fun r _ => r ≠ .finish)
      (fun h' _ => h'.state = .atEnd → h'.bodyStart = it) :=
    all_put hover fun _ hend => absurd hend hs
  rw [step]
  split
  · exact hfail
  split
  case h_1 =>
    rcases h.scratch.isMethodFound c with _ | ⟨_ | _, s⟩
    · exact hover
    · exact fun hend => absurd hend hs
    · exact all_moveBufTo hover fun _ _ hend => by simp at hend
  case h_2 =>
    split
    · refine all_moveBufTo hover fun tok s => ?_
      dsimp only
      split
      · exact hfail
      · exact fun hend => by simp at hend
    · exact hput
  case h_3 =>
    split
    · exact all_moveBufTo hover fun _ _ hend => by simp at hend
    · exact hput
  case h_4 => exact all_expect hfail fun hend => by simp at hend
  case h_5 =>
    split
    · refine all_moveBufTo hover fun tok s => ?_
      dsimp only
      split
      · exact hfail
      · exact fun hend => by simp at hend
    · split
      · exact fun hend => by simp at hend
      · exact hput
  case h_6 =>
    split
    · exact all_moveBufTo hover fun _ _ hend => by simp at hend
    · exact hput
  case h_7 => exact all_expect hfail fun hend => by simp at hend
  case h_8 => exact all_expect hfail fun _ => rfl
  case h_9 => exact fun hend => absurd hend hs

lemma parserLoop_atEnd {h : HttpRequestHeader} (hs : h.state = .atEnd) (fuel : ℕ)
    (l : ParserLocals) (b : ReadBuffer) :
    parserLoop step (·.state) fuel h l b = (.finish, h, b) := by
  cases fuel with
  | zero => rw [parserLoop, if_pos hs]
  | succ fuel => rw [parserLoop, if_pos (Or.inr hs), if_pos hs]

lemma parserLoop_finish {fuel : ℕ} {h h' : HttpRequestHeader} {l : ParserLocals}
    {b b' : ReadBuffer} (hb : b.Reachable) (hs : h.state ≠ .atEnd)
    (hp : parserLoop step (·.state) fuel h l b = (.finish, h', b')) : AfterHeader h' b' := by
  induction fuel generalizing h l b with
  | zero => simp [parserLoop, hs] at hp
  | succ fuel ih =>
    rw [parserLoop] at hp
    by_cases hempty : b.isEmpty
    · simp [hempty, hs] at hp
    rw [if_neg (by simp [hempty, hs])] at hp
    have hstep := step_atEnd hs l b.readpos (b.que.load b.readpos)
    have hadvance : b.Step .advance b.advance := ⟨hempty, rfl⟩
    have hnext := hb.step hadvance
    cases ho : h.step l (b.readpos, b.que.load b.readpos) with
    | stop r h₁ =>
      rw [ho] at hp hstep
      simp only [Prod.mk.injEq] at hp
      exact absurd hp.1 hstep
    | go h₁ l₁ =>
      rw [ho] at hp hstep
      dsimp only at hp
      by_cases hend : h₁.state = .atEnd
      · rw [parserLoop_atEnd hend] at hp
        simp only [Prod.mk.injEq, true_and] at hp
        obtain ⟨rfl, rfl⟩ := hp
        have hstart : h₁.bodyStart = b.readpos := hstep hend
        refine ⟨hnext, hend, ?_, ?_⟩
        · rw [hstart]
          exact hb.isRing.read_valid
        · rw [hstart]
          rfl
      · exact ih hnext hend hp

/-- This is how a call of the parser ends that finds the end of a header. -/
theorem parserHeader_finish {h h' : HttpRequestHeader} {b b' : ReadBuffer} (hb : b.Reachable)
    (hs : h.state ≠ .atEnd) (hp : h.parserHeader b = (.finish, h', b')) : AfterHeader h' b' :=
  parserLoop_finish hb hs hp

end HttpRequestHeader

/-! ## What the handlers leave alone -/

namespace ServerConnect

variable {Req Res : Type}

/-- What the request parser was given, in order. -/
def parses (s : ServerConnect Req Res) : List Bytes :=
  s.log.filterMap fun | .parse bs => some bs | _ => none

/-- The handlers of a stream with a connect. -/
def handers (env : ServerEnv Req Res) : MessageHanders (ServerConnect Req Res) where
  handerMessageRecived := some fun _ w => onMessageRecived env w
  handerMessageError := onMessageError

/-- Nothing is read. -/
structure ReadsNothing (w w' : ServerWorld Req Res) : Prop where
  readbuf : w'.stream.readbuf = w.stream.readbuf
  parses : w'.owner.parses = w.owner.parses

variable {w w' w'' : ServerWorld Req Res}

lemma ReadsNothing.trans (h : ReadsNothing w w') (h' : ReadsNothing w' w'') :
    ReadsNothing w w'' :=
  ⟨h'.readbuf.trans h.readbuf, h'.parses.trans h.parses⟩

lemma readsNothing_onMessageError (code : ErrorCode) (w : ServerWorld Req Res) :
    ReadsNothing w (onMessageError code w) :=
  ⟨rfl, by rw [onMessageError_owner]⟩

lemma parses_record {e : ServerEvent} (s : ServerConnect Req Res) (he : ∀ bs, e ≠ .parse bs) :
    (s.record e).parses = s.parses := by
  cases e with
  | parse bs => exact absurd rfl (he bs)
  | dispatch cntl seq => simp [parses, record]
  | packet cntl headers => simp [parses, record]

lemma readsNothing_sendError (code : ErrorCode) (id : ℕ) (w : ServerWorld Req Res) :
    ReadsNothing w (sendError code id w) := by
  refine (readsNothing_onMessageError code w).trans ⟨rfl, ?_⟩
  exact parses_record w.owner (e := .packet _ _) (by simp)

lemma readsNothing_putResponse (id : ℕ) (packetStart bodyStart : Iterator)
    (w : ServerWorld Req Res) : ReadsNothing w (putResponse id packetStart bodyStart w) :=
  ⟨rfl, parses_record w.owner (e := .packet _ _) (by simp)⟩

lemma readsNothing_putList (env : ServerEnv Req Res) (id : ℕ) (packetStart : Iterator)
    (body : Bytes) (w : ServerWorld Req Res) :
    ReadsNothing w (putList env id packetStart body w) :=
  ⟨rfl, parses_record w.owner (e := .packet _ _) (by simp)⟩

lemma readsNothing_buf (f : WriteBuffer → WriteBuffer) (h : ReadsNothing w w') :
    ReadsNothing w (w'.modifyBuf f) :=
  ⟨h.readbuf, h.parses⟩

lemma ReadsNothing.refl (w : ServerWorld Req Res) : ReadsNothing w w := ⟨rfl, rfl⟩

lemma readsNothing_sendResponse (env : ServerEnv Req Res) (id : ℕ) (response : Res)
    (w : ServerWorld Req Res) : ReadsNothing w (sendResponse env id response w) := by
  rw [sendResponse]
  split
  · exact (readsNothing_buf _ (.refl w)).trans (readsNothing_sendError _ _ _)
  · dsimp only
    split
    · refine ReadsNothing.trans ?_ (readsNothing_sendError _ _ _)
      refine readsNothing_buf _ (readsNothing_buf _ ?_)
      exact readsNothing_buf _ (readsNothing_buf _ (.refl w))
    · refine ReadsNothing.trans ?_ (readsNothing_putResponse _ _ _ _)
      exact readsNothing_buf _ (readsNothing_buf _ (readsNothing_buf _ (.refl w)))

lemma readsNothing_sendList (env : ServerEnv Req Res) (id : ℕ) (w : ServerWorld Req Res) :
    ReadsNothing w (sendList env id w) := by
  rw [sendList]
  have hheader : ∀ f, ReadsNothing w (w.modifyRes f) := fun f => ⟨rfl, rfl⟩
  split
  · exact (readsNothing_buf _ (hheader _)).trans (readsNothing_sendError _ _ _)
  · refine ReadsNothing.trans ?_ (readsNothing_putList _ _ _ _ _)
    exact readsNothing_buf _ (readsNothing_buf _ (hheader _))

/-- `SendMessage` reads nothing. -/
lemma readsNothing_sendMessage (env : ServerEnv Req Res) (id : ℕ) (messages : Option (Req × Res))
    (w : ServerWorld Req Res) : ReadsNothing w (sendMessage env id messages w) := by
  rw [sendMessage]
  split
  · exact ⟨rfl, rfl⟩
  split
  · exact readsNothing_onMessageError _ _
  cases messages with
  | none =>
    refine ReadsNothing.trans ?_ (readsNothing_sendList env id _)
    exact ⟨rfl, rfl⟩
  | some messages =>
    refine ReadsNothing.trans ?_ (readsNothing_sendResponse env id messages.2 _)
    exact ⟨rfl, rfl⟩

/-- A new call that goes to `SendMessage`. -/
lemma readsNothing_dispatch (env : ServerEnv Req Res) (c : RpcServerController Req Res) (id seq : ℕ)
    (messages : Option (Req × Res)) (w : ServerWorld Req Res) :
    ReadsNothing w (sendMessage env id messages
      (w.modifyOwner fun s => (s.newCntl c).record (.dispatch id seq))) := by
  refine ReadsNothing.trans ?_ (readsNothing_sendMessage _ _ _ _)
  exact ⟨rfl, parses_record (w.owner.newCntl c) (by simp)⟩

/-- The list of services reads nothing. -/
lemma readsNothing_onMessageRecived (env : ServerEnv Req Res)
    (hpath : w.reqheader.path.length ≤ 1) : ReadsNothing w (onMessageRecived env w) := by
  rw [onMessageRecived, if_pos hpath, onListServer]
  exact readsNothing_dispatch _ _ _ _ _ _

/-- A registered method parses all that is unread. -/
lemma onMessageRecived_method (env : ServerEnv Req Res) {method : ServiceMethod Req Res}
    (hr : w.stream.readbuf.IsRing pieces) (hpath : 1 < w.reqheader.path.length)
    (hmethod : env.getServiceAndMethod (w.reqheader.path.drop 1) = some method) :
    (onMessageRecived env w).owner.parses = w.owner.parses ++ [w.stream.readbuf.unread] ∧
      (onMessageRecived env w).stream.readbuf
        = { w.stream.readbuf.beginPacket with readpos := w.stream.readbuf.writepos } := by
  have hparse : w.stream.readbuf.beginPacket.parseFromZeroCopyStream
      = (w.stream.readbuf.unread,
        { w.stream.readbuf.beginPacket with readpos := w.stream.readbuf.writepos }) :=
    ReadBuffer.parseFromZeroCopyStream_eq (b := w.stream.readbuf.beginPacket) hr
  -- the state in which the parser returns
  have hread : ∀ w' : ServerWorld Req Res,
      ReadsNothing ((w.modifyStream fun s => { s with readbuf :=
        { w.stream.readbuf.beginPacket with readpos := w.stream.readbuf.writepos } }).modifyOwner
          (·.record (.parse w.stream.readbuf.unread))) w' →
      w'.owner.parses = w.owner.parses ++ [w.stream.readbuf.unread] ∧
        w'.stream.readbuf
          = { w.stream.readbuf.beginPacket with readpos := w.stream.readbuf.writepos } := by
    rintro w' ⟨hbuf, hparses⟩
    refine ⟨?_, hbuf⟩
    rw [hparses]
    simp [parses, record]
  rw [onMessageRecived, if_neg (by omega), if_neg (by rw [List.length_drop]; omega), hmethod]
  dsimp only
  rw [hparse]
  dsimp only
  split
  · exact hread _ (readsNothing_onMessageError _ _)
  split
  · refine hread _ (ReadsNothing.trans ?_ (readsNothing_onMessageError _ _))
    exact ⟨rfl, rfl⟩
  · exact hread _ (readsNothing_dispatch _ _ _ _ _ _)

end ServerConnect

/-! ## The request is taken -/

/-- The unread bytes leave another byte free, besides the one that is always kept free. -/
def Roomy (b : ReadBuffer) : Prop :=
  b.unread.length + 1 < maxBufferPieces * defaultBufferSize

instance (b : ReadBuffer) : Decidable (Roomy b) := Nat.decLt _ _

section

variable {σ : Type} {w : World (MessageStream σ)} {body t : Bytes}

/-- The distance that `OnRecived` takes for the size of the body: a buffer that is filled up to
its last free byte looks as if nothing had come behind the header. -/
lemma bodySize_eq (ha : AfterHeader w.reqheader w.stream.readbuf) :
    Iterator.sub w.stream.readbuf.que w.stream.readbuf.writepos w.reqheader.bodyStart - 1
      = if Roomy w.stream.readbuf then (w.stream.readbuf.unread.length : ℤ) else -1 := by
  have hr := ha.reachable.isRing
  have hlt := IOBuffer.used_lt hr
  have hroom : Roomy w.stream.readbuf ↔ w.stream.readbuf.used pieces + 1 < pieces.cap := by
    rw [Roomy, IOBuffer.length_unread hr, cap_pieces]
  have hwrite : w.stream.readbuf.writepos
      = pieces.next^[w.stream.readbuf.used pieces + 1] w.reqheader.bodyStart := by
    rw [← IOBuffer.iterate_used hr, ha.readpos, Iterator.incr_eq hr.toFits ha.bodyStart,
      Function.iterate_succ_apply]
  rw [Iterator.sub_eq hr.toFits ha.bodyStart hr.write_valid, IOBuffer.length_unread hr, hwrite]
  by_cases h : w.stream.readbuf.used pieces + 1 < pieces.cap
  · rw [if_pos (hroom.mpr h), Shape.dist_iterate ha.bodyStart h]
    omega
  · have hall : w.stream.readbuf.used pieces + 1 = pieces.cap := by omega
    rw [if_neg (fun hc => h (hroom.mp hc)), hall, Shape.iterate_cap ha.bodyStart, Shape.dist_self]
    rfl

/-- With the body in the buffer, the request is taken, unless the buffer is filled up. -/
lemma recvPacket_eq (h : MessageHanders σ) (ha : AfterHeader w.reqheader w.stream.readbuf)
    (hlen : w.reqheader.getContentLength = body.length)
    (hunread : w.stream.readbuf.unread = body ++ t) (bufferSize : ℤ) :
    h.recvPacket bufferSize w
      = (if Roomy w.stream.readbuf then .inr bufferSize else .inl 0, w) := by
  have hr := ha.reachable.isRing
  have hlt := IOBuffer.used_lt hr
  have hle : body.length ≤ w.stream.readbuf.unread.length := by
    rw [hunread, List.length_append]
    omega
  have hcap : w.stream.readbuf.unread.length < maxBufferPieces * defaultBufferSize := by
    rw [IOBuffer.length_unread hr, ← cap_pieces]
    exact hlt
  have hself : Iterator.sub w.stream.readbuf.que w.stream.readbuf.readpos
      w.stream.readbuf.readpos = 0 := by
    rw [Iterator.sub_eq hr.toFits hr.read_valid hr.read_valid, Shape.dist_self]
    rfl
  have hbody := bodySize_eq ha
  rw [MessageHanders.recvPacket, HttpRequestHeader.parserHeader,
    HttpRequestHeader.parserLoop_atEnd ha.state]
  dsimp only
  rw [if_neg (by rw [hlen]; omega), hbody, hlen, hself, sub_zero]
  by_cases hroom : Roomy w.stream.readbuf
  · rw [if_pos hroom, if_pos hroom, if_neg (by omega)]
  · rw [if_neg hroom, if_neg hroom, if_pos (by omega)]

end

/-! ## Where the request ends -/

namespace ServerConnect

variable {Req Res : Type}

/-- A round of `OnRecived` that takes a request: the state at its end. -/
def dispatchOne (env : ServerEnv Req Res) (bufferSize : ℤ) (w : ServerWorld Req Res) :
    Option (ServerWorld Req Res) :=
  match (handers env).recvPacket bufferSize w with
  | (.inl _, _) => none
  | (.inr left, w) => some ((handers env).processPacket left w).2

/-- The request is taken, and the read position is then behind the body. -/
def EndsBehind (env : ServerEnv Req Res) (bufferSize : ℤ) (body : Bytes)
    (w : ServerWorld Req Res) : Prop :=
  ∃ w', dispatchOne env bufferSize w = some w' ∧ w'.stream.readbuf.readpos
    = Iterator.add w.stream.readbuf.que w.stream.readbuf.readpos body.length

/-- The request is taken, and the request parser is given exactly the body. -/
def ParsesBody (env : ServerEnv Req Res) (bufferSize : ℤ) (body : Bytes)
    (w : ServerWorld Req Res) : Prop :=
  ∃ w', dispatchOne env bufferSize w = some w' ∧
    w'.owner.parses = w.owner.parses ++ [body]

variable {env : ServerEnv Req Res} {w : ServerWorld Req Res} {bufferSize : ℤ} {body t : Bytes}

/-- With the body in the buffer, the request is taken when the buffer is not filled up.  The
handler runs, and `Reset` leaves the read position alone. -/
lemma dispatchOne_spec (env : ServerEnv Req Res) (bufferSize : ℤ)
    (ha : AfterHeader w.reqheader w.stream.readbuf)
    (hlen : w.reqheader.getContentLength = body.length)
    (hunread : w.stream.readbuf.unread = body ++ t) :
    (¬ Roomy w.stream.readbuf ∧ dispatchOne env bufferSize w = none) ∨
    Roomy w.stream.readbuf ∧ ∃ w', dispatchOne env bufferSize w = some w' ∧
      w'.owner.parses = (onMessageRecived env w).owner.parses ∧
      w'.stream.readbuf.readpos = (onMessageRecived env w).stream.readbuf.readpos := by
  have hreset : ∀ b : ReadBuffer, b.reset.readpos = b.readpos := by
    intro b
    rw [ReadBuffer.reset, IOBuffer.reset]
    split
    · rfl
    · split <;> rfl
  rw [dispatchOne, recvPacket_eq _ ha hlen hunread]
  by_cases hroom : Roomy w.stream.readbuf
  · rw [if_pos hroom]
    exact Or.inr ⟨hroom, _, rfl, rfl, hreset _⟩
  · rw [if_neg hroom]
    exact Or.inl ⟨hroom, rfl⟩

/-- The position behind the body is the write position exactly when nothing follows, and the
read position exactly when there is no body. -/
lemma add_body (ha : w.stream.readbuf.IsRing pieces)
    (hunread : w.stream.readbuf.unread = body ++ t) :
    (w.stream.readbuf.writepos
      = Iterator.add w.stream.readbuf.que w.stream.readbuf.readpos body.length ↔ t = []) ∧
    (w.stream.readbuf.readpos
      = Iterator.add w.stream.readbuf.que w.stream.readbuf.readpos body.length ↔ body = []) := by
  have hlt := IOBuffer.used_lt ha
  have hlength := congrArg List.length hunread
  rw [List.length_append, IOBuffer.length_unread ha] at hlength
  rw [Iterator.add_eq ha.toFits ha.read_valid, ← List.length_eq_zero_iff,
    ← List.length_eq_zero_iff]
  constructor
  · rw [← IOBuffer.iterate_used ha]
    constructor
    · intro h
      have heq := Shape.iterate_inj ha.read_valid hlt (by omega) h
      omega
    · intro h
      rw [show w.stream.readbuf.used pieces = body.length by omega]
  · constructor
    · intro h
      exact (Shape.iterate_inj (j := 0) ha.read_valid (by omega) (by omega) h).symm
    · intro h
      rw [h]
      rfl

/-- A registered method: the request ends where it should when nothing follows it. -/
lemma method_boundary {method : ServiceMethod Req Res}
    (ha : AfterHeader w.reqheader w.stream.readbuf)
    (hlen : w.reqheader.getContentLength = body.length)
    (hunread : w.stream.readbuf.unread = body ++ t)
    (hpath : 1 < w.reqheader.path.length)
    (hmethod : env.getServiceAndMethod (w.reqheader.path.drop 1) = some method) :
    ParsesBody env bufferSize body w ∧ EndsBehind env bufferSize body w ↔
      t = [] ∧ Roomy w.stream.readbuf := by
  have hr := ha.reachable.isRing
  obtain ⟨hparses, hbuf⟩ := onMessageRecived_method env hr hpath hmethod
  have hreadpos := congrArg (fun b : ReadBuffer => b.readpos) hbuf
  rcases dispatchOne_spec env bufferSize ha hlen hunread with
    ⟨hfull, hnone⟩ | ⟨hroom, w', htaken, hlog, hpos⟩
  · simp [EndsBehind, hnone, hfull]
  rw [hreadpos] at hpos
  constructor
  · rintro ⟨-, w'', htaken', hend⟩
    rw [htaken, Option.some.injEq] at htaken'
    rw [← htaken', hpos] at hend
    exact ⟨(add_body hr hunread).1.mp hend, hroom⟩
  · rintro ⟨ht, -⟩
    refine ⟨⟨w', htaken, ?_⟩, w', htaken, ?_⟩
    · rw [hlog, hparses, hunread, ht, List.append_nil]
    · rw [hpos]
      exact (add_body hr hunread).1.mpr ht

/-- The list of services: the request ends where it should when it has no body. -/
lemma list_boundary (ha : AfterHeader w.reqheader w.stream.readbuf)
    (hlen : w.reqheader.getContentLength = body.length)
    (hunread : w.stream.readbuf.unread = body ++ t)
    (hpath : w.reqheader.path.length ≤ 1) :
    EndsBehind env bufferSize body w ↔ body = [] ∧ Roomy w.stream.readbuf := by
  have hr := ha.reachable.isRing
  have hreads := readsNothing_onMessageRecived env hpath
  rcases dispatchOne_spec env bufferSize ha hlen hunread with
    ⟨hfull, hnone⟩ | ⟨hroom, w', htaken, -, hpos⟩
  · simp [EndsBehind, hnone, hfull]
  rw [hreads.readbuf] at hpos
  constructor
  · rintro ⟨w'', htaken', hend⟩
    rw [htaken, Option.some.injEq] at htaken'
    rw [← htaken', hpos] at hend
    exact ⟨(add_body hr hunread).2.mp hend, hroom⟩
  · rintro ⟨hbody, -⟩
    refine ⟨w', htaken, ?_⟩
    rw [hpos]
    exact (add_body hr hunread).2.mpr hbody

end ServerConnect

open ServerConnect

/-- A request whose header is parsed and whose body is in the buffer: a registered method gets
exactly the body, and the next request is left in the buffer, exactly when nothing follows the
body; the list of services leaves the next request in the buffer exactly when there is no body.
Neither happens when the buffer is filled up. -/
theorem request_boundary_iff {Req Res : Type} (env : ServerEnv Req Res) (bufferSize : ℤ)
    {w : ServerWorld Req Res} {body t : Bytes}
    (ha : AfterHeader w.reqheader w.stream.readbuf)
    (hlen : w.reqheader.getContentLength = body.length)
    (hunread : w.stream.readbuf.unread = body ++ t) :
    (∀ method, 1 < w.reqheader.path.length →
      env.getServiceAndMethod (w.reqheader.path.drop 1) = some method →
      (ParsesBody env bufferSize body w ∧ EndsBehind env bufferSize body w ↔
        t = [] ∧ Roomy w.stream.readbuf)) ∧
    (w.reqheader.path.length ≤ 1 →
      (EndsBehind env bufferSize body w ↔ body = [] ∧ Roomy w.stream.readbuf)) :=
  ⟨fun _ => method_boundary ha hlen hunread, list_boundary ha hlen hunread⟩

/-! ## A request that is followed by another one -/

/-- A service with one method, whose messages are any bytes. -/
def anyEnv : ServerEnv Bytes Unit where
  getServiceAndMethod _ := some ⟨some, fun _ => some ()⟩
  getServiceList := []
  serialize _ b := (true, b)
  addr _ := 0

/-- A buffer that received the last byte of a header and `bs`, and gave that byte to the
parser. -/
def behindHeader (bs : Bytes) : ReadBuffer := (ReadBuffer.init.recive (10 :: bs)).advance

/-- A request for a method, without a body, with `bs` behind it. -/
def followedBy (bs : Bytes) : ServerWorld Bytes Unit where
  stream := { Stream.init with readbuf := behindHeader bs }
  ext :=
    { reqheader := { HttpRequestHeader.init with
        path := ascii "/m", state := .atEnd, bodyStart := ⟨0, 0⟩ }
      resheader := .init
      owner := .init }

lemma ReadBuffer.readpos_recive (b : ReadBuffer) (bs : Bytes) :
    (b.recive bs).readpos = b.readpos := rfl

lemma readpos_advance_of_eq {b : ReadBuffer} {it : Iterator} (h : b.readpos = it) :
    b.advance.readpos = Iterator.incr b.advance.que it := by
  rw [ReadBuffer.readpos_advance, h]
  rfl

lemma behindHeader_spec (bs : Bytes) (hlen : bs.length + 1 < maxBufferPieces * defaultBufferSize) :
    (behindHeader bs).Reachable ∧ (behindHeader bs).unread = bs := by
  have hr := ReadBuffer.isRing_init
  obtain ⟨iov, hiov⟩ : ∃ iov, ReadBuffer.init.getReciveBuffer = some iov := ⟨_, rfl⟩
  have hoffer := IOBuffer.length_offer hr hiov
  have hfits : ReadBuffer.init.used pieces + (10 :: bs).length < pieces.cap := by
    rw [used_init, cap_pieces, List.length_cons]
    omega
  have hrecived := IOBuffer.isRing_recive hr hiov (10 :: bs)
  obtain ⟨hused, hunread⟩ := IOBuffer.recive_spec hr hiov hfits
  have hnil : ReadBuffer.init.unread = [] := by
    rw [← List.length_eq_zero_iff, IOBuffer.length_unread hr, used_init]
  rw [hnil, List.nil_append] at hunread
  rw [used_init, Nat.zero_add, List.length_cons] at hused
  constructor
  · have hstep : ReadBuffer.init.Step (.recive (10 :: bs)) (ReadBuffer.init.recive (10 :: bs)) :=
      ⟨iov, hiov, by simp, by rw [hoffer]; omega, rfl⟩
    have hadvance : (ReadBuffer.init.recive (10 :: bs)).Step .advance (behindHeader bs) := by
      refine ⟨?_, rfl⟩
      intro hempty
      have hzero := (IOBuffer.isEmpty_iff hrecived).mp hempty
      omega
    exact (ReadBuffer.reachable_init.step hstep).step hadvance
  · exact ReadBuffer.unread_advance (b := ReadBuffer.init.recive (10 :: bs)) hrecived hunread

lemma readpos_behindHeader (bs : Bytes) :
    (behindHeader bs).readpos = Iterator.incr (behindHeader bs).que ⟨0, 0⟩ :=
  readpos_advance_of_eq (b := ReadBuffer.init.recive (10 :: bs))
    (ReadBuffer.readpos_recive ReadBuffer.init (10 :: bs))

lemma afterHeader_followedBy (bs : Bytes)
    (hlen : bs.length + 1 < maxBufferPieces * defaultBufferSize) :
    AfterHeader (followedBy bs).ext.reqheader (followedBy bs).stream.readbuf :=
  ⟨(behindHeader_spec bs hlen).1, rfl,
    ⟨show 0 < pieces.n by decide, show 0 < pieces.size 0 by decide⟩, readpos_behindHeader bs⟩

/-- A byte behind a request without a body goes to the parser of that request. -/
theorem not_request_boundary :
    ¬ ∀ (Req Res : Type) (env : ServerEnv Req Res) (bufferSize : ℤ) (w : ServerWorld Req Res)
      (body t : Bytes), AfterHeader w.reqheader w.stream.readbuf →
      w.reqheader.getContentLength = body.length → w.stream.readbuf.unread = body ++ t →
        (∀ method, 1 < w.reqheader.path.length →
          env.getServiceAndMethod (w.reqheader.path.drop 1) = some method →
          ParsesBody env bufferSize body w ∧ EndsBehind env bufferSize body w) ∧
        (w.reqheader.path.length ≤ 1 → EndsBehind env bufferSize body w) := by
  intro h
  have ha := afterHeader_followedBy [71] (by decide)
  have hunread : (followedBy [71]).stream.readbuf.unread = [] ++ [71] :=
    (behindHeader_spec [71] (by decide)).2
  have hboth := (h Bytes Unit anyEnv 1 (followedBy [71]) [] [71] ha rfl hunread).1 _ (by decide) rfl
  have hnone := (method_boundary ha rfl hunread (by decide) rfl).mp hboth
  exact absurd hnone.1 (by decide)

/-- The same request. -/
theorem request_boundary_followedBy :
    (∀ method, 1 < (followedBy [71]).ext.reqheader.path.length →
      anyEnv.getServiceAndMethod ((followedBy [71]).ext.reqheader.path.drop 1) = some method →
      (ParsesBody anyEnv 1 [] (followedBy [71]) ∧ EndsBehind anyEnv 1 [] (followedBy [71]) ↔
        ([71] : Bytes) = [] ∧ Roomy (followedBy [71]).stream.readbuf)) ∧
    ((followedBy [71]).ext.reqheader.path.length ≤ 1 →
      (EndsBehind anyEnv 1 [] (followedBy [71]) ↔
        ([] : Bytes) = [] ∧ Roomy (followedBy [71]).stream.readbuf)) :=
  request_boundary_iff anyEnv 1 (afterHeader_followedBy [71] (by decide)) rfl
    (behindHeader_spec [71] (by decide)).2

end MTRpc
