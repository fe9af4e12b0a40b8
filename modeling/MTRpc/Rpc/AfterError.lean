import MTRpc.Mio.ConnectStream
import MTRpc.Mio.Keeps
import MTRpc.Rpc.ErrorSeq
import MTRpc.Rpc.RequestDispatch

/-!
# What a connection does after an error

`OnMessageError` sets `_close_when_empty`, and the stream is closed when the error frame has been
written.  Until then it is registered for reading, and nothing in `OnReadable` looks at the flag:
`OnRecived` breaks off its loop after one packet only.  So a request that is complete in a later
READ is dispatched and answered behind the error frame, and a header that is refused, or a full
read buffer, adds another frame.

A `Watched` connect remembers the state in which `OnMessageError` marked its stream first.
`noWork_iff` says that along a run nothing is dispatched and no frame is added from then on exactly
when the bytes of later READs neither complete a request nor make the parser fail, and never find
the read buffer full.
-/

namespace MTRpc

/-- A `ServerConnect`, and the state in which `OnMessageError` first marked its stream. -/
structure Watched (Req Res : Type) where
  obj : ServerConnect Req Res
  failedAt : Option (ServerWorld Req Res)

/-- A `Watched` connect with its stream. -/
abbrev WatchedWorld (Req Res : Type) := World (MessageStream (Watched Req Res))

namespace Watched

variable {Req Res : Type}

/-- The connect without the memory. -/
def plain (w : WatchedWorld Req Res) : ServerWorld Req Res :=
  ⟨w.stream, ⟨w.reqheader, w.resheader, w.owner.obj⟩⟩

/-- A function of the connect. -/
def lift (f : ServerWorld Req Res → ServerWorld Req Res) (w : WatchedWorld Req Res) :
    WatchedWorld Req Res :=
  let w' := f (plain w)
  ⟨w'.stream, ⟨w'.reqheader, w'.resheader, ⟨w'.owner, w.owner.failedAt⟩⟩⟩

/-- The state is remembered, if none was before. -/
def note (w : WatchedWorld Req Res) : WatchedWorld Req Res :=
  w.modifyOwner fun o => { o with failedAt := o.failedAt.or (some (plain w)) }

open ServerConnect in
/-- The handlers of the stream; the state is remembered when `OnMessageError` has run. -/
def handers (env : ServerEnv Req Res) : MessageHanders (Watched Req Res) where
  handerMessageRecived := some fun _ w =>
    let w' := lift (onMessageRecived env) w
    if Fails env (plain w) then note w' else w'
  handerMessageError code w := note (lift (onMessageError code) w)

/-- The stream as `ServerConnect::Start` sets it up. -/
def stream (env : ServerEnv Req Res) : StreamClass (MessageStream (Watched Req Res)) where
  handerConnected := none
  handerReadable := none
  handerWriteable := none
  handerClose := some (lift ServerConnect.onClose)
  handerReadTimeOut := none
  handerWriteTimeOut := none
  handerMessageError := (handers env).handerMessageError
  onRecived n w := ((handers env).onRecived n w).2
  onSended n := lift (ServerConnect.onMessageSended env n)
  afterConnect := id
  connectReturnsZero := false
  afterClose := id

/-- Since the state `w₀` nothing was dispatched or parsed for a request, and nothing was added to
the write buffer. -/
structure Rests (w₀ : ServerWorld Req Res) (w : WatchedWorld Req Res) : Prop where
  log : w.owner.obj.log = w₀.owner.log
  que : w.stream.writebuf.que = w₀.stream.writebuf.que
  writepos : w.stream.writebuf.writepos = w₀.stream.writebuf.writepos

/-- Nothing has happened since `OnMessageError` marked the stream. -/
def NoWork (w : WatchedWorld Req Res) : Prop := ∀ w₀ ∈ w.owner.failedAt, Rests w₀ w

/-- The bytes in the read buffer neither complete a request nor make the parser fail. -/
def Incomplete (h : HttpRequestHeader) (b : ReadBuffer) : Prop :=
  match h.parserHeader b with
  | (.fail, _, _) => False
  | (.half, _, _) => True
  | (.overrun, _, _) => True
  | (.finish, h', b') =>
      h'.getContentLength ≤ (maxBufferPieces * defaultBufferSize : ℕ) ∧
        Iterator.sub b'.que b'.writepos h'.bodyStart - 1 < h'.getContentLength

/-- The reading comes to no handler. -/
def ReadsSilent (rets : List ReadvRet) (w : WatchedWorld Req Res) : Prop :=
  (readRounds rets w.stream.readbuf).2 ≠ .full ∧
    ((readRounds rets w.stream.readbuf).2 = .wouldBlock →
      0 < toInt32 ((readRounds rets w.stream.readbuf).1.sum : ℕ) →
        Incomplete w.reqheader (readInto rets w.stream.readbuf))

/-- An event: what is found outside the source, what the system calls return, and the mask. -/
abbrev Event (Req Res : Type) := ServerEnv Req Res × Kernel × BitVec 32

/-- The state after an event. -/
def act (w : WatchedWorld Req Res) (e : Event Req Res) : WatchedWorld Req Res :=
  ((stream e.1).onEvent e.2.1 e.2.2 w).toWorld

/-- Any event. -/
def Step (w : WatchedWorld Req Res) (e : Event Req Res) (w' : WatchedWorld Req Res) : Prop :=
  w' = act w e

/-- When the stream was marked by `OnMessageError`, an event that comes to reading comes to no
handler there. -/
def Silent (w : WatchedWorld Req Res) (e : Event Req Res) : Prop :=
  w.owner.failedAt.isSome → ¬ (stream e.1).ReturnsEarly e.2.1 e.2.2 w → Has e.2.2 eventRead →
    ReadsSilent e.2.1.reads w

/-- A fresh stream and its connect. -/
def init : WatchedWorld Req Res := ⟨.init, ⟨.init, .init, ⟨.init, none⟩⟩⟩

/-! ## What is kept -/

variable {env : ServerEnv Req Res} {w w' : WatchedWorld Req Res} {w₀ : ServerWorld Req Res}

/-- What `NoWork` is about. -/
def view (w : WatchedWorld Req Res) :
    Option (ServerWorld Req Res) × List ServerEvent × Que × Iterator :=
  (w.owner.failedAt, w.owner.obj.log, w.stream.writebuf.que, w.stream.writebuf.writepos)

/-- A marked stream with this view. -/
def Marked (v : Option (ServerWorld Req Res) × List ServerEvent × Que × Iterator)
    (w : WatchedWorld Req Res) : Prop :=
  view w = v ∧ w.stream.closeWhenEmpty = true

variable {v : Option (ServerWorld Req Res) × List ServerEvent × Que × Iterator}

/-- `OnMessageSended` does nothing for a marked stream. -/
lemma Marked.sended (h : Marked v w) (n : ℤ) :
    Marked v (lift (ServerConnect.onMessageSended env n) w) := by
  have hclose : (plain w).stream.closeWhenEmpty = true := h.2
  rw [lift, ServerConnect.onMessageSended]
  cases hp : (plain w).owner.pending with
  | nil => exact h
  | cons id rest =>
    dsimp only
    rw [if_pos hclose]
    exact h

/-- Everything but the reading keeps the view of a marked stream. -/
lemma keeps_marked (env : ServerEnv Req Res) : (stream env).KeepsChanges (Marked v) where
  change w s hs hw := by
    cases hs with
    | mark => exact ⟨hw.1, rfl⟩
    | _ => exact hw
  connected f hf := by simp [stream] at hf
  writeable f hf := by simp [stream] at hf
  sended n w hw := hw.sended n
  afterConnect _ hw := hw
  onClose d hd := by
    refine StreamClass.keeps_onClose (fun w hw => hw) (fun w hw => hw) (fun f hf w hw => ?_)
      (fun _ hw => hw) hd
    obtain rfl : lift ServerConnect.onClose = f := by simpa [stream] using hf
    exact hw

/-- Only the reading calls `OnMessageError`. -/
lemma keeps_unfailed (env : ServerEnv Req Res) :
    (stream env).KeepsChanges fun w => w.owner.failedAt = none where
  change _ _ _ hw := hw
  connected f hf := by simp [stream] at hf
  writeable f hf := by simp [stream] at hf
  sended _ _ hw := hw
  afterConnect _ hw := hw
  onClose d hd := by
    refine StreamClass.keeps_onClose (P := fun w : WatchedWorld Req Res => w.owner.failedAt = none)
      (fun w hw => hw) (fun w hw => hw) (fun f hf w hw => ?_) (fun _ hw => hw) hd
    obtain rfl : lift ServerConnect.onClose = f := by simpa [stream] using hf
    exact hw

/-- The view when nothing has happened since the state `w₀`. -/
def rest (w₀ : ServerWorld Req Res) :
    Option (ServerWorld Req Res) × List ServerEvent × Que × Iterator :=
  (some w₀, w₀.owner.log, w₀.stream.writebuf.que, w₀.stream.writebuf.writepos)

/-- The invariant: when `OnMessageError` has marked the stream, nothing has happened since. -/
def Inv (w : WatchedWorld Req Res) : Prop :=
  w.owner.failedAt = none ∨ ∃ w₀, Marked (rest w₀) w

lemma noWork_of_inv (h : Inv w) : NoWork w := by
  rintro w₀ hw₀
  have hw₀ : w.owner.failedAt = some w₀ := hw₀
  rcases h with hnone | ⟨w₁, hview, -⟩
  · rw [hnone] at hw₀
    exact absurd hw₀ (by simp)
  · obtain ⟨hfailed, hlog, hque, hwritepos⟩ : w.owner.failedAt = some w₁ ∧
        w.owner.obj.log = w₁.owner.log ∧ w.stream.writebuf.que = w₁.stream.writebuf.que ∧
        w.stream.writebuf.writepos = w₁.stream.writebuf.writepos := by
      simpa [view, rest] using hview
    obtain rfl : w₁ = w₀ := Option.some.inj (hfailed.symm.trans hw₀)
    exact ⟨hlog, hque, hwritepos⟩

/-- Something has happened since the state `w₀`. -/
def Worked (w₀ : ServerWorld Req Res) (w : WatchedWorld Req Res) : Prop :=
  ∃ v, v.1 = some w₀ ∧ v ≠ rest w₀ ∧ Marked v w

lemma Worked.not_noWork (h : Worked w₀ w) : ¬ NoWork w := by
  intro hwork
  obtain ⟨_, hfailed, hne, rfl, -⟩ := h
  obtain ⟨hlog, hque, hwritepos⟩ := hwork w₀ hfailed
  have hfailed : w.owner.failedAt = some w₀ := hfailed
  exact hne (by rw [view, rest, hfailed, hlog, hque, hwritepos])

/-! ## The handlers -/

/-- The state that is remembered is the present one. -/
lemma inv_note (hnone : w.owner.failedAt = none) (hclose : w.stream.closeWhenEmpty = true) :
    Inv (note w) := by
  refine Or.inr ⟨plain w, ?_, hclose⟩
  simp only [view, rest, note, plain, World.modifyOwner, hnone, Option.none_or]

variable (env) in
/-- Before an error, the handlers establish the invariant. -/
lemma inv_messageError (code : ErrorCode) (hnone : w.owner.failedAt = none) :
    Inv ((handers env).handerMessageError code w) :=
  inv_note hnone rfl

variable (env) in
lemma inv_processPacket (n : ℤ) (hnone : w.owner.failedAt = none) :
    Inv ((handers env).processPacket n w).2 := by
  rw [MessageHanders.processPacket, handers]
  dsimp only
  by_cases hfails : ServerConnect.Fails env (plain w)
  · rw [if_pos hfails]
    have hclose := (ServerConnect.closeWhenEmpty_recived env (plain w)).mpr (Or.inl hfails)
    exact inv_note (w := lift (ServerConnect.onMessageRecived env) w) hnone hclose
  · rw [if_neg hfails]
    exact Or.inl hnone

lemma note_of_failed (h : w.owner.failedAt = some w₀) : note w = w := by
  have hsame : w.owner.failedAt.or (some (plain w)) = w.owner.failedAt := by rw [h, Option.some_or]
  rw [note, World.modifyOwner, hsame]

/-- A function of the connect that leaves a trace, on a marked stream. -/
lemma marked_lift {f : ServerWorld Req Res → ServerWorld Req Res} (h : Marked (rest w₀) w)
    (hclose : (f (plain w)).stream.closeWhenEmpty = true)
    (htrace : (f (plain w)).owner.log ≠ (plain w).owner.log ∨
      (f (plain w)).stream.writebuf.writepos ≠ (plain w).stream.writebuf.writepos) :
    (lift f w).owner.failedAt = some w₀ ∧ Worked w₀ (lift f w) := by
  have hfailed : w.owner.failedAt = some w₀ := congrArg Prod.fst h.1
  refine ⟨hfailed, view (lift f w), hfailed, ?_, rfl, hclose⟩
  intro heq
  have hsame : view (lift f w) = view w := heq.trans h.1.symm
  rcases htrace with hlog | hwritepos
  · exact hlog (congrArg (fun v => v.2.1) hsame)
  · exact hwritepos (congrArg (fun v => v.2.2.2) hsame)

/-- An error frame starts at the next piece. -/
lemma writepos_messageError (code : ErrorCode) (w : ServerWorld Req Res) :
    (ServerConnect.onMessageError code w).stream.writebuf.writepos
      ≠ w.stream.writebuf.writepos := by
  intro heq
  have hidx : (w.stream.writebuf.writepos.idx + 1) % maxBufferPieces
      = w.stream.writebuf.writepos.idx := congrArg (fun it : Iterator => it.idx) heq
  rw [maxBufferPieces] at hidx
  omega

/-- A request leaves a call in the log or an error frame. -/
lemma trace_recived (env : ServerEnv Req Res) (w : ServerWorld Req Res) :
    (ServerConnect.onMessageRecived env w).owner.log ≠ w.owner.log ∨
      (ServerConnect.onMessageRecived env w).stream.writebuf.writepos
        ≠ w.stream.writebuf.writepos := by
  rcases ServerConnect.onMessageRecived_ends env w with ⟨-, code, w', heq, -, -, hbuf⟩ |
    ⟨messages, c, w', hsome, -⟩
  · rw [heq, ← hbuf]
    exact Or.inr (writepos_messageError code w')
  · -- the call is in the queue, so it was dispatched
    have hpending := ServerConnect.pending_handed hsome
    rcases ServerConnect.onMessageRecived_cases env w with hk | ⟨seq, hd⟩
    · rw [hk.pending] at hpending
      simp at hpending
    · refine Or.inl fun hlog => ?_
      have hsame : (ServerConnect.onMessageRecived env w).owner.dispatched
          = w.owner.dispatched := by rw [ServerConnect.dispatched, hlog, ServerConnect.dispatched]
      rw [hd.dispatched] at hsame
      simp at hsame

/-- An error frame on a marked stream. -/
lemma marked_messageError (code : ErrorCode) (h : Marked (rest w₀) w) :
    Worked w₀ ((handers env).handerMessageError code w) := by
  obtain ⟨hfailed, hv⟩ := marked_lift (f := ServerConnect.onMessageError code) h rfl
    (Or.inr (writepos_messageError code _))
  rw [handers]
  dsimp only
  rw [note_of_failed hfailed]
  exact hv

variable (env) in
/-- A request that is taken on a marked stream. -/
lemma marked_processPacket (n : ℤ) (h : Marked (rest w₀) w) :
    Worked w₀ ((handers env).processPacket n w).2 := by
  have hclose := (ServerConnect.closeWhenEmpty_recived env (plain w)).mpr (Or.inr h.2)
  obtain ⟨hfailed, v, hv, hne, hmarked⟩ := marked_lift h hclose (trace_recived env _)
  refine ⟨v, hv, hne, ?_⟩
  rw [MessageHanders.processPacket, handers]
  dsimp only
  rw [note_of_failed hfailed, ite_self]
  exact hmarked

/-! ## Reading -/

/-- A header that cannot be parsed comes to a handler. -/
lemma not_incomplete_fail {h : HttpRequestHeader} {b : ReadBuffer}
    (hfail : (h.parserHeader b).1 = .fail) : ¬ Incomplete h b := by
  intro hin
  rw [Incomplete] at hin
  rcases hp : h.parserHeader b with ⟨ret, h', b'⟩
  obtain rfl : ret = .fail := by simpa [hp] using hfail
  simp [hp] at hin

/-- `OnRecived` with bytes that come to no handler. -/
lemma onRecived_incomplete {σ : Type} (h : MessageHanders σ) (n : ℤ)
    {w : World (MessageStream σ)} (hin : Incomplete w.reqheader w.stream.readbuf) :
    (h.onRecived n w).2 = w.parsed := by
  rw [Incomplete] at hin
  rw [MessageHanders.onRecived, MessageHanders.recvLoop, MessageHanders.recvPacket, World.parsed]
  dsimp only
  rcases hp : w.reqheader.parserHeader w.stream.readbuf with ⟨ret, h', b'⟩
  rw [hp] at hin
  cases ret with
  | fail => exact absurd hin not_false
  | half => rfl
  | overrun => rfl
  | finish =>
    dsimp only at hin ⊢
    rw [if_neg (not_lt.mpr hin.1), if_pos hin.2]

/-- `OnRecived` with others, when a request that is taken ends the loop. -/
lemma onRecived_complete {σ : Type} (h : MessageHanders σ) (n : ℤ)
    {w : World (MessageStream σ)} (hin : ¬ Incomplete w.reqheader w.stream.readbuf)
    (hends : ∀ left, (h.processPacket left w.parsed).2.stream.closeWhenEmpty = true) :
    (∃ code, (h.onRecived n w).2 = h.handerMessageError code w.parsed) ∨
      ∃ left, (h.onRecived n w).2 = (h.processPacket left w.parsed).2 := by
  rw [Incomplete] at hin
  rw [MessageHanders.onRecived, MessageHanders.recvLoop, MessageHanders.recvPacket]
  rw [World.parsed] at hends ⊢
  dsimp only
  rcases hp : w.reqheader.parserHeader w.stream.readbuf with ⟨ret, h', b'⟩
  rw [hp] at hin hends
  cases ret with
  | fail => exact Or.inl ⟨_, rfl⟩
  | half => exact absurd trivial hin
  | overrun => exact absurd trivial hin
  | finish =>
    dsimp only at hin ⊢
    by_cases hlong : (maxBufferPieces * defaultBufferSize : ℕ) < h'.getContentLength
    · rw [if_pos hlong]
      exact Or.inl ⟨_, rfl⟩
    · have hall : ¬ Iterator.sub b'.que b'.writepos h'.bodyStart - 1 < h'.getContentLength :=
        fun hless => hin ⟨not_lt.mp hlong, hless⟩
      rw [if_neg hlong, if_neg hall]
      dsimp only
      rw [if_pos (hends _)]
      exact Or.inr ⟨_, rfl⟩

variable (env) in
/-- The first half of a round, before an error. -/
lemma unfailed_recvPacket (n : ℤ) (hnone : w.owner.failedAt = none) :
    Inv ((handers env).recvPacket n w).2 ∧ (((handers env).recvPacket n w).1.isRight = true →
      ((handers env).recvPacket n w).2.owner.failedAt = none) := by
  rw [MessageHanders.recvPacket]
  dsimp only
  rcases w.reqheader.parserHeader w.stream.readbuf with ⟨ret, h', b'⟩
  cases ret with
  | fail => exact ⟨inv_messageError env _ hnone, by simp⟩
  | half => exact ⟨Or.inl hnone, by simp⟩
  | overrun => exact ⟨Or.inl hnone, by simp⟩
  | finish =>
    dsimp only
    split
    · exact ⟨inv_messageError env _ hnone, by simp⟩
    split
    · exact ⟨Or.inl hnone, by simp⟩
    · exact ⟨Or.inl hnone, fun _ => hnone⟩

/-- The loop of `OnRecived` goes on only when a request has left no error. -/
lemma inv_recvLoop (fuel : ℕ) (n : ℤ) (hnone : w.owner.failedAt = none) :
    Inv ((handers env).recvLoop fuel n w).2 := by
  induction fuel generalizing n w with
  | zero => exact Or.inl hnone
  | succ fuel ih =>
    obtain ⟨hinv, hright⟩ := unfailed_recvPacket env n hnone
    rw [MessageHanders.recvLoop]
    rcases hp : (handers env).recvPacket n w with ⟨ret | left, w'⟩
    · rw [hp] at hinv
      exact hinv
    · rw [hp] at hright
      have hpacket := inv_processPacket env left (hright rfl)
      dsimp only
      split
      · exact hpacket
      rename_i hopen
      split
      · refine ih _ (hpacket.resolve_right ?_)
        rintro ⟨w₀, -, hclose⟩
        exact hopen hclose
      · exact hpacket

/-- The world when `OnReadable` ends. -/
def readEnd (env : ServerEnv Req Res) (reads : List ReadvRet) (w : WatchedWorld Req Res) :
    WatchedWorld Req Res :=
  ((stream env).onReadable reads ⟨w, []⟩).2.toWorld

lemma readEnd_eq (env : ServerEnv Req Res) (reads : List ReadvRet) (w : WatchedWorld Req Res) :
    readEnd env reads w =
      match (readRounds reads w.stream.readbuf).2 with
      | .full => (handers env).handerMessageError .serverReadbufferFull (w.reads reads)
      | .closed => w.reads reads
      | .wouldBlock =>
          let size := toInt32 ((readRounds reads w.stream.readbuf).1.sum : ℕ)
          if 0 < size then ((handers env).onRecived size (w.reads reads)).2 else w.reads reads := by
  rw [readEnd, StreamClass.onReadable, StreamClass.readLoop_toWorld, Nat.zero_add]
  rfl

/-- Reading before an error. -/
lemma inv_readEnd (reads : List ReadvRet) (hnone : w.owner.failedAt = none) :
    Inv (readEnd env reads w) := by
  rw [readEnd_eq]
  split
  · exact inv_messageError env (w := w.reads reads) _ hnone
  · exact Or.inl hnone
  · dsimp only
    split
    · exact inv_recvLoop (w := w.reads reads) _ _ hnone
    · exact Or.inl hnone

/-- Silent reading. -/
lemma marked_readEnd_silent (reads : List ReadvRet) (h : Marked v w)
    (hsilent : ReadsSilent reads w) : Marked v (readEnd env reads w) := by
  obtain ⟨hroom, hin⟩ := hsilent
  rw [readEnd_eq]
  split
  · rename_i hfull
    exact absurd hfull hroom
  · exact h
  · rename_i hblock
    dsimp only
    split
    · rename_i hsome
      rw [onRecived_incomplete (w := w.reads reads) _ _ (hin hblock hsome)]
      exact h
    · exact h

/-- Reading that comes to a handler. -/
lemma marked_readEnd_loud (reads : List ReadvRet) (h : Marked (rest w₀) w)
    (hloud : ¬ ReadsSilent reads w) :
    Worked w₀ (readEnd env reads w) := by
  have hreads : Marked (rest w₀) (w.reads reads) := h
  rw [readEnd_eq]
  split
  · exact marked_messageError _ hreads
  · rename_i hclosed
    exact absurd ⟨by simp [hclosed], by simp [hclosed]⟩ hloud
  · rename_i hblock
    rw [ReadsSilent, hblock] at hloud
    simp only [ne_eq, reduceCtorEq, not_false_eq_true, true_and, forall_const, not_forall]
      at hloud
    obtain ⟨hsome, hcomplete⟩ := hloud
    dsimp only
    rw [if_pos hsome]
    have hparsed : Marked (rest w₀) (w.reads reads).parsed := h
    rcases onRecived_complete (handers env) _ (w := w.reads reads) hcomplete (fun left => by
        obtain ⟨_, -, -, -, hclose⟩ := marked_processPacket env left hparsed
        exact hclose) with ⟨code, heq⟩ | ⟨left, heq⟩
    · rw [heq]
      exact marked_messageError code hparsed
    · rw [heq]
      exact marked_processPacket env left hparsed

/-! ## Events -/

lemma connectFirst_eq (env : ServerEnv Req Res) (k : Kernel) (mask : BitVec 32)
    (w : WatchedWorld Req Res) :
    ∃ b, ((stream env).connectFirst k mask ⟨w, []⟩).2.toWorld
      = { w with stream := { w.stream with isConnected := b } } := by
  rw [StreamClass.connectFirst]
  split
  · dsimp only
    rw [StreamClass.onConnect]
    cases k.names with
    | true => exact ⟨true, rfl⟩
    | false => exact ⟨w.stream.isConnected, rfl⟩
  · exact ⟨_, rfl⟩

/-- A change of `_isConnected`. -/
def connect (b : Bool) (w : WatchedWorld Req Res) : WatchedWorld Req Res :=
  { w with stream := { w.stream with isConnected := b } }

/-- An event that does not return early keeps of a property what the reading keeps of it. -/
lemma act_reads {k : Kernel} {mask : BitVec 32} (hearly : ¬ (stream env).ReturnsEarly k mask w) :
    ∃ b, ∀ P : WatchedWorld Req Res → Prop, (stream env).KeepsChanges P →
      (∀ w : WatchedWorld Req Res, P w → P { w with stream := w.stream.releaseRef }) →
      P (if Has mask eventRead then readEnd env k.reads (connect b w) else connect b w) →
      P (act w (env, k, mask)) := by
  obtain ⟨b, hb⟩ := connectFirst_eq env k mask w
  refine ⟨b, ?_⟩
  intro P hc hrelease hread
  have htimes : ∀ d : Dispatch (MessageStream (Watched Req Res)), P d.toWorld →
      P ((stream env).timeOuts mask d).toWorld := fun d hd =>
    StreamClass.keeps_timeOuts hrelease (by simp [stream]) (by simp [stream]) mask hd
  have hcalls := StreamClass.calls_connectFirst (c := stream env) k mask ⟨w, []⟩
  rw [act, StreamClass.onEvent_eq_process hearly]
  refine hc.process hc k mask htimes ?_
  generalize ((stream env).connectFirst k mask ⟨w, []⟩).2 = d at hb hcalls ⊢
  obtain ⟨w', calls⟩ := d
  obtain rfl : calls = [] := hcalls
  obtain rfl : w' = connect b w := hb
  by_cases hmask : Has mask eventRead
  · rw [if_pos hmask] at hread ⊢
    exact hread
  · rw [if_neg hmask] at hread ⊢
    exact hread

lemma inv_init : Inv (init : WatchedWorld Req Res) := Or.inl rfl

/-- A silent event keeps the invariant. -/
lemma inv_act {e : Event Req Res} (h : Inv w) (hsilent : Silent w e) : Inv (act w e) := by
  obtain ⟨env, k, mask⟩ := e
  by_cases hearly : (stream env).ReturnsEarly k mask w
  · rcases h with hnone | ⟨w₀, h⟩
    · exact Or.inl ((keeps_unfailed env).onEvent_early hearly hnone)
    · exact Or.inr ⟨w₀, (keeps_marked env).onEvent_early hearly h⟩
  obtain ⟨b, hb⟩ := act_reads hearly
  -- what the reading leaves
  have hread : Inv (if Has mask eventRead then readEnd env k.reads (connect b w)
      else connect b w) := by
    rcases h with hnone | ⟨w₀, h⟩
    · split
      · exact inv_readEnd (w := connect b w) _ hnone
      · exact Or.inl hnone
    · refine Or.inr ⟨w₀, ?_⟩
      split
      · rename_i hmask
        have hfailed : w.owner.failedAt = some w₀ := congrArg Prod.fst h.1
        have hreads : ReadsSilent k.reads w := hsilent (by simp [hfailed]) hearly hmask
        exact marked_readEnd_silent (w := connect b w) _ h hreads
      · exact h
  rcases hread with hnone | ⟨w₀, h⟩
  · exact Or.inl (hb _ (keeps_unfailed env) (fun _ hw => hw) hnone)
  · exact Or.inr ⟨w₀, hb _ (keeps_marked env) (fun _ hw => hw) h⟩

/-- Another one breaks the property. -/
lemma not_noWork_act {e : Event Req Res} (h : Inv w) (hloud : ¬ Silent w e) :
    ¬ NoWork (act w e) := by
  obtain ⟨env, k, mask⟩ := e
  simp only [Silent, not_forall] at hloud
  obtain ⟨hsome, hearly, hmask, hloud⟩ := hloud
  rcases h with hnone | ⟨w₀, h⟩
  · simp [hnone] at hsome
  obtain ⟨b, hb⟩ := act_reads hearly
  obtain ⟨v, hv, hne, hmarked⟩ : Worked w₀ (readEnd env k.reads (connect b w)) :=
    marked_readEnd_loud k.reads h hloud
  have hend : Marked v (act w (env, k, mask)) :=
    hb _ (keeps_marked env) (fun _ hw => hw) (by rwa [if_pos hmask])
  exact Worked.not_noWork ⟨v, hv, hne, hend⟩

end Watched

open Watched

/-- Along every run of a server connection nothing is dispatched and no frame is added after
`OnMessageError` has marked the stream if and only if no later event reads until the buffer is
full, or bytes that complete a request or make the parser fail. -/
theorem noWork_iff {Req Res : Type} {h : List (WatchedWorld Req Res × Event Req Res)}
    {w : WatchedWorld Req Res} (hrun : Exec.Run Step init h w) :
    Exec.Always NoWork h w ↔ Exec.Admits Silent h :=
  Exec.Run.always_iff inv_init (fun _ => noWork_of_inv)
    (fun s a t hinv hok (hst : t = act s a) => hst ▸ inv_act hinv hok)
    (fun s a t hinv hno (hst : t = act s a) => hst ▸ not_noWork_act hinv hno) hrun

/-! ## A parser that fails again -/

/-- `OnRecived` with a header that cannot be parsed. -/
lemma onRecived_fail {σ : Type} (h : MessageHanders σ) (n : ℤ) {w : World (MessageStream σ)}
    (hfail : (w.reqheader.parserHeader w.stream.readbuf).1 = .fail) :
    (h.onRecived n w).2 = h.handerMessageError .httpParserFail w.parsed := by
  rw [MessageHanders.onRecived, MessageHanders.recvLoop, MessageHanders.recvPacket, World.parsed]
  dsimp only
  rcases hp : w.reqheader.parserHeader w.stream.readbuf with ⟨ret, h', b'⟩
  obtain rfl : ret = .fail := by simpa [hp] using hfail
  rfl

/-- An event that only reads, and finds the stream marked. -/
lemma process_read {σ : Type} (c : StreamClass σ) (k : Kernel) {d : Dispatch σ}
    (hclose : (c.onReadable k.reads d).2.stream.closeWhenEmpty = true) :
    c.process k eventRead d = c.closeOrMark (c.onReadable k.reads d).2 := by
  have hread : Has eventRead eventRead := by decide
  have hwrite : ¬ Has eventRead eventWrite := by decide
  have htimes : ∀ d : Dispatch σ, c.timeOuts eventRead d = d := fun d => by
    rw [StreamClass.timeOuts, if_neg (by decide), if_neg (by decide)]
  simp only [StreamClass.process, if_pos hread, if_neg hwrite, htimes]
  exact if_pos (Or.inr (Or.inr hclose))

section

variable {Req Res : Type} {w : WatchedWorld Req Res} {bs : Bytes} {ne : bs ≠ []}

/-- Bytes that are read when there is room before and behind them. -/
lemma reads_data {rb : ReadBuffer} (hroom : (readRounds [.data bs ne] rb).2 ≠ .full) :
    readRounds [.data bs ne] rb = ([bs.length], .wouldBlock) ∧
      readInto [.data bs ne] rb = rb.recive bs := by
  rw [readRounds.eq_def] at hroom ⊢
  rw [readInto]
  cases hg : rb.getReciveBuffer with
  | none => simp [hg] at hroom
  | some iov =>
    simp only [hg] at hroom ⊢
    rw [readRounds.eq_def] at hroom ⊢
    cases hg' : (rb.recive bs).getReciveBuffer with
    | none => simp [hg'] at hroom
    | some iov' =>
      simp only [hg', readInto]
      exact ⟨trivial, trivial⟩

/-- Bytes at which the parser fails are not silent. -/
lemma not_readsSilent (hsize : 0 < toInt32 bs.length)
    (hfail : (w.reqheader.parserHeader (w.stream.readbuf.recive bs)).1 = .fail) :
    ¬ ReadsSilent [.data bs ne] w := by
  rintro ⟨hroom, hin⟩
  obtain ⟨hrounds, hinto⟩ := reads_data hroom
  rw [hrounds, hinto] at hin
  have hsum : 0 < toInt32 ([bs.length].sum : ℕ) := by rwa [List.sum_singleton]
  exact not_incomplete_fail hfail (hin rfl hsum)

lemma not_returnsEarly (env : ServerEnv Req Res) (hopen : w.stream.isClosed = false)
    (reads : List ReadvRet) : ¬ (stream env).ReturnsEarly ⟨true, reads, []⟩ eventRead w := by
  rintro (hclosed | hclose | herr | ⟨-, -, hnames, -⟩)
  · rw [hopen] at hclosed
    exact Bool.false_ne_true hclosed
  · exact absurd hclose (by decide)
  · exact absurd herr (by decide)
  · exact absurd hnames (by simp)

/-- The reading of such bytes ends with an error frame. -/
lemma readEnd_fail (env : ServerEnv Req Res)
    (hroom : (readRounds [.data bs ne] w.stream.readbuf).2 ≠ .full)
    (hsize : 0 < toInt32 bs.length)
    (hfail : (w.reqheader.parserHeader (w.stream.readbuf.recive bs)).1 = .fail) :
    readEnd env [.data bs ne] w
      = (handers env).handerMessageError .httpParserFail (w.recived bs).parsed := by
  obtain ⟨hrounds, hinto⟩ := reads_data hroom
  have hreads : w.reads [.data bs ne] = w.recived bs := by rw [World.reads, World.recived, hinto]
  rw [readEnd_eq, hrounds, hreads]
  dsimp only
  rw [List.sum_singleton, if_pos hsize]
  exact onRecived_fail _ _ hfail

/-- The event of an open stream in which they come, when the write buffer is empty. -/
lemma act_fail {env : ServerEnv Req Res} {e : Event Req Res}
    (he : e = (env, ⟨true, [.data bs ne], []⟩, eventRead)) (hopen : w.stream.isClosed = false)
    (hempty : w.stream.writebuf.isEmpty)
    (hroom : (readRounds [.data bs ne] w.stream.readbuf).2 ≠ .full)
    (hsize : 0 < toInt32 bs.length)
    (hfail : (w.reqheader.parserHeader (w.stream.readbuf.recive bs)).1 = .fail) :
    (act w e).stream.isClosed = false ∧ (act w e).owner.failedAt.isSome = true ∧
      (act w e).reqheader = (w.reqheader.parserHeader (w.stream.readbuf.recive bs)).2.1 ∧
      (act w e).stream.readbuf = (w.reqheader.parserHeader (w.stream.readbuf.recive bs)).2.2 := by
  subst he
  obtain ⟨b, hb⟩ := connectFirst_eq env ⟨true, [.data bs ne], []⟩ eventRead w
  have hcalls := StreamClass.calls_connectFirst (c := stream env) ⟨true, [.data bs ne], []⟩
    eventRead ⟨w, []⟩
  rw [act, StreamClass.onEvent_eq_process (not_returnsEarly env hopen _)]
  generalize ((stream env).connectFirst ⟨true, [.data bs ne], []⟩ eventRead ⟨w, []⟩).2 = d
    at hb hcalls ⊢
  obtain ⟨w', calls⟩ := d
  obtain rfl : calls = [] := hcalls
  obtain rfl : w' = connect b w := hb
  have hend : ((stream env).onReadable [.data bs ne] ⟨connect b w, []⟩).2.toWorld
      = (handers env).handerMessageError .httpParserFail ((connect b w).recived bs).parsed :=
    readEnd_fail (w := connect b w) env hroom hsize hfail
  -- the frame is not empty, so the stream stays open
  have hclose : ((stream env).onReadable [.data bs ne]
      ⟨connect b w, []⟩).2.stream.closeWhenEmpty = true := by
    rw [hend]
    rfl
  have hfull : ¬ ((stream env).onReadable [.data bs ne]
      ⟨connect b w, []⟩).2.stream.writebuf.isEmpty := by
    rw [hend]
    intro hframe
    have hmoved := writepos_messageError .httpParserFail (plain ((connect b w).recived bs).parsed)
    exact hmoved (hframe.symm.trans hempty)
  rw [process_read _ _ hclose, StreamClass.closeOrMark, if_neg hfull]
  simp only [Dispatch.call, hend]
  refine ⟨hopen, ?_, rfl, rfl⟩
  simp [handers, note, World.modifyOwner]

end

/-- A request without a path. -/
def noPathText : Bytes := ascii "GET  "

/-- It comes. -/
def noPath : Event Unit Unit :=
  (noMethodEnv, ⟨true, [.data noPathText (by decide)], []⟩, eventRead)

/-- One more byte comes. -/
def oneMore : Event Unit Unit := (noMethodEnv, ⟨true, [.data [88] (by decide)], []⟩, eventRead)

/-- The history of the two events. -/
def noPathHistory : List (WatchedWorld Unit Unit × Event Unit Unit) :=
  [(init, noPath), (act init noPath, oneMore)]

lemma run_noPathHistory :
    Exec.Run Step init noPathHistory (act (act init noPath) oneMore) := by
  have hone : Exec.Run Step init [(init, noPath)] (act init noPath) := Exec.Run.nil.snoc rfl
  exact hone.snoc rfl

/-- The read buffer with the request. -/
def noPathRead : ReadBuffer := ReadBuffer.init.recive noPathText

/-- What the parser makes of the request. -/
def noPathScan : Scanner.Res HttpRequestHeader ParserLocals ParserRet :=
  HttpRequestHeader.parser.machine.scan .init .fresh ((pieces.walk ⟨0, 0⟩ 5).zip noPathText)

lemma tape_noPathRead : noPathRead.IsRing pieces ∧ noPathRead.used pieces = 5 ∧
    noPathRead.tape = (pieces.walk ⟨0, 0⟩ 5).zip noPathText :=
  ReadBuffer.recive_empty ReadBuffer.isRing_init rfl noPathText (by rw [cap_pieces]; decide)

lemma parse_noPath : HttpRequestHeader.init.parserHeader noPathRead
    = (.fail, noPathScan.obj, ReadBuffer.advance^[4] noPathRead) := by
  obtain ⟨hr, -, htape⟩ := tape_noPathRead
  have hret : noPathScan.ret = .fail := by decide +kernel
  have hused : noPathScan.used = 4 := by decide +kernel
  have hparse := HttpRequestHeader.parser.parse_eq (h := .init) hr
  rw [htape] at hparse
  rw [← hret, ← hused]
  exact hparse

/-- The parser finds the second space again. -/
lemma parse_oneMore :
    (noPathScan.obj.parserHeader ((ReadBuffer.advance^[4] noPathRead).recive [88])).1 = .fail := by
  obtain ⟨hr, hused, htape⟩ := tape_noPathRead
  have hcap : pieces.cap = 8388608 := cap_pieces
  obtain ⟨hrest, hleft⟩ := ReadBuffer.tape_iterate_advance hr (n := 4) (by omega)
  have hra := ReadBuffer.isRing_iterate_advance hr 4
  obtain ⟨hrr, -, hmore⟩ := ReadBuffer.tape_recive hra [88] (by omega) (by
    rw [hleft, hused, hcap]
    decide)
  have hwrite : (ReadBuffer.advance^[4] noPathRead).writepos = pieces.next^[5] ⟨0, 0⟩ := by
    rw [ReadBuffer.writepos_iterate_advance]
    change (ReadBuffer.init.toIOBuffer.recive noPathText).writepos = _
    rw [IOBuffer.writepos_recive ReadBuffer.isRing_init rfl, used_init]
    rfl
  have hparse := HttpRequestHeader.parser.parse_eq (h := noPathScan.obj) hrr
  rw [hmore, hrest, htape, hwrite] at hparse
  refine (congrArg Prod.fst hparse).trans ?_
  decide +kernel

/-- The second event is not silent. -/
lemma not_silent_oneMore : ¬ Silent (act init noPath) oneMore := by
  have hroom : (readRounds [.data noPathText (by decide)] ReadBuffer.init).2 ≠ .full := by
    obtain ⟨iov, hiov⟩ := exists_getReciveBuffer (show ReadBuffer.init.readpos.pos = 0 from rfl)
    obtain ⟨iov', hiov'⟩ := exists_getReciveBuffer
      (show (ReadBuffer.init.recive noPathText).readpos.pos = 0 from rfl)
    simp only [readRounds, hiov, hiov']
    exact ReadExit.noConfusion
  obtain ⟨hopen, hfailed, hheader, hbuf⟩ := act_fail (e := noPath) (w := init) rfl rfl rfl
    hroom (by decide) (congrArg Prod.fst parse_noPath)
  have hfail : ((act init noPath).reqheader.parserHeader
      ((act init noPath).stream.readbuf.recive [88])).1 = .fail := by
    have hparse : (init : WatchedWorld Unit Unit).reqheader.parserHeader
        ((init : WatchedWorld Unit Unit).stream.readbuf.recive noPathText) = _ := parse_noPath
    rw [hheader, hbuf, hparse]
    exact parse_oneMore
  intro hsilent
  have hearly := not_returnsEarly noMethodEnv (w := act init noPath) hopen
    [.data [88] (by decide)]
  have hmask : Has eventRead eventRead := by decide
  have hreads := hsilent hfailed hearly hmask
  exact not_readsSilent (by decide) hfail hreads

lemma inv_act_noPath : Inv (act init noPath) :=
  inv_act inv_init fun hsome => by simp [init] at hsome

/-- After an error in the first header, the parser fails again at the next byte, and there is
another error frame. -/
theorem not_noWork :
    ¬ ∀ (Req Res : Type) (h : List (WatchedWorld Req Res × Event Req Res))
      (w : WatchedWorld Req Res), Exec.Run Step init h w → Exec.Always NoWork h w := by
  intro hall
  exact not_noWork_act inv_act_noPath not_silent_oneMore (hall Unit Unit _ _ run_noPathHistory).2

/-- The run with the one request. -/
theorem noWork_noPath :
    Exec.Always NoWork [(init, noPath)] (act init noPath) ↔ Exec.Admits Silent [(init, noPath)] :=
  noWork_iff (Exec.Run.nil.snoc rfl)

end MTRpc
