import MTRpc.Mio.References
import MTRpc.Rpc.Wiring

/-!
# The references of the streams of servers and channels

The handlers of a `ServerConnect` and of a `RpcChannelImpl` leave the count of their stream
alone, but for `OnClose`, which gives back the reference that the constructor or `Connect` took.
So the count of either stream is the number of holders along the runs of `counted_iff`.
-/

namespace MTRpc

/-! ## `OnRecived` -/

section

variable {σ : Type} {h : MessageHanders σ}

lemma keeps_sameAs (hrecived : ∀ f ∈ h.handerMessageRecived, ∀ n, SameCount (f n))
    (herror : ∀ code, SameCount (h.handerMessageError code)) (w : World (MessageStream σ)) :
    h.Keeps fun w' => w'.SameAs w where
  parsed _ _ _ _ hw := hw
  recived f hf n w' hw := (hrecived f hf n w').trans hw
  error code w' hw := (herror code w').trans hw

end

/-! ## The parts of the world -/

namespace World

variable {σ : Type} (w : World (MessageStream σ))

lemma sameAs_modifyOwner (f : σ → σ) : (w.modifyOwner f).SameAs w := ⟨rfl, rfl⟩

lemma sameAs_modifyReq (f : HttpRequestHeader → HttpRequestHeader) : (w.modifyReq f).SameAs w :=
  ⟨rfl, rfl⟩

lemma sameAs_modifyRes (f : HttpReponseHeader → HttpReponseHeader) : (w.modifyRes f).SameAs w :=
  ⟨rfl, rfl⟩

lemma sameAs_modifyBuf (f : WriteBuffer → WriteBuffer) : (w.modifyBuf f).SameAs w := ⟨rfl, rfl⟩

end World

open World

/-! ## Server -/

namespace ServerConnect

variable {Req Res : Type}

lemma sameCount_onMessageError (code : ErrorCode) :
    SameCount (onMessageError code : ServerWorld Req Res → ServerWorld Req Res) :=
  fun _ => ⟨rfl, rfl⟩

lemma sameCount_sendError (code : ErrorCode) (id : ℕ) :
    SameCount (sendError code id : ServerWorld Req Res → ServerWorld Req Res) :=
  fun w => (sameAs_modifyOwner _ _).trans (sameCount_onMessageError code w)

lemma sameCount_putResponse (id : ℕ) (packetStart bodyStart : Iterator) :
    SameCount (putResponse id packetStart bodyStart : ServerWorld Req Res → ServerWorld Req Res) :=
  fun _ => ⟨rfl, rfl⟩

lemma sameCount_sendResponse (env : ServerEnv Req Res) (id : ℕ) (response : Res) :
    SameCount (sendResponse env id response) := by
  intro w
  rw [sendResponse]
  split
  · exact (sameCount_sendError _ _ _).trans (sameAs_modifyBuf _ _)
  · have hbuf := ((sameAs_modifyBuf _ fun _ => (env.serialize response
      (((w.modifyBuf fun _ => (w.stream.writebuf.reserve maxHeaderSize).2).modifyBuf
        fun b => b.alignWritePos.beginPacket).stream.writebuf)).2).trans
      (sameAs_modifyBuf _ fun b => b.alignWritePos.beginPacket)).trans
      (sameAs_modifyBuf w fun _ => (w.stream.writebuf.reserve maxHeaderSize).2)
    dsimp only
    split
    · exact ((sameCount_sendError _ _ _).trans (sameAs_modifyBuf _ _)).trans hbuf
    · exact (sameCount_putResponse _ _ _ _).trans hbuf

lemma sameCount_sendList (env : ServerEnv Req Res) (id : ℕ) : SameCount (sendList env id) := by
  have hput : ∀ packetStart body, SameCount (putList env id packetStart body) :=
    fun _ _ _ => ⟨rfl, rfl⟩
  intro w
  rw [sendList]
  have hbuf := (sameAs_modifyBuf (w.modifyRes (listHeader (w.owner.cntl id).body)) fun _ =>
    (w.stream.writebuf.reserve maxHeaderSize).2).trans (sameAs_modifyRes w _)
  split
  · exact (sameCount_sendError _ _ _).trans hbuf
  · exact (hput _ _ _).trans ((sameAs_modifyBuf _ _).trans hbuf)

lemma sameCount_sendMessage (env : ServerEnv Req Res) (id : ℕ) (messages : Option (Req × Res)) :
    SameCount (sendMessage env id messages) := by
  intro w
  rw [sendMessage]
  split
  · exact ⟨rfl, rfl⟩
  split
  · exact sameCount_onMessageError _ w
  have hstart : ∀ f : HttpReponseHeader → HttpReponseHeader,
      (((w.modifyOwner (·.push id)).modifyBuf (·.reset)).modifyRes f).SameAs w :=
    fun f => (sameAs_modifyRes _ f).trans ((sameAs_modifyBuf _ _).trans (sameAs_modifyOwner w _))
  cases messages with
  | none => exact (sameCount_sendList env id _).trans (hstart _)
  | some messages => exact (sameCount_sendResponse env id messages.2 _).trans (hstart _)

lemma sameCount_onMessageRecived (env : ServerEnv Req Res) : SameCount (onMessageRecived env) := by
  intro w
  rw [onMessageRecived]
  dsimp only
  split
  · exact sameCount_sendMessage env _ _ _
  split
  · exact ⟨rfl, rfl⟩
  split
  · exact ⟨rfl, rfl⟩
  split
  · exact ⟨rfl, rfl⟩
  split
  · exact ⟨rfl, rfl⟩
  · exact sameCount_sendMessage env _ _ _

lemma sameCount_onMessageSended (env : ServerEnv Req Res) (bufferSize : ℤ) :
    SameCount (onMessageSended env bufferSize) := by
  intro w
  rw [onMessageSended]
  split
  · exact ⟨rfl, rfl⟩
  split
  · exact ⟨rfl, rfl⟩
  dsimp only
  split
  · exact ⟨rfl, rfl⟩
  split
  · exact ⟨rfl, rfl⟩
  · exact sameCount_sendMessage env _ _ _

end ServerConnect

/-! ## Channel -/

namespace RpcChannelImpl

variable {Req : Type}

lemma sameCount_onMessageError (code : ErrorCode) :
    SameCount (onMessageError code : ChannelWorld Req → ChannelWorld Req) :=
  fun _ => ⟨rfl, rfl⟩

lemma sameCount_sendError (code : ErrorCode) (id : ℕ) :
    SameCount (sendError code id : ChannelWorld Req → ChannelWorld Req) :=
  fun w => (sameAs_modifyOwner _ _).trans (sameCount_onMessageError code w)

lemma sameCount_putRequest (id : ℕ) (packetStart bodyStart : Iterator) :
    SameCount (putRequest id packetStart bodyStart : ChannelWorld Req → ChannelWorld Req) :=
  fun _ => ⟨rfl, rfl⟩

lemma sameCount_sendToServer (env : ChannelEnv Req) (id : ℕ) : SameCount (sendToServer env id) := by
  intro w
  rw [sendToServer]
  have hstart : ∀ f g h i, ((((w.modifyBuf f).modifyOwner g).modifyReq h).modifyBuf i).SameAs w :=
    fun _ _ _ _ => (sameAs_modifyBuf _ _).trans ((sameAs_modifyReq _ _).trans
      ((sameAs_modifyOwner _ _).trans (sameAs_modifyBuf w _)))
  split
  · exact (sameCount_sendError _ _ _).trans (hstart _ _ _ _)
  · have hbody : ∀ f g h i j k, ((((((w.modifyBuf f).modifyOwner g).modifyReq h).modifyBuf
        i).modifyBuf j).modifyBuf k).SameAs w :=
      fun _ _ _ _ _ _ => (sameAs_modifyBuf _ _).trans ((sameAs_modifyBuf _ _).trans
        (hstart _ _ _ _))
    dsimp only
    split
    · exact (sameCount_sendError _ _ _).trans
        ((sameAs_modifyBuf _ _).trans (hbody _ _ _ _ _ _))
    · exact (sameCount_putRequest _ _ _ _).trans (hbody _ _ _ _ _ _)

lemma sameCount_onWriteable (env : ChannelEnv Req) : SameCount (onWriteable env) := by
  intro w
  rw [onWriteable]
  split
  · exact ⟨rfl, rfl⟩
  · split
    · exact sameCount_sendToServer env _ _
    · exact ⟨rfl, rfl⟩

lemma sameCount_sendedLoop (fuel : ℕ) (bufferSize : ℤ) :
    SameCount (sendedLoop fuel bufferSize : ChannelWorld Req → ChannelWorld Req) := by
  intro w
  induction fuel generalizing bufferSize w with
  | zero => exact ⟨rfl, rfl⟩
  | succ fuel ih =>
    rw [sendedLoop]
    split
    · exact ⟨rfl, rfl⟩
    · split
      · dsimp only
        split
        · exact ih _ _
        · exact ih _ _
      · exact ⟨rfl, rfl⟩

lemma sameCount_onMessageSended (bufferSize : ℤ) :
    SameCount (onMessageSended bufferSize : ChannelWorld Req → ChannelWorld Req) := by
  intro w
  rw [onMessageSended]
  exact sameCount_sendedLoop _ _ w

lemma sameCount_sendNext (env : ChannelEnv Req) : SameCount (sendNext env) := by
  intro w
  rw [sendNext]
  split
  · exact ⟨rfl, rfl⟩
  · exact sameCount_sendToServer env _ _

lemma sameCount_parseResponse (env : ChannelEnv Req) :
    SameCount fun w => (parseResponse env w).2 := by
  intro w
  dsimp only
  rw [parseResponse]
  dsimp only
  split <;> exact ⟨rfl, rfl⟩

lemma sameCount_onMessageRecived (env : ChannelEnv Req) : SameCount (onMessageRecived env) := by
  intro w
  rw [onMessageRecived]
  dsimp only
  split
  · exact ⟨rfl, rfl⟩
  · rename_i id rest _
    have hparse := sameCount_parseResponse env
      ((w.modifyStream (·.delReadTimeOutAsync)).modifyOwner fun s => { s with donecall := rest })
    rcases heq : parseResponse env ((w.modifyStream (·.delReadTimeOutAsync)).modifyOwner fun s =>
      { s with donecall := rest }) with ⟨ok, w'⟩
    dsimp only at hparse
    rw [heq] at hparse
    cases ok with
    | false => exact hparse
    | true =>
      dsimp only
      split
      · exact (sameCount_sendNext env _).trans hparse
      · exact (sameCount_sendNext env _).trans hparse

/-- The reference of the owner. -/
lemma count_onClose (w : ChannelWorld Req) :
    (onClose w).stream.isClosed = w.stream.isClosed ∧
      (onClose w).stream.refCount = w.stream.refCount - 1 := by
  rw [onClose]
  split <;> exact ⟨rfl, rfl⟩

end RpcChannelImpl

/-! ## The two wirings -/

/-- The handlers leave the count alone, but for `handerClose`. -/
structure Handers.Counts {O : Type} (h : Handers O) : Prop where
  connected : ∀ f ∈ h.handerConnected, SameCount f
  readable : ∀ f ∈ h.handerReadable, SameCount f
  writeable : ∀ f ∈ h.handerWriteable, SameCount f
  readTimeOut : ∀ f ∈ h.handerReadTimeOut, SameCount f
  writeTimeOut : ∀ f ∈ h.handerWriteTimeOut, SameCount f
  messageError : ∀ f ∈ h.handerMessageError, ∀ code, SameCount (f code)
  messageRecived : ∀ f ∈ h.handerMessageRecived, ∀ n, SameCount (f n)
  messageSended : ∀ f ∈ h.handerMessageSended, ∀ n, SameCount (f n)
  close : ∃ f ∈ h.handerClose, ∀ w, (f w).stream.isClosed = w.stream.isClosed ∧
    (f w).stream.refCount = w.stream.refCount - 1

namespace Handers.Counts

variable {O : Type} {h : Handers O}

lemma lift {f : Option (World (MessageStream O) → World (MessageStream O))}
    (hf : ∀ g ∈ f, SameCount g) : ∀ g ∈ f.map Checked.lift, SameCount g := by
  intro g hg
  obtain ⟨f, hmem, rfl⟩ := Option.map_eq_some_iff.mp hg
  exact fun _ => hf f hmem _

/-- A pointer that is NULL changes nothing but the flag. -/
lemma run {f : Option (World (MessageStream O) → World (MessageStream O))}
    (hf : ∀ g ∈ f, SameCount g) : SameCount (Checked.run f) := by
  cases f with
  | none => exact fun _ => ⟨rfl, rfl⟩
  | some g => exact fun _ => hf g rfl _

lemma map {α : Type} {f : Option (α → World (MessageStream O) → World (MessageStream O))}
    (hf : ∀ g ∈ f, ∀ a, SameCount (g a)) (a : α) : ∀ g ∈ f.map fun f => f a, SameCount g := by
  intro g hg
  obtain ⟨f, hmem, rfl⟩ := Option.map_eq_some_iff.mp hg
  exact hf f hmem a

lemma getD {f : Option (World (MessageStream (Checked O)) → World (MessageStream (Checked O)))}
    (hf : ∀ g ∈ f, SameCount g) : SameCount (f.getD id) := by
  cases f with
  | none => exact fun _ => ⟨rfl, rfl⟩
  | some g => exact hf g rfl

lemma closes (hc : h.Counts) : ∃ f ∈ h.handerClose.map Checked.lift, ∀ w,
    (f w).stream.isClosed = w.stream.isClosed ∧
      (f w).stream.refCount = w.stream.refCount - 1 := by
  obtain ⟨f, hf, hclose⟩ := hc.close
  exact ⟨Checked.lift f, Option.mem_map_of_mem _ hf, fun _ => hclose _⟩

/-- What `OnRecived` calls. -/
lemma messageHanders (hc : h.Counts) :
    (∀ f ∈ h.messageHanders.handerMessageRecived, ∀ n, SameCount (f n)) ∧
      ∀ code, SameCount (h.messageHanders.handerMessageError code) := by
  refine ⟨?_, fun code => run (map hc.messageError code)⟩
  intro g hg n
  obtain ⟨f, hmem, rfl⟩ := Option.map_eq_some_iff.mp hg
  exact fun _ => hc.messageRecived f hmem n _

lemma messageStream (hc : h.Counts) : h.messageStream.Counts where
  connected := lift hc.connected
  readable := lift hc.readable
  writeable := lift hc.writeable
  readTimeOut := lift hc.readTimeOut
  writeTimeOut := lift hc.writeTimeOut
  messageError := hc.messageHanders.2
  recived n w := (keeps_sameAs hc.messageHanders.1 hc.messageHanders.2 w).recvLoop _ n ⟨rfl, rfl⟩
  sended n := run (map hc.messageSended n)
  afterConnect _ := ⟨rfl, rfl⟩
  afterClose _ := ⟨rfl, rfl⟩
  close := hc.closes

lemma connectStream (hc : h.Counts) : h.connectStream.Counts where
  connected := lift hc.connected
  readable := lift hc.readable
  writeable := lift hc.writeable
  readTimeOut := lift hc.readTimeOut
  writeTimeOut := lift hc.writeTimeOut
  messageError := hc.messageHanders.2
  recived n w := ConnectStream.keeps_recvLoop
    (keeps_sameAs hc.messageHanders.1 hc.messageHanders.2 w) _ n ⟨rfl, rfl⟩
  sended n := getD (lift (map hc.messageSended n))
  afterConnect _ := ⟨rfl, rfl⟩
  afterClose _ := ⟨rfl, rfl⟩
  close := hc.closes

end Handers.Counts

/-- The handlers of a server. -/
lemma ServerConnect.counts_start {Req Res : Type} (env : ServerEnv Req Res) :
    (ServerConnect.start env).Counts where
  connected _ hf := absurd hf (by simp [start, Handers.init])
  readable _ hf := absurd hf (by simp [start, Handers.init])
  writeable _ hf := absurd hf (by simp [start, Handers.init])
  readTimeOut _ hf := absurd hf (by simp [start, Handers.init])
  writeTimeOut _ hf := absurd hf (by simp [start, Handers.init])
  messageError _ hf := Option.mem_some_iff.mp hf ▸ sameCount_onMessageError
  messageRecived _ hf := Option.mem_some_iff.mp hf ▸ fun _ => sameCount_onMessageRecived env
  messageSended _ hf := Option.mem_some_iff.mp hf ▸ sameCount_onMessageSended env
  close := ⟨onClose, rfl, fun _ => ⟨rfl, rfl⟩⟩

/-- The handlers of a channel. -/
lemma RpcChannelImpl.counts_connect {Req : Type} (env : ChannelEnv Req) :
    (RpcChannelImpl.connect env).Counts where
  connected _ hf := absurd hf (by simp [connect, Handers.init])
  readable _ hf := absurd hf (by simp [connect, Handers.init])
  writeable _ hf := Option.mem_some_iff.mp hf ▸ sameCount_onWriteable env
  readTimeOut _ hf := Option.mem_some_iff.mp hf ▸ sameCount_onMessageError _
  writeTimeOut _ hf := Option.mem_some_iff.mp hf ▸ sameCount_onMessageError _
  messageError _ hf := absurd hf (by simp [connect, Handers.init])
  messageRecived _ hf := Option.mem_some_iff.mp hf ▸ fun _ => sameCount_onMessageRecived env
  messageSended _ hf := Option.mem_some_iff.mp hf ▸ sameCount_onMessageSended
  close := ⟨onClose, rfl, count_onClose⟩

/-! ## Runs -/

namespace References

lemma counted_init {σ : Type} (ext : σ) : Counted (init ext) := by
  have hword : expiries (EventState.init : EventState Unit).events = 0 := by decide
  rw [Counted, holders, init, hword]
  rfl

/-- Along every run of a stream whose handlers leave the count to `handerClose`, the count is
always the number of holders exactly when each action is accounted for. -/
theorem counted_iff {E σ : Type} {c : E → StreamClass σ} (hc : ∀ env, (c env).Counts)
    {group : Bool} {ext : σ} {h : List (References σ × RefAct E σ)} {s : References σ}
    (hrun : Exec.Run (Step c group) (init ext) h s) :
    Exec.Always Counted h s ↔ Exec.Admits (Accounted c group) h := by
  refine hrun.always_iff ?_ (fun s (hs : Counted s ∧ Keyed s) => hs.1) ?_ ?_
  · exact ⟨counted_init ext, fun _ => iff_of_false Bool.false_ne_true (not_not.mpr rfl)⟩
  · rintro s a _ ⟨hs, hk⟩ hok ⟨-, ha, rfl⟩
    exact ⟨(counted_act hc hs hk ha).mpr hok, keyed_act hk ha⟩
  · rintro s a _ ⟨hs, hk⟩ hok ⟨-, ha, rfl⟩
    exact (counted_act hc hs hk ha).not.mpr hok

/-! ### A timer that expires next to an error -/

/-- A stream of a channel that has just been made. -/
def fresh : References (MessageStream (Checked (RpcChannelImpl Unit))) :=
  init (newStream idleChannel).ext

/-- What happens to its read timer. -/
def setRead : RefAct (ChannelEnv Unit) (MessageStream (Checked (RpcChannelImpl Unit))) :=
  .setTimeOut .read 1 60

def expireRead : RefAct (ChannelEnv Unit) (MessageStream (Checked (RpcChannelImpl Unit))) :=
  .expire idleEnv brokenKernel .read 61

/-- An error of the socket is reported, and a wrapper handles both. -/
def reportErr : RefAct (ChannelEnv Unit) (MessageStream (Checked (RpcChannelImpl Unit))) :=
  .onEventAsync idleEnv brokenKernel eventErr

def takeWord : RefAct (ChannelEnv Unit) (MessageStream (Checked (RpcChannelImpl Unit))) :=
  .exchange 0

def handleBoth : RefAct (ChannelEnv Unit) (MessageStream (Checked (RpcChannelImpl Unit))) :=
  .wrapperEvent idleEnv brokenKernel 0 (readTimeOut ||| eventErr ||| eventPending)

/-- The timer is set, and it expires; the expiry waits for a wrapper. -/
def timerSet : References (MessageStream (Checked (RpcChannelImpl Unit))) :=
  fresh.act RpcChannelImpl.stream true setRead

def timerExpired : References (MessageStream (Checked (RpcChannelImpl Unit))) :=
  timerSet.act RpcChannelImpl.stream true expireRead

/-- The error comes to the expiry, and the wrapper takes both. -/
def errReported : References (MessageStream (Checked (RpcChannelImpl Unit))) :=
  timerExpired.act RpcChannelImpl.stream true reportErr

def wordTaken : References (MessageStream (Checked (RpcChannelImpl Unit))) :=
  errReported.act RpcChannelImpl.stream true takeWord

lemma run_timerExpired :
    Exec.Run (Step (@RpcChannelImpl.stream Unit) true) fresh
      [(fresh, setRead), (timerSet, expireRead)] timerExpired := by
  have hset : fresh.Enabled setRead := Nat.one_pos
  have hexpire : timerSet.Enabled expireRead := ⟨rfl, by decide, by decide⟩
  have hfirst : Exec.Run (Step (@RpcChannelImpl.stream Unit) true) fresh
      ([] ++ [(fresh, setRead)]) timerSet := .snoc .nil ⟨by decide, hset, rfl⟩
  exact .snoc hfirst ⟨by decide, hexpire, rfl⟩

/-- `OnEvent` closes the stream for the error and returns before it comes to the expiry: its
reference is not given back. -/
theorem not_counted :
    ¬ ∀ (ext : MessageStream (Checked (RpcChannelImpl Unit))) h s,
      Exec.Run (Step (@RpcChannelImpl.stream Unit) true) (init ext) h s →
        Exec.Always Counted h s := by
  intro hall
  have htake : errReported.Enabled takeWord := by
    change errReported.word.wrappers[0]? = some .exchange
    decide
  have hhandle : wordTaken.Enabled handleBoth := by
    change wordTaken.word.wrappers[0]? = some (.onEvent (readTimeOut ||| eventErr ||| eventPending))
    decide
  have hreport : timerExpired.Enabled reportErr := trivial
  have hreported := run_timerExpired.snoc ⟨by decide, hreport, rfl⟩
  have htaken := hreported.snoc ⟨by decide, htake, rfl⟩
  have hhandled := htaken.snoc ⟨by decide, hhandle, rfl⟩
  have hcounts := (RpcChannelImpl.counts_connect idleEnv).connectStream
  have haccounted := (counted_wrapperEvent hcounts (hall _ _ _ htaken).last brokenKernel hhandle).mp
    (hall _ _ _ hhandled).last
  refine haccounted (Or.inr (Or.inr (Or.inl ?_))) .read ?_
  · decide
  · decide

/-- The run up to the expiry. -/
theorem counted_timerExpired :
    Exec.Always Counted [(fresh, setRead), (timerSet, expireRead)] timerExpired ↔
      Exec.Admits (Accounted (@RpcChannelImpl.stream Unit) true)
        [(fresh, setRead), (timerSet, expireRead)] :=
  counted_iff (fun env => (RpcChannelImpl.counts_connect env).connectStream) run_timerExpired

end References

end MTRpc
