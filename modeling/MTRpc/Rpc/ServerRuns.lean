import MTRpc.Rpc.ServerConnect

/-!
# Runs of the server side

Everything that can happen at one `ServerConnect` (`ServerAct`), in any order and with any
environment: requests that arrive, bytes that are sent, errors that the stream reports, the end
of the connection, and between these calls any change of the stream.

`OneResponse` says that each dispatched call gets one packet, in the order of dispatch, when it
is at the front of the queue.  `SendMessage` does so for a call that finds the queue empty, but a
call that had to wait comes to the front inside the queue, and `SendMessage` puts it behind the
others once more: `oneResponse_iff` says that the property holds along a run exactly when
`OnMessageSended` completes a call only while no other call waits.
-/

namespace MTRpc

/-- What happens at a connect. -/
inductive ServerAct (Req Res : Type)
  /-- The stream reads, parses, writes or is marked between the calls below. -/
  | stream (s : Stream) (reqheader : HttpRequestHeader)
  | recived (env : ServerEnv Req Res)
  | sended (env : ServerEnv Req Res) (bufferSize : ℤ)
  | error (code : ErrorCode)
  | close

namespace ServerWorld

variable {Req Res : Type}

/-- A fresh stream and its connect. -/
def init : ServerWorld Req Res := ⟨.init, ⟨.init, .init, .init⟩⟩

/-- The state after an action. -/
def act (w : ServerWorld Req Res) : ServerAct Req Res → ServerWorld Req Res
  | .stream s reqheader => (w.modifyStream fun _ => s).modifyReq fun _ => reqheader
  | .recived env => ServerConnect.onMessageRecived env w
  | .sended env bufferSize => ServerConnect.onMessageSended env bufferSize w
  | .error code => ServerConnect.onMessageError code w
  | .close => ServerConnect.onClose w

/-- Anything can happen as long as the connect exists. -/
def Step (w : ServerWorld Req Res) (a : ServerAct Req Res) (w' : ServerWorld Req Res) : Prop :=
  w.owner.down = false ∧ w' = w.act a

/-- The bytes sent make up for what is missing of the front packet. -/
def Completes (bufferSize : ℤ) (w : ServerWorld Req Res) : Prop :=
  match w.owner.pending with
  | [] => False
  | id :: _ => w.stream.closeWhenEmpty = false ∧
      (w.owner.cntl id).resPackSize ≤ (w.owner.cntl id).resSendSize + UInt32.ofInt bufferSize

/-- `OnMessageSended` completes the front call only when no other call waits. -/
def LastWaits (w : ServerWorld Req Res) : ServerAct Req Res → Prop
  | .sended _ bufferSize => Completes bufferSize w → w.owner.pending.length ≤ 1
  | _ => True

end ServerWorld

namespace ServerConnect

variable {Req Res : Type}

/-- One packet for each dispatched call, in the order of dispatch and with its number, made when
the call is at the front of `pending`; the calls behind the front are still to come. -/
structure OneResponse (s : ServerConnect Req Res) : Prop where
  nodup : s.pending.Nodup
  inOrder : s.packets.map Prod.fst ++ s.pending.tail = s.dispatched.map Prod.fst
  once : (s.dispatched.map Prod.fst).Nodup
  front : ∀ id ∈ s.pending.head?, (s.packets.map Prod.fst).getLast? = some id
  seq : ∀ p ∈ s.packets, ∃ seq, (p.1, seq) ∈ s.dispatched ∧ p.2 = some (decimal seq)

/-- The invariant: the numbers of controllers are fresh, too. -/
structure Inv (s : ServerConnect Req Res) : Prop extends OneResponse s where
  dispatched_lt : ∀ d ∈ s.dispatched, d.1 < s.next
  pending_lt : ∀ id ∈ s.pending, id < s.next

/-! ## The steps -/

/-- No call is dispatched or answered. -/
structure Keeps (s s' : ServerConnect Req Res) : Prop where
  dispatched : s'.dispatched = s.dispatched
  packets : s'.packets = s.packets
  pending : s'.pending = s.pending
  next : s.next ≤ s'.next
  down : s'.down = s.down

/-- A new call is dispatched; it is answered at once when no other is in the queue. -/
structure Dispatches (seq : ℕ) (s s' : ServerConnect Req Res) : Prop where
  dispatched : s'.dispatched = s.dispatched ++ [(s.next, seq)]
  packets : s'.packets
    = s.packets ++ if s.pending = [] then [(s.next, some (decimal seq))] else []
  pending : s'.pending = s.pending ++ [s.next]
  next : s'.next = s.next + 1
  down : s'.down = s.down

/-- The front call is taken away, and the queue is then `rest`. -/
structure Pops (rest : List ℕ) (s s' : ServerConnect Req Res) : Prop where
  dispatched : s'.dispatched = s.dispatched
  packets : s'.packets = s.packets
  pending : s'.pending = rest
  next : s'.next = s.next
  down : s'.down = s.down

lemma Keeps.refl (s : ServerConnect Req Res) : Keeps s s := ⟨rfl, rfl, rfl, le_rfl, rfl⟩

lemma Keeps.trans {s s' s'' : ServerConnect Req Res} (h : Keeps s s') (h' : Keeps s' s'') :
    Keeps s s'' where
  dispatched := h'.dispatched.trans h.dispatched
  packets := h'.packets.trans h.packets
  pending := h'.pending.trans h.pending
  next := h.next.trans h'.next
  down := h'.down.trans h.down

lemma Keeps.dispatches {seq : ℕ} {s s' s'' : ServerConnect Req Res} (h : Keeps s s')
    (hnext : s'.next = s.next) (h' : Dispatches seq s' s'') : Dispatches seq s s'' where
  dispatched := by rw [h'.dispatched, h.dispatched, hnext]
  packets := by rw [h'.packets, h.packets, h.pending, hnext]
  pending := by rw [h'.pending, h.pending, hnext]
  next := by rw [h'.next, hnext]
  down := h'.down.trans h.down

lemma keeps_parse (bs : Bytes) (s : ServerConnect Req Res) : Keeps s (s.record (.parse bs)) where
  dispatched := by simp [dispatched, record]
  packets := by simp [packets, record]
  pending := rfl
  next := le_rfl
  down := rfl

lemma keeps_deleted (c : RpcServerController Req Res) (id : ℕ) (s : ServerConnect Req Res) :
    Keeps s ((s.newCntl c).delete id) where
  dispatched := rfl
  packets := rfl
  pending := rfl
  next := Nat.le_succ _
  down := rfl

/-- A new controller that goes to `SendMessage`. -/
lemma dispatches_sendMessage (env : ServerEnv Req Res) (c : RpcServerController Req Res)
    (messages : Option (Req × Res)) (w : ServerWorld Req Res) :
    Dispatches c.seq w.owner (sendMessage env w.owner.next messages
      (w.modifyOwner fun s => (s.newCntl c).record (.dispatch w.owner.next c.seq))).owner := by
  -- the call is created and recorded
  have hdispatched : ((w.owner.newCntl c).record (.dispatch w.owner.next c.seq)).dispatched
      = w.owner.dispatched ++ [(w.owner.next, c.seq)] := by
    simp [dispatched, newCntl, record]
  have hpackets : ((w.owner.newCntl c).record (.dispatch w.owner.next c.seq)).packets
      = w.owner.packets := by
    simp [packets, newCntl, record]
  have hcntl : (((w.owner.newCntl c).record (.dispatch w.owner.next c.seq)).push
      w.owner.next).cntl w.owner.next = c := by
    simp [newCntl, record, push]
  by_cases hp : w.owner.pending = []
  · obtain ⟨h1, h2, h3, h4, h5⟩ := sendMessage_packs env w.owner.next messages
      (w := w.modifyOwner fun s => (s.newCntl c).record (.dispatch w.owner.next c.seq)) hp
    refine ⟨h2.trans hdispatched, h1.trans ?_, h3, h4, h5⟩
    rw [if_pos hp, World.owner_modifyOwner, hcntl]
    exact congrArg (· ++ _) hpackets
  · rw [sendMessage_waits env w.owner.next messages
      (w := w.modifyOwner fun s => (s.newCntl c).record (.dispatch w.owner.next c.seq)) hp]
    refine ⟨hdispatched, ?_, rfl, rfl, rfl⟩
    rw [if_neg hp, List.append_nil]
    exact hpackets

/-- A request is dispatched, or nothing changes for the calls. -/
lemma onMessageRecived_cases (env : ServerEnv Req Res) (w : ServerWorld Req Res) :
    Keeps w.owner (onMessageRecived env w).owner ∨
      ∃ seq, Dispatches seq w.owner (onMessageRecived env w).owner := by
  have herror : ∀ (code : ErrorCode) (w' : ServerWorld Req Res), Keeps w.owner w'.owner →
      Keeps w.owner (onMessageError code w').owner := by
    intro code w' h
    rw [onMessageError_owner]
    exact h
  rw [onMessageRecived]
  dsimp only
  split
  · exact Or.inr ⟨_, dispatches_sendMessage env { seq := _, body := _ } none w⟩
  split
  · exact Or.inl (herror _ _ (.refl _))
  split
  · exact Or.inl (herror _ _ (.refl _))
  -- the request is parsed
  have hparse := keeps_parse w.stream.readbuf.beginPacket.parseFromZeroCopyStream.1 w.owner
  split
  · exact Or.inl (herror _ _ hparse)
  split
  · exact Or.inl (herror _ _ (hparse.trans (keeps_deleted { seq := _ } _ _)))
  · refine Or.inr ⟨w.reqheader.getSeq, hparse.dispatches rfl ?_⟩
    exact dispatches_sendMessage env { seq := w.reqheader.getSeq, messages := some _ } _
      ((w.modifyStream _).modifyOwner (·.record (.parse _)))

/-- The front call goes on, is the last one, or leaves others in the queue. -/
lemma onMessageSended_cases (env : ServerEnv Req Res) (bufferSize : ℤ) (w : ServerWorld Req Res) :
    (¬ ServerWorld.Completes bufferSize w ∧
      Keeps w.owner (onMessageSended env bufferSize w).owner) ∨
    ServerWorld.Completes bufferSize w ∧
      ((∃ id, w.owner.pending = [id] ∧ Pops [] w.owner (onMessageSended env bufferSize w).owner) ∨
        ∃ id next rest, w.owner.pending = id :: next :: rest ∧
          Pops (next :: rest ++ [next]) w.owner (onMessageSended env bufferSize w).owner) := by
  rw [onMessageSended, ServerWorld.Completes]
  cases hp : w.owner.pending with
  | nil => exact Or.inl ⟨not_false, .refl _⟩
  | cons id rest =>
    dsimp only
    by_cases hclose : w.stream.closeWhenEmpty = true
    · rw [if_pos hclose]
      exact Or.inl ⟨by simp [hclose], .refl _⟩
    rw [if_neg hclose]
    -- the sent bytes are counted
    by_cases hmore : (w.owner.cntl id).resSendSize + UInt32.ofInt bufferSize
        < (w.owner.cntl id).resPackSize
    · refine Or.inl ⟨fun h => absurd hmore (UInt32.not_lt.mpr h.2), ?_⟩
      rw [if_pos (by simpa [modifyCntl] using hmore)]
      exact ⟨rfl, rfl, rfl, le_rfl, rfl⟩
    rw [if_neg (by simpa [modifyCntl] using hmore)]
    refine Or.inr ⟨⟨by simpa using hclose, UInt32.not_lt.mp hmore⟩, ?_⟩
    cases rest with
    | nil => exact Or.inl ⟨id, rfl, ⟨rfl, rfl, rfl, rfl, rfl⟩⟩
    | cons next rest =>
      refine Or.inr ⟨id, next, rest, rfl, ?_⟩
      dsimp only
      rw [sendMessage_waits _ _ _ (by simp [modifyCntl, delete])]
      exact ⟨rfl, rfl, rfl, rfl, rfl⟩

/-! ## The invariant -/

variable {s s' : ServerConnect Req Res}

lemma inv_init : Inv (init : ServerConnect Req Res) where
  nodup := List.nodup_nil
  inOrder := rfl
  once := List.nodup_nil
  front := by simp [init]
  seq := by simp [init, packets]
  dispatched_lt := by simp [init, dispatched]
  pending_lt := by simp [init]

lemma Inv.keeps (h : Inv s) (hk : Keeps s s') : Inv s' where
  nodup := by rw [hk.pending]; exact h.nodup
  inOrder := by rw [hk.packets, hk.pending, hk.dispatched]; exact h.inOrder
  once := by rw [hk.dispatched]; exact h.once
  front := by rw [hk.packets, hk.pending]; exact h.front
  seq := by rw [hk.packets, hk.dispatched]; exact h.seq
  dispatched_lt := by
    rw [hk.dispatched]
    exact fun d hd => (h.dispatched_lt d hd).trans_le hk.next
  pending_lt := by
    rw [hk.pending]
    exact fun id hid => (h.pending_lt id hid).trans_le hk.next

lemma Inv.dispatches {seq : ℕ} (h : Inv s) (hd : Dispatches seq s s') : Inv s' where
  nodup := by
    rw [hd.pending, List.nodup_append]
    refine ⟨h.nodup, List.nodup_singleton _, ?_⟩
    intro a ha b hb
    rw [List.mem_singleton.mp hb]
    exact (h.pending_lt a ha).ne
  inOrder := by
    have hold := h.inOrder
    rw [hd.packets, hd.pending, hd.dispatched, List.map_append, List.map_append, ← hold]
    cases s.pending with
    | nil => simp
    | cons id rest => simp
  once := by
    rw [hd.dispatched, List.map_append, List.nodup_append]
    refine ⟨h.once, List.nodup_singleton _, ?_⟩
    intro a ha b hb
    obtain ⟨d, hmem, rfl⟩ := List.mem_map.mp ha
    rw [List.mem_singleton.mp hb]
    exact (h.dispatched_lt d hmem).ne
  front := by
    have hold := h.front
    rw [hd.packets, hd.pending]
    cases hp : s.pending with
    | nil => simp
    | cons id rest =>
      rw [hp] at hold
      simpa using hold
  seq := by
    rw [hd.packets, hd.dispatched]
    intro p hp
    rcases List.mem_append.mp hp with hp | hp
    · obtain ⟨q, hmem, hq⟩ := h.seq p hp
      exact ⟨q, List.mem_append_left _ hmem, hq⟩
    · split at hp
      · rw [List.mem_singleton.mp hp]
        exact ⟨seq, by simp, rfl⟩
      · exact absurd hp List.not_mem_nil
  dispatched_lt := by
    rw [hd.dispatched, hd.next]
    intro d hmem
    rcases List.mem_append.mp hmem with hmem | hmem
    · exact (h.dispatched_lt d hmem).trans (Nat.lt_succ_self _)
    · rw [List.mem_singleton.mp hmem]
      exact Nat.lt_succ_self _
  pending_lt := by
    rw [hd.pending, hd.next]
    intro id hmem
    rcases List.mem_append.mp hmem with hmem | hmem
    · exact (h.pending_lt id hmem).trans (Nat.lt_succ_self _)
    · rw [List.mem_singleton.mp hmem]
      exact Nat.lt_succ_self _

lemma Inv.pops {id : ℕ} (h : Inv s) (hp : s.pending = [id]) (hpop : Pops [] s s') : Inv s' where
  nodup := by rw [hpop.pending]; exact List.nodup_nil
  inOrder := by
    have hold := h.inOrder
    rw [hp] at hold
    rw [hpop.packets, hpop.pending, hpop.dispatched]
    exact hold
  once := by rw [hpop.dispatched]; exact h.once
  front := by simp [hpop.pending]
  seq := by rw [hpop.packets, hpop.dispatched]; exact h.seq
  dispatched_lt := by rw [hpop.dispatched, hpop.next]; exact h.dispatched_lt
  pending_lt := by simp [hpop.pending]

/-- A call that comes to the front with `SendMessage` is in the queue twice. -/
lemma not_oneResponse_pops {next : ℕ} {rest : List ℕ} (hpop : Pops (next :: rest ++ [next]) s s') :
    ¬ OneResponse s' := by
  intro h
  have hnodup := h.nodup
  rw [hpop.pending] at hnodup
  simp at hnodup

end ServerConnect

/-! ## Runs -/

open ServerConnect

namespace ServerWorld

variable {Req Res : Type} {w w' : ServerWorld Req Res} {a : ServerAct Req Res}

/-- The property of the runs: it is claimed as long as the connect exists. -/
def OneResponse (w : ServerWorld Req Res) : Prop :=
  w.owner.down = false → ServerConnect.OneResponse w.owner

/-- The invariant of the runs. -/
def Inv (w : ServerWorld Req Res) : Prop := w.owner.down = false → ServerConnect.Inv w.owner

lemma inv_init : Inv (init : ServerWorld Req Res) := fun _ => ServerConnect.inv_init

lemma inv_step (hinv : w.Inv) (hok : w.LastWaits a) (hst : Step w a w') : w'.Inv := by
  obtain ⟨hdown, rfl⟩ := hst
  have hinv := hinv hdown
  intro hdown'
  cases a with
  | stream s reqheader => exact hinv
  | recived env =>
    rcases onMessageRecived_cases env w with hk | ⟨seq, hd⟩
    · exact hinv.keeps hk
    · exact hinv.dispatches hd
  | sended env bufferSize =>
    rcases onMessageSended_cases env bufferSize w with ⟨-, hk⟩ | ⟨hcompletes, hlast | hmore⟩
    · exact hinv.keeps hk
    · obtain ⟨id, hp, hpop⟩ := hlast
      exact hinv.pops hp hpop
    · -- this step is not admitted
      obtain ⟨id, next, rest, hp, -⟩ := hmore
      have hle := hok hcompletes
      rw [hp] at hle
      simp at hle
  | error code => exact hinv
  | close => exact absurd hdown' (by simp [act, onClose])

lemma not_oneResponse_step (hok : ¬ w.LastWaits a) (hst : Step w a w') : ¬ OneResponse w' := by
  obtain ⟨hdown, rfl⟩ := hst
  cases a with
  | sended env bufferSize =>
    simp only [LastWaits, not_forall] at hok
    obtain ⟨hcompletes, hlong⟩ := hok
    rcases onMessageSended_cases env bufferSize w with ⟨hno, -⟩ | ⟨-, hlast | hmore⟩
    · exact absurd hcompletes hno
    · obtain ⟨id, hp, -⟩ := hlast
      simp [hp] at hlong
    · obtain ⟨id, next, rest, -, hpop⟩ := hmore
      exact fun h => not_oneResponse_pops hpop (h (hpop.down.trans hdown))
  | stream s reqheader => exact absurd trivial hok
  | recived env => exact absurd trivial hok
  | error code => exact absurd trivial hok
  | close => exact absurd trivial hok

end ServerWorld

/-- Along every run of a connect, each dispatched call gets its one packet in its turn exactly
when `OnMessageSended` completes a call only while no other call waits. -/
theorem oneResponse_iff {Req Res : Type} {h : List (ServerWorld Req Res × ServerAct Req Res)}
    {w : ServerWorld Req Res} (hrun : Exec.Run ServerWorld.Step ServerWorld.init h w) :
    Exec.Always ServerWorld.OneResponse h w ↔ Exec.Admits ServerWorld.LastWaits h :=
  Exec.Run.always_iff ServerWorld.inv_init (fun _ hinv hdown => (hinv hdown).toOneResponse)
    (fun _ _ _ => ServerWorld.inv_step) (fun _ _ _ _ => ServerWorld.not_oneResponse_step) hrun

/-! ## Two calls -/

/-- A service with one method, whose messages are empty. -/
def echoEnv : ServerEnv Unit Unit where
  getServiceAndMethod _ := some ⟨fun _ => some (), fun _ => some ()⟩
  getServiceList := []
  serialize _ b := (true, b)
  addr _ := 0

/-- The header of a request for a method. -/
def methodHeader : HttpRequestHeader := { HttpRequestHeader.init with path := ascii "/m" }

/-- A fresh connect whose stream has parsed a header. -/
def headerParsed : ServerWorld Unit Unit := ServerWorld.init.act (.stream .init methodHeader)

/-- The request is dispatched. -/
def oneDispatched : ServerWorld Unit Unit := headerParsed.act (.recived echoEnv)

/-- A second request with the same header is dispatched. -/
def twoDispatched : ServerWorld Unit Unit := oneDispatched.act (.recived echoEnv)

/-- How the two came about. -/
def twoHistory : List (ServerWorld Unit Unit × ServerAct Unit Unit) :=
  [(ServerWorld.init, .stream .init methodHeader), (headerParsed, .recived echoEnv),
    (oneDispatched, .recived echoEnv)]

lemma run_twoDispatched : Exec.Run ServerWorld.Step ServerWorld.init twoHistory twoDispatched := by
  have hone : Exec.Run ServerWorld.Step ServerWorld.init
      [(ServerWorld.init, .stream .init methodHeader)] headerParsed :=
    Exec.Run.nil.snoc ⟨rfl, rfl⟩
  have htwo : Exec.Run ServerWorld.Step ServerWorld.init
      [(ServerWorld.init, .stream .init methodHeader), (headerParsed, .recived echoEnv)]
      oneDispatched :=
    hone.snoc ⟨rfl, rfl⟩
  exact htwo.snoc ⟨rfl, rfl⟩

lemma ofInt_toNat (a : UInt32) : UInt32.ofInt (a.toNat : ℤ) = a := by
  have hlt := a.toNat_lt
  have hmod : ((a.toNat : ℤ) % 2 ^ 32).toNat = a.toNat := by omega
  rw [UInt32.ofInt, hmod, UInt32.ofNat_toNat]

/-- What is missing of the front packet can be sent at once. -/
lemma exists_completes {Req Res : Type} {w : ServerWorld Req Res} {id : ℕ} {rest : List ℕ}
    (hp : w.owner.pending = id :: rest) (hclose : w.stream.closeWhenEmpty = false) :
    ∃ bufferSize, ServerWorld.Completes bufferSize w := by
  refine ⟨((w.owner.cntl id).resPackSize - (w.owner.cntl id).resSendSize).toNat, ?_⟩
  rw [ServerWorld.Completes, hp]
  refine ⟨hclose, ?_⟩
  rw [ofInt_toNat]
  grind

/-- When all of the first packet is sent, the second call is put behind itself. -/
theorem not_oneResponse :
    ¬ ∀ (Req Res : Type) (h : List (ServerWorld Req Res × ServerAct Req Res))
      (w : ServerWorld Req Res), Exec.Run ServerWorld.Step ServerWorld.init h w →
        Exec.Always ServerWorld.OneResponse h w := by
  intro hall
  have hp : twoDispatched.owner.pending = [0, 1] := rfl
  obtain ⟨bufferSize, hcompletes⟩ := exists_completes hp rfl
  have hstep : ServerWorld.Step twoDispatched (.sended echoEnv bufferSize)
      (twoDispatched.act (.sended echoEnv bufferSize)) := ⟨rfl, rfl⟩
  refine ServerWorld.not_oneResponse_step ?_ hstep
    (hall Unit Unit _ _ (run_twoDispatched.snoc hstep)).last
  intro hlast
  exact absurd (hlast hcompletes) (by simp [hp])

/-- The run up to the second dispatch. -/
theorem oneResponse_twoDispatched :
    Exec.Always ServerWorld.OneResponse twoHistory twoDispatched ↔
      Exec.Admits ServerWorld.LastWaits twoHistory :=
  oneResponse_iff run_twoDispatched

end MTRpc
