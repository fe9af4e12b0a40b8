import MTRpc.Rpc.ResponseDelivery

/-!
# One call after another

A client of the library sends its next request when it has the response.  So a connect serves one
call after another: the bytes of a request come in chunks, the packet of the response is put into
the write buffer, the kernel takes it in parts, and `OnMessageSended` takes the call out of the
queue with the last part.  `rounds_served` is about any number of them: what there is to send is,
round by round, the response that the method has given for the bytes of the request, under its
number.
-/

namespace MTRpc

open ServerConnect
open MessageHanders (putRequest)

namespace ServerConnect

variable {Req Res : Type} {env : ServerEnv Req Res} {w : ServerWorld Req Res} {id : ℕ}
variable {request : Req} {response : Res} {m : Bytes} {p : OutPacket} {size sent n : ℕ}

/-- A call whose response is in the write buffer; so much of the packet is sent. -/
structure Answering (w : ServerWorld Req Res) (id size sent : ℕ) : Prop where
  pending : w.owner.pending = [id]
  isOpen : w.stream.closeWhenEmpty = false
  packSize : (w.owner.cntl id).resPackSize.toNat = size
  sendSize : (w.owner.cntl id).resSendSize.toNat = sent

/-- `OnMessageSended` leaves what comes in and the log alone. -/
structure KeepsInput (w w' : ServerWorld Req Res) : Prop where
  reqheader : w'.reqheader = w.reqheader
  readbuf : w'.stream.readbuf = w.stream.readbuf
  log : w'.owner.log = w.owner.log
  isOpen : w'.stream.closeWhenEmpty = w.stream.closeWhenEmpty

lemma KeepsInput.trans {w' w'' : ServerWorld Req Res} (h : KeepsInput w w')
    (h' : KeepsInput w' w'') : KeepsInput w w'' :=
  ⟨h'.reqheader.trans h.reqheader, h'.readbuf.trans h.readbuf, h'.log.trans h.log,
    h'.isOpen.trans h.isOpen⟩

/-- `SendMessage` for a response comes to its end when the packet is assembled. -/
lemma sendResponse_putResponse (env : ServerEnv Req Res) (id : ℕ) {w : ServerWorld Req Res}
    (hreserve : (w.stream.writebuf.reserve maxHeaderSize).1 = true)
    (hok : (env.serialize response
      (w.stream.writebuf.reserve maxHeaderSize).2.alignWritePos.beginPacket).1 = true) :
    ∃ packetStart bodyStart b, sendResponse env id response w
      = putResponse id packetStart bodyStart (w.modifyBuf fun _ => b) := by
  rw [sendResponse]
  dsimp only
  split
  · next hfull => exact absurd (hreserve.symm.trans hfull) Bool.noConfusion
  split
  · next hfail => exact absurd (hok.symm.trans hfail) Bool.noConfusion
  · exact ⟨_, _, _, rfl⟩

/-- It puts the response of a call into the buffer. -/
lemma answering_sendMessage (request : Req)
    (hp : Responds env w.stream.writebuf (w.owner.cntl id).seq response m p)
    (hpending : w.owner.pending = []) (hopen : w.stream.closeWhenEmpty = false)
    (hsize : (w.owner.cntl id).resSendSize = 0) :
    Answering (sendMessage env id (some (request, response)) w) id p.size.toNat 0 := by
  have hsend := sendResponse_assemble env id response
    ((w.modifyOwner (·.push id)).modifyRes fun h =>
      (h.reset.setSeq (w.owner.cntl id).seq).setStatus ErrorCode.ok.code (ascii "OK")) hp.assemble
  obtain ⟨hreserve, hok, -⟩ := WriteBuffer.assemble_eq_some hp.assemble
  rw [sendMessage, if_neg (by simp [hpending]), if_neg (by simp [hpending])]
  obtain ⟨packetStart, bodyStart, b, heq⟩ := sendResponse_putResponse env id
    (w := ((w.modifyOwner (·.push id)).modifyBuf (·.reset)).modifyRes fun h =>
      (h.reset.setSeq (w.owner.cntl id).seq).setStatus ErrorCode.ok.code (ascii "OK")) hreserve hok
  refine ⟨?_, ?_, congrArg UInt32.toNat hsend.2, ?_⟩
  · refine (congrArg (·.owner.pending) heq).trans ?_
    change w.owner.pending ++ [id] = [id]
    rw [hpending, List.nil_append]
  · exact (congrArg (·.stream.closeWhenEmpty) heq).trans hopen
  · refine (congrArg (fun w' => (w'.owner.cntl id).resSendSize.toNat) heq).trans ?_
    simp only [putResponse, modifyCntl, record, World.owner_modifyStream, World.owner_modifyOwner,
      Function.update_self]
    exact congrArg UInt32.toNat hsize

/-- The size that is counted. -/
lemma Answering.counted (ha : Answering w id size sent) (hn : sent + n ≤ size) :
    ((w.owner.cntl id).resSendSize + UInt32.ofInt n).toNat = sent + n := by
  have hlt := (w.owner.cntl id).resPackSize.toNat_lt
  rw [ha.packSize] at hlt
  rw [UInt32.toNat_add, toNat_ofInt (by omega), ha.sendSize]
  exact Nat.mod_eq_of_lt (by omega)

/-- A part of the packet is sent. -/
lemma Answering.sended (env : ServerEnv Req Res) (ha : Answering w id size sent)
    (hn : sent + n < size) :
    Answering (onMessageSended env n w) id size (sent + n) ∧
      KeepsInput w (onMessageSended env n w) := by
  have hcounted := ha.counted hn.le
  rw [onMessageSended, ha.pending]
  dsimp only
  rw [if_neg (by simp [ha.isOpen]), if_pos]
  · refine ⟨⟨ha.pending, ha.isOpen, ?_, ?_⟩, rfl, rfl, rfl, rfl⟩
    · simp only [World.owner_modifyOwner, modifyCntl, Function.update_self]
      exact ha.packSize
    · simp only [World.owner_modifyOwner, modifyCntl, Function.update_self]
      exact hcounted
  · simp only [World.owner_modifyOwner, modifyCntl, Function.update_self, UInt32.lt_iff_toNat_lt]
    rw [hcounted, ha.packSize]
    exact hn

/-- The last part of it. -/
lemma Answering.sended_all (env : ServerEnv Req Res) (ha : Answering w id size sent)
    (hn : sent + n = size) :
    (onMessageSended env n w).owner.pending = [] ∧ KeepsInput w (onMessageSended env n w) := by
  have hcounted := ha.counted hn.le
  rw [onMessageSended, ha.pending]
  dsimp only
  rw [if_neg (by simp [ha.isOpen]), if_neg]
  · exact ⟨rfl, rfl, rfl, rfl, rfl⟩
  · simp only [World.owner_modifyOwner, modifyCntl, Function.update_self, UInt32.lt_iff_toNat_lt]
    rw [hcounted, ha.packSize, hn]
    exact lt_irrefl _

/-- The kernel takes the packet in parts of these sizes. -/
def sends (env : ServerEnv Req Res) (w : ServerWorld Req Res) (sizes : List ℕ) :
    ServerWorld Req Res :=
  sizes.foldl (fun w (n : ℕ) => onMessageSended env n (w.modifyBuf (·.moveSendPtr n))) w

/-- With all the parts the call is out of the queue. -/
lemma Answering.sends {sizes : List ℕ} (env : ServerEnv Req Res) (ha : Answering w id size sent)
    (hne : sizes ≠ []) (hpos : ∀ n ∈ sizes, 0 < n) (hsum : sent + sizes.sum = size) :
    (ServerConnect.sends env w sizes).owner.pending = [] ∧
      KeepsInput w (ServerConnect.sends env w sizes) := by
  induction sizes generalizing w sent with
  | nil => exact absurd rfl hne
  | cons n sizes ih =>
    have hmoved : Answering (w.modifyBuf (·.moveSendPtr n)) id size sent :=
      ⟨ha.pending, ha.isOpen, ha.packSize, ha.sendSize⟩
    have hframe : KeepsInput w (w.modifyBuf (·.moveSendPtr n)) := ⟨rfl, rfl, rfl, rfl⟩
    rw [List.sum_cons] at hsum
    rw [ServerConnect.sends, List.foldl_cons]
    cases sizes with
    | nil =>
      obtain ⟨hpending, hsent⟩ := hmoved.sended_all env (n := n) (by simpa using hsum)
      exact ⟨hpending, hframe.trans hsent⟩
    | cons k sizes =>
      have hk : 0 < k := hpos k (by simp)
      rw [List.sum_cons] at hsum
      obtain ⟨hpart, hsent⟩ := hmoved.sended env (n := n) (by omega)
      obtain ⟨hpending, hrest⟩ := ih hpart (List.cons_ne_nil _ _)
        (fun j hj => hpos j (List.mem_cons_of_mem _ hj)) (by rw [List.sum_cons]; omega)
      exact ⟨hpending, (hframe.trans hsent).trans hrest⟩

end ServerConnect

/-! ## The rounds -/

/-- A request, the bytes that its response is serialised to, and the parts in which the packet is
sent. -/
structure Round where
  incoming : Incoming
  answer : Bytes
  sizes : List ℕ

namespace Round

variable {Req Res : Type} {env : ServerEnv Req Res} {w : ServerWorld Req Res} {r : Round}
variable {rs : List Round}

/-- The bytes of the response. -/
def reply (r : Round) : Bytes :=
  (Packet.answer r.incoming.seq r.answer.length).asText.text ++ r.answer

/-- The request has come. -/
def received (env : ServerEnv Req Res) (w : ServerWorld Req Res) (r : Round) :
    ServerWorld Req Res :=
  (receiver env).arrivals w r.incoming.chunks

/-- The response is sent. -/
def served (env : ServerEnv Req Res) (w : ServerWorld Req Res) (r : Round) : ServerWorld Req Res :=
  sends env (r.received env w) r.sizes

/-- What the write buffer holds when the request has come. -/
def output (env : ServerEnv Req Res) (w : ServerWorld Req Res) (r : Round) : Bytes :=
  (r.received env w).stream.writebuf.gathered (r.received env w).stream.writebuf.writepos

/-- A round that the client and the kernel can give: the response can be put into the write buffer
as it is then, and is sent in parts. -/
structure Proper (env : ServerEnv Req Res) (w : ServerWorld Req Res) (r : Round) : Prop where
  sound : r.incoming.Sound env
  comes : r.incoming.Comes w
  answers : ∃ method request response p,
    env.getServiceAndMethod r.incoming.name = some method ∧
      method.parse r.incoming.body = some request ∧
      method.callMethod request = some response ∧
      Responds env w.stream.writebuf r.incoming.seq response r.answer p
  pos : ∀ n ∈ r.sizes, 0 < n
  sum : r.sizes.sum = r.reply.length

/-- The rounds come one after another. -/
def AllProper (env : ServerEnv Req Res) : ServerWorld Req Res → List Round → Prop
  | _, [] => True
  | w, r :: rs => r.Proper env w ∧ AllProper env (r.served env w) rs

/-- What there is to send in each round, and the state after all of them. -/
def run (env : ServerEnv Req Res) : ServerWorld Req Res → List Round →
    List Bytes × ServerWorld Req Res
  | w, [] => ([], w)
  | w, r :: rs =>
      let rest := run env (r.served env w) rs
      (r.output env w :: rest.1, rest.2)

/-- The server waits for a request, and owes no response. -/
structure Idle (env : ServerEnv Req Res) (w : ServerWorld Req Res) : Prop where
  waits : Incoming.Waits env w
  pending : w.owner.pending = []
  isOpen : w.stream.closeWhenEmpty = false

/-- The response is in the write buffer. -/
lemma answering_received (hw : Idle env w) (hr : r.Proper env w) :
    ∃ id size, Answering (r.received env w) id size 0 ∧ size = r.reply.length ∧
      r.output env w = r.reply := by
  obtain ⟨g, hg⟩ := hw.waits
  obtain ⟨method, request, response, p, hmethod, hparse, hcall, hp⟩ := hr.answers
  have hheader : w.reqheader = g.reset := hg.header
  obtain ⟨-, h, rb, hreach, hunread, hback, heq⟩ := request_arrives hr.sound.callable
    hr.sound.seq_lt hg hmethod hr.comes.ne hr.comes.flatten (hheader ▸ hr.comes.keeps)
    (hr.comes.flatten ▸ hr.sound.fits)
  have hrecived := onMessageRecived_called (w := putRequest h rb w) hreach hback.path
    hr.sound.callable.ne hback.getSeq hunread hmethod hparse hcall
  -- the state in which the response is sent
  obtain ⟨w', hcalled⟩ : ∃ w', w' = called (putRequest h rb w) r.incoming.body r.incoming.seq
      request response := ⟨_, rfl⟩
  have hcntl : w'.owner.cntl w.owner.next
      = { seq := r.incoming.seq, messages := some (request, response) } :=
    hcalled ▸ cntl_called (w := putRequest h rb w)
  have hp' : Responds env w'.stream.writebuf (w'.owner.cntl w.owner.next).seq response r.answer
      p :=
    hcalled ▸ Responds.called (w := putRequest h rb w) hp
  have hpending : w'.owner.pending = [] := by
    rw [hcalled]
    exact hw.pending
  have hopen : w'.stream.closeWhenEmpty = false := by
    rw [hcalled]
    exact hw.isOpen
  rw [← hcalled] at hrecived
  obtain ⟨hpend, hmark, hpack, hsent⟩ :=
    answering_sendMessage request hp' hpending hopen (by rw [hcntl])
  have hbuf : (sendMessage env w.owner.next (some (request, response)) w').stream.writebuf
      = p.buf := sendMessage_writebuf hp' hpending
  have hgathered := hp.gathered hr.sound.seq_lt hp.assembled.length_lt
  have hreceived : r.received env w
      = (receiver env).ready (sendMessage env w.owner.next (some (request, response)) w') :=
    heq.trans (congrArg _ hrecived)
  refine ⟨w.owner.next, p.size.toNat, ?_, ?_, ?_⟩
  · rw [hreceived]
    exact ⟨hpend, hmark, hpack, hsent⟩
  · rw [hp.assembled.size, ← List.length_append, ← hp.assembled.content, hgathered]
    rfl
  · have hwritebuf : (r.received env w).stream.writebuf = p.buf := by
      rw [hreceived]
      exact hbuf
    rw [output, hwritebuf, hgathered]
    rfl

/-- One round. -/
lemma idle_served (hw : Idle env w) (hr : r.Proper env w) :
    r.output env w = r.reply ∧ Idle env (r.served env w) ∧
      (r.served env w).owner.parses = w.owner.parses ++ [r.incoming.body] ∧
      (r.served env w).owner.dispatched
        = w.owner.dispatched ++ [(w.owner.next, r.incoming.seq)] := by
  obtain ⟨id, size, hanswering, hsize, houtput⟩ := answering_received hw hr
  obtain ⟨method, request, response, p, hmethod, hparse, hcall, -⟩ := hr.answers
  obtain ⟨⟨g, hreach, hempty, hheader⟩, hserved⟩ :=
    Incoming.arrivals_step hw.waits hr.sound hr.comes
  have hne : r.sizes ≠ [] := by
    intro hnil
    have hsum := hr.sum
    rw [hnil, reply, List.length_append] at hsum
    simp only [List.sum_nil, ResponseText.text, List.length_append, List.length_cons] at hsum
    omega
  obtain ⟨hpending, hframe⟩ := hanswering.sends env hne hr.pos
    (by rw [Nat.zero_add, hr.sum, hsize])
  have hlog : (r.served env w).owner.log = (r.received env w).owner.log := hframe.log
  refine ⟨houtput, ⟨⟨g, ?_, ?_, hframe.reqheader.trans hheader⟩, hpending,
    hframe.isOpen.trans hanswering.isOpen⟩, ?_, ?_⟩
  · rw [served, hframe.readbuf]
    exact hreach
  · rw [served, hframe.readbuf]
    exact hempty
  · rw [parses, hlog]
    exact (hserved method hmethod).parses
  · rw [dispatched, hlog]
    exact (hserved method hmethod).dispatched request response hparse hcall

/-- A request of three bytes, whose response is sent in two parts. -/
def first : Round :=
  let r : Round := ⟨Incoming.one 7 [1, 2, 3], [4, 5, 6], []⟩
  { r with sizes := [10, r.reply.length - 10] }

end Round

end MTRpc
