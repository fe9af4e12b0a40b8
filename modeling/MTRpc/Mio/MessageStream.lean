import MTRpc.Http.Header
import MTRpc.Mio.BufferRuns
import MTRpc.Mio.SocketStream

/-!
# Message streams

A `MessageStream` is a socket stream on which HTTP requests arrive: `OnRecived` runs the header
parser over the read buffer and calls `handerMessageRecived` for each request whose body has
arrived.  The handler takes the body from the read buffer by way of protobuf's zero-copy
interface; protobuf itself is not part of the source, and a parse is a loop of `Next` until the
stream ends (`parseFromZeroCopyStream`).
-/

namespace MTRpc

open PieceRing (Shape)

/-! ## The zero-copy interface -/

namespace ReadBuffer

/-- The bytes of a block. -/
def blockBytes (b : ReadBuffer) (d : Block) : Bytes := d.cells.map b.que.load

/-- `Next` until it returns `false`: the bytes handed out, and the buffer afterwards.  The
first argument bounds the number of calls. -/
def pull : ℕ → ReadBuffer → Bytes × ReadBuffer
  | 0, b => ([], b)
  | fuel + 1, b =>
      match b.next with
      | none => ([], b)
      | some (d, b') => (b.blockBytes d ++ (pull fuel b').1, (pull fuel b').2)

/-- `Message::ParseFromZeroCopyStream`: the bytes it reads, and the buffer afterwards. -/
def parseFromZeroCopyStream (b : ReadBuffer) : Bytes × ReadBuffer := pull (b.getBufferUsed + 1) b

variable {S : Shape} {b b' : ReadBuffer} {d : Block}

/-- The unread bytes behind a read position that was moved over some of them. -/
lemma unread_moved (hr : b.IsRing S) {k : ℕ} (hk : k ≤ b.used S) :
    (IOBuffer.IsRing S { b.toIOBuffer with readpos := S.next^[k] b.readpos }) ∧
      b.unread = (S.walk b.readpos k).map b.que.load
        ++ IOBuffer.unread { b.toIOBuffer with readpos := S.next^[k] b.readpos } := by
  have hr' : IOBuffer.IsRing S { b.toIOBuffer with readpos := S.next^[k] b.readpos } :=
    ⟨hr.toFits, hr.size_le, Shape.valid_iterate hr.read_valid k, hr.write_valid⟩
  have hlt := IOBuffer.used_lt hr
  have hused : IOBuffer.used S { b.toIOBuffer with readpos := S.next^[k] b.readpos }
      = b.used S - k := by
    have hw : S.next^[b.used S - k] (S.next^[k] b.readpos) = b.writepos := by
      rw [← Function.iterate_add_apply, Nat.sub_add_cancel hk, IOBuffer.iterate_used hr]
    rw [IOBuffer.used]
    dsimp only
    rw [← hw, Shape.dist_iterate (Shape.valid_iterate hr.read_valid k) (by omega)]
  refine ⟨hr', ?_⟩
  rw [IOBuffer.unread_eq hr, IOBuffer.unread_eq hr', hused, ← List.map_append, ← Shape.walk_add,
    Nat.add_sub_cancel' hk]

/-- The parser takes one byte. -/
lemma unread_advance {c : UInt8} {cs : Bytes} (hr : b.IsRing S) (h : b.unread = c :: cs) :
    b.advance.unread = cs := by
  have hlength := congrArg List.length h
  rw [IOBuffer.length_unread hr, List.length_cons] at hlength
  obtain ⟨-, hmoved⟩ := unread_moved (k := 1) hr (by omega)
  rw [h, Function.iterate_one, ← Iterator.incr_eq hr.toFits hr.read_valid] at hmoved
  exact (List.cons.inj hmoved).2.symm

/-- `Next` hands out the next unread bytes, at least one, and moves the read position behind
them. -/
lemma next_spec (hr : b.IsRing S) (h : b.next = some (d, b')) :
    b' = { b with readpos := b'.readpos } ∧ b'.IsRing S ∧
      b.unread = b.blockBytes d ++ b'.unread ∧ 0 < (b.blockBytes d).length := by
  have hread := hr.read_valid
  have hwrite := hr.write_valid
  have hend := IOBuffer.iterate_used hr
  have hlt := IOBuffer.used_lt hr
  have hsize := hr.size_eq _ hread.1
  have hcap := Shape.size_le_cap hread.1
  rw [next] at h
  split at h
  · simp at h
  rename_i hne
  have hpos : 0 < b.used S := Nat.pos_of_ne_zero fun h0 => hne ((IOBuffer.isEmpty_iff hr).mpr h0)
  -- `k` cells from the read position on are handed out
  suffices hk : ∃ k, 0 < k ∧ k ≤ b.used S ∧ b.blockBytes d = (S.walk b.readpos k).map b.que.load ∧
      b' = { b with readpos := S.next^[k] b.readpos } by
    obtain ⟨k, hk, hle, hblock, rfl⟩ := hk
    obtain ⟨hr', hunread⟩ := unread_moved hr hle
    refine ⟨rfl, hr', ?_, ?_⟩
    · rw [hblock]
      exact hunread
    · rw [hblock, List.length_map, Shape.length_walk]
      exact hk
  split at h
  · -- up to the write position, in the same piece
    rename_i hin
    have hw := hwrite.2
    rw [← hin.1] at hw
    simp only [Option.some.injEq, Prod.mk.injEq] at h
    obtain ⟨rfl, rfl⟩ := h
    obtain ⟨k, hk⟩ : ∃ k, b.writepos.pos = b.readpos.pos + k :=
      ⟨_, (Nat.add_sub_cancel' hin.2.le).symm⟩
    have hpiece : b.readpos.pos + k < S.size b.readpos.idx := by omega
    have hstep : S.next^[k] b.readpos = ⟨b.readpos.idx, b.writepos.pos⟩ := by
      rw [hk]
      exact Shape.iterate_piece hpiece
    have hwritepos : S.next^[k] b.readpos = b.writepos := by rw [hstep, hin.1]
    have hused : b.used S = k := by
      rw [IOBuffer.used, ← hwritepos, Shape.dist_iterate hread (by omega)]
    have hwalk : S.walk b.readpos k = PieceRing.cells b.readpos.idx b.readpos.pos k :=
      Shape.walk_piece hpiece.le
    refine ⟨k, by omega, hused.ge, ?_, by rw [hstep]⟩
    rw [blockBytes, Block.cells, hwalk]
    dsimp only
    congr 2
    omega
  · -- to the end of the piece
    rename_i hout
    simp only [Option.some.injEq, Prod.mk.injEq] at h
    obtain ⟨rfl, rfl⟩ := h
    have hpiece := hread.2
    have hwalk : S.walk b.readpos (S.size b.readpos.idx - b.readpos.pos)
        = PieceRing.cells b.readpos.idx b.readpos.pos (S.size b.readpos.idx - b.readpos.pos) :=
      Shape.walk_piece (Nat.add_sub_cancel' hpiece.le).le
    refine ⟨S.size b.readpos.idx - b.readpos.pos, by omega, ?_, ?_, ?_⟩
    · -- a write position before the end of the piece would be the first case
      by_contra hlong
      have hinside : b.readpos.pos + b.used S < S.size b.readpos.idx := by omega
      have hstep : S.next^[b.used S] b.readpos = ⟨b.readpos.idx, b.readpos.pos + b.used S⟩ :=
        Shape.iterate_piece hinside
      rw [hend] at hstep
      rw [hstep] at hout
      exact hout ⟨rfl, by dsimp only; omega⟩
    · rw [blockBytes, Block.cells, hwalk]
      dsimp only
      congr 2
      omega
    · rw [show S.next^[S.size b.readpos.idx - b.readpos.pos] b.readpos
        = ⟨(b.readpos.idx + 1) % S.n, 0⟩ from Shape.iterate_piece_end hpiece, hr.n_eq]

lemma next_eq_none : b.next = none ↔ b.isEmpty := by
  rw [next]
  by_cases h : b.isEmpty
  · simp [h]
  · by_cases h' : b.readpos.idx = b.writepos.idx ∧ b.readpos.pos < b.writepos.pos <;>
      simp [h, h']

lemma pull_eq {fuel : ℕ} (hr : b.IsRing S) (hfuel : b.used S < fuel) :
    pull fuel b = (b.unread, { b with readpos := b.writepos }) := by
  induction fuel generalizing b with
  | zero => omega
  | succ fuel ih =>
    rw [pull]
    cases h : b.next with
    | none =>
      have hempty : b.readpos = b.writepos := next_eq_none.mp h
      have hunread : b.unread = [] := by
        rw [← List.length_eq_zero_iff, IOBuffer.length_unread hr]
        exact (IOBuffer.isEmpty_iff hr).mp hempty
      rw [hunread]
      exact congrArg (fun p => (([] : Bytes), ({ b with readpos := p } : ReadBuffer))) hempty
    | some r =>
      obtain ⟨d, b'⟩ := r
      obtain ⟨hb', hr', hunread, hlen⟩ := next_spec hr h
      have hless : b'.used S < fuel := by
        have hlength := congrArg List.length hunread
        rw [List.length_append, IOBuffer.length_unread hr, IOBuffer.length_unread hr'] at hlength
        omega
      simp only [ih hr' hless, hunread, Prod.mk.injEq, true_and]
      rw [hb']

/-- A parse reads everything that is unread. -/
theorem parseFromZeroCopyStream_eq (hr : b.IsRing S) :
    b.parseFromZeroCopyStream = (b.unread, { b with readpos := b.writepos }) :=
  pull_eq hr (by rw [IOBuffer.getBufferUsed_eq hr]; omega)

end ReadBuffer

/-! ## `OnRecived` -/

/-- What a `MessageStream` adds to a `SocketStream`, and the object that its handlers belong to.
A `ConnectStream` adds the same two headers. -/
structure MessageStream (σ : Type) where
  reqheader : HttpRequestHeader
  resheader : HttpReponseHeader
  owner : σ

namespace World

variable {σ : Type} (w : World (MessageStream σ))

/-- The object that the handlers belong to. -/
abbrev owner : σ := w.ext.owner

/-- The header of requests. -/
abbrev reqheader : HttpRequestHeader := w.ext.reqheader

/-- The header of responses. -/
abbrev resheader : HttpReponseHeader := w.ext.resheader

/-- A change of one part. -/
def modifyOwner (f : σ → σ) : World (MessageStream σ) :=
  { w with ext := { w.ext with owner := f w.ext.owner } }

def modifyReq (f : HttpRequestHeader → HttpRequestHeader) : World (MessageStream σ) :=
  { w with ext := { w.ext with reqheader := f w.ext.reqheader } }

def modifyRes (f : HttpReponseHeader → HttpReponseHeader) : World (MessageStream σ) :=
  { w with ext := { w.ext with resheader := f w.ext.resheader } }

def modifyStream (f : Stream → Stream) : World (MessageStream σ) :=
  { w with stream := f w.stream }

def modifyBuf (f : WriteBuffer → WriteBuffer) : World (MessageStream σ) :=
  w.modifyStream fun s => { s with writebuf := f s.writebuf }

@[simp] lemma owner_modifyOwner (f : σ → σ) : (w.modifyOwner f).owner = f w.owner := rfl

@[simp] lemma owner_modifyReq (f : HttpRequestHeader → HttpRequestHeader) :
    (w.modifyReq f).owner = w.owner := rfl

@[simp] lemma owner_modifyRes (f : HttpReponseHeader → HttpReponseHeader) :
    (w.modifyRes f).owner = w.owner := rfl

@[simp] lemma owner_modifyStream (f : Stream → Stream) : (w.modifyStream f).owner = w.owner := rfl

@[simp] lemma owner_modifyBuf (f : WriteBuffer → WriteBuffer) :
    (w.modifyBuf f).owner = w.owner := rfl

@[simp] lemma resheader_modifyOwner (f : σ → σ) : (w.modifyOwner f).resheader = w.resheader := rfl

end World

/-- The handlers that `MessageStream` calls when something was received. -/
structure MessageHanders (σ : Type) where
  handerMessageRecived : Option (ℤ → World (MessageStream σ) → World (MessageStream σ))
  /-- Called without a test. -/
  handerMessageError : ErrorCode → World (MessageStream σ) → World (MessageStream σ)

namespace MessageHanders

variable {σ : Type} (h : MessageHanders σ)

/-- The first half of a round of `OnRecived`: the header parser and the tests of the length.
The result is the value returned, or what is left of `buffer_size` when a whole request is
there.  A parser that leaves its scratch array goes on undefined; here it ends the call. -/
def recvPacket (bufferSize : ℤ) (w : World (MessageStream σ)) :
    (ℤ ⊕ ℤ) × World (MessageStream σ) :=
  let beginParser := w.stream.readbuf.readpos
  let (ret, reqheader, readbuf) := w.ext.reqheader.parserHeader w.stream.readbuf
  let w : World (MessageStream σ) :=
    { stream := { w.stream with readbuf := readbuf }, ext := { w.ext with reqheader := reqheader } }
  let bufferSize := bufferSize - Iterator.sub readbuf.que readbuf.readpos beginParser
  match ret with
  | .fail => (.inl (-1), h.handerMessageError .httpParserFail w)
  | .half => (.inl 0, w)
  | .overrun => (.inl (-1), w)
  | .finish =>
      if (maxBufferPieces * defaultBufferSize : ℕ) < reqheader.getContentLength then
        (.inl (-1), h.handerMessageError .httpRequestOverflow w)
      else
        let bodySize := Iterator.sub readbuf.que readbuf.writepos reqheader.bodyStart - 1
        if bodySize < reqheader.getContentLength then (.inl 0, w) else (.inr bufferSize, w)

/-- The second half: the handler takes the request, and the header object and the read buffer
are made ready for the next one.  The result is what is left of `buffer_size`. -/
def processPacket (bufferSize : ℤ) (w : World (MessageStream σ)) :
    ℤ × World (MessageStream σ) :=
  let beginpacket := w.stream.readbuf.readpos
  let w :=
    match h.handerMessageRecived with
    | none => w
    | some run =>
        let w := run bufferSize w
        { stream := { w.stream with readbuf := w.stream.readbuf.reset }
          ext := { w.ext with reqheader := w.ext.reqheader.reset } }
  (bufferSize - Iterator.sub w.stream.readbuf.que w.stream.readbuf.readpos beginpacket, w)

/-- The loop of `OnRecived`; the first argument bounds the number of rounds. -/
def recvLoop : ℕ → ℤ → World (MessageStream σ) → ℤ × World (MessageStream σ)
  | 0, _, w => (0, w)
  | fuel + 1, bufferSize, w =>
      match h.recvPacket bufferSize w with
      | (.inl ret, w) => (ret, w)
      | (.inr bufferSize, w) =>
          let (bufferSize, w) := h.processPacket bufferSize w
          if w.stream.closeWhenEmpty then (0, w)
          else if 0 < bufferSize then recvLoop fuel bufferSize w
          else (0, w)

/-- `OnRecived`.  Every round but the last one consumes a header, and a header is not empty. -/
def onRecived (bufferSize : ℤ) (w : World (MessageStream σ)) : ℤ × World (MessageStream σ) :=
  h.recvLoop (w.stream.readbuf.getBufferUsed + 1) bufferSize w

/-! ### What `OnRecived` keeps -/

/-- The handlers keep the property, and it survives what `OnRecived` does by itself to the read
buffer and the headers. -/
structure Keeps (P : World (MessageStream σ) → Prop) : Prop where
  parsed : ∀ (w : World (MessageStream σ)) (rb : ReadBuffer) (req : HttpRequestHeader)
    (res : HttpReponseHeader), P w →
      P { stream := { w.stream with readbuf := rb }, ext := ⟨req, res, w.ext.owner⟩ }
  recived : ∀ f ∈ h.handerMessageRecived, ∀ n w, P w → P (f n w)
  error : ∀ code w, P w → P (h.handerMessageError code w)

namespace Keeps

variable {h} {P : World (MessageStream σ) → Prop} {w : World (MessageStream σ)}

lemma recvPacket (hk : h.Keeps P) (n : ℤ) (hw : P w) : P (h.recvPacket n w).2 := by
  rw [MessageHanders.recvPacket]
  dsimp only
  have hparsed := hk.parsed w (w.ext.reqheader.parserHeader w.stream.readbuf).2.2
    (w.ext.reqheader.parserHeader w.stream.readbuf).2.1 w.ext.resheader hw
  split
  · exact hk.error _ _ hparsed
  · exact hparsed
  · exact hparsed
  · split
    · exact hk.error _ _ hparsed
    · split <;> exact hparsed

lemma processPacket (hk : h.Keeps P) (n : ℤ) (hw : P w) : P (h.processPacket n w).2 := by
  rw [MessageHanders.processPacket]
  cases hrun : h.handerMessageRecived with
  | none => exact hw
  | some f => exact hk.parsed _ _ _ _ (hk.recived f hrun n w hw)

lemma recvLoop (hk : h.Keeps P) (fuel : ℕ) (n : ℤ) (hw : P w) : P (h.recvLoop fuel n w).2 := by
  induction fuel generalizing n w with
  | zero => exact hw
  | succ fuel ih =>
    have hpacket := hk.recvPacket n hw
    rw [MessageHanders.recvLoop]
    rcases heq : h.recvPacket n w with ⟨ret | m, w'⟩ <;> rw [heq] at hpacket
    · exact hpacket
    · have hprocess := hk.processPacket m hpacket
      dsimp only
      split
      · exact hprocess
      · split
        · exact ih _ hprocess
        · exact hprocess

end Keeps

end MessageHanders

end MTRpc
