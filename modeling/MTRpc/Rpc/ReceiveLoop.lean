import MTRpc.Mio.BufferReset
import MTRpc.Rpc.ErrorSeq
import MTRpc.Rpc.RequestDispatch

/-!
# What the receive loop leaves in the buffer

`OnRecived` is called with the number of bytes that were read, subtracts what the parser and the
handlers consume, and goes on while something is left of the number.  The bytes that were unread
before the call are not in the number, but the parser consumes them too, so the loop can end in
front of a complete request.

Only the list of services leaves anything in the buffer: a method takes all that is unread, and an
error marks the stream.  So a call comes past requests for the list (`Behind`), up to the first
place with no more unread bytes than there were before the call.  `leavesNone_iff` says that no
complete request is left exactly when there is none at that place, and when none that the call
looks at fills the buffer up to its last free byte.
-/

namespace MTRpc

open PieceRing (Shape)

/-- What the loop looks at: the header object and the read buffer. -/
abbrev Front := HttpRequestHeader × ReadBuffer

namespace Front

variable (s : Front)

/-- What the header parser leaves. -/
def parsed : Front := (s.1.parserHeader s.2).2

/-- The number of unread bytes. -/
def left : ℕ := s.2.unread.length

/-- The header is there, and as many bytes behind it as it announces. -/
def Complete : Prop :=
  (s.1.parserHeader s.2).1 = .finish ∧ s.parsed.1.getContentLength ≤ s.parsed.left

/-- The distance that `OnRecived` takes for the size of the body is not too small. -/
def Seen : Prop := Roomy s.parsed.2 ∨ s.parsed.1.getContentLength < 0

/-- A request for the list of services. -/
def IsList : Prop := s.parsed.1.path.length ≤ 1

/-- Behind a request for the list of services: its body is not consumed. -/
def next : Front := (s.parsed.1.reset, s.parsed.2.reset)

end Front

open Front in
/-- The places behind requests for the list of services that are taken one after the other, as
long as there are more than `q` unread bytes. -/
inductive Behind (q : ℕ) : Front → Front → Prop
  | one {s : Front} : Complete s → Seen s → IsList s → Behind q s (next s)
  | more {s t : Front} : Complete s → Seen s → IsList s → q < left (next s) →
      Behind q (next s) t → Behind q s t

namespace ServerConnect

variable {Req Res : Type}

/-- What the loop looks at in a world. -/
def front (w : ServerWorld Req Res) : Front := (w.reqheader, w.stream.readbuf)

/-- When a call returns 0 and the stream is not marked, no complete request is left. -/
def NoneLeft (r : ℤ × ServerWorld Req Res) : Prop :=
  r.1 = 0 → r.2.stream.closeWhenEmpty = false → ¬ (front r.2).Complete

/-- The response with the list of services can be sent. -/
def Answers (env : ServerEnv Req Res) (w : ServerWorld Req Res) : Prop :=
  w.owner.pending = [] → unsendable env none w.stream.writebuf = false

/-- No complete request fills the buffer up, and there is none at the place where the loop ends,
with `q` bytes that are not counted. -/
def Clear (env : ServerEnv Req Res) (q : ℕ) (w : ServerWorld Req Res) : Prop :=
  ((front w).Complete → (front w).Seen) ∧
    (Answers env w → ∀ t, Behind q (front w) t → t.Complete → q < t.left ∧ t.Seen)

end ServerConnect

/-! ## The parser -/

namespace ReadBuffer

variable {b : ReadBuffer}

/-- `Reset` keeps what is unread. -/
lemma reset_spec (hr : b.IsRing pieces) :
    b.reset.readpos = b.readpos ∧ b.reset.IsRing pieces ∧ b.reset.unread = b.unread := by
  have hr' : b.reset.IsRing pieces := Step.isRing (o := .reset) hr rfl
  have hpos : b.reset.readpos = b.readpos ∧ b.reset.writepos = b.writepos ∧
      b.reset.que.load = b.que.load := by
    rw [reset, IOBuffer.reset]
    split
    · exact ⟨rfl, rfl, rfl⟩
    split
    · exact ⟨rfl, rfl, rfl⟩
    · exact ⟨rfl, rfl, Que.load_resize _ _⟩
  refine ⟨hpos.1, hr', ?_⟩
  have hused : b.reset.used pieces = b.used pieces := by
    rw [IOBuffer.used, IOBuffer.used, hpos.1, hpos.2.1]
  rw [IOBuffer.unread_eq hr', IOBuffer.unread_eq hr, hused, hpos.1, hpos.2.2]

/-- All that is unread has been taken. -/
lemma Reachable.taken (hb : b.Reachable) :
    ReadBuffer.Reachable { b.beginPacket with readpos := b.writepos } := by
  have hr := hb.isRing
  have hskip : Iterator.add b.que b.readpos (b.used pieces) = b.writepos := by
    rw [Iterator.add_eq hr.toFits hr.read_valid, IOBuffer.iterate_used hr]
  have hreach := (hb.step (o := .beginPacket) rfl).step (o := .skip (b.used pieces)) rfl
  rw [skip] at hreach
  change ReadBuffer.Reachable { b.beginPacket with
    readpos := Iterator.add b.que b.readpos (b.used pieces) } at hreach
  rw [hskip] at hreach
  exact hreach

/-- `Reset` leaves an empty buffer empty. -/
lemma isEmpty_reset (hb : b.isEmpty) : b.reset.isEmpty := by
  change b.toIOBuffer.reset.readpos = b.toIOBuffer.reset.writepos
  rw [IOBuffer.reset]
  split
  · exact hb
  split
  · exact hb
  · exact hb

end ReadBuffer

/-- A scan that finds the end of a header reads something. -/
lemma HttpRequestHeader.used_pos {h : HttpRequestHeader} {l : ParserLocals} {t : Tape}
    (hs : h.state ≠ .atEnd) (hret : (parser.machine.scan h l t).ret = .finish) :
    0 < (parser.machine.scan h l t).used := by
  have hd : parser.machine.done h = false := by
    rw [Bool.eq_false_iff]
    exact fun hd => hs (parser.machine_done_iff.mp hd)
  cases t with
  | nil =>
    rw [Scanner.Machine.scan_nil hd] at hret
    exact absurd hret ParserRet.noConfusion
  | cons a t =>
    obtain ⟨it, c⟩ := a
    have hall := step_atEnd hs l it c
    cases ho : parser.machine.step h l (it, c) with
    | stop r h' =>
      rw [show h.step l (it, c) = .stop r h' from ho] at hall
      rw [Scanner.Machine.scan_stop hd ho] at hret
      exact absurd hret hall
    | go h' l' =>
      rw [Scanner.Machine.scan_go hd ho, Scanner.Res.shift_used]
      omega

section

variable {σ : Type} {w : World (MessageStream σ)}

/-- What the parser consumes: everything, when it asks for more, and something, when it finds the
end of a header. -/
lemma parsed_consumes (hr : w.stream.readbuf.IsRing pieces) :
    w.parsed.stream.readbuf.IsRing pieces ∧
      Iterator.sub w.parsed.stream.readbuf.que w.parsed.stream.readbuf.readpos
          w.stream.readbuf.readpos
        = (w.stream.readbuf.unread.length : ℤ) - w.parsed.stream.readbuf.unread.length ∧
      ((w.reqheader.parserHeader w.stream.readbuf).1 = .half →
        w.parsed.stream.readbuf.unread.length = 0) ∧
      (w.HeaderDone → w.reqheader.state ≠ .atEnd →
        w.parsed.stream.readbuf.unread.length < w.stream.readbuf.unread.length) := by
  have hparse : w.reqheader.parserHeader w.stream.readbuf = _ :=
    HttpRequestHeader.parser.parse_eq (h := w.reqheader) hr
  have htape : w.stream.readbuf.tape.length = w.stream.readbuf.used pieces := by
    rw [ReadBuffer.tape, List.length_map, IOBuffer.unreadCells_eq hr, Shape.length_walk]
  have hle := Scanner.Machine.used_le (M := HttpRequestHeader.parser.machine)
    (h := w.reqheader) (l := .fresh) (t := w.stream.readbuf.tape)
  have hhalf := Scanner.Machine.used_of_half (M := HttpRequestHeader.parser.machine)
    (h := w.reqheader) (l := .fresh) (t := w.stream.readbuf.tape)
  have hfinish := HttpRequestHeader.used_pos (h := w.reqheader) (l := .fresh)
    (t := w.stream.readbuf.tape)
  rw [World.HeaderDone, World.parsed, hparse]
  dsimp only
  generalize HttpRequestHeader.parser.machine.scan w.reqheader .fresh w.stream.readbuf.tape = r
    at hle hhalf hfinish ⊢
  have hra := ReadBuffer.isRing_iterate_advance hr r.used
  have hlt := IOBuffer.used_lt hr
  obtain ⟨-, hused⟩ := ReadBuffer.tape_iterate_advance hr (n := r.used) (by omega)
  rw [IOBuffer.length_unread hra, IOBuffer.length_unread hr, hused]
  refine ⟨hra, ?_, ?_, ?_⟩
  · rw [Iterator.sub_eq hra.toFits hr.read_valid hra.read_valid,
      ReadBuffer.readpos_iterate_advance hr, Shape.dist_iterate hr.read_valid (by omega)]
    omega
  · intro hret
    have := hhalf hret
    omega
  · intro hret hstate
    have := hfinish hstate hret
    omega

lemma parsed_of_parserHeader {ret : ParserRet} {h' : HttpRequestHeader} {b' : ReadBuffer}
    (hp : w.reqheader.parserHeader w.stream.readbuf = (ret, h', b')) :
    w.parsed.reqheader = h' ∧ w.parsed.stream.readbuf = b' := by
  rw [World.parsed, hp]
  exact ⟨rfl, rfl⟩

/-- The parser does nothing more behind a header. -/
lemma parsed_again (hw : BetweenCalls w) (hdone : w.HeaderDone) :
    w.parsed.reqheader.parserHeader w.parsed.stream.readbuf
      = (.finish, w.parsed.reqheader, w.parsed.stream.readbuf) :=
  HttpRequestHeader.parserLoop_atEnd (hw.parsed.2.2.1 hdone).state _ _ _

/-- The first half of a round that finds the end of a header. -/
lemma recvPacket_done (h : MessageHanders σ) (n : ℤ) (hw : BetweenCalls w)
    (hdone : w.HeaderDone) :
    h.recvPacket n w =
      if (maxBufferPieces * defaultBufferSize : ℕ) < w.parsed.reqheader.getContentLength then
        (.inl (-1), h.handerMessageError .httpRequestOverflow w.parsed)
      else if (if Roomy w.parsed.stream.readbuf then (w.parsed.stream.readbuf.unread.length : ℤ)
          else -1) < w.parsed.reqheader.getContentLength then (.inl 0, w.parsed)
      else (.inr (n - ((w.stream.readbuf.unread.length : ℤ)
        - w.parsed.stream.readbuf.unread.length)), w.parsed) := by
  obtain ⟨-, hsub, -⟩ := parsed_consumes hw.reachable.isRing
  rw [← bodySize_eq (hw.parsed.2.2.1 hdone), ← hsub]
  rw [World.HeaderDone] at hdone
  rw [MessageHanders.recvPacket, World.parsed]
  rcases hp : w.reqheader.parserHeader w.stream.readbuf with ⟨ret, h', b'⟩
  obtain rfl : ret = .finish := by simpa [hp] using hdone
  rfl

end

/-! ## The handlers -/

namespace ServerConnect

variable {Req Res : Type} {env : ServerEnv Req Res} {w : ServerWorld Req Res} {q : ℕ}

lemma reqheader_sendResponse (env : ServerEnv Req Res) (id : ℕ) (response : Res)
    (w : ServerWorld Req Res) : (sendResponse env id response w).reqheader = w.reqheader := by
  rw [sendResponse]
  split
  · rfl
  · dsimp only
    split
    · rfl
    · simp only [putResponse, World.modifyStream, World.modifyBuf, World.modifyOwner,
        World.modifyRes]

lemma reqheader_sendMessage (env : ServerEnv Req Res) (id : ℕ) (messages : Option (Req × Res))
    (w : ServerWorld Req Res) : (sendMessage env id messages w).reqheader = w.reqheader := by
  rw [sendMessage]
  split
  · rfl
  split
  · rfl
  cases messages with
  | none =>
    dsimp only
    rw [sendList]
    split
    · rfl
    · rfl
  | some messages => exact reqheader_sendResponse _ _ _ _

/-- The handler leaves the header object alone. -/
lemma reqheader_onMessageRecived (env : ServerEnv Req Res) (w : ServerWorld Req Res) :
    (onMessageRecived env w).reqheader = w.reqheader := by
  rw [onMessageRecived]
  dsimp only
  split
  · exact reqheader_sendMessage _ _ _ _
  split
  · rfl
  split
  · rfl
  split
  · rfl
  split
  · rfl
  · exact reqheader_sendMessage _ _ _ _

/-- What `processPacket` leaves, and what is left of the number. -/
lemma processPacket_front (env : ServerEnv Req Res) (n : ℤ) (w : ServerWorld Req Res) :
    front ((handers env).processPacket n w).2
        = (w.reqheader.reset, (onMessageRecived env w).stream.readbuf.reset) ∧
      ((handers env).processPacket n w).2.owner = (onMessageRecived env w).owner ∧
      ((handers env).processPacket n w).2.stream.closeWhenEmpty
        = (onMessageRecived env w).stream.closeWhenEmpty ∧
      ((handers env).processPacket n w).1
        = n - Iterator.sub (onMessageRecived env w).stream.readbuf.reset.que
          (onMessageRecived env w).stream.readbuf.reset.readpos w.stream.readbuf.readpos := by
  refine ⟨?_, rfl, rfl, rfl⟩
  rw [← reqheader_onMessageRecived env w]
  rfl

/-- The list of services is an error exactly when its response cannot be sent. -/
lemma fails_list (hpath : w.reqheader.path.length ≤ 1) : Fails env w ↔ ¬ Answers env w := by
  rw [Fails.eq_def, handed, if_pos hpath, Answers]
  simp

/-- A round that takes a request for the list of services, when the response can be sent. -/
lemma processPacket_list (n : ℤ) (hr : w.stream.readbuf.IsRing pieces)
    (hopen : w.stream.closeWhenEmpty = false) (hpath : w.reqheader.path.length ≤ 1)
    (hanswers : Answers env w) :
    front ((handers env).processPacket n w).2 = (w.reqheader.reset, w.stream.readbuf.reset) ∧
      ((handers env).processPacket n w).2.stream.closeWhenEmpty = false ∧
      Answers env ((handers env).processPacket n w).2 ∧
      ((handers env).processPacket n w).1 = n := by
  obtain ⟨hfront, howner, hclose, hleft⟩ := processPacket_front env n w
  have hbuf := (readsNothing_onMessageRecived env hpath).readbuf
  obtain ⟨hpos, hr', -⟩ := ReadBuffer.reset_spec hr
  rw [hbuf] at hfront hleft
  refine ⟨hfront, ?_, ?_, ?_⟩
  · rw [hclose, Bool.eq_false_iff, ne_eq, closeWhenEmpty_recived, fails_list hpath]
    simp [hanswers, hopen]
  · have hpending := pending_handed (show handed env w = some none by
      rw [handed, if_pos hpath])
    intro hempty
    rw [howner, hpending] at hempty
    simp at hempty
  · rw [hleft, hpos, Iterator.sub_eq hr'.toFits hr.read_valid hr.read_valid, Shape.dist_self]
    simp

/-- A round that takes a request for a method consumes all that is unread, or is an error. -/
lemma processPacket_method (n : ℤ) (hr : w.stream.readbuf.IsRing pieces)
    (hpath : ¬ w.reqheader.path.length ≤ 1) :
    ((handers env).processPacket n w).2.stream.closeWhenEmpty = true ∨
      ((handers env).processPacket n w).2.stream.readbuf.IsRing pieces ∧
      ((handers env).processPacket n w).2.stream.readbuf.unread.length = 0 ∧
      ((handers env).processPacket n w).2.reqheader = w.reqheader.reset ∧
      ((handers env).processPacket n w).1 = n - w.stream.readbuf.unread.length := by
  obtain ⟨hfront, -, hclose, hleft⟩ := processPacket_front env n w
  by_cases hfails : Fails env w
  · exact Or.inl (hclose.trans ((closeWhenEmpty_recived env w).mpr (Or.inl hfails)))
  -- the method is registered
  obtain ⟨method, hmethod⟩ : ∃ method,
      env.getServiceAndMethod (w.reqheader.path.drop 1) = some method := by
    rw [← Option.ne_none_iff_exists']
    intro hnone
    refine hfails ?_
    rw [Fails.eq_def, handed, if_neg hpath, hnone]
    trivial
  obtain ⟨-, hbuf⟩ := onMessageRecived_method env hr (not_le.mp hpath) hmethod
  obtain ⟨hread, hzero, hwrite⟩ : (onMessageRecived env w).stream.readbuf.IsRing pieces ∧
      (onMessageRecived env w).stream.readbuf.unread.length = 0 ∧
      (onMessageRecived env w).stream.readbuf.readpos = w.stream.readbuf.writepos := by
    rw [hbuf]
    have hread : IOBuffer.IsRing pieces
        { w.stream.readbuf.toIOBuffer with readpos := w.stream.readbuf.writepos } :=
      ReadBuffer.isRing_readpos hr hr.write_valid
    exact ⟨hread, (IOBuffer.length_unread hread).trans Shape.dist_self, rfl⟩
  obtain ⟨hpos, hr', hunread⟩ := ReadBuffer.reset_spec hread
  rw [front, Prod.mk.injEq] at hfront
  refine Or.inr ⟨?_, ?_, hfront.1, ?_⟩
  · rw [hfront.2]
    exact hr'
  · rw [hfront.2, hunread, hzero]
  · rw [hleft, hpos, hwrite, Iterator.sub_eq hr'.toFits hr.read_valid hr.write_valid,
      IOBuffer.length_unread hr]
    rfl

/-! ## The loop -/

lemma not_complete_of_nil (hr : w.stream.readbuf.IsRing pieces)
    (hzero : w.stream.readbuf.unread.length = 0) (hstate : w.reqheader.state ≠ .atEnd) :
    ¬ (front w).Complete := by
  rintro ⟨hdone, -⟩
  have hless := (parsed_consumes hr).2.2.2 hdone hstate
  omega

lemma clear_of_not_complete (h : ¬ (front w).Complete) : Clear env q w := by
  refine ⟨fun hc => absurd hc h, ?_⟩
  intro _ t ht
  cases ht with
  | one hc => exact absurd hc h
  | more hc => exact absurd hc h

/-- The condition for a request for the list of services. -/
lemma clear_list (hc : (front w).Complete) (hseen : (front w).Seen) (hlist : (front w).IsList)
    (hanswers : Answers env w) {v : ServerWorld Req Res} (hnext : front v = (front w).next)
    (hanswers' : Answers env v) :
    Clear env q w ↔ if q < (front v).left then Clear env q v else ¬ (front v).Complete := by
  rw [Clear, Clear, hnext]
  constructor
  · rintro ⟨-, hall⟩
    have hone := hall hanswers _ (.one hc hseen hlist)
    split
    · rename_i hmore
      refine ⟨fun hc' => (hone hc').2, ?_⟩
      intro _ t ht
      exact hall hanswers t (.more hc hseen hlist hmore ht)
    · rename_i hstop
      exact fun hc' => hstop (hone hc').1
  · intro h
    refine ⟨fun _ => hseen, ?_⟩
    intro _ t ht
    cases ht with
    | one =>
      intro hc'
      split at h
      · rename_i hmore
        exact ⟨hmore, h.1 hc'⟩
      · exact absurd hc' h
    | more _ _ _ hmore ht =>
      rw [if_pos hmore] at h
      exact h.2 hanswers' t ht

/-- A round that finds no header, or refuses it. -/
lemma noneLeft_not_done {n : ℤ} {fuel : ℕ} (hw : BetweenCalls w) (hdone : ¬ w.HeaderDone) :
    NoneLeft ((handers env).recvLoop (fuel + 1) n w) := by
  rcases recvPacket_cases (handers env) n w with ⟨-, hno, hend⟩ | ⟨hyes, -⟩
  · rw [MessageHanders.Dispatches] at hno
    rw [MessageHanders.recvLoop]
    rcases hp : (handers env).recvPacket n w with ⟨ret | left, w'⟩
    · intro hret _
      rw [hp] at hend
      obtain ⟨hhalf, hparsed⟩ := hend (congrArg Sum.inl hret)
      obtain ⟨hr, -, hzero, -⟩ := parsed_consumes hw.reachable.isRing
      have hsame : w' = w.parsed := hparsed
      change ¬ (front w').Complete
      rw [hsame]
      exact not_complete_of_nil hr (hzero hhalf) (hw.parsed.2.2.2 hhalf)
    · rw [hp] at hno
      exact absurd rfl hno
  · exact absurd hyes hdone

/-- What the first half of a round does when it finds the end of a header. -/
lemma recvPacket_front (env : ServerEnv Req Res) (n : ℤ) (hw : BetweenCalls w)
    (hdone : w.HeaderDone) :
    ((maxBufferPieces * defaultBufferSize : ℕ) < w.parsed.reqheader.getContentLength ∧
      ¬ (front w).Complete ∧ ∃ w', (handers env).recvPacket n w = (.inl (-1), w')) ∨
    (¬ ((front w).Complete ∧ (front w).Seen) ∧
      (handers env).recvPacket n w = (.inl 0, w.parsed)) ∨
    (front w).Complete ∧ (front w).Seen ∧ (handers env).recvPacket n w
      = (.inr (n - ((front w).left - (front w.parsed).left)), w.parsed) := by
  have hr : w.parsed.stream.readbuf.IsRing pieces := hw.parsed.1.isRing
  have hlt : w.parsed.stream.readbuf.unread.length < maxBufferPieces * defaultBufferSize := by
    rw [IOBuffer.length_unread hr, ← cap_pieces]
    exact IOBuffer.used_lt hr
  have hcomplete : (front w).Complete ↔ w.parsed.reqheader.getContentLength
      ≤ (w.parsed.stream.readbuf.unread.length : ℤ) := and_iff_right hdone
  have hseen : (front w).Seen ↔ Roomy w.parsed.stream.readbuf ∨
    w.parsed.reqheader.getContentLength < 0 := Iff.rfl
  rw [hcomplete, hseen, recvPacket_done _ _ hw hdone]
  by_cases hlong : (maxBufferPieces * defaultBufferSize : ℕ)
      < w.parsed.reqheader.getContentLength
  · rw [if_pos hlong]
    exact Or.inl ⟨hlong, by omega, _, rfl⟩
  rw [if_neg hlong]
  by_cases hroom : Roomy w.parsed.stream.readbuf
  · rw [if_pos hroom]
    split
    · exact Or.inr (Or.inl ⟨by omega, rfl⟩)
    · exact Or.inr (Or.inr ⟨by omega, Or.inl hroom, rfl⟩)
  · rw [if_neg hroom]
    split
    · exact Or.inr (Or.inl ⟨by simp only [hroom, false_or]; omega, rfl⟩)
    · exact Or.inr (Or.inr ⟨by omega, by omega, rfl⟩)

/-- Without a request for the list of services there is one place to look at. -/
lemma clear_of_not_list (hseen : (front w).Seen) (hno : ¬ (front w).IsList) : Clear env q w := by
  refine ⟨fun _ => hseen, ?_⟩
  intro _ t ht
  cases ht with
  | one _ _ hlist => exact absurd hlist hno
  | more _ _ hlist => exact absurd hlist hno

/-- What the second half of a round leads to, when the loop can go on from there. -/
lemma noneLeft_round {fuel : ℕ} {r : ℤ × ServerWorld Req Res} :
    NoneLeft (if r.2.stream.closeWhenEmpty then (0, r.2)
        else if 0 < r.1 then (handers env).recvLoop fuel r.1 r.2 else (0, r.2)) ↔
      (r.2.stream.closeWhenEmpty = false →
        if 0 < r.1 then NoneLeft ((handers env).recvLoop fuel r.1 r.2)
        else ¬ (front r.2).Complete) := by
  by_cases hclose : r.2.stream.closeWhenEmpty = true
  · rw [if_pos hclose]
    refine iff_of_true (fun _ hopen => ?_) (fun hopen => ?_)
    · exact absurd (hclose.symm.trans hopen) Bool.noConfusion
    · exact absurd (hclose.symm.trans hopen) Bool.noConfusion
  · have hopen : r.2.stream.closeWhenEmpty = false := Bool.eq_false_iff.mpr hclose
    rw [if_neg hclose, forall_prop_of_true hopen]
    split
    · exact Iff.rfl
    · exact ⟨fun h => h rfl hopen, fun h _ _ => h⟩

/-- The loop, with a number that does not count `q` of the unread bytes. -/
lemma noneLeft_recvLoop {fuel : ℕ} (hw : BetweenCalls w)
    (hopen : w.stream.closeWhenEmpty = false)
    (hfuel : (front w).left < fuel ∨ w.reqheader.state ≠ .atEnd ∧ (front w).left ≤ fuel) :
    NoneLeft ((handers env).recvLoop fuel ((front w).left - q) w) ↔ Clear env q w := by
  induction fuel generalizing w with
  | zero =>
    have hzero : (front w).left = 0 := by omega
    have hstate : w.reqheader.state ≠ .atEnd := by
      rcases hfuel with hlt | ⟨hstate, -⟩
      · omega
      · exact hstate
    have hno := not_complete_of_nil hw.reachable.isRing hzero hstate
    exact iff_of_true (fun _ _ => hno) (clear_of_not_complete hno)
  | succ fuel ih =>
    by_cases hdone : w.HeaderDone
    swap
    · exact iff_of_true (noneLeft_not_done hw hdone) (clear_of_not_complete fun hc => hdone hc.1)
    have hle : (front w.parsed).left ≤ (front w).left := hw.parsed.2.1
    have hr : w.parsed.stream.readbuf.IsRing pieces := hw.parsed.1.isRing
    rw [MessageHanders.recvLoop]
    rcases recvPacket_front env ((front w).left - q) hw hdone with
      ⟨-, hno, w', heq⟩ | ⟨hno, heq⟩ | ⟨hc, hseen, heq⟩
    · rw [heq]
      have hret : (-1 : ℤ) ≠ 0 := by decide
      exact iff_of_true (fun h => absurd h hret) (clear_of_not_complete hno)
    · -- the call waits for the rest of the body
      have hagain : (front w.parsed).Complete ↔ (front w).Complete := by
        rw [Front.Complete, Front.Complete, Front.parsed, front, parsed_again hw hdone]
        exact and_congr_left' (iff_of_true rfl hdone)
      rw [heq]
      change (0 = 0 → w.stream.closeWhenEmpty = false → ¬ (front w.parsed).Complete) ↔ _
      rw [forall_prop_of_true rfl, forall_prop_of_true hopen, hagain]
      exact ⟨clear_of_not_complete, fun h hc => hno ⟨hc, h.1 hc⟩⟩
    have hnumber : ((front w).left - q : ℤ) - ((front w).left - (front w.parsed).left)
        = (front w.parsed).left - q := by omega
    rw [heq, hnumber]
    refine (noneLeft_round (r := (handers env).processPacket ((front w.parsed).left - q)
      w.parsed)).trans ?_
    by_cases hlist : (front w).IsList
    · by_cases hanswers : Answers env w
      · obtain ⟨hfront, hopen', hanswers', hn⟩ := processPacket_list
          ((front w.parsed).left - q) hr hopen hlist hanswers
        obtain ⟨-, hr', hunread⟩ := ReadBuffer.reset_spec hr
        generalize (handers env).processPacket ((front w.parsed).left - q) w.parsed = r
          at hfront hopen' hanswers' hn ⊢
        have hbuf : r.2.stream.readbuf = w.parsed.stream.readbuf.reset := congrArg Prod.snd hfront
        have hstate : r.2.reqheader.state ≠ .atEnd := by
          rw [show r.2.reqheader = w.parsed.reqheader.reset from congrArg Prod.fst hfront]
          exact ParserState.noConfusion
        have hleft : (front r.2).left = (front w.parsed).left := by
          rw [hfront]
          exact congrArg List.length hunread
        rw [forall_prop_of_true hopen', hn, ← hleft,
          clear_list hc hseen hlist hanswers (v := r.2) hfront hanswers']
        by_cases hmore : q < (front r.2).left
        · rw [if_pos hmore, if_pos (by omega)]
          -- a header is not empty, so the fuel is enough for the rest
          have hfuel' : (front r.2).left ≤ fuel := by
            rcases hfuel with hlt | ⟨hne, hle'⟩
            · omega
            · have hless : (front w.parsed).left < (front w).left :=
                (parsed_consumes hw.reachable.isRing).2.2.2 hdone hne
              omega
          refine ih ⟨?_, fun hend => absurd hend hstate⟩ hopen' (Or.inr ⟨hstate, hfuel'⟩)
          rw [hbuf]
          exact hw.parsed.1.step (o := .reset) rfl
        · rw [if_neg hmore, if_neg (by omega)]
      · -- the error marks the stream
        have hfails : Fails env w.parsed := (fails_list (w := w.parsed) hlist).mpr hanswers
        have hclose := (closeWhenEmpty_recived env w.parsed).mpr (Or.inl hfails)
        refine iff_of_true (fun hstay => ?_) ⟨fun _ => hseen, fun h => absurd h hanswers⟩
        exact absurd (hclose.symm.trans hstay) Bool.noConfusion
    · refine iff_of_true (fun hstay => ?_) (clear_of_not_list hseen hlist)
      rcases processPacket_method ((front w.parsed).left - q) hr hlist with
        hclose | ⟨hr', hzero, hheader, hn⟩
      · exact absurd (hclose.symm.trans hstay) Bool.noConfusion
      · have hleft : (w.parsed.stream.readbuf.unread.length : ℤ) = (front w.parsed).left := rfl
        rw [hn, hleft, if_neg (by omega)]
        refine not_complete_of_nil hr' hzero ?_
        rw [hheader]
        exact ParserState.noConfusion

variable (env) in
/-- A mark stays in the first half of a round. -/
lemma marked_recvPacket (n : ℤ) (hclose : w.stream.closeWhenEmpty = true) :
    ((handers env).recvPacket n w).2.stream.closeWhenEmpty = true := by
  rw [MessageHanders.recvPacket]
  dsimp only
  split
  · rfl
  · exact hclose
  · exact hclose
  · split
    · rfl
    split
    · exact hclose
    · exact hclose

/-- On a marked stream nothing is asked. -/
lemma noneLeft_marked {n : ℤ} (hclose : w.stream.closeWhenEmpty = true) :
    NoneLeft ((handers env).onRecived n w) := by
  have hpacket := marked_recvPacket env n hclose
  have hmark : ((handers env).onRecived n w).2.stream.closeWhenEmpty = true := by
    rw [MessageHanders.onRecived, MessageHanders.recvLoop]
    rcases hp : (handers env).recvPacket n w with ⟨ret | left, w'⟩
    · rw [hp] at hpacket
      exact hpacket
    · rw [hp] at hpacket
      have hround : ((handers env).processPacket left w').2.stream.closeWhenEmpty = true :=
        (closeWhenEmpty_recived env w').mpr (Or.inr hpacket)
      dsimp only
      rw [if_pos hround]
      exact hround
  exact fun _ hopen => absurd (hmark.symm.trans hopen) Bool.noConfusion

/-- The handler leaves a read buffer in order. -/
lemma reachable_onMessageRecived (env : ServerEnv Req Res) (hb : w.stream.readbuf.Reachable) :
    (onMessageRecived env w).stream.readbuf.Reachable := by
  by_cases hpath : w.reqheader.path.length ≤ 1
  · rw [(readsNothing_onMessageRecived env hpath).readbuf]
    exact hb
  cases hmethod : env.getServiceAndMethod (w.reqheader.path.drop 1) with
  | none =>
    have hname : (w.reqheader.path.drop 1).length ≠ 0 := by
      rw [List.length_drop]
      omega
    rw [onMessageRecived, if_neg hpath, if_neg hname, hmethod]
    exact hb
  | some method =>
    rw [(onMessageRecived_method env hb.isRing (not_le.mp hpath) hmethod).2]
    exact hb.taken

/-- A call that returns 0 leaves the parser as the next call may find it. -/
lemma betweenCalls_recvLoop {fuel : ℕ} {n : ℤ} (hw : BetweenCalls w)
    (hret : ((handers env).recvLoop fuel n w).1 = 0) :
    BetweenCalls ((handers env).recvLoop fuel n w).2 := by
  induction fuel generalizing n w with
  | zero => exact hw
  | succ fuel ih =>
    rw [MessageHanders.recvLoop] at hret ⊢
    by_cases hdone : w.HeaderDone
    · rcases recvPacket_front env n hw hdone with ⟨-, -, w', heq⟩ | ⟨-, heq⟩ | ⟨-, -, heq⟩
      · rw [heq] at hret
        exact absurd hret (by decide : (-1 : ℤ) ≠ 0)
      · rw [heq]
        exact ⟨hw.parsed.1, fun _ => hw.parsed.2.2.1 hdone⟩
      rw [heq] at hret ⊢
      obtain ⟨hfront, -⟩ := processPacket_front env
        (n - ((front w).left - (front w.parsed).left)) w.parsed
      dsimp only at hret ⊢
      have hround : BetweenCalls ((handers env).processPacket
          (n - ((front w).left - (front w.parsed).left)) w.parsed).2 := by
        rw [front, Prod.mk.injEq] at hfront
        constructor
        · rw [hfront.2]
          exact (reachable_onMessageRecived env hw.parsed.1).step (o := .reset) rfl
        · intro hend
          rw [hfront.1] at hend
          exact ParserState.noConfusion hend
      generalize (handers env).processPacket
        (n - ((front w).left - (front w.parsed).left)) w.parsed = r at hround hret ⊢
      by_cases hclose : r.2.stream.closeWhenEmpty = true
      · rw [if_pos hclose]
        exact hround
      rw [if_neg hclose] at hret ⊢
      by_cases hmore : 0 < r.1
      · rw [if_pos hmore] at hret ⊢
        exact ih hround hret
      · rw [if_neg hmore]
        exact hround
    · rcases recvPacket_cases (handers env) n w with ⟨-, hno, hend⟩ | ⟨hyes, -⟩
      · rw [MessageHanders.Dispatches] at hno
        rcases hp : (handers env).recvPacket n w with ⟨ret | left, w'⟩
        · rw [hp] at hend hret
          obtain ⟨hhalf, hparsed⟩ := hend (congrArg Sum.inl hret)
          have hsame : w' = w.parsed := hparsed
          change BetweenCalls w'
          rw [hsame]
          exact ⟨hw.parsed.1, fun hend' => absurd hend' (hw.parsed.2.2.2 hhalf)⟩
        · rw [hp] at hno
          exact absurd rfl hno
      · exact absurd hyes hdone

end ServerConnect

open ServerConnect

/-- A call on a stream without a mark. -/
lemma noneLeft_onRecived {Req Res : Type} {env : ServerEnv Req Res} {w : ServerWorld Req Res}
    {n : ℕ} (hw : BetweenCalls w) (hn : n ≤ w.stream.readbuf.unread.length)
    (hopen : w.stream.closeWhenEmpty = false) :
    NoneLeft ((handers env).onRecived n w) ↔ Clear env (w.stream.readbuf.unread.length - n) w := by
  have hused : w.stream.readbuf.getBufferUsed = (front w).left := by
    rw [IOBuffer.getBufferUsed_eq hw.reachable.isRing,
      ← IOBuffer.length_unread hw.reachable.isRing]
    rfl
  have hnumber : (n : ℤ) = (front w).left - (w.stream.readbuf.unread.length - n : ℕ) := by
    change (n : ℤ) = w.stream.readbuf.unread.length - (w.stream.readbuf.unread.length - n : ℕ)
    omega
  rw [MessageHanders.onRecived, hused, hnumber]
  exact noneLeft_recvLoop hw hopen (Or.inl (Nat.lt_succ_self _))

/-- Whatever the buffer holds and the parser has seen of it, and however many of the unread bytes
are new: a call of `OnRecived` that returns 0 on a stream without a mark leaves no complete
request in the buffer if and only if the stream was marked before, or none of the requests that
the call looks at fills the buffer up to its last free byte, and there is none at the place where
the number of new bytes is used up. -/
theorem leavesNone_iff {Req Res : Type} (env : ServerEnv Req Res) {w : ServerWorld Req Res}
    {n : ℕ} (hw : BetweenCalls w) (hn : n ≤ w.stream.readbuf.unread.length) :
    NoneLeft ((handers env).onRecived n w) ↔
      w.stream.closeWhenEmpty = true ∨ Clear env (w.stream.readbuf.unread.length - n) w := by
  by_cases hclose : w.stream.closeWhenEmpty = true
  · exact iff_of_true (noneLeft_marked hclose) (Or.inl hclose)
  · rw [noneLeft_onRecived hw hn (Bool.eq_false_iff.mpr hclose)]
    exact ⟨Or.inr, fun h => h.resolve_left hclose⟩

/-! ## A request that is left behind -/

/-- A front whose unread bytes and cells are known. -/
lemma Front.tape_spec {s : Front} (hr : s.2.IsRing pieces) {r : Scanner.Res _ _ _}
    (hscan : HttpRequestHeader.parser.machine.scan s.1 .fresh s.2.tape = r) :
    (s.Complete ↔ r.ret = .finish ∧ r.obj.getContentLength ≤ (s.2.tape.length - r.used : ℕ)) ∧
      (s.2.tape.length - r.used + 1 < maxBufferPieces * defaultBufferSize → s.Seen) ∧
      (s.IsList ↔ r.obj.path.length ≤ 1) ∧ s.next.left = s.2.tape.length - r.used ∧
      s.next.2.IsRing pieces ∧ s.next.2.tape = s.2.tape.drop r.used ∧ s.next.1 = r.obj.reset := by
  have hparse : s.1.parserHeader s.2 = _ := HttpRequestHeader.parser.parse_eq (h := s.1) hr
  have hle := Scanner.Machine.used_le (M := HttpRequestHeader.parser.machine)
    (h := s.1) (l := .fresh) (t := s.2.tape)
  rw [hscan] at hparse hle
  have htape : s.2.tape.length = s.2.used pieces := by
    rw [ReadBuffer.tape, List.length_map, IOBuffer.unreadCells_eq hr, Shape.length_walk]
  have hra := ReadBuffer.isRing_iterate_advance hr r.used
  obtain ⟨hrest, hused⟩ := ReadBuffer.tape_iterate_advance hr (n := r.used) (by omega)
  have hleft : s.parsed.left = s.2.tape.length - r.used := by
    rw [parsed, hparse, htape, ← hused]
    exact IOBuffer.length_unread hra
  obtain ⟨hpos, hr', hunread⟩ := ReadBuffer.reset_spec hra
  have hbuf : s.parsed.2 = ReadBuffer.advance^[r.used] s.2 := by rw [parsed, hparse]
  refine ⟨?_, fun hroom => Or.inl ?_, ?_, ?_, ?_, ?_, ?_⟩
  · rw [Complete, hleft, parsed, hparse]
  · rw [Roomy]
    change s.parsed.left + 1 < _
    rwa [hleft]
  · rw [IsList, parsed, hparse]
  · rw [← hleft, left, left, next, hbuf, hunread]
  · rw [next, hbuf]
    exact hr'
  · rw [← hrest, next, hbuf, ReadBuffer.tape_eq hr', ReadBuffer.tape_eq hra, hpos, hunread,
      ← IOBuffer.length_unread hr', ← IOBuffer.length_unread hra, hunread]
  · rw [next, parsed, hparse]

/-- A request for the list of services without a body. -/
def listText : Bytes := ascii "GET / HTTP/1.1\r\n\r\n"

/-- A request for the list of services whose body is two such requests, without its last byte. -/
def nestedText : Bytes :=
  ascii "GET / HTTP/1.1\r\nContent-Length:36\r\n\r\n" ++ listText ++ listText.dropLast

/-- The cells and bytes of the first read. -/
def nestedTape : Tape := (pieces.walk ⟨0, 0⟩ 72).zip nestedText

/-- What the parser makes of them: the header. -/
def nestedScan : Scanner.Res HttpRequestHeader ParserLocals ParserRet :=
  HttpRequestHeader.parser.machine.scan .init .fresh nestedTape

/-- The cells and bytes of the body, when its last byte has come. -/
def bodyTape : Tape := nestedTape.drop 37 ++ (pieces.walk (pieces.next^[72] ⟨0, 0⟩) 1).zip [10]

/-- What the parser makes of the body: a request. -/
def bodyScan : Scanner.Res HttpRequestHeader ParserLocals ParserRet :=
  HttpRequestHeader.parser.machine.scan nestedScan.obj.reset .fresh bodyTape

/-- The first read has come. -/
def nestedRecived : ServerWorld Unit Unit := ServerWorld.init.recived nestedText

/-- The state that the call for the first read leaves, and the last byte. -/
def nestedWorld : ServerWorld Unit Unit :=
  ((handers echoEnv).onRecived 72 nestedRecived).2.recived [10]

lemma tape_nestedRecived : nestedRecived.stream.readbuf.IsRing pieces ∧
    nestedRecived.stream.readbuf.used pieces = 72 ∧
    nestedRecived.stream.readbuf.tape = nestedTape :=
  ReadBuffer.recive_empty ReadBuffer.isRing_init rfl nestedText (by rw [cap_pieces]; decide)

lemma betweenCalls_nestedRecived : BetweenCalls nestedRecived := by
  have hinit : BetweenCalls (ServerWorld.init : ServerWorld Unit Unit) :=
    ⟨ReadBuffer.reachable_init, fun hend => ParserState.noConfusion hend⟩
  obtain ⟨iov, hiov⟩ : ∃ iov, ReadBuffer.init.getReciveBuffer = some iov := ⟨_, rfl⟩
  refine hinit.recived ⟨iov, hiov, by decide, ?_, rfl⟩
  rw [IOBuffer.length_offer ReadBuffer.isRing_init hiov, used_init, cap_pieces]
  decide

/-- The header of the first read. -/
lemma parse_nestedRecived : nestedRecived.reqheader.parserHeader nestedRecived.stream.readbuf
    = (.finish, nestedScan.obj, ReadBuffer.advance^[37] nestedRecived.stream.readbuf) := by
  obtain ⟨hr, -, htape⟩ := tape_nestedRecived
  have hparse : nestedRecived.reqheader.parserHeader nestedRecived.stream.readbuf = _ :=
    HttpRequestHeader.parser.parse_eq (h := nestedRecived.reqheader) hr
  have hret : nestedScan.ret = .finish := by decide +kernel
  have hused : nestedScan.used = 37 := by decide +kernel
  rw [hparse, htape, ← hret, ← hused]
  rfl

/-- The first call waits for the last byte. -/
lemma onRecived_nestedRecived :
    ((handers echoEnv).onRecived 72 nestedRecived).1 = 0 ∧
      ((handers echoEnv).onRecived 72 nestedRecived).2 = nestedRecived.parsed := by
  obtain ⟨hr, hused, htape⟩ := tape_nestedRecived
  have hlength : nestedScan.obj.getContentLength = 36 := by decide +kernel
  obtain ⟨hparsed, -⟩ := parsed_of_parserHeader parse_nestedRecived
  have hdone : nestedRecived.HeaderDone := by rw [World.HeaderDone, parse_nestedRecived]
  have hno : ¬ (front nestedRecived).Complete := by
    have htape' : (front nestedRecived).2.tape = nestedTape := htape
    have hscan : HttpRequestHeader.parser.machine.scan (front nestedRecived).1 .fresh
        (front nestedRecived).2.tape = nestedScan := by
      rw [htape']
      rfl
    have hrest : nestedTape.length - nestedScan.used = 35 := by decide +kernel
    rw [(Front.tape_spec (s := front nestedRecived) hr hscan).1, hlength, htape', hrest]
    omega
  rcases recvPacket_front echoEnv 72 betweenCalls_nestedRecived hdone with
    ⟨hlong, -⟩ | ⟨-, heq⟩ | ⟨hc, -⟩
  · rw [hparsed, hlength] at hlong
    exact absurd hlong (by decide)
  · rw [MessageHanders.onRecived_waits _ heq]
    exact ⟨rfl, rfl⟩
  · exact absurd hc hno

/-- One more byte. -/
lemma front_byte {Req Res : Type} {w : ServerWorld Req Res} (hw : BetweenCalls w) {c : UInt8}
    (hfit : w.stream.readbuf.used pieces + 1 < pieces.cap) :
    BetweenCalls (w.recived [c]) ∧ (front (w.recived [c])).1 = w.reqheader ∧
      (front (w.recived [c])).2.IsRing pieces ∧
      (front (w.recived [c])).2.tape
        = w.stream.readbuf.tape ++ (pieces.walk w.stream.readbuf.writepos 1).zip [c] ∧
      (front (w.recived [c])).left = w.stream.readbuf.used pieces + 1 := by
  have hr := hw.reachable.isRing
  obtain ⟨iov, hiov⟩ := ReadBuffer.exists_iov hr hfit
  obtain ⟨hrr, hmore, hall⟩ := ReadBuffer.tape_recive hr [c] hfit (by
    rw [List.length_singleton]
    exact hfit)
  refine ⟨hw.recived ⟨iov, hiov, by simp, ?_, rfl⟩, rfl, hrr, hall, ?_⟩
  · rw [IOBuffer.length_offer hr hiov, List.length_singleton]
    omega
  · exact (IOBuffer.length_unread hrr).trans hmore

/-- What the call with the last byte finds. -/
lemma front_nestedWorld : BetweenCalls nestedWorld ∧
    (front nestedWorld).1 = nestedScan.obj ∧ (front nestedWorld).2.IsRing pieces ∧
    (front nestedWorld).2.tape = bodyTape ∧ (front nestedWorld).left = 36 := by
  obtain ⟨hr, hused, htape⟩ := tape_nestedRecived
  obtain ⟨hret, hcall⟩ := onRecived_nestedRecived
  obtain ⟨hheader, hbuf⟩ := parsed_of_parserHeader parse_nestedRecived
  have hcap : pieces.cap = 8388608 := cap_pieces
  obtain ⟨hrest, hleft⟩ := ReadBuffer.tape_iterate_advance hr (n := 37) (by omega)
  have hwrite : (ReadBuffer.advance^[37] nestedRecived.stream.readbuf).writepos
      = pieces.next^[72] ⟨0, 0⟩ := by
    rw [ReadBuffer.writepos_iterate_advance]
    change (ReadBuffer.init.toIOBuffer.recive nestedText).writepos = _
    rw [IOBuffer.writepos_recive ReadBuffer.isRing_init rfl, used_init]
    rfl
  have hbetween : BetweenCalls ((handers echoEnv).onRecived 72 nestedRecived).2 :=
    betweenCalls_recvLoop betweenCalls_nestedRecived hret
  rw [hcall] at hbetween
  obtain ⟨hw, hobj, hrr, hall, hmore⟩ := front_byte (c := 10) hbetween (by
    rw [hbuf, hleft]
    omega)
  rw [nestedWorld, hcall, hobj, hall, hmore, hbuf, hleft, hrest, htape, hwrite, hused]
  exact ⟨hw, hheader, hrr, rfl, rfl⟩

/-- The parser finds a request for the list of services at the front of a tape. -/
def FindsList (t : Tape) (r : Scanner.Res HttpRequestHeader ParserLocals ParserRet) : Prop :=
  r.ret = .finish ∧ r.obj.getContentLength ≤ (t.length - r.used : ℕ) ∧ r.obj.path.length ≤ 1

instance (t : Tape) (r : Scanner.Res HttpRequestHeader ParserLocals ParserRet) :
    Decidable (FindsList t r) :=
  inferInstanceAs (Decidable (_ ∧ _))

/-- Behind the header of a request for the list of services there are two others, the first of
which uses the number up. -/
lemma behind_two {q : ℕ} {s : Front} {t : Tape} {h₀ : HttpRequestHeader}
    {r₁ r₂ : Scanner.Res HttpRequestHeader ParserLocals ParserRet} (hr : s.2.IsRing pieces)
    (ht : s.2.tape = t) (hobj : s.1 = h₀) (hstate : h₀.state = .atEnd)
    (h₁ : HttpRequestHeader.parser.machine.scan h₀.reset .fresh t = r₁)
    (h₂ : HttpRequestHeader.parser.machine.scan r₁.obj.reset .fresh (t.drop r₁.used) = r₂)
    (hlength : h₀.getContentLength ≤ t.length) (hpath : h₀.path.length ≤ 1)
    (hfinds₁ : FindsList t r₁) (hfinds₂ : FindsList (t.drop r₁.used) r₂)
    (hmax : t.length + 1 < maxBufferPieces * defaultBufferSize) (hq : q < t.length) :
    ∃ s', Behind q s s' ∧ s'.Complete ∧ s'.left = t.length - r₁.used := by
  obtain ⟨hret₁, hlength₁, hpath₁⟩ := hfinds₁
  obtain ⟨hret₂, hlength₂, -⟩ := hfinds₂
  subst ht
  have hscan : HttpRequestHeader.parser.machine.scan s.1 .fresh s.2.tape
      = ⟨.finish, h₀, .fresh, 0⟩ := by
    rw [hobj]
    exact Scanner.Machine.scan_done (HttpRequestHeader.parser.machine_done_iff.mpr hstate)
  obtain ⟨hc, hseen, hlist, hleft, hr₁, htape₁, hobj₁⟩ := Front.tape_spec hr hscan
  rw [List.drop_zero] at htape₁
  rw [← htape₁] at hlength₁ hlength₂ h₁ h₂
  rw [← hobj₁] at h₁
  obtain ⟨hc₁, hseen₁, hlist₁, hleft₁, hr₂, htape₂, hobj₂⟩ := Front.tape_spec hr₁ h₁
  rw [← htape₂] at hlength₂ h₂
  rw [← hobj₂] at h₂
  obtain ⟨hc₂, -⟩ := Front.tape_spec hr₂ h₂
  rw [htape₁] at hleft₁ hseen₁
  exact ⟨s.next.next, .more (hc.mpr ⟨rfl, hlength⟩) (hseen hmax) (hlist.mpr hpath)
    (hleft ▸ hq) (.one (hc₁.mpr ⟨hret₁, hlength₁⟩) (hseen₁ (by omega)) (hlist₁.mpr hpath₁)),
    hc₂.mpr ⟨hret₂, hlength₂⟩, hleft₁⟩

/-- What the parser makes of the rest of the body: another request. -/
def restScan : Scanner.Res HttpRequestHeader ParserLocals ParserRet :=
  HttpRequestHeader.parser.machine.scan bodyScan.obj.reset .fresh (bodyTape.drop 18)

/-- The call comes past the first request of the body, and the second is left. -/
lemma behind_nestedWorld : ∃ t, Behind 35 (front nestedWorld) t ∧ t.Complete ∧ t.left = 18 := by
  obtain ⟨-, hobj, hr, htape, -⟩ := front_nestedWorld
  have hused : bodyScan.used = 18 := by decide +kernel
  have hlength : bodyTape.length = 36 := by decide +kernel
  have hstate : nestedScan.obj.state = .atEnd := by decide +kernel
  have hrest : HttpRequestHeader.parser.machine.scan bodyScan.obj.reset .fresh
      (bodyTape.drop bodyScan.used) = restScan := by
    rw [hused, restScan]
  have hbody : HttpRequestHeader.parser.machine.scan nestedScan.obj.reset .fresh bodyTape =
      bodyScan := by
    rw [bodyScan]
  have htwo := behind_two (q := 35) hr htape hobj hstate hbody
    hrest (by decide +kernel) (by decide +kernel) (by decide +kernel) (by decide +kernel)
    (by decide +kernel) (by decide +kernel)
  rwa [hused, hlength] at htwo

/-- With the last byte of a body in which there are two requests, the call uses its number up on
the first. -/
theorem not_leavesNone :
    ¬ ∀ (Req Res : Type) (env : ServerEnv Req Res) (w : ServerWorld Req Res) (n : ℕ),
      BetweenCalls w → n ≤ w.stream.readbuf.unread.length →
        NoneLeft ((handers env).onRecived n w) := by
  intro hall
  obtain ⟨hw, -, -, -, hleft⟩ := front_nestedWorld
  have hunread : nestedWorld.stream.readbuf.unread.length = 36 := hleft
  have hn : 1 ≤ nestedWorld.stream.readbuf.unread.length := by omega
  have hopen : nestedWorld.stream.closeWhenEmpty = false := by
    rw [nestedWorld, onRecived_nestedRecived.2]
    rfl
  have hanswers : Answers echoEnv nestedWorld := by
    intro _
    rw [nestedWorld, onRecived_nestedRecived.2]
    decide
  have hclear := (noneLeft_onRecived hw hn hopen).mp (hall Unit Unit echoEnv nestedWorld 1 hw hn)
  rw [hunread] at hclear
  obtain ⟨t, hbehind, hcomplete, hleft'⟩ := behind_nestedWorld
  have hmore := (hclear.2 hanswers t hbehind hcomplete).1
  omega

/-- The call for the first read. -/
theorem leavesNone_nestedRecived :
    NoneLeft ((handers echoEnv).onRecived (72 : ℕ) nestedRecived) ↔
      nestedRecived.stream.closeWhenEmpty = true ∨
        Clear echoEnv (nestedRecived.stream.readbuf.unread.length - 72) nestedRecived :=
  leavesNone_iff echoEnv betweenCalls_nestedRecived (by
    rw [IOBuffer.length_unread tape_nestedRecived.1, tape_nestedRecived.2.1])

end MTRpc
