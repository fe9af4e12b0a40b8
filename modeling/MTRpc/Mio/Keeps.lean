import MTRpc.Mio.SocketStream

/-!
# What an event keeps

A property of the world that the handlers of a stream keep, and that survives the changes which
`OnEvent` makes to the stream by itself (`StreamClass.KeepsChanges`), is kept by all parts of
`OnEvent` but two: the reading, which calls `OnRecived`, and the time-outs, which give back their
references.  Most properties depend on the stream only by way of its count and whether it is closed
(`StreamClass.Keeps`).  `OnEvent` comes to the time-outs when it does not return before
(`StreamClass.ReturnsEarly`).
-/

namespace MTRpc

/-- What `OnEvent` does to a stream by itself, before the time-outs and but for a close. -/
inductive Stream.Change (s : Stream) : Stream → Prop
  | connected : Change s { s with isConnected := true }
  | recived (bs : Bytes) : Change s { s with readbuf := s.readbuf.recive bs }
  | sent (count : ℕ) : Change s { s with writebuf := s.writebuf.moveSendPtr count }
  | modEvent (readable writeable : Bool) : Change s (s.modEventAsync readable writeable)
  | mark : Change s (({ s with closeWhenEmpty := true }).modEventAsync true true)

namespace StreamClass

variable {σ : Type} {c : StreamClass σ} {P Q R : World σ → Prop}

/-- `OnConnect` fails for a READ or a WRITE. -/
def ConnectFails (c : StreamClass σ) (k : Kernel) (mask : BitVec 32) (w : World σ) : Prop :=
  w.stream.isConnected = false ∧ (Has mask eventRead ∨ Has mask eventWrite) ∧ k.names = false ∧
    c.connectReturnsZero = false

/-- `OnEvent` returns before the reading. -/
def ReturnsEarly (c : StreamClass σ) (k : Kernel) (mask : BitVec 32) (w : World σ) : Prop :=
  w.stream.isClosed = true ∨ Has mask eventClose ∨ Has mask eventErr ∨ c.ConnectFails k mask w

instance (k : Kernel) (mask : BitVec 32) (w : World σ) : Decidable (c.ConnectFails k mask w) :=
  inferInstanceAs (Decidable (_ ∧ _))

instance (k : Kernel) (mask : BitVec 32) (w : World σ) : Decidable (c.ReturnsEarly k mask w) :=
  inferInstanceAs (Decidable (_ ∨ _))

lemma connectFirst_lt_zero (k : Kernel) (mask : BitVec 32) (d : Dispatch σ) :
    (c.connectFirst k mask d).1 < 0 ↔ c.ConnectFails k mask d.toWorld := by
  rw [connectFirst, ConnectFails]
  by_cases hc : d.stream.isConnected = false ∧ (Has mask eventRead ∨ Has mask eventWrite)
  · rw [if_pos hc, onConnect]
    cases k.names with
    | true => simp
    | false =>
      cases c.connectReturnsZero with
      | true => simp
      | false => simpa [hc.1] using hc.2
  · rw [if_neg hc]
    exact iff_of_false (lt_irrefl _) fun h => hc ⟨h.1, h.2.1⟩

/-- Everything but the reading and the time-outs keeps the property. -/
structure Keeps (c : StreamClass σ) (P : World σ → Prop) : Prop where
  stream : ∀ (w : World σ) (s : Stream), s.isClosed = w.stream.isClosed →
    s.refCount = w.stream.refCount → P w → P { w with stream := s }
  connected : ∀ f ∈ c.handerConnected, ∀ w, P w → P (f w)
  writeable : ∀ f ∈ c.handerWriteable, ∀ w, P w → P (f w)
  sended : ∀ n w, P w → P (c.onSended n w)
  afterConnect : ∀ w, P w → P (c.afterConnect w)
  onClose : ∀ d : Dispatch σ, P d.toWorld → P (c.onClose d).toWorld

/-- The same for the changes that `OnEvent` makes, up to a close. -/
structure KeepsParts (c : StreamClass σ) (P : World σ → Prop) : Prop where
  change : ∀ (w : World σ) (s : Stream), w.stream.Change s → P w → P { w with stream := s }
  connected : ∀ f ∈ c.handerConnected, ∀ w, P w → P (f w)
  writeable : ∀ f ∈ c.handerWriteable, ∀ w, P w → P (f w)
  sended : ∀ n w, P w → P (c.onSended n w)
  afterConnect : ∀ w, P w → P (c.afterConnect w)

/-- The same with a close. -/
structure KeepsChanges (c : StreamClass σ) (P : World σ → Prop) : Prop extends c.KeepsParts P where
  onClose : ∀ d : Dispatch σ, P d.toWorld → P (c.onClose d).toWorld

lemma Keeps.changes (hc : c.Keeps P) : c.KeepsChanges P where
  change w s hs hw := by
    cases hs <;> exact hc.stream w _ rfl rfl hw
  connected := hc.connected
  writeable := hc.writeable
  sended := hc.sended
  afterConnect := hc.afterConnect
  onClose := hc.onClose

lemma keeps_getD {f : Option (World σ → World σ)} (hf : ∀ g ∈ f, ∀ w, P w → P (g w))
    {w : World σ} (hw : P w) : P (f.getD id w) := by
  cases f with
  | none => exact hw
  | some g => exact hf g rfl w hw

variable {d d' : Dispatch σ}

lemma keeps_ite {p : Prop} [Decidable p] (h : P d.toWorld) (h' : P d'.toWorld) :
    P (if p then d else d').toWorld := by
  split
  · exact h
  · exact h'

/-- A property that survives what a close does to the stream is kept by it. -/
lemma keeps_onClose
    (hclosed : ∀ w : World σ, P w →
      P { w with stream := { w.stream with isClosed := true, isConnected := false } })
    (hdel : ∀ w : World σ, P w → P { w with stream := w.stream.delEventAsync })
    (hclose : ∀ f ∈ c.handerClose, ∀ w, P w → P (f w))
    (hafter : ∀ w, P w → P (c.afterClose w)) (hd : P d.toWorld) : P (c.onClose d).toWorld := by
  refine hafter _ ?_
  split
  · exact hd
  · exact hdel _ (keeps_getD hclose (hclosed _ hd))

lemma KeepsParts.connectFirst (hc : c.KeepsParts P) (k : Kernel) (mask : BitVec 32)
    (hd : P d.toWorld) : P (c.connectFirst k mask d).2.toWorld := by
  have hconnect : P (c.onConnect k.names d).2.toWorld := by
    rw [onConnect]
    split
    · exact hc.afterConnect _ (keeps_getD hc.connected hd)
    · exact hc.afterConnect _ hd
  rw [StreamClass.connectFirst]
  split
  · dsimp only
    split
    · exact hconnect
    · exact hc.change _ _ .connected hconnect
  · exact hd

lemma KeepsChanges.closeOrMark (hc : c.KeepsChanges P) (hd : P d.toWorld) :
    P (c.closeOrMark d).toWorld := by
  rw [StreamClass.closeOrMark]
  split
  · exact hc.onClose d hd
  · exact hc.change _ _ .mark hd

lemma KeepsParts.disableWrite (hc : c.KeepsParts P) (hd : P d.toWorld) :
    P (StreamClass.disableWrite d).toWorld := by
  rw [StreamClass.disableWrite]
  split
  · exact hc.change _ _ (.modEvent _ _) hd
  · exact hd

lemma KeepsParts.writeLoop (hc : c.KeepsParts P) (rets : List WritevRet) (writeSize : ℕ)
    (hd : P d.toWorld) : P (writeLoop rets writeSize d).2.2.toWorld := by
  induction rets generalizing writeSize d with
  | nil =>
    rw [StreamClass.writeLoop.eq_def]
    dsimp only
    split <;> exact hd
  | cons ret rets ih =>
    rw [StreamClass.writeLoop.eq_def]
    dsimp only
    split
    · exact hd
    · cases ret with
      | sent count hpos => exact ih _ (hc.change _ _ (.sent count) hd)
      | again => exact hd
      | error => exact hd

lemma KeepsParts.onWriteable (hc : c.KeepsParts P) (writes : List WritevRet)
    (hd : P d.toWorld) : P (c.onWriteable writes d).2.toWorld := by
  have hrun : P ((StreamClass.disableWrite d).runHander c.handerWriteable).toWorld :=
    keeps_getD hc.writeable (hc.disableWrite hd)
  have hloop := hc.writeLoop writes 0 hrun
  rw [StreamClass.onWriteable]
  by_cases hempty :
      ((StreamClass.disableWrite d).runHander c.handerWriteable).stream.writebuf.isEmpty
  · rw [if_pos hempty]
    exact hrun
  · rw [if_neg hempty]
    rcases heq : StreamClass.writeLoop writes 0
      ((StreamClass.disableWrite d).runHander c.handerWriteable) with ⟨failed, n, d'⟩
    rw [heq] at hloop
    cases failed with
    | true => exact hloop
    | false =>
      have hsended : P (c.sended n d').toWorld := by
        rw [StreamClass.sended]
        exact keeps_ite (hc.sended _ _ hloop) hloop
      change P (StreamClass.disableWrite (c.sended n d')).toWorld
      exact hc.disableWrite hsended

/-- A property that survives the release of a reference is kept by the time-outs. -/
lemma keeps_timeOuts
    (hrelease : ∀ w : World σ, P w → P { w with stream := w.stream.releaseRef })
    (hread : ∀ f ∈ c.handerReadTimeOut, ∀ w, P w → P (f w))
    (hwrite : ∀ f ∈ c.handerWriteTimeOut, ∀ w, P w → P (f w)) (mask : BitVec 32)
    (hd : P d.toWorld) : P (c.timeOuts mask d).toWorld := by
  have hread : P (if Has mask MTRpc.readTimeOut then
      (d.call .onReadTimeOut (c.handerReadTimeOut.getD id)).modify Stream.releaseRef
      else d).toWorld := by
    split
    · exact hrelease _ (keeps_getD hread hd)
    · exact hd
  rw [StreamClass.timeOuts]
  split
  · exact hrelease _ (keeps_getD hwrite hread)
  · exact hread

/-- The reading keeps what its handlers keep. -/
lemma KeepsParts.onReadable (hc : c.KeepsParts P)
    (hreadable : ∀ f ∈ c.handerReadable, ∀ w, P w → P (f w))
    (herror : ∀ code w, P w → P (c.handerMessageError code w))
    (hrecived : ∀ n w, P w → P (c.onRecived n w)) (reads : List ReadvRet) (hd : P d.toWorld) :
    P (c.onReadable reads d).2.toWorld := by
  have hdeliver : ∀ (n : ℕ) (d : Dispatch σ), P d.toWorld → P (c.deliver n d).toWorld :=
    fun n d hd => keeps_ite (hrecived _ _ hd) hd
  have hloop : ∀ (rets : List ReadvRet) (n : ℕ) (d : Dispatch σ), P d.toWorld →
      P (c.readLoop rets n d).2.toWorld := by
    intro rets
    induction rets with
    | nil =>
      intro n d hd
      rw [StreamClass.readLoop.eq_def]
      dsimp only
      split
      · exact herror _ _ hd
      · exact hdeliver n d hd
    | cons ret rets ih =>
      intro n d hd
      rw [StreamClass.readLoop.eq_def]
      dsimp only
      split
      · exact herror _ _ hd
      · cases ret with
        | data bs ne => exact ih _ _ (hc.change _ _ (.recived bs) hd)
        | again => exact hdeliver n d hd
        | eof => exact hd
        | error => exact hd
  exact hloop reads 0 _ (keeps_getD hreadable hd)

/-- What is kept up to the time-outs, what the time-outs make of it, and what the close at the
end makes of that. -/
lemma KeepsParts.process (hc : c.KeepsParts P) (k : Kernel) (mask : BitVec 32)
    (hclose : ∀ d : Dispatch σ, Q d.toWorld → R (c.closeOrMark d).toWorld)
    (hQR : ∀ w : World σ, Q w → R w)
    (htimes : ∀ d : Dispatch σ, P d.toWorld → Q (c.timeOuts mask d).toWorld)
    (hread : P (if Has mask eventRead then c.onReadable k.reads d else (0, d)).2.toWorld) :
    R (c.process k mask d).toWorld := by
  have hwrite : P (if Has mask eventWrite then
      c.onWriteable k.writes (if Has mask eventRead then c.onReadable k.reads d else (0, d)).2
      else (0, (if Has mask eventRead then c.onReadable k.reads d else (0, d)).2)).2.toWorld := by
    split
    · exact hc.onWriteable _ hread
    · exact hread
  have htimes := htimes _ hwrite
  rw [StreamClass.process]
  exact keeps_ite (hclose _ htimes) (hQR _ htimes)

/-- The same, when the close keeps it too. -/
lemma KeepsChanges.process (hc : c.KeepsChanges P) (hq : c.KeepsChanges Q) (k : Kernel)
    (mask : BitVec 32) (htimes : ∀ d : Dispatch σ, P d.toWorld → Q (c.timeOuts mask d).toWorld)
    (hread : P (if Has mask eventRead then c.onReadable k.reads d else (0, d)).2.toWorld) :
    Q (c.process k mask d).toWorld :=
  hc.toKeepsParts.process k mask (fun _ hd => hq.closeOrMark hd) (fun _ hw => hw) htimes hread

/-- An event that returns early. -/
lemma KeepsChanges.onEvent_early (hc : c.KeepsChanges P) {k : Kernel} {mask : BitVec 32}
    {w : World σ} (hearly : c.ReturnsEarly k mask w) (hw : P w) :
    P (c.onEvent k mask w).toWorld := by
  rw [StreamClass.onEvent]
  dsimp only
  split
  · exact hw
  rename_i hclosed
  split
  · exact hc.closeOrMark hw
  rename_i hclose
  split
  · exact hc.onClose _ hw
  rename_i herr
  have hfails : c.ConnectFails k mask w :=
    ((hearly.resolve_left hclosed).resolve_left hclose).resolve_left herr
  rw [if_pos ((connectFirst_lt_zero k mask _).mpr hfails)]
  exact hc.onClose _ (hc.connectFirst k mask hw)

/-- An event that does not. -/
lemma onEvent_eq_process {k : Kernel} {mask : BitVec 32} {w : World σ}
    (hearly : ¬ c.ReturnsEarly k mask w) :
    c.onEvent k mask w = c.process k mask (c.connectFirst k mask ⟨w, []⟩).2 := by
  simp only [ReturnsEarly, not_or] at hearly
  obtain ⟨hclosed, hclose, herr, hfails⟩ := hearly
  rw [StreamClass.onEvent, if_neg hclosed, if_neg hclose, if_neg herr]
  exact if_neg ((connectFirst_lt_zero k mask _).not.mpr hfails)

/-- The rule for events that end with a close: what holds on an open stream is kept up to the
close, and the close makes something else of it. -/
lemma KeepsParts.onEvent (hc : c.KeepsParts P) (hPQ : ∀ w, P w → Q w)
    (hclose : ∀ d : Dispatch σ, P d.toWorld → Q (c.onClose d).toWorld)
    (htimes : ∀ (mask : BitVec 32) (d : Dispatch σ), P d.toWorld → P (c.timeOuts mask d).toWorld)
    (hread : ∀ reads (d : Dispatch σ), P d.toWorld → P (c.onReadable reads d).2.toWorld)
    (k : Kernel) (mask : BitVec 32) {w : World σ} (hw : P w) :
    Q (c.onEvent k mask w).toWorld := by
  have hends : ∀ d : Dispatch σ, P d.toWorld → Q (c.closeOrMark d).toWorld := by
    intro d hd
    rw [StreamClass.closeOrMark]
    split
    · exact hclose d hd
    · exact hPQ _ (hc.change _ _ .mark hd)
  have hconnect := hc.connectFirst k mask (d := ⟨w, []⟩) hw
  rw [StreamClass.onEvent]
  dsimp only
  split
  · exact hPQ _ hw
  split
  · exact hends _ hw
  split
  · exact hclose _ hw
  split
  · exact hclose _ hconnect
  · refine hc.process k mask hends hPQ (htimes mask) ?_
    split
    · exact hread _ _ hconnect
    · exact hconnect

end StreamClass

end MTRpc
