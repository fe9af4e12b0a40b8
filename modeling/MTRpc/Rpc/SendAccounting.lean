import MTRpc.Mio.BufferRing
import MTRpc.Rpc.ChannelRuns

/-!
# How `OnMessageSended` counts the bytes that were written

`OnMessageSended` is told how many bytes went out and moves the calls whose packets are sent to
`donecall`.  The loop adds the bytes to the front call until its packet is complete; when they do
not complete it, it adds the same bytes again and again.  So every notification moves calls until
what is left of its bytes is used up exactly or the queue is empty, and a packet that was written
in part counts as sent.

`paid` is the number of calls that one notification moves, by arithmetic alone; `sended_iff` says
when the calls moved are the ones whose packets were written: each notification ends where a
packet ends, or together the notifications are all packets.
-/

namespace MTRpc

/-! ## Counting -/

/-- How many packets of the given sizes a notification of `b` bytes completes when a packet is
paid with `b` over and over until it is complete, and what is too much pays for the next one. -/
def paid : List ℕ → ℕ → ℕ
  | [], _ => 0
  | size :: sizes, b => if b = 0 then 0 else paid sizes ((b - size % b) % b) + 1

/-- How many packets several notifications complete. -/
def paidAll : List ℕ → List ℕ → ℕ
  | _, [] => 0
  | sizes, b :: bs => paid sizes b + paidAll (sizes.drop (paid sizes b)) bs

variable {sizes : List ℕ} {b : ℕ} {bs : List ℕ}

lemma sum_take_drop (sizes : List ℕ) (m i : ℕ) :
    (sizes.take m).sum + ((sizes.drop m).take i).sum = (sizes.take (m + i)).sum := by
  rw [List.take_add, List.sum_append]

lemma sum_take_le (sizes : List ℕ) (i : ℕ) : (sizes.take i).sum ≤ sizes.sum := by
  rw [← List.sum_take_add_sum_drop sizes i]
  exact Nat.le_add_right _ _

/-- Packets have bytes, so longer prefixes have more. -/
lemma sum_take_lt (hpos : ∀ size ∈ sizes, 0 < size) {i j : ℕ} (hij : i < j)
    (hi : i < sizes.length) : (sizes.take i).sum < (sizes.take j).sum := by
  have hfront : 0 < ((sizes.drop i).take 1).sum := by
    rw [List.drop_eq_getElem_cons hi, List.take_succ_cons, List.take_zero, List.sum_singleton]
    exact hpos _ (List.getElem_mem hi)
  have hsplit := sum_take_drop sizes i 1
  have hrest := sum_take_drop sizes (i + 1) (j - (i + 1))
  rw [show i + 1 + (j - (i + 1)) = j by omega] at hrest
  omega

lemma paid_le (sizes : List ℕ) (b : ℕ) : paid sizes b ≤ sizes.length := by
  induction sizes generalizing b with
  | nil => exact le_refl _
  | cons size sizes ih =>
    rw [paid]
    split
    · exact Nat.zero_le _
    · exact Nat.succ_le_succ (ih _)

lemma paidAll_le (sizes bs : List ℕ) : paidAll sizes bs ≤ sizes.length := by
  induction bs generalizing sizes with
  | nil => exact Nat.zero_le _
  | cons b bs ih =>
    have hrest := ih (sizes.drop (paid sizes b))
    have hfirst := paid_le sizes b
    rw [List.length_drop] at hrest
    rw [paidAll]
    omega

/-- What is too much is at least what would be left after one payment. -/
lemma le_add_surplus {size : ℕ} (hsize : 0 < size) (hb : 0 < b) :
    b ≤ size + (b - size % b) % b := by
  have hmod := Nat.mod_lt size hb
  have hle := Nat.mod_le size b
  by_cases hzero : size % b = 0
  · have hfull := Nat.le_of_dvd hsize (Nat.dvd_of_mod_eq_zero hzero)
    omega
  · rw [Nat.mod_eq_of_lt (show b - size % b < b by omega)]
    omega

/-- While a packet is left, the packets that were completed have at least the bytes written. -/
lemma le_sum_paid (hpos : ∀ size ∈ sizes, 0 < size) (hleft : paid sizes b < sizes.length) :
    b ≤ (sizes.take (paid sizes b)).sum := by
  induction sizes generalizing b with
  | nil => exact absurd hleft (Nat.not_lt_zero _)
  | cons size sizes ih =>
    rw [paid] at hleft ⊢
    split
    · omega
    · rename_i hb
      rw [if_neg hb, List.length_cons, Nat.add_lt_add_iff_right] at hleft
      have hrest := ih (fun s hs => hpos s (List.mem_cons_of_mem _ hs)) hleft
      have hfirst := le_add_surplus (hpos size (List.mem_cons_self ..)) (Nat.pos_of_ne_zero hb)
      rw [List.take_succ_cons, List.sum_cons]
      omega

/-- Bytes that end where a packet ends are counted exactly. -/
lemma paid_sum_take (hpos : ∀ size ∈ sizes, 0 < size) {i : ℕ} (hi : i ≤ sizes.length) :
    paid sizes (sizes.take i).sum = i := by
  induction sizes generalizing i with
  | nil =>
    rw [Nat.le_zero.mp hi]
    rfl
  | cons size sizes ih =>
    cases i with
    | zero => rfl
    | succ i =>
      have hsize := hpos size (List.mem_cons_self ..)
      have hrest := ih (fun s hs => hpos s (List.mem_cons_of_mem _ hs)) (Nat.le_of_succ_le_succ hi)
      rw [List.take_succ_cons, List.sum_cons, paid, if_neg (by omega)]
      have hsurplus : (size + (sizes.take i).sum - size % (size + (sizes.take i).sum))
          % (size + (sizes.take i).sum) = (sizes.take i).sum := by
        rcases Nat.eq_zero_or_pos (sizes.take i).sum with hzero | hmore
        · rw [hzero, Nat.add_zero, Nat.mod_self, Nat.sub_zero, Nat.mod_self]
        · rw [Nat.mod_eq_of_lt (show size < size + (sizes.take i).sum by omega),
            Nat.add_sub_cancel_left, Nat.mod_eq_of_lt (by omega)]
      rw [hsurplus, hrest]

/-- Each notification ends where a packet ends. -/
def EndsAtPackets (sizes bs : List ℕ) : Prop :=
  ∀ j ≤ bs.length, ∃ i ≤ sizes.length, (bs.take j).sum = (sizes.take i).sum

/-- Notifications that end at packets are counted exactly. -/
lemma sum_paidAll (hpos : ∀ size ∈ sizes, 0 < size) (hends : EndsAtPackets sizes bs) :
    (sizes.take (paidAll sizes bs)).sum = bs.sum := by
  induction bs generalizing sizes with
  | nil => rfl
  | cons b bs ih =>
    obtain ⟨i, hi, hsum⟩ := hends 1 (by simp)
    have hb : b = (sizes.take i).sum := by simpa using hsum
    have hpaid : paid sizes b = i := hb ▸ paid_sum_take hpos hi
    have hrest : EndsAtPackets (sizes.drop i) bs := by
      intro j hj
      obtain ⟨i', hi', hsum'⟩ := hends (j + 1) (Nat.succ_le_succ hj)
      rw [List.take_succ_cons, List.sum_cons] at hsum'
      have hle : i ≤ i' := by
        by_contra hlt
        have := sum_take_lt hpos (not_le.mp hlt) (by omega)
        omega
      refine ⟨i' - i, by rw [List.length_drop]; omega, ?_⟩
      have hsplit := sum_take_drop sizes i (i' - i)
      rw [Nat.add_sub_cancel' hle] at hsplit
      omega
    rw [paidAll, hpaid, ← sum_take_drop, List.sum_cons, ← hb,
      ih (fun s hs => hpos s (List.mem_of_mem_drop hs)) hrest]

/-- While a packet is left, the packets that were completed have at least the bytes written, and
exactly these only when each notification ended at a packet. -/
lemma le_sum_paidAll (hpos : ∀ size ∈ sizes, 0 < size)
    (hleft : paidAll sizes bs < sizes.length) :
    bs.sum ≤ (sizes.take (paidAll sizes bs)).sum ∧
      (bs.sum = (sizes.take (paidAll sizes bs)).sum → EndsAtPackets sizes bs) := by
  induction bs generalizing sizes with
  | nil =>
    refine ⟨Nat.zero_le _, fun _ j hj => ⟨0, Nat.zero_le _, ?_⟩⟩
    simp
  | cons b bs ih =>
    rw [paidAll] at hleft ⊢
    have hrest : paidAll (sizes.drop (paid sizes b)) bs < (sizes.drop (paid sizes b)).length := by
      rw [List.length_drop]
      omega
    obtain ⟨hle, hends⟩ := ih (fun s hs => hpos s (List.mem_of_mem_drop hs)) hrest
    have hfirst : b ≤ (sizes.take (paid sizes b)).sum := le_sum_paid hpos (by omega)
    rw [← sum_take_drop, List.sum_cons]
    refine ⟨Nat.add_le_add hfirst hle, ?_⟩
    intro heq j hj
    have hb : b = (sizes.take (paid sizes b)).sum := by omega
    cases j with
    | zero => exact ⟨0, Nat.zero_le _, by simp⟩
    | succ j =>
      obtain ⟨i, hi, hsum⟩ := hends (by omega) j (Nat.le_of_succ_le_succ hj)
      refine ⟨paid sizes b + i, ?_, ?_⟩
      · rw [List.length_drop] at hi
        have := paid_le sizes b
        omega
      · rw [List.take_succ_cons, List.sum_cons, ← sum_take_drop sizes, ← hb, hsum]

/-- When all packets were written, all are completed. -/
lemma paidAll_sum (hpos : ∀ size ∈ sizes, 0 < size) (hall : bs.sum = sizes.sum) :
    paidAll sizes bs = sizes.length := by
  by_contra hne
  have hlt : paidAll sizes bs < sizes.length := lt_of_le_of_ne (paidAll_le _ _) hne
  have hle := (le_sum_paidAll hpos hlt).1
  have hless := sum_take_lt hpos hlt hlt
  rw [List.take_length] at hless
  omega

/-! ## The loop -/

namespace RpcChannelImpl

variable {Req : Type} {s s' s'' : RpcChannelImpl Req}

/-- The sizes of the packets in `waitcall`. -/
def packSizes (s : RpcChannelImpl Req) : List ℕ :=
  s.waitcall.map fun id => (s.cntl id).reqPackSize.toNat

/-- No byte of a call in `waitcall` has been counted.  The sizes are those of packets: they are
not zero, and `SendToServer` computes them as an `int`. -/
structure Unsent (s : RpcChannelImpl Req) : Prop where
  nodup : s.waitcall.Nodup
  zero : ∀ id ∈ s.waitcall, (s.cntl id).reqSendSize = 0
  pos : ∀ id ∈ s.waitcall, 0 < (s.cntl id).reqPackSize.toNat
  small : ∀ id ∈ s.waitcall, (s.cntl id).reqPackSize.toNat < 2 ^ 31

/-- The size that `SendToServer` stores is at most that of the write buffer. -/
lemma putRequest_packSize (id : ℕ) (packetStart bodyStart : Iterator) {w : ChannelWorld Req}
    {S : PieceRing.Shape}
    (hfits : (putRequest id packetStart bodyStart w).stream.writebuf.que.Fits S)
    (hstart : S.Valid packetStart) (hend : S.Valid w.stream.writebuf.writepos)
    (hcap : S.cap ≤ 2 ^ 31) :
    ((putRequest id packetStart bodyStart w).owner.cntl id).reqPackSize.toNat < 2 ^ 31 := by
  have hsub := Iterator.sub_eq hfits hstart hend
  have hdist := S.dist_lt hstart hend
  have hstored : ((putRequest id packetStart bodyStart w).owner.cntl id).reqPackSize = UInt32.ofInt
      (Iterator.sub (putRequest id packetStart bodyStart w).stream.writebuf.que
        w.stream.writebuf.writepos packetStart) := by
    simp [putRequest, modifyCntl, World.modifyStream, World.modifyBuf, World.modifyOwner,
      World.modifyReq, Stream.modEventAsync]
  rw [hstored, hsub, toNat_ofInt (by omega)]
  omega

/-- The first `m` calls of `waitcall` go to `donecall`; the others are as before. -/
structure Moves (m : ℕ) (s s' : RpcChannelImpl Req) : Prop where
  waitcall : s'.waitcall = s.waitcall.drop m
  donecall : s'.donecall = s.donecall ++ s.waitcall.take m
  cntl : ∀ id ∈ s'.waitcall, s'.cntl id = s.cntl id

lemma Moves.refl (s : RpcChannelImpl Req) : Moves 0 s s :=
  ⟨rfl, by simp, fun _ _ => rfl⟩

lemma Moves.trans {m m' : ℕ} (h : Moves m s s') (h' : Moves m' s' s'') : Moves (m + m') s s'' where
  waitcall := by rw [h'.waitcall, h.waitcall, List.drop_drop]
  donecall := by
    rw [h'.donecall, h.donecall, h.waitcall, List.append_assoc, ← List.take_add]
  cntl id hid := by
    have hmem : id ∈ s'.waitcall := by
      rw [h'.waitcall] at hid
      exact List.mem_of_mem_drop hid
    rw [h'.cntl id hid, h.cntl id hmem]

lemma Moves.packSizes {m : ℕ} (h : Moves m s s') : s'.packSizes = s.packSizes.drop m := by
  have hsame : s'.packSizes = s'.waitcall.map fun id => (s.cntl id).reqPackSize.toNat :=
    List.map_congr_left fun id hid => by rw [h.cntl id hid]
  rw [hsame, h.waitcall, List.map_drop]
  rfl

/-- The calls that are left are as before. -/
lemma Moves.unsent {m : ℕ} (h : Moves m s s') (hs : Unsent s) : Unsent s' := by
  have hmem : ∀ id ∈ s'.waitcall, id ∈ s.waitcall := fun id hid => by
    rw [h.waitcall] at hid
    exact List.mem_of_mem_drop hid
  refine ⟨?_, ?_, ?_, ?_⟩
  · rw [h.waitcall]
    exact hs.nodup.sublist (List.drop_sublist _ _)
  · intro id hid
    rw [h.cntl id hid]
    exact hs.zero id (hmem id hid)
  · intro id hid
    rw [h.cntl id hid]
    exact hs.pos id (hmem id hid)
  · intro id hid
    rw [h.cntl id hid]
    exact hs.small id (hmem id hid)

lemma length_packSizes (s : RpcChannelImpl Req) : s.packSizes.length = s.waitcall.length :=
  List.length_map _

lemma Unsent.packSizes_pos (h : Unsent s) : ∀ size ∈ s.packSizes, 0 < size := by
  intro size hsize
  obtain ⟨id, hid, rfl⟩ := List.mem_map.mp hsize
  exact h.pos id hid

/-- The bytes of a notification are added without overflow. -/
lemma toNat_add_ofInt {c : UInt32} {sent b : ℕ} (hsent : c.toNat = sent) (hless : sent < 2 ^ 31)
    (hsmall : b < 2 ^ 31) : (c + UInt32.ofInt b).toNat = sent + b := by
  rw [UInt32.toNat_add, toNat_ofInt (by omega), hsent]
  omega

/-- What happens to the front call before it is moved does not matter. -/
lemma Moves.of_modifyCntl {id : ℕ} {rest : List ℕ}
    {f : RpcClientController Req → RpcClientController Req} (hw : s.waitcall = id :: rest)
    (hid : id ∉ rest) (h : Moves 1 (s.modifyCntl id f) s') : Moves 1 s s' := by
  refine ⟨h.waitcall, h.donecall, fun i hi => (h.cntl i hi).trans ?_⟩
  have hrest : s'.waitcall = rest := h.waitcall.trans (by simp [modifyCntl, hw])
  have hne : i ≠ id := fun heq => hid (heq ▸ hrest ▸ hi)
  simp [modifyCntl, Function.update_of_ne hne]

/-- One round of the loop adds the bytes to the front call, and moves it when it is complete. -/
lemma sendedLoop_round {w : ChannelWorld Req} {id : ℕ} {rest : List ℕ} {sent b : ℕ} (fuel : ℕ)
    (hw : w.owner.waitcall = id :: rest) (hid : id ∉ rest) (hb : 0 < b) (hsmall : b < 2 ^ 31)
    (hsent : (w.owner.cntl id).reqSendSize.toNat = sent) (hless : sent < 2 ^ 31) :
    ((w.owner.cntl id).reqPackSize.toNat ≤ sent + b ∧ ∃ w', Moves 1 w.owner w'.owner ∧
        sendedLoop (fuel + 1) b w = sendedLoop fuel
          (toInt32 (sent + b - (w.owner.cntl id).reqPackSize.toNat : ℕ)) w') ∨
      (sent + b < (w.owner.cntl id).reqPackSize.toNat ∧ ∃ w',
        w'.owner = w.owner.modifyCntl id
          (fun c => { c with reqSendSize := c.reqSendSize + UInt32.ofInt b }) ∧
        sendedLoop (fuel + 1) b w = sendedLoop fuel b w') := by
  have hcount := toNat_add_ofInt hsent hless hsmall
  rw [sendedLoop.eq_def]
  simp only [hw]
  rw [if_pos (by exact_mod_cast hb)]
  simp only [World.owner_modifyOwner, modifyCntl, Function.update_self, UInt32.le_iff_toNat_le,
    hcount]
  split
  · rename_i hfull
    rw [UInt32.toNat_sub_of_le _ _ (UInt32.le_iff_toNat_le.mpr (hcount ▸ hfull)), hcount]
    refine Or.inl ⟨hfull, _, ⟨?_, ?_, fun i hi => ?_⟩, rfl⟩
    · simp [hw]
    · simp [hw]
    · have hne : i ≠ id := fun heq => hid (heq ▸ hi)
      simp [Function.update_of_ne hne]
  · rename_i hpart
    exact Or.inr ⟨not_le.mp hpart, _, rfl, rfl⟩

/-- A front call that has `sent` bytes is paid with `b` until it is complete. -/
lemma sendedLoop_front {w : ChannelWorld Req} {id : ℕ} {rest : List ℕ} {sent b fuel : ℕ}
    (hw : w.owner.waitcall = id :: rest) (hid : id ∉ rest) (hb : 0 < b) (hsmall : b < 2 ^ 31)
    (hsent : (w.owner.cntl id).reqSendSize.toNat = sent)
    (hpack : (w.owner.cntl id).reqPackSize.toNat < 2 ^ 31)
    (hless : sent < (w.owner.cntl id).reqPackSize.toNat)
    (hfuel : (w.owner.cntl id).reqPackSize.toNat - sent ≤ fuel) :
    ∃ fuel' w', fuel ≤ fuel' + ((w.owner.cntl id).reqPackSize.toNat - sent) ∧
      Moves 1 w.owner w'.owner ∧
      sendedLoop fuel b w = sendedLoop fuel'
        ((b - ((w.owner.cntl id).reqPackSize.toNat - sent) % b) % b : ℕ) w' := by
  induction fuel generalizing w sent with
  | zero => omega
  | succ fuel ih =>
    rcases sendedLoop_round fuel hw hid hb hsmall hsent (hless.trans hpack) with
      ⟨hfull, w', hmoves, heq⟩ | ⟨hpart, w', howner, heq⟩
    · refine ⟨fuel, w', by omega, hmoves, ?_⟩
      rw [heq, toInt32_natCast (by omega)]
      have hsurplus : (b - ((w.owner.cntl id).reqPackSize.toNat - sent) % b) % b
          = sent + b - (w.owner.cntl id).reqPackSize.toNat := by
        rcases Nat.lt_or_ge ((w.owner.cntl id).reqPackSize.toNat - sent) b with hlt | hge
        · rw [Nat.mod_eq_of_lt hlt, Nat.mod_eq_of_lt (by omega)]
          omega
        · rw [show (w.owner.cntl id).reqPackSize.toNat - sent = b by omega, Nat.mod_self,
            Nat.sub_zero, Nat.mod_self]
          omega
      rw [hsurplus]
    · -- the same bytes again
      have hpack' : (w'.owner.cntl id).reqPackSize = (w.owner.cntl id).reqPackSize := by
        simp [howner, modifyCntl]
      have hsent' : (w'.owner.cntl id).reqSendSize.toNat = sent + b := by
        rw [howner, modifyCntl]
        simpa using toNat_add_ofInt hsent (hless.trans hpack) hsmall
      obtain ⟨fuel', w'', hfuel', hmoves, heq'⟩ := ih (howner ▸ hw) hsent' (hpack' ▸ hpack)
        (hpack' ▸ hpart) (by rw [hpack']; omega)
      rw [hpack'] at hfuel' heq'
      refine ⟨fuel', w'', by omega, .of_modifyCntl hw hid (howner ▸ hmoves), ?_⟩
      rw [heq, heq', ← Nat.sub_sub, ← Nat.mod_eq_sub_mod (by omega)]

/-- A notification moves the calls that it pays for and leaves the others alone. -/
lemma sendedLoop_moves {w : ChannelWorld Req} {b fuel : ℕ} (hs : Unsent w.owner)
    (hsmall : b < 2 ^ 31) (hfuel : 2 ^ 31 * w.owner.waitcall.length < fuel) :
    Moves (paid w.owner.packSizes b) w.owner (sendedLoop fuel b w).owner := by
  generalize hids : w.owner.waitcall = ids at hfuel
  induction ids generalizing w b fuel with
  | nil =>
    have hsizes : w.owner.packSizes = [] := by simp [packSizes, hids]
    cases fuel with
    | zero => omega
    | succ fuel =>
      rw [hsizes, sendedLoop.eq_def]
      simp only [hids]
      exact .refl _
  | cons id rest ih =>
    have hsizes : w.owner.packSizes = (w.owner.cntl id).reqPackSize.toNat ::
        rest.map fun i => (w.owner.cntl i).reqPackSize.toNat := by simp [packSizes, hids]
    have hmem : id ∈ w.owner.waitcall := by simp [hids]
    have hpack := hs.small id hmem
    have hfront : id ∉ rest := by
      have := hs.nodup
      rw [hids] at this
      exact (List.nodup_cons.mp this).1
    rw [List.length_cons] at hfuel
    rw [hsizes, paid]
    split
    · rename_i hzero
      cases fuel with
      | zero => omega
      | succ fuel =>
        rw [hzero, sendedLoop.eq_def]
        simp only [hids]
        exact .refl _
    · rename_i hb
      have hzero : (w.owner.cntl id).reqSendSize.toNat = 0 := by rw [hs.zero id hmem]; rfl
      have hrounds : (w.owner.cntl id).reqPackSize.toNat - 0 ≤ fuel := by omega
      obtain ⟨fuel', w', hfuel', hmoves, heq⟩ := sendedLoop_front hids hfront
        (Nat.pos_of_ne_zero hb) hsmall hzero hpack (hs.pos id hmem) hrounds
      have hrest : w'.owner.waitcall = rest := by
        rw [hmoves.waitcall, hids]
        rfl
      have hsizes' : w'.owner.packSizes = rest.map fun i => (w.owner.cntl i).reqPackSize.toNat := by
        rw [hmoves.packSizes, hsizes]
        rfl
      have hlt := Nat.mod_lt (b - (w.owner.cntl id).reqPackSize.toNat % b) (Nat.pos_of_ne_zero hb)
      have hrounds' : 2 ^ 31 * rest.length < fuel' := by omega
      have hih := ih (hmoves.unsent hs) (hlt.trans hsmall) hrest hrounds'
      rw [heq, Nat.sub_zero, ← hsizes', Nat.add_comm]
      exact hmoves.trans hih

/-- `OnMessageSended` for several notifications. -/
def notify (w : ChannelWorld Req) (bs : List ℕ) : ChannelWorld Req :=
  bs.foldl (fun w b => onMessageSended b w) w

/-- Several notifications. -/
lemma notify_moves {w : ChannelWorld Req} {bs : List ℕ} (hs : Unsent w.owner)
    (hsmall : ∀ b ∈ bs, b < 2 ^ 31) :
    Moves (paidAll w.owner.packSizes bs) w.owner (notify w bs).owner := by
  induction bs generalizing w with
  | nil => exact .refl _
  | cons b bs ih =>
    have hmoves : Moves (paid w.owner.packSizes b) w.owner (onMessageSended b w).owner :=
      sendedLoop_moves hs (hsmall b (List.mem_cons_self ..)) (by omega)
    have hrest := ih (hmoves.unsent hs) fun b' hb' => hsmall b' (List.mem_cons_of_mem _ hb')
    rw [hmoves.packSizes] at hrest
    exact hmoves.trans hrest

/-- The calls in `donecall` are those whose packets were written, and the front call of `waitcall`
has the rest of the bytes. -/
def Accounted (total : ℕ) (s s' : RpcChannelImpl Req) : Prop :=
  ∃ m ≤ s.waitcall.length,
    s'.waitcall = s.waitcall.drop m ∧ s'.donecall = s.donecall ++ s.waitcall.take m ∧
      (s.packSizes.take m).sum ≤ total ∧
      (∀ i ≤ s.waitcall.length, (s.packSizes.take i).sum ≤ total → i ≤ m) ∧
      ∀ id ∈ s'.waitcall.head?,
        (s'.cntl id).reqSendSize.toNat = total - (s.packSizes.take m).sum

end RpcChannelImpl

open RpcChannelImpl

/-- After any notifications for packets of calls, the calls in `donecall` are those whose packets
were written, and the next one has the rest, if and only if each notification ended where a packet
ends or all packets were written. -/
theorem sended_iff {Req : Type} {w : ChannelWorld Req} {bs : List ℕ} (hs : Unsent w.owner)
    (hsmall : ∀ b ∈ bs, b < 2 ^ 31) (htotal : bs.sum ≤ w.owner.packSizes.sum) :
    Accounted bs.sum w.owner (notify w bs).owner ↔
      EndsAtPackets w.owner.packSizes bs ∨ bs.sum = w.owner.packSizes.sum := by
  have hmoves := notify_moves hs hsmall
  have hpos := hs.packSizes_pos
  have hlength := length_packSizes w.owner
  have hle := paidAll_le w.owner.packSizes bs
  have hlong : ∀ i m, i ≤ w.owner.waitcall.length → (w.owner.packSizes.take i).sum ≤
      (w.owner.packSizes.take m).sum → i ≤ m := fun i m hi hsum => by
    by_contra hlt
    have := sum_take_lt hpos (not_le.mp hlt) (by omega)
    omega
  constructor
  · rintro ⟨m, hm, hwait, -, hsum, -, hfront⟩
    have heq : m = paidAll w.owner.packSizes bs := by
      have := congrArg List.length (hwait.symm.trans hmoves.waitcall)
      rw [List.length_drop, List.length_drop] at this
      omega
    rw [heq] at hsum hfront
    rcases Nat.lt_or_ge (paidAll w.owner.packSizes bs) w.owner.packSizes.length with hlt | hge
    · -- the front call has no bytes
      refine Or.inl ((le_sum_paidAll hpos hlt).2 (Nat.le_antisymm ?_ hsum))
      have hne : (notify w bs).owner.waitcall ≠ [] := by
        rw [hmoves.waitcall, Ne, List.drop_eq_nil_iff]
        omega
      obtain ⟨id, rest, hcons⟩ := List.exists_cons_of_ne_nil hne
      have hzero := (hmoves.unsent hs).zero id (by simp [hcons])
      have hrest := hfront id (by simp [hcons])
      rw [hzero] at hrest
      exact Nat.le_of_sub_eq_zero hrest.symm
    · refine Or.inr (Nat.le_antisymm htotal ?_)
      rwa [List.take_of_length_le hge] at hsum
  · intro h
    refine ⟨_, hle.trans_eq hlength, hmoves.waitcall, hmoves.donecall, ?_⟩
    rcases h with hends | hall
    · have hsum := sum_paidAll hpos hends
      refine ⟨hsum.le, fun i hi hle' => hlong i _ hi (hsum.symm ▸ hle'), ?_⟩
      intro id hid
      rw [(hmoves.unsent hs).zero id (List.mem_of_mem_head? hid), hsum, Nat.sub_self]
      rfl
    · have hfull := paidAll_sum hpos hall
      have hnil : (notify w bs).owner.waitcall = [] := by
        rw [hmoves.waitcall, hfull, hlength, List.drop_length]
      refine ⟨(sum_take_le _ _).trans_eq hall.symm, ?_, ?_⟩
      · intro i hi _
        rw [hfull, hlength]
        exact hi
      · intro id hid
        simp [hnil] at hid

/-- A call with a packet of 100 bytes. -/
def hundredBytes : ChannelWorld Unit :=
  noCall.modifyOwner fun s => { s with
    waitcall := [0]
    cntl := fun _ => { freshCntl with reqPackSize := 100 } }

/-- No byte of it was counted. -/
lemma unsent_hundredBytes : Unsent hundredBytes.owner :=
  ⟨List.nodup_singleton _, fun _ _ => rfl, fun _ _ => Nat.succ_pos 99,
    fun _ _ => show (100 : UInt32).toNat < 2 ^ 31 by decide⟩

/-- A call of which 60 bytes of 100 were written counts as sent. -/
theorem not_accounted :
    ¬ ∀ (Req : Type) (w : ChannelWorld Req) (bs : List ℕ), Unsent w.owner →
      (∀ b ∈ bs, b < 2 ^ 31) → bs.sum ≤ w.owner.packSizes.sum →
        Accounted bs.sum w.owner (notify w bs).owner := by
  intro hall
  obtain ⟨m, hm, hwait, -, hsum, -⟩ :=
    hall Unit hundredBytes [60] unsent_hundredBytes (by decide) (by decide)
  have hmoves := @notify_moves _ hundredBytes [60] unsent_hundredBytes (by decide)
  have hpaid : paidAll hundredBytes.owner.packSizes [60] = 1 := by decide
  rw [hmoves.waitcall, hpaid] at hwait
  have hone : m = 1 := by
    have := congrArg List.length hwait
    have hlen : hundredBytes.owner.waitcall.length = 1 := rfl
    rw [List.length_drop, List.length_drop, hlen] at this
    omega
  subst hone
  exact absurd hsum (by decide)

/-- When all bytes are written together, the call is accounted for. -/
theorem sended_iff_whole :
    Accounted 100 hundredBytes.owner (notify hundredBytes [100]).owner ↔
      EndsAtPackets hundredBytes.owner.packSizes [100] ∨ 100 = hundredBytes.owner.packSizes.sum :=
  @sended_iff _ hundredBytes [100] unsent_hundredBytes (by decide) (by decide)

end MTRpc
