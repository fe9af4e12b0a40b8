import MTRpc.Http.HeaderTokens

/-!
# The bounds of the scratch array

Nothing in the array is accessed at `pos` without room when every byte that is put finds `pos`
below the end, and `MoveBufTo` stays inside when it finds a NUL.  Both hold while the array is
full or ends with a NUL (`Scratch.Bounded`) and a full array is not used any more.

The request parser tests for a full array, but the search for a method fills the array and goes
on; the response parser tests nothing.  `HasMethod` and `tokensFit` say of the bytes alone when
this does no harm.
-/

namespace MTRpc

open Scanner (Outcome Machine)

namespace Scratch

variable {s s' : Scratch} {c : UInt8}

/-! ## Arrays that end with a NUL -/

/-- The array is full, or its last byte is a NUL. -/
def Bounded (s : Scratch) : Prop :=
  s.pos = maxKeyLen ∨ s.pos < maxKeyLen ∧ s.buf (maxKeyLen - 1) = 0

lemma bounded_zero : zero.Bounded := Or.inr ⟨by decide, rfl⟩

lemma Bounded.nul (hs : s.Bounded) (hpos : s.pos < maxKeyLen) : s.buf (maxKeyLen - 1) = 0 := by
  rcases hs with hs | hs
  · omega
  · exact hs.2

lemma put_of_lt (hpos : s.pos < maxKeyLen) (c : UInt8) :
    s.put c = some ⟨Function.update s.buf s.pos c, s.pos + 1⟩ := by
  rw [put, if_pos hpos]

/-- Putting a byte fills the array or keeps its last byte. -/
lemma Bounded.put (hs : s.Bounded) (hpos : s.pos < maxKeyLen) (c : UInt8) :
    Bounded ⟨Function.update s.buf s.pos c, s.pos + 1⟩ := by
  by_cases hlast : s.pos = maxKeyLen - 1
  · left
    change s.pos + 1 = maxKeyLen
    omega
  · right
    refine ⟨by change s.pos + 1 < maxKeyLen; omega, ?_⟩
    change Function.update s.buf s.pos c (maxKeyLen - 1) = 0
    rw [Function.update_of_ne (Ne.symm hlast)]
    exact hs.nul hpos

lemma takeText_of_nul {buf : ℕ → UInt8} {n i k : ℕ} (hi : i ≤ k) (hk : k < i + n)
    (h0 : buf k = 0) :
    ∃ t buf', takeText buf n i = some (t, buf') ∧ ∀ j, buf j = 0 → buf' j = 0 := by
  induction n generalizing i buf with
  | zero => omega
  | succ n ih =>
    rw [takeText]
    split
    · exact ⟨[], buf, rfl, fun _ h => h⟩
    · rename_i hne
      have hlt : i < k := lt_of_le_of_ne hi fun heq => hne (heq ▸ h0)
      have hkeep : ∀ j, buf j = 0 → Function.update buf i 0 j = 0 := by
        intro j hj
        by_cases hji : j = i
        · rw [hji, Function.update_self]
        · rw [Function.update_of_ne hji, hj]
      obtain ⟨t, buf', htake, hzero⟩ := ih (i := i + 1) hlt (by omega) (hkeep k h0)
      exact ⟨buf i :: t, buf', by rw [htake]; rfl, fun j hj => hzero j (hkeep j hj)⟩

lemma skipSpaces_of_nul {buf : ℕ → UInt8} {n i k : ℕ} (hi : i ≤ k) (hk : k < i + n)
    (h0 : buf k = 0) : ∃ j, skipSpaces buf n i = some j ∧ j ≤ k := by
  induction n generalizing i with
  | zero => omega
  | succ n ih =>
    rw [skipSpaces]
    split
    · rename_i hspace
      have hlt : i < k := lt_of_le_of_ne hi fun heq => by
        rw [← heq, hspace] at h0
        exact absurd h0 (by decide)
      exact ih hlt (by omega)
    · exact ⟨i, rfl, hi⟩

/-- `MoveBufTo` stops at a NUL at the end at the latest. -/
lemma moveBufTo_of_nul (h0 : s.buf (maxKeyLen - 1) = 0) :
    ∃ tok s', s.moveBufTo = some (tok, s') ∧ s'.pos = 0 ∧ s'.Bounded := by
  obtain ⟨i, hskip, hi⟩ := skipSpaces_of_nul (n := maxKeyLen) (Nat.zero_le _)
    (by rw [Nat.zero_add]; exact Nat.sub_lt (by decide) (by decide)) h0
  obtain ⟨t, buf', htake, hzero⟩ := takeText_of_nul (n := maxKeyLen - i) hi
    (by have : 0 < maxKeyLen := by decide
        omega) h0
  refine ⟨t, ⟨buf', 0⟩, ?_, rfl, Or.inr ⟨Nat.zero_lt_succ _, hzero _ h0⟩⟩
  rw [moveBufTo, hskip]
  dsimp only
  rw [htake]
  rfl

lemma moveBufToUint_of_nul (h0 : s.buf (maxKeyLen - 1) = 0) (v : ℕ) :
    ∃ n s', s.moveBufToUint v = some (n, s') ∧ s'.pos = 0 ∧ s'.Bounded := by
  obtain ⟨t, buf', htake, hzero⟩ := takeText_of_nul (n := maxKeyLen) (Nat.zero_le _)
    (by rw [Nat.zero_add]; exact Nat.sub_lt (by decide) (by decide)) h0
  have hbounded : Bounded ⟨buf', 0⟩ := Or.inr ⟨Nat.zero_lt_succ _, hzero _ h0⟩
  exact ⟨_, ⟨buf', 0⟩, by rw [moveBufToUint, htake]; rfl, rfl, hbounded⟩

/-! ## Arrays without a NUL -/

/-- The bytes before `pos` are no NULs. -/
def Packed (s : Scratch) : Prop := s.pos ≤ maxKeyLen ∧ ∀ i < s.pos, s.buf i ≠ 0

lemma Packed.put (hs : s.Packed) (hpos : s.pos < maxKeyLen) (hc : c ≠ 0) :
    Packed ⟨Function.update s.buf s.pos c, s.pos + 1⟩ := by
  refine ⟨hpos, ?_⟩
  intro i hi
  change Function.update s.buf s.pos c i ≠ 0
  by_cases heq : i = s.pos
  · rw [heq, Function.update_self]
    exact hc
  · rw [Function.update_of_ne heq]
    exact hs.2 i (by change i < s.pos + 1 at hi; omega)

lemma takeText_full {buf : ℕ → UInt8} {n i : ℕ} (h : ∀ j, i ≤ j → j < i + n → buf j ≠ 0) :
    takeText buf n i = none := by
  induction n generalizing i buf with
  | zero => rfl
  | succ n ih =>
    have hrest : takeText (Function.update buf i 0) n (i + 1) = none := by
      refine ih fun j hj hjn => ?_
      rw [Function.update_of_ne (by omega)]
      exact h j (by omega) (by omega)
    rw [takeText, if_neg (h i le_rfl (by omega)), hrest]
    rfl

/-- `MoveBufTo` runs out of an array without a NUL. -/
lemma moveBufTo_full (h : ∀ i < maxKeyLen, s.buf i ≠ 0) : s.moveBufTo = none := by
  rw [moveBufTo]
  split
  · rfl
  · rw [takeText_full fun j hj hjn => h j (by omega)]
    rfl

lemma moveBufToUint_full (h : ∀ i < maxKeyLen, s.buf i ≠ 0) (v : ℕ) :
    s.moveBufToUint v = none := by
  rw [moveBufToUint, takeText_full fun j _ hjn => h j (by omega)]
  rfl

lemma Packed.of_moveBufTo {tok : Bytes} (hp : s.Packed) (hmove : s.moveBufTo = some (tok, s')) :
    s.pos < maxKeyLen ∧ s'.Packed ∧ s'.pos = 0 := by
  have hpos : s.pos < maxKeyLen := by
    refine lt_of_le_of_ne hp.1 fun hpos => ?_
    rw [moveBufTo_full fun i hi => hp.2 i (by omega)] at hmove
    exact absurd hmove (by simp)
  have h0 : s'.pos = 0 := by
    rw [moveBufTo] at hmove
    split at hmove
    · exact absurd hmove (by simp)
    · obtain ⟨r, -, hr⟩ := Option.map_eq_some_iff.mp hmove
      rw [← (Prod.mk.inj hr).2]
  exact ⟨hpos, ⟨by rw [h0]; exact Nat.zero_le _, fun i hi => by omega⟩, h0⟩

lemma Packed.of_moveBufToUint {v n : ℕ} (hp : s.Packed)
    (hmove : s.moveBufToUint v = some (n, s')) : s.pos < maxKeyLen ∧ s'.Packed ∧ s'.pos = 0 := by
  have hpos : s.pos < maxKeyLen := by
    refine lt_of_le_of_ne hp.1 fun hpos => ?_
    rw [moveBufToUint_full fun i hi => hp.2 i (by omega)] at hmove
    exact absurd hmove (by simp)
  have h0 : s'.pos = 0 := by
    obtain ⟨r, -, hr⟩ := Option.map_eq_some_iff.mp hmove
    rw [← (Prod.mk.inj hr).2]
  exact ⟨hpos, ⟨by rw [h0]; exact Nat.zero_le _, fun i hi => by omega⟩, h0⟩

/-! ## The search for a method -/

/-- The bytes contain a method. -/
def HasMethod (bs : Bytes) : Prop := methodGet <:+: bs ∨ methodPost <:+: bs

instance (bs : Bytes) : Decidable (HasMethod bs) := inferInstanceAs (Decidable (_ ∨ _))

lemma hasMethod_mono {bs cs : Bytes} (h : HasMethod bs) (hsub : bs <:+: cs) : HasMethod cs :=
  h.imp (·.trans hsub) (·.trans hsub)

lemma hasMethod_concat {u : Bytes} :
    HasMethod (u ++ [c]) ↔ EndsMethod (u ++ [c]) ∨ HasMethod u := by
  rw [HasMethod, HasMethod, EndsMethod, List.infix_concat_iff, List.infix_concat_iff]
  tauto

/-- The array ends in the middle of a text: the last `pos` bytes of `u` are in it. -/
structure Tail (u : Bytes) (s : Scratch) : Prop where
  pos_le : s.pos ≤ u.length
  buf : ∀ i < s.pos, s.buf i = u.getD (u.length - s.pos + i) 0

lemma Tail.put {u : Bytes} (hs : Tail u s) (c : UInt8) :
    Tail (u ++ [c]) ⟨Function.update s.buf s.pos c, s.pos + 1⟩ := by
  have hlen : (u ++ [c]).length = u.length + 1 := by simp
  have hle := hs.pos_le
  refine ⟨by rw [hlen]; exact Nat.succ_le_succ hle, ?_⟩
  intro i hi
  change i < s.pos + 1 at hi
  change Function.update s.buf s.pos c i = (u ++ [c]).getD ((u ++ [c]).length - (s.pos + 1) + i) 0
  rw [hlen, Nat.add_sub_add_right]
  by_cases heq : i = s.pos
  · rw [heq, Function.update_self, Nat.sub_add_cancel hle, List.getD_append_right _ _ _ _ le_rfl,
      Nat.sub_self, List.getD_cons_zero]
  · rw [Function.update_of_ne heq, List.getD_append _ _ _ _ (by omega)]
    exact hs.buf i (by omega)

/-- The end of the text is in the array. -/
lemma Tail.slice_eq_iff {u m : Bytes} {n : ℕ} (hs : Tail u s) (hm : m.length = n)
    (hn : n ≤ s.pos) : s.slice n (s.pos - n) = m ↔ m <:+ u := by
  have hle := hs.pos_le
  have hslice : s.slice n (s.pos - n) = u.drop (u.length - n) := by
    refine List.ext_getElem (by simp [slice]; omega) fun i hi hi' => ?_
    rw [List.length_drop] at hi'
    have hlt : u.length - n + i < u.length := by omega
    have hcell := hs.buf (s.pos - n + i) (by omega)
    rw [show u.length - s.pos + (s.pos - n + i) = u.length - n + i by omega,
      List.getD_eq_getElem _ _ hlt] at hcell
    simpa [slice] using hcell
  rw [hslice, ← hm]
  constructor
  · intro h
    exact h ▸ List.drop_suffix _ _
  · rintro ⟨v, rfl⟩
    simp

/-- The array while a method is looked for: the bytes `u` were read. -/
structure Searched (u : Bytes) (s : Scratch) : Prop extends Tail u s where
  pos_lt : s.pos < maxKeyLen
  window : min u.length maxMethodLen ≤ s.pos
  short : u.length < maxKeyLen → s = holding u 0
  full : maxKeyLen ≤ u.length → 0 ∉ u → ∀ i < maxKeyLen, s.buf i ≠ 0

lemma searched_zero : Searched [] zero :=
  ⟨⟨le_rfl, fun i hi => absurd hi (Nat.not_lt_zero i)⟩, by decide, le_rfl, fun _ => rfl,
    fun h => absurd h (by decide)⟩

/-- The array after a byte was put and the end of a full array was moved to its start. -/
def shifted (s : Scratch) (c : UInt8) : Scratch :=
  let s : Scratch := ⟨Function.update s.buf s.pos c, s.pos + 1⟩
  if maxKeyLen ≤ s.pos then
    ⟨fun i => if i < maxMethodLen then s.buf (s.pos - maxMethodLen + i) else s.buf i,
      maxMethodLen⟩
  else s

lemma Searched.shifted {u : Bytes} (hs : Searched u s) (c : UInt8) :
    Searched (u ++ [c]) (s.shifted c) := by
  have hput := hs.toTail.put c
  have hpos := hs.pos_lt
  have hwindow := hs.window
  have hlen : (u ++ [c]).length = u.length + 1 := by simp
  have hfull : maxKeyLen ≤ u.length + 1 → 0 ∉ u ++ [c] →
      ∀ i < maxKeyLen, Function.update s.buf s.pos c i ≠ 0 := by
    intro hle h0 i hi
    obtain ⟨hu, hc⟩ := not_or.mp fun h => h0 (List.mem_append.mpr h)
    by_cases heq : i = s.pos
    · rw [heq, Function.update_self]
      exact fun h => hc (by simp [h])
    · rw [Function.update_of_ne heq]
      by_cases hshort : u.length < maxKeyLen
      · have hcell := hs.short hshort
        rw [hcell] at heq ⊢
        rw [pos_holding] at heq
        have hlt : i < u.length := by omega
        rw [holding, padded_zero]
        change u.getD i 0 ≠ 0
        rw [List.getD_eq_getElem _ _ hlt]
        exact fun h => hu (h ▸ List.getElem_mem hlt)
      · exact hs.full (by omega) hu i hi
  rw [Scratch.shifted]
  by_cases hwrap : maxKeyLen ≤ s.pos + 1
  · rw [if_pos (show maxKeyLen ≤ (⟨_, s.pos + 1⟩ : Scratch).pos from hwrap)]
    have hle := hs.pos_le
    refine ⟨⟨?_, fun i hi => ?_⟩, show maxMethodLen < maxKeyLen by decide, ?_, ?_, ?_⟩
    · change maxMethodLen ≤ (u ++ [c]).length
      rw [hlen]
      have : maxMethodLen < maxKeyLen := by decide
      omega
    · change i < maxMethodLen at hi
      have hm : maxMethodLen < maxKeyLen := by decide
      have hcell := hput.buf (s.pos + 1 - maxMethodLen + i) (by dsimp only; omega)
      dsimp only at hcell ⊢
      rw [if_pos hi, hcell, hlen]
      congr 1
      omega
    · exact min_le_right _ _
    · intro h
      rw [hlen] at h
      omega
    · intro hle' h0 i hi
      rw [hlen] at hle'
      dsimp only
      split
      · exact hfull hle' h0 _ (by omega)
      · exact hfull hle' h0 i hi
  · rw [if_neg (show ¬ maxKeyLen ≤ (⟨_, s.pos + 1⟩ : Scratch).pos from hwrap)]
    refine ⟨hput, by dsimp only; omega, ?_, ?_, ?_⟩
    · rw [hlen]
      change _ ≤ s.pos + 1
      omega
    · intro h
      rw [hlen] at h
      have hu : u.length < maxKeyLen := by omega
      have hcell := hs.short hu
      have hput' := put_holding hu c 0
      rw [← hcell, put_of_lt hpos] at hput'
      exact Option.some.inj hput'
    · intro hle h0 i hi
      rw [hlen] at hle
      exact hfull hle h0 i hi

/-- What `isMethodFound` finds is a method at the end of what was read. -/
lemma Searched.isMethodFound {u : Bytes} (hs : Searched u s) (c : UInt8) :
    s.isMethodFound c = some (if EndsMethod (u ++ [c]) then (true, ⟨(s.shifted c).buf, 0⟩)
      else (false, s.shifted c)) := by
  have hnext := hs.shifted c
  have hlen : (u ++ [c]).length = u.length + 1 := by simp
  have hle := hs.pos_le
  have hwindow := hs.window
  have hm : maxMethodLen = 8 := rfl
  have hwindow' := hnext.window
  have hle' := hnext.pos_le
  rw [hlen] at hwindow' hle'
  -- the array has enough of the text when the text is long enough
  have hroom : ∀ m : Bytes, m.length ≤ maxMethodLen →
      ((m.length ≤ s.pos + 1 ∧ (s.shifted c).slice m.length ((s.shifted c).pos - m.length) = m)
        ↔ m <:+ u ++ [c]) := by
    intro m hmlen
    constructor
    · rintro ⟨h, hslice⟩
      exact (hnext.toTail.slice_eq_iff rfl (by omega)).mp hslice
    · intro h
      have hmu := h.length_le
      rw [hlen] at hmu
      exact ⟨by omega, (hnext.toTail.slice_eq_iff rfl (by omega)).mpr h⟩
  have hget := hroom methodGet (by decide)
  have hpost := hroom methodPost (by decide)
  rw [show methodGet.length = 4 from rfl] at hget
  rw [show methodPost.length = 5 from rfl] at hpost
  rw [Scratch.isMethodFound, put_of_lt hs.pos_lt, Option.map_some]
  congr 1
  change (if 4 ≤ s.pos + 1 ∧ (s.shifted c).slice 4 ((s.shifted c).pos - 4) = methodGet then
      (true, (⟨(s.shifted c).buf, 0⟩ : Scratch))
    else if 5 ≤ s.pos + 1 ∧ (s.shifted c).slice 5 ((s.shifted c).pos - 5) = methodPost then
      (true, ⟨(s.shifted c).buf, 0⟩)
    else (false, s.shifted c)) = _
  simp only [hget, hpost]
  by_cases h : methodGet <:+ u ++ [c]
  · simp [EndsMethod, h]
  · by_cases h' : methodPost <:+ u ++ [c]
    · simp [EndsMethod, h, h']
    · simp [EndsMethod, h, h']

end Scratch

/-! ## Calls of a parser -/

/-- Calls of `ParserHeader`, each on what is unread in a buffer, until one does not ask for more:
what the last one returns. -/
def calls {η : Type} (parse : η → ReadBuffer → ParserRet × η × ReadBuffer) :
    η → List ReadBuffer → ParserRet
  | _, [] => .half
  | h, rb :: bufs =>
      let r := parse h rb
      if r.1 = .half ∧ bufs ≠ [] then calls parse r.2.1 bufs else r.1

/-- The bytes that the calls are given. -/
def received (bufs : List ReadBuffer) : Bytes := bufs.flatMap (·.unread)

namespace HeaderParser

variable {η : Type} {P : HeaderParser η}

lemma calls_eq {h : η} {bufs : List ReadBuffer} (hbufs : ∀ rb ∈ bufs, rb.IsRing pieces) :
    calls P.parse h bufs = (P.machine.feed h (bufs.map (·.tape))).ret := by
  induction bufs generalizing h with
  | nil => rfl
  | cons rb bufs ih =>
    have hparse := P.parse_eq (h := h) (hbufs rb (by simp))
    have hrest := ih (h := (P.machine.scan h .fresh rb.tape).obj) fun b hb => hbufs b (by simp [hb])
    rw [calls, List.map_cons, Machine.feed, hparse, hrest]
    by_cases hr : (P.machine.scan h .fresh rb.tape).ret = .half ∧ bufs ≠ []
    · rw [if_pos hr, if_pos ⟨hr.1, by simpa using hr.2⟩]
      rfl
    · rw [if_neg hr, if_neg fun hc => hr ⟨hc.1, by simpa using hc.2⟩]
      rfl

/-- What every step keeps of the object and the bytes to come, until the calls stop as `S`
says. -/
lemma calls_rest {I : η → Bytes → Prop} {S : ParserRet → Prop} (hend : ∀ h, I h [] → S .half)
    (hdone : ∀ h bs, I h bs → P.state h = .atEnd → S .finish)
    (hstep : ∀ h l it c bs, I h (c :: bs) → (P.step h l (it, c)).All (fun r _ => S r)
      fun h' _ => I h' bs)
    {h : η} {bufs : List ReadBuffer} (hbufs : ∀ rb ∈ bufs, rb.IsRing pieces)
    (h0 : I h (received bufs)) : S (calls P.parse h bufs) := by
  rw [calls_eq hbufs]
  refine Machine.feed_rest (M := P.machine) (I := fun h t => I h (t.map Prod.snd)) hend
    (fun h t hi hd => hdone h _ hi ((P.machine_done_iff).mp hd))
    (fun h l a t hi _ => hstep h l a.1 a.2 _ hi) ?_
  have hflat : (bufs.map (·.tape)).flatten.map Prod.snd = received bufs := by
    rw [received, ← List.flatMap_def, List.map_flatMap]
    exact List.flatMap_congr fun rb _ => rb.map_snd_tape
  rw [hflat]
  exact h0

end HeaderParser

/-! ## The request parser -/

namespace HttpRequestHeader

variable {h : HttpRequestHeader} {l : ParserLocals} {c : UInt8}

variable {S : ParserRet → HttpRequestHeader → Prop} {G : HttpRequestHeader → ParserLocals → Prop}

lemma all_put_bounded (hb : h.scratch.Bounded) (hpos : h.scratch.pos < maxKeyLen)
    (hG : ∀ s : Scratch, s.Bounded → G { h with scratch := s } l) : (h.put l c).All S G := by
  rw [put, Scratch.put_of_lt hpos]
  exact hG _ (hb.put hpos c)

lemma all_moveBufTo_bounded {k : Bytes → HttpRequestHeader → Step} (hb : h.scratch.Bounded)
    (hpos : h.scratch.pos < maxKeyLen)
    (hk : ∀ tok (s : Scratch), s.Bounded → (k tok { h with scratch := s }).All S G) :
    (h.moveBufTo k).All S G := by
  obtain ⟨tok, s, hmove, -, hs⟩ := Scratch.moveBufTo_of_nul (hb.nul hpos)
  rw [moveBufTo, hmove]
  exact hk tok s hs

lemma all_moveBufTo_full {k : Bytes → HttpRequestHeader → Step}
    (hfull : ∀ i < maxKeyLen, h.scratch.buf i ≠ 0) (hS : S .overrun h) :
    (h.moveBufTo k).All S G := by
  rw [moveBufTo, Scratch.moveBufTo_full hfull]
  exact hS

/-- The search for a method is over. -/
def Past (h : HttpRequestHeader) : Prop := h.state ≠ .start ∧ h.scratch.Bounded

/-- From then on the test of the length keeps the array. -/
lemma step_past (hp : h.Past) (it : Iterator) :
    (h.step l (it, c)).All (fun r _ => r ≠ .overrun) fun h' _ => h'.Past := by
  obtain ⟨hst, hb⟩ := hp
  have hfail : ParserRet.fail ≠ .overrun := by decide
  rw [step]
  split
  · exact hfail
  rename_i hpos
  have hpos := Nat.lt_of_not_le hpos
  split
  case h_1 hs => exact absurd hs hst
  case h_2 =>
    split
    · refine all_moveBufTo_bounded hb hpos fun tok s hs => ?_
      dsimp only
      split
      · exact hfail
      · exact ⟨by simp, hs⟩
    · exact all_put_bounded hb hpos fun s hs => ⟨hst, hs⟩
  case h_3 =>
    split
    · exact all_moveBufTo_bounded hb hpos fun tok s hs => ⟨by simp, hs⟩
    · exact all_put_bounded hb hpos fun s hs => ⟨hst, hs⟩
  case h_4 => exact all_expect hfail ⟨by simp, hb⟩
  case h_5 =>
    split
    · refine all_moveBufTo_bounded hb hpos fun tok s hs => ?_
      dsimp only
      split
      · exact hfail
      · exact ⟨by simp, hs⟩
    · split
      · exact ⟨by simp, hb⟩
      · exact all_put_bounded hb hpos fun s hs => ⟨hst, hs⟩
  case h_6 =>
    split
    · exact all_moveBufTo_bounded hb hpos fun tok s hs => ⟨by simp, hs⟩
    · exact all_put_bounded hb hpos fun s hs => ⟨hst, hs⟩
  case h_7 => exact all_expect hfail ⟨by simp, hb⟩
  case h_8 => exact all_expect hfail ⟨by simp, hb⟩
  case h_9 => exact ⟨hst, hb⟩

/-- A method is looked for: the bytes `u` were read and contain none. -/
def Searching (u : Bytes) (h : HttpRequestHeader) : Prop :=
  h.state = .start ∧ h.scratch.Searched u ∧ ¬ Scratch.HasMethod u

lemma searching_reset (h : HttpRequestHeader) : Searching [] h.reset :=
  ⟨rfl, Scratch.searched_zero, by decide⟩

/-- One more byte: the search goes on, or a method ends with it. -/
lemma step_searching {u : Bytes} (hs : h.Searching u) (it : Iterator) :
    (¬ Scratch.HasMethod (u ++ [c]) ∧ ∃ h', h.step l (it, c) = .go h' l ∧ h'.Searching (u ++ [c])) ∨
      Scratch.HasMethod (u ++ [c]) ∧ h.step l (it, c)
        = moveBufTo { h with scratch := ⟨(h.scratch.shifted c).buf, 0⟩ } fun tok h =>
          .go { h with method := tok, state := .reqPath } l := by
  obtain ⟨hst, hsearched, hno⟩ := hs
  have hfound := hsearched.isMethodFound c
  have hpos := Nat.not_le.mpr hsearched.pos_lt
  by_cases hends : Scratch.EndsMethod (u ++ [c])
  · right
    rw [if_pos hends] at hfound
    refine ⟨Scratch.hasMethod_concat.mpr (Or.inl hends), ?_⟩
    simp only [step, if_neg hpos, hst, hfound]
  · left
    have hno' : ¬ Scratch.HasMethod (u ++ [c]) := fun h =>
      (Scratch.hasMethod_concat.mp h).elim hends hno
    rw [if_neg hends] at hfound
    refine ⟨hno', { h with scratch := h.scratch.shifted c }, ?_, hst, hsearched.shifted c, hno'⟩
    simp only [step, if_neg hpos, hst, hfound]

/-- The array when a method was found. -/
lemma Searching.bounded {u : Bytes} (hs : h.Searching u) (hlen : u.length + 1 < maxKeyLen)
    (c : UInt8) : (h.scratch.shifted c).buf (maxKeyLen - 1) = 0 := by
  have hnext := (hs.2.1.shifted c).short (by simpa using hlen)
  rw [hnext, Scratch.holding, padded_zero]
  exact List.getD_eq_default _ _ (by rw [List.length_append, List.length_singleton]; omega)

/-- **No request runs out of the array** when its method, if there is one, ends within the first
`MAX_KEY_LEN - 1` bytes. -/
lemma calls_ne_overrun {bufs : List ReadBuffer} (hbufs : ∀ rb ∈ bufs, rb.IsRing pieces)
    (hmethod : Scratch.HasMethod (received bufs) →
      Scratch.HasMethod ((received bufs).take (maxKeyLen - 1))) (h : HttpRequestHeader) :
    calls parserHeader h.reset bufs ≠ .overrun := by
  refine HeaderParser.calls_rest (P := parser) (S := (· ≠ .overrun))
    (I := fun h bs => h.Past ∨ ∃ u, h.Searching u ∧ (Scratch.HasMethod (u ++ bs) →
      Scratch.HasMethod ((u ++ bs).take (maxKeyLen - 1))))
    (fun _ _ => by decide) (fun _ _ _ _ => by decide) (fun h l it c bs hi => ?_) hbufs
    (Or.inr ⟨[], searching_reset h, hmethod⟩)
  rcases hi with hp | ⟨u, hs, htake⟩
  · exact (step_past hp it).imp (fun _ _ h => h) fun _ _ h => Or.inl h
  · rcases step_searching (l := l) (c := c) hs it with ⟨hno, h', hgo, hs'⟩ | ⟨hfound, hmove⟩
    · rw [show parser.step h l (it, c) = _ from hgo]
      refine Or.inr ⟨u ++ [c], hs', ?_⟩
      simpa using htake
    · -- a method that is found late was not in the first bytes
      have hhas : Scratch.HasMethod ((u ++ c :: bs).take (maxKeyLen - 1)) :=
        htake (Scratch.hasMethod_mono hfound ⟨[], bs, by simp⟩)
      have hlen : u.length + 1 < maxKeyLen := by
        by_contra hle
        refine hs.2.2 (Scratch.hasMethod_mono hhas ?_)
        rw [List.take_append_of_le_length (by omega)]
        exact (List.take_prefix _ _).isInfix
      rw [show parser.step h l (it, c) = _ from hmove]
      refine all_moveBufTo_bounded ?_ (Nat.zero_lt_succ _) fun tok s hs' => Or.inl ⟨by simp, hs'⟩
      exact Or.inr ⟨Nat.zero_lt_succ _, hs.bounded hlen c⟩

/-- A later method makes a request without NULs run out of the array. -/
lemma calls_eq_overrun {bufs : List ReadBuffer} (hbufs : ∀ rb ∈ bufs, rb.IsRing pieces)
    (h0 : 0 ∉ received bufs) (hmethod : Scratch.HasMethod (received bufs))
    (hlate : ¬ Scratch.HasMethod ((received bufs).take (maxKeyLen - 1))) (h : HttpRequestHeader) :
    calls parserHeader h.reset bufs = .overrun := by
  refine HeaderParser.calls_rest (P := parser) (S := (· = .overrun))
    (I := fun h bs => ∃ u, h.Searching u ∧ 0 ∉ u ++ bs ∧ Scratch.HasMethod (u ++ bs) ∧
      ¬ Scratch.HasMethod ((u ++ bs).take (maxKeyLen - 1)))
    (fun h hi => ?_) (fun h bs hi hst => ?_) (fun h l it c bs hi => ?_) hbufs
    ⟨[], searching_reset h, h0, hmethod, hlate⟩
  · obtain ⟨u, hs, -, hhas, -⟩ := hi
    rw [List.append_nil] at hhas
    exact absurd hhas hs.2.2
  · obtain ⟨u, hs, -⟩ := hi
    have := hs.1.symm.trans hst
    exact absurd this (by decide)
  · obtain ⟨u, hs, h0, hhas, hlate⟩ := hi
    rcases step_searching (l := l) (c := c) hs it with ⟨hno, h', hgo, hs'⟩ | ⟨hfound, hmove⟩
    · rw [show parser.step h l (it, c) = _ from hgo]
      exact ⟨u ++ [c], hs', by simpa using h0, by simpa using hhas, by simpa using hlate⟩
    · have hsplit : u ++ c :: bs = (u ++ [c]) ++ bs := by simp
      have hlen : maxKeyLen ≤ (u ++ [c]).length := by
        by_contra hlt
        refine hlate (Scratch.hasMethod_mono hfound ?_)
        rw [hsplit, List.take_append, List.take_of_length_le (by omega)]
        exact (List.prefix_append _ _).isInfix
      have hfull := (hs.2.1.shifted c).full hlen fun hmem => h0 (by
        rw [hsplit]
        exact List.mem_append_left _ hmem)
      rw [show parser.step h l (it, c) = _ from hmove]
      exact all_moveBufTo_full hfull rfl

end HttpRequestHeader

/-! ## The response parser -/

namespace HttpReponseHeader

/-- The tokens of a response fit into the array: whenever a byte is put or a token is moved, the
token has fewer than `MAX_KEY_LEN` bytes so far.  The bytes come in this state, `n` bytes into a
token. -/
def tokensFit : ParserState → ℕ → Bytes → Bool
  | _, _, [] => true
  | .start, n, c :: bs =>
      n < maxKeyLen && if c = 32 then tokensFit .resStatus 0 bs else tokensFit .start (n + 1) bs
  | .resStatus, n, c :: bs =>
      n < maxKeyLen &&
        if c = 32 then tokensFit .resStatusMessageR 0 bs else tokensFit .resStatus (n + 1) bs
  | .resStatusMessageR, n, c :: bs =>
      n < maxKeyLen &&
        if c = 13 then tokensFit .resStatusMessageN 0 bs
        else tokensFit .resStatusMessageR (n + 1) bs
  | .resStatusMessageN, n, c :: bs => if c = 10 then tokensFit .resKey n bs else true
  | .resKey, n, c :: bs =>
      -- the blank line does not touch the array
      if c = 13 then true
      else
        n < maxKeyLen && if c = 58 then tokensFit .resValueR 0 bs else tokensFit .resKey (n + 1) bs
  | .resValueR, n, c :: bs =>
      n < maxKeyLen && if c = 13 then tokensFit .resValueN 0 bs else tokensFit .resValueR (n + 1) bs
  | .resValueN, n, c :: bs => if c = 10 then tokensFit .resKey n bs else true
  | _, _, _ :: _ => true

variable {h : HttpReponseHeader} {l : ParserLocals} {c : UInt8} {bs : Bytes}
variable {S : ParserRet → HttpReponseHeader → Prop} {G : HttpReponseHeader → ParserLocals → Prop}

lemma all_put_bounded (hb : h.scratch.Bounded) (hpos : h.scratch.pos < maxKeyLen)
    (hG : ∀ s : Scratch, s.Bounded → s.pos = h.scratch.pos + 1 → G { h with scratch := s } l) :
    (h.put l c).All S G := by
  rw [put, Scratch.put_of_lt hpos]
  exact hG _ (hb.put hpos c) rfl

lemma all_moveBufTo_bounded {k : Bytes → HttpReponseHeader → Step} (hb : h.scratch.Bounded)
    (hpos : h.scratch.pos < maxKeyLen)
    (hk : ∀ tok (s : Scratch), s.Bounded → s.pos = 0 → (k tok { h with scratch := s }).All S G) :
    (h.moveBufTo k).All S G := by
  obtain ⟨tok, s, hmove, h0, hs⟩ := Scratch.moveBufTo_of_nul (hb.nul hpos)
  rw [moveBufTo, hmove]
  exact hk tok s hs h0

/-- The tokens of the bytes to come fit. -/
def Fitting (h : HttpReponseHeader) (bs : Bytes) : Prop :=
  tokensFit h.state h.scratch.pos bs = true ∧ h.scratch.Bounded

/-- A state that reads a token up to the byte `d`. -/
lemma all_delim_fitting {st : ParserState} {d : UInt8} {F : Bool} {moved : Step}
    (hb : h.scratch.Bounded) (hst : h.state = st)
    (hfit : h.scratch.pos < maxKeyLen ∧
      (if c = d then F else tokensFit st (h.scratch.pos + 1) bs) = true)
    (hmoved : h.scratch.pos < maxKeyLen → F = true →
      moved.All (fun r _ => r ≠ .overrun) fun h' _ => h'.Fitting bs) :
    (if c = d then moved else h.put l c).All (fun r _ => r ≠ .overrun)
      fun h' _ => h'.Fitting bs := by
  obtain ⟨hpos, hrest⟩ := hfit
  split
  · rw [if_pos ‹c = d›] at hrest
    exact hmoved hpos hrest
  · rw [if_neg ‹¬ c = d›] at hrest
    exact all_put_bounded hb hpos fun s hs' h1 => ⟨by simpa [hst, h1] using hrest, hs'⟩

/-- One byte of them. -/
lemma step_fitting (hf : h.Fitting (c :: bs)) (it : Iterator) :
    (h.step l (it, c)).All (fun r _ => r ≠ .overrun) fun h' _ => h'.Fitting bs := by
  obtain ⟨hfit, hb⟩ := hf
  have hfail : ParserRet.fail ≠ .overrun := by decide
  rw [step]
  split
  case h_1 hs =>
    simp only [hs, tokensFit, Bool.and_eq_true, decide_eq_true_eq] at hfit
    exact all_delim_fitting hb hs hfit fun hpos hrest =>
      all_moveBufTo_bounded hb hpos fun tok s hs h0 => ⟨by simpa [h0] using hrest, hs⟩
  case h_2 hs =>
    simp only [hs, tokensFit, Bool.and_eq_true, decide_eq_true_eq] at hfit
    refine all_delim_fitting hb hs hfit fun hpos hrest => ?_
    obtain ⟨n, s, hmove, h0, hs⟩ := Scratch.moveBufToUint_of_nul (hb.nul hpos) h.status
    rw [hmove]
    exact ⟨by simpa [h0] using hrest, hs⟩
  case h_3 hs =>
    simp only [hs, tokensFit, Bool.and_eq_true, decide_eq_true_eq] at hfit
    exact all_delim_fitting hb hs hfit fun hpos hrest =>
      all_moveBufTo_bounded hb hpos fun tok s hs h0 => ⟨by simpa [h0] using hrest, hs⟩
  case h_4 hs =>
    simp only [hs, tokensFit] at hfit
    rw [expect]
    split
    · rw [if_pos ‹c = 10›] at hfit
      exact ⟨hfit, hb⟩
    · exact hfail
  case h_5 hs =>
    simp only [hs, tokensFit] at hfit
    by_cases hcr : c = 13
    · rw [if_neg (by rw [hcr]; decide), if_pos hcr]
      exact ⟨by cases bs <;> rfl, hb⟩
    · simp only [if_neg hcr, Bool.and_eq_true, decide_eq_true_eq] at hfit
      rw [if_neg hcr]
      exact all_delim_fitting hb hs hfit fun hpos hrest =>
        all_moveBufTo_bounded hb hpos fun tok s hs h0 => ⟨by simpa [h0] using hrest, hs⟩
  case h_6 hs =>
    simp only [hs, tokensFit, Bool.and_eq_true, decide_eq_true_eq] at hfit
    exact all_delim_fitting hb hs hfit fun hpos hrest =>
      all_moveBufTo_bounded hb hpos fun tok s hs h0 => ⟨by simpa [h0] using hrest, hs⟩
  case h_7 hs =>
    simp only [hs, tokensFit] at hfit
    rw [expect]
    split
    · rw [if_pos ‹c = 10›] at hfit
      exact ⟨hfit, hb⟩
    · exact hfail
  case h_8 hs => exact all_expect hfail ⟨by cases bs <;> rfl, hb⟩
  case h_9 h1 h2 h3 h4 h5 h6 h7 h8 =>
    refine ⟨?_, hb⟩
    cases bs with
    | nil => cases h.state <;> rfl
    | cons b bs => cases hst : h.state <;> first | rfl | simp_all

/-- **No response runs out of the array** when its tokens fit. -/
lemma calls_ne_overrun {bufs : List ReadBuffer} (hbufs : ∀ rb ∈ bufs, rb.IsRing pieces)
    (hfit : tokensFit .start 0 (received bufs) = true) (h : HttpReponseHeader) :
    calls parserHeader h.reset bufs ≠ .overrun :=
  HeaderParser.calls_rest (P := parser) (S := (· ≠ .overrun)) (I := Fitting)
    (fun _ _ => by decide) (fun _ _ _ _ => by decide)
    (fun _ _ it _ _ hf => step_fitting hf it) hbufs ⟨hfit, Scratch.bounded_zero⟩

/-! ### Tokens that do not fit -/

lemma all_put_packed (hp : h.scratch.Packed) (hc : c ≠ 0) (hS : S .overrun h)
    (hG : ∀ s : Scratch, h.scratch.pos < maxKeyLen → s.Packed → s.pos = h.scratch.pos + 1 →
      G { h with scratch := s } l) : (h.put l c).All S G := by
  rw [put]
  by_cases hpos : h.scratch.pos < maxKeyLen
  · rw [Scratch.put_of_lt hpos]
    exact hG _ hpos (hp.put hpos hc) rfl
  · rw [Scratch.put, if_neg hpos]
    exact hS

lemma all_moveBufTo_packed {k : Bytes → HttpReponseHeader → Step} (hp : h.scratch.Packed)
    (hS : S .overrun h) (hk : ∀ tok (s : Scratch), h.scratch.pos < maxKeyLen → s.Packed →
      s.pos = 0 → (k tok { h with scratch := s }).All S G) : (h.moveBufTo k).All S G := by
  rw [moveBufTo]
  cases hmove : h.scratch.moveBufTo with
  | none => exact hS
  | some r =>
    obtain ⟨hpos, hs, h0⟩ := hp.of_moveBufTo hmove
    exact hk r.1 r.2 hpos hs h0

/-- The tokens of the bytes to come do not fit. -/
def Unfitting (h : HttpReponseHeader) (bs : Bytes) : Prop :=
  tokensFit h.state h.scratch.pos bs = false ∧ h.scratch.Packed ∧ 0 ∉ bs

/-- A state that reads a token up to the byte `d`. -/
lemma all_delim_unfitting {st : ParserState} {d : UInt8} {F : Bool} {moved : Step}
    (hp : h.scratch.Packed) (hc : c ≠ 0) (h0 : 0 ∉ bs) (hst : h.state = st)
    (hfit : h.scratch.pos < maxKeyLen →
      (if c = d then F else tokensFit st (h.scratch.pos + 1) bs) = false)
    (hmoved : (h.scratch.pos < maxKeyLen → F = false) →
      moved.All (fun r _ => r = .overrun) fun h' _ => h'.Unfitting bs) :
    (if c = d then moved else h.put l c).All (fun r _ => r = .overrun)
      fun h' _ => h'.Unfitting bs := by
  split
  · rw [if_pos ‹c = d›] at hfit
    exact hmoved hfit
  · rw [if_neg ‹¬ c = d›] at hfit
    refine all_put_packed hp hc rfl fun s hpos hs hs1 => ⟨?_, hs, h0⟩
    simpa [hst, hs1] using hfit hpos

lemma step_unfitting (hf : h.Unfitting (c :: bs)) (it : Iterator) :
    (h.step l (it, c)).All (fun r _ => r = .overrun) fun h' _ => h'.Unfitting bs := by
  obtain ⟨hfit, hp, h0⟩ := hf
  obtain ⟨hc, h0⟩ := not_or.mp fun h => h0 (List.mem_cons.mpr h)
  have hc := Ne.symm hc
  rw [step]
  split
  case h_1 hs =>
    simp only [hs, tokensFit, Bool.and_eq_false_imp, decide_eq_true_eq] at hfit
    refine all_delim_unfitting hp hc h0 hs hfit fun hfit => ?_
    refine all_moveBufTo_packed hp rfl fun tok s hpos hs hs0 => ⟨?_, hs, h0⟩
    simpa [hs0] using hfit hpos
  case h_2 hs =>
    simp only [hs, tokensFit, Bool.and_eq_false_imp, decide_eq_true_eq] at hfit
    refine all_delim_unfitting hp hc h0 hs hfit fun hfit => ?_
    cases hmove : h.scratch.moveBufToUint h.status with
    | none => exact rfl
    | some r =>
      obtain ⟨hpos, hs, hs0⟩ := hp.of_moveBufToUint hmove
      exact ⟨by simpa [hs0] using hfit hpos, hs, h0⟩
  case h_3 hs =>
    simp only [hs, tokensFit, Bool.and_eq_false_imp, decide_eq_true_eq] at hfit
    refine all_delim_unfitting hp hc h0 hs hfit fun hfit => ?_
    refine all_moveBufTo_packed hp rfl fun tok s hpos hs hs0 => ⟨?_, hs, h0⟩
    simpa [hs0] using hfit hpos
  case h_4 hs =>
    by_cases hlf : c = 10
    · simp only [hs, tokensFit, if_pos hlf] at hfit
      rw [expect, if_pos hlf]
      exact ⟨hfit, hp, h0⟩
    · simp [hs, tokensFit, hlf] at hfit
  case h_5 hs =>
    by_cases hcr : c = 13
    · simp [hs, tokensFit, hcr] at hfit
    · simp only [hs, tokensFit, if_neg hcr, Bool.and_eq_false_imp, decide_eq_true_eq] at hfit
      rw [if_neg hcr]
      refine all_delim_unfitting hp hc h0 hs hfit fun hfit => ?_
      refine all_moveBufTo_packed hp rfl fun tok s hpos hs hs0 => ⟨?_, hs, h0⟩
      simpa [hs0] using hfit hpos
  case h_6 hs =>
    simp only [hs, tokensFit, Bool.and_eq_false_imp, decide_eq_true_eq] at hfit
    refine all_delim_unfitting hp hc h0 hs hfit fun hfit => ?_
    refine all_moveBufTo_packed hp rfl fun tok s hpos hs hs0 => ⟨?_, hs, h0⟩
    simpa [hs0] using hfit hpos
  case h_7 hs =>
    by_cases hlf : c = 10
    · simp only [hs, tokensFit, if_pos hlf] at hfit
      rw [expect, if_pos hlf]
      exact ⟨hfit, hp, h0⟩
    · simp [hs, tokensFit, hlf] at hfit
  case h_8 hs => simp [hs, tokensFit] at hfit
  case h_9 h1 h2 h3 h4 h5 h6 h7 h8 => cases hst : h.state <;> simp_all [tokensFit]

/-- A response without NULs whose tokens do not fit runs out of the array. -/
lemma calls_eq_overrun {bufs : List ReadBuffer} (hbufs : ∀ rb ∈ bufs, rb.IsRing pieces)
    (h0 : 0 ∉ received bufs) (hfit : tokensFit .start 0 (received bufs) = false)
    (h : HttpReponseHeader) : calls parserHeader h.reset bufs = .overrun := by
  refine HeaderParser.calls_rest (P := parser) (S := (· = .overrun)) (I := Unfitting)
    (fun h hi => ?_) (fun h bs hi hst => ?_) (fun _ _ it _ _ hf => step_unfitting hf it) hbufs
    ⟨hfit, ⟨Nat.zero_le _, fun i hi => absurd hi (Nat.not_lt_zero i)⟩, h0⟩
  · have := hi.1
    simp [tokensFit] at this
  · have hfit := hi.1
    rw [show h.state = .atEnd from hst] at hfit
    cases bs <;> simp [tokensFit] at hfit

end HttpReponseHeader

/-! ## Both parsers -/

/-- **The scratch array and the bytes.**  The calls of the request parser stay in the array when
the method, if there is one, ends within the first `MAX_KEY_LEN - 1` bytes, and those of the
response parser when all tokens fit.  For bytes without NULs, which could end a token before its
delimiter, they do so only then. -/
theorem parserHeader_inBounds_iff {bufs : List ReadBuffer} (hbufs : ∀ rb ∈ bufs, rb.Reachable) :
    (∀ h : HttpRequestHeader,
      ((Scratch.HasMethod (received bufs) →
          Scratch.HasMethod ((received bufs).take (maxKeyLen - 1))) →
        calls HttpRequestHeader.parserHeader h.reset bufs ≠ .overrun) ∧
      (0 ∉ received bufs → calls HttpRequestHeader.parserHeader h.reset bufs ≠ .overrun →
        Scratch.HasMethod (received bufs) →
          Scratch.HasMethod ((received bufs).take (maxKeyLen - 1)))) ∧
    ∀ h : HttpReponseHeader,
      (HttpReponseHeader.tokensFit .start 0 (received bufs) = true →
        calls HttpReponseHeader.parserHeader h.reset bufs ≠ .overrun) ∧
      (0 ∉ received bufs → calls HttpReponseHeader.parserHeader h.reset bufs ≠ .overrun →
        HttpReponseHeader.tokensFit .start 0 (received bufs) = true) := by
  have hrings : ∀ rb ∈ bufs, rb.IsRing pieces := fun rb hrb => (hbufs rb hrb).isRing
  refine ⟨fun h => ⟨fun hmethod => ?_, fun h0 hne hmethod => ?_⟩,
    fun h => ⟨fun hfit => ?_, fun h0 hne => ?_⟩⟩
  · exact HttpRequestHeader.calls_ne_overrun hrings hmethod h
  · by_contra hlate
    exact hne (HttpRequestHeader.calls_eq_overrun hrings h0 hmethod hlate h)
  · exact HttpReponseHeader.calls_ne_overrun hrings hfit h
  · by_contra hunfit
    exact hne (HttpReponseHeader.calls_eq_overrun hrings h0 (by simpa using hunfit) h)

/-- A request behind 252 other bytes. -/
def lateRequest : Bytes := List.replicate 252 65 ++ ascii "GET "

/-- A response whose status message has 256 bytes, with the end of its line. -/
def longResponse : Bytes := ascii "HTTP/1.1 200 " ++ List.replicate 256 65 ++ [13]

/-- Both run out of the array. -/
theorem parserHeader_not_inBounds :
    (¬ ∀ bufs : List ReadBuffer, (∀ rb ∈ bufs, rb.Reachable) → ∀ h : HttpRequestHeader,
      calls HttpRequestHeader.parserHeader h.reset bufs ≠ .overrun) ∧
    ¬ ∀ bufs : List ReadBuffer, (∀ rb ∈ bufs, rb.Reachable) → ∀ h : HttpReponseHeader,
      calls HttpReponseHeader.parserHeader h.reset bufs ≠ .overrun := by
  have hone : ∀ bs : Bytes, bs ≠ [] → bs.length < maxBufferPieces * defaultBufferSize →
      ∃ bufs, (∀ rb ∈ bufs, ReadBuffer.Reachable rb) ∧ received bufs = bs := by
    intro bs hne hfit
    obtain ⟨hrb, hunread⟩ := ReadBuffer.reachable_recived bs hne hfit
    exact ⟨[ReadBuffer.init.recive bs], by simpa using hrb, by simpa [received] using hunread⟩
  constructor
  · intro hall
    obtain ⟨bufs, hbufs, hbs⟩ := hone lateRequest (by decide +kernel)
      (by decide +kernel)
    refine hall bufs hbufs .init ?_
    refine HttpRequestHeader.calls_eq_overrun (fun rb hrb => (hbufs rb hrb).isRing) ?_ ?_ ?_ _
    all_goals
      rw [hbs]
      decide +kernel
  · intro hall
    obtain ⟨bufs, hbufs, hbs⟩ := hone longResponse (by decide +kernel)
      (by decide +kernel)
    refine hall bufs hbufs .init ?_
    refine HttpReponseHeader.calls_eq_overrun (fun rb hrb => (hbufs rb hrb).isRing) ?_ ?_ _
    all_goals
      rw [hbs]
      decide +kernel

/-- A buffer with a short request. -/
def shortRequest : ReadBuffer := ReadBuffer.init.recive (ascii "GET /a H\r\n\r\n")

/-- Neither parser leaves the array on it. -/
theorem parserHeader_inBounds_init :
    (∀ h : HttpRequestHeader,
      ((Scratch.HasMethod (received [shortRequest]) →
          Scratch.HasMethod ((received [shortRequest]).take (maxKeyLen - 1))) →
        calls HttpRequestHeader.parserHeader h.reset [shortRequest] ≠ .overrun) ∧
      (0 ∉ received [shortRequest] →
        calls HttpRequestHeader.parserHeader h.reset [shortRequest] ≠ .overrun →
        Scratch.HasMethod (received [shortRequest]) →
          Scratch.HasMethod ((received [shortRequest]).take (maxKeyLen - 1)))) ∧
    ∀ h : HttpReponseHeader,
      (HttpReponseHeader.tokensFit .start 0 (received [shortRequest]) = true →
        calls HttpReponseHeader.parserHeader h.reset [shortRequest] ≠ .overrun) ∧
      (0 ∉ received [shortRequest] →
        calls HttpReponseHeader.parserHeader h.reset [shortRequest] ≠ .overrun →
        HttpReponseHeader.tokensFit .start 0 (received [shortRequest]) = true) :=
  @parserHeader_inBounds_iff [shortRequest]
    (by simpa [shortRequest] using (ReadBuffer.reachable_recived _ (by decide) (by decide)).1)

end MTRpc
