import Mathlib.Data.List.GetD
import Mathlib.Data.List.TakeWhile
import MTRpc.Http.HeaderChunks

/-!
# The tokens of a header

All tokens of a header pass through the scratch array.  `MoveBufTo` skips the spaces at the
front of a token and takes the rest, and clears what it has taken; the spaces stay.  So the
array holds a run of spaces when the next token comes (`Scratch.holding`), and a token that is
shorter than the run is read with spaces behind it.

`Overwrites` says that this does not happen: every token covers the spaces that are left, or
consists of spaces itself.
-/

namespace MTRpc

open PieceRing (Shape)
open Scanner (Outcome Machine)

/-! ## Spaces -/

/-- A token without its leading spaces. -/
def trim (t : Bytes) : Bytes := t.dropWhile (· = 32)

/-- The number of leading spaces. -/
def leads (t : Bytes) : ℕ := (t.takeWhile (· = 32)).length

/-- Nothing but spaces. -/
def Blank (t : Bytes) : Prop := ∀ c ∈ t, c = 32

instance decidableBlank (t : Bytes) : Decidable (Blank t) :=
  inferInstanceAs (Decidable (∀ c ∈ t, c = 32))

/-- A token over `r` spaces, as the array shows it. -/
def padded (t : Bytes) (r : ℕ) : Bytes := t ++ List.replicate (r - t.length) 32

/-- The spaces that are left behind a token that came over `r` spaces. -/
def residue (t : Bytes) (r : ℕ) : ℕ := if Blank t then max t.length r else leads t

/-- A token: bytes other than those in `ds` and NUL, no more than the array takes. -/
structure IsToken (ds : List UInt8) (t : Bytes) : Prop where
  delim : ∀ c ∈ t, c ∉ ds
  noNul : 0 ∉ t
  short : t.length < maxKeyLen

instance (ds : List UInt8) (t : Bytes) : Decidable (IsToken ds t) :=
  have : Decidable (∀ c ∈ t, c ∉ ds) := List.decidableBAll (fun c => c ∉ ds) t
  decidable_of_iff ((∀ c ∈ t, c ∉ ds) ∧ 0 ∉ t ∧ t.length < maxKeyLen)
    ⟨fun ⟨hd, h0, hs⟩ => ⟨hd, h0, hs⟩, fun ⟨hd, h0, hs⟩ => ⟨hd, h0, hs⟩⟩

/-- Every token covers the spaces that the tokens before it have left, `r` at the start, or
is blank. -/
def Overwrites : ℕ → List Bytes → Prop
  | _, [] => True
  | r, t :: ts => (Blank t ∨ r ≤ t.length) ∧ Overwrites (residue t r) ts

@[simp] lemma padded_zero (t : Bytes) : padded t 0 = t := by
  simp [padded]

lemma length_padded (t : Bytes) (r : ℕ) : (padded t r).length = max t.length r := by
  rw [padded, List.length_append, List.length_replicate]
  omega

instance decidableOverwrites : ∀ (r : ℕ) (ts : List Bytes), Decidable (Overwrites r ts)
  | _, [] => .isTrue trivial
  | r, t :: ts =>
    have := decidableOverwrites (residue t r) ts
    inferInstanceAs (Decidable ((Blank t ∨ r ≤ t.length) ∧ Overwrites (residue t r) ts))

lemma trim_eq_nil_iff {t : Bytes} : trim t = [] ↔ Blank t := by
  simp [trim, Blank, List.dropWhile_eq_nil_iff]

lemma blank_padded {t : Bytes} (h : Blank t) (r : ℕ) : Blank (padded t r) := by
  intro c hc
  rcases List.mem_append.mp hc with hc | hc
  · exact h c hc
  · exact (List.mem_replicate.mp hc).2

lemma takeWhile_eq_replicate (t : Bytes) : t.takeWhile (· = 32) = List.replicate (leads t) 32 := by
  rw [List.eq_replicate_iff]
  exact ⟨rfl, fun c hc => by simpa using List.mem_takeWhile_imp hc⟩

lemma replicate_append_trim (t : Bytes) : List.replicate (leads t) 32 ++ trim t = t := by
  rw [← takeWhile_eq_replicate, trim, List.takeWhile_append_dropWhile]

lemma leads_le (t : Bytes) : leads t ≤ t.length :=
  (List.takeWhile_prefix _).length_le

lemma leads_of_blank {t : Bytes} (h : Blank t) : leads t = t.length := by
  rw [leads, List.takeWhile_eq_self_iff.mpr fun c hc => by simpa using h c hc]

/-- A token without a leading space. -/
lemma trim_of_head {t : Bytes} (h : t.head? ≠ some 32) : trim t = t ∧ leads t = 0 := by
  cases t with
  | nil => exact ⟨rfl, rfl⟩
  | cons c t =>
    have hc : c ≠ 32 := fun hc => h (congrArg some hc)
    simp [trim, leads, hc]

lemma head?_ne_of_notMem {t : Bytes} {c : UInt8} (h : c ∉ t) : t.head? ≠ some c :=
  fun hc => h (List.mem_of_head? hc)

/-- A token that is not blank ends its own leading spaces. -/
lemma trim_append {t : Bytes} (h : ¬ Blank t) (u : Bytes) :
    trim (t ++ u) = trim t ++ u ∧ leads (t ++ u) = leads t := by
  have hne : t.dropWhile (· = 32) ≠ [] := fun hnil => h (trim_eq_nil_iff.mp hnil)
  refine ⟨?_, ?_⟩
  · rw [trim, List.dropWhile_append, if_neg (by simpa using hne)]
    rfl
  · have hlt : (t.takeWhile (· = 32)).length ≠ t.length := by
      intro hlen
      have := congrArg List.length (List.takeWhile_append_dropWhile (p := (· = 32)) (l := t))
      rw [List.length_append, hlen] at this
      exact hne (List.length_eq_zero_iff.mp (by omega))
    rw [leads, List.takeWhile_append, if_neg hlt]
    rfl

lemma leads_padded (t : Bytes) (r : ℕ) : leads (padded t r) = residue t r := by
  rw [residue]
  split
  · rename_i h
    rw [leads_of_blank (blank_padded h r), length_padded]
  · rename_i h
    exact (trim_append h _).2

/-- A token without a leading space leaves none over an array without spaces. -/
lemma residue_of_head {t : Bytes} (h : t.head? ≠ some 32) : residue t 0 = 0 := by
  rw [← leads_padded, padded_zero, (trim_of_head h).2]

/-- A token is read as it is when it covers the spaces, or is blank. -/
lemma trim_padded_iff (t : Bytes) (r : ℕ) :
    trim (padded t r) = trim t ↔ Blank t ∨ r ≤ t.length := by
  by_cases h : Blank t
  · rw [trim_eq_nil_iff.mpr h, trim_eq_nil_iff.mpr (blank_padded h r)]
    exact iff_of_true rfl (Or.inl h)
  · rw [padded, (trim_append h _).1, List.append_right_eq_self, List.replicate_eq_nil_iff]
    simp only [h, false_or]
    omega

/-! ## The array -/

namespace Scratch

/-- An array with a text at its start and NULs behind it. -/
def cells (t : Bytes) : ℕ → UInt8 := fun i => t.getD i 0

/-- The array after the bytes of a token were put over `r` spaces. -/
def holding (t : Bytes) (r : ℕ) : Scratch := ⟨cells (padded t r), t.length⟩

@[simp] lemma pos_holding (t : Bytes) (r : ℕ) : (holding t r).pos = t.length := rfl

lemma holding_nil (r : ℕ) : holding [] r = ⟨cells (List.replicate r 32), 0⟩ := by
  simp [holding, padded]

lemma cells_append_length (t : Bytes) (c : UInt8) (u : Bytes) :
    cells (t ++ c :: u) t.length = c := by
  simp [cells]

lemma cells_length (t : Bytes) : cells t t.length = 0 := by
  simp [cells]

/-- The byte behind the first `t.length` ones is replaced. -/
lemma update_cells (t : Bytes) (c : UInt8) (u : Bytes) :
    Function.update (cells (t ++ u)) t.length c = cells (t ++ c :: u.tail) := by
  funext i
  rcases lt_trichotomy i t.length with hi | rfl | hi
  · rw [Function.update_of_ne hi.ne, cells, cells, List.getD_append _ _ _ _ hi,
      List.getD_append _ _ _ _ hi]
  · rw [Function.update_self, cells_append_length]
  · obtain ⟨k, hk⟩ : ∃ k, i - t.length = k + 1 := ⟨i - t.length - 1, by omega⟩
    rw [Function.update_of_ne hi.ne', cells, cells, List.getD_append_right _ _ _ _ hi.le,
      List.getD_append_right _ _ _ _ hi.le, hk, List.getD_cons_succ]
    cases u <;> simp

/-- A NUL behind a text makes no difference. -/
lemma cells_append_zero (t : Bytes) : cells (t ++ [0]) = cells t := by
  have h := update_cells t 0 []
  rw [List.append_nil, List.tail_nil] at h
  rw [← h, ← cells_length t, Function.update_eq_self]

/-- A byte is put into the array. -/
lemma put_holding {t : Bytes} (ht : t.length < maxKeyLen) (c : UInt8) (r : ℕ) :
    (holding t r).put c = some (holding (t ++ [c]) r) := by
  rw [put, pos_holding, if_pos ht, holding, holding, padded, update_cells]
  simp [padded, List.tail_replicate, Nat.sub_sub]

/-- The spaces in front of a text. -/
lemma skipSpaces_cells {n : ℕ} (s t : Bytes) (hn : leads t < n) :
    skipSpaces (cells (s ++ t)) n s.length = some (s.length + leads t) := by
  induction t generalizing n s with
  | nil =>
    obtain ⟨n, rfl⟩ := Nat.exists_eq_succ_of_ne_zero (Nat.ne_of_gt (Nat.zero_lt_of_lt hn))
    rw [skipSpaces, List.append_nil, cells_length]
    rfl
  | cons c t ih =>
    obtain ⟨n, rfl⟩ := Nat.exists_eq_succ_of_ne_zero (Nat.ne_of_gt (Nat.zero_lt_of_lt hn))
    rw [skipSpaces, cells_append_length]
    by_cases hc : c = 32
    · have hlead : leads (c :: t) = leads t + 1 := by simp [leads, hc]
      have hrest := ih (s ++ [c]) (n := n) (by omega)
      rw [List.append_assoc, List.singleton_append, List.length_append] at hrest
      rw [if_pos hc]
      refine hrest.trans (congrArg some ?_)
      rw [hlead, List.length_singleton]
      omega
    · have hlead : leads (c :: t) = 0 := by simp [leads, hc]
      rw [if_neg hc, hlead]
      rfl

/-- A text is taken and cleared. -/
lemma takeText_cells {n : ℕ} (s t : Bytes) (hn : t.length < n) (h0 : 0 ∉ t) :
    takeText (cells (s ++ t)) n s.length = some (t, cells s) := by
  induction t generalizing n s with
  | nil =>
    obtain ⟨n, rfl⟩ := Nat.exists_eq_succ_of_ne_zero (Nat.ne_of_gt (Nat.zero_lt_of_lt hn))
    rw [takeText, List.append_nil, cells_length, if_pos rfl]
  | cons c t ih =>
    obtain ⟨n, rfl⟩ := Nat.exists_eq_succ_of_ne_zero (Nat.ne_of_gt (Nat.zero_lt_of_lt hn))
    obtain ⟨hc, ht⟩ := not_or.mp (fun h => h0 (List.mem_cons.mpr h))
    have hrest := ih (s ++ [0]) (n := n) (by simpa using hn) ht
    rw [List.append_assoc, List.singleton_append, List.length_append, cells_append_zero] at hrest
    rw [takeText, cells_append_length, if_neg (Ne.symm hc), update_cells, List.tail_cons]
    rw [show s.length + 1 = s.length + [(0 : UInt8)].length from rfl, hrest]
    rfl

/-- `MoveBufTo` takes what follows the leading spaces, and leaves these. -/
lemma moveBufTo_cells {t : Bytes} (ht : t.length < maxKeyLen) (h0 : 0 ∉ t) (pos : ℕ) :
    (⟨cells t, pos⟩ : Scratch).moveBufTo
      = some (trim t, ⟨cells (List.replicate (leads t) 32), 0⟩) := by
  have hle := leads_le t
  have hsplit := replicate_append_trim t
  have hskip := skipSpaces_cells [] t (n := maxKeyLen) (by omega)
  rw [List.nil_append, List.length_nil, Nat.zero_add] at hskip
  have hlen := congrArg List.length hsplit
  rw [List.length_append, List.length_replicate] at hlen
  have htake := takeText_cells (n := maxKeyLen - leads t) (List.replicate (leads t) 32) (trim t)
    (by omega) fun h => h0 (hsplit ▸ List.mem_append_right _ h)
  rw [hsplit, List.length_replicate] at htake
  rw [moveBufTo]
  dsimp only
  rw [hskip]
  dsimp only
  rw [htake]
  rfl

lemma zero_notMem_padded {t : Bytes} (h0 : 0 ∉ t) (r : ℕ) : 0 ∉ padded t r := by
  intro h
  rcases List.mem_append.mp h with h | h
  · exact h0 h
  · exact absurd (List.mem_replicate.mp h).2 (by decide)

/-- A token over spaces is moved. -/
lemma moveBufTo_holding {ds : List UInt8} {t : Bytes} {r : ℕ} (ht : IsToken ds t)
    (hr : r < maxKeyLen) :
    (holding t r).moveBufTo = some (trim (padded t r), holding [] (residue t r)) := by
  have hlen : (padded t r).length < maxKeyLen := by
    rw [length_padded]
    exact max_lt ht.short hr
  rw [holding, moveBufTo_cells hlen (zero_notMem_padded ht.noNul r), leads_padded, holding_nil]

/-! ### The search for a method -/

/-- The bytes at the end of a text. -/
lemma slice_cells_eq_iff {t m : Bytes} {n pos : ℕ} (hm : m.length = n) (hn : n ≤ t.length) :
    (⟨cells t, pos⟩ : Scratch).slice n (t.length - n) = m ↔ m <:+ t := by
  have hslice : (⟨cells t, pos⟩ : Scratch).slice n (t.length - n) = t.drop (t.length - n) := by
    refine List.ext_getElem (by simp [slice]; omega) fun i hi hi' => ?_
    rw [List.length_drop] at hi'
    have hlt : t.length - n + i < t.length := by omega
    simp [slice, cells, hlt]
  rw [hslice, ← hm]
  constructor
  · intro h
    exact h ▸ List.drop_suffix _ _
  · rintro ⟨u, rfl⟩
    simp

/-- The text ends with a method. -/
def EndsMethod (t : Bytes) : Prop := methodGet <:+ t ∨ methodPost <:+ t

instance (t : Bytes) : Decidable (EndsMethod t) := inferInstanceAs (Decidable (_ ∨ _))

/-- The array is not full yet: a method is found when it is the end of what was read. -/
lemma isMethodFound_holding {t : Bytes} (c : UInt8) (ht : t.length + 1 < maxKeyLen) :
    (holding t 0).isMethodFound c =
      some (if EndsMethod (t ++ [c]) then (true, ⟨cells (t ++ [c]), 0⟩)
        else (false, holding (t ++ [c]) 0)) := by
  have hlen : (t ++ [c]).length = t.length + 1 := by simp
  have hget : 4 ≤ t.length + 1 ∧ (holding (t ++ [c]) 0).slice 4 (t.length + 1 - 4) = methodGet
      ↔ methodGet <:+ t ++ [c] := by
    rw [← hlen, holding, padded_zero]
    refine ⟨fun h => (slice_cells_eq_iff (by decide) h.1).mp h.2, ?_⟩
    intro h
    have hle : 4 ≤ (t ++ [c]).length := h.length_le
    exact ⟨hle, (slice_cells_eq_iff (by decide) hle).mpr h⟩
  have hpost : 5 ≤ t.length + 1 ∧ (holding (t ++ [c]) 0).slice 5 (t.length + 1 - 5) = methodPost
      ↔ methodPost <:+ t ++ [c] := by
    rw [← hlen, holding, padded_zero]
    refine ⟨fun h => (slice_cells_eq_iff (by decide) h.1).mp h.2, ?_⟩
    intro h
    have hle : 5 ≤ (t ++ [c]).length := h.length_le
    exact ⟨hle, (slice_cells_eq_iff (by decide) hle).mpr h⟩
  rw [isMethodFound, put_holding (by omega), Option.map_some]
  simp only [pos_holding, hlen, if_neg (Nat.not_le.mpr ht), hget, hpost]
  by_cases h : methodGet <:+ t ++ [c]
  · simp [EndsMethod, h, holding]
  · by_cases h' : methodPost <:+ t ++ [c]
    · simp [EndsMethod, h, h', holding]
    · simp [EndsMethod, h, h']

end Scratch

lemma residue_lt {t : Bytes} {r n : ℕ} (ht : t.length < n) (hr : r < n) : residue t r < n := by
  rw [residue]
  split
  · omega
  · exact (leads_le t).trans_lt ht

/-! ## Read buffers -/

namespace ReadBuffer

lemma map_snd_tape (b : ReadBuffer) : b.tape.map Prod.snd = b.unread := by
  rw [tape, List.map_map]
  rfl

/-- Consuming bytes drops them. -/
lemma unread_iterate_advance {b : ReadBuffer} (hr : b.IsRing pieces) {n : ℕ}
    (hn : n ≤ b.unread.length) : (advance^[n] b).unread = b.unread.drop n := by
  induction n generalizing b with
  | zero => rfl
  | succ n ih =>
    rw [IOBuffer.length_unread hr] at hn
    obtain ⟨k, hk⟩ : ∃ k, b.used pieces = k + 1 := ⟨b.used pieces - 1, by omega⟩
    have hcons := congrArg (List.map Prod.snd) (tape_cons hr hk)
    rw [List.map_cons, map_snd_tape, map_snd_tape] at hcons
    rw [Function.iterate_succ_apply, ih (isRing_advance hr), hcons, List.drop_succ_cons]
    rw [IOBuffer.length_unread (isRing_advance hr), used_advance hr hk]
    omega

/-- A fresh buffer that has received bytes, short of filling it. -/
lemma reachable_recived (bs : Bytes) (hne : bs ≠ [])
    (hfit : bs.length < maxBufferPieces * defaultBufferSize) :
    (init.recive bs).Reachable ∧ (init.recive bs).unread = bs := by
  have hr := isRing_init
  obtain ⟨iov, hiov⟩ : ∃ iov, init.getReciveBuffer = some iov := ⟨_, rfl⟩
  have hoffer := IOBuffer.length_offer hr hiov
  rw [← cap_pieces] at hfit
  have hstep : init.Step (.recive bs) (init.recive bs) :=
    ⟨iov, hiov, List.length_pos_iff.mpr hne, by rw [hoffer, used_init]; omega, rfl⟩
  obtain ⟨-, -, htape⟩ := recive_empty hr rfl bs hfit
  refine ⟨reachable_init.step hstep, ?_⟩
  rw [← map_snd_tape, htape, List.map_snd_zip]
  rw [Shape.length_walk]

end ReadBuffer

/-! ## Collecting the bytes of a token -/

namespace HeaderParser

variable {η : Type} {P : HeaderParser η} {st : ParserState} {ds : List UInt8}

/-- In the state `st` all bytes but those in `ds` are put into the array. -/
structure Collects (P : HeaderParser η) (st : ParserState) (ds : List UInt8) : Prop where
  ne_atEnd : st ≠ .atEnd
  step : ∀ h l it c, P.state h = st → c ∉ ds → (P.scratch h).pos < maxKeyLen →
    P.step h l (it, c) =
      match (P.scratch h).put c with
      | none => .stop .overrun h
      | some s => .go (P.put h s) l
  put_put : ∀ h s s', P.put (P.put h s) s' = P.put h s'
  put_scratch : ∀ h, P.put h (P.scratch h) = h

lemma machine_done {h : η} (hst : P.state h ≠ .atEnd) : P.machine.done h = false := by
  simpa [machine] using hst

/-- The bytes of a token go to the array. -/
lemma Collects.reads (hc : P.Collects st ds) {h : η} (l : ParserLocals) (hst : P.state h = st)
    {t u : Bytes} {r : ℕ} (hs : P.scratch h = .holding u r)
    (hlen : u.length + t.length ≤ maxKeyLen) (hds : ∀ c ∈ t, c ∉ ds) :
    P.machine.Reads Prod.snd h l t (P.put h (.holding (u ++ t) r)) l := by
  induction t generalizing h u with
  | nil =>
    rw [List.append_nil, ← hs, hc.put_scratch]
    exact .refl h l
  | cons c t ih =>
    rw [List.length_cons] at hlen
    have hpos : u.length < maxKeyLen := by omega
    have hput := Scratch.put_holding hpos c r
    have hone : P.machine.Reads Prod.snd h l [c] (P.put h (.holding (u ++ [c]) r)) l := by
      refine .single (machine_done (hst.trans_ne hc.ne_atEnd)) ?_
      rintro ⟨it, b⟩ rfl
      refine (hc.step h l it b hst (hds b (by simp)) ?_).trans ?_
      · rw [hs]
        exact hpos
      · rw [hs, hput]
    have hrest := ih (h := P.put h (.holding (u ++ [c]) r)) (u := u ++ [c])
      ((P.state_put _ _).trans hst) (P.scratch_put _ _)
      (by rw [List.length_append, List.length_singleton]; omega)
      fun b hb => hds b (List.mem_cons_of_mem _ hb)
    rw [hc.put_put, List.append_assoc, List.singleton_append] at hrest
    exact hone.trans hrest

/-- A token is collected, and the delimiter moves it. -/
lemma Collects.reads_token (hc : P.Collects st ds) {h h' : η} {l l' : ParserLocals}
    (hst : P.state h = st) {t : Bytes} {r : ℕ} (hs : P.scratch h = .holding [] r)
    (ht : IsToken ds t) {d : UInt8}
    (hstep : ∀ it, P.step (P.put h (.holding t r)) l (it, d) = .go h' l') :
    P.machine.Reads Prod.snd h l (t ++ [d]) h' l' := by
  have htoken := hc.reads l hst (t := t) (u := []) hs (by simpa using ht.short.le) ht.delim
  refine htoken.trans (.single (machine_done ?_) ?_)
  · rw [P.state_put, hst]
    exact hc.ne_atEnd
  · rintro ⟨it, c⟩ rfl
    exact hstep it

end HeaderParser

end MTRpc
