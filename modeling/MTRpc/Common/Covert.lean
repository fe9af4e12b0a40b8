import MTRpc.Http.Text
import MTRpc.Lib.Memory
import MTRpc.Lib.Numeral

/-!
# Integers and addresses as texts

`convert` takes the digits of an integer from the back, each with the remainder of a division
by 10, writes a minus sign behind those of a negative number and turns the text round.  Since a
division truncates towards zero, the remainder of a negative number is negative; the table
`digits` reads the same in both directions from its middle `zero`.  `convertHex` does the same
with the hexadecimal digits of an address.
-/

namespace MTRpc

open Memory (store)
open Numeral (Canonical digitsRev numeral)

/-! ## Division -/

/-- A quotient by 10 lies between the dividend and 0. -/
lemma tdiv_between (i : ℤ) :
    (0 ≤ i.tdiv 10 ∧ i.tdiv 10 ≤ i) ∨ (i ≤ i.tdiv 10 ∧ i.tdiv 10 ≤ 0) := by
  rcases Int.le_total 0 i with hi | hi
  · rw [Int.tdiv_eq_ediv_of_nonneg hi]
    omega
  · obtain ⟨j, rfl⟩ : ∃ j, i = -j := ⟨-i, (Int.neg_neg i).symm⟩
    rw [Int.neg_tdiv, Int.tdiv_eq_ediv_of_nonneg (by omega)]
    omega

lemma natAbs_tdiv_ten (i : ℤ) : (i.tdiv 10).natAbs = i.natAbs / 10 := Int.natAbs_tdiv i 10

lemma natAbs_tmod_ten (i : ℤ) : (i.tmod 10).natAbs = i.natAbs % 10 := Int.natAbs_tmod i 10

/-! ## The functions -/

lemma toNat_shift (i : UInt64) : (i >>> 4).toNat = i.toNat / 16 := by
  rw [UInt64.toNat_shiftRight, Nat.shiftRight_eq_div_pow]
  rfl

lemma toNat_and (i : UInt64) : (i &&& 0xF).toNat = i.toNat % 16 := by
  rw [UInt64.toNat_and]
  exact Nat.and_two_pow_sub_one_eq_mod i.toNat 4

/-- The integer types of 32 and 64 bits. -/
inductive IntType
  | int32 | uint32 | int64 | uint64
deriving DecidableEq, Repr

namespace IntType

/-- The least value of the type. -/
def min : IntType → ℤ
  | int32 => -2 ^ 31
  | int64 => -2 ^ 63
  | uint32 | uint64 => 0

/-- The greatest value of the type. -/
def max : IntType → ℤ
  | int32 => 2 ^ 31 - 1
  | uint32 => 2 ^ 32 - 1
  | int64 => 2 ^ 63 - 1
  | uint64 => 2 ^ 64 - 1

/-- The values of the type. -/
structure Value (T : IntType) where
  val : ℤ
  min_le : T.min ≤ val
  le_max : val ≤ T.max

lemma min_nonpos (T : IntType) : T.min ≤ 0 := by cases T <;> simp [min]

lemma max_nonneg (T : IntType) : 0 ≤ T.max := by cases T <;> simp [max]

/-- `i /= 10` -/
def Value.div10 {T : IntType} (i : T.Value) : T.Value where
  val := i.val.tdiv 10
  min_le := by
    have hmin := T.min_nonpos
    have hi := i.min_le
    have hdiv := tdiv_between i.val
    omega
  le_max := by
    have hmax := T.max_nonneg
    have hi := i.le_max
    have hdiv := tdiv_between i.val
    omega

lemma Value.natAbs_div10 {T : IntType} (i : T.Value) :
    i.div10.val.natAbs = i.val.natAbs / 10 := natAbs_tdiv_ten i.val

end IntType

/-- `digits` -/
def digits : Bytes := ascii "9876543210123456789"

/-- `zero`, as a position of `digits`. -/
def zero : ℤ := 9

/-- `digitsHex` -/
def digitsHex : Bytes := ascii "0123456789ABCDEF"

/-- `*(zero + d)`; there is no value outside the table. -/
def digitAt (d : ℤ) : Option UInt8 := if 0 ≤ zero + d then digits[(zero + d).toNat]? else none

section

variable {T : IntType}

/-- The loop of `convert`, with `p` as the position at which the next digit goes. -/
def convertLoop (m : Bytes) (p : ℕ) (i : T.Value) : Option (Bytes × ℕ) := do
  let c ← digitAt (i.val.tmod 10)
  let m ← store m p [c]
  if i.div10.val ≠ 0 then convertLoop m (p + 1) i.div10 else some (m, p + 1)
termination_by i.val.natAbs
decreasing_by
  rename_i hne
  have hdiv := i.natAbs_div10
  omega

/-- `convert`: the buffer, and the length of the text that it returns. -/
def convert (m : Bytes) (buf : ℕ) (value : T.Value) : Option (Bytes × ℕ) := do
  let (m, p) ← convertLoop m buf value
  let (m, p) ← if value.val < 0 then (store m p (ascii "-")).map (·, p + 1) else some (m, p)
  let m ← store m p [0]
  some (Memory.reverse m buf p, p - buf)

end

/-- The loop of `convertHex`. -/
def convertHexLoop (m : Bytes) (p : ℕ) (i : UInt64) : Option (Bytes × ℕ) := do
  let c ← digitsHex[(i &&& 0xF).toNat]?
  let m ← store m p [c]
  if i >>> 4 ≠ 0 then convertHexLoop m (p + 1) (i >>> 4) else some (m, p + 1)
termination_by i.toNat
decreasing_by
  rename_i hne
  have hshift : (i >>> 4).toNat = i.toNat / 16 := toNat_shift i
  have hpos : (i >>> 4).toNat ≠ 0 := fun h0 => hne (UInt64.toNat_inj.mp h0)
  omega

/-- `convertHex` -/
def convertHex (m : Bytes) (buf : ℕ) (value : UInt64) : Option (Bytes × ℕ) := do
  let (m, p) ← convertHexLoop m buf value
  let m ← store m p [0]
  some (Memory.reverse m buf p, p - buf)

/-! ## The texts -/

/-- The byte of a digit; the digits above 9 are upper-case letters. -/
def digitByte (d : ℕ) : UInt8 := UInt8.ofNat (if d < 10 then 48 + d else 55 + d)

/-- The text of an integer. -/
def intText (v : ℤ) : Bytes := (if v < 0 then ascii "-" else []) ++ decimal v.natAbs

/-- The text of an address. -/
def hexText (n : ℕ) : Bytes := (numeral 16 n).map digitByte

/-- The canonical text of a number: a minus sign for a negative one and the canonical digits. -/
def IsNumeral (b : ℕ) (v : ℤ) (text : Bytes) : Prop :=
  ∃ ds, Canonical b v.natAbs ds ∧ text = (if v < 0 then ascii "-" else []) ++ ds.map digitByte

/-- Both directions from the middle of the table give the digit of the absolute value. -/
lemma digitAt_eq {r : ℤ} (hr : r.natAbs < 10) : digitAt r = some (digitByte r.natAbs) := by
  have htable : ∀ d : ℕ, d < 10 →
      digitAt d = some (digitByte d) ∧ digitAt (-d) = some (digitByte d) := by
    decide
  rcases Int.natAbs_eq r with heq | heq
  · rw [heq, (htable _ hr).1, Int.natAbs_natCast]
  · rw [heq, (htable _ hr).2, Int.natAbs_neg, Int.natAbs_natCast]

lemma digitsHex_eq {d : ℕ} (hd : d < 16) : digitsHex[d]? = some (digitByte d) := by
  revert d
  decide

lemma decimal_eq (n : ℕ) : decimal n = (numeral 10 n).map digitByte := by
  rw [decimal, Numeral.toDigits_eq (by decide), List.map_map]
  refine List.map_congr_left fun d hd => ?_
  have htable : ∀ d < 10, UInt8.ofNat d.digitChar.toNat = digitByte d := by decide
  exact htable d ((Numeral.canonical_numeral (by decide)).lt_base d hd)

lemma isNumeral_intText (v : ℤ) : IsNumeral 10 v (intText v) :=
  ⟨numeral 10 v.natAbs, Numeral.canonical_numeral (by decide), by rw [intText, decimal_eq]⟩

lemma isNumeral_hexText (n : ℕ) : IsNumeral 16 n (hexText n) := by
  refine ⟨numeral 16 n, ?_, ?_⟩
  · rw [Int.natAbs_natCast]
    exact Numeral.canonical_numeral (by decide)
  · rw [if_neg (by omega), List.nil_append, hexText]

variable {T : IntType} {m : Bytes} {p : ℕ}

/-- The loop writes the digits, the last one first. -/
lemma convertLoop_eq (i : T.Value) :
    convertLoop m p i = (store m p ((digitsRev 10 i.val.natAbs).map digitByte)).map
      (·, p + (digitsRev 10 i.val.natAbs).length) := by
  induction m, p, i using convertLoop.induct with
  | case1 m p i ih =>
    rw [convertLoop, digitAt_eq (by rw [natAbs_tmod_ten]; omega), natAbs_tmod_ten,
      @Numeral.digitsRev_eq 10 i.val.natAbs (by decide), List.map_cons, Memory.store_cons,
      ← i.natAbs_div10, Option.bind_eq_bind, Option.bind_some, Option.bind_eq_bind,
      Option.map_bind]
    refine Option.bind_congr fun m' hm => ?_
    by_cases h0 : i.div10.val = 0
    · have hfit : p + 1 ≤ m'.length := by
        rw [Memory.length_store hm]
        exact (Memory.store_eq_some.mp hm).1
      rw [if_neg (by simpa using h0), if_pos (by simpa using h0), List.map_nil,
        Function.comp_apply, Memory.store_nil hfit]
      rfl
    · rw [if_pos h0, if_neg (by simpa using h0), ih m' h0, List.length_cons, Nat.add_assoc,
        Nat.add_comm 1]
      rfl

/-- The end of both functions: the NUL, and the text is turned round. -/
lemma store_nul (n : ℕ) :
    ((store m (p + n) [0]).bind fun m' => some (Memory.reverse m' p (p + n), p + n - p))
      = ((store m (p + n) [0]).map fun m' => Memory.reverse m' p (p + n)).map (·, n) := by
  cases store m (p + n) [0] with
  | none => rfl
  | some m' => simp only [Option.bind_some, Option.map_some, Nat.add_sub_cancel_left]

/-- `convert` writes the text of the integer with a NUL behind it, when they fit. -/
lemma convert_eq (v : T.Value) :
    convert m p v = (store m p (intText v.val ++ [0])).map (·, (intText v.val).length) := by
  have htext : intText v.val
      = ((digitsRev 10 v.val.natAbs).map digitByte
          ++ if v.val < 0 then ascii "-" else []).reverse := by
    rw [intText, decimal_eq, numeral, List.reverse_append, ← List.map_reverse]
    split_ifs <;> rfl
  rw [convert, convertLoop_eq, htext, ← Memory.store_reverse, List.length_reverse,
    List.append_assoc, Memory.store_append, ← @List.length_map _ _ (digitsRev 10 v.val.natAbs)
      digitByte]
  cases store m p ((digitsRev 10 v.val.natAbs).map digitByte) with
  | none => rfl
  | some m' =>
    simp only [Option.bind_eq_bind, Option.map_some, Option.bind_some]
    split_ifs
    · rw [Memory.store_append, List.length_append]
      cases store m' _ (ascii "-") with
      | none => rfl
      | some m'' =>
        rw [Option.bind_some, Nat.add_assoc]
        exact store_nul _
    · rw [List.append_nil, List.nil_append]
      exact store_nul _

/-- The loop of `convertHex` writes the digits, the last one first. -/
lemma convertHexLoop_eq (i : UInt64) :
    convertHexLoop m p i = (store m p ((digitsRev 16 i.toNat).map digitByte)).map
      (·, p + (digitsRev 16 i.toNat).length) := by
  induction m, p, i using convertHexLoop.induct with
  | case1 m p i ih =>
    rw [convertHexLoop, toNat_and, digitsHex_eq (Nat.mod_lt _ (by decide)),
      @Numeral.digitsRev_eq 16 i.toNat (by decide), List.map_cons, Memory.store_cons,
      ← toNat_shift, Option.bind_eq_bind, Option.bind_some, Option.bind_eq_bind,
      Option.map_bind]
    refine Option.bind_congr fun m' hm => ?_
    by_cases h0 : i >>> 4 = 0
    · have hfit : p + 1 ≤ m'.length := by
        rw [Memory.length_store hm]
        exact (Memory.store_eq_some.mp hm).1
      have hzero : (i >>> 4).toNat = 0 := congrArg UInt64.toNat h0
      rw [if_neg (by simpa using h0), if_pos hzero, List.map_nil, Function.comp_apply,
        Memory.store_nil hfit]
      rfl
    · have hpos : (i >>> 4).toNat ≠ 0 := fun hnat => h0 (UInt64.toNat_inj.mp hnat)
      rw [if_pos h0, if_neg hpos, ih m' h0, List.length_cons, Nat.add_assoc, Nat.add_comm 1]
      rfl

/-- `convertHex` writes the text of the address with a NUL behind them, when they fit. -/
lemma convertHex_eq (i : UInt64) :
    convertHex m p i = (store m p (hexText i.toNat ++ [0])).map (·, (hexText i.toNat).length) := by
  rw [convertHex, convertHexLoop_eq, hexText, numeral, List.map_reverse, ← Memory.store_reverse,
    List.length_reverse, Memory.store_append, ← @List.length_map _ _ (digitsRev 16 i.toNat)
      digitByte]
  cases store m p ((digitsRev 16 i.toNat).map digitByte) with
  | none => rfl
  | some m' => exact store_nul _

/-- `convert` and `convertHex` write canonical numerals, with a minus sign in front of those of
negative numbers and a NUL behind them, and return the length of the text; no other cell is
written, and only a buffer that is too short stops them.  `zero` is read inside the table, for
every value that the type has. -/
theorem convert_canonical :
    (∀ (T : IntType) (v : T.Value) (m : Bytes) (buf : ℕ), ∃ text, IsNumeral 10 v.val text ∧
      convert m buf v = (store m buf (text ++ [0])).map (·, text.length)) ∧
      (∀ (T : IntType) (i : T.Value),
        0 ≤ zero + i.val.tmod 10 ∧ zero + i.val.tmod 10 < digits.length) ∧
      ∀ (i : UInt64) (m : Bytes) (buf : ℕ), ∃ text, IsNumeral 16 i.toNat text ∧
        convertHex m buf i = (store m buf (text ++ [0])).map (·, text.length) := by
  refine ⟨?_, ?_, ?_⟩
  · intro T v m buf
    exact ⟨intText v.val, isNumeral_intText v.val, convert_eq v⟩
  · intro T i
    have hrem : (i.val.tmod 10).natAbs < 10 := by
      rw [natAbs_tmod_ten]
      omega
    have hlen : (digits.length : ℤ) = 19 := rfl
    rw [hlen, zero]
    omega
  · intro i m buf
    exact ⟨hexText i.toNat, isNumeral_hexText i.toNat, convertHex_eq i⟩

end MTRpc
