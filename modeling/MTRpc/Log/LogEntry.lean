import Mathlib.Data.Int.ConditionallyCompleteOrder
import MTRpc.Common.Covert

/-!
# The text of a log entry

A `LogEntry` collects the values streamed into it in a buffer of `LOGBUFFER_DEFAULT_SIZE` bytes.
Each overload of `Format` drops a value for which the remaining size is too small, and otherwise
writes it at `ptr`, moves `ptr` and takes its length off the size.  The macros close an entry with
`'\0'`, and `toIovec` sends what stands before the first NUL.

`Format(const T*)` moves `ptr` over `0x` a second time, and the other guards do not leave room
for all that is written behind them; a NUL among the values ends the text.  The buffer is kept,
with the texts of all accepted values, exactly when no pointer and no NUL is accepted and a byte
is left for the closing `'\0'` (`Fits`).
-/

namespace MTRpc

open Memory (store)

/-! ## Floating-point numbers -/

/-- A binary floating-point number: `p` bits of significand and the exponents from `emin` to
`emax`. -/
inductive Ieee (p : ℕ) (emin emax : ℤ)
  | finite (negative : Bool) (significand : Fin (2 ^ p)) (exponent : Set.Icc emin emax)
  | inf (negative : Bool)
  | nan (negative : Bool)

/-- `float` -/
abbrev Float32Value := Ieee 24 (-149) 104

/-- `double` -/
abbrev Float64Value := Ieee 53 (-1074) 971

/-- The integer nearest to a fraction, the even one of two. -/
def roundEven (num den : ℕ) : ℕ :=
  let q := num / den
  let r := num % den
  if 2 * r < den ∨ 2 * r = den ∧ q % 2 = 0 then q else q + 1

/-- `%f`: the integral part and six decimals, rounded to nearest. -/
def Ieee.text {p : ℕ} {emin emax : ℤ} : Ieee p emin emax → Bytes
  | .finite negative m e =>
    let millionths :=
      if 0 ≤ e.val then m.val * 2 ^ e.val.toNat * 10 ^ 6
      else roundEven (m.val * 10 ^ 6) (2 ^ (-e.val).toNat)
    let decimals := decimal (millionths % 10 ^ 6)
    (if negative then ascii "-" else []) ++ decimal (millionths / 10 ^ 6) ++ ascii "."
      ++ List.replicate (6 - decimals.length) 48 ++ decimals
  | .inf negative => (if negative then ascii "-" else []) ++ ascii "inf"
  | .nan negative => (if negative then ascii "-" else []) ++ ascii "nan"

/-! ## The buffer -/

/-- `LOGBUFFER_DEFAULT_SIZE` -/
def logBufferDefaultSize : ℕ := 4096

/-- `LogBuffer`; `ptr` is the distance from the start of the buffer. -/
structure LogBuffer where
  buf : Bytes
  ptr : ℕ
  size : ℤ
deriving DecidableEq, Repr

/-- A value that can be streamed into an entry. -/
inductive LogItem
  | str (s : Bytes)
  | char (c : UInt8)
  | pointer (t : UInt64)
  | int (d : IntType.int32.Value)
  | unsignedInt (d : IntType.uint32.Value)
  | unsignedLong (d : IntType.uint64.Value)
  | longLong (d : IntType.int64.Value)
  | unsignedLongLong (d : IntType.uint64.Value)
  | float (d : Float32Value)
  | double (d : Float64Value)

namespace LogBuffer

/-- The buffer of a new entry, with what the memory held before. -/
def fresh (garbage : ℕ → UInt8) : LogBuffer :=
  ⟨(List.range logBufferDefaultSize).map garbage, 0, logBufferDefaultSize⟩

/-- `buf.ptr += len; buf.size -= len;` -/
def advance (b : LogBuffer) (m : Bytes) (len : ℕ) : LogBuffer := ⟨m, b.ptr + len, b.size - len⟩

/-- `Format(const T*)` -/
def formatPointer (b : LogBuffer) (t : UInt64) : Option LogBuffer :=
  if b.size < 32 then some b
  else do
    let m ← store b.buf b.ptr (ascii "0x")
    let ptr := b.ptr + 2
    let (m, n) ← convertHex m ptr t
    let len := n + 2
    some ⟨m, ptr + len, b.size - len⟩

/-- `memcpy`, which cannot read behind the source either. -/
def memcpy (m : Bytes) (p : ℕ) (src : Bytes) (n : ℕ) : Option Bytes :=
  if n ≤ src.length then store m p (src.take n) else none

/-- `Format(const char*)`: the length is an `int`, and `memcpy` takes it as a `size_t`. -/
def formatStr (b : LogBuffer) (str : Bytes) : Option LogBuffer :=
  let len := toInt32 (cstr str).length
  if b.size < len then some b
  else
    let n := (len % 2 ^ 64).toNat
    (memcpy b.buf b.ptr (cstr str) n).map (b.advance · n)

/-- `Format(char)` -/
def formatChar (b : LogBuffer) (c : UInt8) : Option LogBuffer :=
  if b.size < 1 then some b else (store b.buf b.ptr [c]).map (b.advance · 1)

/-- The integer overloads of `Format`, which differ in the size they ask for. -/
def formatInteger {T : IntType} (guard : ℤ) (b : LogBuffer) (d : T.Value) : Option LogBuffer :=
  if b.size < guard then some b
  else do
    let (m, len) ← convert b.buf b.ptr d
    some (b.advance m len)

/-- `Format(float)` and `Format(double)`: `snprintf` writes what has room and returns the length
of the whole text. -/
def formatFloat {p : ℕ} {emin emax : ℤ} (b : LogBuffer) (d : Ieee p emin emax) :
    Option LogBuffer :=
  if b.size < 32 then some b
  else (store b.buf b.ptr (d.text.take (b.size - 1).toNat ++ [0])).map
    (b.advance · d.text.length)

/-- `operator<<` -/
def shl (b : LogBuffer) : LogItem → Option LogBuffer
  | .str s => b.formatStr s
  | .char c => b.formatChar c
  | .pointer t => b.formatPointer t
  | .int d => b.formatInteger 16 d
  | .unsignedInt d => b.formatInteger 16 d
  | .unsignedLong d => b.formatInteger 16 d
  | .longLong d => b.formatInteger 32 d
  | .unsignedLongLong d => b.formatInteger 32 d
  | .float d => b.formatFloat d
  | .double d => b.formatFloat d

/-- Several values after each other. -/
def shlAll (b : LogBuffer) (items : List LogItem) : Option LogBuffer := items.foldlM shl b

/-- What `toIovec` sends of the buffer; `strlen` needs a NUL inside it. -/
def text (b : LogBuffer) : Option Bytes := if 0 ∈ b.buf then some (cstr b.buf) else none

end LogBuffer

namespace LogItem

/-- The text of a value. -/
def text : LogItem → Bytes
  | str s => cstr s
  | char c => [c]
  | pointer t => ascii "0x" ++ hexText t.toNat
  | int d => intText d.val
  | unsignedInt d => intText d.val
  | unsignedLong d => intText d.val
  | longLong d => intText d.val
  | unsignedLongLong d => intText d.val
  | float d => d.text
  | double d => d.text

/-- The remaining size from which on `Format` accepts the value. -/
def guard : LogItem → ℤ
  | str s => toInt32 (cstr s).length
  | char _ => 1
  | int _ | unsignedInt _ | unsignedLong _ => 16
  | pointer _ | longLong _ | unsignedLongLong _ | float _ | double _ => 32

/-- Neither a pointer nor a NUL. -/
def Plain : LogItem → Prop
  | char c => c ≠ 0
  | pointer _ => False
  | _ => True

end LogItem

/-- The values that are accepted, of those streamed into a buffer. -/
def accepted (b : LogBuffer) : List LogItem → List LogItem
  | [] => []
  | item :: items =>
    (if item.guard ≤ b.size then [item] else []) ++
      match b.shl item with
      | some b' => accepted b' items
      | none => []

/-- All accepted values are plain and leave a byte, when `r` bytes are left and each of them
takes as many as its text has. -/
def Fits : ℤ → List LogItem → Prop
  | r, [] => 0 < r
  | r, item :: items =>
    if item.guard ≤ r then item.Plain ∧ Fits (r - item.text.length) items else Fits r items

/-- The size is not negative and what `ptr` leaves of the buffer. -/
def LogBuffer.InRange (b : LogBuffer) : Prop := 0 ≤ b.size ∧ b.size = logBufferDefaultSize - b.ptr

/-- What is promised of the values `items` streamed into a buffer that holds the text `T`, and
closed by `'\0'`: no byte is written outside, the size is right after each value, and the text in
the end is `T` and that of the accepted values. -/
def KeepsText (b : LogBuffer) (T : Bytes) (items : List LogItem) : Prop :=
  (∀ pre, pre <+: items ++ [.char 0] → ∃ b', b.shlAll pre = some b' ∧ b'.InRange) ∧
    ∃ b', b.shlAll (items ++ [.char 0]) = some b' ∧
      b'.text = some (T ++ (accepted b items).flatMap LogItem.text)

/-! ## One value -/

variable {b b' : LogBuffer} {item : LogItem} {items : List LogItem} {T : Bytes}

/-- The buffer holds the text `T`, and the size is what it leaves. -/
structure LogBuffer.Holds (b : LogBuffer) (T : Bytes) : Prop where
  length_buf : b.buf.length = logBufferDefaultSize
  take_buf : b.buf.take T.length = T
  ptr_eq : b.ptr = T.length
  size_eq : b.size = logBufferDefaultSize - T.length
  no_nul : 0 ∉ T

lemma LogBuffer.Holds.length_le (h : b.Holds T) : T.length ≤ logBufferDefaultSize := by
  rw [← h.length_buf, ← h.take_buf, List.length_take]
  exact Nat.min_le_right _ _

lemma LogBuffer.holds_fresh (garbage : ℕ → UInt8) : (fresh garbage).Holds [] :=
  ⟨by simp [fresh], rfl, rfl, by simp [fresh], by simp⟩

/-- A text for which there is room, with what is written behind it. -/
lemma LogBuffer.Holds.store (h : b.Holds T) {s t : Bytes} (hs : 0 ∉ s)
    (hroom : ((s ++ t).length : ℤ) ≤ b.size) :
    ∃ m, Memory.store b.buf b.ptr (s ++ t) = some m ∧ (b.advance m s.length).Holds (T ++ s) := by
  have hfit : b.ptr + (s ++ t).length ≤ b.buf.length := by
    rw [h.ptr_eq, h.length_buf]
    have := h.size_eq
    omega
  refine ⟨_, Memory.store_eq_some.mpr ⟨hfit, rfl⟩, ?_, ?_, ?_, ?_, ?_⟩
  · exact (Memory.length_store (Memory.store_eq_some.mpr ⟨hfit, rfl⟩)).trans h.length_buf
  · have hsplit : ∀ rest : Bytes, T ++ (s ++ t) ++ rest = T ++ s ++ (t ++ rest) := by simp
    rw [LogBuffer.advance, h.ptr_eq, h.take_buf, hsplit, List.take_left]
  · show b.ptr + s.length = _
    rw [h.ptr_eq, List.length_append]
  · show b.size - s.length = _
    rw [h.size_eq, List.length_append]
    omega
  · rw [List.mem_append]
    exact not_or.mpr ⟨h.no_nul, hs⟩

lemma zero_notMem_decimal (n : ℕ) : 0 ∉ decimal n := fun h0 =>
  (notSpace_of_isDigit (isDigit_of_mem_decimal h0)).2.2.2 rfl

lemma zero_notMem_intText (v : ℤ) : 0 ∉ intText v := by
  rw [intText, List.mem_append]
  refine not_or.mpr ⟨?_, zero_notMem_decimal _⟩
  split_ifs <;> decide

lemma zero_notMem_ieeeText {p : ℕ} {emin emax : ℤ} (d : Ieee p emin emax) : 0 ∉ d.text := by
  have hsign : ∀ negative : Bool, 0 ∉ if negative then ascii "-" else [] := by decide
  cases d with
  | finite negative m e =>
    simp only [Ieee.text, List.mem_append, not_or, List.mem_replicate]
    refine ⟨⟨⟨⟨hsign negative, zero_notMem_decimal _⟩, by decide⟩, by simp⟩,
      zero_notMem_decimal _⟩
  | inf negative =>
    simp only [Ieee.text, List.mem_append, not_or]
    exact ⟨hsign negative, by decide⟩
  | nan negative =>
    simp only [Ieee.text, List.mem_append, not_or]
    exact ⟨hsign negative, by decide⟩

lemma zero_notMem_cstr (s : Bytes) : 0 ∉ cstr s := by
  intro h0
  simpa using List.mem_takeWhile_imp h0

/-- The text of a plain value has no NUL. -/
lemma LogItem.Plain.zero_notMem (h : item.Plain) : 0 ∉ item.text := by
  cases item with
  | str s => exact zero_notMem_cstr s
  | char c => exact fun h0 => h (List.mem_singleton.mp h0).symm
  | pointer t => exact h.elim
  | int d => exact zero_notMem_intText _
  | unsignedInt d => exact zero_notMem_intText _
  | unsignedLong d => exact zero_notMem_intText _
  | longLong d => exact zero_notMem_intText _
  | unsignedLongLong d => exact zero_notMem_intText _
  | float d => exact zero_notMem_ieeeText d
  | double d => exact zero_notMem_ieeeText d

/-- A value for which the size is too small changes nothing. -/
lemma LogBuffer.shl_of_lt (h : b.size < item.guard) : b.shl item = some b := by
  cases item <;> simp only [shl, formatStr, formatChar, formatPointer, formatInteger, formatFloat,
    LogItem.guard] at h ⊢ <;> rw [if_pos h]

lemma LogBuffer.Holds.formatInteger (h : b.Holds T) {I : IntType} {guard : ℤ} {d : I.Value}
    (hguard : guard ≤ b.size) (hroom : (intText d.val).length < b.size) :
    ∃ b', b.formatInteger guard d = some b' ∧ b'.Holds (T ++ intText d.val) := by
  obtain ⟨m, hm, hholds⟩ := h.store (t := [0]) (zero_notMem_intText d.val) (by simp; omega)
  refine ⟨_, ?_, hholds⟩
  rw [LogBuffer.formatInteger, if_neg (by omega), convert_eq, hm]
  rfl

lemma LogBuffer.Holds.formatFloat (h : b.Holds T) {p : ℕ} {emin emax : ℤ} {d : Ieee p emin emax}
    (hguard : 32 ≤ b.size) (hroom : d.text.length < b.size) :
    ∃ b', b.formatFloat d = some b' ∧ b'.Holds (T ++ d.text) := by
  obtain ⟨m, hm, hholds⟩ := h.store (t := [0]) (zero_notMem_ieeeText d) (by simp; omega)
  refine ⟨_, ?_, hholds⟩
  rw [LogBuffer.formatFloat, if_neg (by omega), List.take_of_length_le (by omega), hm]
  rfl

lemma LogBuffer.Holds.formatStr (h : b.Holds T) {s : Bytes}
    (hroom : (cstr s).length < b.size) :
    ∃ b', b.formatStr s = some b' ∧ b'.Holds (T ++ cstr s) := by
  obtain ⟨m, hm, hholds⟩ := h.store (t := []) (zero_notMem_cstr s) (by simpa using hroom.le)
  have hsize : b.size ≤ 4096 := by
    rw [h.size_eq]
    exact sub_le_self _ (Int.natCast_nonneg _)
  have hlen : toInt32 (cstr s).length = (cstr s).length := by
    rw [toInt32]
    omega
  have hn : ((toInt32 (cstr s).length) % 2 ^ 64).toNat = (cstr s).length := by
    rw [hlen]
    omega
  refine ⟨_, ?_, hholds⟩
  rw [List.append_nil] at hm
  rw [LogBuffer.formatStr, if_neg (by omega)]
  simp only [hn, LogBuffer.memcpy, le_refl, if_true, List.take_length, hm]
  rfl

/-- A plain value that is accepted and leaves a byte. -/
lemma LogBuffer.Holds.shl (h : b.Holds T) (hguard : item.guard ≤ b.size) (hplain : item.Plain)
    (hroom : item.text.length < b.size) :
    ∃ b', b.shl item = some b' ∧ b'.Holds (T ++ item.text) := by
  cases item with
  | str s =>
    have hroom : ((cstr s).length : ℤ) < b.size := hroom
    exact @LogBuffer.Holds.formatStr b T h s hroom
  | char c =>
    obtain ⟨m, hm, hholds⟩ := h.store (t := []) hplain.zero_notMem (by simpa using hroom.le)
    have hm : Memory.store b.buf b.ptr [c] = some m := hm
    refine ⟨_, ?_, hholds⟩
    rw [LogBuffer.shl, LogBuffer.formatChar, if_neg (by simpa [LogItem.guard] using hguard), hm]
    rfl
  | pointer t => exact hplain.elim
  | int d => exact h.formatInteger hguard hroom
  | unsignedInt d => exact h.formatInteger hguard hroom
  | unsignedLong d => exact h.formatInteger hguard hroom
  | longLong d => exact h.formatInteger hguard hroom
  | unsignedLongLong d => exact h.formatInteger hguard hroom
  | float d => exact h.formatFloat hguard hroom
  | double d => exact h.formatFloat hguard hroom

/-! ## Runs -/

lemma LogBuffer.shlAll_cons : b.shlAll (item :: items) = (b.shl item).bind (·.shlAll items) := rfl

lemma fits_pos {r : ℤ} (h : Fits r items) : 0 < r := by
  induction items generalizing r with
  | nil => exact h
  | cons item items ih =>
    rw [Fits] at h
    split_ifs at h
    · have := ih h.2
      omega
    · exact ih h

/-- What is promised of a list of values, from what is promised of the rest. -/
lemma keepsText_cons :
    KeepsText b T (item :: items) ↔ b.InRange ∧ ∃ b', b.shl item = some b' ∧
      KeepsText b' (if item.guard ≤ b.size then T ++ item.text else T) items := by
  have hprefix : ∀ P : List LogItem → Prop,
      (∀ pre, pre <+: item :: (items ++ [.char 0]) → P pre) ↔
        P [] ∧ ∀ pre, pre <+: items ++ [.char 0] → P (item :: pre) := by
    intro P
    simp only [List.prefix_cons_iff]
    constructor
    · intro h
      exact ⟨h _ (Or.inl rfl), fun pre hpre => h _ (Or.inr ⟨pre, rfl, hpre⟩)⟩
    · rintro ⟨hnil, hcons⟩ pre (rfl | ⟨pre, rfl, hpre⟩)
      · exact hnil
      · exact hcons pre hpre
  rw [KeepsText, List.cons_append, hprefix, accepted]
  simp only [LogBuffer.shlAll_cons]
  cases hshl : b.shl item with
  | none => simp
  | some b' =>
    have hnil : b.shlAll [] = some b := rfl
    have htext : (if item.guard ≤ b.size then T ++ item.text else T)
        ++ (accepted b' items).flatMap LogItem.text
        = T ++ ((if item.guard ≤ b.size then [item] else []) ++ accepted b' items).flatMap
            LogItem.text := by
      split_ifs <;> simp
    simp only [hnil, Option.bind_some, Option.some.injEq, exists_eq_left', KeepsText, htext,
      and_assoc]

lemma KeepsText.inRange (h : KeepsText b T items) : b.InRange := by
  obtain ⟨b', hnil, hin⟩ := h.1 [] (List.nil_prefix)
  obtain rfl : b = b' := Option.some.inj hnil
  exact hin

/-- The size behind such a value. -/
lemma LogBuffer.Holds.accept (h : b.Holds T) (hguard : item.guard ≤ b.size)
    (hplain : item.Plain) (hroom : item.text.length < b.size) :
    ∃ b', b.shl item = some b' ∧ b'.Holds (T ++ item.text) ∧
      b'.size = b.size - item.text.length := by
  obtain ⟨b', hshl, hholds⟩ := h.shl hguard hplain hroom
  refine ⟨b', hshl, hholds, ?_⟩
  have hsize := h.size_eq
  have hsize' := hholds.size_eq
  rw [List.length_append] at hsize'
  omega

lemma LogBuffer.Holds.inRange (h : b.Holds T) : b.InRange := by
  have hlen := h.length_le
  have hsize := h.size_eq
  have hptr := h.ptr_eq
  constructor <;> omega

lemma length_convert {I : IntType} {v : I.Value} {m m' : Bytes} {p n : ℕ}
    (h : convert m p v = some (m', n)) : m'.length = m.length := by
  rw [convert_eq, Option.map_eq_some_iff] at h
  obtain ⟨m₁, hstore, heq⟩ := h
  obtain ⟨rfl, -⟩ := Prod.mk.inj heq
  exact Memory.length_store hstore

lemma length_convertHex {t : UInt64} {m m' : Bytes} {p n : ℕ}
    (h : convertHex m p t = some (m', n)) : m'.length = m.length := by
  rw [convertHex_eq, Option.map_eq_some_iff] at h
  obtain ⟨m₁, hstore, heq⟩ := h
  obtain ⟨rfl, -⟩ := Prod.mk.inj heq
  exact Memory.length_store hstore

namespace LogBuffer

lemma length_formatInteger {I : IntType} {guard : ℤ} {d : I.Value}
    (h : b.formatInteger guard d = some b') : b'.buf.length = b.buf.length := by
  rw [formatInteger] at h
  split_ifs at h
  · obtain rfl := Option.some.inj h
    rfl
  · obtain ⟨⟨m, n⟩, hconvert, h⟩ := Option.bind_eq_some_iff.mp h
    obtain rfl := Option.some.inj h
    exact length_convert hconvert

lemma length_formatFloat {p : ℕ} {emin emax : ℤ} {d : Ieee p emin emax}
    (h : b.formatFloat d = some b') : b'.buf.length = b.buf.length := by
  rw [formatFloat] at h
  split_ifs at h
  · obtain rfl := Option.some.inj h
    rfl
  · obtain ⟨m, hstore, rfl⟩ := Option.map_eq_some_iff.mp h
    exact Memory.length_store hstore

lemma length_formatStr {s : Bytes} (h : b.formatStr s = some b') :
    b'.buf.length = b.buf.length := by
  rw [formatStr] at h
  split_ifs at h
  · obtain rfl := Option.some.inj h
    rfl
  · obtain ⟨m, hcopy, rfl⟩ := Option.map_eq_some_iff.mp h
    rw [memcpy] at hcopy
    split_ifs at hcopy
    exact Memory.length_store hcopy

lemma length_formatChar {c : UInt8} (h : b.formatChar c = some b') :
    b'.buf.length = b.buf.length := by
  rw [formatChar] at h
  split_ifs at h
  · obtain rfl := Option.some.inj h
    rfl
  · obtain ⟨m, hstore, rfl⟩ := Option.map_eq_some_iff.mp h
    exact Memory.length_store hstore

lemma length_formatPointer {t : UInt64} (h : b.formatPointer t = some b') :
    b'.buf.length = b.buf.length := by
  rw [formatPointer] at h
  split_ifs at h
  · obtain rfl := Option.some.inj h
    rfl
  · obtain ⟨m, hstore, h⟩ := Option.bind_eq_some_iff.mp h
    obtain ⟨⟨m', n⟩, hconvert, h⟩ := Option.bind_eq_some_iff.mp h
    obtain rfl := Option.some.inj h
    exact (length_convertHex hconvert).trans (Memory.length_store hstore)

/-- The number of cells does not change. -/
lemma length_shl (h : b.shl item = some b') : b'.buf.length = b.buf.length := by
  cases item with
  | str s =>
    have h : b.formatStr s = some b' := h
    exact length_formatStr h
  | char c => exact length_formatChar h
  | pointer t => exact length_formatPointer h
  | int d => exact length_formatInteger h
  | unsignedInt d => exact length_formatInteger h
  | unsignedLong d => exact length_formatInteger h
  | longLong d => exact length_formatInteger h
  | unsignedLongLong d => exact length_formatInteger h
  | float d => exact length_formatFloat h
  | double d => exact length_formatFloat h

end LogBuffer

lemma LogBuffer.length_shlAll (h : b.shlAll items = some b') : b'.buf.length = b.buf.length := by
  induction items generalizing b with
  | nil =>
    obtain rfl : b = b' := Option.some.inj h
    rfl
  | cons item items ih =>
    rw [shlAll_cons, Option.bind_eq_some_iff] at h
    obtain ⟨b₁, hshl, hrest⟩ := h
    rw [ih hrest, length_shl hshl]

/-- The closing `'\0'`, when a byte is left. -/
lemma LogBuffer.Holds.close (h : b.Holds T) (hsize : 0 < b.size) :
    ∃ b', b.shl (.char 0) = some b' ∧ b'.InRange ∧ b'.text = some T := by
  have hptr : T.length + 1 ≤ b.buf.length := by
    have := h.size_eq
    rw [h.length_buf]
    omega
  have hm : Memory.store b.buf b.ptr [0] = some (T ++ [0] ++ b.buf.drop (T.length + 1)) := by
    rw [h.ptr_eq, Memory.store_eq_some, h.take_buf]
    exact ⟨hptr, rfl⟩
  refine ⟨b.advance (T ++ [0] ++ b.buf.drop (T.length + 1)) 1, ?_, ?_, ?_⟩
  · rw [LogBuffer.shl, formatChar, if_neg (by omega), hm]
    rfl
  · have hin := h.inRange
    constructor
    · exact Int.sub_nonneg_of_le hsize
    · show b.size - (1 : ℕ) = logBufferDefaultSize - ((b.ptr + 1 : ℕ) : ℤ)
      have := hin.2
      omega
  · have htake : cstr (T ++ [0] ++ b.buf.drop (T.length + 1)) = T := by
      rw [cstr, List.append_assoc, List.takeWhile_append_of_pos]
      · simp
      · intro c hc
        simpa using ne_of_mem_of_not_mem hc h.no_nul
    rw [text, advance, if_pos (by simp), htake]

/-- What is promised needs a text without a NUL that leaves a byte of the buffer. -/
lemma KeepsText.text_bounds (h : KeepsText b T items) (hlen : b.buf.length = logBufferDefaultSize) :
    0 ∉ T ∧ T.length < logBufferDefaultSize := by
  obtain ⟨-, b', hall, htext⟩ := h
  rw [LogBuffer.text] at htext
  split_ifs at htext with h0
  have hcstr := Option.some.inj htext
  have hbuf := LogBuffer.length_shlAll hall
  constructor
  · intro hT
    refine zero_notMem_cstr b'.buf ?_
    rw [hcstr]
    exact List.mem_append_left _ hT
  · have hlt : (cstr b'.buf).length < b'.buf.length := by
      refine lt_of_le_of_ne (List.takeWhile_prefix _).length_le fun heq => ?_
      have hself := (List.takeWhile_prefix (l := b'.buf) (· ≠ (0 : UInt8))).eq_of_length heq
      exact zero_notMem_cstr b'.buf (by rw [cstr, hself]; exact h0)
    rw [hcstr, List.length_append] at hlt
    omega

lemma keepsText_nil (h : b.Holds T) : KeepsText b T [] ↔ 0 < b.size := by
  constructor
  · intro hkeeps
    have hlt := (hkeeps.text_bounds h.length_buf).2
    have := h.size_eq
    omega
  · intro hsize
    obtain ⟨b', hshl, hin, htext⟩ := h.close hsize
    have hone : b.shlAll [.char 0] = some b' := by rw [LogBuffer.shlAll_cons, hshl]; rfl
    refine ⟨?_, b', hone, by simpa [accepted] using htext⟩
    intro pre hpre
    rcases List.prefix_cons_iff.mp hpre with rfl | ⟨tail, rfl, htail⟩
    · exact ⟨b, rfl, h.inRange⟩
    · obtain rfl := List.prefix_nil.mp htail
      exact ⟨b', hone, hin⟩

/-- A pointer that is accepted makes the size wrong. -/
lemma not_inRange_pointer {t : UInt64} (hin : b.InRange) (hguard : 32 ≤ b.size)
    (hshl : b.shl (.pointer t) = some b') : ¬ b'.InRange := by
  rw [LogBuffer.shl, LogBuffer.formatPointer, if_neg (by omega), Option.bind_eq_bind,
    Option.bind_eq_some_iff] at hshl
  obtain ⟨m, -, hshl⟩ := hshl
  rw [Option.bind_eq_bind, Option.bind_eq_some_iff] at hshl
  obtain ⟨⟨m', n⟩, -, hshl⟩ := hshl
  obtain rfl := Option.some.inj hshl
  rintro ⟨-, hsize⟩
  have hsize₀ := hin.2
  dsimp only at hsize
  omega

/-- The promise is kept exactly when the accepted values are plain and leave a byte. -/
lemma keepsText_iff (h : b.Holds T) : KeepsText b T items ↔ Fits b.size items := by
  induction items generalizing b T with
  | nil => exact keepsText_nil h
  | cons item items ih =>
    rw [keepsText_cons, Fits]
    by_cases hguard : item.guard ≤ b.size
    · rw [if_pos hguard, if_pos hguard]
      constructor
      · rintro ⟨hin, b', hshl, hkeeps⟩
        obtain ⟨h0, hlt⟩ := hkeeps.text_bounds ((LogBuffer.length_shl hshl).trans h.length_buf)
        rw [List.mem_append, not_or] at h0
        have hplain : item.Plain := by
          cases item with
          | char c => exact fun hc => h0.2 (by simp [LogItem.text, hc])
          | pointer t => exact not_inRange_pointer hin hguard hshl hkeeps.inRange
          | _ => trivial
        have hroom : item.text.length < b.size := by
          rw [List.length_append] at hlt
          have := h.size_eq
          omega
        obtain ⟨b'', hshl', hholds, hsize⟩ := h.accept hguard hplain hroom
        obtain rfl : b' = b'' := Option.some.inj (hshl.symm.trans hshl')
        exact ⟨hplain, hsize ▸ (ih hholds).mp hkeeps⟩
      · rintro ⟨hplain, hfits⟩
        have hpos := fits_pos hfits
        obtain ⟨b', hshl, hholds, hsize⟩ := h.accept hguard hplain (by omega)
        exact ⟨h.inRange, b', hshl, (ih hholds).mpr (hsize ▸ hfits)⟩
    · rw [LogBuffer.shl_of_lt (by omega), if_neg hguard, if_neg hguard]
      simp only [Option.some.injEq, exists_eq_left', ih h]
      exact and_iff_right_of_imp fun _ => h.inRange

/-- For every sequence of values streamed into a new entry: the promise is kept if and only if no
accepted value is a pointer or a NUL, and the texts of the accepted values leave a byte. -/
theorem logEntry_iff (garbage : ℕ → UInt8) (items : List LogItem) :
    KeepsText (LogBuffer.fresh garbage) [] items ↔ Fits logBufferDefaultSize items :=
  keepsText_iff (LogBuffer.holds_fresh garbage)

/-- One pointer: two bytes more than those counted are skipped. -/
theorem logEntry_pointer :
    ¬ ∀ (garbage : ℕ → UInt8) (items : List LogItem),
      KeepsText (LogBuffer.fresh garbage) [] items := by
  intro hkeeps
  have hfits := (keepsText_iff (LogBuffer.holds_fresh fun _ => 0)).mp
    (hkeeps (fun _ => 0) [.pointer 0x7f00])
  rw [Fits, if_pos (by decide)] at hfits
  exact hfits.1

end MTRpc
