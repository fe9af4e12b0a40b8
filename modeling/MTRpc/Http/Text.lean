import Mathlib.Data.List.TakeWhile
import MTRpc.Mio.Buffer

/-!
# Texts and numbers

Error codes and their names (`mio/mio_error_code`), and the library functions with which the
header classes print and read numbers: `snprintf` with `%u` and `%lu`, `strtol`, `strtoull`
and `sscanf` with `%u`.
-/

namespace MTRpc

/-- The bytes of a text literal. -/
def ascii (s : String) : Bytes := s.toList.map fun c => UInt8.ofNat c.toNat

/-! ## Error codes -/

/-- `enum ErrorCode` -/
inductive ErrorCode
  | ok
  | httpParserFail | httpPaserHalf | httpPaserFinish
  | httpReqOversize | httpReqNolength
  | httpServerNotfound | httpMethodNotfound | httpRequestOverflow
  | serverReadbufferEmpty | serverReadbufferFull
  | serverWriebufferEmpty | serverWriebufferFull
  | serverReqParserFailed | serverProcessFailed | serverResSeriaFailed
  | clientConnectOk | clientConnectFail | clientConnectIprocess
  | clientCancelByError | clientCancelByClose | clientSeqNotMatch
  | clientRecvTimeout | clientSendTimeout
deriving DecidableEq, Repr

namespace ErrorCode

/-- The value of the enumerator. -/
def code : ErrorCode → ℕ
  | ok => 200
  | httpParserFail => 400
  | httpPaserHalf => 401
  | httpPaserFinish => 402
  | httpReqOversize => 410
  | httpReqNolength => 411
  | httpServerNotfound => 423
  | httpMethodNotfound => 424
  | httpRequestOverflow => 425
  | serverReadbufferEmpty => 500
  | serverReadbufferFull => 501
  | serverWriebufferEmpty => 502
  | serverWriebufferFull => 503
  | serverReqParserFailed => 504
  | serverProcessFailed => 505
  | serverResSeriaFailed => 506
  | clientConnectOk => 1000
  | clientConnectFail => 1001
  | clientConnectIprocess => 1002
  | clientCancelByError => 1003
  | clientCancelByClose => 1004
  | clientSeqNotMatch => 1005
  | clientRecvTimeout => 1006
  | clientSendTimeout => 1007

/-- `ErrorString`.  The two codes for an unknown service or method have no case of their
own in the source and fall through to the last line. -/
def errorString : ErrorCode → Bytes
  | ok => ascii "OK"
  | httpParserFail => ascii "HTTP_PARSER_FAIL"
  | httpPaserHalf => ascii "HTTP_PASER_HALF"
  | httpPaserFinish => ascii "HTTP_PASER_FINISH"
  | httpReqOversize => ascii "HTTP_REQ_OVERSIZE"
  | httpReqNolength => ascii "HTTP_REQ_NOLENGTH"
  | httpServerNotfound => ascii "ERROR_UNDEFINED"
  | httpMethodNotfound => ascii "ERROR_UNDEFINED"
  | httpRequestOverflow => ascii "HTTP_REQUEST_OVERFLOW"
  | serverReadbufferEmpty => ascii "SERVER_READBUFFER_EMPTY"
  | serverReadbufferFull => ascii "SERVER_READBUFFER_FULL"
  | serverWriebufferEmpty => ascii "SERVER_WRIEBUFFER_EMPTY"
  | serverWriebufferFull => ascii "SERVER_WRIEBUFFER_FULL"
  | serverReqParserFailed => ascii "SERVER_REQ_PARSER_FAILED"
  | serverProcessFailed => ascii "SERVER_PROCESS_FAILED"
  | serverResSeriaFailed => ascii "SERVER_RES_SERIA_FAILED"
  | clientConnectOk => ascii "CLIENT_CONNECT_OK"
  | clientConnectFail => ascii "CLIENT_CONNECT_FAIL"
  | clientConnectIprocess => ascii "CLIENT_CONNECT_IPROCESS"
  | clientCancelByError => ascii "CLIENT_CANCEL_BY_ERROR"
  | clientCancelByClose => ascii "CLIENT_CANCEL_BY_CLOSE"
  | clientSeqNotMatch => ascii "CLIENT_SEQ_NOT_MATCH"
  | clientRecvTimeout => ascii "CLIENT_RECV_TIMEOUT"
  | clientSendTimeout => ascii "CLIENT_SEND_TIMEOUT"

end ErrorCode

/-! ## Numbers -/

/-- A text as a C string: what stands before the first NUL. -/
def cstr (s : Bytes) : Bytes := s.takeWhile (· ≠ 0)

/-- `%u` and `%lu` -/
def decimal (n : ℕ) : Bytes := (Nat.toDigits 10 n).map fun c => UInt8.ofNat c.toNat

/-- `isspace` in the C locale. -/
def isSpace (c : UInt8) : Bool := c == 32 || (9 ≤ c && c ≤ 13)

def isDigit (c : UInt8) : Bool := 48 ≤ c && c ≤ 57

/-- The value of the digits at the front of a text. -/
def digitsValue (s : Bytes) : ℕ :=
  (s.takeWhile isDigit).foldl (fun n c => 10 * n + (c.toNat - 48)) 0

/-- The sign and the text behind it, after leading white space. -/
def splitSign (s : Bytes) : Bool × Bytes :=
  match s.dropWhile isSpace with
  | 45 :: t => (true, t)
  | 43 :: t => (false, t)
  | t => (false, t)

/-- `strtol(s, NULL, 10)`: out of range values go to the nearest `long`. -/
def strtol (s : Bytes) : ℤ :=
  let (neg, t) := splitSign (cstr s)
  if neg then max (-(digitsValue t : ℤ)) (-2 ^ 63) else min (digitsValue t : ℤ) (2 ^ 63 - 1)

/-- `strtoull(s, NULL, 10)`: a value out of range gives `ULLONG_MAX`, a minus sign negates
modulo `2 ^ 64`. -/
def strtoull (s : Bytes) : ℕ :=
  let (neg, t) := splitSign (cstr s)
  if 2 ^ 64 ≤ digitsValue t then 2 ^ 64 - 1
  else if neg then (2 ^ 64 - digitsValue t) % 2 ^ 64 else digitsValue t

/-- `sscanf(s, "%u", &v)`: without digits `v` keeps its value. -/
def sscanfU (s : Bytes) (v : ℕ) : ℕ :=
  if ((splitSign (cstr s)).2.takeWhile isDigit).isEmpty then v else strtoull s % 2 ^ 32

/-- A `long` stored in an `int`. -/
def toInt32 (z : ℤ) : ℤ := (z + 2 ^ 31) % 2 ^ 32 - 2 ^ 31

/-- A small number stored as a `uint32_t`. -/
lemma toNat_ofInt {n : ℕ} (h : n < 2 ^ 32) : (UInt32.ofInt n).toNat = n := by
  have hmod : ((n : ℤ) % 2 ^ 32).toNat = n := by omega
  rw [UInt32.ofInt, hmod, UInt32.toNat_ofNat_of_lt' (by simp only [UInt32.size]; omega)]

/-! ### Reading printed numbers -/

lemma toNat_digit {c : Char} (h : c.isDigit = true) :
    (UInt8.ofNat c.toNat).toNat = c.toNat ∧ isDigit (UInt8.ofNat c.toNat) = true := by
  have hc : 48 ≤ c.toNat ∧ c.toNat ≤ 57 := by
    simpa [Char.isDigit, UInt32.le_iff_toNat_le] using h
  have hval : (UInt8.ofNat c.toNat).toNat = c.toNat := by
    rw [UInt8.toNat_ofNat']
    omega
  refine ⟨hval, ?_⟩
  simp only [isDigit, Bool.and_eq_true, decide_eq_true_eq, UInt8.le_iff_toNat_le, hval]
  exact hc

lemma isDigit_of_mem_decimal {n : ℕ} {c : UInt8} (hc : c ∈ decimal n) : isDigit c = true := by
  obtain ⟨d, hd, rfl⟩ := List.mem_map.mp hc
  exact (toNat_digit (Nat.isDigit_of_mem_toDigits (by decide) (by decide) hd)).2

lemma decimal_ne_nil (n : ℕ) : decimal n ≠ [] := by
  simp [decimal, Nat.toDigits_ne_nil]

lemma length_decimal_le {n k : ℕ} (hk : 0 < k) (hn : n < 10 ^ k) : (decimal n).length ≤ k := by
  rw [decimal, List.length_map]
  exact (Nat.length_toDigits_le_iff (by decide) hk).mpr hn

/-- The digits at the front of a text. -/
lemma takeWhile_decimal (n : ℕ) {u : Bytes} (hu : ∀ c ∈ u.head?, isDigit c = false) :
    (decimal n ++ u).takeWhile isDigit = decimal n := by
  rw [List.takeWhile_append_of_pos fun c hc => isDigit_of_mem_decimal hc]
  cases u with
  | nil => simp
  | cons c u => simp [hu c rfl]

lemma digitsValue_decimal (n : ℕ) {u : Bytes} (hu : ∀ c ∈ u.head?, isDigit c = false) :
    digitsValue (decimal n ++ u) = n := by
  have hvalue : ∀ (ds : List Char) (m : ℕ), (∀ d ∈ ds, d.isDigit = true) →
      (ds.map fun d => UInt8.ofNat d.toNat).foldl (fun m c => 10 * m + (c.toNat - 48)) m
        = Nat.ofDigitChars 10 ds m := by
    intro ds
    induction ds with
    | nil => simp
    | cons d ds ih =>
      intro m hds
      rw [List.map_cons, List.foldl_cons, Nat.ofDigitChars_cons, (toNat_digit (hds d (by simp))).1,
        ih _ fun d hd => hds d (by simp [hd])]
      rfl
  rw [digitsValue, takeWhile_decimal n hu, decimal, hvalue _ _ fun d hd =>
    Nat.isDigit_of_mem_toDigits (by decide) (by decide) hd, Nat.ofDigitChars_ten_toDigits]

lemma notSpace_of_isDigit {c : UInt8} (h : isDigit c = true) :
    isSpace c = false ∧ c ≠ 45 ∧ c ≠ 43 ∧ c ≠ 0 := by
  refine ⟨?_, ?_, ?_, ?_⟩
  · simp only [isDigit, isSpace, Bool.and_eq_true, decide_eq_true_eq, UInt8.le_iff_toNat_le,
      Bool.or_eq_false_iff, Bool.and_eq_false_iff, beq_eq_false_iff_ne, ne_eq, ← UInt8.toNat_inj,
      decide_eq_false_iff_not, UInt8.reduceToNat] at h ⊢
    omega
  all_goals
    rintro rfl
    exact absurd h (by decide)

/-- A printed number has no sign. -/
lemma splitSign_decimal (n : ℕ) (u : Bytes) :
    splitSign (decimal n ++ u) = (false, decimal n ++ u) := by
  obtain ⟨c, t, ht⟩ := List.exists_cons_of_ne_nil (decimal_ne_nil n)
  have hc := notSpace_of_isDigit (isDigit_of_mem_decimal (n := n) (c := c) (by simp [ht]))
  rw [ht, List.cons_append, splitSign, List.dropWhile_cons_of_neg (by simp [hc.1])]
  split
  · rename_i heq
    exact absurd (List.cons.inj heq).1 hc.2.1
  · rename_i heq
    exact absurd (List.cons.inj heq).1 hc.2.2.1
  · rfl

lemma cstr_decimal (n : ℕ) {u : Bytes} (h0 : 0 ∉ u) : cstr (decimal n ++ u) = decimal n ++ u := by
  rw [cstr, List.takeWhile_eq_self_iff]
  intro c hc
  rcases List.mem_append.mp hc with hc | hc
  · simpa using (notSpace_of_isDigit (isDigit_of_mem_decimal hc)).2.2.2
  · simpa using ne_of_mem_of_not_mem hc h0

section

variable {n : ℕ} {u : Bytes} (hu : ∀ c ∈ u.head?, isDigit c = false) (h0 : 0 ∉ u)

include hu h0

/-- `strtol` reads a printed number back, whatever follows it. -/
lemma strtol_decimal (hn : n < 2 ^ 63) : strtol (decimal n ++ u) = n := by
  rw [strtol, cstr_decimal n h0, splitSign_decimal]
  simp only [digitsValue_decimal n hu]
  rw [if_neg (by decide)]
  omega

lemma strtoull_decimal (hn : n < 2 ^ 64) : strtoull (decimal n ++ u) = n := by
  rw [strtoull, cstr_decimal n h0, splitSign_decimal]
  simp only [digitsValue_decimal n hu]
  rw [if_neg (by omega), if_neg (by decide)]

lemma sscanfU_decimal (hn : n < 2 ^ 32) (v : ℕ) : sscanfU (decimal n ++ u) v = n := by
  rw [sscanfU, strtoull_decimal hu h0 (by omega), cstr_decimal n h0, splitSign_decimal,
    takeWhile_decimal n hu, if_neg (by simp [decimal_ne_nil])]
  exact Nat.mod_eq_of_lt hn

end

end MTRpc
