import Mathlib.Data.Nat.Digits.Lemmas

/-!
# Canonical numerals

The digits of a number in a base, the most significant one first, without a zero in front; the
number 0 has the one digit 0.
-/

namespace Numeral

variable {b n : ℕ}

/-- The digits `ds` are the canonical numeral of `n` in base `b`. -/
structure Canonical (b n : ℕ) (ds : List ℕ) : Prop where
  ne_nil : ds ≠ []
  lt_base : ∀ d ∈ ds, d < b
  no_leading_zero : ds.head? = some 0 → ds = [0]
  value : ds.foldl (fun m d => b * m + d) 0 = n

/-- The digits of a number, the last one first. -/
def digitsRev (b n : ℕ) : List ℕ := if n = 0 then [0] else Nat.digits b n

/-- The digits of a number. -/
def numeral (b n : ℕ) : List ℕ := (digitsRev b n).reverse

lemma digitsRev_of_lt (hn : n < b) : digitsRev b n = [n] := by
  rw [digitsRev]
  split_ifs with h0
  · rw [h0]
  · exact Nat.digits_of_lt b n h0 hn

lemma digitsRev_of_le (hb : 1 < b) (hn : b ≤ n) :
    digitsRev b n = n % b :: digitsRev b (n / b) := by
  have hdiv : n / b ≠ 0 := (Nat.div_pos hn (by omega)).ne'
  rw [digitsRev, digitsRev, if_neg (by omega), if_neg hdiv, Nat.digits_def' hb (by omega)]

/-- The digits as they come out of a division by the base. -/
lemma digitsRev_eq (hb : 1 < b) :
    digitsRev b n = n % b :: if n / b = 0 then [] else digitsRev b (n / b) := by
  split_ifs with h0
  · have hn : n < b := (Nat.div_eq_zero_iff_lt (by omega)).mp h0
    rw [digitsRev_of_lt hn, Nat.mod_eq_of_lt hn]
  · refine digitsRev_of_le hb (Nat.le_of_not_lt fun hn => h0 ?_)
    exact Nat.div_eq_of_lt hn

lemma foldl_reverse (ds : List ℕ) :
    ds.reverse.foldl (fun m d => b * m + d) 0 = Nat.ofDigits b ds := by
  induction ds with
  | nil => rfl
  | cons d ds ih =>
    rw [List.reverse_cons, List.foldl_append, ih, List.foldl_cons, List.foldl_nil,
      Nat.ofDigits_cons, Nat.add_comm]

theorem canonical_numeral (hb : 1 < b) : Canonical b n (numeral b n) := by
  by_cases h0 : n = 0
  · have hzero : numeral b n = [0] := by simp [numeral, digitsRev, h0]
    rw [hzero, h0]
    exact ⟨by simp, by simp; omega, fun _ => rfl, by simp⟩
  · have hdigits : numeral b n = (Nat.digits b n).reverse := by simp [numeral, digitsRev, h0]
    rw [hdigits]
    refine ⟨?_, ?_, ?_, ?_⟩
    · simpa using Nat.digits_ne_nil_iff_ne_zero.mpr h0
    · intro d hd
      exact Nat.digits_lt_base hb (List.mem_reverse.mp hd)
    · intro hhead
      rw [List.head?_reverse, List.getLast?_eq_getLast_of_ne_nil
        (Nat.digits_ne_nil_iff_ne_zero.mpr h0)] at hhead
      exact absurd (Option.some.inj hhead) (Nat.getLast_digit_ne_zero b h0)
    · rw [foldl_reverse, Nat.ofDigits_digits]

/-- The digits that the standard library prints. -/
lemma toDigits_eq (hb : 1 < b) (n : ℕ) : Nat.toDigits b n = (numeral b n).map Nat.digitChar := by
  induction n using Nat.strong_induction_on with
  | _ n ih =>
    by_cases hn : n < b
    · rw [Nat.toDigits_of_lt_base hn, numeral, digitsRev_of_lt hn]
      rfl
    · have hlt : n / b < n := Nat.div_lt_self (by omega) hb
      rw [Nat.toDigits_of_base_le hb (Nat.le_of_not_lt hn), ih _ hlt, numeral, numeral,
        @digitsRev_of_le b n hb (Nat.le_of_not_lt hn)]
      simp

end Numeral
