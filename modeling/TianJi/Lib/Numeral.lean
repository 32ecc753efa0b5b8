import Mathlib.Data.Nat.Digits.Lemmas

/-!
# Numerals

A number written in a base, most significant digit first, with a single 0 for zero. Mathlib
has the digits the other way round and writes zero as the empty list.

* `value_numeral`  — reading a numeral gives the number back.
* `head_numeral`   — no leading zero but in the numeral of 0.
* `length_numeral_le` — how long it gets.
* `padded_value`   — digits with zeros in front are a padded numeral.
-/

namespace Numeral

/-- The digits of `n`, most significant first. -/
def numeral (b n : Nat) : List Nat := if n = 0 then [0] else (b.digits n).reverse

/-- The number that a list of digits stands for. -/
def value (b : Nat) (ds : List Nat) : Nat := ds.foldl (fun n d => b * n + d) 0

variable {b n : Nat}

theorem numeral_ne_nil (b n : Nat) : numeral b n ≠ [] := by
  unfold numeral
  split_ifs with hZero
  · exact List.cons_ne_nil _ _
  · rw [Ne, List.reverse_eq_nil_iff, Nat.digits_eq_nil_iff_eq_zero]
    exact hZero

/-- The last digit is the remainder, those before it are the quotient's. -/
theorem numeral_div (hb : 2 ≤ b) (n : Nat) :
    numeral b n = (if n / b = 0 then [] else numeral b (n / b)) ++ [n % b] := by
  unfold numeral
  by_cases hZero : n = 0
  · simp [hZero]
  · rw [if_neg hZero, Nat.digits_def' hb (Nat.pos_of_ne_zero hZero), List.reverse_cons]
    by_cases hQuotient : n / b = 0
    · simp [hQuotient]
    · simp [hQuotient]

theorem lt_of_mem_numeral (hb : 2 ≤ b) {d : Nat} (hd : d ∈ numeral b n) : d < b := by
  unfold numeral at hd
  split_ifs at hd with hZero
  · rw [List.mem_singleton] at hd
    omega
  · exact Nat.digits_lt_base hb (List.mem_reverse.mp hd)

/-- **Reading a numeral gives the number back.** -/
theorem value_numeral (b n : Nat) : value b (numeral b n) = n := by
  unfold value numeral
  split_ifs with hZero
  · simp [hZero]
  · rw [List.foldl_reverse]
    have hDigits := Nat.ofDigits_digits b n
    rw [Nat.ofDigits_eq_foldr] at hDigits
    simpa only [Nat.cast_id, Nat.add_comm] using hDigits

/-- A numeral that starts with 0 is the one of 0. -/
theorem head_numeral (h : (numeral b n).head? = some 0) : numeral b n = [0] := by
  unfold numeral at h ⊢
  split_ifs at h ⊢ with hZero
  · rfl
  · have hNe : b.digits n ≠ [] := Nat.digits_ne_nil_iff_ne_zero.mpr hZero
    rw [List.head?_reverse, List.getLast?_eq_some_getLast hNe] at h
    exact absurd (Option.some.inj h) (Nat.getLast_digit_ne_zero b hZero)

theorem length_numeral_le {k : Nat} (hb : 2 ≤ b) (hk : 1 ≤ k) (h : n < b ^ k) :
    (numeral b n).length ≤ k := by
  unfold numeral
  split_ifs with hZero
  · exact hk
  · rw [List.length_reverse]
    exact (Nat.digits_length_le_iff hb n).mpr h

theorem value_eq_ofDigits (b : Nat) (ds : List Nat) : value b ds = Nat.ofDigits b ds.reverse := by
  rw [Nat.ofDigits_eq_foldr, List.foldr_reverse, value]
  simp only [Nat.cast_id, Nat.add_comm]

/-- The numeral with zeros in front of it, for `k` digits. -/
def padded (b k n : Nat) : List Nat :=
  List.replicate (k - (numeral b n).length) 0 ++ numeral b n

theorem length_padded (b k n : Nat) : (padded b k n).length = max k (numeral b n).length := by
  rw [padded, List.length_append, List.length_replicate]
  omega

theorem lt_of_mem_padded (hb : 2 ≤ b) {k d : Nat} (hd : d ∈ padded b k n) : d < b := by
  rcases List.mem_append.mp hd with hZero | hDigit
  · rw [List.eq_of_mem_replicate hZero]
    omega
  · exact lt_of_mem_numeral hb hDigit

/-- Zeros in front do not count. -/
theorem value_padded (b k n : Nat) : value b (padded b k n) = n := by
  have hNumeral := value_numeral b n
  rw [value_eq_ofDigits] at hNumeral
  rw [value_eq_ofDigits, padded, List.reverse_append, List.reverse_replicate,
    Nat.ofDigits_append_replicate_zero, hNumeral]

theorem value_lt (hb : 2 ≤ b) {ds : List Nat} (hds : ∀ d ∈ ds, d < b) :
    value b ds < b ^ ds.length := by
  rw [value_eq_ofDigits, ← List.length_reverse]
  exact Nat.ofDigits_lt_base_pow_length hb fun d hd => hds d (List.mem_reverse.mp hd)

/-- **Digits are the padded numeral of what they stand for.** -/
theorem padded_value (hb : 2 ≤ b) {ds : List Nat} (hNe : ds ≠ []) (hds : ∀ d ∈ ds, d < b) :
    padded b ds.length (value b ds) = ds := by
  have hLength : (padded b ds.length (value b ds)).length = ds.length := by
    rw [length_padded, Nat.max_eq_left]
    exact length_numeral_le hb (List.length_pos_of_ne_nil hNe) (value_lt hb hds)
  have hValue : Nat.ofDigits b (padded b ds.length (value b ds)).reverse =
      Nat.ofDigits b ds.reverse := by
    rw [← value_eq_ofDigits, ← value_eq_ofDigits, value_padded]
  refine List.reverse_injective (Nat.ofDigits_inj_of_len_eq hb ?_ ?_ ?_ hValue)
  · rw [List.length_reverse, List.length_reverse, hLength]
  · exact fun d hd => lt_of_mem_padded hb (List.mem_reverse.mp hd)
  · exact fun d hd => hds d (List.mem_reverse.mp hd)

end Numeral
