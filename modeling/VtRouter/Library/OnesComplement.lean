import Mathlib.Data.List.Basic
import Mathlib.Tactic.NormNum

/-!
# One's-complement sums of 16-bit words

The arithmetic of the internet checksum.  `onesSum` adds words and brings every carry around;
it is the plain sum, reduced modulo `2 ^ 16 - 1` to a representative that is zero only for the
sum zero (`onesSum_words16`).  Adding the carries only at the end comes to the same when the sum
has at most 32 bits, and then twice is enough (`foldCarries_eq`).  The complement of a sum makes
it all ones (`reduce16_add_complement`).
-/

set_option autoImplicit false

namespace Library

/-- The sum of two words, with the carry added at the low end. -/
def onesAdd (a b : ℕ) : ℕ := if a + b < 65536 then a + b else a + b - 65535

/-- The one's-complement sum. -/
def onesSum (ws : List ℕ) : ℕ := ws.foldl onesAdd 0

/-- The little-endian words of a buffer, an odd last byte padded with zero. -/
def words16 : List UInt8 → List ℕ
  | a :: b :: s => (a.toNat + 256 * b.toNat) :: words16 s
  | [a] => [a.toNat]
  | [] => []

/-- The plain sum of the words. -/
def wordTotal : List UInt8 → ℕ
  | a :: b :: s => a.toNat + 256 * b.toNat + wordTotal s
  | [a] => a.toNat
  | [] => 0

/-- The number modulo `2 ^ 16 - 1`, all ones instead of zero unless it is zero. -/
def reduce16 (n : ℕ) : ℕ := if n = 0 then 0 else (n - 1) % 65535 + 1

/-- Adding the high word to the low word, twice. -/
def foldCarries (s : ℕ) : ℕ :=
  let t := s / 65536 + s % 65536
  (t + t / 65536) % 65536

theorem reduce16_le (n : ℕ) : reduce16 n ≤ 65535 := by
  unfold reduce16
  split <;> omega

/-- INTERNAL: one more word. -/
theorem onesAdd_reduce16 (n : ℕ) {w : ℕ} (hw : w < 65536) :
    onesAdd (reduce16 n) w = reduce16 (n + w) := by
  unfold onesAdd reduce16
  split <;> split <;> split <;> omega

/-- INTERNAL: **two rounds bring every carry around** when the sum has 32 bits. -/
theorem foldCarries_eq {s : ℕ} (hs : s < 2 ^ 32) : foldCarries s = reduce16 s := by
  have hfold : ∀ t, t ≤ 131070 → (t + t / 65536) % 65536 = if t < 65536 then t else t - 65535 := by
    intro t ht
    split <;> omega
  have hvalue : s = 65535 * (s / 65536) + (s / 65536 + s % 65536) := by omega
  have hround : s / 65536 + s % 65536 ≤ 131070 := by omega
  have hhi : s / 65536 ≤ s / 65536 + s % 65536 := Nat.le_add_right _ _
  unfold foldCarries reduce16
  dsimp only
  rw [hfold _ hround]
  generalize s / 65536 = hi at hvalue hround hhi ⊢
  generalize hi + s % 65536 = t at hvalue hround hhi ⊢
  by_cases hs0 : s = 0
  · rw [if_pos hs0, if_pos (by omega)]
    omega
  · rw [if_neg hs0]
    -- One carry at most is left behind the first round.
    by_cases hcarry : t < 65536
    · rw [if_pos hcarry, show s - 1 = 65535 * hi + (t - 1) by omega, Nat.mul_add_mod,
        Nat.mod_eq_of_lt (by omega)]
      omega
    · rw [if_neg hcarry, show s - 1 = 65535 * (hi + 1) + (t - 65536) by omega, Nat.mul_add_mod,
        Nat.mod_eq_of_lt (by omega)]
      omega

/-- INTERNAL: the complement of a sum makes it all ones. -/
theorem reduce16_add_complement (n : ℕ) : reduce16 (n + (65535 - reduce16 n)) = 65535 := by
  unfold reduce16
  split <;> split <;> omega

/-- INTERNAL: the sum is all ones exactly when it is a positive multiple of that. -/
theorem reduce16_eq_ones_iff (n : ℕ) :
    reduce16 n = 65535 ↔ 0 < n ∧ n % 65535 = 0 := by
  unfold reduce16
  split <;> omega

theorem foldl_onesAdd (s : List UInt8) (n : ℕ) :
    (words16 s).foldl onesAdd (reduce16 n) = reduce16 (n + wordTotal s) := by
  induction s using words16.induct generalizing n with
  | case1 a b s ih =>
      have ha := a.toNat_lt
      have hb := b.toNat_lt
      rw [words16, List.foldl_cons, onesAdd_reduce16 n (by omega), ih, wordTotal, Nat.add_assoc]
  | case2 a =>
      have ha := a.toNat_lt
      rw [words16, List.foldl_cons, onesAdd_reduce16 n (by omega)]
      rfl
  | case3 => rfl

/-- **The one's-complement sum of a buffer** is its plain sum, reduced. -/
theorem onesSum_words16 (s : List UInt8) : onesSum (words16 s) = reduce16 (wordTotal s) := by
  have h := foldl_onesAdd s 0
  rwa [Nat.zero_add] at h

/-- INTERNAL: a bound on the plain sum. -/
theorem wordTotal_le (s : List UInt8) : wordTotal s ≤ 65535 * ((s.length + 1) / 2) := by
  induction s using words16.induct with
  | case1 a b s ih =>
      have ha := a.toNat_lt
      have hb := b.toNat_lt
      rw [wordTotal, List.length_cons, List.length_cons]
      omega
  | case2 a =>
      have ha := a.toNat_lt
      rw [wordTotal, List.length_singleton]
      omega
  | case3 => exact Nat.zero_le _

/-- INTERNAL: buffers of even length add up. -/
theorem wordTotal_append {s : List UInt8} (k : ℕ) (hs : s.length = 2 * k) (t : List UInt8) :
    wordTotal (s ++ t) = wordTotal s + wordTotal t := by
  induction s using words16.induct generalizing k with
  | case1 a b s ih =>
      rw [List.length_cons, List.length_cons] at hs
      have hk : s.length = 2 * (k - 1) := by omega
      rw [List.cons_append, List.cons_append, wordTotal, wordTotal, ih (k - 1) hk, ← Nat.add_assoc]
  | case2 a =>
      rw [List.length_singleton] at hs
      omega
  | case3 => exact (Nat.zero_add _).symm

end Library
