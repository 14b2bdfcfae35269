import VtRouter.Library.CText

/-!
# Hexadecimal text

What `%02x` and `%02X` print (`hexText`), the value of a digit of either case (`hexVal`), and
`strtol` with base sixteen.  A byte prints as two digits that denote its halves
(`hexText_byte`), so two digits read back as the byte; a larger number prints longer
(`two_lt_length_hexText`).
-/

set_option autoImplicit false

namespace Library

/-- What `sprintf` prints for `%02x`, or for `%02X` in upper case. -/
def hexText (upper : Bool) (n : ℕ) : List UInt8 :=
  let digits := (Nat.toDigits 16 n).map fun c => ch (if upper then c.toUpper else c)
  List.replicate (2 - digits.length) (ch '0') ++ digits

/-- The value of a hexadecimal digit of either case. -/
def hexVal (c : UInt8) : Option ℕ :=
  if isDigit c then some (c.toNat - '0'.toNat)
  else if 'a'.toNat ≤ c.toNat ∧ c.toNat ≤ 'f'.toNat then some (c.toNat - 'a'.toNat + 10)
  else if 'A'.toNat ≤ c.toNat ∧ c.toNat ≤ 'F'.toNat then some (c.toNat - 'A'.toNat + 10)
  else none

/-- The number a run of digits denotes when it is read behind the digits of `n`. -/
def hexNumeral : List UInt8 → ℕ → ℕ
  | [], n => n
  | c :: s, n =>
      match hexVal c with
      | some d => hexNumeral s (16 * n + d)
      | none => n

/-- An optional `0x` in front of a digit is skipped. -/
def skip0x : List UInt8 → List UInt8
  | z :: x :: c :: s =>
      if z = ch '0' ∧ (x = ch 'x' ∨ x = ch 'X') ∧ (hexVal c).isSome then c :: s else z :: x :: c :: s
  | s => s

/-- `strtol` with base sixteen, on a 64-bit `long`: skip white space, accept one sign, read
digits up to the first other byte; the text must be terminated. -/
def strtol16 (s : List UInt8) : Except Fault ℤ :=
  let value : ℤ := match s.dropWhile isSpace with
    | [] => 0
    | c :: t =>
        if c = ch '-' then -(hexNumeral (skip0x t) 0 : ℕ)
        else if c = ch '+' then (hexNumeral (skip0x t) 0 : ℕ)
        else (hexNumeral (skip0x (c :: t)) 0 : ℕ)
  if 0 ∈ s then .ok (max (-2 ^ 63) (min value (2 ^ 63 - 1))) else .error .outOfBounds

/-- INTERNAL: two digits, for the two halves of the number. -/
theorem hexText_digits : ∀ upper, ∀ n < 256,
    (hexText upper n).map hexVal = [some (n / 16), some (n % 16)] := by
  decide +kernel

/-- **A byte prints as two digits.** -/
theorem hexText_byte (upper : Bool) {n : ℕ} (hn : n < 256) :
    ∃ hi lo, hexText upper n = [hi, lo] ∧ hexVal hi = some (n / 16) ∧ hexVal lo = some (n % 16) := by
  obtain ⟨hi, rest, htext, hhi, hrest⟩ := List.map_eq_cons_iff.mp (hexText_digits upper n hn)
  obtain ⟨lo, tail, rfl, hlo, htail⟩ := List.map_eq_cons_iff.mp hrest
  rw [List.map_eq_nil_iff.mp htail] at htext
  exact ⟨hi, lo, htext, hhi, hlo⟩

theorem length_hexText_byte (upper : Bool) {n : ℕ} (hn : n < 256) :
    (hexText upper n).length = 2 := by
  obtain ⟨hi, lo, htext, -, -⟩ := hexText_byte upper hn
  rw [htext]
  rfl

/-- INTERNAL: a number that is no byte prints longer. -/
theorem two_lt_length_hexText (upper : Bool) {n : ℕ} (hn : 256 ≤ n) :
    2 < (hexText upper n).length := by
  have hlong : ¬(Nat.toDigits 16 n).length ≤ 2 := by
    rw [Nat.length_toDigits_le_iff (by norm_num) (by norm_num)]
    omega
  unfold hexText
  simp only [List.length_append, List.length_map]
  omega

/-- INTERNAL: what is printed for a byte are digits. -/
theorem hexVal_of_mem_hexText {upper : Bool} {n : ℕ} (hn : n < 256) {c : UInt8}
    (hc : c ∈ hexText upper n) : (hexVal c).isSome = true := by
  obtain ⟨hi, lo, htext, hhi, hlo⟩ := hexText_byte upper hn
  rw [htext] at hc
  rcases List.mem_pair.mp hc with rfl | rfl
  · rw [hhi]
    rfl
  · rw [hlo]
    rfl

/-- INTERNAL: a digit is no white space. -/
theorem isSpace_of_hexVal {c : UInt8} (h : (hexVal c).isSome = true) : isSpace c = false := by
  by_contra hspace
  have hcode : c.toNat ≤ 32 := by
    simp only [isSpace, Bool.not_eq_false, Bool.or_eq_true, decide_eq_true_eq,
      Bool.and_eq_true] at hspace
    omega
  have hdigit : ¬isDigit c = true := by
    simp only [isDigit, Char.reduceToNat, Bool.and_eq_true, decide_eq_true_eq]
    omega
  unfold hexVal at h
  rw [if_neg hdigit, if_neg (by simp only [Char.reduceToNat]; omega),
    if_neg (by simp only [Char.reduceToNat]; omega)] at h
  cases h

/-- **Reading back a byte**: the two digits printed for it, in front of the end of the text. -/
theorem strtol16_hexText (upper : Bool) {n : ℕ} (hn : n < 256) (t : List UInt8) :
    strtol16 (hexText upper n ++ 0 :: t) = .ok n := by
  obtain ⟨hi, lo, htext, hhi, hlo⟩ := hexText_byte upper hn
  have hspace : isSpace hi = false := isSpace_of_hexVal (by rw [hhi]; rfl)
  have hother : ∀ {c d : UInt8} {v : ℕ}, hexVal d = some v → hexVal c = none → d ≠ c := by
    intro c d v hd hc heq
    rw [heq, hc] at hd
    cases hd
  have hminus : hi ≠ ch '-' := hother hhi (by decide)
  have hplus : hi ≠ ch '+' := hother hhi (by decide)
  have hskip : skip0x (hi :: lo :: 0 :: t) = hi :: lo :: 0 :: t := by
    rw [skip0x, if_neg]
    rintro ⟨-, h | h, -⟩
    · exact hother hlo (by decide) h
    · exact hother hlo (by decide) h
  have hend : hexVal 0 = none := by decide
  have hvalue : hexNumeral (hi :: lo :: 0 :: t) 0 = n := by
    simp only [hexNumeral, hhi, hlo, hend]
    omega
  unfold strtol16
  rw [htext, List.cons_append, List.cons_append, List.nil_append,
    List.dropWhile_cons_of_neg (by simp [hspace])]
  simp only [if_neg hminus, if_neg hplus, hskip, hvalue, List.mem_cons, true_or, or_true, if_true]
  congr 1
  omega

end Library
