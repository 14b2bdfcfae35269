import Mathlib.Tactic.Ring
import VtRouter.Model.Command

/-!
# What the command parser reads, as functions of the text

`Model.getNextCommandTuple` walks pointers through a buffer and can fault.  Here the same
tuple is a total function `tupleAt` of the text before the terminating NUL and of the
resume position, and `getNextCommandTuple_eq_tupleAt` says that the parser computes it on
every text, without a fault and without a look at what follows the terminator.  Everything
said about the parser elsewhere goes through this rung.
-/

set_option autoImplicit false

namespace VtRouter.Interface

open Library VtRouter.Model

/-- The value `str_to_i` gives to a run of digits. -/
def digitsValue (p : List UInt8) : ℤ := wrap32 (numeral (p.takeWhile isDigit) 0)

/-- The offset `get_next_value` finds from index `i` on: behind the first character that
is no digit, provided a character follows it. -/
def nextValue (p : List UInt8) (i : ℤ) : ℤ :=
  match p.dropWhile isDigit with
  | _ :: _ :: _ => i + (p.takeWhile isDigit).length + 1
  | _ => -1

/-- The tuple at position `r` of a text.
SOURCE: router_app_vt.c:53-89 -/
def tupleAt (s : List UInt8) (r : ℕ) : CommandTuple :=
  if s.drop r = bytes "STOP" then ⟨-1, -1, 0⟩
  else match s.drop r with
    | [] => ⟨-1, 0, 0⟩
    | c :: p =>
        if c ≠ ch '|' then ⟨-1, 0, 0⟩
        else match p.dropWhile isDigit with
          | _ :: d :: q =>
              ⟨(r + (p.takeWhile isDigit).length + 2 : ℕ) + nextValue q 1 - 1,
                digitsValue p, toU32 (digitsValue (d :: q))⟩
          | _ => ⟨-1, 0, 0⟩

/-- INTERNAL: one more digit, in wrapped and in unbounded arithmetic.
SOURCE: utils.c:78-79 -/
theorem wrap32_digit (n : ℕ) {c : UInt8} (h : isDigit c = true) :
    wrap32 (wrap32 (wrap32 (10 * wrap32 n) + c.toNat) - '0'.toNat) =
      wrap32 ((10 * n + (c.toNat - '0'.toNat) : ℕ)) := by
  have hle : '0'.toNat ≤ c.toNat := by
    simp only [isDigit, Bool.and_eq_true, decide_eq_true_eq] at h
    exact h.1
  simp only [wrap32_mul_wrap32, wrap32_wrap32_add, wrap32_wrap32_sub]
  congr 1
  simp only [Char.reduceToNat] at hle ⊢
  omega

/-- INTERNAL: the loop of `str_to_i` reads the digits in front and stops at the next
character, which a terminator guarantees.
SOURCE: utils.c:73-81 -/
theorem strToILoop_eq (p t : List UInt8) (n : ℕ) :
    strToILoop (p ++ 0 :: t) (wrap32 n) = .ok (wrap32 (numeral (p.takeWhile isDigit) n)) := by
  induction p generalizing n with
  | nil =>
      have h0 : isDigit 0 = false := by decide
      simp [strToILoop, h0]
  | cons c p ih =>
      by_cases hc : isDigit c = true
      · rw [List.takeWhile_cons_of_pos hc, numeral_cons, List.cons_append]
        simp only [strToILoop, if_pos hc]
        rw [wrap32_digit n hc]
        exact ih _
      · rw [List.takeWhile_cons_of_neg hc, List.cons_append]
        simp only [strToILoop, if_neg hc, numeral_nil]

/-- INTERNAL: `str_to_i` on a NUL-terminated text.
SOURCE: utils.c:73-81 -/
theorem strToI_eq (p t : List UInt8) : strToI (p ++ 0 :: t) = .ok (digitsValue p) := by
  have h := strToILoop_eq p t 0
  rwa [show wrap32 ((0 : ℕ) : ℤ) = 0 from by decide] at h

/-- INTERNAL: the loop of `get_next_value` on a NUL-terminated text.
SOURCE: router_app_vt.c:39-50 -/
theorem getNextValueLoop_eq (p t : List UInt8) (hp : 0 ∉ p) (i : ℤ) :
    getNextValueLoop (p ++ 0 :: t) i = .ok (nextValue p i) := by
  induction p generalizing i with
  | nil =>
      have h0 : isDigit 0 = false := by decide
      simp [getNextValueLoop, nextValue, h0]
  | cons c p ih =>
      have hc0 : c ≠ 0 := fun h => hp (by simp [h])
      have hp' : 0 ∉ p := fun h => hp (by simp [h])
      by_cases hc : isDigit c = true
      · have hrest := ih hp' (i + 1)
        rw [List.cons_append]
        simp only [getNextValueLoop, if_pos hc, hrest]
        unfold nextValue
        rw [List.dropWhile_cons_of_pos hc, List.takeWhile_cons_of_pos hc]
        split
        · congr 1
          rw [List.length_cons]
          push_cast
          ring
        · rfl
      · rw [List.cons_append]
        simp only [getNextValueLoop, if_neg hc, if_neg hc0]
        unfold nextValue
        rw [List.dropWhile_cons_of_neg hc, List.takeWhile_cons_of_neg hc]
        cases p with
        | nil => rfl
        | cons d p =>
            have hd0 : d ≠ 0 := fun h => hp' (by simp [h])
            simp only [List.cons_append, deref_cons, ok_bind, if_neg hd0, List.length_nil,
              Nat.cast_zero, add_zero]
            rfl

/-- INTERNAL: `get_next_value` never looks at the first character of its text.
SOURCE: router_app_vt.c:36-51 -/
theorem getNextValue_eq (c : UInt8) (p t : List UInt8) (hp : 0 ∉ p) :
    getNextValue (c :: (p ++ 0 :: t)) = .ok (nextValue p 1) := by
  have hadd := ptrAdd_append [c] (p ++ 0 :: t) 1 (by simp)
  unfold getNextValue
  rw [show c :: (p ++ 0 :: t) = [c] ++ (p ++ 0 :: t) from rfl, hadd, ok_bind]
  exact getNextValueLoop_eq p t hp 1

/-- INTERNAL: the position behind the pid and its separator.
SOURCE: router_app_vt.c:72-80 -/
theorem drop_behind_separator {s p q : List UInt8} {r : ℕ} {c e d : UInt8}
    (hs : s.drop r = c :: p) (hp : p.dropWhile isDigit = e :: d :: q) :
    s.drop (r + (p.takeWhile isDigit).length + 2) = d :: q ∧
      r + (p.takeWhile isDigit).length + 2 < s.length := by
  have htake : p = p.takeWhile isDigit ++ e :: d :: q := by
    conv_lhs => rw [← List.takeWhile_append_dropWhile (p := isDigit) (l := p), hp]
  have hsplit : s.drop r = (c :: p.takeWhile isDigit ++ [e]) ++ d :: q := by
    rw [hs]
    conv_lhs => rw [htake]
    simp
  have hdrop : s.drop (r + (p.takeWhile isDigit).length + 2) = d :: q := by
    have h := congrArg (List.drop ((p.takeWhile isDigit).length + 2)) hsplit
    rw [List.drop_drop, List.drop_left' (by simp)] at h
    rw [← h]
    congr 1
  refine ⟨hdrop, ?_⟩
  by_contra hge
  rw [List.drop_eq_nil_of_le (by omega)] at hdrop
  cases hdrop

/-- INTERNAL: a NUL-free text keeps being NUL-free from any position on. -/
theorem noNul_drop {s : List UInt8} (hs : 0 ∉ s) (r : ℕ) : 0 ∉ s.drop r :=
  fun h => hs (List.mem_of_mem_drop h)

/-- INTERNAL: the pid field ends where the digits end, and a value is read there only if a
separator and at least one more character follow.
SOURCE: router_app_vt.c:67-88 -/
theorem getNextCommandTuple_bar {s p : List UInt8} (hs : 0 ∉ s) (t : List UInt8) {r : ℕ}
    (hr : r ≤ s.length) (hp : s.drop r = ch '|' :: p) :
    getNextCommandTuple (s ++ 0 :: t) r = .ok (tupleAt s r) := by
  have hfree : 0 ∉ p := fun h => noNul_drop hs r (by simp [hp, h])
  have hstop : ch '|' :: p ≠ bytes "STOP" := by
    intro h
    exact absurd (congrArg List.head? h) (by simp [bytes]; decide)
  obtain ⟨d, hcmp, hd⟩ := strcmp_terminated (ch '|' :: p) (bytes "STOP")
    (hp ▸ noNul_drop hs r) (by decide) t []
  have hd0 : ¬(d = 0 ∨ (r : ℤ) < 0) := by
    rintro (h | h)
    · exact hstop (hd.mp h)
    · omega
  have hptr : ptrAdd (s ++ 0 :: t) r = .ok (ch '|' :: (p ++ 0 :: t)) := by
    rw [ptrAdd_drop s _ r hr, hp, List.cons_append]
  have hptr₁ : ptrAdd (ch '|' :: (p ++ 0 :: t)) 1 = .ok (p ++ 0 :: t) :=
    ptrAdd_append [ch '|'] (p ++ 0 :: t) 1 (by simp)
  have hbar : ¬(ch '|' ≠ ch '|' ∨ ch '|' = 0) := by decide
  unfold getNextCommandTuple
  rw [hptr, ok_bind, ← List.cons_append, hcmp, ok_bind, if_neg hd0, List.cons_append,
    deref_cons, ok_bind, if_neg hbar, hptr₁, ok_bind, strToI_eq, ok_bind,
    getNextValue_eq _ _ _ hfree, ok_bind]
  unfold tupleAt
  rw [hp, if_neg hstop]
  simp only [ne_eq, not_true_eq_false, if_false]
  unfold nextValue
  split
  · rename_i e d' q hq
    obtain ⟨hdrop, hlt⟩ := drop_behind_separator hp hq
    have hne : ¬(1 + ((p.takeWhile isDigit).length : ℤ) + 1 = -1) := by omega
    have hidx : (1 + ((p.takeWhile isDigit).length : ℤ) + 1 + r) =
        (r + (p.takeWhile isDigit).length + 2 : ℕ) := by
      push_cast
      ring
    have hq0 : 0 ∉ q := fun h => noNul_drop hs (r + (p.takeWhile isDigit).length + 2) (by
      rw [hdrop]
      exact List.mem_cons_of_mem d' h)
    rw [if_neg hne]
    simp only [hidx]
    rw [ptrAdd_drop s _ _ hlt.le, hdrop, ok_bind, strToI_eq, ok_bind, List.cons_append,
      getNextValue_eq _ _ _ hq0, ok_bind]
    rfl
  · rfl

/-- **The parser computes `tupleAt`** on every NUL-terminated text and at every position up
to the terminator, whatever bytes follow.
SOURCE: router_app_vt.c:53-89 -/
theorem getNextCommandTuple_eq_tupleAt {s : List UInt8} (hs : 0 ∉ s) (t : List UInt8) {r : ℕ}
    (hr : r ≤ s.length) : getNextCommandTuple (s ++ 0 :: t) r = .ok (tupleAt s r) := by
  by_cases hbar : ∃ p, s.drop r = ch '|' :: p
  · obtain ⟨p, hp⟩ := hbar
    exact getNextCommandTuple_bar hs t hr hp
  obtain ⟨d, hcmp, hd⟩ := strcmp_terminated (s.drop r) (bytes "STOP") (noNul_drop hs r)
    (by decide) t []
  unfold getNextCommandTuple tupleAt
  rw [ptrAdd_drop s _ r hr, ok_bind, hcmp, ok_bind]
  by_cases hstop : s.drop r = bytes "STOP"
  · rw [if_pos (Or.inl (hd.mpr hstop)), if_pos hstop]
    rfl
  have hd0 : ¬(d = 0 ∨ (r : ℤ) < 0) := by
    rintro (h | h)
    · exact hstop (hd.mp h)
    · omega
  rw [if_neg hd0, if_neg hstop]
  cases hp : s.drop r with
  | nil =>
      simp only [List.nil_append, deref_cons, ok_bind]
      rfl
  | cons c p =>
      have hc : c ≠ ch '|' := fun h => hbar ⟨p, by rw [hp, h]⟩
      simp only [List.cons_append, deref_cons, ok_bind, if_pos (Or.inl hc), if_pos hc]
      rfl

end VtRouter.Interface
