import VtRouter.Interface.CommandReading

/-!
# The command loop

`ack_and_get_next_command` (router_app_vt.c:193-236) on the text the kernel leaves in its
buffer.

* **Totality** (`command_loop_total`): on every NUL-terminated text the loop ends after at
  most one iteration per character and one more, reads nothing behind the terminator and
  never resumes at a negative position.  The resume position is not monotone in the
  offsets `get_next_value` returns: a failed look-ahead answers `-1` and moves it two
  characters back from the value just read.  But that is at least the last digit of the
  pid, and a tuple without pid digits has pid `0` and ends the loop
  (`tupleAt_progress`).
* **Delivery** (`command_loop_delivers`): on a well-formed tuple list every tuple is taken
  over once, in order.  The jump back from the last tuple lands on the last digit of its
  pid, which is no bar, so the next call ends the loop (`tupleAt_digit`).
-/

set_option autoImplicit false

namespace VtRouter.Analysis

open Library VtRouter.Model VtRouter.Interface

/-! ## One tuple -/

/-- INTERNAL: what stands behind the first part of a text. -/
theorem drop_append_of_drop {s front t : List UInt8} {r : ℕ} (hs : s.drop r = front ++ t) :
    s.drop (r + front.length) = t := by
  rw [← List.drop_drop, hs, List.drop_left]

/-- INTERNAL: a position at which something stands is inside the text. -/
theorem le_length_of_drop {s q : List UInt8} {r : ℕ} {c : UInt8} (hs : s.drop r = c :: q) :
    r ≤ s.length := by
  by_contra hlt
  rw [List.drop_eq_nil_of_le (by omega)] at hs
  cases hs

/-- INTERNAL: the offset behind a separator stays inside the text.
SOURCE: router_app_vt.c:36-51 -/
theorem nextValue_bounds (q : List UInt8) :
    nextValue q 1 = -1 ∨ 2 ≤ nextValue q 1 ∧ nextValue q 1 ≤ q.length := by
  unfold nextValue
  split
  · rename_i e d q' hq
    right
    have hlen := congrArg List.length (List.takeWhile_append_dropWhile (p := isDigit) (l := q))
    rw [List.length_append, hq] at hlen
    simp only [List.length_cons] at hlen
    omega
  · exact Or.inl rfl

/-- INTERNAL: the separator is followed by the count, and where at least two characters follow
the count the loop resumes behind it.
SOURCE: router_app_vt.c:80-85 -/
theorem nextValue_of_long {q : List UInt8} (h : 2 ≤ (q.dropWhile isDigit).length) :
    nextValue q 1 = 1 + (q.takeWhile isDigit).length + 1 := by
  unfold nextValue
  split
  · rfl
  · rename_i hshort
    rcases hrest : q.dropWhile isDigit with - | ⟨x, - | ⟨y, rest⟩⟩
    · simp [hrest] at h
    · simp [hrest] at h
    · exact absurd hrest (hshort x y rest)

/-- INTERNAL: otherwise it steps back over the separator.
SOURCE: router_app_vt.c:80-85 -/
theorem nextValue_of_short {q : List UInt8} (h : (q.dropWhile isDigit).length < 2) :
    nextValue q 1 = -1 := by
  unfold nextValue
  split
  · rename_i x y rest hrest
    rw [hrest] at h
    simp only [List.length_cons] at h
    omega
  · rfl

/-- INTERNAL: the tuple behind a bar and a pid with a separator.
SOURCE: router_app_vt.c:71-88 -/
theorem tupleAt_bar {s p q : List UInt8} {r : ℕ} {e d : UInt8} (hs : s.drop r = ch '|' :: p)
    (hq : p.dropWhile isDigit = e :: d :: q) :
    tupleAt s r = ⟨(r + (p.takeWhile isDigit).length + 2 : ℕ) + nextValue q 1 - 1,
      digitsValue p, toU32 (digitsValue (d :: q))⟩ := by
  have hstop : s.drop r ≠ bytes "STOP" := by
    rw [hs]
    intro h
    exact absurd (List.cons.inj h).1 (by decide)
  unfold tupleAt
  rw [if_neg hstop, hs]
  simp only [ne_eq, not_true_eq_false, if_false, hq]

/-- INTERNAL: without a bar, or without a separator behind the pid, no tuple is read.
SOURCE: router_app_vt.c:67-78 -/
theorem tupleAt_none {s : List UInt8} {r : ℕ} (hstop : s.drop r ≠ bytes "STOP")
    (hs : ∀ p, s.drop r = ch '|' :: p → ¬∃ e d q, p.dropWhile isDigit = e :: d :: q) :
    tupleAt s r = ⟨-1, 0, 0⟩ := by
  unfold tupleAt
  rw [if_neg hstop]
  cases hp : s.drop r with
  | nil => rfl
  | cons c p =>
      by_cases hc : c = ch '|'
      · subst hc
        have hshort := hs p hp
        simp only [ne_eq, not_true_eq_false, if_false]
        split
        · rename_i e d q hq
          exact absurd ⟨e, d, q, hq⟩ hshort
        · rfl
      · exact if_pos hc

/-- INTERNAL: a position inside a number starts no tuple.
SOURCE: router_app_vt.c:58-68 -/
theorem tupleAt_digit {s : List UInt8} {r : ℕ} {c : UInt8} {q : List UInt8}
    (hs : s.drop r = c :: q) (hc : isDigit c = true) : tupleAt s r = ⟨-1, 0, 0⟩ := by
  apply tupleAt_none
  · rw [hs]
    intro h
    cases (List.cons.inj h).1
    exact absurd hc (by decide)
  · intro p hp
    rw [hs] at hp
    cases hp
    exact absurd hc (by decide)

/-- INTERNAL: a pid that is not 0 has a last digit, and the loop ends where it stands.
SOURCE: router_app_vt.c:67-68 -/
theorem tupleAt_lastPidDigit {s p : List UInt8} {r : ℕ} (hs : s.drop r = ch '|' :: p)
    (hpid : digitsValue p ≠ 0) :
    tupleAt s (r + (p.takeWhile isDigit).length) = ⟨-1, 0, 0⟩ := by
  have hne : p.takeWhile isDigit ≠ [] := by
    intro hnil
    apply hpid
    unfold digitsValue
    rw [hnil]
    decide
  obtain ⟨ds, d, hd⟩ := (List.eq_nil_or_concat' (p.takeWhile isDigit)).resolve_left hne
  have hdigit : isDigit d = true := by
    apply List.mem_takeWhile_imp (l := p)
    rw [hd]
    simp
  have hsplit : s.drop r = (ch '|' :: ds) ++ d :: p.dropWhile isDigit := by
    rw [hs]
    conv_lhs => rw [← List.takeWhile_append_dropWhile (p := isDigit) (l := p), hd]
    simp
  have hlen : (p.takeWhile isDigit).length = (ch '|' :: ds).length := by simp [hd]
  rw [hlen]
  exact tupleAt_digit (drop_append_of_drop hsplit) hdigit

/-- INTERNAL: **progress**.  Behind a tuple with a pid other than `0` the loop resumes further
right and still inside the text.
SOURCE: router_app_vt.c:53-89 -/
theorem tupleAt_progress (s : List UInt8) (r : ℕ) (hstop : s.drop r ≠ bytes "STOP")
    (hpid : (tupleAt s r).pid ≠ 0) :
    ∃ r' : ℕ, (tupleAt s r).resumePtr = r' ∧ r < r' ∧ r' ≤ s.length := by
  by_cases htext : ∃ p, s.drop r = ch '|' :: p ∧ ∃ e d q, p.dropWhile isDigit = e :: d :: q
  · obtain ⟨p, hp, e, d, q, hq⟩ := htext
    obtain ⟨hdrop, hlt⟩ := drop_behind_separator hp hq
    rw [tupleAt_bar hp hq] at hpid ⊢
    dsimp only at hpid ⊢
    have hdigits : 0 < (p.takeWhile isDigit).length := by
      by_contra h0
      have hnil : p.takeWhile isDigit = [] := List.eq_nil_of_length_eq_zero (by omega)
      apply hpid
      simp [digitsValue, hnil, wrap32]
    have hlen := congrArg List.length hdrop
    rw [List.length_drop, List.length_cons] at hlen
    rcases nextValue_bounds q with hv | ⟨hlo, hhi⟩
    · refine ⟨r + (p.takeWhile isDigit).length, ?_, by omega, by omega⟩
      rw [hv]
      push_cast
      ring
    · refine ⟨r + (p.takeWhile isDigit).length + 2 + (nextValue q 1).toNat - 1, ?_, ?_, ?_⟩
      · have hcast : ((nextValue q 1).toNat : ℤ) = nextValue q 1 := Int.toNat_of_nonneg (by omega)
        omega
      · omega
      · omega
  · exfalso
    apply hpid
    rw [tupleAt_none hstop fun p hp hex => htext ⟨p, hp, hex⟩]

/-! ## One iteration -/

/-- INTERNAL: one iteration reads the tuple at its position.
SOURCE: router_app_vt.c:212-229 -/
theorem ackLoop_succ {s : List UInt8} (hs : 0 ∉ s) (t : List UInt8) {r : ℕ} (hr : r ≤ s.length)
    (adv : ℤ) (fuel : ℕ) :
    ackLoop (s ++ 0 :: t) (fuel + 1) r adv = (do
      if (tupleAt s r).resumePtr = -1 ∧ (tupleAt s r).pid = -1 then
        return ⟨-1, [], [(r : ℤ)]⟩
      if (tupleAt s r).pid = 0 then
        return ⟨clampAdvance adv, [], [(r : ℤ)]⟩
      let a ← ackLoop (s ++ 0 :: t) fuel (tupleAt s r).resumePtr (advanceOf (tupleAt s r).nInsns)
      return ⟨a.ret, ((tupleAt s r).pid, (tupleAt s r).nInsns) :: a.delivered,
        (r : ℤ) :: a.resumes⟩) := by
  have hr1 : (r : ℤ) ≠ -1 := by omega
  rw [ackLoop, if_neg hr1, getNextCommandTuple_eq_tupleAt hs t hr, ok_bind]

/-- INTERNAL: the loop stops at a `STOP`.
SOURCE: router_app_vt.c:217-220 -/
theorem ackLoop_stop {s : List UInt8} (hs : 0 ∉ s) (t : List UInt8) {r : ℕ} (hr : r ≤ s.length)
    (hstop : s.drop r = bytes "STOP") (adv : ℤ) (fuel : ℕ) :
    ackLoop (s ++ 0 :: t) (fuel + 1) r adv = .ok ⟨-1, [], [(r : ℤ)]⟩ := by
  have htup : tupleAt s r = ⟨-1, -1, 0⟩ := if_pos hstop
  rw [ackLoop_succ hs t hr, htup, if_pos ⟨rfl, rfl⟩]
  rfl

/-- INTERNAL: the loop ends at a position without a tuple.
SOURCE: router_app_vt.c:222-223, 233-235 -/
theorem ackLoop_none {s : List UInt8} (hs : 0 ∉ s) (t : List UInt8) {r : ℕ} (hr : r ≤ s.length)
    (hpid : (tupleAt s r).pid = 0) (adv : ℤ) (fuel : ℕ) :
    ackLoop (s ++ 0 :: t) (fuel + 1) r adv = .ok ⟨clampAdvance adv, [], [(r : ℤ)]⟩ := by
  rw [ackLoop_succ hs t hr, if_neg (by omega), if_pos hpid]
  rfl

/-- INTERNAL: the loop takes a tuple over and goes on where the tuple says.
SOURCE: router_app_vt.c:212-229 -/
theorem ackLoop_tuple {s : List UInt8} (hs : 0 ∉ s) (t : List UInt8) {r r' : ℕ}
    (hr : r ≤ s.length) {pid n : ℤ} (htup : tupleAt s r = ⟨r', pid, n⟩) (hpid : pid ≠ 0)
    (adv : ℤ) (fuel : ℕ) :
    ackLoop (s ++ 0 :: t) (fuel + 1) r adv = (do
      let a ← ackLoop (s ++ 0 :: t) fuel r' (advanceOf n)
      return ⟨a.ret, (pid, n) :: a.delivered, (r : ℤ) :: a.resumes⟩) := by
  rw [ackLoop_succ hs t hr, htup]
  dsimp only
  rw [if_neg (by omega), if_neg hpid]

/-! ## Totality -/

/-- INTERNAL: from a position inside the text the loop ends with the same result whatever
bytes follow the terminator, and whatever bound on its iterations it is given beyond the
number of characters left.
SOURCE: router_app_vt.c:212-235 -/
theorem ackLoop_total {s : List UInt8} (hs : 0 ∉ s) (r : ℕ) (hr : r ≤ s.length) (adv : ℤ) :
    ∃ a : Ack, (∀ t fuel, s.length < fuel + r → ackLoop (s ++ 0 :: t) fuel r adv = .ok a) ∧
      ∀ x ∈ a.resumes, 0 ≤ x ∧ x ≤ s.length := by
  -- The distance to the terminator decreases with every iteration.
  induction hn : s.length - r using Nat.strong_induction_on generalizing r adv with
  | _ n ih =>
    have hpos : ∀ fuel, s.length < fuel + r → ∃ k, fuel = k + 1 :=
      fun fuel hfuel => ⟨fuel - 1, by omega⟩
    by_cases hstop : s.drop r = bytes "STOP"
    · refine ⟨⟨-1, [], [(r : ℤ)]⟩, ?_, by simp; omega⟩
      intro t fuel hfuel
      obtain ⟨fuel, rfl⟩ := hpos fuel hfuel
      exact ackLoop_stop hs t hr hstop adv fuel
    by_cases hpid : (tupleAt s r).pid = 0
    · refine ⟨⟨clampAdvance adv, [], [(r : ℤ)]⟩, ?_, by simp; omega⟩
      intro t fuel hfuel
      obtain ⟨fuel, rfl⟩ := hpos fuel hfuel
      exact ackLoop_none hs t hr hpid adv fuel
    obtain ⟨r', hres, hlt, hle⟩ := tupleAt_progress s r hstop hpid
    have htup : tupleAt s r = ⟨r', (tupleAt s r).pid, (tupleAt s r).nInsns⟩ := by rw [← hres]
    obtain ⟨a, ha, hbounds⟩ := ih (s.length - r') (by omega) r' hle
      (advanceOf (tupleAt s r).nInsns) rfl
    refine ⟨⟨a.ret, ((tupleAt s r).pid, (tupleAt s r).nInsns) :: a.delivered,
      (r : ℤ) :: a.resumes⟩, ?_, ?_⟩
    · intro t fuel hfuel
      obtain ⟨fuel, rfl⟩ := hpos fuel hfuel
      rw [ackLoop_tuple hs t hr htup hpid, ha t fuel (by omega)]
      rfl
    · intro x hx
      rcases List.mem_cons.mp hx with rfl | hx
      · omega
      · exact hbounds x hx

/-- **Totality of the command loop.**  For every NUL-terminated text `s` in the buffer, with
any bytes `t` behind the terminator, there is one result that the loop returns for every
bound on its iterations above the length of the text.  It returns the same result when the
buffer ends with the terminator, where a read at any index behind the terminator is a
fault; so no such index is read.  All resume positions are inside the text.
SOURCE: router_app_vt.c:209-230 -/
theorem command_loop_total (s t : List UInt8) (hs : 0 ∉ s) :
    ∃ a : Ack,
      (∀ fuel, s.length < fuel → ackLoop (s ++ 0 :: t) fuel 0 100 = .ok a) ∧
      (∀ fuel, s.length < fuel → ackLoop (s ++ [0]) fuel 0 100 = .ok a) ∧
      ackAndGetNextCommand (some (s ++ 0 :: t)) = .ok a ∧
      ackAndGetNextCommand (some (s ++ [0])) = .ok a ∧
      ∀ r ∈ a.resumes, 0 ≤ r ∧ r ≤ s.length := by
  obtain ⟨a, ha, hbounds⟩ := ackLoop_total hs 0 (Nat.zero_le _) 100
  refine ⟨a, ?_, ?_, ?_, ?_, hbounds⟩
  · intro fuel hfuel
    exact ha t fuel (by omega)
  · intro fuel hfuel
    exact ha [] fuel (by omega)
  · apply ha t
    simp only [List.length_append, List.length_cons]
    omega
  · apply ha []
    simp only [List.length_append, List.length_cons]
    omega

/-- The totality of the command loop on an empty field, a missing separator and a number
beyond `int`. -/
theorem command_loop_total_malformed :
    ∃ a : Ack, ackAndGetNextCommand (some (bytes "|4294967297,5||,STOP" ++ 0 :: [7, 7])) = .ok a ∧
      ∀ r ∈ a.resumes, 0 ≤ r := by
  obtain ⟨a, -, -, h, -, hb⟩ :=
    command_loop_total (bytes "|4294967297,5||,STOP") [7, 7] (by decide)
  exact ⟨a, h, fun r hr => (hb r hr).1⟩

/-! ## Budgets -/

/-- INTERNAL: what the last two statements make of an `int` is a nonnegative `int`.
SOURCE: router_app_vt.c:233-235 -/
theorem clampAdvance_range {x : ℤ} (hx : x < 2 ^ 31) :
    0 ≤ clampAdvance x ∧ clampAdvance x < 2 ^ 31 := by
  unfold clampAdvance
  split
  · norm_num
  · exact ⟨by omega, hx⟩

/-- INTERNAL: an instruction count in microseconds is an `int`.
SOURCE: router_app_vt.c:225 -/
theorem advanceOf_lt (n : ℤ) : advanceOf n < 2 ^ 31 := by
  obtain ⟨hlo, hhi⟩ := isInt32_wrap32 n
  unfold advanceOf
  by_cases hneg : wrap32 n < 0
  · have heq : (wrap32 n).tdiv 1000 = -(-wrap32 n / 1000) := by
      rw [← Int.tdiv_eq_ediv_of_nonneg (by omega), Int.neg_tdiv, neg_neg]
    rw [heq]
    norm_num at *
    omega
  · rw [Int.tdiv_eq_ediv_of_nonneg (by omega)]
    norm_num at *
    omega

/-- INTERNAL: whatever the buffer, the loop returns `-1` or a nonnegative `int`.
SOURCE: router_app_vt.c:212-235 -/
theorem ackLoop_range (buffer : List UInt8) (fuel : ℕ) (tailPtr adv : ℤ) (hadv : adv < 2 ^ 31)
    {a : Ack} (h : ackLoop buffer fuel tailPtr adv = .ok a) :
    a.ret = -1 ∨ 0 ≤ a.ret ∧ a.ret < 2 ^ 31 := by
  induction fuel generalizing tailPtr adv a with
  | zero => cases h
  | succ fuel ih =>
      rw [ackLoop] at h
      split at h
      · cases h
        exact Or.inr (clampAdvance_range hadv)
      · obtain ⟨t, -, h⟩ := exists_of_bind_ok h
        split at h
        · cases h
          exact Or.inl rfl
        · split at h
          · cases h
            exact Or.inr (clampAdvance_range hadv)
          · obtain ⟨r, hr, h⟩ := exists_of_bind_ok h
            cases h
            exact ih (a := r) _ _ (advanceOf_lt t.nInsns) hr

/-- **Budgets.**  Whatever the kernel leaves in the command buffer, main gets `-1` or a
nonnegative number of microseconds.
SOURCE: router_app_vt.c:193-236 -/
theorem ackAndGetNextCommand_range {payload : Option (List UInt8)} {a : Ack}
    (h : ackAndGetNextCommand payload = .ok a) : a.ret = -1 ∨ 0 ≤ a.ret ∧ a.ret < 2 ^ 31 := by
  cases payload with
  | none =>
      cases h
      exact Or.inr ⟨by norm_num, by norm_num⟩
  | some buffer => exact ackLoop_range buffer _ 0 100 (by norm_num) h

/-! ## Delivery -/

/-- INTERNAL: `str_to_i` reads a numeral back, as an `int`.
SOURCE: utils.c:73-81 -/
theorem digitsValue_numeral (n : ℕ) {t : List UInt8} (ht : NoDigitHead t) :
    digitsValue (decimal n ++ t) = wrap32 n := by
  unfold digitsValue
  rw [(takeWhile_decimal_append n ht).1, numeral_decimal]

theorem digitsValue_decimal {n : ℕ} (hn : n < 2 ^ 31) {t : List UInt8} (ht : NoDigitHead t) :
    digitsValue (decimal n ++ t) = n := by
  rw [digitsValue_numeral n ht]
  apply wrap32_of_isInt32
  unfold IsInt32
  omega

/-- INTERNAL: the assignment to an unsigned variable undoes the wrapping.
SOURCE: router_app_vt.c:81 -/
theorem toU32_digitsValue {n : ℕ} (hn : n < 2 ^ 32) {t : List UInt8} (ht : NoDigitHead t) :
    toU32 (digitsValue (decimal n ++ t)) = n := by
  rw [digitsValue_numeral n ht, toU32_wrap32]
  unfold toU32
  omega

theorem noDigitHead_commandText (tuples : List (ℕ × ℕ)) (finalBar : Bool) :
    NoDigitHead (commandText tuples finalBar) := by
  have hbar : ∀ t, NoDigitHead (ch '|' :: t) := noDigitHead_cons (by decide)
  cases tuples with
  | nil =>
      cases finalBar with
      | false => exact nofun
      | true => exact hbar []
  | cons x xs => exact hbar _

/-- INTERNAL: the tuple written at a position, with the text `t` behind it.  The loop
resumes at `t` when at least two characters follow, else two characters before the
instruction count.
SOURCE: router_app_vt.c:67-88 -/
theorem tupleAt_written {s t : List UInt8} {r p n : ℕ} (hp : p < 2 ^ 31) (hn : n < 2 ^ 32)
    (ht : NoDigitHead t)
    (hs : s.drop r = ch '|' :: (decimal p ++ ch ',' :: (decimal n ++ t))) :
    tupleAt s r = ⟨if 2 ≤ t.length then (r + (decimal p).length + 2 + (decimal n).length : ℕ)
      else (r + (decimal p).length : ℕ), p, n⟩ := by
  have hcomma : NoDigitHead (ch ',' :: (decimal n ++ t)) := noDigitHead_cons (by decide) _
  obtain ⟨htake, hdrop⟩ := takeWhile_decimal_append p hcomma
  obtain ⟨d, ds, hd⟩ := List.exists_cons_of_ne_nil (decimal_ne_nil n)
  have hds : ∀ c ∈ ds, isDigit c = true := by
    intro c hc
    apply isDigit_of_mem_decimal (n := n)
    rw [hd]
    exact List.mem_cons_of_mem d hc
  obtain ⟨htakeRest, hdropRest⟩ := takeWhile_digits_append hds ht
  have hnum : toU32 (digitsValue (d :: (ds ++ t))) = n := by
    rw [← List.cons_append, ← hd]
    exact toU32_digitsValue hn ht
  have hlen : (decimal n).length = ds.length + 1 := by rw [hd, List.length_cons]
  have hsep : (decimal p ++ ch ',' :: (decimal n ++ t)).dropWhile isDigit =
      ch ',' :: d :: (ds ++ t) := by
    rw [hdrop, hd, List.cons_append]
  rw [tupleAt_bar hs hsep, htake, hnum, digitsValue_decimal hp hcomma, hlen,
    CommandTuple.mk.injEq]
  refine ⟨?_, rfl, rfl⟩
  split
  · rename_i hlong
    rw [nextValue_of_long (by rw [hdropRest]; exact hlong), htakeRest]
    push_cast
    ring
  · rename_i hshort
    rw [nextValue_of_short (by rw [hdropRest]; omega)]
    push_cast
    ring

/-- INTERNAL: the first tuple of a command text. -/
theorem commandText_cons (x : ℕ × ℕ) (xs : List (ℕ × ℕ)) (finalBar : Bool) :
    commandText (x :: xs) finalBar =
      ch '|' :: (decimal x.1 ++ ch ',' :: (decimal x.2 ++ commandText xs finalBar)) := by
  simp [commandText]

theorem noNul_commandText (tuples : List (ℕ × ℕ)) (finalBar : Bool) :
    0 ∉ commandText tuples finalBar := by
  have hdec : ∀ n, (0 : UInt8) ∉ decimal n := by
    intro n h
    exact absurd (isDigit_of_mem_decimal h) (by decide)
  have hbar : (0 : UInt8) ≠ ch '|' := by decide
  have hcomma : (0 : UInt8) ≠ ch ',' := by decide
  induction tuples with
  | nil => cases finalBar <;> simp [commandText, hbar]
  | cons x xs ih => simp [commandText_cons, hdec, hbar, hcomma, ih]

/-- INTERNAL: a budget the parser can produce from an in-range count.
SOURCE: router_app_vt.c:225-235 -/
theorem clampAdvance_advanceOf {n : ℕ} (hn : n < 2 ^ 31) :
    clampAdvance (advanceOf n) = ((n / 1000 : ℕ) : ℤ) := by
  have hrange : IsInt32 (n : ℤ) := by
    unfold IsInt32
    omega
  unfold advanceOf clampAdvance
  rw [wrap32_of_isInt32 hrange, Int.tdiv_eq_ediv_of_nonneg (by omega)]
  rw [if_neg (by omega)]
  push_cast
  rfl

/-- INTERNAL: one iteration of the loop on a written tuple takes it over and goes on behind
it, or on the last digit of its pid when fewer than two characters follow.
SOURCE: router_app_vt.c:212-229 -/
theorem ackLoop_written {s t : List UInt8} (u : List UInt8) (hs0 : 0 ∉ s) {r p n : ℕ}
    (hp0 : 0 < p) (hp : p < 2 ^ 31) (hn : n < 2 ^ 32) (ht : NoDigitHead t)
    (hs : s.drop r = ch '|' :: (decimal p ++ ch ',' :: (decimal n ++ t))) (adv : ℤ) (fuel : ℕ) :
    ackLoop (s ++ 0 :: u) (fuel + 1) r adv = (do
      let a ← ackLoop (s ++ 0 :: u) fuel
        (if 2 ≤ t.length then (r + (decimal p).length + 2 + (decimal n).length : ℕ)
          else (r + (decimal p).length : ℕ)) (advanceOf n)
      return ⟨a.ret, ((p : ℤ), (n : ℤ)) :: a.delivered, (r : ℤ) :: a.resumes⟩) := by
  have htup := tupleAt_written hp hn ht hs
  rw [← Nat.cast_ite] at htup ⊢
  exact ackLoop_tuple hs0 u (le_length_of_drop hs) htup (by omega) adv fuel

/-- INTERNAL: the loop on the last tuple takes it over and ends.
SOURCE: router_app_vt.c:212-235 -/
theorem ackLoop_last {s : List UInt8} (u : List UInt8) (hs0 : 0 ∉ s) (finalBar : Bool)
    {p n : ℕ} (hp0 : 0 < p) (hp : p < 2 ^ 31) (hn : n < 2 ^ 32) {r : ℕ} (adv : ℤ) {fuel : ℕ}
    (hs : s.drop r = commandText [(p, n)] finalBar) (hfuel : 2 ≤ fuel) :
    ∃ rs, ackLoop (s ++ 0 :: u) fuel r adv =
      .ok ⟨clampAdvance (advanceOf n), [((p : ℤ), (n : ℤ))], rs⟩ := by
  obtain ⟨fuel, rfl⟩ : ∃ k, fuel = k + 2 := ⟨fuel - 2, by omega⟩
  have hshort : ¬2 ≤ (commandText [] finalBar).length := by
    cases finalBar <;> simp [commandText]
  rw [commandText_cons] at hs
  rw [ackLoop_written u hs0 hp0 hp hn (noDigitHead_commandText [] finalBar) hs, if_neg hshort]
  -- The jump back lands on the last digit of the pid.
  have hcomma : NoDigitHead (ch ',' :: (decimal n ++ commandText [] finalBar)) :=
    noDigitHead_cons (by decide) _
  have hback := tupleAt_lastPidDigit hs (by rw [digitsValue_decimal hp hcomma]; omega)
  rw [(takeWhile_decimal_append p hcomma).1] at hback
  have hle : r + (decimal p).length ≤ s.length := by
    have hlen := congrArg List.length hs
    simp only [List.length_drop, List.length_cons, List.length_append] at hlen
    omega
  rw [ackLoop_none hs0 u hle (congrArg CommandTuple.pid hback), ok_bind]
  dsimp only
  exact ⟨[(r : ℤ), ((r + (decimal p).length : ℕ) : ℤ)], rfl⟩

/-- INTERNAL: the loop from the start of a nonempty rest of the tuple list.
SOURCE: router_app_vt.c:212-235 -/
theorem ackLoop_commandText {s : List UInt8} (u : List UInt8) (hs0 : 0 ∉ s) (finalBar : Bool)
    (x : ℕ × ℕ) (xs : List (ℕ × ℕ))
    (hb : ∀ y ∈ x :: xs, 0 < y.1 ∧ y.1 < 2 ^ 31 ∧ y.2 < 2 ^ 31) (r : ℕ) (adv : ℤ) (fuel : ℕ)
    (hs : s.drop r = commandText (x :: xs) finalBar) (hfuel : xs.length + 2 ≤ fuel) :
    ∃ rs, ackLoop (s ++ 0 :: u) fuel r adv =
      .ok ⟨(((x :: xs).getLast (List.cons_ne_nil x xs)).2 / 1000 : ℕ),
        (x :: xs).map (fun y => ((y.1 : ℤ), (y.2 : ℤ))), rs⟩ := by
  obtain ⟨hx0, hx1, hx2⟩ := hb x (by simp)
  induction xs generalizing x r adv fuel with
  | nil =>
      have hlast := ackLoop_last u hs0 finalBar hx0 hx1 (by omega : x.2 < 2 ^ 32) adv hs
        (by simpa using hfuel)
      rw [clampAdvance_advanceOf hx2] at hlast
      exact hlast
  | cons y ys ih =>
      obtain ⟨fuel, rfl⟩ : ∃ k, fuel = k + 1 := ⟨fuel - 1, by simp at hfuel; omega⟩
      obtain ⟨hy0, hy1, hy2⟩ := hb y (by simp)
      have hlong : 2 ≤ (commandText (y :: ys) finalBar).length := by
        rw [commandText_cons]
        simp only [List.length_cons, List.length_append]
        omega
      rw [commandText_cons] at hs
      have hnext : s.drop (r + (decimal x.1).length + 2 + (decimal x.2).length) =
          commandText (y :: ys) finalBar := by
        have hsplit : s.drop r = (ch '|' :: decimal x.1 ++ ch ',' :: decimal x.2) ++
            commandText (y :: ys) finalBar := by
          rw [hs]
          simp
        have hlen : r + (decimal x.1).length + 2 + (decimal x.2).length =
            r + (ch '|' :: decimal x.1 ++ ch ',' :: decimal x.2).length := by
          simp only [List.length_append, List.length_cons]
          omega
        rw [hlen]
        exact drop_append_of_drop hsplit
      obtain ⟨rs, hrs⟩ := ih y (fun z hz => hb z (List.mem_cons_of_mem x hz)) _
        (advanceOf x.2) fuel hnext (by simp at hfuel; omega) hy0 hy1 hy2
      rw [ackLoop_written u hs0 hx0 hx1 (by omega : x.2 < 2 ^ 32)
          (noDigitHead_commandText (y :: ys) finalBar) hs, if_pos hlong, hrs, ok_bind]
      exact ⟨(r : ℤ) :: rs, rfl⟩

/-- INTERNAL: a command text has at least one character per tuple. -/
theorem length_le_commandText (tuples : List (ℕ × ℕ)) (finalBar : Bool) :
    tuples.length ≤ (commandText tuples finalBar).length := by
  induction tuples with
  | nil => simp
  | cons x xs ih =>
      rw [commandText_cons]
      simp only [List.length_cons, List.length_append]
      omega

/-- **Delivery.**  On the text of a nonempty tuple list, with or without a final bar, the
loop takes over exactly the tuples, each once and in order, ends, and returns the last
count in microseconds; on `STOP` it returns `-1`.
SOURCE: router_app_vt.c:193-236 -/
theorem command_loop_delivers (tuples : List (ℕ × ℕ)) (hne : tuples ≠ [])
    (hb : ∀ x ∈ tuples, 0 < x.1 ∧ x.1 < 2 ^ 31 ∧ x.2 < 2 ^ 31) (finalBar : Bool)
    (t : List UInt8) :
    (∃ rs, ackAndGetNextCommand (some (commandText tuples finalBar ++ 0 :: t)) =
      .ok ⟨((tuples.getLast hne).2 / 1000 : ℕ),
        tuples.map (fun x => ((x.1 : ℤ), (x.2 : ℤ))), rs⟩) ∧
    ∃ a, ackAndGetNextCommand (some (bytes "STOP" ++ 0 :: t)) = .ok a ∧ a.ret = -1 := by
  constructor
  · cases tuples with
    | nil => exact absurd rfl hne
    | cons x xs =>
        have hlen := length_le_commandText (x :: xs) finalBar
        apply ackLoop_commandText t (noNul_commandText (x :: xs) finalBar) finalBar x xs hb 0
        · exact List.drop_zero
        · simp only [List.length_append, List.length_cons] at hlen ⊢
          omega
  · exact ⟨⟨-1, [], [0]⟩,
      ackLoop_stop (s := bytes "STOP") (by decide) t (Nat.zero_le _) rfl 100 _, rfl⟩

/-- The delivery of two tuples, the first with the largest pid of 32 bits. -/
theorem command_loop_delivers_two :
    ∃ rs, ackAndGetNextCommand
      (some (commandText [(2147483647, 999), (1, 2147483647)] false ++ 0 :: [])) =
        .ok ⟨2147483, [(2147483647, 999), (1, 2147483647)], rs⟩ := by
  obtain ⟨⟨rs, h⟩, -⟩ := command_loop_delivers [(2147483647, 999), (1, 2147483647)]
    (by decide) (by decide) false []
  exact ⟨rs, by simpa using h⟩

end VtRouter.Analysis
