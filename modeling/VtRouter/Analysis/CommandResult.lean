import VtRouter.Analysis.CommandLoop

/-!
# What the command loop returns

Two questions about the result of `ack_and_get_next_command`.

* How much it grants: the count of the last tuple is cast to `int` before it is divided, so a
  count with the sign bit is negative, and what is negative is replaced by 100
  (`grant_is_floor_iff`).
* When it stops: the text `STOP` is looked for at every position at which the loop resumes,
  which is behind any number of tuples, and nothing else makes it return -1
  (`stops_iff_endsInStop`).
-/

set_option autoImplicit false

namespace VtRouter.Analysis

open Library VtRouter.Model VtRouter.Interface

/-! ## The grant -/

/-- INTERNAL: what is granted for a count with the sign bit.
SOURCE: router_app_vt.c:225, 233-235 -/
theorem clampAdvance_of_signBit {n : ℕ} (hlo : 2 ^ 31 ≤ n) (hhi : n < 2 ^ 32) :
    clampAdvance (advanceOf n) = if 2 ^ 32 - 1000 < n then 0 else 100 := by
  have hneg : ((n : ℤ) - 2 ^ 32).tdiv 1000 = -((2 ^ 32 - (n : ℤ)) / 1000) := by
    rw [← Int.tdiv_eq_ediv_of_nonneg (by omega), ← Int.neg_tdiv]
    congr 1
    omega
  unfold clampAdvance advanceOf
  rw [wrap32_of_signBit (by omega) (by omega), hneg]
  split
  · rw [if_neg (by omega)]
  · rw [if_pos (by omega)]
    omega

/-- **Exactly which counts are granted in full.**  On the command `|p,n|`, with or without the
final bar, for every pid and every unsigned count, the loop returns `floor(n / 1000)` if and
only if the count has no sign bit.
SOURCE: router_app_vt.c:53-89, 208-235, utils.c:73-81 -/
theorem grant_is_floor_iff (p n : ℕ) (hp0 : 0 < p) (hp : p < 2 ^ 31) (hn : n < 2 ^ 32)
    (finalBar : Bool) (t : List UInt8) :
    ∃ a, ackAndGetNextCommand (some (commandText [(p, n)] finalBar ++ 0 :: t)) = .ok a ∧
      (a.ret = ((n / 1000 : ℕ) : ℤ) ↔ n < 2 ^ 31) := by
  have hlen := length_le_commandText [(p, n)] finalBar
  have hloop : ∃ rs, ackAndGetNextCommand (some (commandText [(p, n)] finalBar ++ 0 :: t)) =
      .ok ⟨clampAdvance (advanceOf n), [((p : ℤ), (n : ℤ))], rs⟩ := by
    apply ackLoop_last t (noNul_commandText [(p, n)] finalBar) finalBar hp0 hp hn
    · exact List.drop_zero
    · rw [List.length_append, List.length_cons]
      omega
  obtain ⟨rs, hrun⟩ := hloop
  refine ⟨_, hrun, ?_⟩
  by_cases hsign : n < 2 ^ 31
  · simp only [clampAdvance_advanceOf hsign, hsign]
  · simp only [clampAdvance_of_signBit (by omega : 2 ^ 31 ≤ n) hn, hsign, iff_false]
    split
    · omega
    · omega

/-- The largest count that is granted in full. -/
theorem grant_is_floor_iff_largest :
    ∃ a, ackAndGetNextCommand (some (commandText [(1, 2147483647)] true ++ [0])) = .ok a ∧
      a.ret = 2147483 := by
  obtain ⟨a, hrun, hfloor⟩ := grant_is_floor_iff 1 2147483647 (by omega) (by omega) (by omega)
    true []
  exact ⟨a, hrun, hfloor.mpr (by omega)⟩

/-- **More instructions, less time**: one instruction more than the largest `int` is granted 100
microseconds, where one less is granted 2147483. -/
theorem grant_drops_at_signBit :
    (∃ a, ackAndGetNextCommand (some (commandText [(1, 2147483647)] true ++ [0])) = .ok a ∧
      a.ret = 2147483) ∧
    ∃ a, ackAndGetNextCommand (some (commandText [(1, 2147483648)] true ++ [0])) = .ok a ∧
      a.ret = 100 ∧ a.ret ≠ ((2147483648 / 1000 : ℕ) : ℤ) := by
  have hbelow : ackAndGetNextCommand (some (commandText [(1, 2147483647)] true ++ [0])) =
      .ok ⟨2147483, [(1, 2147483647)], [0, 2 - 1]⟩ := by
    decide +kernel
  have habove : ackAndGetNextCommand (some (commandText [(1, 2147483648)] true ++ [0])) =
      .ok ⟨100, [(1, 2147483648)], [0, 2 - 1]⟩ := by
    decide +kernel
  exact ⟨⟨_, hbelow, rfl⟩, _, habove, rfl, by norm_num⟩

/-! ## The stop -/

/-- The texts that make the loop return -1: `STOP` itself, and behind a bar, digits of a
number that is not 0 as an `int`, one other character, any character, and the digits that
follow it, again such a text. -/
inductive EndsInStop : List UInt8 → Prop
  | stop : EndsInStop (bytes "STOP")
  | tuple (p q rest : List UInt8) (c d : UInt8) (hp : ∀ x ∈ p, isDigit x = true)
      (hpid : wrap32 (numeral p 0) ≠ 0) (hc : isDigit c = false)
      (hq : ∀ x ∈ q, isDigit x = true) (hrest : EndsInStop rest) :
      EndsInStop (ch '|' :: (p ++ c :: d :: (q ++ rest)))

/-- INTERNAL: such a text starts with a letter or a bar. -/
theorem EndsInStop.noDigitHead {s : List UInt8} (h : EndsInStop s) : NoDigitHead s := by
  cases h with
  | stop =>
      apply noDigitHead_cons
      decide
  | tuple p q rest c d hp hpid hc hq hrest =>
      apply noDigitHead_cons
      decide

/-- INTERNAL: such a text has at least the four letters. -/
theorem EndsInStop.four_le_length {s : List UInt8} (h : EndsInStop s) : 4 ≤ s.length := by
  induction h with
  | stop => decide
  | tuple p q rest c d hp hpid hc hq hrest ih =>
      simp only [List.length_cons, List.length_append]
      omega

/-- INTERNAL: what stands behind a bar, in terms of what the parser reads there.
SOURCE: router_app_vt.c:67-88 -/
theorem endsInStop_bar_iff {p q : List UInt8} {e d : UInt8}
    (hdrop : p.dropWhile isDigit = e :: d :: q) :
    EndsInStop (ch '|' :: p) ↔ digitsValue p ≠ 0 ∧ EndsInStop (q.dropWhile isDigit) := by
  constructor
  · intro h
    generalize hs : ch '|' :: p = s at h
    cases h with
    | stop => exact absurd (List.cons.inj hs).1 (by decide)
    | tuple p' q' rest c d' hp hpid hc hq hrest =>
        obtain ⟨-, rfl⟩ := List.cons.inj hs
        obtain ⟨htake, hbehind⟩ :=
          takeWhile_digits_append hp (noDigitHead_cons hc (d' :: (q' ++ rest)))
        rw [hbehind] at hdrop
        cases hdrop
        unfold digitsValue
        rw [htake, (takeWhile_digits_append hq hrest.noDigitHead).2]
        exact ⟨hpid, hrest⟩
  · rintro ⟨hpid, hrest⟩
    have he : isDigit e = false := by
      have hhead := List.head?_dropWhile_not isDigit p
      rw [hdrop] at hhead
      simpa using hhead
    have hsplit : p = p.takeWhile isDigit ++
        e :: d :: (q.takeWhile isDigit ++ q.dropWhile isDigit) := by
      rw [List.takeWhile_append_dropWhile, ← hdrop, List.takeWhile_append_dropWhile]
    rw [hsplit]
    exact .tuple _ _ _ _ _ (fun x hx => List.mem_takeWhile_imp hx) hpid he
      (fun x hx => List.mem_takeWhile_imp hx) hrest

/-- INTERNAL: the last two statements of `ack_and_get_next_command` never make -1.
SOURCE: router_app_vt.c:233-235 -/
theorem clampAdvance_ne (x : ℤ) : clampAdvance x ≠ -1 := by
  unfold clampAdvance
  split
  · omega
  · omega

/-- INTERNAL: the loop on a tuple with a pid returns what it returns where it goes on.
SOURCE: router_app_vt.c:212-229 -/
theorem ackLoop_tuple_ret {s : List UInt8} (hs0 : 0 ∉ s) (t : List UInt8) {fuel r r' : ℕ}
    (hr : r ≤ s.length) {adv pid n : ℤ} {a : Ack} (htup : tupleAt s r = ⟨r', pid, n⟩)
    (hpid : pid ≠ 0) (h : ackLoop (s ++ 0 :: t) (fuel + 1) r adv = .ok a) :
    ∃ b, ackLoop (s ++ 0 :: t) fuel r' (advanceOf n) = .ok b ∧ a.ret = b.ret := by
  rw [ackLoop_tuple hs0 t hr htup hpid] at h
  obtain ⟨b, hb, hret⟩ := exists_of_bind_ok h
  cases hret
  exact ⟨b, hb, rfl⟩

/-- INTERNAL: where no tuple stands the loop ends, and does not return -1.
SOURCE: router_app_vt.c:222-235 -/
theorem ackLoop_none_ne {s : List UInt8} (hs0 : 0 ∉ s) (t : List UInt8) {fuel r : ℕ}
    (hr : r ≤ s.length) {adv : ℤ} {a : Ack} (hpid : (tupleAt s r).pid = 0)
    (h : ackLoop (s ++ 0 :: t) fuel r adv = .ok a) : a.ret ≠ -1 := by
  cases fuel with
  | zero => cases h
  | succ fuel =>
      rw [ackLoop_none hs0 t hr hpid] at h
      cases h
      exact clampAdvance_ne adv

/-- INTERNAL: a text that no tuple starts and that is not `STOP` is none of those texts. -/
theorem not_endsInStop {u : List UInt8} (hstop : u ≠ bytes "STOP")
    (hnone : ¬∃ p e d q, u = ch '|' :: p ∧ p.dropWhile isDigit = e :: d :: q) :
    ¬EndsInStop u := by
  intro hend
  cases hend with
  | stop => exact hstop rfl
  | tuple p q rest c d hp hpid hc hq hrest =>
      apply hnone
      exact ⟨_, c, d, q ++ rest, rfl, (takeWhile_digits_append hp (noDigitHead_cons hc _)).2⟩

/-- INTERNAL: from any position inside the text the loop returns -1 exactly when the rest of
the text is one of those texts.
SOURCE: router_app_vt.c:212-235 -/
theorem ackLoop_stops_iff {s : List UInt8} (hs0 : 0 ∉ s) (t : List UInt8) (fuel r : ℕ)
    (hr : r ≤ s.length) (adv : ℤ) {a : Ack} (h : ackLoop (s ++ 0 :: t) fuel r adv = .ok a) :
    a.ret = -1 ↔ EndsInStop (s.drop r) := by
  induction fuel generalizing r adv a with
  | zero => cases h
  | succ fuel ih =>
      by_cases hstop : s.drop r = bytes "STOP"
      · rw [ackLoop_stop hs0 t hr hstop] at h
        cases h
        rw [hstop]
        exact ⟨fun _ => .stop, fun _ => rfl⟩
      by_cases htext : ∃ p e d q, s.drop r = ch '|' :: p ∧ p.dropWhile isDigit = e :: d :: q
      · obtain ⟨p, e, d, q, hp, hq⟩ := htext
        obtain ⟨hdrop, hlt⟩ := drop_behind_separator hp hq
        have htup := tupleAt_bar hp hq
        have hiff := endsInStop_bar_iff hq
        rw [hp, hiff]
        by_cases hpid : digitsValue p = 0
        · have hnopid : (tupleAt s r).pid = 0 := by
            rw [htup]
            dsimp only
            rw [hpid]
          have hret := ackLoop_none_ne hs0 t hr hnopid h
          exact ⟨fun hneg => absurd hneg hret, fun hend => absurd hpid hend.1⟩
        by_cases hlong : 2 ≤ (q.dropWhile isDigit).length
        · -- The loop resumes behind the count.
          have hresume : ((r + (p.takeWhile isDigit).length + 2 : ℕ) : ℤ) + nextValue q 1 - 1 =
              (r + (p.takeWhile isDigit).length + 2 + (d :: q.takeWhile isDigit).length : ℕ) := by
            rw [nextValue_of_long hlong, List.length_cons]
            push_cast
            ring
          have hbehind : s.drop (r + (p.takeWhile isDigit).length + 2 +
              (d :: q.takeWhile isDigit).length) = q.dropWhile isDigit := by
            apply drop_append_of_drop
            rw [hdrop, List.cons_append, List.takeWhile_append_dropWhile]
          have hle : r + (p.takeWhile isDigit).length + 2 +
              (d :: q.takeWhile isDigit).length ≤ s.length := by
            by_contra hgt
            rw [List.drop_eq_nil_of_le (by omega)] at hbehind
            rw [← hbehind] at hlong
            simp at hlong
          rw [hresume] at htup
          obtain ⟨b, hb, hret⟩ := ackLoop_tuple_ret hs0 t hr htup hpid h
          have hrest := ih _ hle _ hb
          rw [hret, hrest, hbehind]
          exact ⟨fun hend => ⟨hpid, hend⟩, fun hend => hend.2⟩
        · -- The loop steps back to the last digit of the pid and ends there.
          have hresume : ((r + (p.takeWhile isDigit).length + 2 : ℕ) : ℤ) + nextValue q 1 - 1 =
              (r + (p.takeWhile isDigit).length : ℕ) := by
            rw [nextValue_of_short (by omega)]
            push_cast
            ring
          have hnone : ¬EndsInStop (q.dropWhile isDigit) := by
            intro hend
            have hfour := hend.four_le_length
            omega
          rw [hresume] at htup
          obtain ⟨b, hb, hret⟩ := ackLoop_tuple_ret hs0 t hr htup hpid h
          have hdigit := congrArg CommandTuple.pid (tupleAt_lastPidDigit hp hpid)
          have hle : r + (p.takeWhile isDigit).length ≤ s.length := by omega
          have hne := ackLoop_none_ne hs0 t hle hdigit hb
          rw [hret]
          exact ⟨fun hneg => absurd hneg hne, fun hend => absurd hend.2 hnone⟩
      · have hsep : ∀ p, s.drop r = ch '|' :: p → ¬∃ e d q, p.dropWhile isDigit = e :: d :: q := by
          intro p hp hex
          exact htext ⟨p, hex.imp fun e hd => hd.imp fun d hq => hq.imp fun q hq => ⟨hp, hq⟩⟩
        have hpid := congrArg CommandTuple.pid (tupleAt_none hstop hsep)
        have hret := ackLoop_none_ne hs0 t hr hpid h
        have hnone := not_endsInStop hstop htext
        exact ⟨fun hneg => absurd hneg hret, fun hend => absurd hend hnone⟩

/-- **Exactly which payloads stop the experiment.**  On every NUL-terminated text, with any
bytes behind the terminator, the loop returns -1 if and only if the text is `STOP` behind any
number of tuples.
SOURCE: router_app_vt.c:36-89, 193-236 -/
theorem stops_iff_endsInStop (s t : List UInt8) (hs : 0 ∉ s) :
    ∃ a, ackAndGetNextCommand (some (s ++ 0 :: t)) = .ok a ∧ (a.ret = -1 ↔ EndsInStop s) := by
  obtain ⟨a, -, -, hrun, -⟩ := command_loop_total s t hs
  refine ⟨a, hrun, ?_⟩
  have hstops := ackLoop_stops_iff hs t _ 0 (Nat.zero_le _) 100 hrun
  rw [List.drop_zero] at hstops
  exact hstops

/-- `STOP` alone stops, and behind a tuple with the pid 0 it does not. -/
theorem stops_iff_endsInStop_hidden :
    (∃ a, ackAndGetNextCommand (some (bytes "STOP" ++ 0 :: [7])) = .ok a ∧ a.ret = -1) ∧
      ∃ a, ackAndGetNextCommand (some (bytes "|0,5STOP" ++ 0 :: [7])) = .ok a ∧ a.ret ≠ -1 := by
  obtain ⟨a, hrun, hstops⟩ := stops_iff_endsInStop (bytes "STOP") [7] (by decide)
  obtain ⟨b, hrun', hstops'⟩ := stops_iff_endsInStop (bytes "|0,5STOP") [7] (by decide)
  refine ⟨⟨a, hrun, hstops.mpr .stop⟩, b, hrun', ?_⟩
  intro hret
  have hq : (bytes "0,5STOP").dropWhile isDigit = ch ',' :: ch '5' :: bytes "STOP" := by decide
  have hpid := ((endsInStop_bar_iff hq).mp (hstops'.mp hret)).1
  exact hpid (by decide)

/-- **A tuple in front of `STOP`** does not keep the loop from returning -1. -/
theorem stops_behind_tuple :
    ∃ a, ackAndGetNextCommand (some (bytes "|1,5STOP" ++ [0])) = .ok a ∧ a.ret = -1 ∧
      bytes "|1,5STOP" ≠ bytes "STOP" := by
  have hrun : ackAndGetNextCommand (some (bytes "|1,5STOP" ++ [0])) =
      .ok ⟨-1, [(1, 5)], [0, 4]⟩ := by
    decide +kernel
  exact ⟨_, hrun, rfl, by decide⟩

end VtRouter.Analysis
