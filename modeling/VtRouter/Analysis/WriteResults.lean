import VtRouter.Model.WriteResults

/-!
# When writing a result ends

The loop of `write_results` compares the size of the latest write with the length of the whole
text, so it ends with a first write that takes everything.  After a shorter one every later
write is shorter still: the text goes out once, and then the loop writes nothing for ever,
unless a call fails.  `write_results_ends_iff` is the exact condition.
-/

set_option autoImplicit false

namespace VtRouter.Analysis

open Library VtRouter.Model

/-- What is left to write in front of the `i`-th call when no call fails. -/
def pending (calls : WriteCalls) (n : ℕ) : ℕ → ℕ
  | 0 => n
  | i + 1 => pending calls n i - (calls.ret i (pending calls n i)).toNat

theorem pending_le (calls : WriteCalls) (n i : ℕ) : pending calls n i ≤ n := by
  induction i with
  | zero => exact Nat.le_refl n
  | succ i ih => exact Nat.le_trans (Nat.sub_le _ _) ih

/-- INTERNAL: a call that does not fail returns at most what it is given. -/
theorem ret_bounds (calls : WriteCalls) {i n : ℕ} (h : ¬calls.ret i n < 0) :
    0 ≤ calls.ret i n ∧ calls.ret i n ≤ n := by
  rcases calls.outcome i n with hfail | ⟨hn, hret⟩ | ⟨hlo, hhi⟩ <;> omega

section Loop

variable (calls : WriteCalls) (text : CString)

/-- The loop in front of the `i`-th call, when no call before it failed. -/
def loopAt (fuel i : ℕ) (ret : ℤ) : Except Fault WriteRun :=
  writeLoop calls text.terminated fuel i ret
    (text.toList.drop (text.toList.length - pending calls text.toList.length i) ++ [0])
    (text.toList.take (text.toList.length - pending calls text.toList.length i))

variable {calls text}

/-- INTERNAL: **one iteration** behind a write that was not the whole text.
SOURCE: router_app_vt.c:157-167 -/
theorem loopAt_succ (fuel i : ℕ) {ret : ℤ} (hret : ret ≠ text.toList.length) :
    loopAt calls text (fuel + 1) i ret =
      if calls.ret i (pending calls text.toList.length i) < 0 then
        .ok ⟨text.toList.take (text.toList.length - pending calls text.toList.length i), true⟩
      else loopAt calls text fuel (i + 1) (calls.ret i (pending calls text.toList.length i)) := by
  have hle := pending_le calls text.toList.length i
  have hdrop : 0 ∉ text.toList.drop (text.toList.length - pending calls text.toList.length i) :=
    fun h => text.noNul (List.mem_of_mem_drop h)
  have hlen : strlen (text.toList.drop
      (text.toList.length - pending calls text.toList.length i) ++ [0]) =
      .ok (pending calls text.toList.length i) := by
    rw [strlen_append hdrop, List.length_drop]
    congr 1
    omega
  unfold loopAt
  rw [writeLoop, CString.terminated, strlen_append text.noNul, ok_bind, if_neg hret, hlen, ok_bind]
  by_cases hfail : calls.ret i (pending calls text.toList.length i) < 0
  · simp only [if_pos hfail]
    rfl
  · obtain ⟨hlo, hhi⟩ := ret_bounds calls hfail
    have hnext : text.toList.length - pending calls text.toList.length (i + 1) =
        text.toList.length - pending calls text.toList.length i +
          (calls.ret i (pending calls text.toList.length i)).toNat := by
      rw [pending]
      omega
    have hptr := ptrAdd_drop
      (text.toList.drop (text.toList.length - pending calls text.toList.length i)) [0]
      (calls.ret i (pending calls text.toList.length i)).toNat (by
        rw [List.length_drop]
        omega)
    rw [Int.toNat_of_nonneg hlo, List.drop_drop, ← hnext] at hptr
    have htake : text.toList.take (text.toList.length - pending calls text.toList.length (i + 1)) =
        text.toList.take (text.toList.length - pending calls text.toList.length i) ++
          (text.toList.drop (text.toList.length - pending calls text.toList.length i) ++ [0]).take
            (calls.ret i (pending calls text.toList.length i)).toNat := by
      rw [hnext, List.take_add, List.take_append_of_le_length]
      rw [List.length_drop]
      omega
    simp only [if_neg hfail, hptr, ok_bind, htake]

/-- INTERNAL: behind a short write the loop goes on to the next call that fails. -/
theorem loopAt_of_fail (d : ℕ) {i : ℕ} {ret : ℤ} (hret : ret ≠ text.toList.length)
    (hshort : pending calls text.toList.length i < text.toList.length)
    (hfail : calls.ret (i + d) (pending calls text.toList.length (i + d)) < 0) :
    ∃ fuel written, loopAt calls text fuel i ret = .ok ⟨written, true⟩ := by
  induction d generalizing i ret with
  | zero =>
      exact ⟨1, _, (loopAt_succ 0 i hret).trans (if_pos hfail)⟩
  | succ d ih =>
      by_cases hnow : calls.ret i (pending calls text.toList.length i) < 0
      · exact ⟨1, _, (loopAt_succ 0 i hret).trans (if_pos hnow)⟩
      · obtain ⟨-, hhi⟩ := ret_bounds calls hnow
        have hshort' : pending calls text.toList.length (i + 1) < text.toList.length :=
          Nat.lt_of_le_of_lt (Nat.sub_le _ _) hshort
        rw [show i + (d + 1) = i + 1 + d by omega] at hfail
        have hret' : calls.ret i (pending calls text.toList.length i) ≠ text.toList.length := by
          omega
        obtain ⟨fuel, written, hrun⟩ := ih hret' hshort' hfail
        refine ⟨fuel + 1, written, ?_⟩
        rw [loopAt_succ fuel i hret, if_neg hnow, hrun]

/-- INTERNAL: behind a short write the loop never ends when no call fails. -/
theorem loopAt_spins (fuel : ℕ) {i : ℕ} {ret : ℤ} (hret : ret ≠ text.toList.length)
    (hshort : pending calls text.toList.length i < text.toList.length)
    (hok : ∀ j, ¬calls.ret j (pending calls text.toList.length j) < 0) :
    loopAt calls text fuel i ret = .error .outOfFuel := by
  induction fuel generalizing i ret with
  | zero => rfl
  | succ fuel ih =>
      obtain ⟨-, hhi⟩ := ret_bounds calls (hok i)
      rw [loopAt_succ fuel i hret, if_neg (hok i)]
      exact ih (by omega) (Nat.lt_of_le_of_lt (Nat.sub_le _ _) hshort)

end Loop

/-- INTERNAL: a call of `write_results` is the loop in front of the first call. -/
theorem writeResults_eq (fuel : ℕ) (calls : WriteCalls) (advanceErr : ℤ) :
    writeResults fuel calls advanceErr = loopAt calls (resultsText advanceErr) fuel 0 0 := by
  unfold writeResults loopAt
  simp [pending, CString.terminated]

theorem resultsText_length_pos (advanceErr : ℤ) : 0 < (resultsText advanceErr).toList.length :=
  Nat.succ_pos _

/-- The first call accepts the whole text, or some call fails when each is given what the calls
before it left. -/
def EndsWriting (calls : WriteCalls) (n : ℕ) : Prop :=
  calls.ret 0 n = n ∨ ∃ i, calls.ret i (pending calls n i) < 0

/-- INTERNAL: a short first write and no failure: the loop never ends.
SOURCE: router_app_vt.c:157-167 -/
theorem writeResults_spins {calls : WriteCalls} {advanceErr : ℤ}
    (h : ¬EndsWriting calls (resultsText advanceErr).toList.length) (fuel : ℕ) :
    writeResults fuel calls advanceErr = .error .outOfFuel := by
  have hpos := resultsText_length_pos advanceErr
  have hok : ∀ j, ¬calls.ret j (pending calls (resultsText advanceErr).toList.length j) < 0 :=
    fun j hj => h (Or.inr ⟨j, hj⟩)
  have hfirst : calls.ret 0 (resultsText advanceErr).toList.length ≠
      (resultsText advanceErr).toList.length := fun heq => h (Or.inl heq)
  rw [writeResults_eq]
  cases fuel with
  | zero => rfl
  | succ fuel =>
      rw [loopAt_succ fuel 0 (by omega), if_neg (hok 0)]
      apply loopAt_spins fuel hfirst _ hok
      have hlo : ¬calls.ret 0 (resultsText advanceErr).toList.length < 0 := hok 0
      rcases calls.outcome 0 (resultsText advanceErr).toList.length with hfail | ⟨hn, -⟩ | ⟨hone, -⟩
      · exact absurd hfail hlo
      · omega
      · rw [pending, pending]
        omega

/-- **When `write_results` ends.**  It terminates, with the text written exactly once if no call
failed, exactly when the first call accepts the whole text or some call fails.
SOURCE: router_app_vt.c:147-168, client_n_vt.c:515-536 -/
theorem write_results_ends_iff (calls : WriteCalls) (advanceErr : ℤ) :
    (∃ fuel run, writeResults fuel calls advanceErr = .ok run ∧
      (run.failed = false → run.written = (resultsText advanceErr).toList)) ↔
      EndsWriting calls (resultsText advanceErr).toList.length := by
  constructor
  · rintro ⟨fuel, run, hrun, -⟩
    by_contra h
    rw [writeResults_spins h fuel] at hrun
    cases hrun
  · intro h
    have hpos := resultsText_length_pos advanceErr
    have hzero : (0 : ℤ) ≠ (resultsText advanceErr).toList.length := by omega
    by_cases hfail : calls.ret 0 (resultsText advanceErr).toList.length < 0
    · refine ⟨1, ⟨[], true⟩, ?_, Bool.noConfusion⟩
      have hnow : calls.ret 0 (pending calls (resultsText advanceErr).toList.length 0) < 0 := hfail
      rw [writeResults_eq, loopAt_succ 0 0 hzero, if_pos hnow, pending, Nat.sub_self, List.take_zero]
    have hnow : ¬calls.ret 0 (pending calls (resultsText advanceErr).toList.length 0) < 0 := hfail
    by_cases hfull : calls.ret 0 (resultsText advanceErr).toList.length =
        (resultsText advanceErr).toList.length
    · refine ⟨2, ⟨(resultsText advanceErr).toList, false⟩, ?_, fun _ => rfl⟩
      have hdone : pending calls (resultsText advanceErr).toList.length 1 = 0 := by
        rw [pending, pending, hfull]
        omega
      rw [writeResults_eq, loopAt_succ 1 0 hzero, if_neg hnow]
      unfold loopAt
      rw [writeLoop, CString.terminated, strlen_append (resultsText advanceErr).noNul, ok_bind,
        pending, if_pos hfull, hdone, Nat.sub_zero, List.take_length]
      rfl
    · obtain ⟨j, hj⟩ := h.resolve_left hfull
      -- The first call was short, so it is a later one that fails.
      obtain ⟨d, rfl⟩ : ∃ d, j = 1 + d := by
        refine ⟨j - 1, ?_⟩
        by_contra hd
        have hj0 : j = 0 := by omega
        rw [hj0] at hj
        exact hnow hj
      have hshort : pending calls (resultsText advanceErr).toList.length 1 <
          (resultsText advanceErr).toList.length := by
        rcases calls.outcome 0 (resultsText advanceErr).toList.length with h0 | ⟨hn, -⟩ | ⟨hone, -⟩
        · exact absurd h0 hfail
        · omega
        · rw [pending, pending]
          omega
      obtain ⟨fuel, written, hrun⟩ := loopAt_of_fail d hfull hshort hj
      refine ⟨fuel + 1, ⟨written, true⟩, ?_, Bool.noConfusion⟩
      rw [writeResults_eq, loopAt_succ fuel 0 hzero, if_neg hnow]
      exact hrun

/-- Every call accepts one byte. -/
def byteByByte : WriteCalls where
  ret _ n := if n = 0 then 0 else 1
  outcome := by
    intro i n
    by_cases hn : n = 0
    · exact Or.inr (Or.inl ⟨hn, if_pos hn⟩)
    · rw [if_neg hn]
      omega

/-- Byte by byte, the text `J,0,` is written and the loop goes on for ever. -/
theorem short_writes_spin :
    (∀ i n, ¬byteByByte.ret i n < 0) ∧ pending byteByByte (resultsText 0).toList.length 4 = 0 ∧
    ∀ fuel, writeResults fuel byteByByte 0 = .error .outOfFuel := by
  have hok : ∀ i n, ¬byteByByte.ret i n < 0 := by
    intro i n
    show ¬(if n = 0 then (0 : ℤ) else 1) < 0
    split <;> omega
  refine ⟨hok, by decide +kernel, writeResults_spins ?_⟩
  rintro (hfull | ⟨i, hi⟩)
  · exact absurd hfull (by decide +kernel)
  · exact hok i _ hi

end VtRouter.Analysis
