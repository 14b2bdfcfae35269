import VtRouter.Library.Transition
import VtRouter.Model.UpdateStub
import VtRouter.Analysis.Hashmap

/-!
# The result of `update_stub`

The callers of `update_stub` test the sign of its result.  The result says what the caller
has to know in two of the four cases only: where the budget outlasts the deduction there is
no return statement, and a command that is not `THREAD_EXITING` is reported as one when it
is too small.
-/

set_option autoImplicit false

namespace VtRouter.Analysis

open Library Model Interface

/-- The result is `THREAD_EXITING` where that command was read and `SUCCESS` elsewhere. -/
def Answers (r : StubCall) : Prop :=
  r.ret = some (if r.cmd = some threadExiting then threadExiting else success)

/-- The first command is not an unknown negative number; and for a registered function, the
budget is used up and the next command is `THREAD_EXITING` or grants something. -/
def StubAnswers (funcTimesUs : Hashmap ℤ) (left : ℤ) (lastFn : Option (List UInt8))
    (next : ℤ) : Prop :=
  match lastFn with
  | none => next = threadExiting ∨ 0 ≤ next
  | some lastFn =>
      ∀ timeElapsed, hmapGetAbs funcTimesUs (cAbs (strHash lastFn)) = .ok (some timeElapsed) →
        wrap32 (left - timeElapsed) ≤ 0 ∧ (next = threadExiting ∨ 0 < next)

theorem threadExiting_ne_success : threadExiting ≠ success := by
  simp [threadExiting, success]

theorem answers_read (left next ret : ℤ) (timeElapsed sent : Option ℤ) :
    Answers ⟨left, timeElapsed, sent, some next, some ret⟩ ↔
      ret = if next = threadExiting then threadExiting else success := by
  simp [Answers]

/-- INTERNAL: a command is reported truly if it is `THREAD_EXITING` or lets the caller go
on. -/
theorem reported_iff (next : ℤ) (exits : Prop) [Decidable exits]
    (hexit : next = threadExiting → exits) :
    (if exits then threadExiting else success) =
        (if next = threadExiting then threadExiting else success) ↔
      next = threadExiting ∨ ¬ exits := by
  by_cases hnext : next = threadExiting
  · simp [hnext, hexit hnext]
  · by_cases hgo : exits
    · simp [hnext, hgo, threadExiting_ne_success]
    · simp [hnext, hgo]

/-- What a call with a name does once the name is looked up.
SOURCE: utils.c:563-581 -/
def stubResult (left next : ℤ) : Option ℤ → StubCall
  | none => ⟨left, none, none, none, some success⟩
  | some timeElapsed =>
      if wrap32 (left - timeElapsed) ≤ 0 then
        ⟨next, some timeElapsed, some (wrap32 (-1 * wrap32 (left - timeElapsed))), some next,
          some (if next ≤ 0 then threadExiting else success)⟩
      else ⟨wrap32 (left - timeElapsed), some timeElapsed, none, none, none⟩

theorem stubResult_over {left timeElapsed : ℤ} (next : ℤ)
    (hleft : wrap32 (left - timeElapsed) ≤ 0) :
    stubResult left next (some timeElapsed) =
      ⟨next, some timeElapsed, some (wrap32 (-1 * wrap32 (left - timeElapsed))), some next,
        some (if next ≤ 0 then threadExiting else success)⟩ :=
  if_pos hleft

theorem stubResult_within {left timeElapsed : ℤ} (next : ℤ)
    (hleft : ¬ wrap32 (left - timeElapsed) ≤ 0) :
    stubResult left next (some timeElapsed) =
      ⟨wrap32 (left - timeElapsed), some timeElapsed, none, none, none⟩ :=
  if_neg hleft

/-- INTERNAL: a call deducts what it finds.
SOURCE: utils.c:566-567 -/
theorem timeElapsed_stubResult (left next : ℤ) (found : Option ℤ) :
    (stubResult left next found).timeElapsed = found := by
  cases found with
  | none => rfl
  | some timeElapsed =>
      by_cases hleft : wrap32 (left - timeElapsed) ≤ 0
      · rw [stubResult_over next hleft]
      · rw [stubResult_within next hleft]

theorem updateStubCall_of_get {funcTimesUs : Hashmap ℤ} {left next : ℤ} {lastFn : List UInt8}
    {found : Option ℤ} (hget : hmapGetAbs funcTimesUs (cAbs (strHash lastFn)) = .ok found) :
    updateStubCall funcTimesUs left (some lastFn) next = .ok (stubResult left next found) := by
  unfold updateStubCall
  simp only [hget]
  cases found with
  | none => rfl
  | some timeElapsed =>
      by_cases hleft : wrap32 (left - timeElapsed) ≤ 0
      · rw [stubResult_over next hleft, ok_bind]
        exact if_pos hleft
      · rw [stubResult_within next hleft, ok_bind]
        exact if_neg hleft

/-- **Exactly when `update_stub` answers.**  For every table, budget, name and next command a
call does not fault, and its result is the one the callers count on if and only if
`StubAnswers` holds.
SOURCE: utils.c:549-583, client_n_vt.c:155-189 -/
theorem update_stub_answers_iff (funcTimesUs : Hashmap ℤ) (hs : Sized funcTimesUs) (left : ℤ)
    (lastFn : Option (List UInt8)) (next : ℤ) :
    ∃ r, updateStubCall funcTimesUs left lastFn next = .ok r ∧
      (Answers r ↔ StubAnswers funcTimesUs left lastFn next) := by
  cases lastFn with
  | none =>
      have hexit : next = threadExiting → next < 0 := by
        rintro rfl
        decide
      refine ⟨_, rfl, ?_⟩
      rw [answers_read, reported_iff next (next < 0) hexit, Int.not_lt]
      exact Iff.rfl
  | some lastFn =>
      obtain ⟨found, hget⟩ : ∃ found,
          hmapGetAbs funcTimesUs (cAbs (strHash lastFn)) = .ok found :=
        ⟨_, hmapGetAbs_eq hs (cAbs_nonneg (strHash_ne_intMin lastFn))⟩
      refine ⟨_, updateStubCall_of_get hget, ?_⟩
      simp only [StubAnswers, hget, Except.ok.injEq]
      cases found with
      | none => simp [Answers, stubResult]
      | some timeElapsed =>
          have hexit : next = threadExiting → next ≤ 0 := by
            rintro rfl
            decide
          by_cases hleft : wrap32 (left - timeElapsed) ≤ 0
          · rw [stubResult_over next hleft, answers_read, reported_iff next (next ≤ 0) hexit, Int.not_le]
            simp [hleft]
          · rw [stubResult_within next hleft]
            simp [Answers, hleft]

/-- The first command of a round of 100 microseconds, with a table of any size. -/
theorem update_stub_answers_iff_first :
    ∃ r, updateStubCall (hmapInit 1000) 0 none 100 = .ok r ∧
      (Answers r ↔ StubAnswers (hmapInit 1000) 0 none 100) :=
  update_stub_answers_iff (hmapInit 1000) (sized_hmapInit (by omega)) 0 none 100

/-! ## The stub inside the worker -/

/-- INTERNAL: the table that `init_func_times` makes answers every call site with its cost.
SOURCE: utils.c:837-854 -/
theorem initFuncTimes_spec :
    ∃ funcTimesUs, initFuncTimes = .ok funcTimesUs ∧ Sized funcTimesUs ∧
      ∀ site : Site, hmapGetAbs funcTimesUs (cAbs (strHash (bytes site.name))) = .ok (some 50) := by
  obtain ⟨funcTimesUs, htable, hs, -⟩ := funcTimes_spec funcTimes
  refine ⟨funcTimesUs, htable, hs, fun site => ?_⟩
  have hsite := funcTimeUs_site site
  rw [funcTimeUs, initFuncTimes, htable, ok_bind] at hsite
  exact hsite

/-- **A call without an answer**: a `poll` in a round with budget to spare ends without a
result, and one that uses up its budget takes the grant of an empty round for the order to
exit. -/
theorem update_stub_without_answer :
    ∃ funcTimesUs, initFuncTimes = .ok funcTimesUs ∧
      (∃ r, updateStubCall funcTimesUs 1000 (some (bytes "poll")) 7 = .ok r ∧ r.ret = none ∧
        ¬ Answers r) ∧
      ∃ r, updateStubCall funcTimesUs 50 (some (bytes "poll")) 0 = .ok r ∧
        r.ret = some threadExiting ∧ r.cmd = some 0 ∧ ¬ Answers r := by
  obtain ⟨funcTimesUs, htable, -, hget⟩ := initFuncTimes_spec
  refine ⟨funcTimesUs, htable, ⟨_, updateStubCall_of_get (hget .poll), rfl, ?_⟩,
    ⟨_, updateStubCall_of_get (hget .poll), rfl, rfl, ?_⟩⟩
  · simp [Answers, stubResult, wrap32]
  · simp [Answers, stubResult, wrap32, threadExiting, success]

/-- The labels of one call in the worker, `fallOff` being the value left behind where the call
has no result. -/
def stubActs (r : StubCall) (fallOff : ℤ) : List WorkerAct :=
  (r.timeElapsed.elim [.tau] fun cost => [.charge cost]) ++
    (r.sent.elim [] fun msg => [.pipeSend msg]) ++ (r.cmd.elim [] fun msg => [.pipeRead msg]) ++
      r.ret.elim [.fallOff fallOff] fun _ => []

/-- The thread on its own. -/
def workerThread (cfg : Config) : LTS Worker WorkerAct := ⟨Worker.init, processThread cfg⟩

/-- **The worker runs `update_stub`.**  With the table that `init_func_times` makes, the steps
of the worker behind a call site are those of the call, and the worker goes on or finishes
by the sign of its result.
SOURCE: utils.c:549-583, 697-764 -/
theorem worker_runs_stub (cfg : Config) (w : Worker) (site : Site) (next fallOff : ℤ)
    (hpc : w.pc = .updateStub site) :
    ∃ funcTimesUs r, initFuncTimes = .ok funcTimesUs ∧ Sized funcTimesUs ∧
      updateStubCall funcTimesUs w.left (some (bytes site.name)) next = .ok r ∧
      (workerThread cfg).exec w (stubActs r fallOff) = some { w with
        left := r.left
        pc := if r.ret.getD fallOff < 0 then .finished else .testStop site } := by
  obtain ⟨funcTimesUs, htable, hs, hget⟩ := initFuncTimes_spec
  refine ⟨funcTimesUs, _, htable, hs, updateStubCall_of_get (hget site), ?_⟩
  by_cases hleft : wrap32 (w.left - 50) ≤ 0
  · have hcharge : processThread cfg w (.charge 50) = some _ :=
      processThread_of_workerStep (.chargeOver w site hpc hleft)
    have hreply : processThread cfg { w with left := wrap32 (w.left - 50), pc := .reply site }
        (.pipeSend (wrap32 (-1 * wrap32 (w.left - 50)))) = some _ :=
      processThread_of_workerStep (.reply _ site rfl)
    rw [stubResult_over next hleft]
    simp only [stubActs, Option.elim_some, List.cons_append, List.nil_append, Option.getD_some]
    rw [LTS.exec_cons_of_step _ hcharge, LTS.exec_cons_of_step _ hreply, LTS.exec_singleton]
    by_cases hnext : next ≤ 0
    · rw [if_pos hnext, if_pos (by decide)]
      have hstep : processThread cfg { w with left := wrap32 (w.left - 50), pc := .nextCmd site }
          (.pipeRead next) = some _ := processThread_of_workerStep (.nextCmdExit _ site next rfl hnext)
      exact hstep
    · rw [if_neg hnext, if_neg (by decide)]
      have hstep : processThread cfg { w with left := wrap32 (w.left - 50), pc := .nextCmd site }
          (.pipeRead next) = some _ := processThread_of_workerStep (.nextCmd _ site next rfl (by omega))
      exact hstep
  · have hcharge : processThread cfg w (.charge 50) = some _ :=
      processThread_of_workerStep (.charge w site hpc (by omega))
    rw [stubResult_within next hleft]
    simp only [stubActs, Option.elim_some, Option.elim_none, List.cons_append, List.nil_append,
      List.append_nil, Option.getD_none]
    rw [LTS.exec_cons_of_step _ hcharge, LTS.exec_singleton]
    by_cases hret : fallOff < 0
    · rw [if_pos hret]
      have hstep : processThread cfg { w with left := wrap32 (w.left - 50), pc := .fallOff site }
          (.fallOff fallOff) = some _ := processThread_of_workerStep (.fallOffExit _ site fallOff rfl hret)
      exact hstep
    · rw [if_neg hret]
      have hstep : processThread cfg { w with left := wrap32 (w.left - 50), pc := .fallOff site }
          (.fallOff fallOff) = some _ := processThread_of_workerStep (.fallOff _ site fallOff rfl (by omega))
      exact hstep

end VtRouter.Analysis
