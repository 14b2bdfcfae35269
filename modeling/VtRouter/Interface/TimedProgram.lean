import VtRouter.Interface.Phases
import VtRouter.Model.TimedProgram

/-!
# The test programs as main sees them

To main a test program under virtual time is a worker like that of the router.  Its thread goes
through the same phases (`phaseStep_of_threadStep`), and its pipes are read and written by the
same calls (`pipesCarry_main`, `pipesCarry_thread`), so the protocol that is proved over phases
and queues is the one it follows too.

`onPipes` is a step of the thread as far as pipes, flags and budgets go; a step of the program is
to main what a poll is.
-/

set_option autoImplicit false

namespace VtRouter.Interface

open Library VtRouter.Model

variable {α : Type}

/-- The phase of a control point. -/
def threadPhase : ThreadPc → Phase
  | .firstCmd | .nextCmd | .resumeCmd => .listening
  | .announce => .announcing
  | .blocked | .resume => .blocked
  | .finished => .finished
  | _ => .computing

/-- A step of a thread, seen from the pipes. -/
def onPipes : ThreadAct α → WorkerAct
  | .pipeRead msg => .pipeRead msg
  | .pipeSend msg => .pipeSend msg
  | .readStop stop => .readStop stop
  | .writeIsBlocked isBlocked => .writeIsBlocked isBlocked
  | .charge cost => .charge cost
  | .unregistered => .tau
  | .fallOff ret => .fallOff ret
  | .op _ => .poll .interrupted

/-- A step of a host, seen from the pipes. -/
def labelOnPipes : TimedLabel α → Label
  | .main act => .main act
  | .thread act => .worker (onPipes act)
  | .arrive _ _ => .arrive 0 []

/-! ## The budget -/

/-- The budget left at a control point is that of an `int` that `update_stub` has not yet
taken below zero. -/
def ThreadLeftOk (w : Thread α) : Prop :=
  match w.pc with
  | .reply => -50 ≤ w.left ∧ w.left ≤ 0
  | .fallOff => 0 < w.left ∧ w.left < 2 ^ 31
  | pc => threadPhase pc = .computing → 0 ≤ w.left ∧ w.left < 2 ^ 31

/-- Whatever is registered costs 50 microseconds. -/
def CostsFifty (P : TestProgram) : Prop :=
  ∀ lastFn cost, P.timeUs lastFn = .ok (some cost) → cost = 50

/-- INTERNAL: where a program goes on it computes, with no charge behind it. -/
theorem threadPhase_behind (P : TestProgram) (act : TestAct α) :
    threadPhase (P.behind act) = .computing ∧ P.behind act ≠ .reply ∧ P.behind act ≠ .fallOff := by
  unfold TestProgram.behind
  split
  · exact ⟨rfl, nofun, nofun⟩
  · exact ⟨rfl, nofun, nofun⟩

/-- INTERNAL: the bound that `ThreadLeftOk` gives in front of a charge. -/
theorem ThreadLeftOk.range {w : Thread α} (h : ThreadLeftOk w)
    (hphase : threadPhase w.pc = .computing) (hreply : w.pc ≠ .reply) :
    0 ≤ w.left ∧ w.left < 2 ^ 31 := by
  unfold ThreadLeftOk at h
  split at h
  · rename_i hpc
    exact absurd hpc hreply
  · exact ⟨le_of_lt h.1, h.2⟩
  · exact h hphase

/-- INTERNAL: a thread with a budget in range that is neither over nor behind a deduction. -/
theorem threadLeftOk_of_range {w : Thread α} (h : 0 ≤ w.left ∧ w.left < 2 ^ 31)
    (hreply : w.pc ≠ .reply) (hfall : w.pc ≠ .fallOff) : ThreadLeftOk w := by
  unfold ThreadLeftOk
  split
  · rename_i hpc
    exact absurd hpc hreply
  · rename_i hpc
    exact absurd hpc hfall
  · exact fun _ => h

/-- INTERNAL: outside a computation the budget is not looked at. -/
theorem threadLeftOk_of_not_computing {w : Thread α} (h : threadPhase w.pc ≠ .computing) :
    ThreadLeftOk w := by
  unfold ThreadLeftOk
  split
  · rename_i hpc
    rw [hpc] at h
    exact absurd rfl h
  · rename_i hpc
    rw [hpc] at h
    exact absurd rfl h
  · exact fun hc => absurd hc h

/-- **The budget stays in range**, provided main only sends numbers in range.
SOURCE: client_n_vt.c:155-189, server_n_vt.c:154-188 -/
theorem threadLeftOk_step [DecidableEq α] {P : TestProgram} (hcost : CostsFifty P) {w w' : Thread α}
    {act : ThreadAct α} (hleft : ThreadLeftOk w)
    (hread : ∀ msg, act = .pipeRead msg → msg < 2 ^ 31) (h : ThreadStep P w act w') :
    ThreadLeftOk w' := by
  cases h with
  | firstCmdExit msg hpc hmsg | nextCmdExit msg hpc hmsg | resumeCmdExit msg hpc hmsg
  | headExit hpc hhead | fallOffExit ret hpc hret | testStopExit hpc | resumeStopExit hpc
  | needToBlock hpc hblocks | announce hpc | call act vars hpc hstep | resume hpc | reply hpc =>
      exact threadLeftOk_of_not_computing nofun
  | firstCmd msg hpc hmsg =>
      exact threadLeftOk_of_range ⟨hmsg, hread msg rfl⟩ nofun nofun
  | nextCmd msg hpc hmsg | resumeCmd msg hpc hmsg =>
      exact threadLeftOk_of_range ⟨le_of_lt hmsg, hread msg rfl⟩ nofun nofun
  | head vars hpc hhead hstep =>
      have hrange := hleft.range (by rw [hpc]; rfl) (by rw [hpc]; nofun)
      exact threadLeftOk_of_range hrange nofun nofun
  | unregistered lastFn hpc htime | fallOff ret hpc hret | testStop hpc | resumeStop hpc =>
      have hrange := hleft.range (by rw [hpc]; rfl) (by rw [hpc]; nofun)
      exact threadLeftOk_of_range hrange nofun nofun
  | op act vars hpc hhead hblocks hstep =>
      have hrange := hleft.range (by rw [hpc]; rfl) (by rw [hpc]; nofun)
      obtain ⟨-, hreply, hfall⟩ := threadPhase_behind P act
      exact threadLeftOk_of_range hrange hreply hfall
  | chargeOver lastFn cost hpc htime hover =>
      obtain ⟨h0, h31⟩ := hleft.range (by rw [hpc]; rfl) (by rw [hpc]; nofun)
      rw [hcost lastFn cost htime, wrap32_deduct h0 h31] at hover ⊢
      show -50 ≤ w.left - 50 ∧ w.left - 50 ≤ 0
      omega
  | charge lastFn cost hpc htime hmore =>
      obtain ⟨h0, h31⟩ := hleft.range (by rw [hpc]; rfl) (by rw [hpc]; nofun)
      rw [hcost lastFn cost htime, wrap32_deduct h0 h31] at hmore ⊢
      show 0 < w.left - 50 ∧ w.left - 50 < 2 ^ 31
      omega

/-- **The steps of a thread move it through the phases.**
SOURCE: client_n_vt.c:155-189, 252-376, server_n_vt.c:154-188, 275-331 -/
theorem phaseStep_of_threadStep [DecidableEq α] {P : TestProgram} {w w' : Thread α} {act : ThreadAct α}
    (hleft : ThreadLeftOk w) (h : ThreadStep P w act w') :
    PhaseStep (threadPhase w.pc) (onPipes act) (threadPhase w'.pc) := by
  cases h with
  | firstCmdExit msg hpc hmsg | nextCmdExit msg hpc hmsg | resumeCmdExit msg hpc hmsg =>
      rw [hpc]
      exact .receive msg _ (Or.inr rfl) fun _ => rfl
  | firstCmd msg hpc hmsg | nextCmd msg hpc hmsg | resumeCmd msg hpc hmsg =>
      rw [hpc]
      exact .receive msg _ (Or.inl rfl) fun hneg => by omega
  | headExit hpc hhead | fallOffExit ret hpc hret | testStopExit hpc | resumeStopExit hpc =>
      rw [hpc]
      exact .compute _ _ trivial (Or.inr rfl)
  | head vars hpc hhead hstep =>
      rw [hpc]
      exact .compute _ _ trivial (Or.inl rfl)
  | unregistered lastFn hpc htime =>
      rw [hpc]
      exact .compute _ _ trivial (Or.inl rfl)
  | chargeOver lastFn cost hpc htime hover | charge lastFn cost hpc htime hmore =>
      rw [hpc]
      exact .compute _ _ trivial (Or.inl rfl)
  | fallOff ret hpc hret | testStop hpc | resumeStop hpc =>
      rw [hpc]
      exact .compute _ _ trivial (Or.inl rfl)
  | op act vars hpc hhead hblocks hstep =>
      rw [hpc]
      exact .compute _ _ trivial (Or.inl (threadPhase_behind P act).1)
  | reply hpc =>
      unfold ThreadLeftOk at hleft
      rw [hpc] at hleft ⊢
      simp only at hleft
      rw [wrap32_overrun hleft.1 hleft.2]
      exact .reply _ (by omega) (by omega)
  | needToBlock hpc hblocks =>
      rw [hpc]
      exact .block
  | announce hpc =>
      rw [hpc]
      exact .announce
  | call act vars hpc hstep =>
      rw [hpc]
      exact .poll _ _ (Or.inl rfl)
  | resume hpc =>
      rw [hpc]
      exact .wake

/-! ## The pipes -/

/-- The byte streams hold the texts of the messages in the queues. -/
structure PipesCarry (p : Pipes) (c : Channels) : Prop where
  mainToThread : p.mainToThread = c.toWorker.flatMap intText
  threadToMain : p.threadToMain = c.toMain.flatMap intText
  isBlocked : p.isBlocked = c.isBlocked
  stop : p.stop = c.stop

/-- INTERNAL: **the byte stream refines the queue** for the steps of main.
SOURCE: client_n_vt.c:56-96, server_n_vt.c:56-95 -/
theorem pipesCarry_main {p p' : Pipes} {c : Channels} {pc : ThreadPc} {act : MainAct}
    (hc : PipesCarry p c) (hsmall : c.Small) (h : p.main pc act = some p') :
    ∃ c', c.main act = some c' ∧ PipesCarry p' c' := by
  obtain ⟨hmt, htm, hb, hs⟩ := hc
  cases act with
  | ackAndGetNextCommand payload advanceErr perRoundAdvance =>
      cases h
      exact ⟨c, rfl, hmt, htm, hb, hs⟩
  | readIsBlocked isBlocked =>
      simp only [Pipes.main] at h
      split at h
      · rename_i heq
        cases h
        exact ⟨c, if_pos (heq.trans hb), hmt, htm, hb, hs⟩
      · cases h
  | pipeSend msg =>
      cases h
      exact ⟨_, rfl, by rw [hmt, pipeSend_flatMap], htm, hb, hs⟩
  | pipeRead msg =>
      simp only [Pipes.main] at h
      split at h
      · rename_i x rest hread
        split at h
        · rename_i hmsg
          subst hmsg
          cases h
          rw [htm] at hread
          obtain ⟨hone, rfl⟩ := pipeRead_flatMap hsmall.toMain.1 hsmall.toMain.2 hread
          refine ⟨{ c with toMain := [] }, ?_, hmt, rfl, hb, hs⟩
          simp only [Channels.main, hone, if_true]
        · cases h
      · cases h
  | writeStop =>
      cases h
      exact ⟨_, rfl, hmt, htm, hb, rfl⟩
  | pthreadJoin =>
      simp only [Pipes.main] at h
      split at h
      · cases h
        exact ⟨c, rfl, hmt, htm, hb, hs⟩
      · cases h

/-- INTERNAL: **the byte stream refines the queue** for the steps of the thread.
SOURCE: client_n_vt.c:56-96, server_n_vt.c:56-95 -/
theorem pipesCarry_thread {p p' : Pipes} {c : Channels} {act : ThreadAct α}
    (hc : PipesCarry p c) (hsmall : c.Small) (h : p.thread act = some p') :
    ∃ c', c.worker (onPipes act) = some c' ∧ PipesCarry p' c' := by
  obtain ⟨hmt, htm, hb, hs⟩ := hc
  cases act with
  | pipeRead msg =>
      simp only [Pipes.thread] at h
      split at h
      · rename_i x rest hread
        split at h
        · rename_i hmsg
          subst hmsg
          cases h
          rw [hmt] at hread
          obtain ⟨hone, rfl⟩ := pipeRead_flatMap hsmall.toWorker.1 hsmall.toWorker.2 hread
          refine ⟨{ c with toWorker := [] }, ?_, rfl, htm, hb, hs⟩
          simp only [onPipes, Channels.worker, hone, if_true]
        · cases h
      · cases h
  | pipeSend msg =>
      cases h
      exact ⟨_, rfl, hmt, by rw [htm, pipeSend_flatMap], hb, hs⟩
  | readStop stop =>
      simp only [Pipes.thread] at h
      split at h
      · rename_i heq
        cases h
        exact ⟨c, if_pos (heq.trans hs), hmt, htm, hb, hs⟩
      · cases h
  | writeIsBlocked isBlocked =>
      cases h
      exact ⟨_, rfl, hmt, htm, rfl, hs⟩
  | charge cost | unregistered | fallOff ret | op act =>
      cases h
      exact ⟨c, rfl, hmt, htm, hb, hs⟩

end VtRouter.Interface
