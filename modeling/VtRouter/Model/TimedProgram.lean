import VtRouter.Model.System
import VtRouter.Model.TestPrograms

/-!
# The test programs under virtual time

`client_n_vt.c` and `server_n_vt.c` put the same calls around the steps of their programs that the
router puts around its own: an `update_stub` behind a step that costs time, the announcement
before a step that may wait and the next command behind it, and a test of `arg->stop` at the top
of the loop.  The two differ in what they register and in the names they pass (`TestProgram`);
both threads are `testThread` of their program.

The main loops of the two programs and of the router are the same, so is `update_stub`.
-/

set_option autoImplicit false

namespace VtRouter.Model

open Library

variable {α : Type} [DecidableEq α]

/-- What a virtual-time program registers in `init_func_times`, and the name it passes to
`update_stub` behind a step, `none` where it does not call it. -/
structure TestProgram where
  funcTimes : List (String × ℤ)
  lastFn : {α : Type} → TestAct α → Option String

/-- SOURCE: client_n_vt.c:198-208, 289, 306, 316, 373 -/
def clientNVt : TestProgram where
  funcTimes := clientFuncTimes
  lastFn := fun act => match act with
    | .flushBuffer => some "flush_buffer"
    | .sendto _ _ => some "send_to"
    | .computation => some "computation"
    | _ => none

/-- SOURCE: server_n_vt.c:50-52, 197-207, 288, 319, 327 -/
def serverNVt : TestProgram where
  funcTimes := [("sendto", 50), ("flush_buffer", 50), ("fill_buffer", 50)]
  lastFn := fun act => match act with
    | .flushBuffer => some "flush_buffer"
    | .fillBuffer => some "fill_buffer"
    | .sendto _ _ => some "sendto"
    | _ => none

/-- What `update_stub` finds for a function.
SOURCE: client_n_vt.c:168-172, server_n_vt.c:167-171 -/
def TestProgram.timeUs (P : TestProgram) (lastFn : String) : Except Fault (Option ℤ) := do
  let funcTimesUs ← P.funcTimes.foldlM
    (fun h t => hmapPutAbs h (cAbs (strHash (bytes t.1))) t.2) (hmapInit 1000)
  hmapGetAbs funcTimesUs (cAbs (strHash (bytes lastFn)))

/-- The control points of a thread.  While it is `running` its program has the turn; `blocked` is
the call that may wait. -/
inductive ThreadPc
  | firstCmd
  | running
  | updateStub (lastFn : String)
  | reply
  | nextCmd
  | fallOff
  | testStop
  | announce
  | blocked
  | resume
  | resumeCmd
  | resumeStop
  | finished
  deriving DecidableEq

/-- A thread: the budget left in the round, and the variables of its program. -/
structure Thread (α : Type) where
  pc : ThreadPc
  left : ℤ
  vars : TestVars α

/-- What a step of a thread exchanges with its environment. -/
inductive ThreadAct (α : Type)
  | pipeRead (msg : ℤ)
  | pipeSend (msg : ℤ)
  | readStop (stop : Bool)
  | writeIsBlocked (isBlocked : Bool)
  | charge (cost : ℤ)
  | unregistered
  | fallOff (ret : ℤ)
  | op (act : TestAct α)
  deriving DecidableEq

/-- Where the thread is behind a step of its program. -/
def TestProgram.behind (P : TestProgram) (act : TestAct α) : ThreadPc :=
  match P.lastFn act with
  | some lastFn => .updateStub lastFn
  | none => .running

/-- The program makes a step, and the thread goes on to `next`. -/
def Thread.perform (w : Thread α) (act : TestAct α) (next : ThreadPc) : Option (Thread α) :=
  (w.vars.step .flushBuffer act).map fun vars => { w with vars := vars, pc := next }

/-- One step of a thread, `none` where the label does not belong to the control point.
SOURCE: client_n_vt.c:155-196, 252-376, server_n_vt.c:154-195, 275-331 -/
def testThread (P : TestProgram) (w : Thread α) (act : ThreadAct α) : Option (Thread α) :=
  match w.pc, act with
  | .firstCmd, .pipeRead msg =>
      some { w with left := msg, pc := if msg < 0 then .finished else .running }
  | .running, .readStop stop =>
      if w.vars.head then
        if stop then some { w with pc := .finished } else w.perform .loop .running
      else none
  | .running, .writeIsBlocked true =>
      if w.vars.blocks then some { w with left := 0, pc := .announce } else none
  | .running, .op act =>
      if w.vars.head || w.vars.blocks then none else w.perform act (P.behind act)
  | .updateStub lastFn, .unregistered =>
      match P.timeUs lastFn with
      | .ok none => some { w with pc := .testStop }
      | _ => none
  | .updateStub lastFn, .charge cost =>
      match P.timeUs lastFn with
      | .ok (some timeElapsed) =>
          if cost = timeElapsed then
            let left := wrap32 (w.left - timeElapsed)
            some { w with left := left, pc := if left ≤ 0 then .reply else .fallOff }
          else none
      | _ => none
  | .reply, .pipeSend msg =>
      if msg = wrap32 (-1 * w.left) then some { w with pc := .nextCmd } else none
  | .nextCmd, .pipeRead msg =>
      some { w with left := msg, pc := if msg ≤ 0 then .finished else .testStop }
  | .fallOff, .fallOff ret => some { w with pc := if ret < 0 then .finished else .testStop }
  | .testStop, .readStop stop => some { w with pc := if stop then .finished else .running }
  | .announce, .pipeSend msg =>
      if msg = threadBlocked then some { w with pc := .blocked } else none
  | .blocked, .op act => w.perform act .resume
  | .resume, .writeIsBlocked false => some { w with pc := .resumeCmd }
  | .resumeCmd, .pipeRead msg =>
      some { w with left := msg, pc := if msg ≤ 0 then .finished else .resumeStop }
  | .resumeStop, .readStop stop => some { w with pc := if stop then .finished else .running }
  | _, _ => none

/-! ## With the main loop -/

/-- What the two threads of a program share. -/
structure Pipes where
  mainToThread : List UInt8
  threadToMain : List UInt8
  isBlocked : Bool
  stop : Bool

structure TimedState (α : Type) where
  main : Main
  thread : Thread α
  pipes : Pipes
  inbox : List (α × List UInt8)

inductive TimedLabel (α : Type)
  | main (act : MainAct)
  | thread (act : ThreadAct α)
  | arrive (src : α) (data : List UInt8)
  deriving DecidableEq

/-- The effect of a step of main, `none` where the step has to wait. -/
def Pipes.main (p : Pipes) (pc : ThreadPc) : MainAct → Option Pipes
  | .ackAndGetNextCommand _ _ _ => some p
  | .readIsBlocked isBlocked => if isBlocked = p.isBlocked then some p else none
  | .pipeSend msg => some { p with mainToThread := pipeSend p.mainToThread msg }
  | .pipeRead msg =>
      match pipeRead p.threadToMain with
      | some (x, rest) => if msg = x then some { p with threadToMain := rest } else none
      | none => none
  | .writeStop => some { p with stop := true }
  | .pthreadJoin => if pc = .finished then some p else none

/-- The effect of a step of the thread, `none` where the step has to wait. -/
def Pipes.thread (p : Pipes) : ThreadAct α → Option Pipes
  | .pipeRead msg =>
      match pipeRead p.mainToThread with
      | some (x, rest) => if msg = x then some { p with mainToThread := rest } else none
      | none => none
  | .pipeSend msg => some { p with threadToMain := pipeSend p.threadToMain msg }
  | .readStop stop => if stop = p.stop then some p else none
  | .writeIsBlocked isBlocked => some { p with isBlocked := isBlocked }
  | _ => some p

/-- The datagrams left at the socket by a step of the thread. -/
def threadInbox (fails : Bool) (inbox : List (α × List UInt8)) :
    ThreadAct α → Option (List (α × List UInt8))
  | .op act => inboxAfter fails inbox act
  | _ => some inbox

/-- One step of a program under virtual time or of the network. -/
def timedStep (fails : Bool) (P : TestProgram) (s : TimedState α) :
    TimedLabel α → Option (TimedState α)
  | .main act =>
      match mainLoop s.main act, s.pipes.main s.thread.pc act with
      | some m, some p => some { s with main := m, pipes := p }
      | _, _ => none
  | .thread act =>
      match testThread P s.thread act, s.pipes.thread act, threadInbox fails s.inbox act with
      | some w, some p, some inbox => some { s with thread := w, pipes := p, inbox := inbox }
      | _, _, _ => none
  | .arrive src data => some { s with inbox := s.inbox ++ [(src, data)] }

/-- The virtual-time version of what runs on a host. -/
def Role.program : Role α → TestProgram
  | .client _ => clientNVt
  | .server => serverNVt

/-- **A host** with one of the virtual-time test programs.
SOURCE: client_n_vt.c:647-729, server_n_vt.c:591-673 -/
def timedHost (fails : Bool) (role : Role α) : LTS (TimedState α) (TimedLabel α) :=
  ⟨⟨.init, ⟨.firstCmd, 0, role.init⟩, ⟨[], [], false, false⟩, []⟩, timedStep fails role.program⟩

/-! ## The steps by name -/

/-- The steps of a thread, one constructor a branch. -/
inductive ThreadStep (P : TestProgram) : Thread α → ThreadAct α → Thread α → Prop
  | firstCmdExit (w : Thread α) (msg : ℤ) (hpc : w.pc = .firstCmd) (hmsg : msg < 0) :
      ThreadStep P w (.pipeRead msg) { w with left := msg, pc := .finished }
  | firstCmd (w : Thread α) (msg : ℤ) (hpc : w.pc = .firstCmd) (hmsg : 0 ≤ msg) :
      ThreadStep P w (.pipeRead msg) { w with left := msg, pc := .running }
  | headExit (w : Thread α) (hpc : w.pc = .running) (hhead : w.vars.head = true) :
      ThreadStep P w (.readStop true) { w with pc := .finished }
  | head (w : Thread α) (vars : TestVars α) (hpc : w.pc = .running) (hhead : w.vars.head = true)
      (hstep : w.vars.step .flushBuffer .loop = some vars) :
      ThreadStep P w (.readStop false) { w with vars := vars, pc := .running }
  | needToBlock (w : Thread α) (hpc : w.pc = .running) (hblocks : w.vars.blocks = true) :
      ThreadStep P w (.writeIsBlocked true) { w with left := 0, pc := .announce }
  | op (w : Thread α) (act : TestAct α) (vars : TestVars α) (hpc : w.pc = .running)
      (hhead : w.vars.head = false) (hblocks : w.vars.blocks = false)
      (hstep : w.vars.step .flushBuffer act = some vars) :
      ThreadStep P w (.op act) { w with vars := vars, pc := P.behind act }
  | unregistered (w : Thread α) (lastFn : String) (hpc : w.pc = .updateStub lastFn)
      (htime : P.timeUs lastFn = .ok none) :
      ThreadStep P w .unregistered { w with pc := .testStop }
  | chargeOver (w : Thread α) (lastFn : String) (cost : ℤ) (hpc : w.pc = .updateStub lastFn)
      (htime : P.timeUs lastFn = .ok (some cost)) (hleft : wrap32 (w.left - cost) ≤ 0) :
      ThreadStep P w (.charge cost) { w with left := wrap32 (w.left - cost), pc := .reply }
  | charge (w : Thread α) (lastFn : String) (cost : ℤ) (hpc : w.pc = .updateStub lastFn)
      (htime : P.timeUs lastFn = .ok (some cost)) (hleft : 0 < wrap32 (w.left - cost)) :
      ThreadStep P w (.charge cost) { w with left := wrap32 (w.left - cost), pc := .fallOff }
  | reply (w : Thread α) (hpc : w.pc = .reply) :
      ThreadStep P w (.pipeSend (wrap32 (-1 * w.left))) { w with pc := .nextCmd }
  | nextCmdExit (w : Thread α) (msg : ℤ) (hpc : w.pc = .nextCmd) (hmsg : msg ≤ 0) :
      ThreadStep P w (.pipeRead msg) { w with left := msg, pc := .finished }
  | nextCmd (w : Thread α) (msg : ℤ) (hpc : w.pc = .nextCmd) (hmsg : 0 < msg) :
      ThreadStep P w (.pipeRead msg) { w with left := msg, pc := .testStop }
  | fallOffExit (w : Thread α) (ret : ℤ) (hpc : w.pc = .fallOff) (hret : ret < 0) :
      ThreadStep P w (.fallOff ret) { w with pc := .finished }
  | fallOff (w : Thread α) (ret : ℤ) (hpc : w.pc = .fallOff) (hret : 0 ≤ ret) :
      ThreadStep P w (.fallOff ret) { w with pc := .testStop }
  | testStopExit (w : Thread α) (hpc : w.pc = .testStop) :
      ThreadStep P w (.readStop true) { w with pc := .finished }
  | testStop (w : Thread α) (hpc : w.pc = .testStop) :
      ThreadStep P w (.readStop false) { w with pc := .running }
  | announce (w : Thread α) (hpc : w.pc = .announce) :
      ThreadStep P w (.pipeSend threadBlocked) { w with pc := .blocked }
  | call (w : Thread α) (act : TestAct α) (vars : TestVars α) (hpc : w.pc = .blocked)
      (hstep : w.vars.step .flushBuffer act = some vars) :
      ThreadStep P w (.op act) { w with vars := vars, pc := .resume }
  | resume (w : Thread α) (hpc : w.pc = .resume) :
      ThreadStep P w (.writeIsBlocked false) { w with pc := .resumeCmd }
  | resumeCmdExit (w : Thread α) (msg : ℤ) (hpc : w.pc = .resumeCmd) (hmsg : msg ≤ 0) :
      ThreadStep P w (.pipeRead msg) { w with left := msg, pc := .finished }
  | resumeCmd (w : Thread α) (msg : ℤ) (hpc : w.pc = .resumeCmd) (hmsg : 0 < msg) :
      ThreadStep P w (.pipeRead msg) { w with left := msg, pc := .resumeStop }
  | resumeStopExit (w : Thread α) (hpc : w.pc = .resumeStop) :
      ThreadStep P w (.readStop true) { w with pc := .finished }
  | resumeStop (w : Thread α) (hpc : w.pc = .resumeStop) :
      ThreadStep P w (.readStop false) { w with pc := .running }

/-- **Inversion of the thread's step function.** -/
theorem threadStep_of_testThread {P : TestProgram} {w w' : Thread α} {act : ThreadAct α}
    (h : testThread P w act = some w') : ThreadStep P w act w' := by
  unfold testThread at h
  split at h
  · rename_i msg hpc
    cases h
    by_cases hmsg : msg < 0
    · rw [if_pos hmsg]
      exact .firstCmdExit w msg hpc hmsg
    · rw [if_neg hmsg]
      exact .firstCmd w msg hpc (by omega)
  · rename_i stop hpc
    split at h
    · rename_i hhead
      cases stop with
      | true =>
          cases h
          exact .headExit w hpc hhead
      | false =>
          obtain ⟨vars, hstep, rfl⟩ := Option.map_eq_some_iff.mp h
          exact .head w vars hpc hhead hstep
    · cases h
  · rename_i hpc
    split at h
    · rename_i hblocks
      cases h
      exact .needToBlock w hpc hblocks
    · cases h
  · rename_i act hpc
    split at h
    · cases h
    · rename_i hown
      obtain ⟨vars, hstep, rfl⟩ := Option.map_eq_some_iff.mp h
      rw [Bool.or_eq_true, not_or, Bool.not_eq_true, Bool.not_eq_true] at hown
      exact .op w act vars hpc hown.1 hown.2 hstep
  · rename_i lastFn hpc
    split at h
    · rename_i htime
      cases h
      exact .unregistered w lastFn hpc htime
    · cases h
  · rename_i lastFn cost hpc
    split at h
    · rename_i timeElapsed htime
      split at h
      · rename_i hcost
        subst hcost
        cases h
        by_cases hleft : wrap32 (w.left - cost) ≤ 0
        · rw [if_pos hleft]
          exact .chargeOver w lastFn cost hpc htime hleft
        · rw [if_neg hleft]
          exact .charge w lastFn cost hpc htime (by omega)
      · cases h
    · cases h
  · rename_i msg hpc
    split at h
    · rename_i hmsg
      cases h
      rw [hmsg]
      exact .reply w hpc
    · cases h
  · rename_i msg hpc
    cases h
    by_cases hmsg : msg ≤ 0
    · rw [if_pos hmsg]
      exact .nextCmdExit w msg hpc hmsg
    · rw [if_neg hmsg]
      exact .nextCmd w msg hpc (by omega)
  · rename_i ret hpc
    cases h
    by_cases hret : ret < 0
    · rw [if_pos hret]
      exact .fallOffExit w ret hpc hret
    · rw [if_neg hret]
      exact .fallOff w ret hpc (by omega)
  · rename_i stop hpc
    cases h
    cases stop with
    | true => exact .testStopExit w hpc
    | false => exact .testStop w hpc
  · rename_i msg hpc
    split at h
    · rename_i hmsg
      cases h
      rw [hmsg]
      exact .announce w hpc
    · cases h
  · rename_i act hpc
    obtain ⟨vars, hstep, rfl⟩ := Option.map_eq_some_iff.mp h
    exact .call w act vars hpc hstep
  · rename_i hpc
    cases h
    exact .resume w hpc
  · rename_i msg hpc
    cases h
    by_cases hmsg : msg ≤ 0
    · rw [if_pos hmsg]
      exact .resumeCmdExit w msg hpc hmsg
    · rw [if_neg hmsg]
      exact .resumeCmd w msg hpc (by omega)
  · rename_i stop hpc
    cases h
    cases stop with
    | true => exact .resumeStopExit w hpc
    | false => exact .resumeStop w hpc
  · cases h

/-- INTERNAL: every step by name is a step of the function. -/
theorem testThread_of_threadStep {P : TestProgram} {w w' : Thread α} {act : ThreadAct α}
    (h : ThreadStep P w act w') : testThread P w act = some w' := by
  unfold testThread
  cases h with
  | firstCmdExit msg hpc hmsg | nextCmdExit msg hpc hmsg | resumeCmdExit msg hpc hmsg
  | fallOffExit ret hpc hmsg =>
      rw [hpc]
      simp only [if_pos hmsg]
  | firstCmd msg hpc hmsg | fallOff ret hpc hmsg =>
      rw [hpc]
      simp only [if_neg (Int.not_lt.mpr hmsg)]
  | nextCmd msg hpc hmsg | resumeCmd msg hpc hmsg =>
      rw [hpc]
      simp only [if_neg (Int.not_le.mpr hmsg)]
  | headExit hpc hhead =>
      rw [hpc]
      simp only [hhead, if_true]
  | head vars hpc hhead hstep =>
      rw [hpc]
      simp [hhead, Thread.perform, hstep]
  | needToBlock hpc hblocks =>
      rw [hpc]
      simp only [hblocks, if_true]
  | op act vars hpc hhead hblocks hstep =>
      rw [hpc]
      simp [hhead, hblocks, Thread.perform, hstep]
  | unregistered lastFn hpc htime =>
      rw [hpc]
      simp only [htime]
  | chargeOver lastFn cost hpc htime hleft =>
      rw [hpc]
      simp only [htime, if_true, if_pos hleft]
  | charge lastFn cost hpc htime hleft =>
      rw [hpc]
      simp only [htime, if_true, if_neg (Int.not_le.mpr hleft)]
  | reply hpc | announce hpc =>
      rw [hpc]
      exact if_pos rfl
  | call act vars hpc hstep =>
      rw [hpc]
      simp [Thread.perform, hstep]
  | testStopExit hpc | testStop hpc | resumeStopExit hpc | resumeStop hpc =>
      rw [hpc]
      rfl
  | resume hpc => rw [hpc]

/-- INTERNAL: a step of the system is a step of main, a step of the thread, or an arrival. -/
theorem timedStep_cases {fails : Bool} {P : TestProgram} {s s' : TimedState α} {l : TimedLabel α}
    (h : timedStep fails P s l = some s') :
    (∃ act m p, l = .main act ∧ MainStep s.main act m ∧
      s.pipes.main s.thread.pc act = some p ∧ s' = { s with main := m, pipes := p }) ∨
    (∃ act w p inbox, l = .thread act ∧ ThreadStep P s.thread act w ∧
      s.pipes.thread act = some p ∧ threadInbox fails s.inbox act = some inbox ∧
      s' = { s with thread := w, pipes := p, inbox := inbox }) ∨
    (∃ src data, l = .arrive src data ∧ s' = { s with inbox := s.inbox ++ [(src, data)] }) := by
  cases l with
  | main act =>
      left
      simp only [timedStep] at h
      split at h
      · rename_i m p hm hp
        cases h
        exact ⟨act, m, p, rfl, mainStep_of_mainLoop hm, hp, rfl⟩
      · cases h
  | thread act =>
      right
      left
      simp only [timedStep] at h
      split at h
      · rename_i w p inbox hw hp hinbox
        cases h
        exact ⟨act, w, p, inbox, rfl, threadStep_of_testThread hw, hp, hinbox, rfl⟩
      · cases h
  | arrive src data =>
      right
      right
      cases h
      exact ⟨src, data, rfl, rfl⟩

end VtRouter.Model
