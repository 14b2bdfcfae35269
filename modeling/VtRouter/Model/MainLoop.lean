import VtRouter.Model.Command
import VtRouter.Model.ProcessThread

/-!
# The main loop

One round of the loop in `main` asks the kernel for a command, hands the budget to the worker
unless the worker is flagged as blocked, and books the time of the reply.  A step is atomic
between two accesses to the pipes and flags it shares with the worker.
-/

set_option autoImplicit false

namespace VtRouter.Model

open Library

/-- The control points of the loop and of the shutdown behind it.
SOURCE: router_app_vt.c:400-461 -/
inductive MainPc
  | ackAndGetNextCommand
  | testBlocked
  | sendBudget
  | waitReply
  | setStop
  | sendExiting
  | pthreadJoin
  | joined
  deriving DecidableEq

/-- The variables of the loop. -/
structure Main where
  pc : MainPc
  perRoundAdvance : ℤ
  ret : ℤ
  timeElapsed : ℤ

/-- SOURCE: router_app_vt.c:376-404 -/
def Main.init : Main := ⟨.ackAndGetNextCommand, 100, 0, 0⟩

/-- What a step of main exchanges with its environment.  `ackAndGetNextCommand` carries the
payload of the kernel, the error main reports and the budget it takes over. -/
inductive MainAct
  | ackAndGetNextCommand (payload : Option (List UInt8)) (advanceErr perRoundAdvance : ℤ)
  | readIsBlocked (isBlocked : Bool)
  | pipeSend (msg : ℤ)
  | pipeRead (msg : ℤ)
  | writeStop
  | pthreadJoin
  deriving DecidableEq

/-- The three branches for a reply. -/
inductive Reply
  | blocked
  | returned
  | weird
  deriving DecidableEq

/-- SOURCE: router_app_vt.c:418-436 -/
def classify (ret : ℤ) : Reply :=
  if ret = threadBlocked then .blocked else if 0 ≤ ret then .returned else .weird

/-- Main behind a reply.
SOURCE: router_app_vt.c:418-436 -/
def afterReply (m : Main) (ret : ℤ) : Main :=
  match classify ret with
  | .blocked =>
      { m with
        pc := .ackAndGetNextCommand
        ret := 0
        timeElapsed := wrap32 (m.timeElapsed + m.perRoundAdvance) }
  | .returned =>
      { m with
        pc := .ackAndGetNextCommand
        ret := ret
        timeElapsed := wrap32 (wrap32 (m.timeElapsed + ret) + m.perRoundAdvance) }
  | .weird => { m with pc := .ackAndGetNextCommand, ret := 0 }

/-- INTERNAL: a reply that is no weird value takes main to its next command.
SOURCE: router_app_vt.c:418-436 -/
theorem afterReply_pc (m : Main) (msg : ℤ) : (afterReply m msg).pc = .ackAndGetNextCommand := by
  unfold afterReply
  split <;> rfl

/-- Main behind its test of `args.is_blocked`.
SOURCE: router_app_vt.c:414, 438-447 -/
def afterTest (m : Main) (isBlocked : Bool) : Main :=
  if isBlocked then
    { m with
      pc := .ackAndGetNextCommand
      ret := 0
      timeElapsed := wrap32 (m.timeElapsed + m.perRoundAdvance) }
  else { m with pc := .sendBudget }

/-- One step of main, `none` where the label does not belong to the control point.
SOURCE: router_app_vt.c:400-461 -/
def mainLoop (m : Main) (act : MainAct) : Option Main :=
  match m.pc, act with
  | .ackAndGetNextCommand, .ackAndGetNextCommand payload advanceErr perRoundAdvance =>
      match ackAndGetNextCommand payload with
      | .ok ack =>
          if advanceErr = m.ret ∧ perRoundAdvance = ack.ret then
            some { m with
              pc := if perRoundAdvance = -1 then .setStop else .testBlocked
              perRoundAdvance := perRoundAdvance }
          else none
      | .error _ => none
  | .testBlocked, .readIsBlocked isBlocked => some (afterTest m isBlocked)
  | .sendBudget, .pipeSend msg =>
      if msg = m.perRoundAdvance then some { m with pc := .waitReply } else none
  | .waitReply, .pipeRead msg => some (afterReply m msg)
  | .setStop, .writeStop => some { m with pc := .sendExiting }
  | .sendExiting, .pipeSend msg =>
      if msg = threadExiting then some { m with pc := .pthreadJoin } else none
  | .pthreadJoin, .pthreadJoin => some { m with pc := .joined }
  | _, _ => none

/-! ## The steps by name -/

/-- The steps of main, one constructor a branch of the loop. -/
inductive MainStep : Main → MainAct → Main → Prop
  | stop (m : Main) (payload : Option (List UInt8)) (ack : Ack)
      (hpc : m.pc = .ackAndGetNextCommand) (hack : ackAndGetNextCommand payload = .ok ack)
      (hret : ack.ret = -1) :
      MainStep m (.ackAndGetNextCommand payload m.ret (-1))
        { m with pc := .setStop, perRoundAdvance := -1 }
  | command (m : Main) (payload : Option (List UInt8)) (ack : Ack)
      (hpc : m.pc = .ackAndGetNextCommand) (hack : ackAndGetNextCommand payload = .ok ack)
      (hret : ack.ret ≠ -1) :
      MainStep m (.ackAndGetNextCommand payload m.ret ack.ret)
        { m with pc := .testBlocked, perRoundAdvance := ack.ret }
  | skip (m : Main) (hpc : m.pc = .testBlocked) :
      MainStep m (.readIsBlocked true)
        { m with
          pc := .ackAndGetNextCommand
          ret := 0
          timeElapsed := wrap32 (m.timeElapsed + m.perRoundAdvance) }
  | test (m : Main) (hpc : m.pc = .testBlocked) :
      MainStep m (.readIsBlocked false) { m with pc := .sendBudget }
  | sendBudget (m : Main) (hpc : m.pc = .sendBudget) :
      MainStep m (.pipeSend m.perRoundAdvance) { m with pc := .waitReply }
  | reply (m : Main) (msg : ℤ) (hpc : m.pc = .waitReply) :
      MainStep m (.pipeRead msg) (afterReply m msg)
  | setStop (m : Main) (hpc : m.pc = .setStop) :
      MainStep m .writeStop { m with pc := .sendExiting }
  | sendExiting (m : Main) (hpc : m.pc = .sendExiting) :
      MainStep m (.pipeSend threadExiting) { m with pc := .pthreadJoin }
  | pthreadJoin (m : Main) (hpc : m.pc = .pthreadJoin) :
      MainStep m .pthreadJoin { m with pc := .joined }

/-- **Inversion of main's step function.** -/
theorem mainStep_of_mainLoop {m m' : Main} {act : MainAct} (h : mainLoop m act = some m') :
    MainStep m act m' := by
  unfold mainLoop at h
  split at h
  · rename_i payload advanceErr perRoundAdvance hpc
    split at h
    · rename_i ack hack
      split at h
      · rename_i hargs
        obtain ⟨rfl, rfl⟩ := hargs
        cases h
        by_cases hret : ack.ret = -1
        · rw [if_pos hret, hret]
          exact .stop m payload ack hpc hack hret
        · rw [if_neg hret]
          exact .command m payload ack hpc hack hret
      · cases h
    · cases h
  · rename_i isBlocked hpc
    cases h
    cases isBlocked with
    | true => exact .skip m hpc
    | false => exact .test m hpc
  · rename_i msg hpc
    split at h
    · rename_i hmsg
      cases h
      rw [hmsg]
      exact .sendBudget m hpc
    · cases h
  · rename_i msg hpc
    cases h
    exact .reply m msg hpc
  · rename_i hpc
    cases h
    exact .setStop m hpc
  · rename_i msg hpc
    split at h
    · rename_i hmsg
      cases h
      rw [hmsg]
      exact .sendExiting m hpc
    · cases h
  · rename_i hpc
    cases h
    exact .pthreadJoin m hpc
  · cases h

/-- INTERNAL: every step by name is a step of the function. -/
theorem mainLoop_of_mainStep {m m' : Main} {act : MainAct} (h : MainStep m act m') :
    mainLoop m act = some m' := by
  cases h <;> simp_all [mainLoop, afterTest]

end VtRouter.Model
