import VtRouter.Library.Transition
import VtRouter.Model.Routing

/-!
# The router without virtual time

The forwarding loop of `router_n`.  It uses the same lookup as the worker of the virtual-time
router, but polls again after its blocking poll, where the worker goes on to the scan, and it
charges nobody for what it does.  As for the worker, a label carries what the step reads or
writes outside the loop.
-/

set_option autoImplicit false

namespace VtRouter.Model

open Library

/-- The control points of the loop of `router_n`.
SOURCE: router_n.c:155-231 -/
inductive LoopPc
  | poll
  | scan
  | recvfrom
  | sendPacket
  | blockingPoll
  | exited
  deriving DecidableEq

/-- The variables of the loop. -/
structure Loop where
  pc : LoopPc
  revents : List Bool
  i : ℕ
  runnable : Bool
  buf : List UInt8
  dataSize : ℤ
  dstSockIdx : ℤ

def Loop.init : Loop := ⟨.poll, [], 0, false, [], 0, 0⟩

/-- What a step of the loop exchanges with the network; `blockingPoll` is `poll` without a
timeout. -/
inductive LoopAct
  | poll (outcome : PollOutcome)
  | blockingPoll (outcome : PollOutcome)
  | recvfrom (i : ℕ) (frame : Option Frame)
  | sendPacket (i : ℕ) (dst : ℤ) (data : List UInt8)
  | tau
  deriving DecidableEq

/-- One round of the loop over the interfaces up to `recvfrom`, or its end.
SOURCE: router_n.c:180-186, 208-217 -/
def scanLoop (cfg : Config) (r : Loop) : Loop :=
  if r.i < cfg.nIntfs then
    if r.revents.getD r.i false then
      { r with runnable := true, buf := List.replicate bufSize 0, pc := .recvfrom }
    else { r with i := r.i + 1 }
  else if r.runnable then { r with pc := .poll }
  else { r with pc := .blockingPoll }

/-- The choice of the interface, and the branch on it.
SOURCE: router_n.c:190-202 -/
def chooseDst (cfg : Config) (r : Loop) : Loop :=
  let dst := getDstSockIdx r.buf cfg.intfNames cfg.routingList
  if dst ≠ -1 then { r with dstSockIdx := dst, pc := .sendPacket }
  else { r with dstSockIdx := dst, pc := .poll }

/-- The buffer and the result of `recvfrom`, and the loop behind it.
SOURCE: router_n.c:188-204 -/
def afterRecvfrom (cfg : Config) (r : Loop) : Option Frame → Loop
  | none => { r with dataSize := -1, i := r.i + 1, pc := .scan }
  | some f =>
      let data := f.take bufSize
      let got : Loop := { r with buf := data ++ r.buf.drop data.length, dataSize := data.length }
      if 0 < got.dataSize then chooseDst cfg got else { got with i := got.i + 1, pc := .scan }

/-- One step of the loop, `none` where the label does not belong to the control point.
SOURCE: router_n.c:155-231 -/
def forwardingLoop (cfg : Config) (r : Loop) (act : LoopAct) : Option Loop :=
  match r.pc, act with
  | .poll, .poll .interrupted => some r
  | .poll, .poll .failed => some { r with pc := .exited }
  | .poll, .poll (.ready revents) =>
      if revents.length = cfg.nIntfs then
        some { r with revents := revents, i := 0, runnable := false, pc := .scan }
      else none
  | .scan, .tau => some (scanLoop cfg r)
  | .recvfrom, .recvfrom i frame => if i = r.i then some (afterRecvfrom cfg r frame) else none
  | .sendPacket, .sendPacket i dst data =>
      if i = r.i ∧ dst = r.dstSockIdx ∧ data = r.buf.take r.dataSize.toNat then
        some { r with i := r.i + 1, pc := .scan }
      else none
  | .blockingPoll, .blockingPoll .interrupted => some r
  | .blockingPoll, .blockingPoll .failed => some { r with pc := .exited }
  | .blockingPoll, .blockingPoll (.ready revents) =>
      if revents.length = cfg.nIntfs then some { r with revents := revents, pc := .poll }
      else none
  | _, _ => none

/-- The loop and the frames waiting at each interface. -/
structure RouterState where
  loop : Loop
  queue : ℕ → List Frame

inductive RouterLabel
  | loop (act : LoopAct)
  | arrive (i : ℕ) (frame : Frame)
  deriving DecidableEq

/-- The effect of a step of the loop on the queues, `none` where there is nothing to take. -/
def queueAfter (queue : ℕ → List Frame) : LoopAct → Option (ℕ → List Frame)
  | .recvfrom i (some frame) =>
      match queue i with
      | f :: rest => if frame = f then some (Function.update queue i rest) else none
      | [] => none
  | .recvfrom _ none | .poll _ | .blockingPoll _ | .sendPacket _ _ _ | .tau => some queue

/-- One step of the loop or the network. -/
def routerStep (cfg : Config) (s : RouterState) : RouterLabel → Option RouterState
  | .loop act =>
      match forwardingLoop cfg s.loop act, queueAfter s.queue act with
      | some r, some queue => some ⟨r, queue⟩
      | _, _ => none
  | .arrive i frame =>
      if i < cfg.nIntfs then
        some { s with queue := Function.update s.queue i (s.queue i ++ [frame]) }
      else none

/-- **The router without virtual time**, for the names of its interfaces and its routing
list. -/
def routerN (cfg : Config) : LTS RouterState RouterLabel :=
  ⟨⟨.init, fun _ => []⟩, routerStep cfg⟩

/-! ## The steps by name -/

/-- The steps of the loop, one constructor a branch. -/
inductive LoopStep (cfg : Config) : Loop → LoopAct → Loop → Prop
  | pollInterrupted (r : Loop) (hpc : r.pc = .poll) : LoopStep cfg r (.poll .interrupted) r
  | pollFailed (r : Loop) (hpc : r.pc = .poll) :
      LoopStep cfg r (.poll .failed) { r with pc := .exited }
  | pollReady (r : Loop) (revents : List Bool) (hpc : r.pc = .poll)
      (hlen : revents.length = cfg.nIntfs) :
      LoopStep cfg r (.poll (.ready revents))
        { r with revents := revents, i := 0, runnable := false, pc := .scan }
  | scan (r : Loop) (hpc : r.pc = .scan) : LoopStep cfg r .tau (scanLoop cfg r)
  | recvfrom (r : Loop) (frame : Option Frame) (hpc : r.pc = .recvfrom) :
      LoopStep cfg r (.recvfrom r.i frame) (afterRecvfrom cfg r frame)
  | sendPacket (r : Loop) (hpc : r.pc = .sendPacket) :
      LoopStep cfg r (.sendPacket r.i r.dstSockIdx (r.buf.take r.dataSize.toNat))
        { r with i := r.i + 1, pc := .scan }
  | blockingInterrupted (r : Loop) (hpc : r.pc = .blockingPoll) :
      LoopStep cfg r (.blockingPoll .interrupted) r
  | blockingFailed (r : Loop) (hpc : r.pc = .blockingPoll) :
      LoopStep cfg r (.blockingPoll .failed) { r with pc := .exited }
  | blockingReady (r : Loop) (revents : List Bool) (hpc : r.pc = .blockingPoll)
      (hlen : revents.length = cfg.nIntfs) :
      LoopStep cfg r (.blockingPoll (.ready revents)) { r with revents := revents, pc := .poll }

/-- **Inversion of the loop's step function.** -/
theorem loopStep_of_forwardingLoop {cfg : Config} {r r' : Loop} {act : LoopAct}
    (h : forwardingLoop cfg r act = some r') : LoopStep cfg r act r' := by
  unfold forwardingLoop at h
  split at h
  · rename_i hpc
    cases h
    exact .pollInterrupted r hpc
  · rename_i hpc
    cases h
    exact .pollFailed r hpc
  · rename_i revents hpc
    split at h
    · rename_i hlen
      cases h
      exact .pollReady r revents hpc hlen
    · cases h
  · rename_i hpc
    cases h
    exact .scan r hpc
  · rename_i i frame hpc
    split at h
    · rename_i hi
      cases h
      rw [hi]
      exact .recvfrom r frame hpc
    · cases h
  · rename_i i dst data hpc
    split at h
    · rename_i hargs
      obtain ⟨rfl, rfl, rfl⟩ := hargs
      cases h
      exact .sendPacket r hpc
    · cases h
  · rename_i hpc
    cases h
    exact .blockingInterrupted r hpc
  · rename_i hpc
    cases h
    exact .blockingFailed r hpc
  · rename_i revents hpc
    split at h
    · rename_i hlen
      cases h
      exact .blockingReady r revents hpc hlen
    · cases h
  · cases h

/-- INTERNAL: every step by name is a step of the function. -/
theorem forwardingLoop_of_loopStep {cfg : Config} {r r' : Loop} {act : LoopAct}
    (h : LoopStep cfg r act r') : forwardingLoop cfg r act = some r' := by
  cases h <;> simp_all [forwardingLoop]

/-- INTERNAL: a step of the system is a step of the loop or an arrival. -/
theorem routerStep_cases {cfg : Config} {s s' : RouterState} {l : RouterLabel}
    (h : routerStep cfg s l = some s') :
    (∃ act r queue, l = .loop act ∧ LoopStep cfg s.loop act r ∧
      queueAfter s.queue act = some queue ∧ s' = ⟨r, queue⟩) ∨
    (∃ i frame, l = .arrive i frame ∧ i < cfg.nIntfs ∧
      s' = { s with queue := Function.update s.queue i (s.queue i ++ [frame]) }) := by
  cases l with
  | loop act =>
      left
      simp only [routerStep] at h
      split at h
      · rename_i r queue hr hqueue
        cases h
        exact ⟨act, r, queue, rfl, loopStep_of_forwardingLoop hr, hqueue, rfl⟩
      · cases h
  | arrive i frame =>
      right
      simp only [routerStep] at h
      split at h
      · rename_i hi
        cases h
        exact ⟨i, frame, rfl, hi, rfl⟩
      · cases h

/-- INTERNAL: a step of the loop with its effect on the queues is a step of the system. -/
theorem routerStep_of_loopStep {cfg : Config} {r r' : Loop} {act : LoopAct}
    {queue queue' : ℕ → List Frame} (h : LoopStep cfg r act r')
    (hqueue : queueAfter queue act = some queue') :
    (routerN cfg).step ⟨r, queue⟩ (.loop act) = some ⟨r', queue'⟩ := by
  show routerStep cfg ⟨r, queue⟩ (.loop act) = some ⟨r', queue'⟩
  simp only [routerStep, forwardingLoop_of_loopStep h, hqueue]

/-- INTERNAL: a frame is taken off the front of its queue. -/
theorem queueAfter_recvfrom {queue queue' : ℕ → List Frame} {i : ℕ} {f : Frame}
    (h : queueAfter queue (.recvfrom i (some f)) = some queue') :
    ∃ rest, queue i = f :: rest ∧ queue' = Function.update queue i rest := by
  simp only [queueAfter] at h
  split at h
  · rename_i g rest hqueue
    split at h
    · rename_i hfg
      subst hfg
      exact ⟨rest, hqueue, (Option.some.inj h).symm⟩
    · cases h
  · cases h

end VtRouter.Model
