import VtRouter.Library.MachineInt
import VtRouter.Model.Hashmap
import VtRouter.Model.Routing

/-!
# The worker thread

`processThread` is one atomic step of the worker: a control point is a place where the
worker touches something another party can see (a pipe, a flag, a socket) or takes a branch
of its own loop.  What the step reads or writes outside the worker is in its label
(`WorkerAct`), so the thread is an automaton on its own; which labels the environment offers
is the business of `Model.System`.

`update_stub` ends without a return statement when the budget is still positive.  Its result
is then whatever the label `fallOff` says.

`WorkerStep` lists the steps of `processThread`, one constructor a branch; every proof about
the worker goes through `workerStep_of_processThread`.
-/

set_option autoImplicit false

namespace VtRouter.Model

open Library

/-- SOURCE: includes.h:42-44 -/
def threadBlocked : ℤ := -1

/-- SOURCE: includes.h:42-44 -/
def threadExiting : ℤ := -2

/-- The calls of `update_stub` with a function name. -/
inductive Site
  | poll
  | flushBuffer
  | recvfrom
  | getDstSockIdx
  | sendPacket
  deriving DecidableEq

/-- The name a call of `update_stub` passes.
SOURCE: utils.c:698, 726, 737, 749, 760 -/
def Site.name : Site → String
  | .poll => "poll"
  | .flushBuffer => "flush_buffer"
  | .recvfrom => "recvfrom"
  | .getDstSockIdx => "get_dst_sock_idx"
  | .sendPacket => "send_packet"

/-- The control points of `process_thread`.  Those with a site are inside `update_stub` or at
the test of `arg->stop` behind it.
SOURCE: utils.c:549-583, 667-834 -/
inductive Pc
  | firstCmd
  | repeat_
  | poll
  | updateStub (site : Site)
  | reply (site : Site)
  | nextCmd (site : Site)
  | fallOff (site : Site)
  | testStop (site : Site)
  | scan
  | recvfrom
  | sendPacket
  | needToBlock
  | announce
  | blockingPoll
  | resume
  | resumeCmd
  | resumeStop
  | finished
  deriving DecidableEq

/-- The variables of `process_thread`: the budget left in the round, the outcome of the last
`poll` and the `revents` in `poll_set`, the loop index, and the frame in hand. -/
structure Worker where
  pc : Pc
  left : ℤ
  ret : PollOutcome
  revents : List Bool
  i : ℕ
  runnable : Bool
  buf : List UInt8
  dataSize : ℤ
  dstSockIdx : ℤ

/-- The worker before its first call of `update_stub`. -/
def Worker.init : Worker := ⟨.firstCmd, 0, .interrupted, [], 0, false, [], 0, 0⟩

/-- What a step of the worker exchanges with its environment.  `charge` carries the cost that
is deducted, `sendPacket` the interface the frame came from, the one it leaves on and its
bytes, `recvfrom` the frame or `none` for an error. -/
inductive WorkerAct
  | pipeRead (msg : ℤ)
  | pipeSend (msg : ℤ)
  | readStop (stop : Bool)
  | writeIsBlocked (isBlocked : Bool)
  | charge (cost : ℤ)
  | fallOff (ret : ℤ)
  | poll (outcome : PollOutcome)
  | recvfrom (i : ℕ) (frame : Option Frame)
  | sendPacket (i : ℕ) (dst : ℤ) (data : List UInt8)
  | tau
  deriving DecidableEq

/-- The worker after `update_stub` at a site has let it go on.
SOURCE: utils.c:705-769 -/
def afterSite (cfg : Config) (w : Worker) : Site → Worker
  | .poll =>
      match w.ret with
      | .interrupted => { w with pc := .repeat_ }
      | .failed => { w with pc := .finished }
      | .ready _ => { w with pc := .scan, i := 0, runnable := false }
  | .flushBuffer => { w with pc := .recvfrom }
  | .recvfrom =>
      if 0 < w.dataSize then
        { w with
          pc := .updateStub .getDstSockIdx
          dstSockIdx := getDstSockIdx w.buf cfg.intfNames cfg.routingList }
      else { w with pc := .scan, i := w.i + 1 }
  | .getDstSockIdx =>
      if w.dstSockIdx ≠ -1 then { w with pc := .sendPacket } else { w with pc := .repeat_ }
  | .sendPacket => { w with pc := .scan, i := w.i + 1 }

/-- `update_stub` up to its first access to a pipe.
SOURCE: utils.c:563-571 -/
def updateStub (w : Worker) (site : Site) (act : WorkerAct) : Option Worker :=
  match funcTimeUs site.name, act with
  | .ok none, .tau => some { w with pc := .testStop site }
  | .ok (some timeElapsed), .charge cost =>
      if cost = timeElapsed then
        let left := wrap32 (w.left - timeElapsed)
        some { w with left := left, pc := if left ≤ 0 then .reply site else .fallOff site }
      else none
  | _, _ => none

/-- The buffer and the result of `recvfrom`.
SOURCE: utils.c:733 -/
def received (w : Worker) (frame : Option Frame) : Worker :=
  match frame with
  | none => { w with dataSize := -1, pc := .updateStub .recvfrom }
  | some f =>
      let data := f.take bufSize
      { w with
        buf := data ++ w.buf.drop data.length
        dataSize := data.length
        pc := .updateStub .recvfrom }

/-- One round of the loop over the interfaces up to `recvfrom`, or its end.
SOURCE: utils.c:717-723, 776-788 -/
def scan (cfg : Config) (w : Worker) : Worker :=
  if w.i < cfg.nIntfs then
    if w.revents.getD w.i false then
      { w with
        runnable := true
        buf := List.replicate bufSize 0
        pc := .updateStub .flushBuffer }
    else { w with i := w.i + 1 }
  else if w.runnable then { w with pc := .repeat_ }
  else { w with pc := .needToBlock }

/-- One step of `process_thread`, `none` where the label does not belong to the control point.
SOURCE: utils.c:549-583, 667-834 -/
def processThread (cfg : Config) (w : Worker) (act : WorkerAct) : Option Worker :=
  match w.pc, act with
  | .firstCmd, .pipeRead msg =>
      some { w with left := msg, pc := if msg < 0 then .finished else .repeat_ }
  | .repeat_, .readStop stop => some { w with pc := if stop then .finished else .poll }
  | .poll, .poll (.ready revents) =>
      if revents.length = cfg.nIntfs then
        some { w with ret := .ready revents, revents := revents, pc := .updateStub .poll }
      else none
  | .poll, .poll outcome => some { w with ret := outcome, pc := .updateStub .poll }
  | .updateStub site, act => updateStub w site act
  | .reply site, .pipeSend msg =>
      if msg = wrap32 (-1 * w.left) then some { w with pc := .nextCmd site } else none
  | .nextCmd site, .pipeRead msg =>
      some { w with left := msg, pc := if msg ≤ 0 then .finished else .testStop site }
  | .fallOff site, .fallOff ret =>
      some { w with pc := if ret < 0 then .finished else .testStop site }
  | .testStop site, .readStop stop =>
      some (if stop then { w with pc := .finished } else afterSite cfg w site)
  | .scan, .tau => some (scan cfg w)
  | .recvfrom, .recvfrom i frame => if i = w.i then some (received w frame) else none
  | .sendPacket, .sendPacket i dst data =>
      if i = w.i ∧ dst = w.dstSockIdx ∧ data = w.buf.take w.dataSize.toNat then
        some { w with pc := .updateStub .sendPacket }
      else none
  | .needToBlock, .writeIsBlocked true => some { w with left := 0, pc := .announce }
  | .announce, .pipeSend msg =>
      if msg = threadBlocked then some { w with pc := .blockingPoll } else none
  | .blockingPoll, .poll .interrupted => some w
  | .blockingPoll, .poll .failed => some { w with pc := .finished }
  | .blockingPoll, .poll (.ready revents) =>
      if revents.length = cfg.nIntfs then
        some { w with revents := revents, pc := if true ∈ revents then .resume else .blockingPoll }
      else none
  | .resume, .writeIsBlocked false => some { w with pc := .resumeCmd }
  | .resumeCmd, .pipeRead msg =>
      some { w with left := msg, pc := if msg ≤ 0 then .finished else .resumeStop }
  | .resumeStop, .readStop stop =>
      some (if stop then { w with pc := .finished }
        else { w with pc := .scan, i := 0, runnable := false })
  | _, _ => none

/-! ## The steps by name -/

/-- INTERNAL: every site is registered, with a cost of 50 microseconds.
SOURCE: utils.c:17-24, 841-848 -/
theorem funcTimeUs_site (site : Site) : funcTimeUs site.name = .ok (some 50) := by
  cases site <;> decide +kernel

/-- The steps of the worker, one constructor a branch of `process_thread`. -/
inductive WorkerStep (cfg : Config) : Worker → WorkerAct → Worker → Prop
  | firstCmdExit (w : Worker) (msg : ℤ) (hpc : w.pc = .firstCmd) (hmsg : msg < 0) :
      WorkerStep cfg w (.pipeRead msg) { w with left := msg, pc := .finished }
  | firstCmd (w : Worker) (msg : ℤ) (hpc : w.pc = .firstCmd) (hmsg : 0 ≤ msg) :
      WorkerStep cfg w (.pipeRead msg) { w with left := msg, pc := .repeat_ }
  | repeatExit (w : Worker) (hpc : w.pc = .repeat_) :
      WorkerStep cfg w (.readStop true) { w with pc := .finished }
  | repeat_ (w : Worker) (hpc : w.pc = .repeat_) :
      WorkerStep cfg w (.readStop false) { w with pc := .poll }
  | pollReady (w : Worker) (revents : List Bool) (hpc : w.pc = .poll)
      (hlen : revents.length = cfg.nIntfs) :
      WorkerStep cfg w (.poll (.ready revents))
        { w with ret := .ready revents, revents := revents, pc := .updateStub .poll }
  | pollError (w : Worker) (outcome : PollOutcome) (hpc : w.pc = .poll)
      (herr : outcome = .interrupted ∨ outcome = .failed) :
      WorkerStep cfg w (.poll outcome) { w with ret := outcome, pc := .updateStub .poll }
  | chargeOver (w : Worker) (site : Site) (hpc : w.pc = .updateStub site)
      (hleft : wrap32 (w.left - 50) ≤ 0) :
      WorkerStep cfg w (.charge 50) { w with left := wrap32 (w.left - 50), pc := .reply site }
  | charge (w : Worker) (site : Site) (hpc : w.pc = .updateStub site)
      (hleft : 0 < wrap32 (w.left - 50)) :
      WorkerStep cfg w (.charge 50) { w with left := wrap32 (w.left - 50), pc := .fallOff site }
  | reply (w : Worker) (site : Site) (hpc : w.pc = .reply site) :
      WorkerStep cfg w (.pipeSend (wrap32 (-1 * w.left))) { w with pc := .nextCmd site }
  | nextCmdExit (w : Worker) (site : Site) (msg : ℤ) (hpc : w.pc = .nextCmd site)
      (hmsg : msg ≤ 0) :
      WorkerStep cfg w (.pipeRead msg) { w with left := msg, pc := .finished }
  | nextCmd (w : Worker) (site : Site) (msg : ℤ) (hpc : w.pc = .nextCmd site) (hmsg : 0 < msg) :
      WorkerStep cfg w (.pipeRead msg) { w with left := msg, pc := .testStop site }
  | fallOffExit (w : Worker) (site : Site) (ret : ℤ) (hpc : w.pc = .fallOff site)
      (hret : ret < 0) :
      WorkerStep cfg w (.fallOff ret) { w with pc := .finished }
  | fallOff (w : Worker) (site : Site) (ret : ℤ) (hpc : w.pc = .fallOff site) (hret : 0 ≤ ret) :
      WorkerStep cfg w (.fallOff ret) { w with pc := .testStop site }
  | testStopExit (w : Worker) (site : Site) (hpc : w.pc = .testStop site) :
      WorkerStep cfg w (.readStop true) { w with pc := .finished }
  | testStop (w : Worker) (site : Site) (hpc : w.pc = .testStop site) :
      WorkerStep cfg w (.readStop false) (afterSite cfg w site)
  | scan (w : Worker) (hpc : w.pc = .scan) : WorkerStep cfg w .tau (scan cfg w)
  | recvfrom (w : Worker) (frame : Option Frame) (hpc : w.pc = .recvfrom) :
      WorkerStep cfg w (.recvfrom w.i frame) (received w frame)
  | sendPacket (w : Worker) (hpc : w.pc = .sendPacket) :
      WorkerStep cfg w (.sendPacket w.i w.dstSockIdx (w.buf.take w.dataSize.toNat))
        { w with pc := .updateStub .sendPacket }
  | needToBlock (w : Worker) (hpc : w.pc = .needToBlock) :
      WorkerStep cfg w (.writeIsBlocked true) { w with left := 0, pc := .announce }
  | announce (w : Worker) (hpc : w.pc = .announce) :
      WorkerStep cfg w (.pipeSend threadBlocked) { w with pc := .blockingPoll }
  | blockingInterrupted (w : Worker) (hpc : w.pc = .blockingPoll) :
      WorkerStep cfg w (.poll .interrupted) w
  | blockingFailed (w : Worker) (hpc : w.pc = .blockingPoll) :
      WorkerStep cfg w (.poll .failed) { w with pc := .finished }
  | blockingIdle (w : Worker) (revents : List Bool) (hpc : w.pc = .blockingPoll)
      (hlen : revents.length = cfg.nIntfs) (hnone : true ∉ revents) :
      WorkerStep cfg w (.poll (.ready revents)) { w with revents := revents }
  | blockingReady (w : Worker) (revents : List Bool) (hpc : w.pc = .blockingPoll)
      (hlen : revents.length = cfg.nIntfs) (hsome : true ∈ revents) :
      WorkerStep cfg w (.poll (.ready revents)) { w with revents := revents, pc := .resume }
  | resume (w : Worker) (hpc : w.pc = .resume) :
      WorkerStep cfg w (.writeIsBlocked false) { w with pc := .resumeCmd }
  | resumeCmdExit (w : Worker) (msg : ℤ) (hpc : w.pc = .resumeCmd) (hmsg : msg ≤ 0) :
      WorkerStep cfg w (.pipeRead msg) { w with left := msg, pc := .finished }
  | resumeCmd (w : Worker) (msg : ℤ) (hpc : w.pc = .resumeCmd) (hmsg : 0 < msg) :
      WorkerStep cfg w (.pipeRead msg) { w with left := msg, pc := .resumeStop }
  | resumeStopExit (w : Worker) (hpc : w.pc = .resumeStop) :
      WorkerStep cfg w (.readStop true) { w with pc := .finished }
  | resumeStop (w : Worker) (hpc : w.pc = .resumeStop) :
      WorkerStep cfg w (.readStop false) { w with pc := .scan, i := 0, runnable := false }

/-- INTERNAL: at a site `update_stub` deducts the registered cost.
SOURCE: utils.c:563-571 -/
theorem workerStep_of_updateStub {cfg : Config} {w w' : Worker} {site : Site} {act : WorkerAct}
    (hpc : w.pc = .updateStub site) (h : updateStub w site act = some w') :
    WorkerStep cfg w act w' := by
  unfold updateStub at h
  rw [funcTimeUs_site site] at h
  split at h
  · rename_i hcost
    cases hcost
  · rename_i timeElapsed cost hcost
    cases hcost
    split at h
    · rename_i heq
      subst heq
      cases h
      by_cases hleft : wrap32 (w.left - 50) ≤ 0
      · rw [if_pos hleft]
        exact .chargeOver w site hpc hleft
      · rw [if_neg hleft]
        exact .charge w site hpc (by omega)
    · cases h
  · cases h

/-- **Inversion of the worker's step function.** -/
theorem workerStep_of_processThread {cfg : Config} {w w' : Worker} {act : WorkerAct}
    (h : processThread cfg w act = some w') : WorkerStep cfg w act w' := by
  unfold processThread at h
  split at h
  · rename_i msg hpc
    cases h
    by_cases hmsg : msg < 0
    · rw [if_pos hmsg]
      exact .firstCmdExit w msg hpc hmsg
    · rw [if_neg hmsg]
      exact .firstCmd w msg hpc (by omega)
  · rename_i stop hpc
    cases h
    cases stop with
    | true => exact .repeatExit w hpc
    | false => exact .repeat_ w hpc
  · rename_i revents hpc
    split at h
    · rename_i hlen
      cases h
      exact .pollReady w revents hpc hlen
    · cases h
  · rename_i outcome hnot hpc
    cases h
    cases outcome with
    | ready revents => exact absurd rfl (hnot revents)
    | interrupted => exact .pollError w .interrupted hpc (Or.inl rfl)
    | failed => exact .pollError w .failed hpc (Or.inr rfl)
  · rename_i site hpc
    exact workerStep_of_updateStub hpc h
  · rename_i site msg hpc
    split at h
    · rename_i hmsg
      cases h
      rw [hmsg]
      exact .reply w site hpc
    · cases h
  · rename_i site msg hpc
    cases h
    by_cases hmsg : msg ≤ 0
    · rw [if_pos hmsg]
      exact .nextCmdExit w site msg hpc hmsg
    · rw [if_neg hmsg]
      exact .nextCmd w site msg hpc (by omega)
  · rename_i site ret hpc
    cases h
    by_cases hret : ret < 0
    · rw [if_pos hret]
      exact .fallOffExit w site ret hpc hret
    · rw [if_neg hret]
      exact .fallOff w site ret hpc (by omega)
  · rename_i site stop hpc
    cases h
    cases stop with
    | true => exact .testStopExit w site hpc
    | false => exact .testStop w site hpc
  · rename_i hpc
    cases h
    exact .scan w hpc
  · rename_i i frame hpc
    split at h
    · rename_i hi
      cases h
      rw [hi]
      exact .recvfrom w frame hpc
    · cases h
  · rename_i i dst data hpc
    split at h
    · rename_i hargs
      obtain ⟨rfl, rfl, rfl⟩ := hargs
      cases h
      exact .sendPacket w hpc
    · cases h
  · rename_i hpc
    cases h
    exact .needToBlock w hpc
  · rename_i msg hpc
    split at h
    · rename_i hmsg
      cases h
      rw [hmsg]
      exact .announce w hpc
    · cases h
  · rename_i hpc
    cases h
    exact .blockingInterrupted w hpc
  · rename_i hpc
    cases h
    exact .blockingFailed w hpc
  · rename_i revents hpc
    split at h
    · rename_i hlen
      cases h
      by_cases hsome : true ∈ revents
      · rw [if_pos hsome]
        exact .blockingReady w revents hpc hlen hsome
      · rw [if_neg hsome, ← hpc]
        exact .blockingIdle w revents hpc hlen hsome
    · cases h
  · rename_i hpc
    cases h
    exact .resume w hpc
  · rename_i msg hpc
    cases h
    by_cases hmsg : msg ≤ 0
    · rw [if_pos hmsg]
      exact .resumeCmdExit w msg hpc hmsg
    · rw [if_neg hmsg]
      exact .resumeCmd w msg hpc (by omega)
  · rename_i stop hpc
    cases h
    cases stop with
    | true => exact .resumeStopExit w hpc
    | false => exact .resumeStop w hpc
  · cases h

/-- INTERNAL: every step by name is a step of the function. -/
theorem processThread_of_workerStep {cfg : Config} {w w' : Worker} {act : WorkerAct}
    (h : WorkerStep cfg w act w') : processThread cfg w act = some w' := by
  unfold processThread
  cases h with
  | firstCmdExit msg hpc hmsg | nextCmdExit site msg hpc hmsg | resumeCmdExit msg hpc hmsg =>
      rw [hpc]
      simp only [if_pos hmsg]
  | firstCmd msg hpc hmsg =>
      rw [hpc]
      simp only [if_neg (Int.not_lt.mpr hmsg)]
  | pollReady revents hpc hlen =>
      rw [hpc]
      exact if_pos hlen
  | pollError outcome hpc herr =>
      rw [hpc]
      rcases herr with rfl | rfl
      · rfl
      · rfl
  | chargeOver site hpc hleft =>
      rw [hpc]
      show updateStub w site (.charge 50) = _
      unfold updateStub
      rw [funcTimeUs_site site]
      exact (if_pos rfl).trans (by simp only [if_pos hleft])
  | charge site hpc hleft =>
      rw [hpc]
      show updateStub w site (.charge 50) = _
      unfold updateStub
      rw [funcTimeUs_site site]
      exact (if_pos rfl).trans (by simp only [if_neg (Int.not_le.mpr hleft)])
  | reply site hpc | recvfrom frame hpc | announce hpc =>
      rw [hpc]
      exact if_pos rfl
  | nextCmd site msg hpc hmsg | resumeCmd msg hpc hmsg =>
      rw [hpc]
      simp only [if_neg (Int.not_le.mpr hmsg)]
  | fallOffExit site ret hpc hret =>
      rw [hpc]
      simp only [if_pos hret]
  | fallOff site ret hpc hret =>
      rw [hpc]
      simp only [if_neg (Int.not_lt.mpr hret)]
  | sendPacket hpc =>
      rw [hpc]
      exact if_pos ⟨rfl, rfl, rfl⟩
  | blockingIdle revents hpc hlen hnone =>
      rw [hpc]
      simp only [if_pos hlen, if_neg hnone]
  | blockingReady revents hpc hlen hsome =>
      rw [hpc]
      simp only [if_pos hlen, if_pos hsome]
  | repeatExit hpc | repeat_ hpc | testStopExit site hpc | testStop site hpc
  | resumeStopExit hpc | resumeStop hpc =>
      rw [hpc]
      rfl
  | scan hpc | needToBlock hpc | blockingInterrupted hpc | blockingFailed hpc | resume hpc =>
      rw [hpc]

end VtRouter.Model
