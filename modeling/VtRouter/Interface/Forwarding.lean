import Mathlib.Data.List.GetD
import VtRouter.Library.Forwarder
import VtRouter.Model.RouterN
import VtRouter.Model.System

/-!
# What the two routers forward

Both routers as forwarders in the sense of `Library.Forwarder`: which of their labels are
events at the interfaces, and what is due for a frame.  What is due is said of the frame
alone; the loops look the destination up in a buffer of `BUFSIZE` bytes that held zeros
before, which comes to the same (`egress_received`).

`mirror` maps the worker of the virtual-time router to the loop of the other one.  A call of
`update_stub` disappears: wherever the worker is in one, the loop is already behind it.
-/

set_option autoImplicit false

namespace VtRouter.Interface

open Library VtRouter.Model

/-- A call of `send_packet`: the interface the frame came from, the one it leaves on, and what
is sent. -/
structure Departure where
  ingress : ℕ
  dst : ℤ
  data : List UInt8
  deriving DecidableEq

abbrev NetEvent := Event ℕ Frame Departure

/-- The interface `getDstSockIdx` chooses for a frame. -/
def egress (cfg : Config) (f : Frame) : ℤ := getDstSockIdx f cfg.intfNames cfg.routingList

/-- What is due for a frame from interface `i`. -/
def dueFor (cfg : Config) (i : ℕ) (f : Frame) : Option Departure :=
  if f = [] ∨ egress cfg f = -1 then none else some ⟨i, egress cfg f, f.take bufSize⟩

/-- A frame that fits in the buffer leaves as it came. -/
theorem dueFor_of_fits (cfg : Config) (i : ℕ) {f : Frame} (hpos : 0 < f.length)
    (hfits : f.length ≤ bufSize) :
    dueFor cfg i f = if egress cfg f = -1 then none else some ⟨i, egress cfg f, f⟩ := by
  have hne : f ≠ [] := List.ne_nil_of_length_pos hpos
  unfold dueFor
  rw [List.take_of_length_le hfits]
  simp only [hne, false_or]

/-- INTERNAL: what is due names its ingress. -/
theorem ingress_of_dueFor {cfg : Config} {i : ℕ} {f : Frame} {o : Departure}
    (h : dueFor cfg i f = some o) : o.ingress = i := by
  unfold dueFor at h
  split at h
  · cases h
  · cases h
    rfl

/-! ## The buffer -/

/-- The buffer behind `recvfrom` when it held zeros before.
SOURCE: utils.c:722-733, router_n.c:186-188 -/
def receivedBuf (f : Frame) : List UInt8 :=
  f.take bufSize ++ (List.replicate bufSize 0).drop (f.take bufSize).length

/-- INTERNAL: the buffer agrees with the frame, a missing byte being zero. -/
theorem getD_receivedBuf (f : Frame) {k : ℕ} (hk : k < bufSize) :
    (receivedBuf f).getD k 0 = f.getD k 0 := by
  unfold receivedBuf
  by_cases hlen : k < f.length
  · have hk' : k < (f.take bufSize).length := by
      rw [List.length_take]
      omega
    rw [List.getD_append _ _ _ _ hk', List.getD_eq_getElem _ _ hk', List.getElem_take,
      List.getD_eq_getElem _ _ hlen]
  · have hk' : (f.take bufSize).length ≤ k := by
      rw [List.length_take]
      omega
    rw [List.getD_append_right _ _ _ _ hk', List.drop_replicate,
      List.getD_eq_default f _ (by omega)]
    exact List.getD_replicate 0 (by omega)

/-- INTERNAL: the lookup in the buffer is the lookup for the frame. -/
theorem egress_received (cfg : Config) (f : Frame) :
    getDstSockIdx (receivedBuf f) cfg.intfNames cfg.routingList = egress cfg f := by
  have hdaddr : daddr (receivedBuf f) = daddr f := by
    have hsize : 34 ≤ bufSize := by decide
    unfold daddr
    rw [getD_receivedBuf f (by omega), getD_receivedBuf f (by omega),
      getD_receivedBuf f (by omega), getD_receivedBuf f (by omega)]
  unfold egress getDstSockIdx
  rw [hdaddr]

/-- INTERNAL: the lookup for what is sent is the one for the frame. -/
theorem egress_take (cfg : Config) (f : Frame) : egress cfg (f.take bufSize) = egress cfg f := by
  have hsame : receivedBuf (f.take bufSize) = receivedBuf f := by
    unfold receivedBuf
    rw [List.take_take, Nat.min_self]
  rw [← egress_received, hsame, egress_received]

/-- INTERNAL: what was received is at the front of the buffer. -/
theorem take_receivedBuf (f : Frame) :
    (receivedBuf f).take (f.take bufSize).length = f.take bufSize :=
  List.take_left

/-! ## The events at the interfaces -/

/-- What a step of the virtual-time router does at the interfaces. -/
def netEvents : Label → List NetEvent
  | .arrive i f => [.arrive i f]
  | .worker (.recvfrom i (some f)) => [.take i f]
  | .worker (.sendPacket i dst data) => [.send ⟨i, dst, data⟩]
  | _ => []

/-- What a step of the router without virtual time does at the interfaces. -/
def loopEvents : RouterLabel → List NetEvent
  | .arrive i f => [.arrive i f]
  | .loop (.recvfrom i (some f)) => [.take i f]
  | .loop (.sendPacket i dst data) => [.send ⟨i, dst, data⟩]
  | _ => []

/-- What a run of a router says about its interfaces: `events` happened, `queue` is left, and
`waiting` says that the loop is at a `poll`. -/
structure Forwards (cfg : Config) (events : List NetEvent) (queue : ℕ → List Frame)
    (waiting : Prop) : Prop where
  /-- Every frame that arrived was taken in its turn, or is still queued. -/
  conserved : ∀ i, arrivals i events = taken i events ++ queue i
  /-- Before the next frame is taken, a frame is sent once as it came, or not at all. -/
  handled : ∀ pre i f mid j g post,
    events = pre ++ .take i f :: (mid ++ .take j g :: post) → takes mid = [] →
      0 < f.length → f.length ≤ bufSize →
      sent mid = if egress cfg f = -1 then [] else [⟨i, egress cfg f, f⟩]
  /-- Nothing else is sent, and nothing is still to be sent at a `poll`. -/
  nothingElse : ∃ inHand : Option Departure,
    due (dueFor cfg) events = sent events ++ inHand.toList ∧ (waiting → inHand = none)
  /-- From `i` to `dst` the frames leave in the order in which they arrived. -/
  inOrder : ∀ i dst,
    (sent events).filter (fun o => decide (o.ingress = i) && decide (o.dst = dst)) <+:
      ((arrivals i events).filterMap (dueFor cfg i)).filter fun o => decide (o.dst = dst)

/-- INTERNAL: what is sent leaves on the interface the lookup chose for it, and it chose one. -/
theorem Forwards.dst_spec {cfg : Config} {events : List NetEvent} {queue : ℕ → List Frame}
    {waiting : Prop} (h : Forwards cfg events queue waiting) {o : Departure}
    (ho : o ∈ sent events) : o.dst = egress cfg o.data ∧ o.dst ≠ -1 := by
  obtain ⟨hand, hdue, -⟩ := h.nothingElse
  have hmem : o ∈ due (dueFor cfg) events := by
    rw [hdue]
    exact List.mem_append_left _ ho
  obtain ⟨⟨i, f⟩, -, hf⟩ := List.mem_filterMap.mp hmem
  simp only [dueFor] at hf
  split at hf
  · cases hf
  · rename_i hsent
    cases hf
    exact ⟨(egress_take cfg f).symm, fun hdst => hsent (Or.inr hdst)⟩

/-! ## The worker as a loop without virtual time -/

/-- The loop at a control point, with the variables of the worker. -/
def loopAt (w : Worker) (pc : LoopPc) : Loop :=
  ⟨pc, w.revents, w.i, w.runnable, w.buf, w.dataSize, w.dstSockIdx⟩

/-- The start of a scan. -/
def scanFromStart (w : Worker) : Loop := { loopAt w .scan with i := 0, runnable := false }

/-- The loop while the worker is in `update_stub`: where the worker goes on afterwards, over
the lookup, which has a call of its own.
SOURCE: utils.c:705-769 -/
def mirrorSite (cfg : Config) (w : Worker) : Site → Loop
  | .poll =>
      match w.ret with
      | .interrupted => loopAt w .poll
      | .failed => loopAt w .exited
      | .ready _ => scanFromStart w
  | .flushBuffer => loopAt w .recvfrom
  | .recvfrom =>
      if 0 < w.dataSize then chooseDst cfg (loopAt w .recvfrom)
      else { loopAt w .scan with i := w.i + 1 }
  | .getDstSockIdx => loopAt w (if w.dstSockIdx ≠ -1 then .sendPacket else .poll)
  | .sendPacket => { loopAt w .scan with i := w.i + 1 }

/-- The loop as which the worker runs. -/
def mirror (cfg : Config) (w : Worker) : Loop :=
  match w.pc with
  | .firstCmd | .repeat_ | .poll => loopAt w .poll
  | .updateStub site | .reply site | .nextCmd site | .fallOff site | .testStop site =>
      mirrorSite cfg w site
  | .scan => loopAt w .scan
  | .recvfrom => loopAt w .recvfrom
  | .sendPacket => loopAt w .sendPacket
  | .needToBlock | .announce | .blockingPoll => loopAt w .blockingPoll
  | .resume | .resumeCmd | .resumeStop => scanFromStart w
  | .finished => loopAt w .exited

/-- Worker and loop correspond.  In its blocking poll the worker may have polled in vain, and
a worker that has finished no longer says anything about the loop. -/
inductive Mirrors (cfg : Config) : Worker → Loop → Prop
  | running (w : Worker) : Mirrors cfg w (mirror cfg w)
  | blocked (w : Worker) (revents : List Bool) (hpc : w.pc = .blockingPoll) :
      Mirrors cfg w { loopAt w .blockingPoll with revents := revents }
  | finished (w : Worker) (r : Loop) (hpc : w.pc = .finished) : Mirrors cfg w r

/-- INTERNAL: outside the blocking poll the loop is determined by the worker. -/
theorem Mirrors.eq_mirror {cfg : Config} {w : Worker} {r : Loop} (h : Mirrors cfg w r)
    (hblocked : w.pc ≠ .blockingPoll) (hfinished : w.pc ≠ .finished) : r = mirror cfg w := by
  cases h with
  | running => rfl
  | blocked revents hpc => exact absurd hpc hblocked
  | finished r hpc => exact absurd hpc hfinished

/-- INTERNAL: in the blocking poll the loop is determined up to the outcome of the last poll. -/
theorem Mirrors.of_blockingPoll {cfg : Config} {w : Worker} {r : Loop} (h : Mirrors cfg w r)
    (hpc : w.pc = .blockingPoll) :
    ∃ revents, r = { loopAt w .blockingPoll with revents := revents } := by
  cases h with
  | running =>
      refine ⟨w.revents, ?_⟩
      simp only [mirror, hpc]
      rfl
  | blocked revents hpc' => exact ⟨revents, rfl⟩
  | finished r hpc' =>
      rw [hpc] at hpc'
      cases hpc'

end VtRouter.Interface
