import VtRouter.Interface.Forwarding
import VtRouter.Analysis.RouteLookup

/-!
# What the two routers do to the frames

The loop without virtual time is a forwarder with one frame in hand (`implements_step`), and
the worker of the virtual-time router, with its calls of `update_stub` left out, is that loop
(`mirrors_step`).  So whatever the order of arrivals, polls and commands, both do the same to
the frames, and `frames_forwarded` says what: the histories of `Library.Forwarder`.

In one place the two differ.  Behind its blocking poll the worker goes on to the scan with the
outcome it has, where the loop without virtual time polls once more; the loop then finds what
the worker found.
-/

set_option autoImplicit false

namespace VtRouter.Analysis

open Library VtRouter.Model VtRouter.Interface

/-! ## The loop without virtual time is a forwarder -/

/-- The frame in hand. -/
def inHand (r : Loop) : Option Departure :=
  if r.pc = .sendPacket then some ⟨r.i, r.dstSockIdx, r.buf.take r.dataSize.toNat⟩ else none

theorem inHand_eq_none {r : Loop} (h : r.pc ≠ .sendPacket) : inHand r = none := if_neg h

/-- A state of the loop and one of the forwarder that belong together.  The buffer is flushed
before `recvfrom`. -/
structure Implements (t : RouterState) (u : Forwarder ℕ Frame Departure) : Prop where
  queue : u.queue = t.queue
  inHand : u.inHand = inHand t.loop
  flushed : t.loop.pc = .recvfrom → t.loop.buf = List.replicate bufSize 0

/-- INTERNAL: the scan sends nothing, and flushes the buffer before it receives.
SOURCE: router_n.c:180-186 -/
theorem scanLoop_spec (cfg : Config) {r : Loop} (hpc : r.pc = .scan) :
    (scanLoop cfg r).pc ≠ .sendPacket ∧
      ((scanLoop cfg r).pc = .recvfrom → (scanLoop cfg r).buf = List.replicate bufSize 0) := by
  unfold scanLoop
  split
  · split
    · simp
    · simp [hpc]
  · split
    · simp
    · simp

/-- INTERNAL: with a flushed buffer, what is in hand behind `recvfrom` is what is due for the
frame.
SOURCE: router_n.c:188-204 -/
theorem afterRecvfrom_spec (cfg : Config) {r : Loop} (hbuf : r.buf = List.replicate bufSize 0)
    (frame : Option Frame) :
    inHand (afterRecvfrom cfg r frame) = frame.bind (dueFor cfg r.i) ∧
      (afterRecvfrom cfg r frame).pc ≠ .recvfrom := by
  cases frame with
  | none => exact ⟨inHand_eq_none (by simp [afterRecvfrom]), by simp [afterRecvfrom]⟩
  | some f =>
      simp only [afterRecvfrom, Option.bind_some]
      have hbuf' : f.take bufSize ++ r.buf.drop (f.take bufSize).length = receivedBuf f := by
        rw [hbuf]
        rfl
      rw [hbuf']
      have hnil : f.take bufSize = [] ↔ f = [] := by
        simp [List.take_eq_nil_iff, bufSize]
      by_cases hf : f = []
      · have hlen : ¬ (0 : ℤ) < ((f.take bufSize).length : ℤ) := by simp [hf]
        rw [if_neg hlen]
        refine ⟨?_, by simp⟩
        rw [inHand_eq_none (by simp)]
        simp [dueFor, hf]
      · have hlen : (0 : ℤ) < ((f.take bufSize).length : ℤ) := by
          have hpos := List.length_pos_iff.mpr (fun h => hf (hnil.mp h))
          omega
        rw [if_pos hlen]
        simp only [chooseDst, egress_received]
        by_cases hdst : egress cfg f = -1
        · simp [inHand, dueFor, hdst]
        · simp [inHand, dueFor, hdst, hf, take_receivedBuf, -List.length_take]

/-- INTERNAL: **one step of the loop is the forwarder's step for its events.** -/
theorem implements_step {cfg : Config} {t t' : RouterState} {u : Forwarder ℕ Frame Departure}
    {l : RouterLabel} (h : Implements t u) (hs : (routerN cfg).step t l = some t') :
    ∃ u', (forwarder (dueFor cfg)).exec u (loopEvents l) = some u' ∧ Implements t' u' := by
  obtain ⟨hqueue, hhand, hflushed⟩ := h
  have hcases : routerStep cfg t l = some t' := hs
  rcases routerStep_cases hcases with
    ⟨act, r, queue, rfl, hr, hq, rfl⟩ | ⟨i, frame, rfl, -, rfl⟩
  · cases hr with
    | pollInterrupted hpc =>
        cases hq
        exact ⟨u, rfl, hqueue, hhand, hflushed⟩
    | pollFailed hpc =>
        cases hq
        exact ⟨u, rfl, hqueue, by simpa [inHand, hpc] using hhand, by simp⟩
    | pollReady revents hpc hlen =>
        cases hq
        exact ⟨u, rfl, hqueue, by simpa [inHand, hpc] using hhand, by simp⟩
    | scan hpc =>
        cases hq
        obtain ⟨hnot, hbuf⟩ := scanLoop_spec cfg hpc
        refine ⟨u, rfl, hqueue, ?_, hbuf⟩
        rw [hhand, inHand_eq_none hnot, inHand_eq_none (by simp [hpc])]
    | recvfrom frame hpc =>
        obtain ⟨hafter, hnot⟩ := afterRecvfrom_spec cfg (hflushed hpc) frame
        rw [inHand_eq_none (by simp [hpc])] at hhand
        cases frame with
        | none =>
            cases hq
            exact ⟨u, rfl, hqueue, by rw [hhand, hafter]; rfl, fun h => absurd h hnot⟩
        | some f =>
            obtain ⟨rest, hg, rfl⟩ := queueAfter_recvfrom hq
            refine ⟨⟨Function.update u.queue t.loop.i rest, dueFor cfg t.loop.i f⟩, ?_,
              by rw [hqueue], by rw [hafter]; rfl, fun h => absurd h hnot⟩
            show (forwarder (dueFor cfg)).exec u [.take t.loop.i f] = _
            rw [LTS.exec_singleton]
            show forward (dueFor cfg) u (.take t.loop.i f) = _
            simp [forward, hqueue, hg, hhand]
    | sendPacket hpc =>
        cases hq
        have hsome : u.inHand =
            some ⟨t.loop.i, t.loop.dstSockIdx, t.loop.buf.take t.loop.dataSize.toNat⟩ := by
          rw [hhand]
          exact if_pos hpc
        refine ⟨{ u with inHand := none }, ?_, hqueue, by simp [inHand], by simp⟩
        show (forwarder (dueFor cfg)).exec u [.send _] = _
        rw [LTS.exec_singleton]
        exact if_pos hsome
    | blockingInterrupted hpc =>
        cases hq
        exact ⟨u, rfl, hqueue, hhand, hflushed⟩
    | blockingFailed hpc =>
        cases hq
        exact ⟨u, rfl, hqueue, by simpa [inHand, hpc] using hhand, by simp⟩
    | blockingReady revents hpc hlen =>
        cases hq
        exact ⟨u, rfl, hqueue, by simpa [inHand, hpc] using hhand, by simp⟩
  · refine ⟨{ u with queue := Function.update u.queue i (u.queue i ++ [frame]) }, rfl, ?_, hhand,
      hflushed⟩
    rw [hqueue]

/-- INTERNAL: every run of the loop is, in its events, a run of the forwarder. -/
theorem routerN_forwards {cfg : Config} {ls : List RouterLabel} {t : RouterState}
    (hrun : (routerN cfg).Run ls t) :
    ∃ u, (forwarder (dueFor cfg)).Run (ls.flatMap loopEvents) u ∧ Implements t u := by
  obtain ⟨u, ⟨es, hu, hes⟩, himp⟩ := (routerN cfg).run_simulation (forwarder (dueFor cfg))
    loopEvents (fun e => [e]) (R := Implements) ⟨rfl, rfl, nofun⟩ (by
      intro t u l t' h hs
      obtain ⟨u', hu', h'⟩ := implements_step h hs
      exact ⟨u', ⟨loopEvents l, hu', List.flatMap_singleton' _⟩, h'⟩) ls t hrun
  rw [List.flatMap_singleton'] at hes
  rw [← hes]
  exact ⟨u, hu, himp⟩

/-! ## The worker is the loop without virtual time -/

/-- INTERNAL: the variables `update_stub` changes are none of the loop's. -/
theorem mirrorSite_stub (cfg : Config) (w : Worker) (left : ℤ) (pc : Pc) (site : Site) :
    mirrorSite cfg { w with left := left, pc := pc } site = mirrorSite cfg w site := by
  cases site <;> rfl

/-- INTERNAL: behind `update_stub` the loop has not moved.
SOURCE: utils.c:705-769 -/
theorem mirror_afterSite (cfg : Config) (w : Worker) (site : Site) :
    mirror cfg (afterSite cfg w site) = mirrorSite cfg w site := by
  cases site with
  | poll =>
      unfold afterSite mirrorSite
      cases w.ret <;> rfl
  | flushBuffer => rfl
  | recvfrom =>
      by_cases hsize : 0 < w.dataSize
      · simp only [afterSite, mirrorSite, if_pos hsize, mirror, chooseDst]
        by_cases hdst : getDstSockIdx w.buf cfg.intfNames cfg.routingList ≠ -1
        · have hdst' : getDstSockIdx (loopAt w .recvfrom).buf cfg.intfNames cfg.routingList ≠ -1 :=
            hdst
          rw [if_pos hdst, if_pos hdst']
          rfl
        · have hdst' : ¬ getDstSockIdx (loopAt w .recvfrom).buf cfg.intfNames cfg.routingList ≠ -1 :=
            hdst
          rw [if_neg hdst, if_neg hdst']
          rfl
      · simp only [afterSite, mirrorSite, if_neg hsize]
        rfl
  | getDstSockIdx =>
      by_cases hdst : w.dstSockIdx ≠ -1
      · simp only [afterSite, mirrorSite, if_pos hdst]
        rfl
      · simp only [afterSite, mirrorSite, if_neg hdst]
        rfl
  | sendPacket => rfl

/-- INTERNAL: a round of the worker's scan is one of the loop's.
SOURCE: utils.c:717-723, 776-788, router_n.c:180-186 -/
theorem mirror_scan (cfg : Config) {w : Worker} (hpc : w.pc = .scan) :
    mirror cfg (scan cfg w) = scanLoop cfg (mirror cfg w) := by
  have hw : mirror cfg w = loopAt w .scan := by simp only [mirror, hpc]
  rw [hw]
  by_cases hi : w.i < cfg.nIntfs
  · by_cases hset : w.revents.getD w.i false = true
    · have hloop : scanLoop cfg (loopAt w .scan) =
          { loopAt w .recvfrom with runnable := true, buf := List.replicate bufSize 0 } :=
        (if_pos hi).trans (if_pos hset)
      rw [hloop, scan, if_pos hi, if_pos hset]
      rfl
    · have hloop : scanLoop cfg (loopAt w .scan) = { loopAt w .scan with i := w.i + 1 } :=
        (if_pos hi).trans (if_neg hset)
      rw [hloop, scan, if_pos hi, if_neg hset]
      simp only [mirror, hpc]
      rfl
  · by_cases hrun : w.runnable = true
    · have hloop : scanLoop cfg (loopAt w .scan) = loopAt w .poll :=
        (if_neg hi).trans (if_pos hrun)
      rw [hloop, scan, if_neg hi, if_pos hrun]
      rfl
    · have hloop : scanLoop cfg (loopAt w .scan) = loopAt w .blockingPoll :=
        (if_neg hi).trans (if_neg hrun)
      rw [hloop, scan, if_neg hi, if_neg hrun]
      rfl

/-- INTERNAL: the worker receives as the loop does.
SOURCE: utils.c:733, router_n.c:188 -/
theorem mirror_received (cfg : Config) {w : Worker} (hpc : w.pc = .recvfrom)
    (frame : Option Frame) :
    mirror cfg (received w frame) = afterRecvfrom cfg (mirror cfg w) frame := by
  have hw : mirror cfg w = loopAt w .recvfrom := by simp only [mirror, hpc]
  rw [hw]
  cases frame with
  | none => rfl
  | some f => rfl

/-- The loop can follow: an execution with the events of the worker's step leads from the
queues before it to those behind it, and to a loop that corresponds to the worker behind it. -/
def Follows (cfg : Config) (r : Loop) (sh : Shared) (act : WorkerAct) (w' : Worker)
    (sh' : Shared) : Prop :=
  ∃ r', (routerN cfg).Emits loopEvents ⟨r, sh.queue⟩ (netEvents (.worker act)) ⟨r', sh'.queue⟩ ∧
    Mirrors cfg w' r'

/-- INTERNAL: the loop waits while the worker does something it has no counterpart of. -/
theorem follows_nothing {cfg : Config} {r : Loop} {sh sh' : Shared} {act : WorkerAct}
    {w' : Worker} (heffect : WorkerEffect sh act sh')
    (hsilent : netEvents (.worker act) = []) (h : Mirrors cfg w' r) :
    Follows cfg r sh act w' sh' := by
  refine ⟨r, ?_, h⟩
  rw [hsilent]
  cases heffect with
  | recvfrom i frame rest hqueue => cases hsilent
  | _ => exact .refl _

/-- INTERNAL: the loop takes one step. -/
theorem follows_step {cfg : Config} {r r' : Loop} {sh sh' : Shared} {act : WorkerAct}
    {w' : Worker} {a : LoopAct} (hstep : LoopStep cfg r a r')
    (hqueue : queueAfter sh.queue a = some sh'.queue)
    (hevents : loopEvents (.loop a) = netEvents (.worker act)) (h : Mirrors cfg w' r') :
    Follows cfg r sh act w' sh' := by
  refine ⟨r', ?_, h⟩
  rw [← hevents]
  exact .of_step (routerStep_of_loopStep hstep hqueue)

/-- INTERNAL: **one step of the worker is followed by the loop.**
SOURCE: utils.c:669-834, router_n.c:155-231 -/
theorem mirrors_step {cfg : Config} {w w' : Worker} {r : Loop} {sh sh' : Shared}
    {act : WorkerAct} (h : Mirrors cfg w r) (hw : WorkerStep cfg w act w')
    (heffect : WorkerEffect sh act sh') : Follows cfg r sh act w' sh' := by
  -- Up to the blocking poll, the loop is the mirror of the worker.
  have heq : ∀ pc, w.pc = pc → pc ≠ .blockingPoll → pc ≠ .finished → r = mirror cfg w := by
    rintro pc rfl hblocked hfinished
    exact h.eq_mirror hblocked hfinished
  -- Where its mirror stays, the loop waits.
  have hstays : ∀ pc, w.pc = pc → pc ≠ .blockingPoll → pc ≠ .finished →
      netEvents (.worker act) = [] → mirror cfg w' = mirror cfg w →
      Follows cfg r sh act w' sh' := by
    intro pc hpc hblocked hfinished hsilent hmirror
    refine follows_nothing heffect hsilent ?_
    rw [heq pc hpc hblocked hfinished, ← hmirror]
    exact .running w'
  cases hw with
  | firstCmdExit msg hpc hmsg | repeatExit hpc | nextCmdExit site msg hpc hmsg
  | fallOffExit site ret hpc hret | testStopExit site hpc | blockingFailed hpc
  | resumeCmdExit msg hpc hmsg | resumeStopExit hpc =>
      exact follows_nothing heffect rfl (.finished _ _ rfl)
  | firstCmd msg hpc hmsg | repeat_ hpc | needToBlock hpc | announce hpc | resume hpc
  | resumeCmd msg hpc hmsg | resumeStop hpc =>
      refine hstays _ hpc (by simp) (by simp) rfl ?_
      simp only [mirror, hpc]
      rfl
  | chargeOver site hpc hleft | charge site hpc hleft | reply site hpc | nextCmd site msg hpc hmsg
  | fallOff site ret hpc hret =>
      refine hstays _ hpc (by simp) (by simp) rfl ?_
      simp only [mirror, hpc]
      exact mirrorSite_stub cfg w _ _ site
  | testStop site hpc =>
      refine hstays _ hpc (by simp) (by simp) rfl ?_
      rw [mirror_afterSite]
      simp only [mirror, hpc]
  | pollReady revents hpc hlen =>
      have hr : r = loopAt w .poll := by
        rw [heq _ hpc (by simp) (by simp)]
        simp only [mirror, hpc]
      cases heffect
      refine follows_step (.pollReady r revents ?_ hlen) rfl rfl ?_
      · rw [hr]
        rfl
      · rw [hr]
        exact .running _
  | pollError outcome hpc herr =>
      have hr : r = loopAt w .poll := by
        rw [heq _ hpc (by simp) (by simp)]
        simp only [mirror, hpc]
      cases heffect
      rcases herr with rfl | rfl
      · refine follows_step (.pollInterrupted r ?_) rfl rfl ?_
        · rw [hr]
          rfl
        · rw [hr]
          exact .running _
      · refine follows_step (.pollFailed r ?_) rfl rfl ?_
        · rw [hr]
          rfl
        · rw [hr]
          exact .running _
  | scan hpc =>
      have hr := heq _ hpc (by simp) (by simp)
      cases heffect
      refine follows_step (.scan r ?_) rfl rfl ?_
      · rw [hr]
        simp only [mirror, hpc]
        rfl
      · rw [hr, ← mirror_scan cfg hpc]
        exact .running _
  | recvfrom frame hpc =>
      have hr := heq _ hpc (by simp) (by simp)
      have hloop : mirror cfg w = loopAt w .recvfrom := by simp only [mirror, hpc]
      have hi : r.i = w.i := by
        rw [hr, hloop]
        rfl
      have hM : Mirrors cfg (received w frame) (afterRecvfrom cfg r frame) := by
        rw [hr, ← mirror_received cfg hpc]
        exact .running _
      have hpc' : r.pc = .recvfrom := by
        rw [hr, hloop]
        rfl
      cases heffect with
      | recvfrom i frame rest hqueue =>
          refine follows_step (.recvfrom r (some frame) hpc') ?_ ?_ hM
          · rw [hi]
            simp [queueAfter, hqueue]
          · rw [hi]
            rfl
      | recvfromError i => exact follows_step (.recvfrom r none hpc') rfl rfl hM
  | sendPacket hpc =>
      have hr : r = loopAt w .sendPacket := by
        rw [heq _ hpc (by simp) (by simp)]
        simp only [mirror, hpc]
      cases heffect
      refine follows_step (.sendPacket r ?_) rfl ?_ ?_
      · rw [hr]
        rfl
      · rw [hr]
        rfl
      · rw [hr]
        exact .running _
  | blockingInterrupted hpc => exact follows_nothing heffect rfl h
  | blockingIdle revents hpc hlen hnone =>
      obtain ⟨before, rfl⟩ := h.of_blockingPoll hpc
      exact follows_nothing heffect rfl (.blocked _ before hpc)
  | blockingReady revents hpc hlen hsome =>
      -- The loop polls once more, and finds what the worker found.
      obtain ⟨before, rfl⟩ := h.of_blockingPoll hpc
      cases heffect
      have hblocking : (routerN cfg).step
          ⟨{ loopAt w .blockingPoll with revents := before }, sh.queue⟩
          (.loop (.blockingPoll (.ready revents))) =
            some ⟨{ loopAt w .poll with revents := revents }, sh.queue⟩ :=
        routerStep_of_loopStep (.blockingReady _ revents rfl hlen) rfl
      have hpoll : (routerN cfg).step ⟨{ loopAt w .poll with revents := revents }, sh.queue⟩
          (.loop (.poll (.ready revents))) =
            some ⟨scanFromStart { w with revents := revents }, sh.queue⟩ :=
        routerStep_of_loopStep (.pollReady _ revents rfl hlen) rfl
      exact ⟨scanFromStart { w with revents := revents },
        (LTS.Emits.of_step hblocking).trans (.of_step hpoll), .running _⟩

/-- INTERNAL: every run of the virtual-time router is, in its events, a run of the loop. -/
theorem vtRouter_follows {cfg : Config} {ls : List Label} {s : State}
    (hrun : (vtRouter cfg).Run ls s) :
    ∃ t, (routerN cfg).Emits loopEvents (routerN cfg).init (ls.flatMap netEvents) t ∧
      t.queue = s.shared.queue ∧ Mirrors cfg s.worker t.loop := by
  refine (vtRouter cfg).run_simulation (routerN cfg) netEvents loopEvents
    (R := fun s t => t.queue = s.shared.queue ∧ Mirrors cfg s.worker t.loop)
    ⟨rfl, .running .init⟩ ?_ ls s hrun
  rintro s ⟨r, queue⟩ l s' ⟨rfl, hM⟩ hs
  rcases step_cases hs with ⟨act, m, sh, rfl, hm, hsh, rfl⟩ |
    ⟨act, w, sh, rfl, hw, hsh, rfl⟩ | ⟨i, frame, rfl, hi, rfl⟩
  · exact ⟨⟨r, s.shared.queue⟩, .refl _, (mainEffect_of_main hsh).queue_eq.symm, hM⟩
  · obtain ⟨r', hemits, hM'⟩ := mirrors_step hM hw (workerEffect_of_worker hsh)
    exact ⟨⟨r', sh.queue⟩, hemits, rfl, hM'⟩
  · have harrive : (routerN cfg).step ⟨r, s.shared.queue⟩ (.arrive i frame) =
        some ⟨r, Function.update s.shared.queue i (s.shared.queue i ++ [frame])⟩ := if_pos hi
    exact ⟨_, .of_step harrive, rfl, hM⟩

/-! ## What both do to the frames -/

/-- INTERNAL: a run of the forwarder, in the words of the interfaces. -/
theorem forwards_of_run {cfg : Config} {events : List NetEvent}
    {u : Forwarder ℕ Frame Departure} (hrun : (forwarder (dueFor cfg)).Run events u)
    {queue : ℕ → List Frame} (hqueue : u.queue = queue) {waiting : Prop}
    (hwaiting : waiting → u.inHand = none) : Forwards cfg events queue waiting where
  conserved i := by
    rw [← hqueue]
    exact conserved hrun i
  handled := by
    rintro pre i f mid j g post rfl hmid hpos hfits
    rw [handled_between hrun hmid, dueFor_of_fits cfg i hpos hfits]
    split
    · rfl
    · rfl
  nothingElse := ⟨u.inHand, handled hrun, hwaiting⟩
  inOrder i dst := sent_of_input (fun _ _ _ => ingress_of_dueFor) hrun i fun o => decide (o.dst = dst)

/-- INTERNAL: every run of the loop forwards. -/
theorem forwards_of_routerN {cfg : Config} {ls : List RouterLabel} {t : RouterState}
    (hrun : (routerN cfg).Run ls t) :
    Forwards cfg (ls.flatMap loopEvents) t.queue
      (t.loop.pc = .poll ∨ t.loop.pc = .blockingPoll) := by
  obtain ⟨u, hu, himp⟩ := routerN_forwards hrun
  apply forwards_of_run hu himp.queue
  intro hwaiting
  rw [himp.inHand]
  apply inHand_eq_none
  rcases hwaiting with hpc | hpc <;> rw [hpc] <;> simp

/-- INTERNAL: every run of the virtual-time router forwards. -/
theorem forwards_of_vtRouter {cfg : Config} {ls : List Label} {s : State}
    (hrun : (vtRouter cfg).Run ls s) :
    Forwards cfg (ls.flatMap netEvents) s.shared.queue
      (s.worker.pc = .poll ∨ s.worker.pc = .blockingPoll) := by
  obtain ⟨t, ⟨ms, hms, hevents⟩, hqueue, hM⟩ := vtRouter_follows hrun
  obtain ⟨u, hu, himp⟩ := routerN_forwards hms
  rw [hevents] at hu
  apply forwards_of_run hu (himp.queue.trans hqueue)
  intro hwaiting
  rw [himp.inHand]
  apply inHand_eq_none
  rcases hwaiting with hpc | hpc
  · rw [hM.eq_mirror (by simp [hpc]) (by simp [hpc])]
    simp [mirror, hpc, loopAt]
  · obtain ⟨revents, hr⟩ := hM.of_blockingPoll hpc
    rw [hr]
    simp [loopAt]

/-! ## The fall-through in the loops -/

/-- INTERNAL: every run of the virtual-time router is, in its events, a run of the forwarder. -/
theorem vtRouter_forwards {cfg : Config} {ls : List Label} {s : State}
    (hrun : (vtRouter cfg).Run ls s) :
    ∃ u, (forwarder (dueFor cfg)).Run (ls.flatMap netEvents) u := by
  obtain ⟨t, ⟨ms, hms, hevents⟩, -, -⟩ := vtRouter_follows hrun
  obtain ⟨u, hu, -⟩ := routerN_forwards hms
  exact ⟨u, hevents ▸ hu⟩

/-- INTERNAL: a frame that has no interface to leave on is dropped.
SOURCE: utils.c:755-768, router_n.c:193-201 -/
theorem dropped_of_run {cfg : Config} {pre mid : List NetEvent} {i : ℕ} {f : Frame}
    {u : Forwarder ℕ Frame Departure}
    (hrun : (forwarder (dueFor cfg)).Run (pre ++ .take i f :: mid) u) (hmid : takes mid = [])
    (hnone : egress cfg f = -1) : sent mid = [] :=
  nothing_sent hrun hmid (if_pos (Or.inr hnone))

/-- INTERNAL: what is sent is on a route exactly when the lookup respects the routes there. -/
theorem onRoute_iff_of_forwards {cfg : Config} {events : List NetEvent} {queue : ℕ → List Frame}
    {waiting : Prop} (h : Forwards cfg events queue waiting) {o : Departure}
    (ho : o ∈ sent events) :
    OnRoute o.data cfg.intfNames cfg.routingList o.dst ↔
      RouteNamed o.data cfg.intfNames cfg.routingList := by
  obtain ⟨hdst, hne⟩ := h.dst_spec ho
  have hrespected : RouteRespected o.data cfg.intfNames cfg.routingList o.dst ↔
      RouteNamed o.data cfg.intfNames cfg.routingList := by
    rw [hdst]
    exact getDstSockIdx_respects_iff _ _ _
  rw [← hrespected]
  exact ⟨Or.inr, fun hor => hor.resolve_left hne⟩

/-- **When the lookup, and a loop that uses it, respect the routes.**  The result is accounted
for by a route exactly when the last entry for the destination names one of the interfaces, or
some entry for it names interface `0`, or there is none.  So is the interface on which either
router sends a frame.  And a frame for which the lookup finds no interface is dropped: up to
the next frame that is taken, nothing is sent.
SOURCE: utils.c:381-436, 744-769, router_n.c:190-202 -/
theorem lookup_respects_routes_iff (cfg : Config) :
    (∀ pkt, RouteRespected pkt cfg.intfNames cfg.routingList
        (getDstSockIdx pkt cfg.intfNames cfg.routingList) ↔
      RouteNamed pkt cfg.intfNames cfg.routingList) ∧
    (∀ ls t, (routerN cfg).Run ls t →
      (∀ o ∈ sent (ls.flatMap loopEvents),
        (OnRoute o.data cfg.intfNames cfg.routingList o.dst ↔
          RouteNamed o.data cfg.intfNames cfg.routingList)) ∧
      ∀ pre i f mid, ls.flatMap loopEvents = pre ++ .take i f :: mid → takes mid = [] →
        getDstSockIdx f cfg.intfNames cfg.routingList = -1 → sent mid = []) ∧
    ∀ ls s, (vtRouter cfg).Run ls s →
      (∀ o ∈ sent (ls.flatMap netEvents),
        (OnRoute o.data cfg.intfNames cfg.routingList o.dst ↔
          RouteNamed o.data cfg.intfNames cfg.routingList)) ∧
      ∀ pre i f mid, ls.flatMap netEvents = pre ++ .take i f :: mid → takes mid = [] →
        getDstSockIdx f cfg.intfNames cfg.routingList = -1 → sent mid = [] := by
  refine ⟨fun pkt => getDstSockIdx_respects_iff _ _ _, fun ls t hrun => ⟨fun o ho => ?_, ?_⟩,
    fun ls s hrun => ⟨fun o ho => ?_, ?_⟩⟩
  · exact onRoute_iff_of_forwards (forwards_of_routerN hrun) ho
  · intro pre i f mid hsplit hmid hnone
    obtain ⟨u, hu, -⟩ := routerN_forwards hrun
    exact dropped_of_run (hsplit ▸ hu) hmid hnone
  · exact onRoute_iff_of_forwards (forwards_of_vtRouter hrun) ho
  · intro pre i f mid hsplit hmid hnone
    obtain ⟨u, hu⟩ := vtRouter_forwards hrun
    exact dropped_of_run (hsplit ▸ hu) hmid hnone

/-- A switch with one interface and a route for an interface it does not have. -/
def foreignRoute : Config :=
  ⟨[cstr "s1-eth1"], [⟨cstr "10.0.0.1", cstr "s9-eth7", by decide, by decide⟩]⟩

/-- A frame to 10.0.0.1. -/
def frameToOne : Frame := List.replicate 30 0 ++ [10, 0, 0, 1]

/-- The frame of the foreign route leaves on interface `0`, which no route names. -/
theorem foreignRoute_leaves_on_zero :
    getDstSockIdx frameToOne foreignRoute.intfNames foreignRoute.routingList = 0 ∧
      ¬ RouteRespected frameToOne foreignRoute.intfNames foreignRoute.routingList
        (getDstSockIdx frameToOne foreignRoute.intfNames foreignRoute.routingList) := by
  have hzero : getDstSockIdx frameToOne foreignRoute.intfNames foreignRoute.routingList = 0 := by
    decide +kernel
  refine ⟨hzero, ?_⟩
  rw [hzero]
  rintro (h | ⟨i, hi, e, he, -, hname⟩)
  · omega
  · have hi0 : i = 0 := by omega
    subst hi0
    revert hname
    have hall : ∀ e ∈ foreignRoute.routingList,
        foreignRoute.intfNames[0]? ≠ some e.outputIf := by decide +kernel
    exact hall e he

/-- A run of the loop in which that frame arrives and is forwarded. -/
def foreignRun : List RouterLabel :=
  [.arrive 0 frameToOne, .loop (.poll (.ready [true])), .loop .tau,
    .loop (.recvfrom 0 (some frameToOne)), .loop (.sendPacket 0 0 frameToOne)]

/-- The loop sends the frame of the foreign route against the routes. -/
theorem lookup_respects_routes_foreignRun :
    ∃ t, (routerN foreignRoute).Run foreignRun t ∧
      ∀ o ∈ sent (foreignRun.flatMap loopEvents),
        (OnRoute o.data foreignRoute.intfNames foreignRoute.routingList o.dst ↔
          RouteNamed o.data foreignRoute.intfNames foreignRoute.routingList) := by
  have hsome : ((routerN foreignRoute).exec (routerN foreignRoute).init foreignRun).isSome := by
    decide +kernel
  obtain ⟨t, ht⟩ := Option.isSome_iff_exists.mp hsome
  exact ⟨t, ht, ((lookup_respects_routes_iff foreignRoute).2.1 foreignRun t ht).1⟩

end VtRouter.Analysis
