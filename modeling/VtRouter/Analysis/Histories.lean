import VtRouter.Interface.Phases
import VtRouter.Analysis.Forwarding

/-!
# The histories of the two routers

Whatever the loop without virtual time does at the interfaces, the virtual-time router can do:
the kernel only has to grant a new budget whenever one is asked for.  A call of `update_stub`
then lets the worker go on, directly or through a round of main (`emits_stub`), so the worker
reaches every point the loop reaches (`settles_of_stub`, `hosts_step`).  With
`Analysis.Forwarding`, the two routers have the same histories (`frames_forwarded`).

The blocking poll is the other way round here.  The loop leaves it and scans whatever it
finds; the worker, which must not wake up for nothing, waits until that is a frame.
-/

set_option autoImplicit false

namespace VtRouter.Analysis

open Library VtRouter.Model VtRouter.Interface

/-! ## Rounds of main -/

/-- Nothing in the pipes, and both flags down. -/
def atRest (queue : ℕ → List Frame) : Shared := ⟨[], [], false, false, queue⟩

/-- A command for 1000 microseconds. -/
def grant : List UInt8 := bytes "|1,1000000" ++ [0]

theorem ackAndGetNextCommand_grant :
    ∃ ack, ackAndGetNextCommand (some grant) = .ok ack ∧ ack.ret = 1000 := by
  have hret : (ackAndGetNextCommand (some grant)).map Ack.ret = .ok 1000 := by decide +kernel
  cases hack : ackAndGetNextCommand (some grant) with
  | error fault =>
      rw [hack] at hret
      cases hret
  | ok ack =>
      rw [hack] at hret
      exact ⟨ack, rfl, Except.ok.inj hret⟩

/-- INTERNAL: a step of main is no event at the interfaces. -/
theorem emits_main {cfg : Config} {m m' : Main} {w : Worker} {sh sh' : Shared} {act : MainAct}
    (hm : MainStep m act m') (heffect : MainEffect sh w act sh') :
    (vtRouter cfg).Emits netEvents ⟨m, w, sh⟩ [] ⟨m', w, sh'⟩ := by
  have hstep : step cfg ⟨m, w, sh⟩ (.main act) = some ⟨m', w, sh'⟩ :=
    step_of_mainStep hm heffect
  have hlts : (vtRouter cfg).step ⟨m, w, sh⟩ (.main act) = some ⟨m', w, sh'⟩ := hstep
  exact .of_step hlts

theorem emits_worker {cfg : Config} {m : Main} {w w' : Worker} {sh sh' : Shared}
    {act : WorkerAct} (hw : WorkerStep cfg w act w') (heffect : WorkerEffect sh act sh') :
    (vtRouter cfg).Emits netEvents ⟨m, w, sh⟩ (netEvents (.worker act)) ⟨m, w', sh'⟩ := by
  have hstep : step cfg ⟨m, w, sh⟩ (.worker act) = some ⟨m, w', sh'⟩ :=
    step_of_workerStep hw heffect
  have hlts : (vtRouter cfg).step ⟨m, w, sh⟩ (.worker act) = some ⟨m, w', sh'⟩ := hstep
  exact .of_step hlts

/-- INTERNAL: main takes a command and hands its budget over.
SOURCE: router_app_vt.c:404-416 -/
theorem emits_handOver (cfg : Config) {m : Main} (w : Worker) (queue : ℕ → List Frame)
    (hm : m.pc = .ackAndGetNextCommand) :
    ∃ m', m'.pc = .waitReply ∧
      (vtRouter cfg).Emits netEvents ⟨m, w, atRest queue⟩ []
        ⟨m', w, { atRest queue with mainToThread := intText 1000 }⟩ := by
  obtain ⟨ack, hack, hret⟩ := ackAndGetNextCommand_grant
  have hcommand : (vtRouter cfg).Emits netEvents ⟨m, w, atRest queue⟩ []
      ⟨{ m with pc := .testBlocked, perRoundAdvance := ack.ret }, w, atRest queue⟩ :=
    emits_main (.command m (some grant) ack hm hack (by omega)) (.ackAndGetNextCommand _ _ _)
  have htest : (vtRouter cfg).Emits netEvents
      ⟨{ m with pc := .testBlocked, perRoundAdvance := ack.ret }, w, atRest queue⟩ []
      ⟨{ m with pc := .sendBudget, perRoundAdvance := ack.ret }, w, atRest queue⟩ :=
    emits_main (.test _ rfl) .readIsBlocked
  have hsend : (vtRouter cfg).Emits netEvents
      ⟨{ m with pc := .sendBudget, perRoundAdvance := ack.ret }, w, atRest queue⟩ []
      ⟨{ m with pc := .waitReply, perRoundAdvance := ack.ret }, w,
        { atRest queue with mainToThread := intText 1000 }⟩ := by
    rw [← hret]
    exact emits_main (.sendBudget _ rfl) (.pipeSend _)
  exact ⟨_, rfl, (hcommand.trans htest).trans hsend⟩

/-- INTERNAL: the worker reads the budget. -/
theorem emits_pipeRead {cfg : Config} {m : Main} {w w' : Worker} {queue : ℕ → List Frame}
    (hw : WorkerStep cfg w (.pipeRead 1000) w') :
    (vtRouter cfg).Emits netEvents
      ⟨m, w, { atRest queue with mainToThread := intText 1000 }⟩ [] ⟨m, w', atRest queue⟩ := by
  have hint : IsInt32 1000 := by decide
  exact emits_worker hw (.pipeRead 1000 [] (pipeRead_intText hint))

/-- The budget of a worker that may go on computing. -/
def HasBudget (w : Worker) : Prop := 0 < w.left ∧ w.left ≤ 1000

/-- INTERNAL: **`update_stub` lets the worker go on**, with the budget it has or a new one.
SOURCE: utils.c:549-583 -/
theorem emits_stub (cfg : Config) {m : Main} {w : Worker} {site : Site}
    (queue : ℕ → List Frame) (hm : m.pc = .waitReply) (hpc : w.pc = .updateStub site)
    (hleft : HasBudget w) :
    ∃ m' left, m'.pc = .waitReply ∧ (0 < left ∧ left ≤ 1000) ∧
      (vtRouter cfg).Emits netEvents ⟨m, w, atRest queue⟩ []
        ⟨m', afterSite cfg { w with left := left, pc := .testStop site } site,
          atRest queue⟩ := by
  obtain ⟨hpos, hmax⟩ := hleft
  by_cases hover : wrap32 (w.left - 50) ≤ 0
  · -- The budget is used up: a round of main.
    have hcharge : (vtRouter cfg).Emits netEvents ⟨m, w, atRest queue⟩ []
        ⟨m, { w with left := wrap32 (w.left - 50), pc := .reply site }, atRest queue⟩ :=
      emits_worker (.chargeOver w site hpc hover) (.charge 50)
    have hreply : (vtRouter cfg).Emits netEvents
        ⟨m, { w with left := wrap32 (w.left - 50), pc := .reply site }, atRest queue⟩ []
        ⟨m, { w with left := wrap32 (w.left - 50), pc := .nextCmd site },
          { atRest queue with
            threadToMain := intText (wrap32 (-1 * wrap32 (w.left - 50))) }⟩ :=
      emits_worker (.reply _ site rfl) (.pipeSend _)
    have hread : (vtRouter cfg).Emits netEvents
        ⟨m, { w with left := wrap32 (w.left - 50), pc := .nextCmd site },
          { atRest queue with
            threadToMain := intText (wrap32 (-1 * wrap32 (w.left - 50))) }⟩ []
        ⟨afterReply m (wrap32 (-1 * wrap32 (w.left - 50))),
          { w with left := wrap32 (w.left - 50), pc := .nextCmd site }, atRest queue⟩ :=
      emits_main (.reply m _ hm) (.pipeRead _ [] (pipeRead_intText (isInt32_wrap32 _)))
    obtain ⟨m', hm', hhand⟩ := emits_handOver cfg
      { w with left := wrap32 (w.left - 50), pc := .nextCmd site } queue (afterReply_pc m _)
    have hnext : (vtRouter cfg).Emits netEvents
        ⟨m', { w with left := wrap32 (w.left - 50), pc := .nextCmd site },
          { atRest queue with mainToThread := intText 1000 }⟩ []
        ⟨m', { w with left := 1000, pc := .testStop site }, atRest queue⟩ :=
      emits_pipeRead (.nextCmd _ site 1000 rfl (by norm_num))
    have htest : (vtRouter cfg).Emits netEvents
        ⟨m', { w with left := 1000, pc := .testStop site }, atRest queue⟩ []
        ⟨m', afterSite cfg { w with left := 1000, pc := .testStop site } site, atRest queue⟩ :=
      emits_worker (.testStop _ site rfl) .readStop
    exact ⟨m', 1000, hm', by norm_num,
      ((((hcharge.trans hreply).trans hread).trans hhand).trans hnext).trans htest⟩
  · have hint : IsInt32 (w.left - 50) := by
      unfold IsInt32
      omega
    have hcharge : (vtRouter cfg).Emits netEvents ⟨m, w, atRest queue⟩ []
        ⟨m, { w with left := wrap32 (w.left - 50), pc := .fallOff site }, atRest queue⟩ :=
      emits_worker (.charge w site hpc (by omega)) (.charge 50)
    have hfall : (vtRouter cfg).Emits netEvents
        ⟨m, { w with left := wrap32 (w.left - 50), pc := .fallOff site }, atRest queue⟩ []
        ⟨m, { w with left := wrap32 (w.left - 50), pc := .testStop site }, atRest queue⟩ :=
      emits_worker (.fallOff _ site 0 rfl (le_refl 0)) (.fallOff 0)
    have htest : (vtRouter cfg).Emits netEvents
        ⟨m, { w with left := wrap32 (w.left - 50), pc := .testStop site }, atRest queue⟩ []
        ⟨m, afterSite cfg { w with left := wrap32 (w.left - 50), pc := .testStop site } site,
          atRest queue⟩ :=
      emits_worker (.testStop _ site rfl) .readStop
    refine ⟨m, wrap32 (w.left - 50), hm, ?_, (hcharge.trans hfall).trans htest⟩
    rw [wrap32_of_isInt32 hint] at hover ⊢
    omega

/-! ## Where the worker waits for the loop -/

/-- The control point of the worker that is one of the loop. -/
def atLoopPc : LoopPc → Pc
  | .poll => .poll
  | .scan => .scan
  | .recvfrom => .recvfrom
  | .sendPacket => .sendPacket
  | .blockingPoll => .blockingPoll
  | .exited => .finished

/-- The loop has nothing in hand and has seen no frame since its blocking poll. -/
def Idles (r : Loop) : Prop :=
  r.pc = .blockingPoll ∨ r.pc = .poll ∨ (r.pc = .scan ∧ r.runnable = false ∧ true ∉ r.revents)

/-- The virtual-time router is where the loop is: before its first command, with a budget, or
in its blocking poll.  A loop that has exited is nowhere. -/
inductive Hosts : RouterState → State → Prop
  | starting (m : Main) (w : Worker) (queue : ℕ → List Frame)
      (hm : m.pc = .ackAndGetNextCommand) (hpc : w.pc = .firstCmd) :
      Hosts ⟨loopAt w .poll, queue⟩ ⟨m, w, atRest queue⟩
  | granted (m : Main) (w : Worker) (pc : LoopPc) (queue : ℕ → List Frame)
      (hm : m.pc = .waitReply) (hleft : HasBudget w) (hpc : w.pc = atLoopPc pc)
      (hblocked : pc ≠ .blockingPoll) : Hosts ⟨loopAt w pc, queue⟩ ⟨m, w, atRest queue⟩
  | blocked (m : Main) (w : Worker) (r : Loop) (queue : ℕ → List Frame)
      (hm : m.pc = .ackAndGetNextCommand) (hpc : w.pc = .blockingPoll) (hidle : Idles r)
      (hvars : r.buf = w.buf ∧ r.dataSize = w.dataSize ∧ r.dstSockIdx = w.dstSockIdx) :
      Hosts ⟨r, queue⟩ ⟨m, w, { atRest queue with isBlocked := true }⟩
  | exited (r : Loop) (s : State) (hpc : r.pc = .exited) : Hosts ⟨r, s.shared.queue⟩ s

/-- From a state with this worker, and main waiting for its reply, the virtual-time router
gets to where the loop `r` is, without an event. -/
def Settles (cfg : Config) (m : Main) (w : Worker) (r : Loop) (queue : ℕ → List Frame) : Prop :=
  ∃ s, (vtRouter cfg).Emits netEvents ⟨m, w, atRest queue⟩ [] s ∧ Hosts ⟨r, queue⟩ s

/-- The control points of the worker's own loop, outside `update_stub` and the handshake. -/
def ofLoop : Pc → Bool
  | .repeat_ | .poll | .scan | .recvfrom | .sendPacket | .needToBlock | .finished => true
  | _ => false

/-- INTERNAL: in its own loop the worker settles.
SOURCE: utils.c:679-692, 776-793 -/
theorem settles_of_ofLoop (cfg : Config) {m : Main} {w : Worker} (queue : ℕ → List Frame)
    (hm : m.pc = .waitReply) (hleft : HasBudget w) (hloop : ofLoop w.pc = true) :
    Settles cfg m w (mirror cfg w) queue := by
  cases hpc : w.pc with
  | repeat_ =>
      have hstop : (vtRouter cfg).Emits netEvents ⟨m, w, atRest queue⟩ []
          ⟨m, { w with pc := .poll }, atRest queue⟩ :=
        emits_worker (.repeat_ w hpc) .readStop
      refine ⟨_, hstop, ?_⟩
      simp only [mirror, hpc]
      exact .granted m { w with pc := .poll } .poll queue hm hleft rfl (by simp)
  | poll =>
      refine ⟨_, .refl _, ?_⟩
      simp only [mirror, hpc]
      exact .granted m w .poll queue hm hleft hpc (by simp)
  | scan =>
      refine ⟨_, .refl _, ?_⟩
      simp only [mirror, hpc]
      exact .granted m w .scan queue hm hleft hpc (by simp)
  | recvfrom =>
      refine ⟨_, .refl _, ?_⟩
      simp only [mirror, hpc]
      exact .granted m w .recvfrom queue hm hleft hpc (by simp)
  | sendPacket =>
      refine ⟨_, .refl _, ?_⟩
      simp only [mirror, hpc]
      exact .granted m w .sendPacket queue hm hleft hpc (by simp)
  | needToBlock =>
      -- The announcement, and main taking note of it.
      have hflag : (vtRouter cfg).Emits netEvents ⟨m, w, atRest queue⟩ []
          ⟨m, { w with left := 0, pc := .announce }, { atRest queue with isBlocked := true }⟩ :=
        emits_worker (.needToBlock w hpc) (.writeIsBlocked true)
      have hsend : (vtRouter cfg).Emits netEvents
          ⟨m, { w with left := 0, pc := .announce }, { atRest queue with isBlocked := true }⟩ []
          ⟨m, { w with left := 0, pc := .blockingPoll },
            { atRest queue with isBlocked := true, threadToMain := intText threadBlocked }⟩ :=
        emits_worker (.announce _ rfl) (.pipeSend _)
      have hint : IsInt32 threadBlocked := by decide
      have hread : (vtRouter cfg).Emits netEvents
          ⟨m, { w with left := 0, pc := .blockingPoll },
            { atRest queue with isBlocked := true, threadToMain := intText threadBlocked }⟩ []
          ⟨afterReply m threadBlocked, { w with left := 0, pc := .blockingPoll },
            { atRest queue with isBlocked := true }⟩ :=
        emits_main (.reply m threadBlocked hm) (.pipeRead _ [] (pipeRead_intText hint))
      refine ⟨_, (hflag.trans hsend).trans hread, ?_⟩
      simp only [mirror, hpc]
      exact .blocked _ _ _ queue (afterReply_pc m _) rfl (Or.inl rfl) ⟨rfl, rfl, rfl⟩
  | finished =>
      refine ⟨_, .refl _, ?_⟩
      simp only [mirror, hpc]
      exact .exited (loopAt w .exited) ⟨m, w, atRest queue⟩ rfl
  | _ =>
      rw [hpc] at hloop
      cases hloop

/-- INTERNAL: the worker settles in `update_stub` if it does behind it. -/
theorem settles_through_stub (cfg : Config) {m : Main} {w : Worker} {site : Site}
    (queue : ℕ → List Frame) (hm : m.pc = .waitReply) (hleft : HasBudget w)
    (hpc : w.pc = .updateStub site)
    (hbehind : ∀ m' left, m'.pc = .waitReply →
      HasBudget (afterSite cfg { w with left := left, pc := .testStop site } site) →
        Settles cfg m' (afterSite cfg { w with left := left, pc := .testStop site } site)
          (mirror cfg (afterSite cfg { w with left := left, pc := .testStop site } site)) queue) :
    Settles cfg m w (mirror cfg w) queue := by
  obtain ⟨m', left, hm', hleft', hemits⟩ := emits_stub cfg queue hm hpc hleft
  have hbudget : HasBudget (afterSite cfg { w with left := left, pc := .testStop site } site) := by
    unfold HasBudget
    rw [(afterSite_spec cfg _ site).2.2.2]
    exact hleft'
  obtain ⟨s, hs, hhosts⟩ := hbehind m' left hm' hbudget
  rw [mirror_afterSite, mirrorSite_stub] at hhosts
  refine ⟨s, hemits.trans hs, ?_⟩
  simp only [mirror, hpc]
  exact hhosts

/-- INTERNAL: except for the lookup, the worker is back in its loop behind `update_stub`.
SOURCE: utils.c:705-769 -/
theorem ofLoop_afterSite (cfg : Config) (w : Worker) {site : Site} (hsite : site ≠ .recvfrom) :
    ofLoop (afterSite cfg w site).pc = true := by
  cases site with
  | poll => cases hret : w.ret <;> simp [afterSite, ofLoop, hret]
  | flushBuffer => rfl
  | recvfrom => exact absurd rfl hsite
  | getDstSockIdx => by_cases hdst : w.dstSockIdx = -1 <;> simp [afterSite, ofLoop, hdst]
  | sendPacket => rfl

/-- INTERNAL: the worker settles in `update_stub`; behind the call for `recvfrom` there may be
another, for the lookup.
SOURCE: utils.c:705-769 -/
theorem settles_of_stub (cfg : Config) {m : Main} {w : Worker} {site : Site}
    (queue : ℕ → List Frame) (hm : m.pc = .waitReply) (hleft : HasBudget w)
    (hpc : w.pc = .updateStub site) : Settles cfg m w (mirror cfg w) queue := by
  apply settles_through_stub cfg queue hm hleft hpc
  intro m' left hm' hleft'
  by_cases hsite : site = .recvfrom
  · subst hsite
    by_cases hsize : 0 < w.dataSize
    · have hlookup : (afterSite cfg { w with left := left, pc := .testStop .recvfrom }
          .recvfrom).pc = .updateStub .getDstSockIdx := by
        simp only [afterSite, if_pos hsize]
      apply settles_through_stub cfg queue hm' hleft' hlookup
      intro m'' left' hm'' hleft''
      exact settles_of_ofLoop cfg queue hm'' hleft'' (ofLoop_afterSite cfg _ (by simp))
    · apply settles_of_ofLoop cfg queue hm' hleft'
      simp only [afterSite, if_neg hsize]
      rfl
  · exact settles_of_ofLoop cfg queue hm' hleft' (ofLoop_afterSite cfg _ hsite)

/-- INTERNAL: a round of the scan takes the worker to its call of `recvfrom`, or leaves it in
its loop.
SOURCE: utils.c:717-723, 776-788 -/
theorem settles_of_scan (cfg : Config) {m : Main} {w : Worker} (queue : ℕ → List Frame)
    (hm : m.pc = .waitReply) (hleft : HasBudget w) (hpc : w.pc = .scan) :
    Settles cfg m (scan cfg w) (mirror cfg (scan cfg w)) queue := by
  have hbudget : HasBudget (scan cfg w) := by
    unfold HasBudget
    rw [(scan_spec cfg w hpc).2.2.2]
    exact hleft
  have hnext : (scan cfg w).pc = .updateStub .flushBuffer ∨ ofLoop (scan cfg w).pc = true := by
    unfold scan
    split
    · split
      · exact Or.inl rfl
      · exact Or.inr (by simp [hpc, ofLoop])
    · split
      · exact Or.inr rfl
      · exact Or.inr rfl
  rcases hnext with hstub | hloop
  · exact settles_of_stub cfg queue hm hbudget hstub
  · exact settles_of_ofLoop cfg queue hm hbudget hloop

/-- INTERNAL: behind `recvfrom` the worker settles.
SOURCE: utils.c:733-769 -/
theorem settles_of_received (cfg : Config) {m : Main} {w : Worker} (queue : ℕ → List Frame)
    (hm : m.pc = .waitReply) (hleft : HasBudget w) (frame : Option Frame) :
    Settles cfg m (received w frame) (mirror cfg (received w frame)) queue := by
  obtain ⟨hpc, hsame⟩ := received_spec w frame
  have hbudget : HasBudget (received w frame) := by
    unfold HasBudget
    rw [hsame]
    exact hleft
  exact settles_of_stub cfg queue hm hbudget hpc

/-! ## The steps of the loop -/

/-- INTERNAL: one step of the worker, and it settles. -/
theorem settles_after_step {cfg : Config} {m : Main} {w w' : Worker} {act : WorkerAct}
    {queue queue' : ℕ → List Frame} (hw : WorkerStep cfg w act w')
    (heffect : WorkerEffect (atRest queue) act (atRest queue')) {r : Loop}
    (hsettles : Settles cfg m w' r queue') :
    ∃ s, (vtRouter cfg).Emits netEvents ⟨m, w, atRest queue⟩ (netEvents (.worker act)) s ∧
      Hosts ⟨r, queue'⟩ s := by
  obtain ⟨s, hs, hhosts⟩ := hsettles
  exact ⟨s, (emits_worker hw heffect).trans_silent hs, hhosts⟩

/-- INTERNAL: with a budget, the worker does what the loop does. -/
theorem granted_step {cfg : Config} {m : Main} {w : Worker} {pc : LoopPc}
    {queue queue' : ℕ → List Frame} {a : LoopAct} {r' : Loop} (hm : m.pc = .waitReply)
    (hleft : HasBudget w) (hpc : w.pc = atLoopPc pc) (hblocked : pc ≠ .blockingPoll)
    (hr : LoopStep cfg (loopAt w pc) a r') (hq : queueAfter queue a = some queue') :
    ∃ s, (vtRouter cfg).Emits netEvents ⟨m, w, atRest queue⟩ (loopEvents (.loop a)) s ∧
      Hosts ⟨r', queue'⟩ s := by
  cases hr with
  | pollInterrupted hpc' =>
      cases hpc'
      cases hq
      exact settles_after_step (.pollError w .interrupted hpc (Or.inl rfl)) (.poll _)
        (settles_of_stub cfg queue hm hleft rfl)
  | pollFailed hpc' =>
      cases hpc'
      cases hq
      exact settles_after_step (.pollError w .failed hpc (Or.inr rfl)) (.poll _)
        (settles_of_stub cfg queue hm hleft rfl)
  | pollReady revents hpc' hlen =>
      cases hpc'
      cases hq
      exact settles_after_step (.pollReady w revents hpc hlen) (.poll _)
        (settles_of_stub cfg queue hm hleft rfl)
  | scan hpc' =>
      cases hpc'
      cases hq
      have hsettles := settles_of_scan cfg queue hm hleft hpc
      rw [mirror_scan cfg hpc] at hsettles
      simp only [mirror, hpc, atLoopPc] at hsettles
      exact settles_after_step (.scan w hpc) .tau hsettles
  | recvfrom frame hpc' =>
      cases hpc'
      have hsettles := settles_of_received cfg queue' hm hleft frame
      rw [mirror_received cfg hpc] at hsettles
      simp only [mirror, hpc, atLoopPc] at hsettles
      cases frame with
      | none =>
          cases hq
          exact settles_after_step (.recvfrom w none hpc) (.recvfromError _) hsettles
      | some f =>
          obtain ⟨rest, hqueue, rfl⟩ := queueAfter_recvfrom hq
          exact settles_after_step (.recvfrom w (some f) hpc) (.recvfrom _ f rest hqueue) hsettles
  | sendPacket hpc' =>
      cases hpc'
      cases hq
      exact settles_after_step (.sendPacket w hpc) (.sendPacket _ _ _)
        (settles_of_stub cfg queue hm hleft rfl)
  | blockingInterrupted hpc' | blockingFailed hpc' | blockingReady revents hpc' hlen =>
      exact absurd hpc' hblocked

/-- INTERNAL: before its first command, the worker takes one and is at its poll.
SOURCE: utils.c:667-692 -/
theorem starting_settles (cfg : Config) {m : Main} {w : Worker} (queue : ℕ → List Frame)
    (hm : m.pc = .ackAndGetNextCommand) (hpc : w.pc = .firstCmd) :
    ∃ m' w', m'.pc = .waitReply ∧ HasBudget w' ∧ w'.pc = .poll ∧ loopAt w' .poll = loopAt w .poll ∧
      (vtRouter cfg).Emits netEvents ⟨m, w, atRest queue⟩ [] ⟨m', w', atRest queue⟩ := by
  obtain ⟨m', hm', hhand⟩ := emits_handOver cfg w queue hm
  have hread : (vtRouter cfg).Emits netEvents
      ⟨m', w, { atRest queue with mainToThread := intText 1000 }⟩ []
      ⟨m', { w with left := 1000, pc := .repeat_ }, atRest queue⟩ :=
    emits_pipeRead (.firstCmd w 1000 hpc (by norm_num))
  have hstop : (vtRouter cfg).Emits netEvents
      ⟨m', { w with left := 1000, pc := .repeat_ }, atRest queue⟩ []
      ⟨m', { w with left := 1000, pc := .poll }, atRest queue⟩ :=
    emits_worker (.repeat_ _ rfl) .readStop
  exact ⟨m', { w with left := 1000, pc := .poll }, hm', by norm_num [HasBudget], rfl, rfl,
    (hhand.trans hread).trans hstop⟩

/-- INTERNAL: a poll with a frame wakes the worker, which takes a command and scans.
SOURCE: utils.c:795-832 -/
theorem blocked_wakes (cfg : Config) {m : Main} {w : Worker} {revents : List Bool}
    (queue : ℕ → List Frame) (hm : m.pc = .ackAndGetNextCommand) (hpc : w.pc = .blockingPoll)
    (hlen : revents.length = cfg.nIntfs) (hsome : true ∈ revents) :
    ∃ m' w', m'.pc = .waitReply ∧ HasBudget w' ∧ w'.pc = .scan ∧
      loopAt w' .scan = scanFromStart { w with revents := revents } ∧
      (vtRouter cfg).Emits netEvents ⟨m, w, { atRest queue with isBlocked := true }⟩ []
        ⟨m', w', atRest queue⟩ := by
  have hpoll : (vtRouter cfg).Emits netEvents ⟨m, w, { atRest queue with isBlocked := true }⟩ []
      ⟨m, { w with revents := revents, pc := .resume },
        { atRest queue with isBlocked := true }⟩ :=
    emits_worker (.blockingReady w revents hpc hlen hsome) (.poll _)
  have hflag : (vtRouter cfg).Emits netEvents
      ⟨m, { w with revents := revents, pc := .resume }, { atRest queue with isBlocked := true }⟩ []
      ⟨m, { w with revents := revents, pc := .resumeCmd }, atRest queue⟩ :=
    emits_worker (.resume _ rfl) (.writeIsBlocked false)
  obtain ⟨m', hm', hhand⟩ :=
    emits_handOver cfg { w with revents := revents, pc := .resumeCmd } queue hm
  have hread : (vtRouter cfg).Emits netEvents
      ⟨m', { w with revents := revents, pc := .resumeCmd },
        { atRest queue with mainToThread := intText 1000 }⟩ []
      ⟨m', { w with revents := revents, left := 1000, pc := .resumeStop }, atRest queue⟩ :=
    emits_pipeRead (.resumeCmd _ 1000 rfl (by norm_num))
  have hstop : (vtRouter cfg).Emits netEvents
      ⟨m', { w with revents := revents, left := 1000, pc := .resumeStop }, atRest queue⟩ []
      ⟨m', { w with revents := revents, left := 1000, i := 0, runnable := false, pc := .scan },
        atRest queue⟩ :=
    emits_worker (.resumeStop _ rfl) .readStop
  exact ⟨m', { w with revents := revents, left := 1000, i := 0, runnable := false, pc := .scan },
    hm', by norm_num [HasBudget], rfl, rfl,
    (((hpoll.trans hflag).trans hhand).trans hread).trans hstop⟩

/-- INTERNAL: an idle scan stays idle.
SOURCE: router_n.c:180-183, 208-217 -/
theorem idles_scanLoop (cfg : Config) {r : Loop} (hpc : r.pc = .scan) (hrun : r.runnable = false)
    (hnone : true ∉ r.revents) :
    Idles (scanLoop cfg r) ∧ (scanLoop cfg r).buf = r.buf ∧
      (scanLoop cfg r).dataSize = r.dataSize ∧ (scanLoop cfg r).dstSockIdx = r.dstSockIdx := by
  have hclear : r.revents.getD r.i false ≠ true := by
    intro hset
    by_cases hi : r.i < r.revents.length
    · rw [List.getD_eq_getElem _ _ hi] at hset
      exact hnone (hset ▸ List.getElem_mem hi)
    · rw [List.getD_eq_default _ _ (by omega)] at hset
      cases hset
  unfold scanLoop
  split
  · exact ⟨Or.inr (Or.inr ⟨hpc, hrun, hnone⟩), rfl, rfl, rfl⟩
  · rw [hrun]
    exact ⟨Or.inl rfl, rfl, rfl, rfl⟩

/-- INTERNAL: in its blocking poll, the worker waits until the loop has seen a frame. -/
theorem blocked_step {cfg : Config} {m : Main} {w : Worker} {r r' : Loop}
    {queue queue' : ℕ → List Frame} {a : LoopAct} (hm : m.pc = .ackAndGetNextCommand)
    (hpc : w.pc = .blockingPoll) (hidle : Idles r)
    (hvars : r.buf = w.buf ∧ r.dataSize = w.dataSize ∧ r.dstSockIdx = w.dstSockIdx)
    (hr : LoopStep cfg r a r') (hq : queueAfter queue a = some queue') :
    ∃ s, (vtRouter cfg).Emits netEvents ⟨m, w, { atRest queue with isBlocked := true }⟩
        (loopEvents (.loop a)) s ∧ Hosts ⟨r', queue'⟩ s := by
  have hstays : ∀ r' : Loop, Idles r' →
      r'.buf = r.buf ∧ r'.dataSize = r.dataSize ∧ r'.dstSockIdx = r.dstSockIdx →
      ∃ s, (vtRouter cfg).Emits netEvents ⟨m, w, { atRest queue with isBlocked := true }⟩ [] s ∧
        Hosts ⟨r', queue⟩ s := by
    rintro r' hidle' ⟨hbuf, hsize, hdst⟩
    obtain ⟨hbuf', hsize', hdst'⟩ := hvars
    exact ⟨_, .refl _, .blocked m w r' queue hm hpc hidle'
      ⟨hbuf.trans hbuf', hsize.trans hsize', hdst.trans hdst'⟩⟩
  cases hr with
  | pollInterrupted hpc' | blockingInterrupted hpc' =>
      cases hq
      exact hstays r hidle ⟨rfl, rfl, rfl⟩
  | pollFailed hpc' | blockingFailed hpc' =>
      cases hq
      exact ⟨_, .refl _, .exited _ ⟨m, w, { atRest queue with isBlocked := true }⟩ rfl⟩
  | pollReady revents hpc' hlen =>
      cases hq
      by_cases hsome : true ∈ revents
      · obtain ⟨m', w', hm', hleft, hpc'', hloop, hemits⟩ :=
          blocked_wakes cfg queue hm hpc hlen hsome
        obtain ⟨hbuf, hsize, hdst⟩ := hvars
        have hscan : ({ r with revents := revents, i := 0, runnable := false, pc := .scan } : Loop) =
            loopAt w' .scan := by
          rw [hloop, hbuf, hsize, hdst]
          rfl
        refine ⟨_, hemits, ?_⟩
        rw [hscan]
        exact .granted m' w' .scan queue hm' hleft hpc'' (by simp)
      · exact hstays _ (Or.inr (Or.inr ⟨rfl, rfl, hsome⟩)) ⟨rfl, rfl, rfl⟩
  | scan hpc' =>
      cases hq
      rcases hidle with h | h | ⟨-, hrun, hnone⟩
      · rw [hpc'] at h
        cases h
      · rw [hpc'] at h
        cases h
      · obtain ⟨hidle', hvars'⟩ := idles_scanLoop cfg hpc' hrun hnone
        exact hstays _ hidle' hvars'
  | recvfrom frame hpc' | sendPacket hpc' =>
      rcases hidle with h | h | ⟨h, -⟩ <;> rw [hpc'] at h <;> cases h
  | blockingReady revents hpc' hlen =>
      cases hq
      exact hstays _ (Or.inr (Or.inl rfl)) ⟨rfl, rfl, rfl⟩

/-- INTERNAL: a frame arrives wherever the worker is. -/
theorem hosts_arrive {r : Loop} {queue : ℕ → List Frame} {s : State} (h : Hosts ⟨r, queue⟩ s)
    (i : ℕ) (frame : Frame) :
    s.shared.queue = queue ∧
      Hosts ⟨r, Function.update queue i (queue i ++ [frame])⟩
        { s with shared := { s.shared with
          queue := Function.update s.shared.queue i (s.shared.queue i ++ [frame]) } } := by
  cases h with
  | starting m w queue hm hpc => exact ⟨rfl, .starting m w _ hm hpc⟩
  | granted m w pc queue hm hleft hpc hblocked =>
      exact ⟨rfl, .granted m w pc _ hm hleft hpc hblocked⟩
  | blocked m w r queue hm hpc hidle hvars => exact ⟨rfl, .blocked m w r _ hm hpc hidle hvars⟩
  | exited r s hpc =>
      have hexited := Hosts.exited r { s with shared := { s.shared with
        queue := Function.update s.shared.queue i (s.shared.queue i ++ [frame]) } } hpc
      exact ⟨rfl, hexited⟩

/-- INTERNAL: **one step of the loop is one the virtual-time router can make.** -/
theorem hosts_step {cfg : Config} {t t' : RouterState} {s : State} {l : RouterLabel}
    (h : Hosts t s) (ht : (routerN cfg).step t l = some t') :
    ∃ s', (vtRouter cfg).Emits netEvents s (loopEvents l) s' ∧ Hosts t' s' := by
  have hcases : routerStep cfg t l = some t' := ht
  rcases routerStep_cases hcases with
    ⟨act, r, queue, rfl, hr, hq, rfl⟩ | ⟨i, frame, rfl, hi, rfl⟩
  · cases h with
    | starting m w queue' hm hpc =>
        obtain ⟨m', w', hm', hleft, hpc', hloop, hemits⟩ := starting_settles cfg queue' hm hpc
        have hr' : LoopStep cfg (loopAt w' .poll) act r := by
          rw [hloop]
          exact hr
        have hpoll : w'.pc = atLoopPc .poll := hpc'
        obtain ⟨s', hs', hhosts⟩ := granted_step hm' hleft hpoll (by simp) hr' hq
        exact ⟨s', hemits.trans hs', hhosts⟩
    | granted m w pc queue' hm hleft hpc hblocked =>
        exact granted_step hm hleft hpc hblocked hr hq
    | blocked m w r' queue' hm hpc hidle hvars => exact blocked_step hm hpc hidle hvars hr hq
    | exited r' s hpc =>
        have hpc' : r'.pc = .exited := hpc
        cases hr <;> simp_all
  · obtain ⟨hqueue, hhosts⟩ := hosts_arrive h i frame
    have harrive : (vtRouter cfg).step s (.arrive i frame) =
        some { s with shared := { s.shared with
          queue := Function.update s.shared.queue i (s.shared.queue i ++ [frame]) } } :=
      if_pos hi
    exact ⟨_, .of_step harrive, hhosts⟩

/-- INTERNAL: every run of the loop is, in its events, a run of the virtual-time router. -/
theorem routerN_hosted {cfg : Config} {ls : List RouterLabel} {t : RouterState}
    (hrun : (routerN cfg).Run ls t) :
    ∃ s, (vtRouter cfg).Emits netEvents (vtRouter cfg).init (ls.flatMap loopEvents) s ∧
      Hosts t s :=
  (routerN cfg).run_simulation (vtRouter cfg) loopEvents netEvents
    (.starting .init .init (fun _ => []) rfl rfl) (fun _ _ _ _ h ht => hosts_step h ht) ls t hrun

/-- INTERNAL: the queues are the same. -/
theorem Hosts.queue_eq {t : RouterState} {s : State} (h : Hosts t s) :
    s.shared.queue = t.queue := by
  cases h <;> rfl

/-! ## The frames -/

/-- **What the routers do to the frames.**  In every run of either router, each frame taken is
sent once as it came on the interface the lookup chose, or not at all, before the next is
taken; nothing else is sent; what is not taken stays queued; and from one interface to another
the frames leave in the order of arrival.  And the routers have the same histories: what
happens at the interfaces in a run of one, up to the frames left in the queues, happens in a
run of the other.
SOURCE: router_n.c:155-231, utils.c:677-834 -/
theorem frames_forwarded (cfg : Config) :
    (∀ ls t, (routerN cfg).Run ls t →
      Forwards cfg (ls.flatMap loopEvents) t.queue
        (t.loop.pc = .poll ∨ t.loop.pc = .blockingPoll)) ∧
    (∀ ls s, (vtRouter cfg).Run ls s →
      Forwards cfg (ls.flatMap netEvents) s.shared.queue
        (s.worker.pc = .poll ∨ s.worker.pc = .blockingPoll)) ∧
    ∀ events queue,
      (∃ ls t, (routerN cfg).Run ls t ∧ ls.flatMap loopEvents = events ∧ t.queue = queue) ↔
        ∃ ls s, (vtRouter cfg).Run ls s ∧ ls.flatMap netEvents = events ∧
          s.shared.queue = queue := by
  refine ⟨fun ls t => forwards_of_routerN, fun ls s => forwards_of_vtRouter, ?_⟩
  intro events queue
  constructor
  · rintro ⟨ls, t, hrun, rfl, rfl⟩
    obtain ⟨s, ⟨ms, hms, hevents⟩, hhosts⟩ := routerN_hosted hrun
    exact ⟨ms, s, hms, hevents, hhosts.queue_eq⟩
  · rintro ⟨ls, s, hrun, rfl, rfl⟩
    obtain ⟨t, ⟨ms, hms, hevents⟩, hqueue, -⟩ := vtRouter_follows hrun
    exact ⟨ms, t, hms, hevents, hqueue⟩

/-- The switch `s1` with two interfaces and its routes to them. -/
def twoIntf : Config := ⟨[cstr "s1-eth1", cstr "s1-eth2"], s1Routes.map RouteLine.entry⟩

/-- The loop forwards a frame. -/
def forwardingRun : List RouterLabel :=
  [.arrive 1 frameToOne, .loop (.poll (.ready [false, true])), .loop .tau, .loop .tau,
    .loop (.recvfrom 1 (some frameToOne)), .loop (.sendPacket 1 0 frameToOne)]

/-- The worker forwards the same frame, in a round of 100 microseconds that it overruns. -/
def overrunningRun : List Label :=
  [.main (.ackAndGetNextCommand (some (bytes "|1,100000" ++ [0])) 0 100),
    .main (.readIsBlocked false), .main (.pipeSend 100), .worker (.pipeRead 100),
    .worker (.readStop false), .arrive 1 frameToOne, .worker (.poll (.ready [false, true])),
    .worker (.charge 50), .worker (.fallOff 0), .worker (.readStop false), .worker .tau,
    .worker .tau, .worker (.charge 50), .worker (.pipeSend 0), .main (.pipeRead 0),
    .main (.ackAndGetNextCommand (some (bytes "|1,1000000" ++ [0])) 0 1000),
    .main (.readIsBlocked false), .main (.pipeSend 1000), .worker (.pipeRead 1000),
    .worker (.readStop false), .worker (.recvfrom 1 (some frameToOne)), .worker (.charge 50),
    .worker (.fallOff 0), .worker (.readStop false), .worker (.charge 50), .worker (.fallOff 0),
    .worker (.readStop false), .worker (.sendPacket 1 0 frameToOne)]

/-- Both runs forward the frame. -/
theorem frames_forwarded_overrunningRun :
    (∃ t, (routerN twoIntf).Run forwardingRun t ∧
      Forwards twoIntf (forwardingRun.flatMap loopEvents) t.queue
        (t.loop.pc = .poll ∨ t.loop.pc = .blockingPoll)) ∧
    ∃ s, (vtRouter twoIntf).Run overrunningRun s ∧
      Forwards twoIntf (overrunningRun.flatMap netEvents) s.shared.queue
        (s.worker.pc = .poll ∨ s.worker.pc = .blockingPoll) := by
  obtain ⟨hloop, hworker, -⟩ := frames_forwarded twoIntf
  have hsomeLoop : ((routerN twoIntf).exec (routerN twoIntf).init forwardingRun).isSome := by
    decide +kernel
  have hsomeWorker : ((vtRouter twoIntf).exec State.init overrunningRun).isSome := by
    decide +kernel
  obtain ⟨t, ht⟩ := Option.isSome_iff_exists.mp hsomeLoop
  obtain ⟨s, hs⟩ := Option.isSome_iff_exists.mp hsomeWorker
  exact ⟨⟨t, ht, hloop forwardingRun t ht⟩, ⟨s, hs, hworker overrunningRun s hs⟩⟩

end VtRouter.Analysis
