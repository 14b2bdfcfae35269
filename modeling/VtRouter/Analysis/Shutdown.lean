import VtRouter.Analysis.Handshake

/-!
# Termination of the worker

The worker leaves its loop when it reads a number that it takes for `THREAD_EXITING`, when it
finds the stop flag set, when `update_stub` returns a negative number, or when a poll fails
(`workerStep_exit`).  Main never sets the flag while the worker computes, so the flag plays no
part.  The tests on the number are another matter: the first command and `THREAD_EXITING` are
told apart by `< 0`, every later command by `<= 0`, and the parser yields `0` for any count
below 1000.  `worker_exits_when_told` says what is left of the contract.

In its blocking poll the worker hears neither the flag nor the pipe, so a stop reaches it only
if a frame does (`shutdown_iff_awake`).
-/

set_option autoImplicit false

namespace VtRouter.Analysis

open Library VtRouter.Model VtRouter.Interface

/-! ## How the worker leaves its loop -/

/-- INTERNAL: the steps that end the worker.
SOURCE: utils.c:549-583, 667-834 -/
theorem workerStep_exit {cfg : Config} {w w' : Worker} {act : WorkerAct}
    (h : WorkerStep cfg w act w') (hpc' : w'.pc = .finished) :
    (∃ msg, act = .pipeRead msg ∧ (msg < 0 ∨ msg ≤ 0 ∧ w.pc ≠ .firstCmd)) ∨
    (act = .readStop true ∧ phase w.pc = .computing) ∨
    (∃ ret, act = .fallOff ret ∧ ret < 0) ∨
    w.ret = .failed ∨ act = .poll .failed := by
  cases h with
  | firstCmdExit msg hpc hmsg => exact Or.inl ⟨msg, rfl, Or.inl hmsg⟩
  | nextCmdExit site msg hpc hmsg | resumeCmdExit msg hpc hmsg =>
      exact Or.inl ⟨msg, rfl, Or.inr ⟨hmsg, by rw [hpc]; nofun⟩⟩
  | repeatExit hpc | testStopExit site hpc | resumeStopExit hpc =>
      exact Or.inr (Or.inl ⟨rfl, by rw [hpc]; rfl⟩)
  | fallOffExit site ret hpc hret => exact Or.inr (Or.inr (Or.inl ⟨ret, rfl, hret⟩))
  | blockingFailed hpc => exact Or.inr (Or.inr (Or.inr (Or.inr rfl)))
  | testStop site hpc =>
      right; right; right; left
      cases site with
      | poll =>
          cases hret : w.ret with
          | failed => rfl
          | interrupted => simp [afterSite, hret] at hpc'
          | ready revents => simp [afterSite, hret] at hpc'
      | flushBuffer => simp [afterSite] at hpc'
      | recvfrom => by_cases hsize : 0 < w.dataSize <;> simp [afterSite, hsize] at hpc'
      | getDstSockIdx => by_cases hdst : w.dstSockIdx = -1 <;> simp [afterSite, hdst] at hpc'
      | sendPacket => simp [afterSite] at hpc'
  | scan hpc =>
      have hphase := (scan_spec cfg w hpc).1
      rw [hpc'] at hphase
      cases hphase
  | recvfrom frame hpc =>
      rw [(received_spec w frame).1] at hpc'
      cases hpc'
  | blockingInterrupted hpc | blockingIdle revents hpc hlen hnone => rw [hpc] at hpc'; cases hpc'
  | _ => cases hpc'

/-- INTERNAL: the outcome of a poll stays until the next poll. -/
theorem workerStep_ret {cfg : Config} {w w' : Worker} {act : WorkerAct}
    (h : WorkerStep cfg w act w') : w'.ret = w.ret ∨ act = .poll w'.ret := by
  cases h with
  | pollReady revents hpc hlen => exact Or.inr rfl
  | pollError outcome hpc herr => exact Or.inr rfl
  | testStop site hpc =>
      left
      cases site with
      | poll => cases hret : w.ret <;> simp [afterSite, hret]
      | flushBuffer => rfl
      | recvfrom => by_cases hsize : 0 < w.dataSize <;> simp [afterSite, hsize]
      | getDstSockIdx => by_cases hdst : w.dstSockIdx = -1 <;> simp [afterSite, hdst]
      | sendPacket => rfl
  | scan hpc =>
      left
      unfold scan
      split <;> split <;> rfl
  | recvfrom frame hpc => cases frame <;> exact Or.inl rfl
  | _ => exact Or.inl rfl

/-- INTERNAL: until its first command the worker only reads. -/
theorem workerStep_firstCmd {cfg : Config} {w w' : Worker} {act : WorkerAct}
    (h : WorkerStep cfg w act w') (hpc : w.pc = .firstCmd) : ∃ msg, act = .pipeRead msg := by
  cases h with
  | firstCmdExit msg hpc' hmsg | firstCmd msg hpc' hmsg => exact ⟨msg, rfl⟩
  | _ => simp_all

/-! ## The exit order -/

/-- Main has sent `THREAD_EXITING` before the worker is gone, and does not wait for a reply of
a worker that is. -/
def ExitsWhenTold (ls : List Label) (s : State) : Prop :=
  (s.worker.pc = .finished → threadExiting ∈ mainSent ls) ∧
    ¬(s.main.pc = .waitReply ∧ s.worker.pc = .finished)

/-- The conditions under which the worker takes no other number for the exit order: a budget
that main hands over is positive, unless it is the first the worker reads; where `update_stub`
ends without a return statement its result is not negative; and polls do not fail. -/
def CommandsHeeded (s : State) : Label → Prop
  | .main (.pipeSend _) =>
      s.main.pc = .sendBudget → 0 < s.main.perRoundAdvance ∨ s.worker.pc = .firstCmd
  | .worker (.fallOff ret) => 0 ≤ ret
  | .worker (.poll outcome) => outcome ≠ .failed
  | _ => True

instance (s : State) (l : Label) : Decidable (CommandsHeeded s l) := by
  unfold CommandsHeeded
  split <;> infer_instance

/-- The invariant behind `worker_exits_when_told`. -/
structure Heeded (ls : List Label) (s : State) : Prop where
  exits : ExitsWhenTold ls s
  told : s.main.pc = .pthreadJoin ∨ s.main.pc = .joined → threadExiting ∈ mainSent ls
  unread : s.main.pc = .waitReply → s.shared.mainToThread ≠ [] →
    0 < s.main.perRoundAdvance ∨ s.worker.pc = .firstCmd
  ret : s.worker.ret ≠ .failed

/-- INTERNAL: what was sent stays sent. -/
theorem mainSent_snoc {x : ℤ} {ls : List Label} (h : x ∈ mainSent ls) (l : Label) :
    x ∈ mainSent (ls ++ [l]) := by
  unfold mainSent at *
  rw [List.filterMap_append]
  exact List.mem_append_left _ h

/-- INTERNAL: the number a worker reads is the budget main has in hand, or the exit order. -/
theorem Linked.of_pipeRead {ls : List Label} {s : State} {c : Channels} {msg : ℤ}
    {sh : Shared} {w : Worker} {cfg : Config} (h : Linked ls s c)
    (hw : WorkerStep cfg s.worker (.pipeRead msg) w)
    (hsh : s.shared.worker (.pipeRead msg) = some sh) :
    s.shared.mainToThread ≠ [] ∧ sh.mainToThread = [] ∧
      ((s.main.pc = .waitReply ∧ msg = s.main.perRoundAdvance) ∨
        (s.main.pc = .pthreadJoin ∧ msg = threadExiting)) := by
  have hsmall := h.handshake.small h.budget
  obtain ⟨c', hc', hcarries'⟩ := carries_worker h.carries hsmall hsh
  have hphase : phase s.worker.pc = .listening := by
    have hp := phaseStep_of_workerStep h.left hw
    generalize phase s.worker.pc = p at hp
    cases hp with
    | receive => rfl
    | compute _ _ hact => cases hact
  have hhand := h.handshake
  rw [hphase] at hhand
  refine ⟨?_, ?_, ?_⟩
  · intro hnil
    simp only [Shared.worker, pipeRead, if_pos hnil] at hsh
    cases hsh
  · obtain ⟨rest, hq, rfl⟩ := Channels.worker_pipeRead hc'
    have hlen := hsmall.toWorker.1
    rw [hq, List.length_cons] at hlen
    have hrest : rest = [] := List.eq_nil_of_length_eq_zero (by omega)
    rw [hcarries'.mainToThread, hrest]
    rfl
  · obtain ⟨rest, hq, rfl⟩ := Channels.worker_pipeRead hc'
    generalize hpc : s.main.pc = pc at hhand
    cases hhand with
    | granted =>
        cases hq
        exact Or.inl ⟨rfl, rfl⟩
    | exiting p b hb =>
        cases hq
        exact Or.inr ⟨rfl, rfl⟩
    | _ => cases hq

/-- INTERNAL: a worker that finds the stop flag set is not computing.
SOURCE: utils.c:688, 698, 822 -/
theorem Linked.not_computing_of_stop {ls : List Label} {s : State} {c : Channels} {sh : Shared}
    (h : Linked ls s c) (hsh : s.shared.worker (.readStop true) = some sh) :
    phase s.worker.pc ≠ .computing := by
  obtain ⟨c', hc', -⟩ := carries_worker h.carries (h.handshake.small h.budget) hsh
  obtain ⟨hstop, -⟩ := Channels.worker_readStop hc'
  intro hphase
  have hhand := h.handshake
  rw [hphase] at hhand
  generalize s.main.pc = pc at hhand
  cases hhand with
  | computing => cases hstop
  | exiting p b hb => cases hb
  | stopping p b hb => cases hb
  | _ => cases hstop

/-- INTERNAL: only a read of the worker changes what main has sent to it. -/
theorem mainToThread_eq {sh sh' : Shared} {act : WorkerAct} (h : sh.worker act = some sh')
    (hact : ∀ msg, act ≠ .pipeRead msg) : sh'.mainToThread = sh.mainToThread := by
  cases workerEffect_of_worker h with
  | pipeRead msg rest hread => exact absurd rfl (hact msg)
  | _ => rfl

/-- INTERNAL: main starts to wait when it has handed over its budget. -/
theorem mainStep_waitReply {m m' : Main} {act : MainAct} (h : MainStep m act m')
    (hpc : m'.pc = .waitReply) :
    m.pc = .sendBudget ∧ act = .pipeSend m.perRoundAdvance ∧
      m'.perRoundAdvance = m.perRoundAdvance := by
  cases h with
  | sendBudget hpc' => exact ⟨hpc', rfl, rfl⟩
  | reply msg hpc' =>
      rw [afterReply_pc] at hpc
      cases hpc
  | _ => cases hpc

/-- INTERNAL: main joins the worker behind its exit order. -/
theorem mainStep_joins {m m' : Main} {act : MainAct} (h : MainStep m act m')
    (hpc : m'.pc = .pthreadJoin ∨ m'.pc = .joined) :
    act = .pipeSend threadExiting ∨ m.pc = .pthreadJoin := by
  cases h with
  | sendExiting hpc' => exact Or.inl rfl
  | pthreadJoin hpc' => exact Or.inr hpc'
  | reply msg hpc' =>
      rw [afterReply_pc] at hpc
      simp at hpc
  | _ => simp at hpc

/-- INTERNAL: a step of main keeps the invariant. -/
theorem heeded_main {ls : List Label} {s : State} {act : MainAct} {m : Main} {sh : Shared}
    {c : Channels} (hlinked : Linked ls s c) (h : Heeded ls s)
    (hok : CommandsHeeded s (.main act)) (hm : MainStep s.main act m) :
    Heeded (ls ++ [.main act]) { s with main := m, shared := sh } := by
  obtain ⟨⟨hexit, hwait⟩, htold, hunread, hret⟩ := h
  refine ⟨⟨fun hfin => mainSent_snoc (hexit hfin) _, ?_⟩, ?_, ?_, hret⟩
  · rintro ⟨hpc, hfin⟩
    obtain ⟨hpc', -, -⟩ := mainStep_waitReply hm hpc
    have hhand := hlinked.handshake
    have hfin' : s.worker.pc = .finished := hfin
    rw [hpc', hfin'] at hhand
    cases hhand
  · intro hpc
    rcases mainStep_joins hm hpc with rfl | hjoin
    · unfold mainSent
      simp
    · exact mainSent_snoc (htold (Or.inl hjoin)) _
  · intro hpc _
    obtain ⟨hpc', rfl, hadv⟩ := mainStep_waitReply hm hpc
    show 0 < m.perRoundAdvance ∨ s.worker.pc = .firstCmd
    rw [hadv]
    exact hok hpc'

/-- INTERNAL: a step of the worker keeps the invariant. -/
theorem heeded_worker {cfg : Config} {ls : List Label} {s : State} {act : WorkerAct}
    {w : Worker} {sh : Shared} {c : Channels} (hlinked : Linked ls s c) (h : Heeded ls s)
    (hok : CommandsHeeded s (.worker act)) (hw : WorkerStep cfg s.worker act w)
    (hsh : s.shared.worker act = some sh) :
    Heeded (ls ++ [.worker act]) { s with worker := w, shared := sh } := by
  obtain ⟨⟨hexit, hwait⟩, htold, hunread, hret⟩ := h
  -- The only number that ends the worker is the exit order.
  have hjoin : w.pc = .finished → s.main.pc = .pthreadJoin := by
    intro hfin
    rcases workerStep_exit hw hfin with
      ⟨msg, rfl, hmsg⟩ | ⟨rfl, hphase⟩ | ⟨ret, rfl, hneg⟩ | hfailed | rfl
    · obtain ⟨hne, -, ⟨hpc, rfl⟩ | ⟨hpc, -⟩⟩ := hlinked.of_pipeRead hw hsh
      · obtain ⟨h0, -⟩ := hlinked.budget (Or.inr (Or.inr hpc))
        rcases hmsg with hneg | ⟨hle, hfirst⟩
        · omega
        · rcases hunread hpc hne with hpos | hfirst'
          · omega
          · exact absurd hfirst' hfirst
      · exact hpc
    · exact absurd hphase (hlinked.not_computing_of_stop hsh)
    · have h0 : 0 ≤ ret := hok
      omega
    · exact absurd hfailed hret
    · exact absurd rfl hok
  refine ⟨⟨?_, ?_⟩, fun hpc => mainSent_snoc (htold hpc) _, ?_, ?_⟩
  · intro hfin
    exact mainSent_snoc (htold (Or.inl (hjoin hfin))) _
  · rintro ⟨hpc, hfin⟩
    have hpc' : s.main.pc = .waitReply := hpc
    rw [hjoin hfin] at hpc'
    cases hpc'
  · intro hpc hne
    show 0 < s.main.perRoundAdvance ∨ w.pc = .firstCmd
    by_cases hread : ∃ msg, act = .pipeRead msg
    · obtain ⟨msg, rfl⟩ := hread
      obtain ⟨-, hnil, -⟩ := hlinked.of_pipeRead hw hsh
      exact absurd hnil hne
    · have hact : ∀ msg, act ≠ .pipeRead msg := fun msg heq => hread ⟨msg, heq⟩
      rw [mainToThread_eq hsh hact] at hne
      rcases hunread hpc hne with hpos | hfirst
      · exact Or.inl hpos
      · exact absurd (workerStep_firstCmd hw hfirst) hread
  · show w.ret ≠ .failed
    rcases workerStep_ret hw with heq | rfl
    · rw [heq]
      exact hret
    · exact hok

/-- INTERNAL: the invariant holds along every run that meets the conditions. -/
theorem heeded_run {cfg : Config} {ls : List Label} {s : State}
    (hrun : (vtRouter cfg).Run ls s) (hok : (vtRouter cfg).Along CommandsHeeded ls) :
    Heeded ls s := by
  refine (vtRouter cfg).run_induction CommandsHeeded Heeded ?_ ?_ ls s hrun hok
  · refine ⟨⟨nofun, nofun⟩, ?_, nofun, nofun⟩
    rintro (hpc | hpc) <;> cases hpc
  · intro ls s l s' hrun h hok hs
    obtain ⟨c, hlinked⟩ := linked_run hrun
    rcases step_cases hs with ⟨act, m, sh, rfl, hm, hsh, rfl⟩ |
      ⟨act, w, sh, rfl, hw, hsh, rfl⟩ | ⟨i, frame, rfl, hi, rfl⟩
    · exact heeded_main hlinked h hok hm
    · exact heeded_worker hlinked h hok hw hsh
    · obtain ⟨⟨hexit, hwait⟩, htold, hunread, hret⟩ := h
      exact ⟨⟨fun hfin => mainSent_snoc (hexit hfin) _, hwait⟩,
        fun hpc => mainSent_snoc (htold hpc) _, hunread, hret⟩

/-- **The worker exits when it is told to**, in every run that meets the conditions of
`CommandsHeeded` at each step: it is gone only after main has sent `THREAD_EXITING`, and main
never waits for a reply of a worker that is gone.
SOURCE: utils.c:549-583, 667-834; router_app_vt.c:400-447 -/
theorem worker_exits_when_told (cfg : Config) (ls : List Label) (s : State)
    (hrun : (vtRouter cfg).Run ls s) (hok : (vtRouter cfg).Along CommandsHeeded ls) :
    ExitsWhenTold ls s :=
  (heeded_run hrun hok).exits

/-- The conditions hold along a first round. -/
theorem worker_exits_when_told_firstRound :
    ∃ s, (vtRouter oneIntf).Run firstRound s ∧ ExitsWhenTold firstRound s := by
  have hsome : ((vtRouter oneIntf).exec State.init firstRound).isSome := by decide +kernel
  have hcheck : (vtRouter oneIntf).checkAlong (fun s l => decide (CommandsHeeded s l)) State.init
      firstRound = true := by decide +kernel
  obtain ⟨s, hs⟩ := Option.isSome_iff_exists.mp hsome
  have halong := (vtRouter oneIntf).along_of_checkAlong _ firstRound hcheck
  exact ⟨s, hs, worker_exits_when_told oneIntf firstRound s hs
    (halong.mono fun _ _ h => of_decide_eq_true h)⟩

/-- The texts the kernel answers with: a nonempty tuple list, or `STOP`.
SOURCE: router_app_vt.c:53-89 -/
inductive KernelCommand : List UInt8 → Prop
  | tuples (ts : List (ℕ × ℕ)) (finalBar : Bool) (hne : ts ≠ [])
      (hb : ∀ t ∈ ts, 0 < t.1 ∧ t.1 < 2 ^ 31 ∧ t.2 < 2 ^ 31) :
      KernelCommand (commandText ts finalBar ++ [0])
  | stop : KernelCommand (bytes "STOP" ++ [0])

/-- A first round, and a second with the budget that 999 instructions are worth. -/
def zeroRound : List Label :=
  firstRound ++
    [.main (.ackAndGetNextCommand (some (bytes "|1,999" ++ [0])) 0 0),
      .main (.readIsBlocked false), .main (.pipeSend 0), .worker (.pipeRead 0)]

/-- A budget of `0` ends the worker, and main waits for its reply for good. -/
theorem zeroRound_ends_worker :
    ¬∀ (cfg : Config) (ls : List Label) (s : State), (vtRouter cfg).Run ls s →
      (∀ payload advanceErr perRoundAdvance,
        .main (.ackAndGetNextCommand payload advanceErr perRoundAdvance) ∈ ls →
        ∃ text, payload = some text ∧ KernelCommand text) →
      (∀ outcome, .worker (.poll outcome) ∈ ls → outcome ≠ .failed) →
      ExitsWhenTold ls s := by
  intro hclaim
  have hexec : ((vtRouter oneIntf).exec State.init zeroRound).map
      (fun s => (s.main.pc, s.worker.pc)) = some (.waitReply, .finished) := by decide +kernel
  obtain ⟨s, hs, hpcs⟩ := Option.map_eq_some_iff.mp hexec
  obtain ⟨hmain, hworker⟩ := Prod.mk.inj hpcs
  have h50000 : KernelCommand (bytes "|1,50000" ++ [0]) :=
    .tuples [(1, 50000)] false (by decide) (by decide)
  have h999 : KernelCommand (bytes "|1,999" ++ [0]) :=
    .tuples [(1, 999)] false (by decide) (by decide)
  have hcommands : ∀ payload advanceErr perRoundAdvance,
      Label.main (.ackAndGetNextCommand payload advanceErr perRoundAdvance) ∈ zeroRound →
      ∃ text, payload = some text ∧ KernelCommand text := by
    intro payload advanceErr perRoundAdvance hmem
    simp only [zeroRound, firstRound, List.cons_append, List.nil_append, List.mem_cons,
      Label.main.injEq, MainAct.ackAndGetNextCommand.injEq, reduceCtorEq, false_or, or_false,
      List.not_mem_nil] at hmem
    rcases hmem with ⟨rfl, -, -⟩ | ⟨rfl, -, -⟩
    · exact ⟨_, rfl, h50000⟩
    · exact ⟨_, rfl, h999⟩
  have hpolls : ∀ outcome, Label.worker (.poll outcome) ∈ zeroRound → outcome ≠ .failed := by
    rintro outcome hmem rfl
    exact absurd hmem (by decide)
  exact (hclaim oneIntf zeroRound s hs hcommands hpolls).2 ⟨hmain, hworker⟩

/-! ## The stop -/

/-- What a poll finds without a further arrival. -/
def readiness (cfg : Config) (sh : Shared) : List Bool :=
  (List.range cfg.nIntfs).map fun i => !(sh.queue i).isEmpty

/-- The step needs nothing from the network: a poll finds the frames that are there, and the
blocking one finds some; a `recvfrom` takes a frame. -/
def OwnStep (cfg : Config) (s : State) : WorkerAct → Prop
  | .poll outcome =>
      outcome = .ready (readiness cfg s.shared) ∧
        (s.worker.pc = .blockingPoll → true ∈ readiness cfg s.shared)
  | .recvfrom _ frame => frame ≠ none
  | _ => True

/-- Some step of the worker is enabled that does not depend on a further arrival. -/
def WorkerCanMove (cfg : Config) (s : State) : Prop :=
  ∃ act, OwnStep cfg s act ∧ ∃ s', step cfg s (.worker act) = some s'

/-- Some frame waits at an interface of the router. -/
def FrameQueued (cfg : Config) (s : State) : Prop := ∃ i < cfg.nIntfs, s.shared.queue i ≠ []

instance (cfg : Config) (s : State) : Decidable (FrameQueued cfg s) :=
  inferInstanceAs (Decidable (∃ i < cfg.nIntfs, s.shared.queue i ≠ []))

/-- When main sends the exit order, the worker is not in its blocking poll, or a frame is there
to wake it. -/
def StopsAwake (cfg : Config) (s : State) : Label → Prop
  | .main (.pipeSend _) =>
      s.main.pc = .sendExiting → s.worker.pc = .blockingPoll → FrameQueued cfg s
  | _ => True

instance (cfg : Config) (s : State) (l : Label) : Decidable (StopsAwake cfg s l) := by
  unfold StopsAwake
  split <;> infer_instance

/-- INTERNAL: a worker that listens takes any message. -/
theorem workerStep_pipeRead {cfg : Config} {w : Worker} (msg : ℤ)
    (hphase : phase w.pc = .listening) : ∃ w', WorkerStep cfg w (.pipeRead msg) w' := by
  cases hpc : w.pc with
  | firstCmd =>
      by_cases hmsg : msg < 0
      · exact ⟨_, .firstCmdExit w msg hpc hmsg⟩
      · exact ⟨_, .firstCmd w msg hpc (Int.not_lt.mp hmsg)⟩
  | nextCmd site =>
      by_cases hmsg : msg ≤ 0
      · exact ⟨_, .nextCmdExit w site msg hpc hmsg⟩
      · exact ⟨_, .nextCmd w site msg hpc (Int.not_le.mp hmsg)⟩
  | resumeCmd =>
      by_cases hmsg : msg ≤ 0
      · exact ⟨_, .resumeCmdExit w msg hpc hmsg⟩
      · exact ⟨_, .resumeCmd w msg hpc (Int.not_le.mp hmsg)⟩
  | _ =>
      rw [hpc] at hphase
      cases hphase

/-- INTERNAL: a poll finds something iff a frame is queued. -/
theorem mem_readiness_iff (cfg : Config) (s : State) :
    true ∈ readiness cfg s.shared ↔ FrameQueued cfg s := by
  unfold readiness FrameQueued
  simp only [List.mem_map, List.mem_range, Bool.not_eq_true', List.isEmpty_eq_false_iff]

/-- INTERNAL: in its blocking poll the worker moves on its own iff a frame is queued.
SOURCE: utils.c:795-815 -/
theorem canMove_blockingPoll_iff {cfg : Config} {s : State}
    (hpc : s.worker.pc = .blockingPoll) : WorkerCanMove cfg s ↔ FrameQueued cfg s := by
  rw [← mem_readiness_iff]
  constructor
  · rintro ⟨act, hown, s', hs⟩
    rcases step_cases hs with ⟨act', m, sh, hl, -⟩ | ⟨act', w, sh, hl, hw, -⟩ | ⟨i, f, hl, -⟩
    · cases hl
    · cases hl
      cases hw with
      | blockingInterrupted hpc' => cases hown.1
      | blockingFailed hpc' => cases hown.1
      | blockingIdle revents hpc' hlen hnone => exact hown.2 hpc
      | blockingReady revents hpc' hlen hsome => exact hown.2 hpc
      | _ => simp_all
    · cases hl
  · intro hmem
    have hlen : (readiness cfg s.shared).length = cfg.nIntfs := by simp [readiness]
    exact ⟨.poll (.ready (readiness cfg s.shared)), ⟨rfl, fun _ => hmem⟩, _,
      step_of_workerStep (.blockingReady _ _ hpc hlen hmem) (.poll _)⟩

/-- INTERNAL: once main waits in `pthread_join`, only the blocking poll can hold the worker.
SOURCE: utils.c:818-826 -/
theorem Linked.canMove_of_join {cfg : Config} {ls : List Label} {s : State} {c : Channels}
    (h : Linked ls s c) (hpc : s.main.pc = .pthreadJoin) (hpoll : s.worker.pc ≠ .blockingPoll) :
    s.worker.pc = .finished ∨ WorkerCanMove cfg s := by
  have hfin : ∀ pc, phase pc = .finished → pc = .finished := by
    intro pc hphase
    cases pc <;> first | rfl | cases hphase
  have hhand := h.handshake
  rw [hpc] at hhand
  generalize hphase : phase s.worker.pc = p at hhand
  cases hhand with
  | exited b => exact Or.inl (hfin _ hphase)
  | exiting p b hq =>
      cases hq with
      | failed => exact Or.inl (hfin _ hphase)
      | listening =>
          obtain ⟨w, hw⟩ : ∃ w, WorkerStep cfg s.worker (.pipeRead threadExiting) w :=
            workerStep_pipeRead threadExiting hphase
          have hexit : IsInt32 threadExiting := by decide
          have hread : pipeRead s.shared.mainToThread = some (threadExiting, []) := by
            rw [h.carries.mainToThread, List.flatMap_singleton]
            exact pipeRead_intText hexit
          exact Or.inr ⟨.pipeRead threadExiting, trivial, _,
            step_of_workerStep hw (.pipeRead _ _ hread)⟩
      | blocked =>
          have hresume : s.worker.pc = .resume := by
            generalize s.worker.pc = pc at hphase hpoll
            cases pc with
            | blockingPoll => exact absurd rfl hpoll
            | resume => rfl
            | _ => cases hphase
          exact Or.inr ⟨.writeIsBlocked false, trivial, _,
            step_of_workerStep (.resume _ hresume) (.writeIsBlocked false)⟩

/-- INTERNAL: main enters `pthread_join` by sending the exit order. -/
theorem mainStep_join {m m' : Main} {act : MainAct} (h : MainStep m act m')
    (hpc : m'.pc = .pthreadJoin) : m.pc = .sendExiting ∧ act = .pipeSend threadExiting := by
  cases h with
  | sendExiting hpc' => exact ⟨hpc', rfl⟩
  | reply msg hpc' =>
      rw [afterReply_pc] at hpc
      cases hpc
  | _ => cases hpc

/-- INTERNAL: the worker enters its blocking poll from its announcement only, and stays there
without taking a frame. -/
theorem workerStep_blockingPoll {cfg : Config} {w w' : Worker} {act : WorkerAct}
    (h : WorkerStep cfg w act w') (hpc : w'.pc = .blockingPoll) :
    w.pc = .announce ∨ w.pc = .blockingPoll ∧ ∃ outcome, act = .poll outcome := by
  cases h with
  | announce hpc' => exact Or.inl hpc'
  | blockingInterrupted hpc' | blockingIdle revents hpc' hlen hnone => exact Or.inr ⟨hpc', _, rfl⟩
  | testStop site hpc' =>
      rcases (afterSite_spec cfg w site).1 with hphase | hphase <;> rw [hpc] at hphase <;>
        cases hphase
  | scan hpc' =>
      have hphase := (scan_spec cfg w hpc').1
      rw [hpc] at hphase
      cases hphase
  | recvfrom frame hpc' =>
      rw [(received_spec w frame).1] at hpc
      cases hpc
  | _ => cases hpc

/-- INTERNAL: when main entered `pthread_join` with the worker awake, or with a frame to wake
it, that remains so. -/
theorem awake_run {cfg : Config} {ls : List Label} {s : State}
    (hrun : (vtRouter cfg).Run ls s) (hok : (vtRouter cfg).Along (StopsAwake cfg) ls) :
    s.main.pc = .pthreadJoin → s.worker.pc = .blockingPoll → FrameQueued cfg s := by
  refine (vtRouter cfg).run_induction (StopsAwake cfg)
    (fun _ s => s.main.pc = .pthreadJoin → s.worker.pc = .blockingPoll → FrameQueued cfg s)
    nofun ?_ ls s hrun hok
  intro ls s l s' hrun h hok hs hpc hpoll
  obtain ⟨c, hlinked⟩ := linked_run hrun
  rcases step_cases hs with ⟨act, m, sh, rfl, hm, hsh, rfl⟩ |
    ⟨act, w, sh, rfl, hw, hsh, rfl⟩ | ⟨i, frame, rfl, hi, rfl⟩
  · obtain ⟨hpc', rfl⟩ := mainStep_join hm hpc
    cases hsh
    exact hok hpc' hpoll
  · rcases workerStep_blockingPoll hw hpoll with hann | ⟨hpoll', outcome, rfl⟩
    · have hhand := hlinked.handshake
      have hpc' : s.main.pc = .pthreadJoin := hpc
      rw [hpc', hann] at hhand
      cases hhand with
      | exiting p b hq => cases hq
    · cases hsh
      exact h hpc hpoll'
  · obtain ⟨j, hj, hne⟩ := h hpc hpoll
    refine ⟨j, hj, ?_⟩
    show Function.update s.shared.queue i (s.shared.queue i ++ [frame]) j ≠ []
    by_cases hij : j = i
    · rw [hij, Function.update_self]
      simp
    · rw [Function.update_of_ne hij]
      exact hne

/-- **When a stop gets through.**  In every state of a run in which main waits in
`pthread_join`, the worker is gone or can move without a further arrival, if and only if at the
step with which main sent the exit order the worker was not in its blocking poll or some frame
was queued.
SOURCE: utils.c:688-702, 776-830; router_app_vt.c:404-461 -/
theorem shutdown_iff_awake (cfg : Config) (ls : List Label) (s : State)
    (hrun : (vtRouter cfg).Run ls s) :
    (∀ pre post t, ls = pre ++ post → (vtRouter cfg).Run pre t → t.main.pc = .pthreadJoin →
      t.worker.pc = .finished ∨ WorkerCanMove cfg t) ↔
    (vtRouter cfg).Along (StopsAwake cfg) ls := by
  constructor
  · rintro h pre l post t rfl ht
    obtain ⟨t', hstep, hrun'⟩ := hrun.step_at ht
    unfold StopsAwake
    split
    · rename_i act msg
      intro hpc hpoll
      have hcases : step cfg t (.main (.pipeSend msg)) = some t' := hstep
      rcases step_cases hcases with ⟨act, m, sh, hl, hm, hsh, ht'⟩ | ⟨act, w, sh, hl, -⟩ |
        ⟨i, f, hl, -⟩
      · cases hl
        cases hsh
        have hjoin : t'.main.pc = .pthreadJoin := by
          rw [ht']
          cases hm with
          | sendBudget hpc' =>
              rw [hpc] at hpc'
              cases hpc'
          | sendExiting hpc' => rfl
        have hpoll' : t'.worker.pc = .blockingPoll := by
          rw [ht']
          exact hpoll
        rcases h _ post _ (List.append_cons pre _ post) hrun' hjoin with hfin | hmove
        · rw [hpoll'] at hfin
          cases hfin
        · have hqueued := (canMove_blockingPoll_iff hpoll').mp hmove
          rw [ht'] at hqueued
          exact hqueued
      · cases hl
      · cases hl
    · trivial
  · rintro hok pre post t rfl ht hpc
    have hpre : (vtRouter cfg).Along (StopsAwake cfg) pre := by
      intro pre' l post' t' heq ht'
      exact hok pre' l (post' ++ post) t' (by simp [heq]) ht'
    obtain ⟨c, hlinked⟩ := linked_run ht
    by_cases hpoll : t.worker.pc = .blockingPoll
    · exact Or.inr ((canMove_blockingPoll_iff hpoll).mpr (awake_run ht hpre hpc hpoll))
    · exact hlinked.canMove_of_join hpc hpoll

/-- A first round and a stop, which finds the worker waiting for its next command. -/
def promptStop : List Label :=
  firstRound ++
    [.main (.ackAndGetNextCommand (some (bytes "STOP" ++ [0])) 0 (-1)), .main .writeStop,
      .main (.pipeSend threadExiting)]

/-- The stop of `promptStop` gets through. -/
theorem shutdown_iff_awake_promptStop :
    ∃ s, (vtRouter oneIntf).Run promptStop s ∧
      (s.main.pc = .pthreadJoin → s.worker.pc = .finished ∨ WorkerCanMove oneIntf s) := by
  have hsome : ((vtRouter oneIntf).exec State.init promptStop).isSome := by decide +kernel
  have hcheck : (vtRouter oneIntf).checkAlong (fun s l => decide (StopsAwake oneIntf s l))
      State.init promptStop = true := by decide +kernel
  obtain ⟨s, hs⟩ := Option.isSome_iff_exists.mp hsome
  have halong := ((vtRouter oneIntf).along_of_checkAlong _ promptStop hcheck).mono
    fun _ _ h => of_decide_eq_true h
  refine ⟨s, hs, ?_⟩
  exact (shutdown_iff_awake oneIntf promptStop s hs).mpr halong promptStop [] s
    (List.append_nil _).symm hs

/-- A stop that finds the worker in its blocking poll. -/
def blockedStop : List Label :=
  blockingRound ++
    [.main (.ackAndGetNextCommand (some (bytes "STOP" ++ [0])) 0 (-1)), .main .writeStop,
      .main (.pipeSend threadExiting)]

/-- After `blockedStop` the program waits for traffic. -/
theorem blockedStop_waits_for_traffic :
    ¬∀ (cfg : Config) (ls : List Label) (s : State), (vtRouter cfg).Run ls s →
      s.main.pc = .pthreadJoin → s.worker.pc = .finished ∨ WorkerCanMove cfg s := by
  intro hclaim
  have hexec : ((vtRouter oneIntf).exec State.init blockedStop).map
      (fun s => (s.main.pc, s.worker.pc, decide (FrameQueued oneIntf s))) =
      some (.pthreadJoin, .blockingPoll, false) := by decide +kernel
  obtain ⟨s, hs, hobs⟩ := Option.map_eq_some_iff.mp hexec
  obtain ⟨hmain, hrest⟩ := Prod.mk.inj hobs
  obtain ⟨hworker, hqueue⟩ := Prod.mk.inj hrest
  rcases hclaim oneIntf blockedStop s hs hmain with hfin | hmove
  · rw [hworker] at hfin
    cases hfin
  · exact of_decide_eq_false hqueue ((canMove_blockingPoll_iff hworker).mp hmove)

end VtRouter.Analysis
