import VtRouter.Analysis.Shutdown
import VtRouter.Analysis.Waiting

/-!
# How long main waits for a reply

Main hands over a budget and waits.  Between two charges the worker makes at most one pass over
the interfaces, and every charge takes 50 microseconds off the budget, so the steps that are left
in a round are bounded by what is left of the budget and by the number of interfaces
(`roundLeft`).  Every step of the worker lowers that number (`roundLeft_step`), and as long as a
set `POLLIN` means that a frame is queued, the worker has until the reply is sent a step that
needs nothing from the network (`canMove_of_computing`).  Together: however the threads are
interleaved, main's wait ends (`round_is_answered`).

A frame that arrives in the meantime prolongs the round only as far as the budget goes.
-/

set_option autoImplicit false

namespace VtRouter.Analysis

open Library VtRouter.Model VtRouter.Interface

/-! ## The steps that are left -/

/-- The charges that a budget allows for. -/
def chargesLeft (left : ℤ) : ℕ := (left.toNat + 49) / 50

/-- The steps up to and with the next charge, on the longest way there. -/
def stepsToCharge (nIntfs : ℕ) (w : Worker) : ℕ :=
  match w.pc with
  | .updateStub _ => 1
  | .poll | .recvfrom | .sendPacket => 2
  | .repeat_ => 3
  | .scan => nIntfs - w.i + 4
  | .testStop _ | .resumeStop => nIntfs + 5
  | .fallOff _ => nIntfs + 6
  | _ => 0

/-- The steps that are left in a round, the reply included. -/
def roundLeft (nIntfs : ℕ) (w : Worker) : ℕ :=
  match w.pc with
  | .firstCmd | .nextCmd _ | .resumeCmd | .blockingPoll | .resume | .finished => 0
  | .reply _ | .announce => 1
  | .needToBlock => 2
  | _ => 1 + chargesLeft w.left * (nIntfs + 6) + stepsToCharge nIntfs w

/-- INTERNAL: a charge that does not use the budget up is one less.
SOURCE: utils.c:566-567 -/
theorem chargesLeft_deduct {left : ℤ} (h : 0 < left - 50) :
    chargesLeft left = chargesLeft (left - 50) + 1 := by
  unfold chargesLeft
  omega

/-- INTERNAL: behind `update_stub` the next charge is at most a pass over the interfaces away.
SOURCE: utils.c:705-769 -/
theorem roundLeft_afterSite (cfg : Config) (w : Worker) (site : Site) :
    roundLeft cfg.nIntfs (afterSite cfg w site) ≤
      chargesLeft w.left * (cfg.nIntfs + 6) + (cfg.nIntfs + 5) := by
  cases site with
  | poll =>
      cases hret : w.ret with
      | interrupted =>
          simp only [afterSite, hret, roundLeft, stepsToCharge]
          omega
      | failed => simp [afterSite, hret, roundLeft]
      | ready revents =>
          simp only [afterSite, hret, roundLeft, stepsToCharge]
          omega
  | flushBuffer =>
      simp only [afterSite, roundLeft, stepsToCharge]
      omega
  | recvfrom =>
      simp only [afterSite]
      split
      · simp only [roundLeft, stepsToCharge]
        omega
      · simp only [roundLeft, stepsToCharge]
        omega
  | getDstSockIdx =>
      simp only [afterSite]
      split
      · simp only [roundLeft, stepsToCharge]
        omega
      · simp only [roundLeft, stepsToCharge]
        omega
  | sendPacket =>
      simp only [afterSite, roundLeft, stepsToCharge]
      omega

/-- INTERNAL: the scan comes one interface closer to its end, or leaves the loop.
SOURCE: utils.c:717-723, 776-788 -/
theorem roundLeft_scan (cfg : Config) {w : Worker} (hpc : w.pc = .scan) :
    roundLeft cfg.nIntfs (scan cfg w) + 1 ≤ roundLeft cfg.nIntfs w := by
  have hleft : roundLeft cfg.nIntfs w =
      1 + chargesLeft w.left * (cfg.nIntfs + 6) + (cfg.nIntfs - w.i + 4) := by
    simp only [roundLeft, stepsToCharge, hpc]
  rw [hleft]
  unfold scan
  split
  · rename_i hi
    split
    · simp only [roundLeft, stepsToCharge]
      omega
    · simp only [roundLeft, stepsToCharge, hpc]
      omega
  · split
    · simp only [roundLeft, stepsToCharge]
      omega
    · simp only [roundLeft]
      omega

/-- INTERNAL: **every step of a computation is one step less.**
SOURCE: utils.c:549-583, 667-834 -/
theorem roundLeft_step {cfg : Config} {w w' : Worker} {act : WorkerAct} (hleft : LeftOk w)
    (hphase : phase w.pc = .computing) (h : WorkerStep cfg w act w') :
    roundLeft cfg.nIntfs w' + 1 ≤ roundLeft cfg.nIntfs w := by
  cases h with
  | repeatExit hpc | repeat_ hpc | pollReady revents hpc hlen | pollError outcome hpc herr
  | fallOffExit site ret hpc hret | fallOff site ret hpc hret | testStopExit site hpc
  | sendPacket hpc | needToBlock hpc | resumeStopExit hpc | reply site hpc =>
      simp only [roundLeft, stepsToCharge, hpc]
      omega
  | resumeStop hpc =>
      simp only [roundLeft, stepsToCharge, hpc]
      omega
  | chargeOver site hpc hover =>
      simp only [roundLeft, stepsToCharge, hpc]
      omega
  | charge site hpc hmore =>
      obtain ⟨h0, h31⟩ := hleft.range hphase (by rw [hpc]; nofun)
      rw [wrap32_deduct h0 h31] at hmore
      have hone := chargesLeft_deduct hmore
      simp only [roundLeft, stepsToCharge, hpc, wrap32_deduct h0 h31, hone, Nat.add_mul]
      omega
  | testStop site hpc =>
      have hafter := roundLeft_afterSite cfg w site
      have hbefore : roundLeft cfg.nIntfs w =
          1 + chargesLeft w.left * (cfg.nIntfs + 6) + (cfg.nIntfs + 5) := by
        simp only [roundLeft, stepsToCharge, hpc]
      omega
  | scan hpc => exact roundLeft_scan cfg hpc
  | recvfrom frame hpc =>
      obtain ⟨hpc', heq⟩ := received_spec w frame
      simp only [roundLeft, stepsToCharge, hpc, hpc', heq]
      omega
  | firstCmdExit msg hpc hmsg | firstCmd msg hpc hmsg | nextCmdExit site msg hpc hmsg
  | nextCmd site msg hpc hmsg | announce hpc | blockingInterrupted hpc | blockingFailed hpc
  | blockingIdle revents hpc hlen hnone | blockingReady revents hpc hlen hsome | resume hpc
  | resumeCmdExit msg hpc hmsg | resumeCmd msg hpc hmsg =>
      rw [hpc] at hphase
      cases hphase

/-- INTERNAL: a budget sets the worker going for a number of steps that depends on nothing else.
SOURCE: utils.c:575-580, 677-681, 818-826 -/
theorem roundLeft_pipeRead {cfg : Config} {w w' : Worker} {budget : ℤ}
    (h : WorkerStep cfg w (.pipeRead budget) w') :
    roundLeft cfg.nIntfs w' ≤ (chargesLeft budget + 1) * (cfg.nIntfs + 6) := by
  cases h with
  | firstCmdExit msg hpc hmsg | nextCmdExit site msg hpc hmsg | resumeCmdExit msg hpc hmsg =>
      simp only [roundLeft]
      omega
  | firstCmd msg hpc hmsg | nextCmd site msg hpc hmsg | resumeCmd msg hpc hmsg =>
      simp only [roundLeft, stepsToCharge, Nat.add_mul]
      omega

/-! ## The worker is never stuck -/

/-- INTERNAL: a poll finds the interfaces as they are. -/
theorem length_readiness (cfg : Config) (sh : Shared) : (readiness cfg sh).length = cfg.nIntfs := by
  simp [readiness]

/-- INTERNAL: a step of the worker that needs nothing from the network. -/
theorem canMove_of_step {cfg : Config} {s : State} {act : WorkerAct} {w : Worker} {sh : Shared}
    (hw : WorkerStep cfg s.worker act w) (heffect : WorkerEffect s.shared act sh)
    (hown : OwnStep cfg s act) : WorkerCanMove cfg s :=
  ⟨act, hown, _, step_of_workerStep hw heffect⟩

/-- INTERNAL: a worker that tests the flag finds it set or clear. -/
theorem canMove_of_readStop {cfg : Config} {s : State}
    (h : ∀ stop, ∃ w, WorkerStep cfg s.worker (.readStop stop) w) : WorkerCanMove cfg s := by
  obtain ⟨w, hw⟩ := h s.shared.stop
  exact canMove_of_step hw .readStop trivial

/-- INTERNAL: **a worker that computes has a step of its own**, a `recvfrom` included if a frame
is queued.
SOURCE: utils.c:563-583, 677-792 -/
theorem canMove_of_computing {cfg : Config} {s : State} (hphase : phase s.worker.pc = .computing)
    (hrecv : s.worker.pc = .recvfrom → s.shared.queue s.worker.i ≠ []) : WorkerCanMove cfg s := by
  cases hpc : s.worker.pc with
  | repeat_ =>
      apply canMove_of_readStop
      intro stop
      cases stop with
      | false => exact ⟨_, .repeat_ _ hpc⟩
      | true => exact ⟨_, .repeatExit _ hpc⟩
  | poll =>
      refine canMove_of_step (.pollReady _ _ hpc (length_readiness cfg s.shared)) (.poll _)
        ⟨rfl, ?_⟩
      intro hblocking
      rw [hpc] at hblocking
      cases hblocking
  | updateStub site =>
      by_cases hover : wrap32 (s.worker.left - 50) ≤ 0
      · exact canMove_of_step (.chargeOver _ site hpc hover) (.charge _) trivial
      · exact canMove_of_step (.charge _ site hpc (Int.not_le.mp hover)) (.charge _) trivial
  | reply site => exact canMove_of_step (.reply _ site hpc) (.pipeSend _) trivial
  | fallOff site => exact canMove_of_step (.fallOff _ site 0 hpc (le_refl _)) (.fallOff _) trivial
  | testStop site =>
      apply canMove_of_readStop
      intro stop
      cases stop with
      | false => exact ⟨_, .testStop _ site hpc⟩
      | true => exact ⟨_, .testStopExit _ site hpc⟩
  | scan => exact canMove_of_step (.scan _ hpc) .tau trivial
  | recvfrom =>
      obtain ⟨frame, rest, hqueue⟩ := List.exists_cons_of_ne_nil (hrecv hpc)
      exact canMove_of_step (.recvfrom _ (some frame) hpc) (.recvfrom _ frame rest hqueue)
        (Option.some_ne_none frame)
  | sendPacket => exact canMove_of_step (.sendPacket _ hpc) (.sendPacket _ _ _) trivial
  | needToBlock => exact canMove_of_step (.needToBlock _ hpc) (.writeIsBlocked _) trivial
  | resumeStop =>
      apply canMove_of_readStop
      intro stop
      cases stop with
      | false => exact ⟨_, .resumeStop _ hpc⟩
      | true => exact ⟨_, .resumeStopExit _ hpc⟩
  | _ =>
      rw [hpc] at hphase
      cases hphase

/-! ## One round -/

/-- Main has handed its budget over and the worker has not replied. -/
def AwaitsReply (s : State) : Prop :=
  ∃ ls c, Linked ls s c ∧ s.main.pc = .waitReply ∧ c.toMain = []

/-- The steps that are left for the worker, the reading of the budget included. -/
def stepsLeft (cfg : Config) (s : State) : ℕ :=
  if phase s.worker.pc = .listening then
    (chargesLeft s.main.perRoundAdvance + 1) * (cfg.nIntfs + 6) + 1
  else roundLeft cfg.nIntfs s.worker

/-- The worker's step in a step of the system, if it is one. -/
def workerStepOf : Label → List WorkerAct
  | .worker act => [act]
  | _ => []

/-- INTERNAL: the worker's own steps leave main's queue alone. -/
theorem toMain_of_not_pipeSend {c c' : Channels} {act : WorkerAct} (h : c.worker act = some c')
    (hact : ∀ x, act ≠ .pipeSend x) : c'.toMain = c.toMain := by
  cases act with
  | pipeRead msg =>
      obtain ⟨rest, -, rfl⟩ := Channels.worker_pipeRead h
      rfl
  | pipeSend msg => exact absurd rfl (hact msg)
  | readStop stop => rw [(Channels.worker_readStop h).2]
  | _ =>
      cases h
      rfl

/-- INTERNAL: a worker about to announce is at its announcement. -/
theorem pc_of_announcing {pc : Pc} (h : phase pc = .announcing) : pc = .announce := by
  cases pc with
  | announce => rfl
  | _ => cases h

/-- INTERNAL: a worker that is gone has finished. -/
theorem pc_of_finished {pc : Pc} (h : phase pc = .finished) : pc = .finished := by
  cases pc with
  | finished => rfl
  | _ => cases h

/-- INTERNAL: a round in progress: the budget is unread, the worker computes, is about to
announce, or is gone. -/
theorem Handshake.round_phases {adv : ℤ} {p : Phase} {c : Channels}
    (h : Handshake adv .waitReply p c) (hnil : c.toMain = []) :
    p = .listening ∧ c.toWorker = [adv] ∨ p = .computing ∨ p = .announcing ∨ p = .finished := by
  cases h with
  | granted => exact Or.inl ⟨rfl, rfl⟩
  | computing => exact Or.inr (Or.inl rfl)
  | announcing => exact Or.inr (Or.inr (Or.inl rfl))
  | gone b => exact Or.inr (Or.inr (Or.inr rfl))
  | answered p b x hx hq => cases hnil

/-- INTERNAL: in a round, a step that is no message is one of a worker that reads its budget or
computes, and it does not lead to another read. -/
theorem phaseStep_in_round {p p' : Phase} {act : WorkerAct} (h : PhaseStep p act p')
    (hact : ∀ x, act ≠ .pipeSend x) (hp : p ≠ .blocked) :
    (p = .listening ∨ p = .computing) ∧ p' ≠ .listening := by
  cases h with
  | receive msg p' hp' hneg =>
      refine ⟨Or.inl rfl, ?_⟩
      rcases hp' with rfl | rfl <;> nofun
  | compute act p' hlocal hp' =>
      refine ⟨Or.inr rfl, ?_⟩
      rcases hp' with rfl | rfl <;> nofun
  | reply msg h0 h50 => exact absurd rfl (hact msg)
  | block => exact ⟨Or.inr rfl, nofun⟩
  | announce => exact absurd rfl (hact threadBlocked)
  | poll outcome p' hp' => exact absurd rfl hp
  | wake => exact absurd rfl hp

/-- INTERNAL: the budget that the worker reads is main's. -/
theorem Linked.reads_budget {ls : List Label} {s : State} {c : Channels} {msg : ℤ}
    {sh : Shared} (h : Linked ls s c) (hunread : c.toWorker = [s.main.perRoundAdvance])
    (hsh : s.shared.worker (.pipeRead msg) = some sh) : msg = s.main.perRoundAdvance := by
  obtain ⟨c', hc', -⟩ := carries_worker h.carries (h.handshake.small h.budget) hsh
  obtain ⟨rest, hq, -⟩ := Channels.worker_pipeRead hc'
  rw [hunread] at hq
  cases hq
  rfl

/-- INTERNAL: a step of the worker that is no reply is one step less.
SOURCE: utils.c:549-583, 667-834 -/
theorem stepsLeft_worker {cfg : Config} {s : State} {act : WorkerAct} {w : Worker} {sh : Shared}
    (h : AwaitsReply s) (hw : WorkerStep cfg s.worker act w) (hsh : s.shared.worker act = some sh)
    (hact : ∀ x, act ≠ .pipeSend x) :
    stepsLeft cfg { s with worker := w, shared := sh } + 1 ≤ stepsLeft cfg s := by
  obtain ⟨ls, c, hlinked, hpc, hnil⟩ := h
  have hhand := hlinked.handshake
  rw [hpc] at hhand
  have hround := hhand.round_phases hnil
  have hawake : phase s.worker.pc ≠ .blocked := by
    rcases hround with ⟨hphase, -⟩ | hphase | hphase | hphase <;> rw [hphase] <;> nofun
  obtain ⟨hphase, hgoes⟩ :=
    phaseStep_in_round (phaseStep_of_workerStep hlinked.left hw) hact hawake
  unfold stepsLeft
  rw [if_neg hgoes]
  rcases hphase with hphase | hphase
  · obtain ⟨msg, rfl, -, -⟩ := listening_cases hw hphase
    have hunread : c.toWorker = [s.main.perRoundAdvance] := by
      rcases hround with ⟨-, hunread⟩ | hother | hother | hother
      · exact hunread
      all_goals rw [hphase] at hother; cases hother
    rw [if_pos hphase, ← hlinked.reads_budget hunread hsh]
    exact Nat.succ_le_succ (roundLeft_pipeRead hw)
  · have hcomputes : phase s.worker.pc ≠ .listening := by
      rw [hphase]
      nofun
    rw [if_neg hcomputes]
    exact roundLeft_step hlinked.left hphase hw

/-- INTERNAL: **one step of a round** without the reply: main goes on waiting, and a step of the
worker is one step less. -/
theorem awaitsReply_step {cfg : Config} {s s' : State} {l : Label} (h : AwaitsReply s)
    (hquiet : ∀ x, l ≠ .worker (.pipeSend x)) (hs : (vtRouter cfg).step s l = some s') :
    AwaitsReply s' ∧ stepsLeft cfg s' + (workerStepOf l).length ≤ stepsLeft cfg s := by
  obtain ⟨ls, c, hlinked, hpc, hnil⟩ := h
  obtain ⟨c', hc', hlinked'⟩ := linked_step hlinked hs
  rcases step_cases hs with ⟨act, m, sh, rfl, hm, hsh, rfl⟩ |
    ⟨act, w, sh, rfl, hw, hsh, rfl⟩ | ⟨i, frame, rfl, hi, rfl⟩
  · obtain ⟨msg, rfl⟩ : ∃ msg, act = .pipeRead msg := by
      cases hm with
      | reply msg hpc' => exact ⟨msg, rfl⟩
      | _ => simp_all
    obtain ⟨rest, hq, -⟩ := Channels.main_pipeRead hc'
    rw [hnil] at hq
    cases hq
  · have hact : ∀ x, act ≠ .pipeSend x := by
      rintro x rfl
      exact hquiet x rfl
    have hless := stepsLeft_worker ⟨ls, c, hlinked, hpc, hnil⟩ hw hsh hact
    exact ⟨⟨_, c', hlinked', hpc, (toMain_of_not_pipeSend hc' hact).trans hnil⟩, hless⟩
  · cases hc'
    exact ⟨⟨_, c, hlinked', hpc, hnil⟩, le_refl _⟩

/-- INTERNAL: main's handing over of a budget begins a round. -/
theorem awaitsReply_of_sendBudget {cfg : Config} {ls : List Label} {s s' : State} {budget : ℤ}
    (hrun : (vtRouter cfg).Run ls s)
    (hs : (vtRouter cfg).step s (.main (.pipeSend budget)) = some s')
    (hbudget : budget ≠ threadExiting) :
    AwaitsReply s' ∧ stepsLeft cfg s' = (chargesLeft budget + 1) * (cfg.nIntfs + 6) + 1 := by
  obtain ⟨c, hlinked⟩ := linked_run hrun
  have hcases : step cfg s (.main (.pipeSend budget)) = some s' := hs
  obtain ⟨c', hc', hlinked'⟩ := linked_step hlinked hcases
  rcases step_cases hcases with ⟨act, m, sh, hl, hm, hsh, rfl⟩ | ⟨act, w, sh, hl, -⟩ |
    ⟨i, f, hl, -⟩
  · cases hl
    cases hm with
    | sendExiting hpc => exact absurd rfl hbudget
    | sendBudget hpc =>
        have hhand := hlinked.handshake
        rw [hpc] at hhand
        generalize hphase : phase s.worker.pc = p at hhand
        cases hhand with
        | granting =>
            cases hc'
            exact ⟨⟨_, _, hlinked', rfl, rfl⟩, if_pos hphase⟩
  · cases hl
  · cases hl

/-- **Every round is answered.**  Main has handed a budget over, and the worker has not replied
yet.  Then, whatever the kernel, the network and the system calls did, the worker has taken no
more steps than the budget and the number of its interfaces allow for, one pass over the
interfaces for every 50 microseconds, and main still waits.  If every `POLLIN` that was set meant
a queued frame (`SoundPoll`), the worker either is gone or has a step that needs nothing from the
network; and it is not gone if the conditions were met under which it heeds its commands.
SOURCE: utils.c:549-583, 667-834; router_app_vt.c:412-447 -/
theorem round_is_answered (cfg : Config) (pre mid : List Label) (budget : ℤ) (s : State)
    (hrun : (vtRouter cfg).Run (pre ++ .main (.pipeSend budget) :: mid) s)
    (hbudget : budget ≠ threadExiting) (hquiet : workerSent mid = []) :
    (mid.flatMap workerStepOf).length ≤
      ((budget.toNat + 49) / 50 + 1) * (cfg.nIntfs + 6) + 1 ∧
    s.main.pc = .waitReply ∧
    ((vtRouter cfg).Along SoundPoll (pre ++ .main (.pipeSend budget) :: mid) →
      s.worker.pc = .finished ∨ WorkerCanMove cfg s) ∧
    ((vtRouter cfg).Along CommandsHeeded (pre ++ .main (.pipeSend budget) :: mid) →
      s.worker.pc ≠ .finished) := by
  obtain ⟨t, ht, -⟩ := hrun.prefix
  obtain ⟨u, hstep, hu, hmid⟩ := hrun.split_at ht
  obtain ⟨hround, hsteps⟩ := awaitsReply_of_sendBudget ht hstep hbudget
  have hsends : ∀ l ∈ mid, ∀ x, l ≠ .worker (.pipeSend x) := by
    rintro l hl x rfl
    have hmem : x ∈ workerSent mid := List.mem_filterMap.mpr ⟨_, hl, rfl⟩
    rw [hquiet] at hmem
    cases hmem
  obtain ⟨hwaits, hrank⟩ := (vtRouter cfg).length_obs_le_rank (fun _ _ => True)
    (fun l => ∀ x, l ≠ .worker (.pipeSend x)) AwaitsReply (stepsLeft cfg) workerStepOf
    (fun s l s' h _ hq hs => awaitsReply_step h hq hs) hu hround hmid
    (fun _ _ _ _ _ _ => trivial) hsends
  rw [hsteps] at hrank
  obtain ⟨ls, c, hlinked, hpc, hnil⟩ := hwaits
  have hhand := hlinked.handshake
  rw [hpc] at hhand
  refine ⟨(Nat.le_add_left _ _).trans hrank, hpc, ?_, ?_⟩
  · intro hpoll
    rcases hhand.round_phases hnil with ⟨hphase, hunread⟩ | hphase | hphase | hphase
    · obtain ⟨w, hw⟩ : ∃ w, WorkerStep cfg s.worker (.pipeRead s.main.perRoundAdvance) w :=
        workerStep_pipeRead _ hphase
      have hint : IsInt32 s.main.perRoundAdvance :=
        (hlinked.handshake.small hlinked.budget).toWorker.2 _ (by simp [hunread])
      have hread : pipeRead s.shared.mainToThread = some (s.main.perRoundAdvance, []) := by
        rw [hlinked.carries.mainToThread, hunread, List.flatMap_singleton]
        exact pipeRead_intText hint
      exact Or.inr (canMove_of_step hw (.pipeRead _ _ hread) trivial)
    · apply Or.inr
      apply canMove_of_computing hphase
      intro hrecv
      obtain ⟨hqueued, htaking⟩ := fresh_run hrun hpoll
      apply hqueued
      · unfold Pending
        rw [hrecv]
      · apply htaking
        unfold Taking
        rw [hrecv]
        trivial
    · have hann := pc_of_announcing hphase
      exact Or.inr (canMove_of_step (.announce _ hann) (.pipeSend _) trivial)
    · exact Or.inl (pc_of_finished hphase)
  · intro hheeded hfin
    exact (heeded_run hrun hheeded).exits.2 ⟨hpc, hfin⟩

/-- The worker's part of a first round, up to its charge. -/
def firstCharge : List Label :=
  [.worker (.pipeRead 50), .worker (.readStop false), .worker (.poll (.ready [false])),
    .worker (.charge 50)]

/-- Behind its first charge the worker still owes its reply, and can send it. -/
theorem round_is_answered_firstCharge :
    ∃ s, (vtRouter oneIntf).Run (firstRound.take 2 ++ .main (.pipeSend 50) :: firstCharge) s ∧
      s.main.pc = .waitReply ∧ s.worker.pc ≠ .finished ∧
      (s.worker.pc = .finished ∨ WorkerCanMove oneIntf s) := by
  have hsome : ((vtRouter oneIntf).exec State.init
      (firstRound.take 2 ++ .main (.pipeSend 50) :: firstCharge)).isSome := by decide +kernel
  have hpoll := (vtRouter oneIntf).along_of_checkAlong (fun s l => decide (SoundPoll s l))
    (firstRound.take 2 ++ .main (.pipeSend 50) :: firstCharge) (by decide +kernel)
  have hheeded := (vtRouter oneIntf).along_of_checkAlong (fun s l => decide (CommandsHeeded s l))
    (firstRound.take 2 ++ .main (.pipeSend 50) :: firstCharge) (by decide +kernel)
  obtain ⟨s, hs⟩ := Option.isSome_iff_exists.mp hsome
  obtain ⟨-, hwaits, hmoves, hgoes⟩ := round_is_answered oneIntf (firstRound.take 2) firstCharge
    50 s hs (by decide) (by decide)
  exact ⟨s, hs, hwaits, hgoes (hheeded.mono fun _ _ h => of_decide_eq_true h),
    hmoves (hpoll.mono fun _ _ h => of_decide_eq_true h)⟩

end VtRouter.Analysis
