import VtRouter.Analysis.Hashmap
import VtRouter.Analysis.Rounds
import VtRouter.Interface.TimedProgram

/-!
# The test programs under virtual time

The threads of the test programs follow the protocol of the router's worker: their steps are steps
through the same phases, so the situations of `Analysis.Handshake` are theirs too
(`timedLinked_run`).  In each iteration a thread blocks, whatever its budget, so a round is over
after a number of steps that does not even depend on the budget (`host_round_is_answered`): what
is left of the budget is spent waiting.
-/

set_option autoImplicit false

namespace VtRouter.Analysis

open Library VtRouter.Model VtRouter.Interface

variable {α : Type} [DecidableEq α]

/-! ## What is registered -/

/-- INTERNAL: what is found was registered. -/
theorem lastPut_mem {β : Type} {puts : List (ℤ × β)} {key : ℤ} {value : β}
    (h : lastPut puts key = some value) : (key, value) ∈ puts := by
  obtain ⟨p, hp, rfl⟩ := Option.map_eq_some_iff.mp h
  have hmem := List.mem_of_getLast? hp
  rw [List.mem_filter, decide_eq_true_eq] at hmem
  rw [← hmem.2]
  exact hmem.1

/-- INTERNAL: `update_stub` finds what is registered last under the name's key, or nothing. -/
theorem timeUs_eq (P : TestProgram) (lastFn : String) :
    P.timeUs lastFn =
      .ok (lastPut (registered P.funcTimes) (cAbs (strHash (bytes lastFn)))) := by
  obtain ⟨funcTimesUs, htable, -, hget⟩ := funcTimes_spec P.funcTimes
  rw [TestProgram.timeUs, htable, ok_bind]
  exact hget (bytes lastFn)

/-- INTERNAL: a program that registers fifty for all of its steps is charged fifty. -/
theorem costsFifty {P : TestProgram} (h : ∀ t ∈ P.funcTimes, t.2 = 50) : CostsFifty P := by
  intro lastFn cost hcost
  rw [timeUs_eq, Except.ok.injEq] at hcost
  obtain ⟨t, ht, heq⟩ := List.mem_map.mp (lastPut_mem hcost)
  rw [← (Prod.mk.inj heq).2]
  exact h t ht

omit [DecidableEq α] in
theorem costsFifty_program (role : Role α) : CostsFifty role.program := by
  cases role with
  | client serverAddr => exact costsFifty (P := clientNVt) (by decide)
  | server => exact costsFifty (P := serverNVt) (by decide)

/-! ## The protocol -/

/-- What holds of a run and the state it ends in, with the queues its byte streams stand for. -/
structure TimedLinked (ls : List (TimedLabel α)) (s : TimedState α) (c : Channels) : Prop where
  carries : PipesCarry s.pipes c
  delivered : Delivered (ls.map labelOnPipes) c
  handshake : Handshake s.main.perRoundAdvance s.main.pc (threadPhase s.thread.pc) c
  budget : BudgetOk s.main
  left : ThreadLeftOk s.thread

/-- INTERNAL: **one step of a host.** -/
theorem timedLinked_step {fails : Bool} {P : TestProgram} (hcost : CostsFifty P)
    {ls : List (TimedLabel α)} {s s' : TimedState α} {c : Channels} {l : TimedLabel α}
    (h : TimedLinked ls s c) (hs : timedStep fails P s l = some s') :
    ∃ c', c.step (labelOnPipes l) = some c' ∧ TimedLinked (ls ++ [l]) s' c' := by
  obtain ⟨hcarries, hdelivered, hhand, hbudget, hleft⟩ := h
  have hsmall := hhand.small hbudget
  have hsnoc : (ls ++ [l]).map labelOnPipes = ls.map labelOnPipes ++ [labelOnPipes l] := by simp
  rcases timedStep_cases hs with ⟨act, m, p, rfl, hm, hp, rfl⟩ |
    ⟨act, w, p, inbox, rfl, hw, hp, -, rfl⟩ | ⟨src, data, rfl, rfl⟩
  · obtain ⟨c', hc', hcarries'⟩ := pipesCarry_main hcarries hsmall hp
    have hjoin : act = .pthreadJoin → threadPhase s.thread.pc = .finished := by
      rintro rfl
      simp only [Pipes.main] at hp
      split at hp
      · rename_i hpc
        rw [hpc]
        rfl
      · cases hp
    have hdelivered' := delivered_main hdelivered hc'
    rw [← show labelOnPipes (α := α) (.main act) = .main act from rfl, ← hsnoc] at hdelivered'
    exact ⟨c', hc', hcarries', hdelivered', handshake_main hhand hm hc' hjoin,
      budgetOk_step hbudget hm, hleft⟩
  · obtain ⟨c', hc', hcarries'⟩ := pipesCarry_thread hcarries hsmall hp
    have hphase := phaseStep_of_threadStep hleft hw
    have hread : ∀ msg, act = .pipeRead msg → msg < 2 ^ 31 := by
      rintro msg rfl
      obtain ⟨rest, hq, -⟩ := Channels.worker_pipeRead hc'
      exact (hsmall.toWorker.2 msg (by simp [hq])).2
    have hdelivered' := delivered_worker hdelivered hc'
    rw [← show labelOnPipes (.thread act) = .worker (onPipes act) from rfl, ← hsnoc]
      at hdelivered'
    exact ⟨c', hc', hcarries', hdelivered', handshake_worker hhand hphase hc', hbudget,
      threadLeftOk_step hcost hleft hread hw⟩
  · have hdelivered' := delivered_arrive hdelivered 0 []
    rw [← show labelOnPipes (α := α) (.arrive src data) = .arrive 0 [] from rfl, ← hsnoc]
      at hdelivered'
    exact ⟨c, rfl, hcarries, hdelivered', hhand, hbudget, hleft⟩

/-- INTERNAL: **the handshake holds along every run of a host.** -/
theorem timedLinked_run {fails : Bool} {role : Role α} {ls : List (TimedLabel α)}
    {s : TimedState α} (hrun : (timedHost fails role).Run ls s) : ∃ c, TimedLinked ls s c := by
  refine (timedHost fails role).run_invariant (fun ls s => ∃ c, TimedLinked ls s c)
    ⟨⟨[], [], false, false⟩, ?_⟩ ?_ ls s hrun
  · exact ⟨⟨rfl, rfl, rfl, rfl⟩, ⟨rfl, rfl⟩, .asking .listening false .listening,
      nofun, threadLeftOk_of_not_computing nofun⟩
  · rintro ls s l s' - ⟨c, h⟩ hs
    obtain ⟨c', -, h'⟩ := timedLinked_step (costsFifty_program role) h hs
    exact ⟨c', h'⟩

omit [DecidableEq α] in
/-- INTERNAL: a blocked thread has set its flag, and its announcement is out.
SOURCE: client_n_vt.c:258-269, 320-329, server_n_vt.c:297-305 -/
theorem TimedLinked.of_blocked {ls : List (TimedLabel α)} {s : TimedState α} {c : Channels}
    (h : TimedLinked ls s c) (hphase : threadPhase s.thread.pc = .blocked) :
    s.pipes.isBlocked = true ∧
      ¬(s.main.pc = .waitReply ∧ s.pipes.mainToThread = [] ∧ s.pipes.threadToMain = []) := by
  have hhand := h.handshake
  rw [hphase] at hhand
  refine ⟨h.carries.isBlocked.trans hhand.isBlocked_of_blocked, ?_⟩
  rintro ⟨hmain, -, htm⟩
  rw [hmain] at hhand
  cases hhand with
  | answered p b x hx hq =>
      rw [h.carries.threadToMain, List.flatMap_singleton] at htm
      exact intText_ne_nil x htm

/-- INTERNAL: a step that may wait is one of a blocked thread. -/
theorem blocked_of_op {P : TestProgram} {w w' : Thread α} {act : TestAct α}
    (h : ThreadStep P w (.op act) w') (hblocks : w.vars.blocks = true) : w.pc = .blocked := by
  cases h with
  | op act vars hpc hhead hruns hstep =>
      rw [hblocks] at hruns
      cases hruns
  | call act vars hpc hstep => exact hpc

/-- INTERNAL: main reads what the thread sends: the announcement, or an overrun. -/
theorem TimedLinked.sent_by_thread {fails : Bool} {P : TestProgram} {ls : List (TimedLabel α)}
    {s s' : TimedState α} {c : Channels} {x : ℤ} (h : TimedLinked ls s c)
    (hs : timedStep fails P s (.thread (.pipeSend x)) = some s') :
    x = threadBlocked ∨ 0 ≤ x ∧ x ≤ 50 := by
  rcases timedStep_cases hs with ⟨act, m, p, hl, -⟩ | ⟨act, w, p, inbox, hl, hw, -⟩ |
    ⟨src, data, hl, -⟩
  · cases hl
  · cases hl
    have hphase := phaseStep_of_threadStep h.left hw
    generalize threadPhase s.thread.pc = a at hphase
    generalize threadPhase w.pc = b at hphase
    cases hphase with
    | compute act b hact hb => cases hact
    | reply msg h0 h50 => exact Or.inr ⟨h0, h50⟩
    | announce => exact Or.inl rfl
  · cases hl

/-- **The protocol of the test programs.**  In every run of either program, whatever the kernel
answers, the network delivers and the missing return of `update_stub` yields: at most one message
is unread in both pipes together, and what is read is what was sent, in order; main's branch for a
weird reply is never taken; and the thread sleeps or waits for a datagram only while its flag is
set and main is not left waiting with both pipes empty.
SOURCE: client_n_vt.c:64-96, 155-189, 252-376, 679-729, server_n_vt.c:64-95, 154-188, 275-331,
623-673 -/
theorem hosts_keep_protocol (fails : Bool) (role : Role α) (ls : List (TimedLabel α))
    (s : TimedState α) (hrun : (timedHost fails role).Run ls s) :
    (∃ c : Channels, c.toWorker.length + c.toMain.length ≤ 1 ∧ PipesCarry s.pipes c ∧
      Delivered (ls.map labelOnPipes) c) ∧
    (∀ x ∈ mainRead (ls.map labelOnPipes), classify x ≠ .weird) ∧
    ∀ pre act post t, ls = pre ++ .thread (.op act) :: post → (timedHost fails role).Run pre t →
      t.thread.vars.blocks = true → t.pipes.isBlocked = true ∧
        ¬(t.main.pc = .waitReply ∧ t.pipes.mainToThread = [] ∧ t.pipes.threadToMain = []) := by
  obtain ⟨c, hlinked⟩ := timedLinked_run hrun
  refine ⟨⟨c, hlinked.handshake.unread_le, hlinked.carries, hlinked.delivered⟩, ?_, ?_⟩
  · intro x hx
    -- The reply was sent somewhere in the run.
    have hsent : x ∈ workerSent (ls.map labelOnPipes) := by
      rw [hlinked.delivered.toMain]
      exact List.mem_append_left _ hx
    obtain ⟨l', hl', hval⟩ := List.mem_filterMap.mp hsent
    obtain ⟨l, hl, rfl⟩ := List.mem_map.mp hl'
    have hlabel : l = .thread (.pipeSend x) := by
      cases l with
      | thread act =>
          cases act with
          | pipeSend msg =>
              cases hval
              rfl
          | _ => cases hval
      | _ => cases hval
    subst hlabel
    obtain ⟨pre, post, rfl⟩ := List.append_of_mem hl
    obtain ⟨t, ht, -⟩ := hrun.prefix
    obtain ⟨ct, hct⟩ := timedLinked_run ht
    obtain ⟨t', hstep, -⟩ := hrun.step_at ht
    unfold classify
    rcases hct.sent_by_thread hstep with rfl | ⟨h0, -⟩
    · simp
    · by_cases hb : x = threadBlocked
      · simp [hb]
      · simp [hb, h0]
  · rintro pre act post t rfl ht hblocks
    obtain ⟨ct, hct⟩ := timedLinked_run ht
    obtain ⟨t', hstep, -⟩ := hrun.step_at ht
    have hcases : timedStep fails role.program t (.thread (.op act)) = some t' := hstep
    rcases timedStep_cases hcases with ⟨a, m, p, hl, -⟩ | ⟨a, w, p, inbox, hl, hw, -⟩ |
      ⟨src, data, hl, -⟩
    · cases hl
    · cases hl
      apply hct.of_blocked
      rw [blocked_of_op hw hblocks]
      rfl
    · cases hl

/-- The first round of a client: it blocks for its initial sleep. -/
def firstSleep : List (TimedLabel ℕ) :=
  [.main (.ackAndGetNextCommand (some (bytes "|1,100000" ++ [0])) 0 100),
    .main (.readIsBlocked false), .main (.pipeSend 100), .thread (.pipeRead 100),
    .thread (.writeIsBlocked true), .thread (.pipeSend threadBlocked),
    .main (.pipeRead threadBlocked), .thread (.op .usleep)]

/-- The messages of that round. -/
theorem hosts_keep_protocol_firstSleep :
    ∃ s, (timedHost true (.client 3)).Run firstSleep s ∧
      ∀ x ∈ mainRead (firstSleep.map labelOnPipes), classify x ≠ .weird := by
  have hsome : ((timedHost true (.client 3)).exec (timedHost true (.client 3)).init
      firstSleep).isSome := by decide +kernel
  obtain ⟨s, hs⟩ := Option.isSome_iff_exists.mp hsome
  obtain ⟨-, h, -⟩ := hosts_keep_protocol true (.client 3) firstSleep s hs
  exact ⟨s, hs, h⟩

/-! ## One round -/

/-- The steps of a thread up to its announcement, if the program has the turn: four for a step
behind which it calls `update_stub`, and two for the announcement. -/
def iterationLeft : TestVars α → ℕ
  | .client c =>
      match c.pc with
      | .computation => 19
      | .loop => 15
      | .flushRequest => 14
      | .sendto => 10
      | .flushReply => 6
      | .recvfrom | .usleep => 2
  | .server v =>
      match v.pc with
      | .fillBuffer => 15
      | .sendto => 11
      | .loop => 7
      | .flushBuffer => 6
      | .recvfrom => 2

/-- The steps that are left in a round, the reply included. -/
def hostRoundLeft (w : Thread α) : ℕ :=
  match w.pc with
  | .firstCmd | .nextCmd | .resumeCmd | .blocked | .resume | .finished => 0
  | .reply | .announce => 1
  | .running => iterationLeft w.vars
  | .testStop | .resumeStop => iterationLeft w.vars + 1
  | .fallOff => iterationLeft w.vars + 2
  | .updateStub _ => iterationLeft w.vars + 3

omit [DecidableEq α] in
theorem iterationLeft_range (vars : TestVars α) :
    2 ≤ iterationLeft vars ∧ iterationLeft vars ≤ 19 := by
  unfold iterationLeft
  split <;> split <;> simp

/-- INTERNAL: entering an iteration is one step less. -/
theorem iterationLeft_loop {vars vars' : TestVars α} (h : vars.step .flushBuffer .loop = some vars') :
    iterationLeft vars' + 1 ≤ iterationLeft vars := by
  cases vars with
  | client c =>
      obtain ⟨c', hc, rfl⟩ := Option.map_eq_some_iff.mp h
      cases clientNStep_of_clientN hc with
      | loop hpc => simp [iterationLeft, hpc]
  | server v =>
      obtain ⟨v', hv, rfl⟩ := Option.map_eq_some_iff.mp h
      cases serverNStep_of_serverN hv with
      | loop hpc => simp [iterationLeft, hpc]

/-- INTERNAL: any other step of the program is four steps less. -/
theorem iterationLeft_step {vars vars' : TestVars α} {act : TestAct α} (hhead : vars.head = false)
    (hblocks : vars.blocks = false) (h : vars.step .flushBuffer act = some vars') :
    iterationLeft vars' + 4 ≤ iterationLeft vars := by
  cases vars with
  | client c =>
      obtain ⟨c', hc, rfl⟩ := Option.map_eq_some_iff.mp h
      cases clientNStep_of_clientN hc with
      | usleep hpc | loop hpc | recvfromError hpc | recvfrom src data hpc =>
          simp [TestVars.head, TestVars.blocks, hpc] at hhead hblocks
      | flushRequest hpc | sendto hpc | flushReply hpc | computation hpc =>
          simp [iterationLeft, hpc]
  | server v =>
      obtain ⟨v', hv, rfl⟩ := Option.map_eq_some_iff.mp h
      cases serverNStep_of_serverN hv with
      | loop hpc | recvfromError hpc | recvfrom src data hpc =>
          simp [TestVars.head, TestVars.blocks, hpc] at hhead hblocks
      | flushBuffer hpc | fillBuffer hpc | sendto hpc => simp [iterationLeft, hpc]

/-- INTERNAL: **every step of a computation is one step less.**
SOURCE: client_n_vt.c:155-189, 252-376, server_n_vt.c:154-188, 275-331 -/
theorem hostRoundLeft_step {P : TestProgram} {w w' : Thread α} {act : ThreadAct α}
    (hphase : threadPhase w.pc = .computing) (h : ThreadStep P w act w') :
    hostRoundLeft w' + 1 ≤ hostRoundLeft w := by
  obtain ⟨hlow, -⟩ := iterationLeft_range w.vars
  cases h with
  | headExit hpc hhead | fallOffExit ret hpc hret | testStopExit hpc | resumeStopExit hpc
  | fallOff ret hpc hret | testStop hpc | resumeStop hpc | reply hpc | needToBlock hpc hblocks
  | unregistered lastFn hpc htime | chargeOver lastFn cost hpc htime hover
  | charge lastFn cost hpc htime hmore =>
      simp only [hostRoundLeft, hpc]
      omega
  | head vars hpc hhead hstep =>
      simp only [hostRoundLeft, hpc]
      exact iterationLeft_loop hstep
  | op act vars hpc hhead hblocks hstep =>
      have hless := iterationLeft_step hhead hblocks hstep
      have hbehind : hostRoundLeft { w with vars := vars, pc := P.behind act } ≤
          iterationLeft vars + 3 := by
        unfold TestProgram.behind
        split
        · exact le_refl _
        · exact Nat.le_add_right _ _
      simp only [hostRoundLeft, hpc] at hbehind ⊢
      omega
  | firstCmdExit msg hpc hmsg | firstCmd msg hpc hmsg | nextCmdExit msg hpc hmsg
  | nextCmd msg hpc hmsg | announce hpc | call act vars hpc hstep | resume hpc
  | resumeCmdExit msg hpc hmsg | resumeCmd msg hpc hmsg =>
      rw [hpc] at hphase
      cases hphase

/-- INTERNAL: a budget sets the thread going for at most an iteration and the test in front of
it. -/
theorem hostRoundLeft_listening {P : TestProgram} {w w' : Thread α} {act : ThreadAct α}
    (h : ThreadStep P w act w') (hphase : threadPhase w.pc = .listening) :
    hostRoundLeft w' ≤ 20 := by
  obtain ⟨-, hhigh⟩ := iterationLeft_range w.vars
  cases h with
  | firstCmdExit msg hpc hmsg | firstCmd msg hpc hmsg | nextCmdExit msg hpc hmsg
  | nextCmd msg hpc hmsg | resumeCmdExit msg hpc hmsg | resumeCmd msg hpc hmsg =>
      simp only [hostRoundLeft]
      omega
  | headExit hpc hhead | head vars hpc hhead hstep | needToBlock hpc hblocks
  | op act vars hpc hhead hblocks hstep | unregistered lastFn hpc htime
  | chargeOver lastFn cost hpc htime hover | charge lastFn cost hpc htime hmore | reply hpc
  | fallOffExit ret hpc hret | fallOff ret hpc hret | testStopExit hpc | testStop hpc
  | announce hpc | call act vars hpc hstep | resume hpc | resumeStopExit hpc | resumeStop hpc =>
      rw [hpc] at hphase
      cases hphase

/-- A host whose main has handed its budget over and whose thread has not replied. -/
def HostAwaitsReply (s : TimedState α) : Prop :=
  ∃ ls c, TimedLinked ls s c ∧ s.main.pc = .waitReply ∧ c.toMain = []

/-- The steps that are left for the thread, the reading of the budget included. -/
def hostStepsLeft (s : TimedState α) : ℕ :=
  if threadPhase s.thread.pc = .listening then 21 else hostRoundLeft s.thread

/-- The thread's step in a step of the host, if it is one. -/
def threadStepOf : TimedLabel α → List (ThreadAct α)
  | .thread act => [act]
  | _ => []

/-- INTERNAL: a step of the thread that is no reply is one step less. -/
theorem hostStepsLeft_thread {P : TestProgram} {s t : TimedState α} {act : ThreadAct α}
    (h : HostAwaitsReply s) (hw : ThreadStep P s.thread act t.thread)
    (hact : ∀ x, onPipes act ≠ .pipeSend x) : hostStepsLeft t + 1 ≤ hostStepsLeft s := by
  obtain ⟨ls, c, hlinked, hpc, hnil⟩ := h
  have hhand := hlinked.handshake
  rw [hpc] at hhand
  have hawake : threadPhase s.thread.pc ≠ .blocked := by
    rcases hhand.round_phases hnil with ⟨hphase, -⟩ | hphase | hphase | hphase <;>
      rw [hphase] <;> nofun
  obtain ⟨hphase, hgoes⟩ :=
    phaseStep_in_round (phaseStep_of_threadStep hlinked.left hw) hact hawake
  unfold hostStepsLeft
  rw [if_neg hgoes]
  rcases hphase with hphase | hphase
  · rw [if_pos hphase]
    exact Nat.succ_le_succ (hostRoundLeft_listening hw hphase)
  · have hcomputes : threadPhase s.thread.pc ≠ .listening := by
      rw [hphase]
      nofun
    rw [if_neg hcomputes]
    exact hostRoundLeft_step hphase hw

omit [DecidableEq α] in
/-- INTERNAL: a message seen from the pipes is a message. -/
theorem onPipes_pipeSend {act : ThreadAct α} {x : ℤ} (h : onPipes act = .pipeSend x) :
    act = .pipeSend x := by
  cases act with
  | pipeSend msg =>
      cases h
      rfl
  | _ => cases h

/-- INTERNAL: **one step of a round** without the reply: main goes on waiting, and a step of the
thread is one step less. -/
theorem hostAwaitsReply_step {fails : Bool} {role : Role α} {s s' : TimedState α}
    {l : TimedLabel α} (h : HostAwaitsReply s) (hquiet : ∀ x, l ≠ .thread (.pipeSend x))
    (hs : (timedHost fails role).step s l = some s') :
    HostAwaitsReply s' ∧ hostStepsLeft s' + (threadStepOf l).length ≤ hostStepsLeft s := by
  obtain ⟨ls, c, hlinked, hpc, hnil⟩ := h
  have hcases : timedStep fails role.program s l = some s' := hs
  obtain ⟨c', hc', hlinked'⟩ := timedLinked_step (costsFifty_program role) hlinked hcases
  rcases timedStep_cases hcases with ⟨act, m, p, rfl, hm, hp, rfl⟩ |
    ⟨act, w, p, inbox, rfl, hw, hp, -, rfl⟩ | ⟨src, data, rfl, rfl⟩
  · obtain ⟨msg, rfl⟩ : ∃ msg, act = .pipeRead msg := by
      cases hm with
      | reply msg hpc' => exact ⟨msg, rfl⟩
      | _ => simp_all
    obtain ⟨rest, hq, -⟩ := Channels.main_pipeRead hc'
    rw [hnil] at hq
    cases hq
  · have hact : ∀ x, onPipes act ≠ .pipeSend x := by
      intro x heq
      exact hquiet x (by rw [onPipes_pipeSend heq])
    have hless := hostStepsLeft_thread (t := { s with thread := w, pipes := p, inbox := inbox })
      ⟨ls, c, hlinked, hpc, hnil⟩ hw hact
    exact ⟨⟨_, c', hlinked', hpc, (toMain_of_not_pipeSend hc' hact).trans hnil⟩, hless⟩
  · cases hc'
    exact ⟨⟨_, c, hlinked', hpc, hnil⟩, le_refl _⟩

/-- INTERNAL: main's handing over of a budget begins a round. -/
theorem hostAwaitsReply_of_sendBudget {fails : Bool} {role : Role α} {ls : List (TimedLabel α)}
    {s s' : TimedState α} {budget : ℤ} (hrun : (timedHost fails role).Run ls s)
    (hs : (timedHost fails role).step s (.main (.pipeSend budget)) = some s')
    (hbudget : budget ≠ threadExiting) : HostAwaitsReply s' ∧ hostStepsLeft s' = 21 := by
  obtain ⟨c, hlinked⟩ := timedLinked_run hrun
  have hcases : timedStep fails role.program s (.main (.pipeSend budget)) = some s' := hs
  obtain ⟨c', hc', hlinked'⟩ := timedLinked_step (costsFifty_program role) hlinked hcases
  rcases timedStep_cases hcases with ⟨act, m, p, hl, hm, hp, rfl⟩ | ⟨act, w, p, inbox, hl, -⟩ |
    ⟨src, data, hl, -⟩
  · cases hl
    cases hm with
    | sendExiting hpc => exact absurd rfl hbudget
    | sendBudget hpc =>
        have hhand := hlinked.handshake
        rw [hpc] at hhand
        generalize hphase : threadPhase s.thread.pc = p at hhand
        cases hhand with
        | granting =>
            cases hc'
            exact ⟨⟨_, _, hlinked', rfl, rfl⟩, if_pos hphase⟩
  · cases hl
  · cases hl

/-! ## The thread is never stuck -/

/-- Some step of the thread is enabled that does not wait for a datagram. -/
def HostCanMove (fails : Bool) (role : Role α) (s : TimedState α) : Prop :=
  ∃ act, (∀ datagram, act ≠ .op (.recvfrom datagram)) ∧
    ∃ s', (timedHost fails role).step s (.thread act) = some s'

/-- INTERNAL: a step of the thread that needs no datagram. -/
theorem hostCanMove_of_step {fails : Bool} {role : Role α} {s : TimedState α} {act : ThreadAct α}
    {w : Thread α} {p : Pipes} (hw : ThreadStep role.program s.thread act w)
    (hp : s.pipes.thread act = some p) (hown : ∀ datagram, act ≠ .op (.recvfrom datagram)) :
    HostCanMove fails role s := by
  have hinbox : threadInbox fails s.inbox act = some s.inbox := by
    cases act with
    | op act =>
        cases act with
        | recvfrom datagram => exact absurd rfl (hown datagram)
        | _ => rfl
    | _ => rfl
  refine ⟨act, hown, { s with thread := w, pipes := p, inbox := s.inbox }, ?_⟩
  show timedStep fails role.program s (.thread act) = _
  simp only [timedStep, testThread_of_threadStep hw, hp, hinbox]

/-- INTERNAL: a thread that tests the flag finds it set or clear. -/
theorem hostCanMove_of_readStop {fails : Bool} {role : Role α} {s : TimedState α}
    (h : ∀ stop, ∃ w, ThreadStep role.program s.thread (.readStop stop) w) :
    HostCanMove fails role s := by
  obtain ⟨w, hw⟩ := h s.pipes.stop
  exact hostCanMove_of_step hw (if_pos rfl) nofun

/-- INTERNAL: at the top of its loop a program can enter an iteration. -/
theorem step_of_head {vars : TestVars α} (hhead : vars.head = true) :
    ∃ vars', vars.step .flushBuffer .loop = some vars' := by
  cases vars with
  | client c =>
      have hpc : c.pc = .loop := by simpa [TestVars.head] using hhead
      exact ⟨_, step_of_clientNStep (.loop c hpc)⟩
  | server v =>
      have hpc : v.pc = .loop := by simpa [TestVars.head] using hhead
      exact ⟨_, step_of_serverNStep (.loop v hpc)⟩

/-- INTERNAL: elsewhere a program that does not block has a step that needs no datagram. -/
theorem step_of_running {vars : TestVars α} (hhead : vars.head = false)
    (hblocks : vars.blocks = false) :
    ∃ act vars', vars.step .flushBuffer act = some vars' ∧ ∀ datagram, act ≠ .recvfrom datagram := by
  cases vars with
  | client c =>
      cases hpc : c.pc with
      | usleep | loop | recvfrom => simp [TestVars.head, TestVars.blocks, hpc] at hhead hblocks
      | flushRequest => exact ⟨_, _, step_of_clientNStep (.flushRequest c hpc), nofun⟩
      | flushReply => exact ⟨_, _, step_of_clientNStep (.flushReply c hpc), nofun⟩
      | sendto => exact ⟨_, _, step_of_clientNStep (.sendto c hpc), nofun⟩
      | computation => exact ⟨_, _, step_of_clientNStep (.computation c hpc), nofun⟩
  | server v =>
      cases hpc : v.pc with
      | loop | recvfrom => simp [TestVars.head, TestVars.blocks, hpc] at hhead hblocks
      | flushBuffer => exact ⟨_, _, step_of_serverNStep (.flushBuffer v hpc), nofun⟩
      | fillBuffer => exact ⟨_, _, step_of_serverNStep (.fillBuffer v hpc), nofun⟩
      | sendto => exact ⟨_, _, step_of_serverNStep (.sendto v hpc), nofun⟩

/-- INTERNAL: **a thread that computes has a step of its own.**
SOURCE: client_n_vt.c:155-189, 252-376, server_n_vt.c:154-188, 275-331 -/
theorem hostCanMove_of_computing {fails : Bool} {role : Role α} {s : TimedState α}
    (hphase : threadPhase s.thread.pc = .computing) : HostCanMove fails role s := by
  cases hpc : s.thread.pc with
  | running =>
      by_cases hhead : s.thread.vars.head = true
      · obtain ⟨vars, hstep⟩ := step_of_head hhead
        apply hostCanMove_of_readStop
        intro stop
        cases stop with
        | false => exact ⟨_, .head _ vars hpc hhead hstep⟩
        | true => exact ⟨_, .headExit _ hpc hhead⟩
      · rw [Bool.not_eq_true] at hhead
        by_cases hblocks : s.thread.vars.blocks = true
        · exact hostCanMove_of_step (.needToBlock _ hpc hblocks) rfl nofun
        · rw [Bool.not_eq_true] at hblocks
          obtain ⟨act, vars, hstep, hown⟩ := step_of_running hhead hblocks
          refine hostCanMove_of_step (.op _ act vars hpc hhead hblocks hstep) rfl ?_
          rintro datagram heq
          cases heq
          exact hown datagram rfl
  | updateStub lastFn =>
      cases hfound : lastPut (registered role.program.funcTimes) (cAbs (strHash (bytes lastFn))) with
      | none =>
          have htime := timeUs_eq role.program lastFn
          rw [hfound] at htime
          exact hostCanMove_of_step (.unregistered _ lastFn hpc htime) rfl nofun
      | some cost =>
          have htime := timeUs_eq role.program lastFn
          rw [hfound] at htime
          by_cases hover : wrap32 (s.thread.left - cost) ≤ 0
          · exact hostCanMove_of_step (.chargeOver _ lastFn cost hpc htime hover) rfl nofun
          · exact hostCanMove_of_step
              (.charge _ lastFn cost hpc htime (Int.not_le.mp hover)) rfl nofun
  | reply => exact hostCanMove_of_step (.reply _ hpc) rfl nofun
  | fallOff => exact hostCanMove_of_step (.fallOff _ 0 hpc (le_refl _)) rfl nofun
  | testStop =>
      apply hostCanMove_of_readStop
      intro stop
      cases stop with
      | false => exact ⟨_, .testStop _ hpc⟩
      | true => exact ⟨_, .testStopExit _ hpc⟩
  | resumeStop =>
      apply hostCanMove_of_readStop
      intro stop
      cases stop with
      | false => exact ⟨_, .resumeStop _ hpc⟩
      | true => exact ⟨_, .resumeStopExit _ hpc⟩
  | _ =>
      rw [hpc] at hphase
      cases hphase

/-- INTERNAL: a thread that listens takes any message. -/
theorem threadStep_pipeRead {P : TestProgram} {w : Thread α} (msg : ℤ)
    (hphase : threadPhase w.pc = .listening) : ∃ w', ThreadStep P w (.pipeRead msg) w' := by
  cases hpc : w.pc with
  | firstCmd =>
      by_cases hmsg : msg < 0
      · exact ⟨_, .firstCmdExit w msg hpc hmsg⟩
      · exact ⟨_, .firstCmd w msg hpc (Int.not_lt.mp hmsg)⟩
  | nextCmd =>
      by_cases hmsg : msg ≤ 0
      · exact ⟨_, .nextCmdExit w msg hpc hmsg⟩
      · exact ⟨_, .nextCmd w msg hpc (Int.not_le.mp hmsg)⟩
  | resumeCmd =>
      by_cases hmsg : msg ≤ 0
      · exact ⟨_, .resumeCmdExit w msg hpc hmsg⟩
      · exact ⟨_, .resumeCmd w msg hpc (Int.not_le.mp hmsg)⟩
  | _ =>
      rw [hpc] at hphase
      cases hphase

/-- INTERNAL: a thread that listens reads what is unread. -/
theorem TimedLinked.hostCanMove_of_unread {fails : Bool} {role : Role α}
    {ls : List (TimedLabel α)} {s : TimedState α} {c : Channels} {msg : ℤ}
    (h : TimedLinked ls s c) (hphase : threadPhase s.thread.pc = .listening)
    (hunread : c.toWorker = [msg]) : HostCanMove fails role s := by
  obtain ⟨w, hw⟩ : ∃ w, ThreadStep role.program s.thread (.pipeRead msg) w :=
    threadStep_pipeRead msg hphase
  have hint : IsInt32 msg := (h.handshake.small h.budget).toWorker.2 msg (by simp [hunread])
  have hread : pipeRead s.pipes.mainToThread = some (msg, []) := by
    rw [h.carries.mainToThread, hunread, List.flatMap_singleton]
    exact pipeRead_intText hint
  have hpipes : s.pipes.thread (.pipeRead msg : ThreadAct α) =
      some { s.pipes with mainToThread := [] } := by
    simp [Pipes.thread, hread]
  exact hostCanMove_of_step hw hpipes (by simp)

/-- INTERNAL: a thread in the last phase is gone. -/
theorem threadPc_of_finished {pc : ThreadPc} (h : threadPhase pc = .finished) :
    pc = .finished := by
  cases pc with
  | finished => rfl
  | _ => cases h

/-- **Every round of a test program is answered** after one iteration at most, as long as the
thread is not gone.  Main has handed a budget over, and the thread has not replied yet.  Then the
thread has taken no more than 21 steps since, however large the budget is; main still waits, and
the thread either is gone, and the round is never answered, or has a step that needs no datagram.
SOURCE: client_n_vt.c:155-189, 252-376, 679-729, server_n_vt.c:154-188, 275-331, 623-673 -/
theorem host_round_is_answered (fails : Bool) (role : Role α) (pre mid : List (TimedLabel α))
    (budget : ℤ) (s : TimedState α)
    (hrun : (timedHost fails role).Run (pre ++ .main (.pipeSend budget) :: mid) s)
    (hbudget : budget ≠ threadExiting)
    (hquiet : workerSent (mid.map labelOnPipes) = []) :
    (mid.flatMap threadStepOf).length ≤ 21 ∧ s.main.pc = .waitReply ∧
      (s.thread.pc = .finished ∨ HostCanMove fails role s) := by
  obtain ⟨t, ht, -⟩ := hrun.prefix
  obtain ⟨u, hstep, hu, hmid⟩ := hrun.split_at ht
  obtain ⟨hround, hsteps⟩ := hostAwaitsReply_of_sendBudget ht hstep hbudget
  have hsends : ∀ l ∈ mid, ∀ x, l ≠ .thread (.pipeSend x) := by
    rintro l hl x rfl
    have hmem : x ∈ workerSent (mid.map labelOnPipes) :=
      List.mem_filterMap.mpr ⟨_, List.mem_map_of_mem hl, rfl⟩
    rw [hquiet] at hmem
    cases hmem
  obtain ⟨hwaits, hrank⟩ := (timedHost fails role).length_obs_le_rank (fun _ _ => True)
    (fun l => ∀ x, l ≠ .thread (.pipeSend x)) HostAwaitsReply hostStepsLeft threadStepOf
    (fun s l s' h _ hq hs => hostAwaitsReply_step h hq hs) hu hround hmid
    (fun _ _ _ _ _ _ => trivial) hsends
  rw [hsteps] at hrank
  obtain ⟨ls, c, hlinked, hpc, hnil⟩ := hwaits
  have hhand := hlinked.handshake
  rw [hpc] at hhand
  refine ⟨(Nat.le_add_left _ _).trans hrank, hpc, ?_⟩
  rcases hhand.round_phases hnil with ⟨hphase, hunread⟩ | hphase | hphase | hphase
  · exact Or.inr (hlinked.hostCanMove_of_unread hphase hunread)
  · exact Or.inr (hostCanMove_of_computing hphase)
  · have hann : s.thread.pc = .announce := by
      generalize s.thread.pc = pc at hphase
      cases pc with
      | announce => rfl
      | _ => cases hphase
    exact Or.inr (hostCanMove_of_step (.announce _ hann) rfl (by simp))
  · exact Or.inl (threadPc_of_finished hphase)

/-- Before its initial sleep the client still owes its announcement, and can send it. -/
theorem host_round_is_answered_firstSleep :
    ∃ s, (timedHost true (.client 3)).Run (firstSleep.take 5) s ∧ s.main.pc = .waitReply ∧
      (s.thread.pc = .finished ∨ HostCanMove true (.client 3) s) := by
  have hsome : ((timedHost true (.client 3)).exec (timedHost true (.client 3)).init
      (firstSleep.take 5)).isSome := by decide +kernel
  obtain ⟨s, hs⟩ := Option.isSome_iff_exists.mp hsome
  obtain ⟨-, hwaits, hmoves⟩ := host_round_is_answered true (.client 3) (firstSleep.take 2)
    [.thread (.pipeRead 100), .thread (.writeIsBlocked true)] 100 s hs (by decide) (by decide)
  exact ⟨s, hs, hwaits, hmoves⟩

end VtRouter.Analysis
