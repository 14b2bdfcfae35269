import VtRouter.Analysis.Histories
import VtRouter.Analysis.TimedProgram
import VtRouter.Interface.Dialogue

/-!
# The histories of the test programs

A test program under virtual time does what the program without it does, step for step, but that
the server flushes a buffer which it then fills (`alike_step`); and the kernel can always let it
do so, by granting a new budget whenever one is asked for (`ready_step`).  So the two kinds of
hosts cannot be told apart by the datagrams they exchange (`hosts_agree`), as with the routers
(`networks_agree`).
-/

set_option autoImplicit false

namespace VtRouter.Analysis

open Library VtRouter.Model VtRouter.Interface

variable {ν : Type} [DecidableEq ν]

/-! ## The same step of either program -/

/-- The control point of the server without virtual time. -/
def plainPc : ServerNPc → ServerNPc
  | .flushBuffer => .recvfrom
  | pc => pc

/-- The variables of a virtual-time program and of the program without virtual time.  What the
server's buffer holds matters only when it is sent. -/
inductive Alike : TestVars ν → TestVars ν → Prop
  | client (c : ClientN ν) : Alike (.client c) (.client c)
  | server (v v' : ServerN ν) (hpc : v'.pc = plainPc v.pc)
      (haddr : v'.serverStorage = v.serverStorage)
      (hbuffer : v.pc = .sendto → v'.buffer = v.buffer) : Alike (.server v) (.server v')

omit [DecidableEq ν] in
theorem alike_init (role : Role ν) : Alike role.init role.init := by
  cases role with
  | client serverAddr => exact .client _
  | server => exact .server _ _ rfl rfl nofun

/-- INTERNAL: a step of a program with its effect on the inbox is a step of its host. -/
theorem emits_host {fails : Bool} {role : Role ν} {vars vars' : TestVars ν}
    {inbox inbox' : List (ν × List UInt8)} {act : TestAct ν}
    (hstep : vars.step .recvfrom act = some vars')
    (hinbox : inboxAfter fails inbox act = some inbox') :
    (testHost fails .recvfrom role).Emits hostEvents ⟨vars, inbox⟩ (actEvents act)
      ⟨vars', inbox'⟩ := by
  have hlts : (testHost fails .recvfrom role).step ⟨vars, inbox⟩ (.op act) =
      some ⟨vars', inbox'⟩ := by
    show hostStep fails .recvfrom ⟨vars, inbox⟩ (.op act) = _
    simp only [hostStep, hstep, hinbox]
  exact .of_step hlts

/-- INTERNAL: **every step of a virtual-time program is one of the program without virtual time**,
or the flush of a buffer.
SOURCE: client_n.c:139-206, client_n_vt.c:256-376, server_n.c:125-142, server_n_vt.c:280-331 -/
theorem alike_step {fails : Bool} (role : Role ν) {vars plain vars' : TestVars ν}
    {inbox inbox' : List (ν × List UInt8)} {act : TestAct ν} (h : Alike vars plain)
    (hstep : vars.step .flushBuffer act = some vars')
    (hinbox : inboxAfter fails inbox act = some inbox') :
    ∃ plain', (testHost fails .recvfrom role).Emits hostEvents ⟨plain, inbox⟩ (actEvents act)
      ⟨plain', inbox'⟩ ∧ Alike vars' plain' := by
  cases h with
  | client c =>
      obtain ⟨c', hc, rfl⟩ := Option.map_eq_some_iff.mp hstep
      exact ⟨.client c', emits_host (step_of_clientNStep (clientNStep_of_clientN hc)) hinbox,
        .client c'⟩
  | server v v' hpc haddr hbuffer =>
      obtain ⟨w, hw, rfl⟩ := Option.map_eq_some_iff.mp hstep
      cases serverNStep_of_serverN hw with
      | loop hv =>
          rw [hv] at hpc
          exact ⟨_, emits_host (step_of_serverNStep (.loop v' hpc)) hinbox,
            .server _ _ rfl haddr nofun⟩
      | flushBuffer hv =>
          rw [hv] at hpc
          cases hinbox
          exact ⟨.server v', .refl _, .server _ _ hpc haddr nofun⟩
      | recvfromError hv =>
          rw [hv] at hpc
          exact ⟨_, emits_host (step_of_serverNStep (.recvfromError v' hpc)) hinbox,
            .server _ _ rfl haddr nofun⟩
      | recvfrom src data hv =>
          rw [hv] at hpc
          refine ⟨_, emits_host (step_of_serverNStep (.recvfrom v' src data hpc)) hinbox,
            .server _ _ ?_ rfl ?_⟩
          · by_cases hsize : ((data.take clientBufSize).length : ℤ) ≠ 0
            · simp only [if_pos hsize]
              rfl
            · simp only [if_neg hsize]
              rfl
          · intro hsendto
            by_cases hsize : ((data.take clientBufSize).length : ℤ) ≠ 0
            · simp only [if_pos hsize] at hsendto
              cases hsendto
            · simp only [if_neg hsize] at hsendto
              cases hsendto
      | fillBuffer hv =>
          rw [hv] at hpc
          exact ⟨_, emits_host (step_of_serverNStep (.fillBuffer v' hpc)) hinbox,
            .server _ _ rfl haddr fun _ => rfl⟩
      | sendto hv =>
          rw [hv] at hpc
          have hsend : ServerNStep .recvfrom v' _ _ := .sendto v' hpc
          rw [haddr, hbuffer hv] at hsend
          exact ⟨_, emits_host (step_of_serverNStep hsend) hinbox, .server _ _ rfl rfl nofun⟩

/-! ## The programs without virtual time follow -/

/-- INTERNAL: what a step of a thread does to the variables of its program. -/
theorem threadStep_vars {P : TestProgram} {w w' : Thread ν} {act : ThreadAct ν}
    (h : ThreadStep P w act w') :
    ((∀ a, act ≠ .op a) ∧ w'.vars = w.vars) ∨
      (act = .readStop false ∧ w.vars.step .flushBuffer .loop = some w'.vars) ∨
      ∃ a, act = .op a ∧ w.vars.step .flushBuffer a = some w'.vars := by
  cases h with
  | head vars hpc hhead hstep => exact Or.inr (Or.inl ⟨rfl, hstep⟩)
  | op act vars hpc hhead hblocks hstep => exact Or.inr (Or.inr ⟨act, rfl, hstep⟩)
  | call act vars hpc hstep => exact Or.inr (Or.inr ⟨act, rfl, hstep⟩)
  | firstCmdExit | firstCmd | headExit | needToBlock | unregistered | chargeOver | charge | reply
  | nextCmdExit | nextCmd | fallOffExit | fallOff | testStopExit | testStop | announce | resume
  | resumeCmdExit | resumeCmd | resumeStopExit | resumeStop => exact Or.inl ⟨nofun, rfl⟩

/-- A host under virtual time and a host without: the same datagrams wait, and the programs are at
the same step. -/
structure RunsLike (s : TimedState ν) (t : HostState ν) : Prop where
  inbox : t.inbox = s.inbox
  vars : Alike s.thread.vars t.vars

/-- INTERNAL: one step of a virtual-time host is followed by the host without virtual time. -/
theorem runsLike_step {fails : Bool} {role : Role ν} {s s' : TimedState ν} {t : HostState ν}
    {l : TimedLabel ν} (h : RunsLike s t) (hs : (timedHost fails role).step s l = some s') :
    ∃ t', (testHost fails .recvfrom role).Emits hostEvents t (timedEvents l) t' ∧
      RunsLike s' t' := by
  obtain ⟨plain, inbox⟩ := t
  obtain ⟨rfl, hvars⟩ := h
  have hcases : timedStep fails role.program s l = some s' := hs
  rcases timedStep_cases hcases with ⟨act, m, p, rfl, -, -, rfl⟩ |
    ⟨act, w, p, inbox, rfl, hw, -, hinbox, rfl⟩ | ⟨src, data, rfl, rfl⟩
  · exact ⟨_, .refl _, rfl, hvars⟩
  · rcases threadStep_vars hw with ⟨hown, hsame⟩ | ⟨rfl, hstep⟩ | ⟨a, rfl, hstep⟩
    · have hquiet : timedEvents (.thread act) = [] ∧ inbox = s.inbox := by
        cases act with
        | op a => exact absurd rfl (hown a)
        | _ =>
            cases hinbox
            exact ⟨rfl, rfl⟩
      rw [← hsame] at hvars
      rw [hquiet.1, hquiet.2]
      exact ⟨_, .refl _, rfl, hvars⟩
    · obtain ⟨plain', hemits, hvars'⟩ := alike_step role hvars hstep hinbox
      exact ⟨_, hemits, rfl, hvars'⟩
    · obtain ⟨plain', hemits, hvars'⟩ := alike_step role hvars hstep hinbox
      exact ⟨_, hemits, rfl, hvars'⟩
  · have harrive : (testHost fails .recvfrom role).step ⟨plain, s.inbox⟩ (.arrive src data) =
        some ⟨plain, s.inbox ++ [(src, data)]⟩ := rfl
    exact ⟨_, .of_step harrive, rfl, hvars⟩

/-- INTERNAL: **hosts without virtual time do what virtual-time hosts do.** -/
theorem timedNet_follows {fails : Bool} {role : ν → Role ν}
    {ls : List (NetLabel ν ν (List UInt8) (TimedLabel ν))}
    {s : NetState ν ν (List UInt8) (TimedState ν)} (hrun : (timedNet fails role).Run ls s) :
    ∃ ms t, (hostNet fails role).Run ms t ∧ hostHistory ms = timedHistory ls ∧
      t.flight = s.flight ∧ ∀ n, RunsLike (s.node n) (t.node n) :=
  network_simulation (fun n => ⟨rfl, alike_init (role n)⟩)
    (fun _ _ _ _ _ h hs => runsLike_step h hs) hrun

/-! ## Rounds of main -/

/-- Nothing in the pipes, and both flags down. -/
def emptyPipes : Pipes := ⟨[], [], false, false⟩

/-- INTERNAL: a step of main is no event between hosts. -/
theorem emits_timedMain {fails : Bool} {role : Role ν} {m m' : Main} {w : Thread ν}
    {p p' : Pipes} {inbox : List (ν × List UInt8)} {act : MainAct} (hm : MainStep m act m')
    (hp : p.main w.pc act = some p') :
    (timedHost fails role).Emits timedEvents ⟨m, w, p, inbox⟩ [] ⟨m', w, p', inbox⟩ := by
  have hlts : (timedHost fails role).step ⟨m, w, p, inbox⟩ (.main act) =
      some ⟨m', w, p', inbox⟩ := by
    show timedStep fails role.program ⟨m, w, p, inbox⟩ (.main act) = _
    simp only [timedStep, mainLoop_of_mainStep hm, hp]
  exact .of_step hlts

theorem emits_thread {fails : Bool} {role : Role ν} {m : Main} {w w' : Thread ν} {p p' : Pipes}
    {inbox inbox' : List (ν × List UInt8)} {act : ThreadAct ν}
    (hw : ThreadStep role.program w act w') (hp : p.thread act = some p')
    (hinbox : threadInbox fails inbox act = some inbox') :
    (timedHost fails role).Emits timedEvents ⟨m, w, p, inbox⟩ (timedEvents (.thread act))
      ⟨m, w', p', inbox'⟩ := by
  have hlts : (timedHost fails role).step ⟨m, w, p, inbox⟩ (.thread act) =
      some ⟨m, w', p', inbox'⟩ := by
    show timedStep fails role.program ⟨m, w, p, inbox⟩ (.thread act) = _
    simp only [timedStep, testThread_of_threadStep hw, hp, hinbox]
  exact .of_step hlts

/-- INTERNAL: main reads a reply and asks for the next command. -/
theorem emits_reply {fails : Bool} {role : Role ν} {m : Main} {w : Thread ν} {x : ℤ}
    {isBlocked : Bool} {inbox : List (ν × List UInt8)} (hm : m.pc = .waitReply)
    (hint : IsInt32 x) :
    (timedHost fails role).Emits timedEvents
      ⟨m, w, { emptyPipes with isBlocked := isBlocked, threadToMain := intText x }, inbox⟩ []
      ⟨afterReply m x, w, { emptyPipes with isBlocked := isBlocked }, inbox⟩ := by
  apply emits_timedMain (.reply m x hm)
  simp only [Pipes.main, pipeRead_intText hint, if_true]
  rfl

/-- INTERNAL: a thread that listens is given a budget of 1000 microseconds.
SOURCE: client_n_vt.c:697-709, server_n_vt.c:641-653 -/
theorem emits_grant {fails : Bool} {role : Role ν} {m : Main} {w w' : Thread ν}
    {inbox : List (ν × List UInt8)} (hm : m.pc = .ackAndGetNextCommand)
    (hw : ThreadStep role.program w (.pipeRead 1000) w') :
    ∃ m', m'.pc = .waitReply ∧
      (timedHost fails role).Emits timedEvents ⟨m, w, emptyPipes, inbox⟩ []
        ⟨m', w', emptyPipes, inbox⟩ := by
  obtain ⟨ack, hack, hret⟩ := ackAndGetNextCommand_grant
  have hcommand : (timedHost fails role).Emits timedEvents ⟨m, w, emptyPipes, inbox⟩ []
      ⟨{ m with pc := .testBlocked, perRoundAdvance := ack.ret }, w, emptyPipes, inbox⟩ :=
    emits_timedMain (.command m (some grant) ack hm hack (by omega)) rfl
  have htest : (timedHost fails role).Emits timedEvents
      ⟨{ m with pc := .testBlocked, perRoundAdvance := ack.ret }, w, emptyPipes, inbox⟩ []
      ⟨{ m with pc := .sendBudget, perRoundAdvance := ack.ret }, w, emptyPipes, inbox⟩ :=
    emits_timedMain (.test _ rfl) rfl
  have hsend : (timedHost fails role).Emits timedEvents
      ⟨{ m with pc := .sendBudget, perRoundAdvance := ack.ret }, w, emptyPipes, inbox⟩ []
      ⟨{ m with pc := .waitReply, perRoundAdvance := ack.ret }, w,
        { emptyPipes with mainToThread := intText 1000 }, inbox⟩ := by
    rw [← hret]
    exact emits_timedMain (.sendBudget _ rfl) rfl
  have hint : IsInt32 1000 := by decide
  have hread : (timedHost fails role).Emits timedEvents
      ⟨{ m with pc := .waitReply, perRoundAdvance := ack.ret }, w,
        { emptyPipes with mainToThread := intText 1000 }, inbox⟩ []
      ⟨{ m with pc := .waitReply, perRoundAdvance := ack.ret }, w', emptyPipes, inbox⟩ := by
    refine emits_thread hw ?_ rfl
    simp only [Pipes.thread, pipeRead_intText hint, if_true]
    rfl
  exact ⟨_, rfl, ((hcommand.trans htest).trans hsend).trans hread⟩

/-- The budget of a thread that may go on computing. -/
def ThreadHasBudget (w : Thread ν) : Prop := 0 < w.left ∧ w.left ≤ 1000

/-- INTERNAL: a thread in its test of `arg->stop` goes on. -/
theorem emits_testStop {fails : Bool} {role : Role ν} {m : Main} {w : Thread ν}
    {inbox : List (ν × List UInt8)} (hpc : w.pc = .testStop) :
    (timedHost fails role).Emits timedEvents ⟨m, w, emptyPipes, inbox⟩ []
      ⟨m, { w with pc := .running }, emptyPipes, inbox⟩ :=
  emits_thread (.testStop w hpc) rfl rfl

/-- INTERNAL: **`update_stub` lets the program go on**, with the budget it has or a new one, also
for a name that is not registered.
SOURCE: client_n_vt.c:155-189, server_n_vt.c:154-188 -/
theorem emits_behind {fails : Bool} {role : Role ν} {m : Main} {w : Thread ν} {lastFn : String}
    (inbox : List (ν × List UInt8)) (hm : m.pc = .waitReply) (hpc : w.pc = .updateStub lastFn)
    (hleft : ThreadHasBudget w) :
    ∃ m' left, m'.pc = .waitReply ∧ (0 < left ∧ left ≤ 1000) ∧
      (timedHost fails role).Emits timedEvents ⟨m, w, emptyPipes, inbox⟩ []
        ⟨m', { w with left := left, pc := .running }, emptyPipes, inbox⟩ := by
  have htime := timeUs_eq role.program lastFn
  cases hfound : lastPut (registered role.program.funcTimes) (cAbs (strHash (bytes lastFn))) with
  | none =>
      rw [hfound] at htime
      have hskip : (timedHost fails role).Emits timedEvents ⟨m, w, emptyPipes, inbox⟩ []
          ⟨m, { w with pc := .testStop }, emptyPipes, inbox⟩ :=
        emits_thread (.unregistered w lastFn hpc htime) rfl rfl
      exact ⟨m, w.left, hm, hleft, hskip.trans (emits_testStop rfl)⟩
  | some cost =>
      rw [hfound] at htime
      have hcost : cost = 50 := costsFifty_program role lastFn cost htime
      subst hcost
      obtain ⟨hpos, hmax⟩ := hleft
      by_cases hover : wrap32 (w.left - 50) ≤ 0
      · -- The budget is used up: a round of main.
        have hcharge : (timedHost fails role).Emits timedEvents ⟨m, w, emptyPipes, inbox⟩ []
            ⟨m, { w with left := wrap32 (w.left - 50), pc := .reply }, emptyPipes, inbox⟩ :=
          emits_thread (.chargeOver w lastFn 50 hpc htime hover) rfl rfl
        have hreply : (timedHost fails role).Emits timedEvents
            ⟨m, { w with left := wrap32 (w.left - 50), pc := .reply }, emptyPipes, inbox⟩ []
            ⟨m, { w with left := wrap32 (w.left - 50), pc := .nextCmd },
              { emptyPipes with threadToMain := intText (wrap32 (-1 * wrap32 (w.left - 50))) },
              inbox⟩ :=
          emits_thread (.reply _ rfl) rfl rfl
        have hread : (timedHost fails role).Emits timedEvents
            ⟨m, { w with left := wrap32 (w.left - 50), pc := .nextCmd },
              { emptyPipes with threadToMain := intText (wrap32 (-1 * wrap32 (w.left - 50))) },
              inbox⟩ []
            ⟨afterReply m (wrap32 (-1 * wrap32 (w.left - 50))),
              { w with left := wrap32 (w.left - 50), pc := .nextCmd }, emptyPipes, inbox⟩ :=
          emits_reply hm (isInt32_wrap32 _)
        have hnext : ThreadStep role.program
            { w with left := wrap32 (w.left - 50), pc := .nextCmd } (.pipeRead 1000)
            { w with left := 1000, pc := .testStop } := .nextCmd _ 1000 rfl (by norm_num)
        obtain ⟨m', hm', hgrant⟩ := emits_grant (afterReply_pc m _) hnext
        exact ⟨m', 1000, hm', by norm_num,
          (((hcharge.trans hreply).trans hread).trans hgrant).trans (emits_testStop rfl)⟩
      · have hint : IsInt32 (w.left - 50) := by
          unfold IsInt32
          omega
        have hcharge : (timedHost fails role).Emits timedEvents ⟨m, w, emptyPipes, inbox⟩ []
            ⟨m, { w with left := wrap32 (w.left - 50), pc := .fallOff }, emptyPipes, inbox⟩ :=
          emits_thread (.charge w lastFn 50 hpc htime (by omega)) rfl rfl
        have hfall : (timedHost fails role).Emits timedEvents
            ⟨m, { w with left := wrap32 (w.left - 50), pc := .fallOff }, emptyPipes, inbox⟩ []
            ⟨m, { w with left := wrap32 (w.left - 50), pc := .testStop }, emptyPipes, inbox⟩ :=
          emits_thread (.fallOff _ 0 rfl (le_refl 0)) rfl rfl
        refine ⟨m, wrap32 (w.left - 50), hm, ?_, (hcharge.trans hfall).trans (emits_testStop rfl)⟩
        rw [wrap32_of_isInt32 hint] at hover ⊢
        omega

/-! ## Where the thread waits for the program without virtual time -/

/-- The program is not at the flush that the server without virtual time leaves out. -/
def Flushed (vars : TestVars ν) : Prop := ∀ v, vars = .server v → v.pc ≠ .flushBuffer

/-- The virtual-time host is where the host without virtual time is: with a budget, or in a call
that may wait. -/
inductive Ready : HostState ν → TimedState ν → Prop
  | granted (m : Main) (w : Thread ν) (plain : TestVars ν) (inbox : List (ν × List UInt8))
      (hm : m.pc = .waitReply) (hpc : w.pc = .running) (hleft : ThreadHasBudget w)
      (hvars : Alike w.vars plain) (hblocks : w.vars.blocks = false) (hflushed : Flushed w.vars) :
      Ready ⟨plain, inbox⟩ ⟨m, w, emptyPipes, inbox⟩
  | blocked (m : Main) (w : Thread ν) (plain : TestVars ν) (inbox : List (ν × List UInt8))
      (hm : m.pc = .ackAndGetNextCommand) (hpc : w.pc = .blocked) (hvars : Alike w.vars plain)
      (hblocks : w.vars.blocks = true) :
      Ready ⟨plain, inbox⟩ ⟨m, w, { emptyPipes with isBlocked := true }, inbox⟩

/-- INTERNAL: a thread with the turn makes a step of its program, and has the turn again.
SOURCE: client_n_vt.c:289-316, 373-374, server_n_vt.c:287-329 -/
theorem emits_op {fails : Bool} {role : Role ν} {m : Main} {w : Thread ν} {vars : TestVars ν}
    {inbox inbox' : List (ν × List UInt8)} {act : TestAct ν} (hm : m.pc = .waitReply)
    (hpc : w.pc = .running) (hleft : ThreadHasBudget w) (hhead : w.vars.head = false)
    (hblocks : w.vars.blocks = false) (hstep : w.vars.step .flushBuffer act = some vars)
    (hinbox : inboxAfter fails inbox act = some inbox') :
    ∃ m' left, m'.pc = .waitReply ∧ (0 < left ∧ left ≤ 1000) ∧
      (timedHost fails role).Emits timedEvents ⟨m, w, emptyPipes, inbox⟩ (actEvents act)
        ⟨m', { w with left := left, vars := vars, pc := .running }, emptyPipes, inbox'⟩ := by
  have hop : (timedHost fails role).Emits timedEvents ⟨m, w, emptyPipes, inbox⟩ (actEvents act)
      ⟨m, { w with vars := vars, pc := role.program.behind act }, emptyPipes, inbox'⟩ :=
    emits_thread (.op w act vars hpc hhead hblocks hstep) rfl hinbox
  unfold TestProgram.behind at hop
  cases hlast : role.program.lastFn act with
  | none =>
      rw [hlast] at hop
      exact ⟨m, w.left, hm, hleft, hop⟩
  | some lastFn =>
      rw [hlast] at hop
      have hstub : ({ w with vars := vars, pc := .updateStub lastFn } : Thread ν).pc =
          .updateStub lastFn := rfl
      obtain ⟨m', left, hm', hleft', hbehind⟩ := emits_behind inbox' hm hstub hleft
      exact ⟨m', left, hm', hleft', hop.trans_silent hbehind⟩

/-- INTERNAL: a thread that has to wait announces it, and main takes note.
SOURCE: client_n_vt.c:258-261, 320-322, server_n_vt.c:297-299 -/
theorem emits_needToBlock {fails : Bool} {role : Role ν} {m : Main} {w : Thread ν}
    (inbox : List (ν × List UInt8)) (hm : m.pc = .waitReply) (hpc : w.pc = .running)
    (hblocks : w.vars.blocks = true) :
    ∃ m', m'.pc = .ackAndGetNextCommand ∧
      (timedHost fails role).Emits timedEvents ⟨m, w, emptyPipes, inbox⟩ []
        ⟨m', { w with left := 0, pc := .blocked }, { emptyPipes with isBlocked := true },
          inbox⟩ := by
  have hflag : (timedHost fails role).Emits timedEvents ⟨m, w, emptyPipes, inbox⟩ []
      ⟨m, { w with left := 0, pc := .announce }, { emptyPipes with isBlocked := true }, inbox⟩ :=
    emits_thread (.needToBlock w hpc hblocks) rfl rfl
  have hsend : (timedHost fails role).Emits timedEvents
      ⟨m, { w with left := 0, pc := .announce }, { emptyPipes with isBlocked := true }, inbox⟩ []
      ⟨m, { w with left := 0, pc := .blocked },
        { emptyPipes with isBlocked := true, threadToMain := intText threadBlocked }, inbox⟩ :=
    emits_thread (.announce _ rfl) rfl rfl
  have hint : IsInt32 threadBlocked := by decide
  exact ⟨afterReply m threadBlocked, afterReply_pc m _,
    (hflag.trans hsend).trans (emits_reply hm hint)⟩

/-- INTERNAL: **a thread with the turn gets to where the program without virtual time is.** -/
theorem emits_ready {fails : Bool} {role : Role ν} {m : Main} {w : Thread ν} {plain : TestVars ν}
    (inbox : List (ν × List UInt8)) (hm : m.pc = .waitReply) (hpc : w.pc = .running)
    (hleft : ThreadHasBudget w) (hvars : Alike w.vars plain) :
    ∃ s, (timedHost fails role).Emits timedEvents ⟨m, w, emptyPipes, inbox⟩ [] s ∧
      Ready ⟨plain, inbox⟩ s := by
  have hblocked : ∀ (m : Main) (w : Thread ν), m.pc = .waitReply → w.pc = .running →
      Alike w.vars plain → w.vars.blocks = true →
      ∃ s, (timedHost fails role).Emits timedEvents ⟨m, w, emptyPipes, inbox⟩ [] s ∧
        Ready ⟨plain, inbox⟩ s := by
    intro m w hm hpc hvars hblocks
    obtain ⟨m', hm', hemits⟩ := emits_needToBlock inbox hm hpc hblocks
    exact ⟨_, hemits, .blocked m' _ plain inbox hm' rfl hvars hblocks⟩
  by_cases hblocks : w.vars.blocks = true
  · exact hblocked m w hm hpc hvars hblocks
  rw [Bool.not_eq_true] at hblocks
  by_cases hflushed : Flushed w.vars
  · exact ⟨_, .refl _, .granted m w plain inbox hm hpc hleft hvars hblocks hflushed⟩
  -- The server without virtual time is at its `recvfrom` already.
  unfold Flushed at hflushed
  push Not at hflushed
  obtain ⟨v, hv, hflush⟩ := hflushed
  have hhead : w.vars.head = false := by simp [hv, TestVars.head, hflush]
  have hstep : w.vars.step .flushBuffer .flushBuffer =
      some (.server { v with buffer := [], pc := .recvfrom }) := by
    rw [hv]
    exact step_of_serverNStep (.flushBuffer v hflush)
  obtain ⟨m', left, hm', -, hemits⟩ := emits_op hm hpc hleft hhead hblocks hstep rfl
  have hvars' : Alike (.server { v with buffer := [], pc := .recvfrom }) plain := by
    rw [hv] at hvars
    cases hvars with
    | server v v' hpc' haddr hbuffer =>
        rw [hflush] at hpc'
        exact .server _ _ hpc' haddr (by simp)
  obtain ⟨s, hs, hready⟩ := hblocked m'
    { w with left := left, vars := .server { v with buffer := [], pc := .recvfrom },
             pc := .running } hm' rfl hvars' rfl
  exact ⟨s, hemits.trans hs, hready⟩

/-! ## The steps of the programs without virtual time -/

/-- INTERNAL: **every step of a program without virtual time is one of the virtual-time program**,
once that has flushed its buffer.
SOURCE: client_n.c:139-206, client_n_vt.c:256-376, server_n.c:125-142, server_n_vt.c:280-331 -/
theorem alike_back {vars plain plain' : TestVars ν} {act : TestAct ν} (h : Alike vars plain)
    (hflushed : Flushed vars) (hstep : plain.step .recvfrom act = some plain') :
    ∃ vars', vars.step .flushBuffer act = some vars' ∧ Alike vars' plain' := by
  cases h with
  | client c =>
      obtain ⟨c', hc, rfl⟩ := Option.map_eq_some_iff.mp hstep
      exact ⟨.client c', step_of_clientNStep (clientNStep_of_clientN hc), .client c'⟩
  | server v v' hpc haddr hbuffer =>
      have hsame : v'.pc = v.pc := by
        have hpc' := hflushed v rfl
        rw [hpc]
        cases hv : v.pc with
        | flushBuffer => exact absurd hv hpc'
        | loop | recvfrom | fillBuffer | sendto => rfl
      obtain ⟨w, hw, rfl⟩ := Option.map_eq_some_iff.mp hstep
      cases serverNStep_of_serverN hw with
      | loop hv =>
          rw [hv] at hsame
          exact ⟨_, step_of_serverNStep (.loop v hsame.symm), .server _ _ rfl haddr nofun⟩
      | flushBuffer hv =>
          rw [hv] at hsame
          exact absurd hsame.symm (hflushed v rfl)
      | recvfromError hv =>
          rw [hv] at hsame
          exact ⟨_, step_of_serverNStep (.recvfromError v hsame.symm), .server _ _ rfl haddr nofun⟩
      | recvfrom src data hv =>
          rw [hv] at hsame
          refine ⟨_, step_of_serverNStep (.recvfrom v src data hsame.symm), ?_⟩
          by_cases hsize : ((data.take clientBufSize).length : ℤ) ≠ 0
          · simp only [if_pos hsize]
            exact .server _ _ rfl rfl nofun
          · simp only [if_neg hsize]
            exact .server _ _ rfl rfl nofun
      | fillBuffer hv =>
          rw [hv] at hsame
          exact ⟨_, step_of_serverNStep (.fillBuffer v hsame.symm),
            .server _ _ rfl haddr fun _ => rfl⟩
      | sendto hv =>
          rw [hv] at hsame
          have hsend : ServerNStep .flushBuffer v _ _ := .sendto v hsame.symm
          rw [← haddr, ← hbuffer hsame.symm] at hsend
          exact ⟨_, step_of_serverNStep hsend, .server _ _ rfl rfl nofun⟩

/-- INTERNAL: at the top of its loop a program can only enter an iteration. -/
theorem act_of_head {vars vars' : TestVars ν} {act : TestAct ν} (hhead : vars.head = true)
    (hstep : vars.step .flushBuffer act = some vars') : act = .loop := by
  cases vars with
  | client c =>
      obtain ⟨c', hc, rfl⟩ := Option.map_eq_some_iff.mp hstep
      have hpc : c.pc = .loop := by simpa [TestVars.head] using hhead
      cases clientNStep_of_clientN hc with
      | loop => rfl
      | usleep h | flushRequest h | sendto h | flushReply h | recvfromError h | recvfrom _ _ h
      | computation h =>
          rw [h] at hpc
          cases hpc
  | server v =>
      obtain ⟨v', hv, rfl⟩ := Option.map_eq_some_iff.mp hstep
      have hpc : v.pc = .loop := by simpa [TestVars.head] using hhead
      cases serverNStep_of_serverN hv with
      | loop => rfl
      | flushBuffer h | recvfromError h | recvfrom _ _ h | fillBuffer h | sendto h =>
          rw [h] at hpc
          cases hpc

/-- INTERNAL: a call that may wait returns, the thread takes a command and has the turn again.
SOURCE: client_n_vt.c:264-271, 326-332, server_n_vt.c:302-308 -/
theorem emits_call {fails : Bool} {role : Role ν} {m : Main} {w : Thread ν} {vars : TestVars ν}
    {inbox inbox' : List (ν × List UInt8)} {act : TestAct ν} (hm : m.pc = .ackAndGetNextCommand)
    (hpc : w.pc = .blocked) (hstep : w.vars.step .flushBuffer act = some vars)
    (hinbox : inboxAfter fails inbox act = some inbox') :
    ∃ m', m'.pc = .waitReply ∧
      (timedHost fails role).Emits timedEvents
        ⟨m, w, { emptyPipes with isBlocked := true }, inbox⟩ (actEvents act)
        ⟨m', { w with left := 1000, vars := vars, pc := .running }, emptyPipes, inbox'⟩ := by
  have hcall : (timedHost fails role).Emits timedEvents
      ⟨m, w, { emptyPipes with isBlocked := true }, inbox⟩ (actEvents act)
      ⟨m, { w with vars := vars, pc := .resume }, { emptyPipes with isBlocked := true },
        inbox'⟩ :=
    emits_thread (.call w act vars hpc hstep) rfl hinbox
  have hflag : (timedHost fails role).Emits timedEvents
      ⟨m, { w with vars := vars, pc := .resume }, { emptyPipes with isBlocked := true }, inbox'⟩ []
      ⟨m, { w with vars := vars, pc := .resumeCmd }, emptyPipes, inbox'⟩ :=
    emits_thread (.resume _ rfl) rfl rfl
  have hnext : ThreadStep role.program { w with vars := vars, pc := .resumeCmd } (.pipeRead 1000)
      { w with left := 1000, vars := vars, pc := .resumeStop } :=
    .resumeCmd _ 1000 rfl (by norm_num)
  obtain ⟨m', hm', hgrant⟩ := emits_grant hm hnext
  have hstop : (timedHost fails role).Emits timedEvents
      ⟨m', { w with left := 1000, vars := vars, pc := .resumeStop }, emptyPipes, inbox'⟩ []
      ⟨m', { w with left := 1000, vars := vars, pc := .running }, emptyPipes, inbox'⟩ :=
    emits_thread (.resumeStop _ rfl) rfl rfl
  exact ⟨m', hm', hcall.trans_silent ((hflag.trans hgrant).trans hstop)⟩

/-- INTERNAL: **one step of a program without virtual time is one the thread can make.** -/
theorem ready_step {fails : Bool} {role : Role ν} {plain plain' : TestVars ν} {s : TimedState ν}
    {inbox inbox' : List (ν × List UInt8)} {act : TestAct ν} (h : Ready ⟨plain, inbox⟩ s)
    (hstep : plain.step .recvfrom act = some plain')
    (hinbox : inboxAfter fails inbox act = some inbox') :
    ∃ s', (timedHost fails role).Emits timedEvents s (actEvents act) s' ∧
      Ready ⟨plain', inbox'⟩ s' := by
  have hbudget : (0 : ℤ) < 1000 ∧ (1000 : ℤ) ≤ 1000 := by norm_num
  cases h with
  | granted m w plain inbox hm hpc hleft hvars hblocks hflushed =>
      obtain ⟨vars', hvstep, hvars'⟩ := alike_back hvars hflushed hstep
      by_cases hhead : w.vars.head = true
      · have hloop := act_of_head hhead hvstep
        subst hloop
        cases hinbox
        have henter : (timedHost fails role).Emits timedEvents ⟨m, w, emptyPipes, inbox⟩ []
            ⟨m, { w with vars := vars', pc := .running }, emptyPipes, inbox⟩ :=
          emits_thread (.head w vars' hpc hhead hvstep) rfl rfl
        obtain ⟨s', hs', hready⟩ := emits_ready (w := { w with vars := vars', pc := .running })
          inbox hm rfl hleft hvars'
        exact ⟨s', henter.trans hs', hready⟩
      · rw [Bool.not_eq_true] at hhead
        obtain ⟨m', left, hm', hleft', hemits⟩ :=
          emits_op hm hpc hleft hhead hblocks hvstep hinbox
        obtain ⟨s', hs', hready⟩ :=
          emits_ready (w := { w with left := left, vars := vars', pc := .running })
            inbox' hm' rfl hleft' hvars'
        exact ⟨s', hemits.trans_silent hs', hready⟩
  | blocked m w plain inbox hm hpc hvars hblocks =>
      have hflushed : Flushed w.vars := by
        intro v hv hflush
        rw [hv] at hblocks
        simp [TestVars.blocks, hflush] at hblocks
      obtain ⟨vars', hvstep, hvars'⟩ := alike_back hvars hflushed hstep
      obtain ⟨m', hm', hemits⟩ := emits_call hm hpc hvstep hinbox
      obtain ⟨s', hs', hready⟩ :=
        emits_ready (w := { w with left := 1000, vars := vars', pc := .running })
          inbox' hm' rfl hbudget hvars'
      exact ⟨s', hemits.trans_silent hs', hready⟩

/-- The virtual-time host can go on as the host without virtual time does: before its first
command, or when it is `Ready`. -/
inductive HostedBy : HostState ν → TimedState ν → Prop
  | starting (m : Main) (w : Thread ν) (plain : TestVars ν) (inbox : List (ν × List UInt8))
      (hm : m.pc = .ackAndGetNextCommand) (hpc : w.pc = .firstCmd) (hvars : Alike w.vars plain) :
      HostedBy ⟨plain, inbox⟩ ⟨m, w, emptyPipes, inbox⟩
  | ready (t : HostState ν) (s : TimedState ν) (h : Ready t s) : HostedBy t s

omit [DecidableEq ν] in
/-- INTERNAL: a datagram arrives wherever the thread is. -/
theorem hostedBy_arrive {plain : TestVars ν} {inbox : List (ν × List UInt8)} {s : TimedState ν}
    (h : HostedBy ⟨plain, inbox⟩ s) (src : ν) (data : List UInt8) :
    HostedBy ⟨plain, inbox ++ [(src, data)]⟩ { s with inbox := s.inbox ++ [(src, data)] } := by
  cases h with
  | starting m w plain inbox hm hpc hvars => exact .starting m w plain _ hm hpc hvars
  | ready t s h =>
      apply HostedBy.ready
      cases h with
      | granted m w plain inbox hm hpc hleft hvars hblocks hflushed =>
          exact .granted m w plain _ hm hpc hleft hvars hblocks hflushed
      | blocked m w plain inbox hm hpc hvars hblocks =>
          exact .blocked m w plain _ hm hpc hvars hblocks

/-- INTERNAL: one step of a host without virtual time is one the virtual-time host can make. -/
theorem hostedBy_step {fails : Bool} {role : Role ν} {t t' : HostState ν} {s : TimedState ν}
    {l : HostLabel ν} (h : HostedBy t s) (ht : (testHost fails .recvfrom role).step t l = some t') :
    ∃ s', (timedHost fails role).Emits timedEvents s (hostEvents l) s' ∧ HostedBy t' s' := by
  obtain ⟨plain, inbox⟩ := t
  have hcases : hostStep fails .recvfrom ⟨plain, inbox⟩ l = some t' := ht
  rcases hostStep_cases hcases with
    ⟨act, plain', inbox', rfl, hplain, hinbox, rfl⟩ | ⟨src, data, rfl, rfl⟩
  · cases h with
    | starting m w plain inbox hm hpc hvars =>
        have hfirst : ThreadStep role.program w (.pipeRead 1000)
            { w with left := 1000, pc := .running } := .firstCmd w 1000 hpc (by norm_num)
        obtain ⟨m', hm', hgrant⟩ := emits_grant hm hfirst
        obtain ⟨s', hs', hready⟩ :=
          emits_ready (w := { w with left := 1000, pc := .running }) inbox hm' rfl
            (by norm_num [ThreadHasBudget]) hvars
        obtain ⟨s'', hs'', hready'⟩ := ready_step hready hplain hinbox
        exact ⟨s'', (hgrant.trans hs').trans hs'', .ready _ _ hready'⟩
    | ready t s hready =>
        obtain ⟨s', hs', hready'⟩ := ready_step hready hplain hinbox
        exact ⟨s', hs', .ready _ _ hready'⟩
  · have harrive : (timedHost fails role).step s (.arrive src data) =
        some { s with inbox := s.inbox ++ [(src, data)] } := rfl
    exact ⟨_, .of_step harrive, hostedBy_arrive h src data⟩

omit [DecidableEq ν] in
theorem HostedBy.inbox_eq {t : HostState ν} {s : TimedState ν} (h : HostedBy t s) :
    s.inbox = t.inbox := by
  cases h with
  | starting => rfl
  | ready t s h => cases h <;> rfl

/-- INTERNAL: **virtual-time hosts can do what hosts without virtual time do.** -/
theorem hostNet_hosted {fails : Bool} {role : ν → Role ν}
    {ls : List (NetLabel ν ν (List UInt8) (HostLabel ν))}
    {t : NetState ν ν (List UInt8) (HostState ν)} (hrun : (hostNet fails role).Run ls t) :
    ∃ ms s, (timedNet fails role).Run ms s ∧ timedHistory ms = hostHistory ls ∧
      s.flight = t.flight ∧ ∀ n, HostedBy (t.node n) (s.node n) :=
  network_simulation (fun n => .starting .init _ _ [] rfl rfl (alike_init (role n)))
    (fun _ _ _ _ _ h hs => hostedBy_step h hs) hrun

/-- **Virtual time does not show at the hosts.**  Whatever runs where, and whether or not a
`recvfrom` may fail: the datagrams that can be sent, arrive, be taken and be lost, in any order,
are the same with the virtual-time programs as without virtual time, and so are those left in
flight and at the sockets.
SOURCE: client_n.c:139-206, server_n.c:125-142, client_n_vt.c:155-189, 211-379, 679-729,
server_n_vt.c:154-188, 219-339, 623-673 -/
theorem hosts_agree (fails : Bool) (role : ν → Role ν) (hs : List (HostHappening ν))
    (flight : ν × ν → List (List UInt8)) (inbox : ν → List (ν × List UInt8)) :
    (∃ ls t, (hostNet fails role).Run ls t ∧ hostHistory ls = hs ∧ t.flight = flight ∧
      ∀ n, (t.node n).inbox = inbox n) ↔
    ∃ ls s, (timedNet fails role).Run ls s ∧ timedHistory ls = hs ∧ s.flight = flight ∧
      ∀ n, (s.node n).inbox = inbox n := by
  constructor
  · rintro ⟨ls, t, hrun, hhist, hflight, hinbox⟩
    obtain ⟨ms, s, hs, hsame, hsflight, hhosted⟩ := hostNet_hosted hrun
    refine ⟨ms, s, hs, hsame.trans hhist, hsflight.trans hflight, fun n => ?_⟩
    rw [(hhosted n).inbox_eq, hinbox n]
  · rintro ⟨ls, s, hrun, hhist, hflight, hinbox⟩
    obtain ⟨ms, t, ht, hsame, htflight, hnode⟩ := timedNet_follows hrun
    refine ⟨ms, t, ht, hsame.trans hhist, htflight.trans hflight, fun n => ?_⟩
    rw [(hnode n).inbox, hinbox n]

end VtRouter.Analysis
