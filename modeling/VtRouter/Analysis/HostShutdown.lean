import VtRouter.Analysis.Shutdown
import VtRouter.Analysis.TimedProgram

/-!
# Termination of the test programs

The exit order ends a test program at once or not at all.  A thread that listens takes it for
its last message, and a thread that is blocked first comes back from its call, resets its flag
and then reads it: three steps at most, none of which sends a datagram.  What can keep the
thread from making them is a `recvfrom` with nothing to receive, since neither the stop flag nor
the pipe is heard there (`stop_ends_program`).
-/

set_option autoImplicit false

namespace VtRouter.Analysis

open Library VtRouter.Model VtRouter.Interface

variable {α : Type} [DecidableEq α]

/-! ## Where a thread blocks -/

/-- The program is at a `recvfrom`. -/
def receives : TestVars α → Bool
  | .client c => c.pc = .recvfrom
  | .server v => v.pc = .recvfrom

/-- INTERNAL: a thread is in a call that may wait only where its program may.
SOURCE: client_n_vt.c:256-271, 320-332, server_n_vt.c:297-308 -/
theorem blocks_run {fails : Bool} {role : Role α} {ls : List (TimedLabel α)}
    {s : TimedState α} (hrun : (timedHost fails role).Run ls s) :
    s.thread.pc = .announce ∨ s.thread.pc = .blocked → s.thread.vars.blocks = true := by
  refine (timedHost fails role).run_invariant
    (fun _ s => s.thread.pc = .announce ∨ s.thread.pc = .blocked → s.thread.vars.blocks = true)
    ?_ ?_ ls s hrun
  · rintro (hpc | hpc) <;> cases hpc
  · rintro ls s l s' - h hs
    have hcases : timedStep fails role.program s l = some s' := hs
    rcases timedStep_cases hcases with ⟨act, m, p, rfl, hm, hp, rfl⟩ |
      ⟨act, w, p, inbox, rfl, hw, hp, -, rfl⟩ | ⟨src, data, rfl, rfl⟩
    · exact h
    · cases hw with
      | needToBlock hpc hblocks => exact fun _ => hblocks
      | announce hpc => exact fun _ => h (Or.inl hpc)
      | op act vars hpc hhead hblocks hstep =>
          obtain ⟨hphase, -⟩ := threadPhase_behind role.program act
          rintro (hpc' | hpc') <;>
          · have hbehind : role.program.behind act = _ := hpc'
            rw [hbehind] at hphase
            cases hphase
      | _ => rintro (hpc' | hpc') <;> cases hpc'
    · exact h

omit [DecidableEq α] in
/-- INTERNAL: a `recvfrom` may wait. -/
theorem blocks_of_receives {vars : TestVars α} (h : receives vars = true) :
    vars.blocks = true := by
  cases vars with
  | client c => exact (Bool.or_eq_true _ _).mpr (Or.inr h)
  | server v => exact h

/-- INTERNAL: a step of a program that may wait is the wait: a sleep, or a `recvfrom`. -/
theorem wait_of_blocks {vars vars' : TestVars α} {act : TestAct α} (hblocks : vars.blocks = true)
    (hstep : vars.step .flushBuffer act = some vars') :
    receives vars = false ∧ act = .usleep ∨
      receives vars = true ∧ ∃ datagram, act = .recvfrom datagram := by
  cases vars with
  | client c =>
      obtain ⟨c', hc, rfl⟩ := Option.map_eq_some_iff.mp hstep
      cases clientNStep_of_clientN hc with
      | usleep hpc => exact Or.inl ⟨by simp [receives, hpc], rfl⟩
      | recvfromError hpc => exact Or.inr ⟨by simp [receives, hpc], _, rfl⟩
      | recvfrom src data hpc => exact Or.inr ⟨by simp [receives, hpc], _, rfl⟩
      | loop hpc | flushRequest hpc | sendto hpc | flushReply hpc | computation hpc =>
          simp [TestVars.blocks, hpc] at hblocks
  | server v =>
      obtain ⟨v', hv, rfl⟩ := Option.map_eq_some_iff.mp hstep
      cases serverNStep_of_serverN hv with
      | recvfromError hpc => exact Or.inr ⟨by simp [receives, hpc], _, rfl⟩
      | recvfrom src data hpc => exact Or.inr ⟨by simp [receives, hpc], _, rfl⟩
      | loop hpc | flushBuffer hpc | fillBuffer hpc | sendto hpc =>
          simp [TestVars.blocks, hpc] at hblocks

/-- INTERNAL: the wait of a program with a datagram at its socket, or of one that sleeps, is
over. -/
theorem step_of_blocks {vars : TestVars α} {inbox : List (α × List UInt8)}
    (fails : Bool) (hblocks : vars.blocks = true) (hawake : ¬(receives vars = true ∧ inbox = [])) :
    ∃ act vars' inbox', act ≠ .recvfrom none ∧ vars.step .flushBuffer act = some vars' ∧
      inboxAfter fails inbox act = some inbox' := by
  by_cases hreceives : receives vars = true
  · cases inbox with
    | nil => exact absurd ⟨hreceives, rfl⟩ hawake
    | cons d rest =>
        obtain ⟨src, data⟩ := d
        have hinbox : inboxAfter fails ((src, data) :: rest) (.recvfrom (some (src, data))) =
            some rest := if_pos rfl
        cases vars with
        | client c =>
            have hpc : c.pc = .recvfrom := of_decide_eq_true hreceives
            exact ⟨.recvfrom (some (src, data)), _, rest, by simp,
              step_of_clientNStep (.recvfrom c src data hpc), hinbox⟩
        | server v =>
            have hpc : v.pc = .recvfrom := of_decide_eq_true hreceives
            exact ⟨.recvfrom (some (src, data)), _, rest, by simp,
              step_of_serverNStep (.recvfrom v src data hpc), hinbox⟩
  · cases vars with
    | client c =>
        have hpc : c.pc = .usleep := by
          simp only [TestVars.blocks, Bool.or_eq_true, decide_eq_true_eq] at hblocks
          simp only [receives, decide_eq_true_eq] at hreceives
          exact hblocks.resolve_right hreceives
        exact ⟨.usleep, _, inbox, by simp, step_of_clientNStep (.usleep c hpc), rfl⟩
    | server v => exact absurd hblocks hreceives

/-! ## Behind the exit order -/

/-- Main has sent the exit order. -/
def Ordered (m : Main) : Prop := m.pc = .pthreadJoin ∨ m.pc = .joined

/-- The steps a thread still makes behind the exit order. -/
def exitLeft : ThreadPc → ℕ
  | .blocked => 3
  | .resume => 2
  | .firstCmd | .nextCmd | .resumeCmd => 1
  | _ => 0

/-- The thread waits in a `recvfrom` for a datagram that is not there. -/
def Starved (s : TimedState α) : Prop :=
  s.thread.pc = .blocked ∧ receives s.thread.vars = true ∧ s.inbox = []

/-- Some step of the thread is enabled that needs neither a further datagram nor a failing
`recvfrom`. -/
def MovesAlone (fails : Bool) (role : Role α) (s : TimedState α) : Prop :=
  ∃ act, act ≠ .op (.recvfrom none) ∧ ∃ s', (timedHost fails role).step s (.thread act) = some s'

omit [DecidableEq α] in
/-- INTERNAL: behind the exit order a thread listens, with the order in its pipe, is blocked, or
is gone; and there is nothing but the order to read. -/
theorem TimedLinked.of_ordered {ls : List (TimedLabel α)} {s : TimedState α} {c : Channels}
    (h : TimedLinked ls s c) (hord : Ordered s.main) :
    (threadPhase s.thread.pc = .listening ∧ c.toWorker = [threadExiting] ∨
      threadPhase s.thread.pc = .blocked ∨ threadPhase s.thread.pc = .finished) ∧
    ∀ x ∈ c.toWorker, x = threadExiting := by
  have hhand := h.handshake
  generalize threadPhase s.thread.pc = p at hhand
  rcases hord with hpc | hpc <;> rw [hpc] at hhand
  · cases hhand with
    | exited b => exact ⟨Or.inr (Or.inr rfl), nofun⟩
    | exiting p b hq =>
        refine ⟨?_, fun x hx => List.mem_singleton.mp hx⟩
        cases hq with
        | listening => exact Or.inl ⟨rfl, rfl⟩
        | blocked => exact Or.inr (Or.inl rfl)
        | failed => exact Or.inr (Or.inr rfl)
  · cases hhand with
    | joined u b hu =>
        refine ⟨Or.inr (Or.inr rfl), ?_⟩
        rcases hu with rfl | rfl
        · exact nofun
        · exact fun x hx => List.mem_singleton.mp hx

/-- INTERNAL: what a thread does that is neither computing nor about to announce, and reads
nothing but the exit order.
SOURCE: client_n_vt.c:263-271, 325-332, server_n_vt.c:302-308 -/
theorem threadStep_ordered {P : TestProgram} {w w' : Thread α} {act : ThreadAct α}
    (h : ThreadStep P w act w')
    (hphase : threadPhase w.pc ≠ .computing ∧ threadPhase w.pc ≠ .announcing)
    (hread : ∀ msg, act = .pipeRead msg → msg = threadExiting) :
    exitLeft w'.pc + 1 ≤ exitLeft w.pc ∧ w'.pc ≠ .blocked ∧
      ∀ a, act = .op a → w.pc = .blocked ∧ ∃ vars, w.vars.step .flushBuffer a = some vars := by
  have hneg : ¬(0 : ℤ) ≤ threadExiting := by decide
  cases h with
  | firstCmdExit msg hpc hmsg | nextCmdExit msg hpc hmsg | resumeCmdExit msg hpc hmsg =>
      rw [hpc]
      exact ⟨le_refl _, nofun, nofun⟩
  | firstCmd msg hpc hmsg =>
      rw [hread msg rfl] at hmsg
      exact absurd hmsg hneg
  | nextCmd msg hpc hmsg | resumeCmd msg hpc hmsg =>
      rw [hread msg rfl] at hmsg
      exact absurd (le_of_lt hmsg) hneg
  | call act vars hpc hstep =>
      refine ⟨by rw [hpc]; exact le_refl _, nofun, ?_⟩
      rintro a heq
      cases heq
      exact ⟨hpc, vars, hstep⟩
  | resume hpc =>
      rw [hpc]
      exact ⟨le_refl _, nofun, nofun⟩
  | announce hpc =>
      rw [hpc] at hphase
      exact absurd rfl hphase.2
  | headExit hpc _ | head _ hpc _ _ | needToBlock hpc _ | op _ _ hpc _ _ _ | unregistered _ hpc _
  | chargeOver _ _ hpc _ _ | charge _ _ hpc _ _ | reply hpc | fallOffExit _ hpc _
  | fallOff _ hpc _ | testStopExit hpc | testStop hpc | resumeStopExit hpc | resumeStop hpc =>
      rw [hpc] at hphase
      exact absurd rfl hphase.1

/-- INTERNAL: **one step behind the exit order.**  Main has nothing more to say, a step of the
thread is one step less, a step of its program is the wait it was in, and whatever happened, the
thread does not starve afterwards.
SOURCE: client_n_vt.c:679-729, server_n_vt.c:623-673 -/
theorem ordered_step {fails : Bool} {role : Role α} {ls : List (TimedLabel α)}
    {s s' : TimedState α} {l : TimedLabel α} (hrun : (timedHost fails role).Run ls s)
    (hord : Ordered s.main) (hs : (timedHost fails role).step s l = some s') :
    Ordered s'.main ∧
      exitLeft s'.thread.pc + (threadStepOf l).length ≤ exitLeft s.thread.pc ∧
      (∀ act, l = .thread (.op act) → act = .usleep ∨ ∃ datagram, act = .recvfrom datagram) ∧
      ¬Starved s' := by
  obtain ⟨c, hlinked⟩ := timedLinked_run hrun
  obtain ⟨hphases, hunread⟩ := hlinked.of_ordered hord
  have hcases : timedStep fails role.program s l = some s' := hs
  obtain ⟨c', hc', -⟩ := timedLinked_step (costsFifty_program role) hlinked hcases
  rcases timedStep_cases hcases with ⟨act, m, p, rfl, hm, hp, rfl⟩ |
    ⟨act, w, p, inbox, rfl, hw, hp, -, rfl⟩ | ⟨src, data, rfl, rfl⟩
  · cases hm with
    | pthreadJoin hpc =>
        simp only [Pipes.main] at hp
        split at hp
        · rename_i hfin
          refine ⟨Or.inr rfl, le_refl _, by simp, ?_⟩
          rintro ⟨hblocked, -⟩
          have hpc' : s.thread.pc = .blocked := hblocked
          rw [hpc'] at hfin
          cases hfin
        · cases hp
    | _ => simp_all [Ordered]
  · have hphase :
        threadPhase s.thread.pc ≠ .computing ∧ threadPhase s.thread.pc ≠ .announcing := by
      rcases hphases with ⟨hphase, -⟩ | hphase | hphase <;> simp [hphase]
    have hread : ∀ msg, act = .pipeRead msg → msg = threadExiting := by
      rintro msg rfl
      obtain ⟨rest, hq, -⟩ := Channels.worker_pipeRead hc'
      exact hunread msg (by rw [hq]; exact List.mem_cons_self)
    obtain ⟨hless, hawake, hop⟩ := threadStep_ordered hw hphase hread
    refine ⟨hord, hless, ?_, fun hstarved => hawake hstarved.1⟩
    intro a heq
    cases heq
    obtain ⟨hblocked, vars, hstep⟩ := hop a rfl
    rcases wait_of_blocks (blocks_run hrun (Or.inr hblocked)) hstep with ⟨-, hsleep⟩ | ⟨-, hrecv⟩
    · exact Or.inl hsleep
    · exact Or.inr hrecv
  · refine ⟨hord, le_refl _, by simp, ?_⟩
    rintro ⟨-, -, hinbox⟩
    simp at hinbox

/-- INTERNAL: the exit order is a step of main from its shutdown.
SOURCE: client_n_vt.c:682-688, server_n_vt.c:625-631 -/
theorem ordered_of_pipeSend {fails : Bool} {role : Role α} {ls : List (TimedLabel α)}
    {s s' : TimedState α} (hrun : (timedHost fails role).Run ls s)
    (hs : (timedHost fails role).step s (.main (.pipeSend threadExiting)) = some s') :
    Ordered s'.main ∧ s'.thread = s.thread ∧ s'.inbox = s.inbox := by
  have hcases : timedStep fails role.program s (.main (.pipeSend threadExiting)) = some s' := hs
  rcases timedStep_cases hcases with ⟨act, m, p, hl, hm, hp, rfl⟩ | ⟨act, w, p, inbox, hl, -⟩ |
    ⟨src, data, hl, -⟩
  · cases hl
    refine ⟨?_, rfl, rfl⟩
    -- A budget is never the exit order, which is negative.
    obtain ⟨c, hlinked⟩ := timedLinked_run hrun
    have hpos := hlinked.budget
    generalize hmsg : threadExiting = msg at hm
    cases hm with
    | sendBudget hpc =>
        obtain ⟨h0, -⟩ := hpos (Or.inr (Or.inl hpc))
        rw [← hmsg] at h0
        exact absurd h0 (by decide)
    | sendExiting hpc => exact Or.inl rfl
  · cases hl
  · cases hl

/-- INTERNAL: a starving thread is not gone, and has no step of its own. -/
theorem not_movesAlone_of_starved {fails : Bool} {role : Role α} {s : TimedState α}
    (h : Starved s) : ¬(s.thread.pc = .finished ∨ MovesAlone fails role s) := by
  obtain ⟨hblocked, hreceives, hinbox⟩ := h
  rintro (hfin | ⟨act, hown, s', hs⟩)
  · rw [hblocked] at hfin
    cases hfin
  · have hcases : timedStep fails role.program s (.thread act) = some s' := hs
    rcases timedStep_cases hcases with ⟨a, m, p, hl, -⟩ |
      ⟨a, w, p, inbox, hl, hw, -, hin, -⟩ | ⟨src, data, hl, -⟩
    · cases hl
    · cases hl
      cases hw with
      | call a vars hpc hstep =>
          rcases wait_of_blocks (blocks_of_receives hreceives) hstep with ⟨hsleeps, -⟩ |
            ⟨-, datagram, rfl⟩
          · rw [hreceives] at hsleeps
            cases hsleeps
          · cases datagram with
            | none => exact hown rfl
            | some d =>
                have htakes : inboxAfter fails s.inbox (.recvfrom (some d)) = some inbox := hin
                have htaken := inboxAfter_recvfrom htakes
                rw [hinbox] at htaken
                cases htaken
      | _ => simp_all
    · cases hl

/-- INTERNAL: behind the exit order every other thread is gone or goes on by itself. -/
theorem movesAlone_of_ordered {fails : Bool} {role : Role α} {ls : List (TimedLabel α)}
    {s : TimedState α} (hrun : (timedHost fails role).Run ls s) (hord : Ordered s.main)
    (hawake : ¬Starved s) : s.thread.pc = .finished ∨ MovesAlone fails role s := by
  obtain ⟨c, hlinked⟩ := timedLinked_run hrun
  have hmoves : HostCanMove fails role s → MovesAlone fails role s := by
    rintro ⟨act, hown, hstep⟩
    exact ⟨act, hown none, hstep⟩
  rcases (hlinked.of_ordered hord).1 with ⟨hphase, hunread⟩ | hphase | hphase
  · exact Or.inr (hmoves (hlinked.hostCanMove_of_unread hphase hunread))
  · right
    by_cases hpc : s.thread.pc = .blocked
    · obtain ⟨act, vars, inbox, hact, hstep, hinbox⟩ := step_of_blocks fails
        (blocks_run hrun (Or.inr hpc)) fun h => hawake ⟨hpc, h⟩
      have hcall : testThread role.program s.thread (.op act) = some _ :=
        testThread_of_threadStep (.call s.thread act vars hpc hstep)
      refine ⟨.op act, fun heq => hact (ThreadAct.op.inj heq),
        { s with thread := { s.thread with vars := vars, pc := .resume }, inbox := inbox }, ?_⟩
      show timedStep fails role.program s (.thread (.op act)) = _
      simp only [timedStep, hcall, Pipes.thread, threadInbox, hinbox]
    · have hresume : s.thread.pc = .resume := by
        generalize s.thread.pc = pc at hphase hpc
        cases pc with
        | blocked => exact absurd rfl hpc
        | resume => rfl
        | _ => cases hphase
      exact hmoves (hostCanMove_of_step (.resume s.thread hresume) rfl (by simp))
  · exact Or.inl (threadPc_of_finished hphase)

/-- **When a stop ends a test program.**  Main has sent the exit order in state `t` of a run, and
`mid` has happened since, whatever the network did and whether or not a `recvfrom` may fail.  Then
the thread has made three steps at most, and of its program only the sleep or the `recvfrom` it
was in, so nothing has been sent; it is gone, or has a step to make without a further datagram,
unless it starves in a `recvfrom`; and it starves only if it did so in `t` and nothing has
happened since.
SOURCE: client_n_vt.c:252-376, 679-729, server_n_vt.c:275-331, 623-673 -/
theorem stop_ends_program (fails : Bool) (role : Role α) (pre mid : List (TimedLabel α))
    (t s : TimedState α) (ht : (timedHost fails role).Run pre t)
    (hrun : (timedHost fails role).Run (pre ++ .main (.pipeSend threadExiting) :: mid) s) :
    (mid.flatMap threadStepOf).length ≤ 3 ∧
      (∀ act, .thread (.op act) ∈ mid → act = .usleep ∨ ∃ datagram, act = .recvfrom datagram) ∧
      (s.thread.pc = .finished ∨ MovesAlone fails role s ↔ ¬Starved s) ∧
      (Starved s ↔ Starved t ∧ mid = []) := by
  obtain ⟨u, hstep, hu, hmid⟩ := hrun.split_at ht
  obtain ⟨hordu, hthread, hinbox⟩ := ordered_of_pipeSend ht hstep
  have hstarved : Starved u ↔ Starved t := by
    unfold Starved
    rw [hthread, hinbox]
  obtain ⟨hord, hless, hwaits, hstuck⟩ := (timedHost fails role).exec_invariant
    (fun mid v => Ordered v.main ∧
      exitLeft v.thread.pc + (mid.flatMap threadStepOf).length ≤ exitLeft u.thread.pc ∧
      (∀ act, .thread (.op act) ∈ mid → act = .usleep ∨ ∃ datagram, act = .recvfrom datagram) ∧
      (Starved v ↔ Starved u ∧ mid = []))
    ⟨hordu, le_refl _, nofun, by simp⟩
    (by
      rintro ls v l v' hv ⟨hord, hless, hwaits, -⟩ hs
      obtain ⟨hord', hless', hwait, hfed⟩ :=
        ordered_step ((timedHost fails role).exec_trans hu hv) hord hs
      refine ⟨hord', ?_, ?_, ?_⟩
      · rw [List.flatMap_append, List.flatMap_singleton, List.length_append]
        omega
      · intro act hmem
        rcases List.mem_append.mp hmem with hmem | hmem
        · exact hwaits act hmem
        · exact hwait act (List.mem_singleton.mp hmem).symm
      · simp [hfed])
    mid s hmid
  have hthree : ∀ pc, exitLeft pc ≤ 3 := by
    intro pc
    cases pc <;> simp [exitLeft]
  refine ⟨(Nat.le_add_left _ _).trans (hless.trans (hthree _)), hwaits, ⟨?_, ?_⟩, ?_⟩
  · exact fun h hstarves => not_movesAlone_of_starved hstarves h
  · exact movesAlone_of_ordered hrun hord
  · rw [hstuck, hstarved]

/-- A client that is stopped in its initial sleep. -/
def stoppedSleep : List (TimedLabel ℕ) :=
  firstSleep.take 7 ++
    [.main (.ackAndGetNextCommand (some (bytes "STOP" ++ [0])) 0 (-1)), .main .writeStop]

/-- It ends with the three steps. -/
theorem stop_ends_program_stoppedSleep :
    ∃ s, (timedHost true (.client 3)).Run
        (stoppedSleep ++ [.main (.pipeSend threadExiting), .thread (.op .usleep),
          .thread (.writeIsBlocked false), .thread (.pipeRead threadExiting)]) s ∧
      (s.thread.pc = .finished ∨ MovesAlone true (.client 3) s ↔ ¬Starved s) := by
  have hpre : ((timedHost true (.client 3)).exec (timedHost true (.client 3)).init
      stoppedSleep).isSome := by decide +kernel
  have hall : ((timedHost true (.client 3)).exec (timedHost true (.client 3)).init
      (stoppedSleep ++ [.main (.pipeSend threadExiting), .thread (.op .usleep),
        .thread (.writeIsBlocked false), .thread (.pipeRead threadExiting)])).isSome := by
    decide +kernel
  obtain ⟨t, ht⟩ := Option.isSome_iff_exists.mp hpre
  obtain ⟨s, hs⟩ := Option.isSome_iff_exists.mp hall
  obtain ⟨-, -, hends, -⟩ := stop_ends_program true (.client 3) stoppedSleep
    [.thread (.op .usleep), .thread (.writeIsBlocked false), .thread (.pipeRead threadExiting)]
    t s ht hs
  exact ⟨s, hs, hends⟩

end VtRouter.Analysis
