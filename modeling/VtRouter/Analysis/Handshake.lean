import VtRouter.Analysis.CommandLoop
import VtRouter.Interface.Phases

/-!
# The handshake between main and the worker

`Handshake` lists the joint situations of the protocol: where main is, in which phase the
worker is, what the flags say and what is in the queues.  In each of them at most one message
is unread.  A step of either party leads from one situation to another (`handshake_main`,
`handshake_worker`), and since at most one message is unread, the byte streams behave as the
queues (`Interface.carries_main`, `Interface.carries_worker`).  `linked_run` is the result
for whole runs; everything about the two threads rests on it.
-/

set_option autoImplicit false

namespace VtRouter.Analysis

open Library VtRouter.Model VtRouter.Interface

/-! ## The situations -/

/-- What the flag says of a worker that does not owe main a reply: clear while it listens, set
while it is blocked or has died blocked. -/
inductive Quiet : Phase → Bool → Prop
  | listening : Quiet .listening false
  | blocked : Quiet .blocked true
  | failed : Quiet .finished true

/-- The joint situations of main with the budget `adv` in hand, the phase of the worker, and
the channels. -/
inductive Handshake (adv : ℤ) : MainPc → Phase → Channels → Prop
  | asking (p : Phase) (b : Bool) (hq : Quiet p b) :
      Handshake adv .ackAndGetNextCommand p ⟨[], [], b, false⟩
  | testing (p : Phase) (b : Bool) (hq : Quiet p b) :
      Handshake adv .testBlocked p ⟨[], [], b, false⟩
  | granting : Handshake adv .sendBudget .listening ⟨[], [], false, false⟩
  | granted : Handshake adv .waitReply .listening ⟨[adv], [], false, false⟩
  | computing : Handshake adv .waitReply .computing ⟨[], [], false, false⟩
  | announcing : Handshake adv .waitReply .announcing ⟨[], [], true, false⟩
  | gone (b : Bool) : Handshake adv .waitReply .finished ⟨[], [], b, false⟩
  | answered (p : Phase) (b : Bool) (x : ℤ) (hx : x = threadBlocked ∨ 0 ≤ x ∧ x ≤ 50)
      (hq : Quiet p b) : Handshake adv .waitReply p ⟨[], [x], b, false⟩
  | halting (p : Phase) (b : Bool) (hq : Quiet p b) :
      Handshake adv .setStop p ⟨[], [], b, false⟩
  | stopping (p : Phase) (b : Bool) (hq : Quiet p b) :
      Handshake adv .sendExiting p ⟨[], [], b, true⟩
  | exiting (p : Phase) (b : Bool) (hq : Quiet p b) :
      Handshake adv .pthreadJoin p ⟨[threadExiting], [], b, true⟩
  | exited (b : Bool) : Handshake adv .pthreadJoin .finished ⟨[], [], b, true⟩
  | joined (u : List ℤ) (b : Bool) (hu : u = [] ∨ u = [threadExiting]) :
      Handshake adv .joined .finished ⟨u, [], b, true⟩

/-- While main has a budget in hand it is a nonnegative `int`. -/
def BudgetOk (m : Main) : Prop :=
  m.pc = .testBlocked ∨ m.pc = .sendBudget ∨ m.pc = .waitReply →
    0 ≤ m.perRoundAdvance ∧ m.perRoundAdvance < 2 ^ 31

/-- INTERNAL: **at most one message is unread.** -/
theorem Handshake.unread_le {adv : ℤ} {pc : MainPc} {p : Phase} {c : Channels}
    (h : Handshake adv pc p c) : c.toWorker.length + c.toMain.length ≤ 1 := by
  cases h with
  | joined u b hu => rcases hu with rfl | rfl <;> simp
  | _ => simp

/-- INTERNAL: every unread message is an `int`. -/
theorem Handshake.small {m : Main} {p : Phase} {c : Channels}
    (h : Handshake m.perRoundAdvance m.pc p c) (hbudget : BudgetOk m) : c.Small := by
  have hone := h.unread_le
  have hexit : IsInt32 threadExiting := by decide
  have hblocked : IsInt32 threadBlocked := by decide
  refine ⟨⟨by omega, ?_⟩, ⟨by omega, ?_⟩⟩
  · generalize hpc : m.pc = pc at h
    cases h with
    | granted =>
        intro x hx
        rw [List.mem_singleton.mp hx]
        obtain ⟨h0, h31⟩ := hbudget (Or.inr (Or.inr hpc))
        exact ⟨by omega, h31⟩
    | exiting p b hq =>
        intro x hx
        rwa [List.mem_singleton.mp hx]
    | joined u b hu =>
        intro x hx
        rcases hu with rfl | rfl
        · cases hx
        · rwa [List.mem_singleton.mp hx]
    | _ => simp
  · generalize hpc : m.pc = pc at h
    cases h with
    | answered p b x hx hq =>
        intro y hy
        rw [List.mem_singleton.mp hy]
        rcases hx with rfl | ⟨h0, h50⟩
        · exact hblocked
        · exact ⟨by omega, by omega⟩
    | _ => simp

/-! ## Steps -/

/-- INTERNAL: a step of the worker that is local to it leaves the channels alone. -/
theorem channels_local {c c' : Channels} {act : WorkerAct} (hact : IsLocal act)
    (h : c.worker act = some c') : c' = c := by
  cases act with
  | pipeRead msg => cases hact
  | pipeSend msg => cases hact
  | writeIsBlocked isBlocked => cases hact
  | readStop stop => exact (Channels.worker_readStop h).2
  | _ => exact (Option.some.inj h).symm

/-- INTERNAL: a blocked worker may wake up or die, whatever main is doing. -/
theorem Handshake.of_blocked {adv : ℤ} {pc : MainPc} {c : Channels}
    (h : Handshake adv pc .blocked c) {p : Phase} {b : Bool} (hq : Quiet p b) :
    Handshake adv pc p { c with isBlocked := b } := by
  cases h with
  | asking => exact .asking p b hq
  | testing => exact .testing p b hq
  | answered _ _ x hx => exact .answered p b x hx hq
  | halting => exact .halting p b hq
  | stopping => exact .stopping p b hq
  | exiting => exact .exiting p b hq

/-- INTERNAL: the flag of a blocked worker is set. -/
theorem Handshake.isBlocked_of_blocked {adv : ℤ} {pc : MainPc} {c : Channels}
    (h : Handshake adv pc .blocked c) : c.isBlocked = true := by
  cases h with
  | asking _ _ hq | testing _ _ hq | answered _ _ _ _ hq | halting _ _ hq | stopping _ _ hq
  | exiting _ _ hq => cases hq; rfl

/-- **A step of the worker** leads from one situation to another.
SOURCE: utils.c:549-583, 667-834 -/
theorem handshake_worker {adv : ℤ} {pc : MainPc} {p p' : Phase} {c c' : Channels}
    {act : WorkerAct} (h : Handshake adv pc p c) (hp : PhaseStep p act p')
    (hc : c.worker act = some c') : Handshake adv pc p' c' := by
  cases hp with
  | receive msg p' hp' hneg =>
      cases h with
      | granted =>
          obtain ⟨rest, hq, rfl⟩ := Channels.worker_pipeRead hc
          cases hq
          rcases hp' with rfl | rfl
          · exact .computing
          · exact .gone false
      | exiting p b hq =>
          obtain ⟨rest, hmsg, rfl⟩ := Channels.worker_pipeRead hc
          cases hmsg
          rw [hneg (by decide)]
          exact .exited b
      | asking p b hq => cases hc
      | testing p b hq => cases hc
      | granting => cases hc
      | answered p b x hx hq => cases hc
      | halting p b hq => cases hc
      | stopping p b hq => cases hc
  | compute act p' hact hp' =>
      rw [channels_local hact hc]
      cases h with
      | computing =>
          rcases hp' with rfl | rfl
          · exact .computing
          · exact .gone false
      | asking p b hq => cases hq
      | testing p b hq => cases hq
      | answered p b x hx hq => cases hq
      | halting p b hq => cases hq
      | stopping p b hq => cases hq
      | exiting p b hq => cases hq
  | reply msg h0 h50 =>
      cases h with
      | computing =>
          cases hc
          exact .answered .listening false msg (Or.inr ⟨h0, h50⟩) .listening
      | asking p b hq => cases hq
      | testing p b hq => cases hq
      | answered p b x hx hq => cases hq
      | halting p b hq => cases hq
      | stopping p b hq => cases hq
      | exiting p b hq => cases hq
  | block =>
      cases h with
      | computing =>
          cases hc
          exact .announcing
      | asking p b hq => cases hq
      | testing p b hq => cases hq
      | answered p b x hx hq => cases hq
      | halting p b hq => cases hq
      | stopping p b hq => cases hq
      | exiting p b hq => cases hq
  | announce =>
      cases h with
      | announcing =>
          cases hc
          exact .answered .blocked true threadBlocked (Or.inl rfl) .blocked
      | asking p b hq => cases hq
      | testing p b hq => cases hq
      | answered p b x hx hq => cases hq
      | halting p b hq => cases hq
      | stopping p b hq => cases hq
      | exiting p b hq => cases hq
  | poll outcome p' hp' =>
      have hflag := h.isBlocked_of_blocked
      cases hc
      rcases hp' with rfl | rfl
      · exact h
      · have hmove := h.of_blocked Quiet.failed
        rwa [← hflag] at hmove
  | wake =>
      cases hc
      exact h.of_blocked Quiet.listening

/-- **A step of main** leads from one situation to another.
SOURCE: router_app_vt.c:400-461 -/
theorem handshake_main {m m' : Main} {p : Phase} {c c' : Channels} {act : MainAct}
    (h : Handshake m.perRoundAdvance m.pc p c) (hm : MainStep m act m')
    (hc : c.main act = some c') (hjoin : act = .pthreadJoin → p = .finished) :
    Handshake m'.perRoundAdvance m'.pc p c' := by
  cases hm with
  | stop payload ack hpc hack hret =>
      rw [hpc] at h
      cases h with
      | asking p b hq =>
          cases hc
          exact .halting p b hq
  | command payload ack hpc hack hret =>
      rw [hpc] at h
      cases h with
      | asking p b hq =>
          cases hc
          exact .testing p b hq
  | skip hpc =>
      rw [hpc] at h
      cases h with
      | testing p b hq =>
          obtain ⟨-, rfl⟩ := Channels.main_readIsBlocked hc
          exact .asking p b hq
  | test hpc =>
      rw [hpc] at h
      cases h with
      | testing p b hq =>
          obtain ⟨rfl, rfl⟩ := Channels.main_readIsBlocked hc
          cases hq
          exact .granting
  | sendBudget hpc =>
      rw [hpc] at h
      cases h with
      | granting =>
          cases hc
          exact .granted
  | reply msg hpc =>
      rw [hpc] at h
      rw [afterReply_pc]
      cases h with
      | answered p b x hx hq =>
          obtain ⟨rest, hmsg, rfl⟩ := Channels.main_pipeRead hc
          cases hmsg
          exact .asking p b hq
      | granted => cases hc
      | computing => cases hc
      | announcing => cases hc
      | gone b => cases hc
  | setStop hpc =>
      rw [hpc] at h
      cases h with
      | halting p b hq =>
          cases hc
          exact .stopping p b hq
  | sendExiting hpc =>
      rw [hpc] at h
      cases h with
      | stopping p b hq =>
          cases hc
          exact .exiting p b hq
  | pthreadJoin hpc =>
      rw [hpc] at h
      have hp := hjoin rfl
      subst hp
      cases h with
      | exiting p b hq =>
          cases hc
          exact .joined [threadExiting] b (Or.inr rfl)
      | exited b =>
          cases hc
          exact .joined [] b (Or.inl rfl)

/-- INTERNAL: main's budget stays a nonnegative `int`.
SOURCE: router_app_vt.c:193-236, 404-447 -/
theorem budgetOk_step {m m' : Main} {act : MainAct} (h : BudgetOk m) (hm : MainStep m act m') :
    BudgetOk m' := by
  cases hm with
  | command payload ack hpc hack hret =>
      intro _
      exact (ackAndGetNextCommand_range hack).resolve_left hret
  | test hpc =>
      intro _
      exact h (Or.inl hpc)
  | sendBudget hpc =>
      intro _
      exact h (Or.inr (Or.inl hpc))
  | reply msg hpc =>
      intro hpc'
      rw [afterReply_pc] at hpc'
      simp at hpc'
  | stop payload ack hpc hack hret | skip hpc | setStop hpc | sendExiting hpc | pthreadJoin hpc =>
      intro hpc'; simp at hpc'

/-! ## Runs -/

/-- What holds of a run and the state it ends in, with the queues its byte streams stand for. -/
structure Linked (ls : List Label) (s : State) (c : Channels) : Prop where
  carries : Carries s.shared c
  delivered : Delivered ls c
  handshake : Handshake s.main.perRoundAdvance s.main.pc (phase s.worker.pc) c
  budget : BudgetOk s.main
  left : LeftOk s.worker

/-- INTERNAL: the start. -/
theorem linked_init : Linked [] State.init ⟨[], [], false, false⟩ where
  carries := ⟨rfl, rfl, rfl, rfl⟩
  delivered := ⟨rfl, rfl⟩
  handshake := .asking .listening false .listening
  budget := by
    intro hpc
    simp [State.init, Main.init] at hpc
  left := by
    intro hphase
    cases hphase

/-- INTERNAL: **one step of the system.** -/
theorem linked_step {cfg : Config} {ls : List Label} {s s' : State} {c : Channels} {l : Label}
    (h : Linked ls s c) (hs : step cfg s l = some s') :
    ∃ c', c.step l = some c' ∧ Linked (ls ++ [l]) s' c' := by
  obtain ⟨hcarries, hdelivered, hhand, hbudget, hleft⟩ := h
  have hsmall := hhand.small hbudget
  rcases step_cases hs with ⟨act, m, sh, rfl, hm, hsh, rfl⟩ | ⟨act, w, sh, rfl, hw, hsh, rfl⟩ |
    ⟨i, frame, rfl, hi, rfl⟩
  · obtain ⟨c', hc', hcarries'⟩ := carries_main hcarries hsmall hsh
    have hjoin : act = .pthreadJoin → phase s.worker.pc = .finished := by
      rintro rfl
      simp only [Shared.main] at hsh
      split at hsh
      · rename_i hpc
        rw [hpc]
        rfl
      · cases hsh
    exact ⟨c', hc', hcarries', delivered_main hdelivered hc',
      handshake_main hhand hm hc' hjoin, budgetOk_step hbudget hm, hleft⟩
  · obtain ⟨c', hc', hcarries'⟩ := carries_worker hcarries hsmall hsh
    have hp := phaseStep_of_workerStep hleft hw
    have hread : ∀ msg, act = .pipeRead msg → msg < 2 ^ 31 := by
      rintro msg rfl
      obtain ⟨rest, hq, -⟩ := Channels.worker_pipeRead hc'
      exact (hsmall.toWorker.2 msg (by simp [hq])).2
    exact ⟨c', hc', hcarries', delivered_worker hdelivered hc', handshake_worker hhand hp hc',
      hbudget, leftOk_step hleft hread hw⟩
  · exact ⟨c, rfl, carries_of_queue hcarries _, delivered_arrive hdelivered i frame, hhand,
      hbudget, hleft⟩

/-- **The handshake holds along every run.** -/
theorem linked_run {cfg : Config} {ls : List Label} {s : State}
    (hrun : (vtRouter cfg).Run ls s) : ∃ c, Linked ls s c := by
  refine (vtRouter cfg).run_invariant (fun ls s => ∃ c, Linked ls s c) ⟨_, linked_init⟩ ?_ ls s hrun
  rintro ls s l s' - ⟨c, h⟩ hs
  obtain ⟨c', -, h'⟩ := linked_step h hs
  exact ⟨c', h'⟩

/-- INTERNAL: what a message of the worker says of the control point that sent it.
SOURCE: utils.c:574, 792 -/
theorem workerStep_pipeSend {cfg : Config} {w w' : Worker} {x : ℤ} (hleft : LeftOk w)
    (h : WorkerStep cfg w (.pipeSend x) w') :
    (x = threadBlocked ↔ w.pc = .announce) ∧ (x ≠ threadBlocked → 0 ≤ x) := by
  cases h with
  | reply site hpc =>
      unfold LeftOk at hleft
      rw [hpc] at hleft ⊢
      simp only at hleft
      rw [wrap32_overrun hleft.1 hleft.2]
      unfold threadBlocked
      refine ⟨⟨fun h => by omega, nofun⟩, fun _ => by omega⟩
  | announce hpc => exact ⟨⟨fun _ => hpc, fun _ => rfl⟩, fun h => absurd rfl h⟩

/-- **One message at a time.**  In every run, whatever the kernel answers, the network delivers
and the missing return of `update_stub` yields: the two pipes together hold the text of at most
one unread message, and every number read is the number sent at the same place of the
sequence.  The worker sends `THREAD_BLOCKED` exactly where it announces that it blocks, all its
other messages are nonnegative, and main takes a reply for `THREAD_BLOCKED` exactly when it is.
SOURCE: utils.c:42-70, 549-583, 667-834; router_app_vt.c:400-447 -/
theorem one_message_in_flight (cfg : Config) (ls : List Label) (s : State)
    (hrun : (vtRouter cfg).Run ls s) :
    (∃ c : Channels, c.toWorker.length + c.toMain.length ≤ 1 ∧ Carries s.shared c ∧
      Delivered ls c) ∧
    (∀ pre x post t, ls = pre ++ .worker (.pipeSend x) :: post → (vtRouter cfg).Run pre t →
      (x = threadBlocked ↔ t.worker.pc = .announce) ∧ (x ≠ threadBlocked → 0 ≤ x)) ∧
    ∀ x ∈ mainRead ls, (classify x = .blocked ↔ x = threadBlocked) ∧
      (x ≠ threadBlocked → 0 ≤ x ∧ classify x = .returned) := by
  obtain ⟨c, hlinked⟩ := linked_run hrun
  have hsent : ∀ pre x post t, ls = pre ++ .worker (.pipeSend x) :: post →
      (vtRouter cfg).Run pre t →
      (x = threadBlocked ↔ t.worker.pc = .announce) ∧ (x ≠ threadBlocked → 0 ≤ x) := by
    rintro pre x post t rfl ht
    obtain ⟨ct, hct⟩ := linked_run ht
    obtain ⟨t', hstep, -⟩ := hrun.step_at ht
    have hcases : step cfg t (.worker (.pipeSend x)) = some t' := hstep
    rcases step_cases hcases with ⟨act, m, sh, hl, -⟩ | ⟨act, w, sh, hl, hw, -⟩ | ⟨i, f, hl, -⟩
    · cases hl
    · cases hl
      exact workerStep_pipeSend hct.left hw
    · cases hl
  refine ⟨⟨c, hlinked.handshake.unread_le, hlinked.carries, hlinked.delivered⟩, hsent, ?_⟩
  intro x hx
  have hmem : x ∈ workerSent ls := by
    rw [hlinked.delivered.toMain]
    exact List.mem_append_left _ hx
  -- The reply was sent somewhere in the run.
  obtain ⟨l, hl, hval⟩ := List.mem_filterMap.mp hmem
  have hlabel : l = .worker (.pipeSend x) := by
    split at hval
    · cases hval
      rfl
    · cases hval
  subst hlabel
  obtain ⟨pre, post, rfl⟩ := List.append_of_mem hl
  obtain ⟨t, ht, -⟩ := hrun.prefix
  have hnonneg := (hsent pre x post t rfl ht).2
  unfold classify
  by_cases hb : x = threadBlocked
  · simp [hb]
  · simp [hb, hnonneg hb]

/-- A router with one interface and no routes. -/
def oneIntf : Config := ⟨[cstr "s1-eth1"], []⟩

/-- A first round of 50 microseconds, which a poll without a frame uses up. -/
def firstRound : List Label :=
  [.main (.ackAndGetNextCommand (some (bytes "|1,50000" ++ [0])) 0 50),
    .main (.readIsBlocked false), .main (.pipeSend 50), .worker (.pipeRead 50),
    .worker (.readStop false), .worker (.poll (.ready [false])), .worker (.charge 50),
    .worker (.pipeSend 0), .main (.pipeRead 0)]

/-- A round of 100 microseconds in which the worker finds no frame and blocks. -/
def blockingRound : List Label :=
  [.main (.ackAndGetNextCommand (some (bytes "|1,100000" ++ [0])) 0 100),
    .main (.readIsBlocked false), .main (.pipeSend 100), .worker (.pipeRead 100),
    .worker (.readStop false), .worker (.poll (.ready [false])), .worker (.charge 50),
    .worker (.fallOff 0), .worker (.readStop false), .worker .tau, .worker .tau,
    .worker (.writeIsBlocked true), .worker (.pipeSend threadBlocked),
    .main (.pipeRead threadBlocked)]

/-- The messages of a first round. -/
theorem one_message_in_flight_firstRound :
    ∃ s, (vtRouter oneIntf).Run firstRound s ∧
      ∀ x ∈ mainRead firstRound, classify x = .blocked ↔ x = threadBlocked := by
  have hsome : ((vtRouter oneIntf).exec State.init firstRound).isSome := by decide +kernel
  obtain ⟨s, hs⟩ := Option.isSome_iff_exists.mp hsome
  obtain ⟨-, -, h⟩ := one_message_in_flight oneIntf firstRound s hs
  exact ⟨s, hs, fun x hx => (h x hx).1⟩

end VtRouter.Analysis
