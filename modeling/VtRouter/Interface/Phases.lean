import VtRouter.Interface.Channels

/-!
# The worker as main sees it

The control points of the worker fall into five phases (`phase`), and a step of the worker
changes the phase in one of seven ways (`PhaseStep`).  All the protocol depends on is the
phase, so the protocol is proved over phases; `phaseStep_of_workerStep` is the refinement.

The one number the worker makes up itself is its reply, the overrun of the budget.
`LeftOk` bounds the budget left at each control point, and with it the reply.
-/

set_option autoImplicit false

namespace VtRouter.Interface

open Library VtRouter.Model

/-- Waiting for a number from main, computing on a budget, about to announce that it blocks,
blocked in its poll, or gone. -/
inductive Phase
  | listening
  | computing
  | announcing
  | blocked
  | finished
  deriving DecidableEq

/-- The phase of a control point.  The worker is blocked until it has reset the flag. -/
def phase : Pc → Phase
  | .firstCmd | .nextCmd _ | .resumeCmd => .listening
  | .announce => .announcing
  | .blockingPoll | .resume => .blocked
  | .finished => .finished
  | _ => .computing

/-- The step touches neither a pipe nor a flag that main reads. -/
def IsLocal : WorkerAct → Prop
  | .pipeRead _ | .pipeSend _ | .writeIsBlocked _ => False
  | _ => True

/-- What a step of the worker does to its phase. -/
inductive PhaseStep : Phase → WorkerAct → Phase → Prop
  | receive (msg : ℤ) (p : Phase) (hp : p = .computing ∨ p = .finished)
      (hneg : msg < 0 → p = .finished) : PhaseStep .listening (.pipeRead msg) p
  | compute (act : WorkerAct) (p : Phase) (hact : IsLocal act)
      (hp : p = .computing ∨ p = .finished) : PhaseStep .computing act p
  | reply (msg : ℤ) (h0 : 0 ≤ msg) (h50 : msg ≤ 50) :
      PhaseStep .computing (.pipeSend msg) .listening
  | block : PhaseStep .computing (.writeIsBlocked true) .announcing
  | announce : PhaseStep .announcing (.pipeSend threadBlocked) .blocked
  | poll (outcome : PollOutcome) (p : Phase) (hp : p = .blocked ∨ p = .finished) :
      PhaseStep .blocked (.poll outcome) p
  | wake : PhaseStep .blocked (.writeIsBlocked false) .listening

/-- The budget left at a control point is that of an `int` that `update_stub` has not yet
taken below zero. -/
def LeftOk (w : Worker) : Prop :=
  match w.pc with
  | .reply _ => -50 ≤ w.left ∧ w.left ≤ 0
  | .fallOff _ => 0 < w.left ∧ w.left < 2 ^ 31
  | pc => phase pc = .computing → 0 ≤ w.left ∧ w.left < 2 ^ 31

/-- INTERNAL: a deduction from a budget in range does not wrap.
SOURCE: utils.c:566-567 -/
theorem wrap32_deduct {left : ℤ} (h0 : 0 ≤ left) (h : left < 2 ^ 31) :
    wrap32 (left - 50) = left - 50 := by
  apply wrap32_of_isInt32
  unfold IsInt32
  norm_num at *
  omega

/-- INTERNAL: the reply for an overrun in range is the overrun.
SOURCE: utils.c:574 -/
theorem wrap32_overrun {left : ℤ} (h0 : -50 ≤ left) (h : left ≤ 0) :
    wrap32 (-1 * left) = -left := by
  have hneg : -1 * left = -left := by omega
  rw [hneg]
  apply wrap32_of_isInt32
  unfold IsInt32
  norm_num at *
  omega

/-- INTERNAL: the bound that `LeftOk` gives while the worker computes. -/
theorem LeftOk.range {w : Worker} (h : LeftOk w) (hphase : phase w.pc = .computing)
    (hreply : ∀ site, w.pc ≠ .reply site) : 0 ≤ w.left ∧ w.left < 2 ^ 31 := by
  unfold LeftOk at h
  split at h
  · rename_i site hpc
    exact absurd hpc (hreply site)
  · exact ⟨le_of_lt h.1, h.2⟩
  · exact h hphase

/-- INTERNAL: a worker with a budget in range that is neither over nor behind a deduction. -/
theorem leftOk_of_range {w : Worker} (h : 0 ≤ w.left ∧ w.left < 2 ^ 31)
    (hreply : ∀ site, w.pc ≠ .reply site) (hfall : ∀ site, w.pc ≠ .fallOff site) :
    LeftOk w := by
  unfold LeftOk
  split
  · rename_i site hpc
    exact absurd hpc (hreply site)
  · rename_i site hpc
    exact absurd hpc (hfall site)
  · exact fun _ => h

/-- INTERNAL: behind `update_stub` the worker goes on computing, or is gone; its budget is
untouched.
SOURCE: utils.c:705-769 -/
theorem afterSite_spec (cfg : Config) (w : Worker) (site : Site) :
    (phase (afterSite cfg w site).pc = .computing ∨ phase (afterSite cfg w site).pc = .finished) ∧
      (∀ t, (afterSite cfg w site).pc ≠ .reply t) ∧
      (∀ t, (afterSite cfg w site).pc ≠ .fallOff t) ∧
      (afterSite cfg w site).left = w.left := by
  cases site with
  | poll => cases hret : w.ret <;> simp [afterSite, phase, hret]
  | flushBuffer => simp [afterSite, phase]
  | recvfrom => by_cases hsize : 0 < w.dataSize <;> simp [afterSite, phase, hsize]
  | getDstSockIdx => by_cases hdst : w.dstSockIdx = -1 <;> simp [afterSite, phase, hdst]
  | sendPacket => simp [afterSite, phase]

/-- INTERNAL: the scan goes on computing with the same budget.
SOURCE: utils.c:717-723, 776-788 -/
theorem scan_spec (cfg : Config) (w : Worker) (hpc : w.pc = .scan) :
    phase (scan cfg w).pc = .computing ∧ (∀ t, (scan cfg w).pc ≠ .reply t) ∧
      (∀ t, (scan cfg w).pc ≠ .fallOff t) ∧ (scan cfg w).left = w.left := by
  unfold scan
  split
  · split <;> simp [phase, hpc]
  · split <;> simp [phase]

/-- INTERNAL: `recvfrom` changes the frame in hand only.
SOURCE: utils.c:733 -/
theorem received_spec (w : Worker) (frame : Option Frame) :
    (received w frame).pc = .updateStub .recvfrom ∧ (received w frame).left = w.left := by
  cases frame <;> exact ⟨rfl, rfl⟩

/-- **The worker's steps move it through the phases.**
SOURCE: utils.c:549-583, 667-834 -/
theorem phaseStep_of_workerStep {cfg : Config} {w w' : Worker} {act : WorkerAct}
    (hleft : LeftOk w) (h : WorkerStep cfg w act w') :
    PhaseStep (phase w.pc) act (phase w'.pc) := by
  cases h with
  | firstCmdExit msg hpc hmsg | nextCmdExit site msg hpc hmsg | resumeCmdExit msg hpc hmsg =>
      rw [hpc]
      exact .receive msg _ (Or.inr rfl) fun _ => rfl
  | firstCmd msg hpc hmsg | nextCmd site msg hpc hmsg | resumeCmd msg hpc hmsg =>
      rw [hpc]
      exact .receive msg _ (Or.inl rfl) fun hneg => by omega
  | repeatExit hpc | fallOffExit site ret hpc hret | testStopExit site hpc | resumeStopExit hpc =>
      rw [hpc]
      exact .compute _ _ trivial (Or.inr rfl)
  | repeat_ hpc | pollReady revents hpc hlen | pollError _ hpc herr | chargeOver site hpc hover
  | charge site hpc hover | fallOff site ret hpc hret | sendPacket hpc | resumeStop hpc =>
      rw [hpc]
      exact .compute _ _ trivial (Or.inl rfl)
  | reply site hpc =>
      unfold LeftOk at hleft
      rw [hpc] at hleft ⊢
      simp only at hleft
      rw [wrap32_overrun hleft.1 hleft.2]
      exact .reply _ (by omega) (by omega)
  | testStop site hpc =>
      rw [hpc]
      exact .compute _ _ trivial (afterSite_spec cfg w site).1
  | scan hpc =>
      rw [(scan_spec cfg w hpc).1, hpc]
      exact .compute _ _ trivial (Or.inl rfl)
  | recvfrom frame hpc =>
      rw [(received_spec w frame).1, hpc]
      exact .compute _ _ trivial (Or.inl rfl)
  | needToBlock hpc =>
      rw [hpc]
      exact .block
  | announce hpc =>
      rw [hpc]
      exact .announce
  | blockingInterrupted hpc | blockingIdle revents hpc hlen hnone
  | blockingReady revents hpc hlen hsome =>
      rw [hpc]
      exact .poll _ _ (Or.inl rfl)
  | blockingFailed hpc =>
      rw [hpc]
      exact .poll _ _ (Or.inr rfl)
  | resume hpc =>
      rw [hpc]
      exact .wake

/-- INTERNAL: **the steps of a computation.**  Only a charge changes the budget, only a reply
or the announcement ends the computation with the worker alive, and a reply is due exactly
when a charge has used the budget up.
SOURCE: utils.c:563-583, 677-792 -/
theorem computing_cases {cfg : Config} {w w' : Worker} {act : WorkerAct}
    (h : WorkerStep cfg w act w') (hphase : phase w.pc = .computing) :
    (act = .charge 50 ∧ (∀ t, w.pc ≠ .reply t) ∧ w'.left = wrap32 (w.left - 50) ∧
      (w'.left ≤ 0 ∧ (∃ t, w'.pc = .reply t) ∨ 0 < w'.left ∧ ∃ t, w'.pc = .fallOff t)) ∨
    ((∃ t, w.pc = .reply t) ∧ act = .pipeSend (wrap32 (-1 * w.left)) ∧
      phase w'.pc = .listening) ∨
    (act = .writeIsBlocked true ∧ (∀ t, w.pc ≠ .reply t) ∧ phase w'.pc = .announcing) ∨
    (IsLocal act ∧ (∀ cost, act ≠ .charge cost) ∧ (∀ t, w.pc ≠ .reply t) ∧
      w'.left = w.left ∧ (∀ t, w'.pc ≠ .reply t) ∧ ∀ t, w'.pc ≠ .fallOff t) := by
  cases h with
  | chargeOver site hpc hleft =>
      exact Or.inl ⟨rfl, by rw [hpc]; nofun, rfl, Or.inl ⟨hleft, site, rfl⟩⟩
  | charge site hpc hleft =>
      exact Or.inl ⟨rfl, by rw [hpc]; nofun, rfl, Or.inr ⟨hleft, site, rfl⟩⟩
  | reply site hpc => exact Or.inr (Or.inl ⟨⟨site, hpc⟩, rfl, rfl⟩)
  | needToBlock hpc => exact Or.inr (Or.inr (Or.inl ⟨rfl, by rw [hpc]; nofun, rfl⟩))
  | testStop site hpc =>
      obtain ⟨-, hreply, hfall, heq⟩ := afterSite_spec cfg w site
      exact Or.inr (Or.inr (Or.inr ⟨trivial, nofun, by rw [hpc]; nofun, heq, hreply, hfall⟩))
  | scan hpc =>
      obtain ⟨-, hreply, hfall, heq⟩ := scan_spec cfg w hpc
      exact Or.inr (Or.inr (Or.inr ⟨trivial, nofun, by rw [hpc]; nofun, heq, hreply, hfall⟩))
  | recvfrom frame hpc =>
      obtain ⟨hpc', heq⟩ := received_spec w frame
      exact Or.inr (Or.inr (Or.inr ⟨trivial, nofun, by rw [hpc]; nofun, heq,
        by rw [hpc']; nofun, by rw [hpc']; nofun⟩))
  | firstCmdExit msg hpc hmsg | firstCmd msg hpc hmsg | nextCmdExit site msg hpc hmsg
  | nextCmd site msg hpc hmsg | announce hpc | blockingInterrupted hpc | blockingFailed hpc
  | blockingIdle revents hpc hlen hnone | blockingReady revents hpc hlen hsome | resume hpc
  | resumeCmdExit msg hpc hmsg | resumeCmd msg hpc hmsg => rw [hpc] at hphase; cases hphase
  | repeatExit hpc | repeat_ hpc | pollReady revents hpc hlen | pollError outcome hpc herr
  | fallOffExit site ret hpc hret | fallOff site ret hpc hret | testStopExit site hpc
  | sendPacket hpc | resumeStopExit hpc | resumeStop hpc =>
      exact Or.inr (Or.inr (Or.inr ⟨trivial, nofun, by rw [hpc]; nofun, rfl, nofun, nofun⟩))

/-- INTERNAL: a worker that listens reads a number, and goes on only with one that is not
negative.
SOURCE: utils.c:554-558, 575-580, 821-826 -/
theorem listening_cases {cfg : Config} {w w' : Worker} {act : WorkerAct}
    (h : WorkerStep cfg w act w') (hphase : phase w.pc = .listening) :
    ∃ msg, act = .pipeRead msg ∧ w'.left = msg ∧
      (w'.pc = .finished ∨ 0 ≤ msg ∧ phase w'.pc = .computing ∧
        (∀ t, w'.pc ≠ .reply t) ∧ ∀ t, w'.pc ≠ .fallOff t) := by
  cases h with
  | firstCmdExit msg hpc hmsg | nextCmdExit site msg hpc hmsg | resumeCmdExit msg hpc hmsg =>
      exact ⟨msg, rfl, rfl, Or.inl rfl⟩
  | firstCmd msg hpc hmsg => exact ⟨msg, rfl, rfl, Or.inr ⟨hmsg, rfl, nofun, nofun⟩⟩
  | nextCmd site msg hpc hmsg =>
      exact ⟨msg, rfl, rfl, Or.inr ⟨le_of_lt hmsg, rfl, nofun, nofun⟩⟩
  | resumeCmd msg hpc hmsg => exact ⟨msg, rfl, rfl, Or.inr ⟨le_of_lt hmsg, rfl, nofun, nofun⟩⟩
  | repeatExit hpc | repeat_ hpc | pollReady revents hpc hlen | pollError outcome hpc herr
  | chargeOver site hpc hleft | charge site hpc hleft | reply site hpc
  | fallOffExit site ret hpc hret | fallOff site ret hpc hret | testStopExit site hpc
  | testStop site hpc | scan hpc | recvfrom frame hpc | sendPacket hpc | needToBlock hpc
  | announce hpc | blockingInterrupted hpc | blockingFailed hpc
  | blockingIdle revents hpc hlen hnone | blockingReady revents hpc hlen hsome | resume hpc
  | resumeStopExit hpc | resumeStop hpc => rw [hpc] at hphase; cases hphase

/-- INTERNAL: outside a computation the budget is not looked at. -/
theorem leftOk_of_not_computing {w : Worker} (h : phase w.pc ≠ .computing) : LeftOk w := by
  unfold LeftOk
  split
  · rename_i site hpc
    rw [hpc] at h
    exact absurd rfl h
  · rename_i site hpc
    rw [hpc] at h
    exact absurd rfl h
  · exact fun hc => absurd hc h

/-- **The budget stays in range**, provided main only sends numbers in range.
SOURCE: utils.c:549-583, 667-834 -/
theorem leftOk_step {cfg : Config} {w w' : Worker} {act : WorkerAct} (hleft : LeftOk w)
    (hread : ∀ msg, act = .pipeRead msg → msg < 2 ^ 31) (h : WorkerStep cfg w act w') :
    LeftOk w' := by
  have hp := phaseStep_of_workerStep hleft h
  by_cases hphase : phase w.pc = .computing
  · rcases computing_cases h hphase with
      ⟨-, hreply, heq, hdue⟩ | ⟨-, -, hphase'⟩ | ⟨-, -, hphase'⟩ |
      ⟨-, -, hreply, heq, hreply', hfall'⟩
    · obtain ⟨h0, h31⟩ := hleft.range hphase hreply
      rw [wrap32_deduct h0 h31] at heq
      unfold LeftOk
      rcases hdue with ⟨hle, t, hpc'⟩ | ⟨hpos, t, hpc'⟩
      · rw [hpc']
        show -50 ≤ w'.left ∧ w'.left ≤ 0
        omega
      · rw [hpc']
        show 0 < w'.left ∧ w'.left < 2 ^ 31
        omega
    · exact leftOk_of_not_computing (by rw [hphase']; nofun)
    · exact leftOk_of_not_computing (by rw [hphase']; nofun)
    · apply leftOk_of_range _ hreply' hfall'
      rw [heq]
      exact hleft.range hphase hreply
  · by_cases hlisten : phase w.pc = .listening
    · obtain ⟨msg, rfl, heq, hfin | ⟨h0, -, hreply', hfall'⟩⟩ := listening_cases h hlisten
      · exact leftOk_of_not_computing (by rw [hfin]; nofun)
      · apply leftOk_of_range _ hreply' hfall'
        rw [heq]
        exact ⟨h0, hread msg rfl⟩
    · apply leftOk_of_not_computing
      intro hphase'
      rw [hphase'] at hp
      generalize phase w.pc = p at hp hphase hlisten
      cases hp with
      | receive => exact hlisten rfl
      | compute => exact hphase rfl
      | poll outcome p' hp' => rcases hp' with hp' | hp' <;> cases hp'

end VtRouter.Interface
