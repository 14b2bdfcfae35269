import VtRouter.Analysis.Handshake
import VtRouter.Interface.Ledger

/-!
# Conservation of virtual time

The worker's books are its budget: what is left is the budget of the round less its charges,
and a charge that uses it up is the last (`WorkerBooks`).  What it tells main is either the
overrun, or that it blocks within the budget (`Answer`).  Main adds the budget, and the overrun
when there is one; that is the larger of budget and cost on each of its branches.
-/

set_option autoImplicit false

namespace VtRouter.Analysis

open Library VtRouter.Model VtRouter.Interface

/-! ## The books of the worker -/

/-- What the budget left says about the round while the worker computes. -/
def WorkerBooks (w : Worker) (r : Round) : Prop :=
  w.left = r.budget - r.cost ∧
    (((∃ t, w.pc = .reply t) ∧ w.left ≤ 0 ∧ r.OverrunBounded) ∨
      ((∀ t, w.pc ≠ .reply t) ∧ (0 < w.left ∨ r.budget = 0 ∧ r.charges = [])))

/-- What a message of the worker says about the round. -/
def Answer (r : Round) (x : ℤ) : Prop :=
  (x = threadBlocked ∧ r.cost ≤ r.budget) ∨
    (0 ≤ x ∧ x = r.cost - r.budget ∧ r.OverrunBounded)

/-- INTERNAL: away from a reply the round is within its budget.
SOURCE: utils.c:563-583 -/
theorem WorkerBooks.within {w : Worker} {r : Round} (h : WorkerBooks w r)
    (hreply : ∀ t, w.pc ≠ .reply t) :
    w.left = r.budget - r.cost ∧ 0 ≤ w.left ∧ (0 < r.budget → 0 < w.left) ∧
      r.cost ≤ r.budget := by
  obtain ⟨heq, ⟨⟨t, hpc⟩, -⟩ | ⟨-, hpos | ⟨hzero, hnil⟩⟩⟩ := h
  · exact absurd hpc (hreply t)
  · exact ⟨heq, by omega, fun _ => hpos, by omega⟩
  · have hcost : r.cost = 0 := by simp [Round.cost, hnil]
    exact ⟨heq, by omega, fun hpos => by omega, by omega⟩

/-- INTERNAL: a fresh round is within its budget.
SOURCE: utils.c:554, 575, 821 -/
theorem workerBooks_fresh {w : Worker} {budget : ℤ} (h0 : 0 ≤ budget) (heq : w.left = budget)
    (hreply : ∀ t, w.pc ≠ .reply t) : WorkerBooks w ⟨budget, []⟩ := by
  refine ⟨by simp [Round.cost, heq], Or.inr ⟨hreply, ?_⟩⟩
  by_cases hpos : 0 < budget
  · exact Or.inl (by omega)
  · exact Or.inr ⟨by show budget = 0; omega, rfl⟩

/-- INTERNAL: **a charge** is booked by both sides.  One that uses the budget up exceeds what
was left of it.
SOURCE: utils.c:566-574 -/
theorem workerBooks_charge {w w' : Worker} {budget : ℤ} {charges : List ℤ}
    (h : WorkerBooks w ⟨budget, charges⟩) (hreply : ∀ t, w.pc ≠ .reply t)
    (heq : w'.left = w.left - 50)
    (hdue : w'.left ≤ 0 ∧ (∃ t, w'.pc = .reply t) ∨ 0 < w'.left ∧ ∃ t, w'.pc = .fallOff t) :
    WorkerBooks w' ⟨budget, charges ++ [50]⟩ := by
  obtain ⟨hleft, hnonneg, hpos, -⟩ := h.within hreply
  have hcost := cost_snoc budget charges 50
  have hbudget : ∀ cs, (Round.mk budget cs).budget = budget := fun _ => rfl
  rw [hbudget] at hleft hpos
  refine ⟨by rw [hcost, hbudget]; omega, ?_⟩
  rcases hdue with ⟨hle, hpc'⟩ | ⟨hpos', t, hpc'⟩
  · refine Or.inl ⟨hpc', hle, ?_⟩
    intro hb hover
    rw [hcost, hbudget] at hover ⊢
    have hleft' := hpos hb
    exact ⟨50, by simp, by omega⟩
  · exact Or.inr ⟨by rw [hpc']; nofun, Or.inl hpos'⟩

/-- INTERNAL: a reply tells the overrun.
SOURCE: utils.c:574 -/
theorem answer_reply {w : Worker} {r : Round} {t : Site} (h : WorkerBooks w r)
    (hpc : w.pc = .reply t) : Answer r (-w.left) := by
  obtain ⟨heq, ⟨-, hle, hover⟩ | ⟨hreply, -⟩⟩ := h
  · exact Or.inr ⟨by omega, by omega, hover⟩
  · exact absurd hpc (hreply t)

/-! ## The round in progress -/

/-- What the ledger says of a round while main waits for its reply. -/
structure InProgress (counting : Bool) (w : Worker) (c : Channels) (r : Round) : Prop where
  computing : phase w.pc = .computing → counting = true ∧ WorkerBooks w r
  announcing : phase w.pc = .announcing → r.cost ≤ r.budget
  answered : ∀ x ∈ c.toMain, Answer r x

/-- What the ledger says of the current round, by main's control point. -/
def CurrentOk (book : Ledger) (m : Main) (w : Worker) (c : Channels) : Prop :=
  match m.pc with
  | .testBlocked | .sendBudget => book.current = some ⟨m.perRoundAdvance, []⟩
  | .waitReply => ∃ charges, book.current = some ⟨m.perRoundAdvance, charges⟩ ∧
      InProgress book.counting w c ⟨m.perRoundAdvance, charges⟩
  | _ => True

/-- The books of main agree with the ledger. -/
structure Booked (book : Ledger) (m : Main) (w : Worker) (c : Channels) : Prop where
  time : m.timeElapsed = wrap32 book.elapsed
  ret : m.ret = book.lastOverrun
  bounded : ∀ r ∈ book.completed, r.OverrunBounded
  current : CurrentOk book m w c

/-- INTERNAL: **main books an answer** as the time of the round and its overrun.
SOURCE: router_app_vt.c:418-436 -/
theorem afterReply_books {m : Main} {r : Round} {x elapsed : ℤ} (h : Answer r x)
    (hbudget : r.budget = m.perRoundAdvance) (htime : m.timeElapsed = wrap32 elapsed) :
    (afterReply m x).timeElapsed = wrap32 (elapsed + r.time) ∧
      (afterReply m x).ret = r.overrun ∧ r.OverrunBounded := by
  rcases h with ⟨rfl, hle⟩ | ⟨h0, hx, hover⟩
  · have htime' : r.time = m.perRoundAdvance := by
      unfold Round.time
      omega
    have hover : r.overrun = 0 := by
      unfold Round.overrun
      omega
    rw [htime', hover]
    refine ⟨?_, rfl, fun hb hlt => by omega⟩
    show wrap32 (m.timeElapsed + m.perRoundAdvance) = _
    rw [htime, wrap32_wrap32_add]
  · have hne : x ≠ threadBlocked := by
      unfold threadBlocked
      omega
    have hclass : classify x = .returned := by
      unfold classify
      rw [if_neg hne, if_pos h0]
    have htime' : r.time = x + m.perRoundAdvance := by
      unfold Round.time
      omega
    have hover' : r.overrun = x := by
      unfold Round.overrun
      omega
    rw [htime', hover']
    unfold afterReply
    rw [hclass]
    refine ⟨?_, rfl, hover⟩
    show wrap32 (wrap32 (m.timeElapsed + x) + m.perRoundAdvance) = _
    rw [htime, wrap32_wrap32_add, add_assoc, wrap32_wrap32_add]

/-- INTERNAL: completing a round keeps the books.
SOURCE: router_app_vt.c:418-447 -/
theorem booked_complete {book : Ledger} {m : Main} {w : Worker} {c c' : Channels}
    {charges : List ℤ} {x : ℤ} (h : Booked book m w c)
    (hanswer : Answer ⟨m.perRoundAdvance, charges⟩ x) :
    Booked { book with
        completed := book.completed ++ [⟨m.perRoundAdvance, charges⟩], current := none }
      (afterReply m x) w c' := by
  obtain ⟨htime, hret, hover⟩ := afterReply_books hanswer rfl h.time
  obtain ⟨helapsed, hlast⟩ := completed_snoc book ⟨m.perRoundAdvance, charges⟩ book.counting
  refine ⟨by rw [htime, helapsed], by rw [hret, hlast], ?_, ?_⟩
  · intro r hr
    rcases List.mem_append.mp hr with hr | hr
    · exact h.bounded r hr
    · rw [List.mem_singleton.mp hr]
      exact hover
  · unfold CurrentOk
    rw [afterReply_pc]
    trivial

/-- INTERNAL: a step of main keeps the books.
SOURCE: router_app_vt.c:400-447 -/
theorem booked_main {book : Ledger} {m m' : Main} {w : Worker} {c c' : Channels} {act : MainAct}
    (h : Booked book m w c) (hbudget : BudgetOk m)
    (hhand : Handshake m.perRoundAdvance m.pc (phase w.pc) c)
    (hm : MainStep m act m') (hc : c.main act = some c') :
    Booked (book.record (.main act)) m' w c' := by
  have hcurrent := h.current
  unfold CurrentOk at hcurrent
  cases hm with
  | stop payload ack hpc hack hret | setStop hpc | sendExiting hpc | pthreadJoin hpc =>
      exact ⟨h.time, h.ret, h.bounded, trivial⟩
  | command payload ack hpc hack hret =>
      simp only [Ledger.record, if_neg hret]
      exact ⟨h.time, h.ret, h.bounded, rfl⟩
  | skip hpc =>
      rw [hpc] at hcurrent
      -- A skipped round is booked as one that blocked at once.
      have hanswer : Answer ⟨m.perRoundAdvance, []⟩ threadBlocked := by
        refine Or.inl ⟨rfl, ?_⟩
        show ([] : List ℤ).sum ≤ m.perRoundAdvance
        exact (hbudget (Or.inl hpc)).1
      have hbooked : Booked _ (afterReply m threadBlocked) w c' := booked_complete h hanswer
      simp only [Ledger.record, hcurrent, Option.toList_some]
      exact hbooked
  | test hpc =>
      rw [hpc] at hcurrent
      exact ⟨h.time, h.ret, h.bounded, hcurrent⟩
  | sendBudget hpc =>
      rw [hpc] at hcurrent hhand
      refine ⟨h.time, h.ret, h.bounded, [], hcurrent, ?_⟩
      cases hc
      generalize hphase : phase w.pc = p at hhand
      cases hhand with
      | granting => exact ⟨by rw [hphase]; nofun, by rw [hphase]; nofun, by simp⟩
  | reply msg hpc =>
      rw [hpc] at hcurrent
      obtain ⟨charges, hcur, hprogress⟩ := hcurrent
      obtain ⟨rest, hq, rfl⟩ := Channels.main_pipeRead hc
      have hanswer := hprogress.answered msg (by simp [hq])
      simp only [Ledger.record, hcur, Option.toList_some]
      exact booked_complete h hanswer

/-- INTERNAL: the worker's steps leave the completed rounds alone. -/
theorem record_worker (book : Ledger) (act : WorkerAct) :
    (book.record (.worker act)).completed = book.completed := by
  cases act with
  | charge cost =>
      simp only [Ledger.record]
      split <;> rfl
  | _ => rfl

/-- INTERNAL: a local step that is no charge is not recorded. -/
theorem record_local (book : Ledger) {act : WorkerAct} (hact : IsLocal act)
    (hcharge : ∀ cost, act ≠ .charge cost) : book.record (.worker act) = book := by
  cases act with
  | pipeRead msg => cases hact
  | pipeSend msg => cases hact
  | charge cost => exact absurd rfl (hcharge cost)
  | _ => rfl

/-- INTERNAL: **a step of the worker while main waits** keeps the books of the round.
SOURCE: utils.c:549-583, 667-834 -/
theorem inProgress_worker {cfg : Config} {book : Ledger} {w w' : Worker} {c c' : Channels}
    {act : WorkerAct} {adv : ℤ} {charges : List ℤ} (hadv : 0 ≤ adv ∧ adv < 2 ^ 31)
    (hleft : LeftOk w) (hcur : book.current = some ⟨adv, charges⟩)
    (h : InProgress book.counting w c ⟨adv, charges⟩)
    (hhand : Handshake adv .waitReply (phase w.pc) c) (hw : WorkerStep cfg w act w')
    (hc : c.worker act = some c') :
    ∃ charges', (book.record (.worker act)).current = some ⟨adv, charges'⟩ ∧
      InProgress (book.record (.worker act)).counting w' c' ⟨adv, charges'⟩ := by
  have hp := phaseStep_of_workerStep hleft hw
  by_cases hphase : phase w.pc = .computing
  · obtain ⟨hcount, hbooks⟩ := h.computing hphase
    have hnone : c.toMain = [] := by
      rw [hphase] at hhand
      cases hhand with
      | computing => rfl
      | answered p b x hx hb => cases hb
    rcases computing_cases hw hphase with
      ⟨rfl, hreply, heq, hdue⟩ | ⟨⟨t, hpc⟩, rfl, hphase'⟩ | ⟨rfl, hreply, hphase'⟩ |
      ⟨hact, hcharge, hreply, heq, hreply', -⟩
    · -- a charge
      obtain ⟨h0, h31⟩ := hleft.range hphase hreply
      rw [wrap32_deduct h0 h31] at heq
      cases hc
      simp only [Ledger.record, hcount, if_true, hcur, Option.map_some]
      have hcomp : phase w'.pc = .computing := by
        rcases hdue with ⟨-, t, hpc'⟩ | ⟨-, t, hpc'⟩ <;> rw [hpc'] <;> rfl
      refine ⟨charges ++ [50], rfl, fun _ => ⟨rfl, workerBooks_charge hbooks hreply heq hdue⟩,
        by rw [hcomp]; nofun, ?_⟩
      rw [hnone]
      nofun
    · -- the reply
      refine ⟨charges, hcur, by rw [hphase']; nofun, by rw [hphase']; nofun, ?_⟩
      cases hc
      intro x hx
      rcases List.mem_append.mp hx with hx | hx
      · exact h.answered x hx
      · unfold LeftOk at hleft
        rw [hpc] at hleft
        simp only at hleft
        rw [List.mem_singleton.mp hx, wrap32_overrun hleft.1 hleft.2]
        exact answer_reply hbooks hpc
    · -- the flag
      cases hc
      obtain ⟨-, -, -, hwithin⟩ := hbooks.within hreply
      exact ⟨charges, hcur, by rw [hphase']; nofun, fun _ => hwithin, h.answered⟩
    · -- a local step
      rw [channels_local hact hc, record_local book hact hcharge]
      refine ⟨charges, hcur, fun _ => ⟨hcount, ?_⟩, ?_, h.answered⟩
      · obtain ⟨hleft', hdue⟩ := hbooks
        refine ⟨by rw [heq]; exact hleft', Or.inr ⟨hreply', ?_⟩⟩
        rcases hdue with ⟨⟨t, hpc⟩, -⟩ | ⟨-, hdue⟩
        · exact absurd hpc (hreply t)
        · rwa [heq]
      · intro hann
        rw [hphase, hann] at hp
        cases hp with
        | compute act p hact' hp' => rcases hp' with hp' | hp' <;> cases hp'
        | block => cases hact
  · by_cases hlisten : phase w.pc = .listening
    · -- the read of the budget
      obtain ⟨msg, rfl, heq, hnext⟩ := listening_cases hw hlisten
      obtain ⟨rest, hq, rfl⟩ := Channels.worker_pipeRead hc
      rw [hlisten] at hhand
      cases hhand with
      | granted =>
          cases hq
          refine ⟨[], by simp [Ledger.record, hcur], ?_, ?_, by simp⟩
          · intro hphase'
            rcases hnext with hfin | ⟨-, -, hreply', -⟩
            · rw [hfin] at hphase'
              cases hphase'
            · exact ⟨rfl, workerBooks_fresh hadv.1 heq hreply'⟩
          · intro hann
            rcases hnext with hfin | ⟨-, hphase', -⟩
            · rw [hfin] at hann
              cases hann
            · rw [hphase'] at hann
              cases hann
      | answered p b x hx hb => cases hq
    · -- the announcement, or the blocking poll
      generalize hph : phase w.pc = p at hp hphase hlisten hhand
      generalize hph' : phase w'.pc = p' at hp
      cases hp with
      | receive => exact absurd rfl hlisten
      | compute => exact absurd rfl hphase
      | reply => exact absurd rfl hphase
      | block => exact absurd rfl hphase
      | announce =>
          cases hc
          refine ⟨charges, hcur, by rw [hph']; nofun, by rw [hph']; nofun, ?_⟩
          intro x hx
          rcases List.mem_append.mp hx with hx | hx
          · exact h.answered x hx
          · rw [List.mem_singleton.mp hx]
            exact Or.inl ⟨rfl, h.announcing hph⟩
      | poll outcome p' hp' =>
          cases hc
          refine ⟨charges, hcur, ?_, ?_, h.answered⟩
          · rw [hph']
            rcases hp' with rfl | rfl <;> nofun
          · rw [hph']
            rcases hp' with rfl | rfl <;> nofun
      | wake =>
          cases hc
          exact ⟨charges, hcur, by rw [hph']; nofun, by rw [hph']; nofun, h.answered⟩

/-- INTERNAL: away from a computation and a waiting main no step of the worker is recorded
that matters: nothing is read and nothing is charged. -/
theorem record_current_of_quiet {cfg : Config} {book : Ledger} {w w' : Worker} {c c' : Channels}
    {act : WorkerAct} (hleft : LeftOk w) (hphase : phase w.pc ≠ .computing)
    (hempty : c.toWorker = []) (hw : WorkerStep cfg w act w') (hc : c.worker act = some c') :
    (book.record (.worker act)).current = book.current := by
  have hp := phaseStep_of_workerStep hleft hw
  generalize phase w.pc = p at hp hphase
  generalize phase w'.pc = p' at hp
  cases hp with
  | receive msg p' hp' hneg =>
      obtain ⟨rest, hq, -⟩ := Channels.worker_pipeRead hc
      rw [hempty] at hq
      cases hq
  | compute => exact absurd rfl hphase
  | reply => exact absurd rfl hphase
  | block => exact absurd rfl hphase
  | announce => rfl
  | poll => rfl
  | wake => rfl

/-- INTERNAL: a step of the worker keeps the books.
SOURCE: utils.c:549-583, 667-834 -/
theorem booked_worker {cfg : Config} {book : Ledger} {m : Main} {w w' : Worker}
    {c c' : Channels} {act : WorkerAct} (h : Booked book m w c) (hbudget : BudgetOk m)
    (hleft : LeftOk w) (hhand : Handshake m.perRoundAdvance m.pc (phase w.pc) c)
    (hw : WorkerStep cfg w act w') (hc : c.worker act = some c') :
    Booked (book.record (.worker act)) m w' c' := by
  obtain ⟨htime, hret, hbounded, hcurrent⟩ := h
  have hsame := record_worker book act
  refine ⟨?_, ?_, by rw [hsame]; exact hbounded, ?_⟩
  · rw [htime]
    unfold Ledger.elapsed
    rw [hsame]
  · rw [hret]
    unfold Ledger.lastOverrun
    rw [hsame]
  · unfold CurrentOk at hcurrent ⊢
    have hquiet : (m.pc = .testBlocked ∨ m.pc = .sendBudget) →
        (book.record (.worker act)).current = book.current := by
      intro hpc
      have hstill : phase w.pc ≠ .computing ∧ c.toWorker = [] := by
        generalize phase w.pc = p at hhand
        rcases hpc with hpc | hpc
        · rw [hpc] at hhand
          cases hhand with
          | testing p b hq => cases hq <;> exact ⟨nofun, rfl⟩
        · rw [hpc] at hhand
          cases hhand with
          | granting => exact ⟨nofun, rfl⟩
      exact record_current_of_quiet hleft hstill.1 hstill.2 hw hc
    split at hcurrent
    · rename_i hpc
      rw [hquiet (Or.inl hpc)]
      exact hcurrent
    · rename_i hpc
      rw [hquiet (Or.inr hpc)]
      exact hcurrent
    · rename_i hpc
      rw [hpc] at hhand
      obtain ⟨charges, hcur, hprogress⟩ := hcurrent
      exact inProgress_worker (hbudget (Or.inr (Or.inr hpc))) hleft hcur hprogress hhand hw hc
    · trivial

/-- INTERNAL: **the books agree with the ledger along every run.** -/
theorem booked_run {cfg : Config} {ls : List Label} {s : State}
    (hrun : (vtRouter cfg).Run ls s) :
    ∃ c, Linked ls s c ∧ Booked (ledger ls) s.main s.worker c := by
  refine (vtRouter cfg).run_invariant
    (fun ls s => ∃ c, Linked ls s c ∧ Booked (ledger ls) s.main s.worker c) ?_ ?_ ls s hrun
  · refine ⟨_, linked_init, ?_, rfl, nofun, trivial⟩
    show (0 : ℤ) = wrap32 0
    decide
  · rintro ls s l s' - ⟨c, hlinked, hbooked⟩ hs
    obtain ⟨c', hc', hlinked'⟩ := linked_step hlinked hs
    refine ⟨c', hlinked', ?_⟩
    rw [ledger_snoc]
    rcases step_cases hs with ⟨act, m, sh, rfl, hm, hsh, rfl⟩ |
      ⟨act, w, sh, rfl, hw, hsh, rfl⟩ | ⟨i, frame, rfl, hi, rfl⟩
    · exact booked_main hbooked hlinked.budget hlinked.handshake hm hc'
    · exact booked_worker hbooked hlinked.budget hlinked.left hlinked.handshake hw hc'
    · cases hc'
      exact hbooked

/-- **Conservation of virtual time.**  In every run, whatever the missing return of
`update_stub` yields: main's clock is the sum over the completed rounds of the larger of budget
and cost (modulo the width of an `int`, and exactly while the sum fits); the error main reports
with each request for a command is the overrun of the last completed round; and a round with a
budget overruns it by less than its last charge.
SOURCE: utils.c:549-583, 776-830; router_app_vt.c:399-450 -/
theorem virtual_time_conserved (cfg : Config) (ls : List Label) (s : State)
    (hrun : (vtRouter cfg).Run ls s) :
    s.main.timeElapsed = wrap32 (ledger ls).elapsed ∧
    (IsInt32 (ledger ls).elapsed → s.main.timeElapsed = (ledger ls).elapsed) ∧
    (∀ pre payload advanceErr perRoundAdvance post,
      ls = pre ++ .main (.ackAndGetNextCommand payload advanceErr perRoundAdvance) :: post →
      advanceErr = (ledger pre).lastOverrun) ∧
    ∀ r ∈ (ledger ls).completed, r.OverrunBounded := by
  obtain ⟨c, -, hbooked⟩ := booked_run hrun
  refine ⟨hbooked.time, ?_, ?_, hbooked.bounded⟩
  · intro hfits
    rw [hbooked.time, wrap32_of_isInt32 hfits]
  · rintro pre payload advanceErr perRoundAdvance post rfl
    obtain ⟨t, ht, -⟩ := hrun.prefix
    obtain ⟨ct, -, hbooked'⟩ := booked_run ht
    obtain ⟨t', hstep, -⟩ := hrun.step_at ht
    rw [← hbooked'.ret]
    have hcases : step cfg t
        (.main (.ackAndGetNextCommand payload advanceErr perRoundAdvance)) = some t' := hstep
    rcases step_cases hcases with ⟨act, m, sh, hl, hm, -⟩ | ⟨act, w, sh, hl, -⟩ | ⟨i, f, hl, -⟩
    · cases hl
      cases hm <;> rfl
    · cases hl
    · cases hl

/-- The time of a first round of 50 microseconds that costs 50. -/
theorem virtual_time_conserved_firstRound :
    ∃ s, (vtRouter oneIntf).Run firstRound s ∧ s.main.timeElapsed = 50 := by
  have hsome : ((vtRouter oneIntf).exec State.init firstRound).isSome := by decide +kernel
  obtain ⟨s, hs⟩ := Option.isSome_iff_exists.mp hsome
  obtain ⟨-, hexact, -⟩ := virtual_time_conserved oneIntf firstRound s hs
  have helapsed : (ledger firstRound).elapsed = 50 := by decide +kernel
  rw [helapsed] at hexact
  exact ⟨s, hs, hexact (by decide)⟩

end VtRouter.Analysis
