import VtRouter.Model.Client
import VtRouter.Analysis.UpdateStub

/-!
# What the client is charged for

The book of a run has, for every step that is followed by a call of `update_stub`, the cost
that is registered for the step, and beside it what the calls deducted.  `process_thread`
calls the stub for its request under the name `send_to`, and `init_func_times` registers
`sendto`: the lookup finds nothing, and the request is free.  Every other step is charged.
-/

set_option autoImplicit false

namespace VtRouter.Analysis

open Library Model Interface

/-- The step that has been made and not been charged yet, what the steps in front of the calls
cost, and what the calls deducted, in order. -/
structure ClientBook where
  pending : Option ClientOp
  owed : List ℤ
  charged : List ℤ

def ClientBook.record (book : ClientBook) (act : ClientAct) : ClientBook :=
  match act with
  | .updateStub _ call _ =>
      ⟨none, book.owed ++ (book.pending.map ClientOp.timeUs).toList,
        book.charged ++ call.timeElapsed.toList⟩
  | act => { book with pending := act.op }

/-- The book of a run. -/
def clientBook (ls : List ClientAct) : ClientBook := ls.foldl ClientBook.record ⟨none, [], []⟩

theorem clientBook_snoc (ls : List ClientAct) (act : ClientAct) :
    clientBook (ls ++ [act]) = (clientBook ls).record act := by
  simp [clientBook]

theorem ClientBook.record_of_ne_stub (book : ClientBook) {act : ClientAct}
    (hstub : ∀ next call fallOff, act ≠ .updateStub next call fallOff) :
    book.record act = { book with pending := act.op } := by
  cases act with
  | updateStub next call fallOff => exact absurd rfl (hstub next call fallOff)
  | _ => rfl

/-- What `update_stub` finds for a call of the client: nothing for the request, and the cost
of the step for all others.
SOURCE: client_n_vt.c:198-208, 289, 306, 316, 373 -/
def ClientSite.charged (site : ClientSite) : Option ℤ :=
  if site = .sendto then none else some site.op.timeUs

/-- INTERNAL: the registered names and those of the calls agree but for one.
SOURCE: client_n_vt.c:198-208, 289, 306, 316, 373 -/
theorem lastPut_clientFuncTimes (site : ClientSite) :
    lastPut (registered clientFuncTimes) (cAbs (strHash (bytes site.name))) =
      ClientSite.charged site := by
  cases site <;> decide +kernel

/-- INTERNAL: a call of the client does what its site stands for in the table.
SOURCE: client_n_vt.c:168-187 -/
theorem clientStub_site (left next : ℤ) (site : ClientSite) :
    clientStub left (some site) next = .ok (stubResult left next (ClientSite.charged site)) := by
  obtain ⟨funcTimesUs, htable, -, hget⟩ := funcTimes_spec clientFuncTimes
  have hfound := hget (bytes site.name)
  rw [lastPut_clientFuncTimes] at hfound
  rw [clientStub, clientInitFuncTimes, htable, ok_bind, Option.map_some,
    updateStubCall_of_get hfound]

/-- INTERNAL: the call for the first command reads it.
SOURCE: client_n_vt.c:156-166 -/
theorem clientStub_none (left next : ℤ) :
    clientStub left none next =
      .ok ⟨next, none, none, some next, some (if next < 0 then threadExiting else success)⟩ := by
  obtain ⟨funcTimesUs, htable, -, -⟩ := funcTimes_spec clientFuncTimes
  rw [clientStub, clientInitFuncTimes, htable, ok_bind, Option.map_none, updateStubCall]

/-- INTERNAL: a call of the client deducts what the table has for its site.
SOURCE: client_n_vt.c:168-174 -/
theorem timeElapsed_clientStub {left next : ℤ} {site : ClientSite} {call : StubCall}
    (hcall : clientStub left (some site) next = .ok call) :
    call.timeElapsed = ClientSite.charged site := by
  rw [clientStub_site, Except.ok.injEq] at hcall
  rw [← hcall, timeElapsed_stubResult]

/-- INTERNAL: the call for the first command deducts nothing.
SOURCE: client_n_vt.c:156-166 -/
theorem timeElapsed_clientStub_none {left next : ℤ} {call : StubCall}
    (hcall : clientStub left none next = .ok call) : call.timeElapsed = none := by
  rw [clientStub_none, Except.ok.injEq] at hcall
  rw [← hcall]

/-- The book of a run agrees with its state: the step not charged yet is the one in front of
the call, no more is charged than owed, and the two differ from the first call for a request
on. -/
structure Kept (ls : List ClientAct) (w : Client) : Prop where
  pending : (clientBook ls).pending = w.pc.site.map ClientSite.op
  length_le : (clientBook ls).charged.length ≤ (clientBook ls).owed.length
  charged_iff : (clientBook ls).charged = (clientBook ls).owed ↔
    client.Along (fun w _ => w.pc ≠ .updateStub .sendto) ls

theorem kept_init : Kept [] Client.init := by
  refine ⟨rfl, le_rfl, ?_⟩
  constructor
  · intro _ pre l post s hsplit
    exact absurd hsplit (by simp)
  · intro _
    rfl

/-- INTERNAL: a step in front of which there is no call, and which adds nothing to the book,
keeps it. -/
theorem Kept.of_unbooked {ls : List ClientAct} {w w' : Client} {act : ClientAct}
    (hk : Kept ls w) (hr : client.Run ls w) (hpc : w.pc.site = none)
    (howed : (clientBook (ls ++ [act])).owed = (clientBook ls).owed)
    (hcharged : (clientBook (ls ++ [act])).charged = (clientBook ls).charged)
    (hpending : (clientBook (ls ++ [act])).pending = w'.pc.site.map ClientSite.op) :
    Kept (ls ++ [act]) w' := by
  have hnot : w.pc ≠ .updateStub .sendto := by
    intro hcall
    rw [hcall] at hpc
    exact absurd hpc (by simp [ClientPc.site])
  refine ⟨hpending, ?_, ?_⟩
  · rw [howed, hcharged]
    exact hk.length_le
  · rw [howed, hcharged, LTS.along_snoc_of_run client _ hr, hk.charged_iff]
    exact ⟨fun h => ⟨h, hnot⟩, fun h => h.1⟩

/-- INTERNAL: one step of the client keeps its book, by the kinds of steps.
SOURCE: client_n_vt.c:211-379 -/
theorem kept_step {ls : List ClientAct} {w w' : Client} {act : ClientAct}
    (hr : client.Run ls w) (hk : Kept ls w) (hstep : clientThread w act = some w') :
    Kept (ls ++ [act]) w' := by
  have hbook := clientBook_snoc ls act
  cases clientStep_of_clientThread hstep with
  | op w' act site hpc hact hpc' =>
      have hstub : ∀ next call fallOff, act ≠ .updateStub next call fallOff := by
        rintro next call fallOff rfl
        exact absurd hact (by simp [ClientAct.op])
      rw [ClientBook.record_of_ne_stub _ hstub] at hbook
      apply hk.of_unbooked hr hpc
      · rw [hbook]
      · rw [hbook]
      · rw [hbook, hact, hpc']
        rfl
  | stub w' site next fallOff call hpc hcall hpc' =>
      have hpending : (clientBook ls).pending = some site.op := by
        rw [hk.pending, hpc]
        rfl
      simp only [ClientBook.record, hpending, timeElapsed_clientStub hcall, Option.map_some,
        Option.toList_some] at hbook
      have halong := LTS.along_snoc_of_run client (fun w _ => w.pc ≠ .updateStub .sendto) hr
        (.updateStub next call fallOff)
      have hlength := hk.length_le
      by_cases hsite : site = .sendto
      · rw [ClientSite.charged, if_pos hsite] at hbook
        simp only [Option.toList_none, List.append_nil] at hbook
        refine ⟨by rw [hbook, hpc']; rfl, ?_, ?_⟩
        · simp only [hbook, List.length_append]
          omega
        · simp only [hbook, halong]
          constructor
          · intro heq
            have hlen := congrArg List.length heq
            rw [List.length_append, List.length_singleton] at hlen
            omega
          · rintro ⟨-, hne⟩
            exact absurd (hsite ▸ hpc) hne
      · rw [ClientSite.charged, if_neg hsite] at hbook
        simp only [Option.toList_some] at hbook
        have hne : w.pc ≠ .updateStub .sendto := by
          rw [hpc]
          exact fun heq => hsite (ClientPc.updateStub.inj heq)
        refine ⟨by rw [hbook, hpc']; rfl, ?_, ?_⟩
        · simp only [hbook, List.length_append]
          exact Nat.add_le_add_right hlength _
        · rw [hbook, halong, List.append_left_inj, hk.charged_iff]
          exact ⟨fun h => ⟨h, hne⟩, fun h => h.1⟩
  | firstCmd w' next fallOff call hpc hcall hpc' =>
      have hpending : (clientBook ls).pending = none := by
        rw [hk.pending, hpc]
        rfl
      simp only [ClientBook.record, hpending, timeElapsed_clientStub_none hcall, Option.map_none,
        Option.toList_none, List.append_nil] at hbook
      apply hk.of_unbooked hr hpc
      · rw [hbook]
      · rw [hbook]
      · rw [hbook, hpc']
        rfl
  | free w' act hpc hact hstub hpc' =>
      rw [ClientBook.record_of_ne_stub _ hstub] at hbook
      apply hk.of_unbooked hr hpc
      · rw [hbook]
      · rw [hbook]
      · rw [hbook, hact, hpc']
        rfl

/-- **Exactly which runs are charged in full.**  In every run of the client, with any budgets
and replies, the calls of `update_stub` have deducted the registered cost of each step in
front of them, each once and in order, if and only if no request has reached the call
behind its `sendto`.
SOURCE: client_n_vt.c:155-208, 211-379 -/
theorem client_charges_iff (ls : List ClientAct) (w : Client) (hr : client.Run ls w) :
    (clientBook ls).charged = (clientBook ls).owed ↔
      client.Along (fun w _ => w.pc ≠ .updateStub .sendto) ls := by
  have hk : Kept ls w :=
    LTS.run_induction client (fun _ _ => True) Kept kept_init
      (fun _ _ _ _ hr hk _ hstep => kept_step hr hk hstep) ls w hr fun _ _ _ _ _ _ => trivial
  exact hk.charged_iff

/-- A run of the client up to its first request: the first command, the sleep, and a round of
1000 microseconds. -/
def untilRequest : List ClientAct :=
  [.updateStub 100 ⟨100, none, none, some 100, some 1⟩ 0, .writeIsBlocked true, .pipeSend (-1),
    .usleep, .writeIsBlocked false, .pipeRead 1000, .readStop false, .readStop false,
    .flushBuffer, .updateStub 0 ⟨950, some 50, none, none, none⟩ 0, .readStop false,
    .sendto (request 0 ++ [0])]

/-- The rest of the iteration: the request is free, and a reply of one byte is computed on. -/
def fullIteration : List ClientAct :=
  untilRequest ++
    [.updateStub 0 ⟨950, none, none, none, some 1⟩ 0, .readStop false, .flushBuffer,
      .updateStub 0 ⟨900, some 50, none, none, none⟩ 0, .readStop false, .writeIsBlocked true,
      .pipeSend (-1), .recvfrom (some [0]), .writeIsBlocked false, .pipeRead 1000,
      .readStop false, .computation, .updateStub 0 ⟨950, some 50, none, none, none⟩ 0,
      .readStop false]

/-- INTERNAL: the iteration is a run, back to the head of the loop. -/
theorem runs_fullIteration :
    ∃ w, client.Run fullIteration w ∧ w.pc = .loop := by
  have hexec : ((client.exec client.init fullIteration).map fun w => w.pc) = some .loop := by
    decide +kernel
  exact Option.map_eq_some_iff.mp hexec

/-- Until the request is sent everything is charged. -/
theorem client_charges_iff_untilRequest :
    ∃ w, client.Run untilRequest w ∧
      (clientBook untilRequest).charged = (clientBook untilRequest).owed := by
  obtain ⟨v, hv, -⟩ := runs_fullIteration
  obtain ⟨w, hw, -⟩ := LTS.Run.prefix hv
  have hcheck : client.checkAlong (fun w _ => decide (w.pc ≠ .updateStub .sendto)) Client.init
      untilRequest = true := by
    decide +kernel
  have halong : client.Along (fun w _ => w.pc ≠ .updateStub .sendto) untilRequest :=
    (client.along_of_checkAlong _ untilRequest hcheck).mono fun _ _ hw => of_decide_eq_true hw
  exact ⟨w, hw, (client_charges_iff untilRequest w hw).mpr halong⟩

/-- **The request is free**: a full iteration owes for two flushes, a request and a
computation, and one of the four is not charged. -/
theorem request_is_free :
    (∃ w, client.Run fullIteration w ∧ w.pc = .loop) ∧
      (clientBook fullIteration).owed.sum =
        2 * ClientOp.timeUs .flushBuffer + ClientOp.timeUs .sendto +
          ClientOp.timeUs .computation ∧
      (clientBook fullIteration).charged.sum =
        2 * ClientOp.timeUs .flushBuffer + ClientOp.timeUs .computation ∧
      (clientBook fullIteration).charged ≠ (clientBook fullIteration).owed := by
  have howed : (clientBook fullIteration).owed = [50, 50, 50, 50] := rfl
  have hcharged : (clientBook fullIteration).charged = [50, 50, 50] := rfl
  refine ⟨runs_fullIteration, ?_, ?_, ?_⟩
  · rw [howed]
    rfl
  · rw [hcharged]
    rfl
  · rw [howed, hcharged]
    decide

end VtRouter.Analysis
