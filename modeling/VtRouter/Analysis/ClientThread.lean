import VtRouter.Analysis.Client
import VtRouter.Analysis.TimedProgram

/-!
# The client as a thread

The thread of `client_n_vt.c` is followed at two levels.  In `Model.Client` a call of
`update_stub` is one step, which is what the accounts of `Analysis.Client` are kept in; in
`Model.TimedProgram` a call is its reads, writes and charges, which other threads may come
between.  `clients_agree` says that the two are the same program: what the thread does in any
run of a host is what the client does, up to a call under way, and the thread can do all that
the client can.

The thread has no variables of its own that the client does not have (`threadOf`), but for the
address it sends to, which no step of the client depends on.
-/

set_option autoImplicit false

namespace VtRouter.Analysis

open Library VtRouter.Model VtRouter.Interface

variable {α : Type} [DecidableEq α]

/-! ## What can be seen of either -/

/-- What a step exchanges with the environment, or charges. -/
inductive ClientEvent
  | pipeRead (msg : ℤ)
  | pipeSend (msg : ℤ)
  | readStop (stop : Bool)
  | writeIsBlocked (isBlocked : Bool)
  | charge (cost : ℤ)
  | usleep
  | flushBuffer
  | sendto (data : List UInt8)
  | recvfrom (data : Option (List UInt8))
  | computation

/-- What a call of `update_stub` does, in order. -/
def callEvents (call : StubCall) : List ClientEvent :=
  (call.timeElapsed.map .charge).toList ++ (call.sent.map .pipeSend).toList ++
    (call.cmd.map .pipeRead).toList

def clientEvents : ClientAct → List ClientEvent
  | .updateStub _ call _ => callEvents call
  | .pipeRead msg => [.pipeRead msg]
  | .pipeSend msg => [.pipeSend msg]
  | .readStop stop => [.readStop stop]
  | .writeIsBlocked isBlocked => [.writeIsBlocked isBlocked]
  | .usleep => [.usleep]
  | .flushBuffer => [.flushBuffer]
  | .sendto data => [.sendto data]
  | .recvfrom data => [.recvfrom data]
  | .computation => [.computation]

/-- Addresses are left out: the client does not look at them. -/
def threadEvents : ThreadAct α → List ClientEvent
  | .pipeRead msg => [.pipeRead msg]
  | .pipeSend msg => [.pipeSend msg]
  | .readStop stop => [.readStop stop]
  | .writeIsBlocked isBlocked => [.writeIsBlocked isBlocked]
  | .charge cost => [.charge cost]
  | .unregistered | .fallOff _ => []
  | .op .usleep => [.usleep]
  | .op .flushBuffer => [.flushBuffer]
  | .op (.sendto _ data) => [.sendto data]
  | .op (.recvfrom datagram) => [.recvfrom (datagram.map Prod.snd)]
  | .op .computation => [.computation]
  | .op .loop | .op .fillBuffer => []

/-! ## The client's state as a thread's -/

/-- Where the thread is. -/
def threadPc : ClientPc → ThreadPc
  | .firstCmd => .firstCmd
  | .needToSleep | .loop | .flushRequest | .sendto | .flushReply | .needToBlock | .computation =>
      .running
  | .updateStub site => .updateStub site.name
  | .testStop _ => .testStop
  | .announceSleep | .announce => .announce
  | .usleep | .recvfrom => .blocked
  | .wake | .resume => .resume
  | .wakeCmd | .resumeCmd => .resumeCmd
  | .wakeStop | .resumeStop => .resumeStop
  | .finished => .finished

/-- The step of the program behind the call of a site. -/
def pcBehind : ClientSite → ClientNPc
  | .flushRequest => .sendto
  | .sendto => .flushReply
  | .flushReply => .recvfrom
  | .computation => .loop

/-- The step of the program that is next. -/
def programPc (c : Client) : ClientNPc :=
  match c.pc with
  | .firstCmd | .needToSleep | .announceSleep | .usleep => .usleep
  | .wake | .wakeCmd | .wakeStop | .loop | .finished => .loop
  | .flushRequest => .flushRequest
  | .updateStub site | .testStop site => pcBehind site
  | .sendto => .sendto
  | .flushReply => .flushReply
  | .needToBlock | .announce | .recvfrom => .recvfrom
  | .resume | .resumeCmd | .resumeStop => if 0 < c.nBytes then .computation else .loop
  | .computation => .computation

/-- The length of the request, which the client takes behind the call for the flush, and the
program with the flush. -/
def programNBytes (c : Client) : ℤ :=
  match c.pc with
  | .updateStub .flushRequest | .testStop .flushRequest => c.buffer.length + 1
  | _ => c.nBytes

/-- The thread that is where the client is, and sends to an address. -/
def threadOf (serverAddr : α) (c : Client) : Thread α :=
  ⟨threadPc c.pc, c.left,
    .client ⟨programPc c, c.pktNo, programNBytes c, c.buffer, serverAddr⟩⟩

/-- The thread is where the client is, with any address, or both are gone. -/
def StandsAt (c : Client) (w : Thread α) : Prop :=
  (∃ serverAddr, w = threadOf serverAddr c) ∨ (c.pc = .finished ∧ w.pc = .finished)

omit [DecidableEq α] in
/-- INTERNAL: behind the reply the program is where the client goes.
SOURCE: client_n_vt.c:338-375 -/
theorem threadOf_behindReply (serverAddr : α) (left pktNo nBytes : ℤ) (buffer : List UInt8) :
    threadOf serverAddr
        ⟨if 0 < nBytes then .computation else .loop, left, pktNo, nBytes, buffer⟩ =
      ⟨.running, left, .client
        ⟨if 0 < nBytes then .computation else .loop, pktNo, nBytes, buffer, serverAddr⟩⟩ := by
  by_cases hbytes : 0 < nBytes
  · rw [if_pos hbytes, if_pos hbytes]
    rfl
  · rw [if_neg hbytes, if_neg hbytes]
    rfl

/-- The thread of a client on its own. -/
def threadAlone (server : α) : LTS (Thread α) (ThreadAct α) :=
  ⟨⟨.firstCmd, 0, (Role.client server).init⟩, testThread clientNVt⟩

omit [DecidableEq α] in
/-- INTERNAL: the thread finds for a call what the client finds.
SOURCE: client_n_vt.c:168-172 -/
theorem timeUs_site (site : ClientSite) :
    clientNVt.timeUs site.name = .ok (ClientSite.charged site) := by
  rw [timeUs_eq]
  exact congrArg Except.ok (lastPut_clientFuncTimes site)

/-! ## The thread does what the client does -/

theorem emits_threadStep (server : α) {w w' : Thread α} {act : ThreadAct α}
    (hw : ThreadStep clientNVt w act w') :
    (threadAlone server).Emits threadEvents w (threadEvents act) w' := by
  apply LTS.Emits.of_step
  show testThread clientNVt w act = some w'
  exact testThread_of_threadStep hw

omit [DecidableEq α] in
/-- INTERNAL: behind a call the thread is at the test of `arg->stop` where the client is, or both
are gone. -/
theorem standsAt_behind (serverAddr : α) {c : Client} {site : ClientSite}
    (hpc : c.pc = .updateStub site) (left : ℤ) (exits : Prop) [Decidable exits] :
    StandsAt { c with left := left, pc := if exits then .finished else .testStop site }
      { threadOf serverAddr c with
        left := left
        pc := if exits then .finished else .testStop } := by
  by_cases hexits : exits
  · rw [if_pos hexits, if_pos hexits]
    exact Or.inr ⟨rfl, rfl⟩
  · rw [if_neg hexits, if_neg hexits]
    obtain ⟨pc, cleft, pktNo, nBytes, buffer⟩ := c
    obtain rfl : pc = .updateStub site := hpc
    refine Or.inl ⟨serverAddr, ?_⟩
    cases site <;> rfl

/-- INTERNAL: the thread reads the command at the end of a round. -/
theorem emits_nextCmd (server : α) (w : Thread α) (next : ℤ) (hpc : w.pc = .nextCmd) :
    (threadAlone server).Emits threadEvents w [.pipeRead next]
      { w with left := next, pc := if next ≤ 0 then .finished else .testStop } := by
  by_cases hnext : next ≤ 0
  · rw [if_pos hnext]
    exact emits_threadStep server (.nextCmdExit w next hpc hnext)
  · rw [if_neg hnext]
    exact emits_threadStep server (.nextCmd w next hpc (by omega))

/-- INTERNAL: the thread falls off the end of `update_stub`. -/
theorem emits_fallOff (server : α) (w : Thread α) (ret : ℤ) (hpc : w.pc = .fallOff) :
    (threadAlone server).Emits threadEvents w []
      { w with pc := if ret < 0 then .finished else .testStop } := by
  by_cases hret : ret < 0
  · rw [if_pos hret]
    exact emits_threadStep server (.fallOffExit w ret hpc hret)
  · rw [if_neg hret]
    exact emits_threadStep server (.fallOff w ret hpc (by omega))

/-- The exits of a call that has read a command, by its result. -/
theorem exits_iff (next fallOff : ℤ) :
    ((some (if next ≤ 0 then threadExiting else success)).getD fallOff < 0) = (next ≤ 0) := by
  by_cases hnext : next ≤ 0
  · simp [hnext, threadExiting]
  · simp [hnext, success]

/-- INTERNAL: **a call of `update_stub`, step by step.**
SOURCE: client_n_vt.c:168-189 -/
theorem emits_stubCall (server serverAddr : α) {c : Client} {site : ClientSite}
    (hpc : c.pc = .updateStub site) (next fallOff : ℤ) :
    ∃ w', (threadAlone server).Emits threadEvents (threadOf serverAddr c)
        (callEvents (stubResult c.left next (ClientSite.charged site))) w' ∧
      StandsAt { c with
        left := (stubResult c.left next (ClientSite.charged site)).left
        pc := if (stubResult c.left next (ClientSite.charged site)).ret.getD fallOff < 0 then
          .finished else .testStop site } w' := by
  have hpc' : (threadOf serverAddr c).pc = .updateStub site.name := by
    rw [threadOf, hpc]
    rfl
  have htime := timeUs_site site
  cases hcharged : ClientSite.charged site with
  | none =>
      rw [hcharged] at htime
      have hbehind := standsAt_behind serverAddr hpc c.left False
      rw [if_neg id, if_neg id] at hbehind
      exact ⟨_, emits_threadStep server (.unregistered _ _ hpc' htime), hbehind⟩
  | some cost =>
      rw [hcharged] at htime
      by_cases hleft : wrap32 (c.left - cost) ≤ 0
      · have hcharge := emits_threadStep server (.chargeOver _ _ cost hpc' htime hleft)
        have hreply := emits_threadStep server (.reply
          { threadOf serverAddr c with left := wrap32 (c.left - cost), pc := .reply } rfl)
        rw [stubResult_over next hleft]
        refine ⟨_, (hcharge.trans hreply).trans (emits_nextCmd server _ next rfl), ?_⟩
        simp only [exits_iff]
        exact standsAt_behind serverAddr hpc next (next ≤ 0)
      · have hcharge := emits_threadStep server
          (.charge _ _ cost hpc' htime (Int.not_le.mp hleft))
        rw [stubResult_within next hleft]
        refine ⟨_, hcharge.trans (emits_fallOff server _ fallOff rfl), ?_⟩
        exact standsAt_behind serverAddr hpc (wrap32 (c.left - cost)) (fallOff < 0)

/-- INTERNAL: the thread makes one step of its own. -/
theorem follows_of_step (server : α) {c' : Client} {w w' : Thread α} {act : ClientAct}
    {l : ThreadAct α} (hw : testThread clientNVt w l = some w')
    (hevents : threadEvents l = clientEvents act) (h : StandsAt c' w') :
    ∃ w', (threadAlone server).Emits threadEvents w (clientEvents act) w' ∧ StandsAt c' w' := by
  refine ⟨w', ?_, h⟩
  rw [← hevents]
  exact LTS.Emits.of_step hw

omit [DecidableEq α] in
/-- INTERNAL: both go on, or both are gone. -/
theorem standsAt_ite {pc : ClientPc} {pc' : ThreadPc} {left pktNo nBytes : ℤ}
    {buffer : List UInt8} {vars : TestVars α} {exits : Prop} [Decidable exits]
    (h : StandsAt ⟨pc, left, pktNo, nBytes, buffer⟩ ⟨pc', left, vars⟩) :
    StandsAt ⟨if exits then .finished else pc, left, pktNo, nBytes, buffer⟩
      ⟨if exits then .finished else pc', left, vars⟩ := by
  by_cases hexits : exits
  · rw [if_pos hexits, if_pos hexits]
    exact Or.inr ⟨rfl, rfl⟩
  · rw [if_neg hexits, if_neg hexits]
    exact h

/-- INTERNAL: **one step of the client is followed by the thread.**
SOURCE: client_n_vt.c:155-189, 252-376 -/
theorem thread_follows (server : α) {c c' : Client} {w : Thread α} {act : ClientAct}
    (h : StandsAt c w) (hs : clientThread c act = some c') :
    ∃ w', (threadAlone server).Emits threadEvents w (clientEvents act) w' ∧ StandsAt c' w' := by
  rcases h with ⟨serverAddr, rfl⟩ | ⟨hpc, -⟩
  · obtain ⟨pc, left, pktNo, nBytes, buffer⟩ := c
    unfold clientThread at hs
    split at hs
    · rename_i next call fallOff hpc
      obtain rfl : pc = .firstCmd := hpc
      split at hs
      · rename_i hcall
        rw [clientStub_none, Except.ok.injEq] at hcall
        subst hcall
        cases hs
        have hexits : ((some (if next < 0 then threadExiting else success)).getD fallOff < 0) =
            (next < 0) := by
          by_cases hnext : next < 0
          · simp [hnext, threadExiting]
          · simp [hnext, success]
        simp only [hexits]
        exact follows_of_step server (l := .pipeRead next) rfl rfl
          (standsAt_ite (Or.inl ⟨serverAddr, rfl⟩))
      · cases hs
    · rename_i hpc
      obtain rfl : pc = .needToSleep := hpc
      cases hs
      exact follows_of_step server (l := .writeIsBlocked true) rfl rfl (Or.inl ⟨serverAddr, rfl⟩)
    · rename_i msg hpc
      obtain rfl : pc = .announceSleep := hpc
      split at hs
      · rename_i hmsg
        cases hs
        exact follows_of_step server (l := .pipeSend msg) (if_pos hmsg) rfl
          (Or.inl ⟨serverAddr, rfl⟩)
      · cases hs
    · rename_i hpc
      obtain rfl : pc = .usleep := hpc
      cases hs
      exact follows_of_step server (l := .op .usleep) rfl rfl (Or.inl ⟨serverAddr, rfl⟩)
    · rename_i hpc
      obtain rfl : pc = .wake := hpc
      cases hs
      exact follows_of_step server (l := .writeIsBlocked false) rfl rfl
        (Or.inl ⟨serverAddr, rfl⟩)
    · rename_i msg hpc
      obtain rfl : pc = .wakeCmd := hpc
      cases hs
      exact follows_of_step server (l := .pipeRead msg) rfl rfl
        (standsAt_ite (Or.inl ⟨serverAddr, rfl⟩))
    · rename_i stop hpc
      obtain rfl : pc = .wakeStop := hpc
      cases hs
      exact follows_of_step server (l := .readStop stop) rfl rfl
        (standsAt_ite (Or.inl ⟨serverAddr, rfl⟩))
    · rename_i stop hpc
      obtain rfl : pc = .loop := hpc
      cases hs
      cases stop with
      | true => exact follows_of_step server (l := .readStop true) rfl rfl (Or.inr ⟨rfl, rfl⟩)
      | false =>
          exact follows_of_step server (l := .readStop false) rfl rfl (Or.inl ⟨serverAddr, rfl⟩)
    · rename_i hpc
      obtain rfl : pc = .flushRequest := hpc
      cases hs
      exact follows_of_step server (l := .op .flushBuffer) rfl rfl (Or.inl ⟨serverAddr, rfl⟩)
    · rename_i site next call fallOff hpc
      split at hs
      · rename_i hcall
        rw [clientStub_site, Except.ok.injEq] at hcall
        subst hcall
        cases hs
        exact emits_stubCall server serverAddr hpc next fallOff
      · cases hs
    · rename_i site stop hpc
      obtain rfl : pc = .testStop site := hpc
      cases hs
      cases stop with
      | true => exact follows_of_step server (l := .readStop true) rfl rfl (Or.inr ⟨rfl, rfl⟩)
      | false =>
          refine follows_of_step server (l := .readStop false) rfl rfl (Or.inl ⟨serverAddr, ?_⟩)
          cases site <;> rfl
    · rename_i data hpc
      obtain rfl : pc = .sendto := hpc
      split at hs
      · rename_i hdata
        cases hs
        have hsend : clientN ⟨.sendto, pktNo, nBytes, buffer, serverAddr⟩
            (.sendto (some serverAddr) data) =
              some ⟨.flushReply, pktNo, nBytes, buffer, serverAddr⟩ :=
          if_pos ⟨rfl, hdata⟩
        refine follows_of_step server (l := .op (.sendto (some serverAddr) data)) ?_ rfl
          (Or.inl ⟨serverAddr, rfl⟩)
        simp only [testThread, threadOf, threadPc, programPc, programNBytes, TestVars.head,
          TestVars.blocks, Thread.perform, TestVars.step, hsend]
        rfl
      · cases hs
    · rename_i hpc
      obtain rfl : pc = .flushReply := hpc
      cases hs
      exact follows_of_step server (l := .op .flushBuffer) rfl rfl (Or.inl ⟨serverAddr, rfl⟩)
    · rename_i hpc
      obtain rfl : pc = .needToBlock := hpc
      cases hs
      exact follows_of_step server (l := .writeIsBlocked true) rfl rfl (Or.inl ⟨serverAddr, rfl⟩)
    · rename_i msg hpc
      obtain rfl : pc = .announce := hpc
      split at hs
      · rename_i hmsg
        cases hs
        exact follows_of_step server (l := .pipeSend msg) (if_pos hmsg) rfl
          (Or.inl ⟨serverAddr, rfl⟩)
      · cases hs
    · rename_i hpc
      obtain rfl : pc = .recvfrom := hpc
      cases hs
      exact follows_of_step server (l := .op (.recvfrom none)) rfl rfl
        (Or.inl ⟨serverAddr, rfl⟩)
    · rename_i data hpc
      obtain rfl : pc = .recvfrom := hpc
      cases hs
      refine follows_of_step server (l := .op (.recvfrom (some (serverAddr, data)))) rfl rfl
        (Or.inl ⟨serverAddr, ?_⟩)
      simp only [threadOf, programPc, Int.natCast_pos]
      rfl
    · rename_i hpc
      obtain rfl : pc = .resume := hpc
      cases hs
      exact follows_of_step server (l := .writeIsBlocked false) rfl rfl
        (Or.inl ⟨serverAddr, rfl⟩)
    · rename_i msg hpc
      obtain rfl : pc = .resumeCmd := hpc
      cases hs
      exact follows_of_step server (l := .pipeRead msg) rfl rfl
        (standsAt_ite (Or.inl ⟨serverAddr, rfl⟩))
    · rename_i stop hpc
      obtain rfl : pc = .resumeStop := hpc
      cases hs
      refine follows_of_step server (l := .readStop stop) rfl rfl
        (standsAt_ite (Or.inl ⟨serverAddr, ?_⟩))
      exact (threadOf_behindReply serverAddr left pktNo nBytes buffer).symm
    · rename_i hpc
      obtain rfl : pc = .computation := hpc
      cases hs
      exact follows_of_step server (l := .op .computation) rfl rfl (Or.inl ⟨serverAddr, rfl⟩)
    · cases hs
  · unfold clientThread at hs
    rw [hpc] at hs
    cases hs

/-! ## The client does what the thread does -/

/-- The thread beside the client, with what it has done of a call under way: the client is in
front of the call until the thread is behind it. -/
inductive Within (c : Client) : Thread α → List ClientEvent → Prop
  | outside (w : Thread α) (h : StandsAt c w) : Within c w []
  | reply (serverAddr : α) (site : ClientSite) (cost : ℤ) (hpc : c.pc = .updateStub site)
      (hcost : ClientSite.charged site = some cost) (hleft : wrap32 (c.left - cost) ≤ 0) :
      Within c { threadOf serverAddr c with left := wrap32 (c.left - cost), pc := .reply }
        [.charge cost]
  | nextCmd (serverAddr : α) (site : ClientSite) (cost : ℤ) (hpc : c.pc = .updateStub site)
      (hcost : ClientSite.charged site = some cost) (hleft : wrap32 (c.left - cost) ≤ 0) :
      Within c { threadOf serverAddr c with left := wrap32 (c.left - cost), pc := .nextCmd }
        [.charge cost, .pipeSend (wrap32 (-1 * wrap32 (c.left - cost)))]
  | fallOff (serverAddr : α) (site : ClientSite) (cost : ℤ) (hpc : c.pc = .updateStub site)
      (hcost : ClientSite.charged site = some cost) (hleft : 0 < wrap32 (c.left - cost)) :
      Within c { threadOf serverAddr c with left := wrap32 (c.left - cost), pc := .fallOff }
        [.charge cost]

/-- What the thread has done, the call under way included, is matched by steps of the client and
the rest of a call. -/
def Matched (c : Client) (done : List ClientEvent) (w : Thread α) : Prop :=
  ∃ es c' called, client.Emits clientEvents c es c' ∧ done = es ++ called ∧ Within c' w called

omit [DecidableEq α] in
/-- INTERNAL: a step of the thread that is one of the client. -/
theorem matched_of_step {c c' : Client} {l : ClientAct} {w : Thread α}
    {done : List ClientEvent} (hs : clientThread c l = some c')
    (hevents : clientEvents l = done) (h : StandsAt c' w) : Matched c done w := by
  refine ⟨done, c', [], ?_, (List.append_nil done).symm, .outside w h⟩
  rw [← hevents]
  exact LTS.Emits.of_step hs

omit [DecidableEq α] in
/-- INTERNAL: a step of the thread within a call. -/
theorem matched_of_within {c : Client} {w : Thread α} {done : List ClientEvent}
    (h : Within c w done) : Matched c done w :=
  ⟨[], c, done, .refl c, rfl, h⟩

/-- INTERNAL: the client makes a call.
SOURCE: client_n_vt.c:168-189 -/
theorem clientThread_call {c : Client} {site : ClientSite} (hpc : c.pc = .updateStub site)
    (next fallOff : ℤ) :
    clientThread c (.updateStub next (stubResult c.left next (ClientSite.charged site)) fallOff) =
      some { c with
        left := (stubResult c.left next (ClientSite.charged site)).left
        pc := if (stubResult c.left next (ClientSite.charged site)).ret.getD fallOff < 0 then
          .finished else .testStop site } := by
  unfold clientThread
  simp only [hpc]
  rw [if_pos (clientStub_site c.left next site)]

/-- INTERNAL: the client's call for its first command.
SOURCE: client_n_vt.c:156-166 -/
theorem clientThread_firstCmd {c : Client} (hpc : c.pc = .firstCmd) (next : ℤ) :
    clientThread c (.updateStub next
        ⟨next, none, none, some next, some (if next < 0 then threadExiting else success)⟩ 0) =
      some { c with left := next, pc := if next < 0 then .finished else .needToSleep } := by
  have hexits : ((some (if next < 0 then threadExiting else success)).getD 0 < 0) =
      (next < 0) := by
    by_cases hnext : next < 0
    · simp [hnext, threadExiting]
    · simp [hnext, success]
  unfold clientThread
  simp only [hpc]
  rw [if_pos (clientStub_none c.left next)]
  simp only [hexits]

omit [DecidableEq α] in
/-- INTERNAL: the client is at the top of the loop where the thread tests the flag there. -/
theorem pc_of_head {c : Client} {serverAddr : α} (hpc : threadPc c.pc = .running)
    (hhead : (threadOf serverAddr c).vars.head = true) : c.pc = .loop := by
  have hloop : programPc c = .loop := of_decide_eq_true hhead
  unfold programPc at hloop
  cases h : c.pc <;> simp_all [threadPc]

omit [DecidableEq α] in
/-- INTERNAL: the client is in front of a wait where the thread announces it. -/
theorem pc_of_blocks {c : Client} {serverAddr : α} (hpc : threadPc c.pc = .running)
    (hblocks : (threadOf serverAddr c).vars.blocks = true) :
    c.pc = .needToSleep ∨ c.pc = .needToBlock := by
  have hwaits : programPc c = .usleep ∨ programPc c = .recvfrom := by
    simpa [TestVars.blocks, threadOf] using hblocks
  unfold programPc at hwaits
  cases h : c.pc <;> simp_all [threadPc]

omit [DecidableEq α] in
/-- INTERNAL: elsewhere the client is in front of a step that costs time. -/
theorem pc_of_op {c : Client} {serverAddr : α} (hpc : threadPc c.pc = .running)
    (hhead : (threadOf serverAddr c).vars.head = false)
    (hblocks : (threadOf serverAddr c).vars.blocks = false) :
    c.pc = .flushRequest ∨ c.pc = .sendto ∨ c.pc = .flushReply ∨ c.pc = .computation := by
  have hloop : programPc c ≠ .loop := of_decide_eq_false hhead
  have hwaits : programPc c ≠ .usleep ∧ programPc c ≠ .recvfrom := by
    simpa [TestVars.blocks, threadOf] using hblocks
  unfold programPc at hloop hwaits
  cases h : c.pc <;> simp_all [threadPc]

/-- INTERNAL: a step of the program that costs time is one of the client.
SOURCE: client_n_vt.c:286-318, 338-375 -/
theorem client_follows_op {c : Client} {serverAddr : α} {act : TestAct α} {vars : TestVars α}
    (hpc : threadPc c.pc = .running) (hhead : (threadOf serverAddr c).vars.head = false)
    (hblocks : (threadOf serverAddr c).vars.blocks = false)
    (hstep : (threadOf serverAddr c).vars.step .flushBuffer act = some vars) :
    Matched c (threadEvents (.op act))
      { threadOf serverAddr c with vars := vars, pc := clientNVt.behind act } := by
  obtain ⟨pc, left, pktNo, nBytes, buffer⟩ := c
  obtain ⟨v, hv, rfl⟩ := Option.map_eq_some_iff.mp hstep
  obtain rfl | rfl | rfl | rfl :
      pc = .flushRequest ∨ pc = .sendto ∨ pc = .flushReply ∨ pc = .computation :=
    pc_of_op hpc hhead hblocks
  · cases act with
    | flushBuffer =>
        cases hv
        exact matched_of_step (l := .flushBuffer) rfl rfl (Or.inl ⟨serverAddr, rfl⟩)
    | _ => cases hv
  · cases act with
    | sendto addr data =>
        obtain ⟨⟨-, hdata⟩, hv'⟩ := Option.ite_none_right_eq_some.mp hv
        cases hv'
        exact matched_of_step (l := .sendto data) (if_pos hdata) rfl
          (Or.inl ⟨serverAddr, rfl⟩)
    | _ => cases hv
  · cases act with
    | flushBuffer =>
        cases hv
        exact matched_of_step (l := .flushBuffer) rfl rfl (Or.inl ⟨serverAddr, rfl⟩)
    | _ => cases hv
  · cases act with
    | computation =>
        cases hv
        exact matched_of_step (l := .computation) rfl rfl (Or.inl ⟨serverAddr, rfl⟩)
    | _ => cases hv

/-- INTERNAL: a step of the program that may wait is one of the client.
SOURCE: client_n_vt.c:263, 327 -/
theorem client_follows_wait {c : Client} {serverAddr : α} {act : TestAct α} {vars : TestVars α}
    (hpc : threadPc c.pc = .blocked)
    (hstep : (threadOf serverAddr c).vars.step .flushBuffer act = some vars) :
    Matched c (threadEvents (.op act))
      { threadOf serverAddr c with vars := vars, pc := .resume } := by
  obtain ⟨pc, left, pktNo, nBytes, buffer⟩ := c
  obtain ⟨v, hv, rfl⟩ := Option.map_eq_some_iff.mp hstep
  cases pc with
  | usleep =>
      cases act with
      | usleep =>
          cases hv
          exact matched_of_step (l := .usleep) rfl rfl (Or.inl ⟨serverAddr, rfl⟩)
      | _ => cases hv
  | recvfrom =>
      cases act with
      | recvfrom datagram =>
          cases datagram with
          | none =>
              cases hv
              exact matched_of_step (l := .recvfrom none) rfl rfl
                (Or.inl ⟨serverAddr, rfl⟩)
          | some datagram =>
              cases hv
              refine matched_of_step (l := .recvfrom (some datagram.2)) rfl rfl
                (Or.inl ⟨datagram.1, ?_⟩)
              simp only [threadOf, programPc, Int.natCast_pos]
              rfl
      | _ => cases hv
  | _ => cases hpc

/-- INTERNAL: **one step of the thread from outside a call**, by the steps of the thread.
SOURCE: client_n_vt.c:155-189, 252-376 -/
theorem client_follows_outside {c : Client} {serverAddr : α} {w : Thread α} {act : ThreadAct α}
    (hw : ThreadStep clientNVt (threadOf serverAddr c) act w) :
    Matched c ([] ++ threadEvents act) w := by
  obtain ⟨pc, left, pktNo, nBytes, buffer⟩ := c
  cases hw with
  | firstCmdExit msg hpc hmsg =>
      cases pc with
      | firstCmd =>
          refine matched_of_step (clientThread_firstCmd rfl msg) rfl (Or.inr ⟨?_, rfl⟩)
          exact if_pos hmsg
      | _ => cases hpc
  | firstCmd msg hpc hmsg =>
      cases pc with
      | firstCmd =>
          refine matched_of_step (clientThread_firstCmd rfl msg) rfl (Or.inl ⟨serverAddr, ?_⟩)
          rw [if_neg (Int.not_lt.mpr hmsg)]
          rfl
      | _ => cases hpc
  | headExit hpc hhead =>
      obtain rfl : pc = .loop := pc_of_head hpc hhead
      exact matched_of_step (l := .readStop true) rfl rfl (Or.inr ⟨rfl, rfl⟩)
  | head vars hpc hhead hstep =>
      obtain rfl : pc = .loop := pc_of_head hpc hhead
      cases hstep
      exact matched_of_step (l := .readStop false) rfl rfl (Or.inl ⟨serverAddr, rfl⟩)
  | needToBlock hpc hblocks =>
      obtain rfl | rfl : pc = .needToSleep ∨ pc = .needToBlock := pc_of_blocks hpc hblocks
      · exact matched_of_step (l := .writeIsBlocked true) rfl rfl (Or.inl ⟨serverAddr, rfl⟩)
      · exact matched_of_step (l := .writeIsBlocked true) rfl rfl (Or.inl ⟨serverAddr, rfl⟩)
  | op act vars hpc hhead hblocks hstep =>
      exact client_follows_op hpc hhead hblocks hstep
  | unregistered lastFn hpc htime =>
      cases pc with
      | updateStub site =>
          cases hpc
          rw [timeUs_site, Except.ok.injEq] at htime
          have hcall := clientThread_call (c := ⟨.updateStub site, left, pktNo, nBytes, buffer⟩)
            rfl 0 0
          rw [htime] at hcall
          refine matched_of_step hcall rfl (Or.inl ⟨serverAddr, ?_⟩)
          cases site <;> rfl
      | _ => cases hpc
  | chargeOver lastFn cost hpc htime hleft =>
      cases pc with
      | updateStub site =>
          cases hpc
          rw [timeUs_site, Except.ok.injEq] at htime
          exact matched_of_within (.reply serverAddr site cost rfl htime hleft)
      | _ => cases hpc
  | charge lastFn cost hpc htime hleft =>
      cases pc with
      | updateStub site =>
          cases hpc
          rw [timeUs_site, Except.ok.injEq] at htime
          exact matched_of_within (.fallOff serverAddr site cost rfl htime hleft)
      | _ => cases hpc
  | testStopExit hpc =>
      cases pc with
      | testStop site =>
          exact matched_of_step (l := .readStop true) rfl rfl (Or.inr ⟨rfl, rfl⟩)
      | _ => cases hpc
  | testStop hpc =>
      cases pc with
      | testStop site =>
          refine matched_of_step (l := .readStop false) rfl rfl (Or.inl ⟨serverAddr, ?_⟩)
          cases site <;> rfl
      | _ => cases hpc
  | announce hpc =>
      cases pc with
      | announceSleep | announce =>
          exact matched_of_step (l := .pipeSend threadBlocked) rfl rfl
            (Or.inl ⟨serverAddr, rfl⟩)
      | _ => cases hpc
  | call act vars hpc hstep =>
      exact client_follows_wait hpc hstep
  | resume hpc =>
      cases pc with
      | wake | resume =>
          exact matched_of_step (l := .writeIsBlocked false) rfl rfl (Or.inl ⟨serverAddr, rfl⟩)
      | _ => cases hpc
  | resumeCmdExit msg hpc hmsg =>
      cases pc with
      | wakeCmd | resumeCmd =>
          refine matched_of_step (l := .pipeRead msg) rfl rfl (Or.inr ⟨?_, rfl⟩)
          exact if_pos hmsg
      | _ => cases hpc
  | resumeCmd msg hpc hmsg =>
      cases pc with
      | wakeCmd | resumeCmd =>
          refine matched_of_step (l := .pipeRead msg) rfl rfl (Or.inl ⟨serverAddr, ?_⟩)
          rw [if_neg (Int.not_le.mpr hmsg)]
          rfl
      | _ => cases hpc
  | resumeStopExit hpc =>
      cases pc with
      | wakeStop | resumeStop =>
          exact matched_of_step (l := .readStop true) rfl rfl (Or.inr ⟨rfl, rfl⟩)
      | _ => cases hpc
  | resumeStop hpc =>
      cases pc with
      | wakeStop =>
          exact matched_of_step (l := .readStop false) rfl rfl (Or.inl ⟨serverAddr, rfl⟩)
      | resumeStop =>
          exact matched_of_step (l := .readStop false) rfl rfl
            (Or.inl ⟨serverAddr, (threadOf_behindReply serverAddr left pktNo nBytes buffer).symm⟩)
      | _ => cases hpc
  | reply hpc | nextCmdExit msg hpc hmsg | nextCmd msg hpc hmsg | fallOffExit ret hpc hret
  | fallOff ret hpc hret => cases pc <;> cases hpc

/-- INTERNAL: **one step of the thread is followed by the client**, or by the rest of a call.
SOURCE: client_n_vt.c:155-189, 252-376 -/
theorem client_follows {c : Client} {w w' : Thread α} {called : List ClientEvent}
    {act : ThreadAct α} (h : Within c w called) (hw : ThreadStep clientNVt w act w') :
    Matched c (called ++ threadEvents act) w' := by
  cases h with
  | outside w h =>
      rcases h with ⟨serverAddr, rfl⟩ | ⟨-, hpc⟩
      · exact client_follows_outside hw
      · cases hw <;> simp_all
  | reply serverAddr site cost hpc hcost hleft =>
      cases hw with
      | reply => exact matched_of_within (.nextCmd serverAddr site cost hpc hcost hleft)
      | _ => simp_all
  | nextCmd serverAddr site cost hpc hcost hleft =>
      have hcall := fun next => clientThread_call hpc next 0
      have hbehind := fun next : ℤ =>
        standsAt_behind serverAddr hpc next (next ≤ 0)
      simp only [hcost, stubResult_over _ hleft, exits_iff] at hcall
      cases hw with
      | nextCmdExit next hpc' hnext =>
          refine matched_of_step (hcall next) rfl ?_
          simpa only [if_pos hnext] using hbehind next
      | nextCmd next hpc' hnext =>
          refine matched_of_step (hcall next) rfl ?_
          simpa only [if_neg (Int.not_le.mpr hnext)] using hbehind next
      | _ => simp_all
  | fallOff serverAddr site cost hpc hcost hleft =>
      have hcall := fun fallOff => clientThread_call hpc 0 fallOff
      have hbehind := fun fallOff : ℤ =>
        standsAt_behind serverAddr hpc (wrap32 (c.left - cost)) (fallOff < 0)
      simp only [hcost, stubResult_within 0 (Int.not_le.mpr hleft), Option.getD_none] at hcall
      cases hw with
      | fallOffExit ret hpc' hret =>
          refine matched_of_step (hcall ret) rfl ?_
          simpa only [if_pos hret] using hbehind ret
      | fallOff ret hpc' hret =>
          refine matched_of_step (hcall ret) rfl ?_
          simpa only [if_neg (Int.not_lt.mpr hret)] using hbehind ret
      | _ => simp_all

/-! ## Whole runs -/

omit [DecidableEq α] in
/-- INTERNAL: no call is under way at the start. -/
theorem within_init (serverAddr : α) :
    Within Client.init ⟨.firstCmd, 0, (Role.client serverAddr).init⟩ [] :=
  .outside _ (Or.inl ⟨serverAddr, rfl⟩)

/-- INTERNAL: **every run of the thread is one of the client**, but for a call under way. -/
theorem client_of_thread (serverAddr : α) (ls : List (ThreadAct α)) (w : Thread α)
    (hrun : (threadAlone serverAddr).Run ls w) :
    ∃ acts c called, client.Run acts c ∧ Within c w called ∧
      ls.flatMap threadEvents = acts.flatMap clientEvents ++ called := by
  refine (threadAlone serverAddr).run_invariant
    (fun ls w => ∃ acts c called, client.Run acts c ∧ Within c w called ∧
      ls.flatMap threadEvents = acts.flatMap clientEvents ++ called)
    ⟨[], Client.init, [], rfl, within_init serverAddr, rfl⟩ ?_ ls w hrun
  rintro ls w l w' - ⟨acts, c, called, hacts, hwithin, hevents⟩ hs
  obtain ⟨es, c', called', ⟨more, hmore, rfl⟩, hdone, hwithin'⟩ :=
    client_follows hwithin (threadStep_of_testThread hs)
  refine ⟨acts ++ more, c', called', client.exec_trans hacts hmore, hwithin', ?_⟩
  rw [List.flatMap_append, List.flatMap_singleton, hevents, List.append_assoc, hdone,
    List.flatMap_append, List.append_assoc]

/-- INTERNAL: **every run of the client is one of the thread.** -/
theorem thread_of_client (serverAddr : α) (acts : List ClientAct) (c : Client)
    (hrun : client.Run acts c) :
    ∃ ls w, (threadAlone serverAddr).Run ls w ∧ StandsAt c w ∧
      ls.flatMap threadEvents = acts.flatMap clientEvents := by
  obtain ⟨w, ⟨ls, hls, hevents⟩, hruns⟩ :=
    client.run_simulation (threadAlone serverAddr) clientEvents threadEvents
      (Or.inl ⟨serverAddr, rfl⟩) (fun _ _ _ _ h hs => thread_follows serverAddr h hs) acts c hrun
  exact ⟨ls, w, hls, hruns, hevents⟩

/-- INTERNAL: in a run of a host the thread runs as it does on its own. -/
theorem threadAlone_of_host {fails : Bool} {serverAddr : α} {ls : List (TimedLabel α)}
    {s : TimedState α} (hrun : (timedHost fails (.client serverAddr)).Run ls s) :
    (threadAlone serverAddr).Run (ls.flatMap threadStepOf) s.thread := by
  refine (timedHost fails (.client serverAddr)).run_invariant
    (fun ls s => (threadAlone serverAddr).Run (ls.flatMap threadStepOf) s.thread) rfl ?_ ls s hrun
  rintro ls s l s' - hthread hs
  rw [List.flatMap_append, List.flatMap_singleton]
  rcases timedStep_cases hs with ⟨act, m, p, rfl, -, -, rfl⟩ |
    ⟨act, w, p, inbox, rfl, hw, -, -, rfl⟩ | ⟨src, data, rfl, rfl⟩
  · show (threadAlone serverAddr).Run (_ ++ []) s.thread
    rwa [List.append_nil]
  · have hthread' : ThreadStep clientNVt s.thread act w := hw
    have hstep : testThread clientNVt s.thread act = some w := testThread_of_threadStep hthread'
    exact ((threadAlone serverAddr).run_snoc_iff _ act w).mpr ⟨s.thread, hthread, hstep⟩
  · show (threadAlone serverAddr).Run (_ ++ []) s.thread
    rwa [List.append_nil]

/-- What an event adds to the account. -/
def ClientEvent.cost : ClientEvent → Option ℤ
  | .charge cost => some cost
  | _ => none

/-- INTERNAL: a call is booked with the cost it charges. -/
theorem cost_callEvents (call : StubCall) :
    (callEvents call).filterMap ClientEvent.cost = call.timeElapsed.toList := by
  obtain ⟨left, timeElapsed, sent, cmd, ret⟩ := call
  cases timeElapsed <;> cases sent <;> cases cmd <;> rfl

/-- INTERNAL: the account of a run has the costs that are charged in it. -/
theorem charged_clientBook (acts : List ClientAct) :
    (clientBook acts).charged = (acts.flatMap clientEvents).filterMap ClientEvent.cost := by
  induction acts using List.reverseRecOn with
  | nil => rfl
  | append_singleton acts act ih =>
      rw [clientBook_snoc, List.flatMap_append, List.flatMap_singleton, List.filterMap_append,
        ← ih]
      cases act with
      | updateStub next call fallOff =>
          rw [clientEvents, cost_callEvents]
          rfl
      | _ => exact (List.append_nil _).symm

/-- **The two models of the client agree.**  In every run of a host the thread of the client has
done what a run of the client does, and beyond it at most the beginning of one call of
`update_stub`; it stands where that run ends, or within the call; and its charges are the ones
in the account of that run, with that of the call under way.  Conversely the thread can do
whatever the client does in a run, and ends where it ends.
SOURCE: client_n_vt.c:155-208, 211-379 -/
theorem clients_agree (fails : Bool) (serverAddr : α) :
    (∀ (ls : List (TimedLabel α)) (s : TimedState α),
      (timedHost fails (.client serverAddr)).Run ls s →
        ∃ acts c called, client.Run acts c ∧ Within c s.thread called ∧
          (ls.flatMap threadStepOf).flatMap threadEvents =
            acts.flatMap clientEvents ++ called ∧
          ((ls.flatMap threadStepOf).flatMap threadEvents).filterMap ClientEvent.cost =
            (clientBook acts).charged ++ called.filterMap ClientEvent.cost) ∧
      ∀ (acts : List ClientAct) (c : Client), client.Run acts c →
        ∃ (ls : List (ThreadAct α)) (w : Thread α), (threadAlone serverAddr).Run ls w ∧
          StandsAt c w ∧ ls.flatMap threadEvents = acts.flatMap clientEvents := by
  refine ⟨?_, fun acts c hrun => thread_of_client serverAddr acts c hrun⟩
  intro ls s hrun
  obtain ⟨acts, c, called, hacts, hwithin, hevents⟩ :=
    client_of_thread serverAddr _ _ (threadAlone_of_host hrun)
  refine ⟨acts, c, called, hacts, hwithin, hevents, ?_⟩
  rw [hevents, List.filterMap_append, charged_clientBook]

end VtRouter.Analysis
