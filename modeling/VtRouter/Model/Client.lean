import VtRouter.Library.Transition
import VtRouter.Model.UpdateStub

/-!
# The client of the test programs

The worker of `client_n_vt.c` sends a request, blocks for the reply and computes, and after
each of these steps calls the same `update_stub` as the worker of the router.  A call is one
step here: its label carries everything the call did (`StubCall`), with any command that
the pipe may deliver.

The names that the calls pass are those of `process_thread`, and the table they are looked up
in is the one that `init_func_times` makes.
-/

set_option autoImplicit false

namespace VtRouter.Model

open Library

/-- The steps of an iteration that cost time. -/
inductive ClientOp
  | flushBuffer
  | sendto
  | computation
  deriving DecidableEq

/-- SOURCE: client_n_vt.c:49-51 -/
def ClientOp.timeUs : ClientOp → ℤ
  | .flushBuffer => 50
  | .sendto => 50
  | .computation => 50

/-- The calls of `update_stub` with a function name. -/
inductive ClientSite
  | flushRequest
  | sendto
  | flushReply
  | computation
  deriving DecidableEq

/-- The step in front of a call. -/
def ClientSite.op : ClientSite → ClientOp
  | .flushRequest => .flushBuffer
  | .sendto => .sendto
  | .flushReply => .flushBuffer
  | .computation => .computation

/-- The name a call of `update_stub` passes.
SOURCE: client_n_vt.c:289, 306, 316, 373 -/
def ClientSite.name : ClientSite → String
  | .flushRequest => "flush_buffer"
  | .sendto => "send_to"
  | .flushReply => "flush_buffer"
  | .computation => "computation"

/-- The names and costs that `init_func_times` registers, in its order.
SOURCE: client_n_vt.c:198-208 -/
def clientFuncTimes : List (String × ℤ) :=
  [("sendto", ClientOp.timeUs .sendto), ("flush_buffer", ClientOp.timeUs .flushBuffer),
    ("computation", ClientOp.timeUs .computation)]

/-- SOURCE: client_n_vt.c:198-208 -/
def clientInitFuncTimes : Except Fault (Hashmap ℤ) :=
  clientFuncTimes.foldlM (fun h t => hmapPutAbs h (cAbs (strHash (bytes t.1))) t.2)
    (hmapInit 1000)

/-- A call of `update_stub` in `process_thread`; the first one passes no name. -/
def clientStub (left : ℤ) (site : Option ClientSite) (next : ℤ) : Except Fault StubCall := do
  let funcTimesUs ← clientInitFuncTimes
  updateStubCall funcTimesUs left (site.map fun site => bytes site.name) next

/-- The control points of `process_thread`.  Those with a site are the call of `update_stub`
and the test of `arg->stop` behind it.
SOURCE: client_n_vt.c:211-379 -/
inductive ClientPc
  | firstCmd
  | needToSleep
  | announceSleep
  | usleep
  | wake
  | wakeCmd
  | wakeStop
  | loop
  | flushRequest
  | updateStub (site : ClientSite)
  | testStop (site : ClientSite)
  | sendto
  | flushReply
  | needToBlock
  | announce
  | recvfrom
  | resume
  | resumeCmd
  | resumeStop
  | computation
  | finished
  deriving DecidableEq

/-- The variables of `process_thread`: the budget left in the round, the number of requests
answered, the result of the last `recvfrom`, and the text in the buffer.  What it computes of
delays and throughput is only printed. -/
structure Client where
  pc : ClientPc
  left : ℤ
  pktNo : ℤ
  nBytes : ℤ
  buffer : List UInt8

/-- SOURCE: client_n_vt.c:211-232 -/
def Client.init : Client := ⟨.firstCmd, 0, 0, 0, []⟩

/-- What a step of the client exchanges with its environment.  `updateStub` carries the
command the pipe would deliver, what the call did, and the value left behind where it has no
result. -/
inductive ClientAct
  | updateStub (next : ℤ) (call : StubCall) (fallOff : ℤ)
  | pipeRead (msg : ℤ)
  | pipeSend (msg : ℤ)
  | readStop (stop : Bool)
  | writeIsBlocked (isBlocked : Bool)
  | usleep
  | flushBuffer
  | sendto (data : List UInt8)
  | recvfrom (data : Option (List UInt8))
  | computation

/-- The step of an iteration a label is, if it is one that costs time. -/
def ClientAct.op : ClientAct → Option ClientOp
  | .flushBuffer => some .flushBuffer
  | .sendto _ => some .sendto
  | .computation => some .computation
  | _ => none

/-- SOURCE: client_n_vt.c:38 -/
def clientBufSize : ℕ := 20000

/-- SOURCE: client_n_vt.c:286-287 -/
def request (pktNo : ℤ) : List UInt8 := bytes "REQUEST: " ++ intText (wrap32 (pktNo + 1))

/-- The client after the test of `arg->stop` behind a call has let it go on.
SOURCE: client_n_vt.c:289-318, 373-375 -/
def afterClientSite (w : Client) : ClientSite → Client
  | .flushRequest => { w with nBytes := w.buffer.length + 1, pc := .sendto }
  | .sendto => { w with pc := .flushReply }
  | .flushReply => { w with pc := .needToBlock }
  | .computation => { w with pc := .loop }

/-- One step of `process_thread`, `none` where the label does not belong to the control point.
SOURCE: client_n_vt.c:211-379 -/
def clientThread (w : Client) (act : ClientAct) : Option Client :=
  match w.pc, act with
  | .firstCmd, .updateStub next call fallOff =>
      if clientStub w.left none next = .ok call then
        some { w with
          left := call.left
          pc := if call.ret.getD fallOff < 0 then .finished else .needToSleep }
      else none
  | .needToSleep, .writeIsBlocked true => some { w with left := 0, pc := .announceSleep }
  | .announceSleep, .pipeSend msg =>
      if msg = threadBlocked then some { w with pc := .usleep } else none
  | .usleep, .usleep => some { w with pc := .wake }
  | .wake, .writeIsBlocked false => some { w with pc := .wakeCmd }
  | .wakeCmd, .pipeRead msg =>
      some { w with left := msg, pc := if msg ≤ 0 then .finished else .wakeStop }
  | .wakeStop, .readStop stop => some { w with pc := if stop then .finished else .loop }
  | .loop, .readStop stop => some { w with pc := if stop then .finished else .flushRequest }
  | .flushRequest, .flushBuffer =>
      some { w with buffer := request w.pktNo, pc := .updateStub .flushRequest }
  | .updateStub site, .updateStub next call fallOff =>
      if clientStub w.left (some site) next = .ok call then
        some { w with
          left := call.left
          pc := if call.ret.getD fallOff < 0 then .finished else .testStop site }
      else none
  | .testStop site, .readStop stop =>
      some (if stop then { w with pc := .finished } else afterClientSite w site)
  | .sendto, .sendto data =>
      if data = (w.buffer ++ [0]).take w.nBytes.toNat then
        some { w with pc := .updateStub .sendto }
      else none
  | .flushReply, .flushBuffer => some { w with buffer := [], pc := .updateStub .flushReply }
  | .needToBlock, .writeIsBlocked true => some { w with left := 0, pc := .announce }
  | .announce, .pipeSend msg =>
      if msg = threadBlocked then some { w with pc := .recvfrom } else none
  | .recvfrom, .recvfrom none => some { w with nBytes := -1, pc := .resume }
  | .recvfrom, .recvfrom (some data) =>
      let data := data.take clientBufSize
      some { w with buffer := data, nBytes := data.length, pc := .resume }
  | .resume, .writeIsBlocked false => some { w with pc := .resumeCmd }
  | .resumeCmd, .pipeRead msg =>
      some { w with left := msg, pc := if msg ≤ 0 then .finished else .resumeStop }
  | .resumeStop, .readStop stop =>
      some { w with
        pc := if stop then .finished else if 0 < w.nBytes then .computation else .loop }
  | .computation, .computation =>
      some { w with pktNo := wrap32 (w.pktNo + 1), pc := .updateStub .computation }
  | _, _ => none

/-- The thread, with the labels of its runs as their history. -/
def client : LTS Client ClientAct := ⟨Client.init, clientThread⟩

/-! ## The steps by kind -/

/-- The call a control point stands in front of. -/
def ClientPc.site : ClientPc → Option ClientSite
  | .updateStub site => some site
  | _ => none

/-- The steps of the client as far as its costs go: one that costs time stands in front of the
call of its site, the call itself, and the rest. -/
inductive ClientStep : Client → ClientAct → Client → Prop
  | op (w w' : Client) (act : ClientAct) (site : ClientSite) (hpc : w.pc.site = none)
      (hact : act.op = some site.op) (hpc' : w'.pc = .updateStub site) : ClientStep w act w'
  | stub (w w' : Client) (site : ClientSite) (next fallOff : ℤ) (call : StubCall)
      (hpc : w.pc = .updateStub site) (hcall : clientStub w.left (some site) next = .ok call)
      (hpc' : w'.pc.site = none) : ClientStep w (.updateStub next call fallOff) w'
  | firstCmd (w w' : Client) (next fallOff : ℤ) (call : StubCall) (hpc : w.pc.site = none)
      (hcall : clientStub w.left none next = .ok call) (hpc' : w'.pc.site = none) :
      ClientStep w (.updateStub next call fallOff) w'
  | free (w w' : Client) (act : ClientAct) (hpc : w.pc.site = none) (hact : act.op = none)
      (hstub : ∀ next call fallOff, act ≠ .updateStub next call fallOff)
      (hpc' : w'.pc.site = none) : ClientStep w act w'

theorem site_ite (p : Prop) [Decidable p] {a b : ClientPc} (ha : a.site = none)
    (hb : b.site = none) : (if p then a else b).site = none := by
  by_cases hp : p
  · rw [if_pos hp, ha]
  · rw [if_neg hp, hb]

/-- INTERNAL: behind a call the client is in front of no other.
SOURCE: client_n_vt.c:289-318, 373-375 -/
theorem site_afterClientSite (w : Client) (site : ClientSite) :
    (afterClientSite w site).pc.site = none := by
  cases site with
  | flushRequest => rfl
  | sendto => rfl
  | flushReply => rfl
  | computation => rfl

/-- **Inversion of the client's step function.** -/
theorem clientStep_of_clientThread {w w' : Client} {act : ClientAct}
    (h : clientThread w act = some w') : ClientStep w act w' := by
  unfold clientThread at h
  split at h
  · rename_i next call fallOff hpc
    split at h
    · rename_i hcall
      cases h
      exact .firstCmd w _ next fallOff call (by rw [hpc]; rfl) hcall (site_ite _ rfl rfl)
    · cases h
  · rename_i hpc
    cases h
    exact .free w _ _ (by rw [hpc]; rfl) rfl (fun _ _ _ => by simp) rfl
  · rename_i msg hpc
    split at h
    · cases h
      exact .free w _ _ (by rw [hpc]; rfl) rfl (fun _ _ _ => by simp) rfl
    · cases h
  · rename_i hpc
    cases h
    exact .free w _ _ (by rw [hpc]; rfl) rfl (fun _ _ _ => by simp) rfl
  · rename_i hpc
    cases h
    exact .free w _ _ (by rw [hpc]; rfl) rfl (fun _ _ _ => by simp) rfl
  · rename_i msg hpc
    cases h
    exact .free w _ _ (by rw [hpc]; rfl) rfl (fun _ _ _ => by simp) (site_ite _ rfl rfl)
  · rename_i stop hpc
    cases h
    exact .free w _ _ (by rw [hpc]; rfl) rfl (fun _ _ _ => by simp) (site_ite _ rfl rfl)
  · rename_i stop hpc
    cases h
    exact .free w _ _ (by rw [hpc]; rfl) rfl (fun _ _ _ => by simp) (site_ite _ rfl rfl)
  · rename_i hpc
    cases h
    exact .op w _ _ .flushRequest (by rw [hpc]; rfl) rfl rfl
  · rename_i site next call fallOff hpc
    split at h
    · rename_i hcall
      cases h
      exact .stub w _ site next fallOff call hpc hcall (site_ite _ rfl rfl)
    · cases h
  · rename_i site stop hpc
    cases h
    refine .free w _ _ (by rw [hpc]; rfl) rfl (fun _ _ _ => by simp) ?_
    cases stop with
    | true => rfl
    | false => exact site_afterClientSite w site
  · rename_i data hpc
    split at h
    · cases h
      exact .op w _ _ .sendto (by rw [hpc]; rfl) rfl rfl
    · cases h
  · rename_i hpc
    cases h
    exact .op w _ _ .flushReply (by rw [hpc]; rfl) rfl rfl
  · rename_i hpc
    cases h
    exact .free w _ _ (by rw [hpc]; rfl) rfl (fun _ _ _ => by simp) rfl
  · rename_i msg hpc
    split at h
    · cases h
      exact .free w _ _ (by rw [hpc]; rfl) rfl (fun _ _ _ => by simp) rfl
    · cases h
  · rename_i hpc
    cases h
    exact .free w _ _ (by rw [hpc]; rfl) rfl (fun _ _ _ => by simp) rfl
  · rename_i data hpc
    cases h
    exact .free w _ _ (by rw [hpc]; rfl) rfl (fun _ _ _ => by simp) rfl
  · rename_i hpc
    cases h
    exact .free w _ _ (by rw [hpc]; rfl) rfl (fun _ _ _ => by simp) rfl
  · rename_i msg hpc
    cases h
    exact .free w _ _ (by rw [hpc]; rfl) rfl (fun _ _ _ => by simp) (site_ite _ rfl rfl)
  · rename_i stop hpc
    cases h
    exact .free w _ _ (by rw [hpc]; rfl) rfl (fun _ _ _ => by simp) (site_ite _ rfl (site_ite _ rfl rfl))
  · rename_i hpc
    cases h
    exact .op w _ _ .computation (by rw [hpc]; rfl) rfl rfl
  · cases h

end VtRouter.Model
