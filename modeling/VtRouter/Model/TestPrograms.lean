import VtRouter.Model.Client

/-!
# The test programs

A client that sends a request and waits for the reply, and a server that answers every request
with the same bytes.  `client_n.c` and `client_n_vt.c` go through the same loop, and so do
`server_n.c` and `server_n_vt.c`, but that the virtual-time server flushes its buffer at the
start of an iteration; what the virtual-time programs do between these steps is in
`Model.TimedProgram`.

Neither program looks at what it receives.  The client answers to the sender of the last datagram
from then on, and the server takes a failed `recvfrom` for a request.
-/

set_option autoImplicit false

namespace VtRouter.Model

open Library

variable {α : Type} [DecidableEq α]

/-- The steps of the programs.  The address of a `sendto` is `none` where no datagram has filled
it in, and the datagram of a `recvfrom` is `none` for an error. -/
inductive TestAct (α : Type)
  | usleep
  | loop
  | flushBuffer
  | fillBuffer
  | sendto (addr : Option α) (data : List UInt8)
  | recvfrom (datagram : Option (α × List UInt8))
  | computation
  deriving DecidableEq

/-! ## The client -/

/-- The control points of the client's loop.
SOURCE: client_n.c:139-206, client_n_vt.c:263-376 -/
inductive ClientNPc
  | usleep
  | loop
  | flushRequest
  | sendto
  | flushReply
  | recvfrom
  | computation
  deriving DecidableEq

/-- The variables of the client.  What it computes of delays and throughput is only printed. -/
structure ClientN (α : Type) where
  pc : ClientNPc
  pktNo : ℤ
  nBytes : ℤ
  buffer : List UInt8
  serverAddr : α

/-- SOURCE: client_n.c:97-134 -/
def ClientN.init (serverAddr : α) : ClientN α := ⟨.usleep, 0, 0, [], serverAddr⟩

/-- One step of the client, `none` where the step does not belong to the control point.
SOURCE: client_n.c:139-206, client_n_vt.c:263-376 -/
def clientN (c : ClientN α) (act : TestAct α) : Option (ClientN α) :=
  match c.pc, act with
  | .usleep, .usleep => some { c with pc := .loop }
  | .loop, .loop => some { c with pc := .flushRequest }
  | .flushRequest, .flushBuffer =>
      some { c with
        buffer := request c.pktNo
        nBytes := (request c.pktNo).length + 1
        pc := .sendto }
  | .sendto, .sendto addr data =>
      if addr = some c.serverAddr ∧ data = (c.buffer ++ [0]).take c.nBytes.toNat then
        some { c with pc := .flushReply }
      else none
  | .flushReply, .flushBuffer => some { c with buffer := [], pc := .recvfrom }
  | .recvfrom, .recvfrom none => some { c with nBytes := -1, pc := .loop }
  | .recvfrom, .recvfrom (some (src, data)) =>
      let data := data.take clientBufSize
      some { c with
        buffer := data
        nBytes := data.length
        serverAddr := src
        pc := if 0 < data.length then .computation else .loop }
  | .computation, .computation => some { c with pktNo := wrap32 (c.pktNo + 1), pc := .loop }
  | _, _ => none

/-- The steps of the client, one constructor a branch. -/
inductive ClientNStep : ClientN α → TestAct α → ClientN α → Prop
  | usleep (c : ClientN α) (hpc : c.pc = .usleep) : ClientNStep c .usleep { c with pc := .loop }
  | loop (c : ClientN α) (hpc : c.pc = .loop) : ClientNStep c .loop { c with pc := .flushRequest }
  | flushRequest (c : ClientN α) (hpc : c.pc = .flushRequest) :
      ClientNStep c .flushBuffer
        { c with
          buffer := request c.pktNo
          nBytes := (request c.pktNo).length + 1
          pc := .sendto }
  | sendto (c : ClientN α) (hpc : c.pc = .sendto) :
      ClientNStep c (.sendto (some c.serverAddr) ((c.buffer ++ [0]).take c.nBytes.toNat))
        { c with pc := .flushReply }
  | flushReply (c : ClientN α) (hpc : c.pc = .flushReply) :
      ClientNStep c .flushBuffer { c with buffer := [], pc := .recvfrom }
  | recvfromError (c : ClientN α) (hpc : c.pc = .recvfrom) :
      ClientNStep c (.recvfrom none) { c with nBytes := -1, pc := .loop }
  | recvfrom (c : ClientN α) (src : α) (data : List UInt8) (hpc : c.pc = .recvfrom) :
      ClientNStep c (.recvfrom (some (src, data)))
        { c with
          buffer := data.take clientBufSize
          nBytes := (data.take clientBufSize).length
          serverAddr := src
          pc := if 0 < (data.take clientBufSize).length then .computation else .loop }
  | computation (c : ClientN α) (hpc : c.pc = .computation) :
      ClientNStep c .computation { c with pktNo := wrap32 (c.pktNo + 1), pc := .loop }

/-- **Inversion of the client's step function.** -/
theorem clientNStep_of_clientN {c c' : ClientN α} {act : TestAct α}
    (h : clientN c act = some c') : ClientNStep c act c' := by
  unfold clientN at h
  split at h
  · rename_i hpc
    cases h
    exact .usleep c hpc
  · rename_i hpc
    cases h
    exact .loop c hpc
  · rename_i hpc
    cases h
    exact .flushRequest c hpc
  · rename_i addr data hpc
    split at h
    · rename_i hargs
      obtain ⟨rfl, rfl⟩ := hargs
      cases h
      exact .sendto c hpc
    · cases h
  · rename_i hpc
    cases h
    exact .flushReply c hpc
  · rename_i hpc
    cases h
    exact .recvfromError c hpc
  · rename_i src data hpc
    cases h
    exact .recvfrom c src data hpc
  · rename_i hpc
    cases h
    exact .computation c hpc
  · cases h

/-- INTERNAL: every step by name is a step of the function. -/
theorem clientN_of_clientNStep {c c' : ClientN α} {act : TestAct α} (h : ClientNStep c act c') :
    clientN c act = some c' := by
  unfold clientN
  cases h with
  | sendto hpc =>
      rw [hpc]
      exact if_pos ⟨rfl, rfl⟩
  | usleep hpc | loop hpc | flushRequest hpc | flushReply hpc | recvfromError hpc
  | recvfrom src data hpc | computation hpc => rw [hpc]

/-! ## The server -/

/-- The control points of the server's loop.
SOURCE: server_n.c:125-142, server_n_vt.c:280-331 -/
inductive ServerNPc
  | loop
  | flushBuffer
  | recvfrom
  | fillBuffer
  | sendto
  deriving DecidableEq

/-- The variables of the server. -/
structure ServerN (α : Type) where
  pc : ServerNPc
  nBytes : ℤ
  buffer : List UInt8
  serverStorage : Option α

/-- SOURCE: server_n.c:73-123 -/
def ServerN.init : ServerN α := ⟨.loop, 0, [], none⟩

/-- SOURCE: server_n.c:64-71, server_n_vt.c:210-217 -/
def fillBuffer (size : ℕ) : List UInt8 := List.replicate size 65

/-- One step of the server, `none` where the step does not belong to the control point.  `top` is
where an iteration starts: at its `recvfrom` in `server_n.c`, with a `flushBuffer` before that in
`server_n_vt.c`.
SOURCE: server_n.c:125-142, server_n_vt.c:280-331 -/
def serverN (top : ServerNPc) (v : ServerN α) (act : TestAct α) : Option (ServerN α) :=
  match v.pc, act with
  | .loop, .loop => some { v with pc := top }
  | .flushBuffer, .flushBuffer => some { v with buffer := [], pc := .recvfrom }
  | .recvfrom, .recvfrom none => some { v with nBytes := -1, pc := .fillBuffer }
  | .recvfrom, .recvfrom (some (src, data)) =>
      let data := data.take clientBufSize
      some { v with
        buffer := data ++ v.buffer.drop data.length
        nBytes := data.length
        serverStorage := some src
        pc := if (data.length : ℤ) ≠ 0 then .fillBuffer else .loop }
  | .fillBuffer, .fillBuffer =>
      some { v with buffer := fillBuffer (clientBufSize - 1), pc := .sendto }
  | .sendto, .sendto addr data =>
      if addr = v.serverStorage ∧ data = v.buffer.take (clientBufSize - 1) then
        some { v with pc := .loop }
      else none
  | _, _ => none

/-- The steps of the server, one constructor a branch. -/
inductive ServerNStep (top : ServerNPc) : ServerN α → TestAct α → ServerN α → Prop
  | loop (v : ServerN α) (hpc : v.pc = .loop) : ServerNStep top v .loop { v with pc := top }
  | flushBuffer (v : ServerN α) (hpc : v.pc = .flushBuffer) :
      ServerNStep top v .flushBuffer { v with buffer := [], pc := .recvfrom }
  | recvfromError (v : ServerN α) (hpc : v.pc = .recvfrom) :
      ServerNStep top v (.recvfrom none) { v with nBytes := -1, pc := .fillBuffer }
  | recvfrom (v : ServerN α) (src : α) (data : List UInt8) (hpc : v.pc = .recvfrom) :
      ServerNStep top v (.recvfrom (some (src, data)))
        { v with
          buffer := data.take clientBufSize ++ v.buffer.drop (data.take clientBufSize).length
          nBytes := (data.take clientBufSize).length
          serverStorage := some src
          pc := if ((data.take clientBufSize).length : ℤ) ≠ 0 then .fillBuffer else .loop }
  | fillBuffer (v : ServerN α) (hpc : v.pc = .fillBuffer) :
      ServerNStep top v .fillBuffer
        { v with buffer := Model.fillBuffer (clientBufSize - 1), pc := .sendto }
  | sendto (v : ServerN α) (hpc : v.pc = .sendto) :
      ServerNStep top v (.sendto v.serverStorage (v.buffer.take (clientBufSize - 1)))
        { v with pc := .loop }

/-- **Inversion of the server's step function.** -/
theorem serverNStep_of_serverN {top : ServerNPc} {v v' : ServerN α} {act : TestAct α}
    (h : serverN top v act = some v') : ServerNStep top v act v' := by
  unfold serverN at h
  split at h
  · rename_i hpc
    cases h
    exact .loop v hpc
  · rename_i hpc
    cases h
    exact .flushBuffer v hpc
  · rename_i hpc
    cases h
    exact .recvfromError v hpc
  · rename_i src data hpc
    cases h
    exact .recvfrom v src data hpc
  · rename_i hpc
    cases h
    exact .fillBuffer v hpc
  · rename_i addr data hpc
    split at h
    · rename_i hargs
      obtain ⟨rfl, rfl⟩ := hargs
      cases h
      exact .sendto v hpc
    · cases h
  · cases h

/-- INTERNAL: every step by name is a step of the function. -/
theorem serverN_of_serverNStep {top : ServerNPc} {v v' : ServerN α} {act : TestAct α}
    (h : ServerNStep top v act v') : serverN top v act = some v' := by
  unfold serverN
  cases h with
  | sendto hpc =>
      rw [hpc]
      exact if_pos ⟨rfl, rfl⟩
  | loop hpc | flushBuffer hpc | recvfromError hpc | recvfrom src data hpc | fillBuffer hpc =>
      rw [hpc]

/-! ## Either program -/

/-- The variables of a host's program. -/
inductive TestVars (α : Type)
  | client (c : ClientN α)
  | server (v : ServerN α)

/-- One step of a host's program. -/
def TestVars.step (top : ServerNPc) : TestVars α → TestAct α → Option (TestVars α)
  | .client c, act => (clientN c act).map .client
  | .server v, act => (serverN top v act).map .server

/-- INTERNAL: a step of the client is one of its host's program. -/
theorem step_of_clientNStep {top : ServerNPc} {c c' : ClientN α} {act : TestAct α}
    (h : ClientNStep c act c') : (TestVars.client c).step top act = some (.client c') := by
  simp only [TestVars.step, clientN_of_clientNStep h, Option.map_some]

/-- INTERNAL: a step of the server is one of its host's program. -/
theorem step_of_serverNStep {top : ServerNPc} {v v' : ServerN α} {act : TestAct α}
    (h : ServerNStep top v act v') : (TestVars.server v).step top act = some (.server v') := by
  simp only [TestVars.step, serverN_of_serverNStep h, Option.map_some]

/-- Where the virtual-time programs test `arg->stop`.
SOURCE: client_n_vt.c:281-284, server_n_vt.c:282-285 -/
def TestVars.head : TestVars α → Bool
  | .client c => c.pc = .loop
  | .server v => v.pc = .loop

/-- Where the virtual-time programs announce that they block.
SOURCE: client_n_vt.c:258-271, 320-332, server_n_vt.c:297-308 -/
def TestVars.blocks : TestVars α → Bool
  | .client c => c.pc = .usleep || c.pc = .recvfrom
  | .server v => v.pc = .recvfrom

/-- What runs on a host: the client with the address it is given, or the server. -/
inductive Role (α : Type)
  | client (serverAddr : α)
  | server
  deriving DecidableEq

def Role.init : Role α → TestVars α
  | .client serverAddr => .client (.init serverAddr)
  | .server => .server .init

/-! ## On a host -/

/-- A program and the datagrams that wait at its socket. -/
structure HostState (α : Type) where
  vars : TestVars α
  inbox : List (α × List UInt8)

inductive HostLabel (α : Type)
  | op (act : TestAct α)
  | arrive (src : α) (data : List UInt8)
  deriving DecidableEq

/-- The datagrams that are left at the socket, `none` where the step has to wait.  `fails` says
whether a `recvfrom` may fail. -/
def inboxAfter (fails : Bool) (inbox : List (α × List UInt8)) :
    TestAct α → Option (List (α × List UInt8))
  | .recvfrom (some datagram) =>
      match inbox with
      | d :: rest => if datagram = d then some rest else none
      | [] => none
  | .recvfrom none => if fails then some inbox else none
  | _ => some inbox

/-- One step of a host. -/
def hostStep (fails : Bool) (top : ServerNPc) (s : HostState α) :
    HostLabel α → Option (HostState α)
  | .op act =>
      match s.vars.step top act, inboxAfter fails s.inbox act with
      | some vars, some inbox => some ⟨vars, inbox⟩
      | _, _ => none
  | .arrive src data => some { s with inbox := s.inbox ++ [(src, data)] }

/-- **A host** with one of the test programs. -/
def testHost (fails : Bool) (top : ServerNPc) (role : Role α) : LTS (HostState α) (HostLabel α) :=
  ⟨⟨role.init, []⟩, hostStep fails top⟩

/-- INTERNAL: a step of a host is a step of its program, or an arrival. -/
theorem hostStep_cases {fails : Bool} {top : ServerNPc} {s s' : HostState α} {l : HostLabel α}
    (h : hostStep fails top s l = some s') :
    (∃ act vars inbox, l = .op act ∧ s.vars.step top act = some vars ∧
      inboxAfter fails s.inbox act = some inbox ∧ s' = ⟨vars, inbox⟩) ∨
    ∃ src data, l = .arrive src data ∧ s' = { s with inbox := s.inbox ++ [(src, data)] } := by
  cases l with
  | op act =>
      left
      simp only [hostStep] at h
      split at h
      · rename_i vars inbox hvars hinbox
        cases h
        exact ⟨act, vars, inbox, rfl, hvars, hinbox, rfl⟩
      · cases h
  | arrive src data =>
      right
      cases h
      exact ⟨src, data, rfl, rfl⟩

/-- INTERNAL: a datagram is taken from the front of the inbox. -/
theorem inboxAfter_recvfrom {fails : Bool} {inbox inbox' : List (α × List UInt8)}
    {datagram : α × List UInt8}
    (h : inboxAfter fails inbox (.recvfrom (some datagram)) = some inbox') :
    inbox = datagram :: inbox' := by
  cases inbox with
  | nil => cases h
  | cons d rest =>
      simp only [inboxAfter] at h
      split at h
      · rename_i heq
        cases h
        rw [heq]
      · cases h

end VtRouter.Model
