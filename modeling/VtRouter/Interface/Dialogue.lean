import VtRouter.Library.Network
import VtRouter.Model.TimedProgram

/-!
# The test programs talk to each other

The hosts of an experiment, each with a client or a server on it, and the datagrams between them.
What the network does with a datagram is to deliver it or to lose it, and between two hosts it
keeps their order, as the routers do (`Analysis.Network`).  So every two hosts are joined by a
wire (`mesh`), and a host knows the wire by the address at its other end.

What a client and its server are for is a dialogue: a request, its reply, and the next request
only behind that (`exchange`).  `script` is all that has happened between the two when `n`
exchanges are over and the next has come to a certain `Stage`.
-/

set_option autoImplicit false

namespace VtRouter.Interface

open Library VtRouter.Model

variable {ν : Type}

/-! ## Hosts -/

/-- What a step of a program does to the datagrams.  A `sendto` without an address fails. -/
def actEvents : TestAct ν → List (Event ν (List UInt8) (ν × List UInt8))
  | .sendto (some addr) data => [.send (addr, data)]
  | .recvfrom (some (src, data)) => [.take src data]
  | _ => []

def hostEvents : HostLabel ν → List (Event ν (List UInt8) (ν × List UInt8))
  | .op act => actEvents act
  | .arrive src data => [.arrive src data]

def timedEvents : TimedLabel ν → List (Event ν (List UInt8) (ν × List UInt8))
  | .main _ => []
  | .thread (.op act) => actEvents act
  | .thread _ => []
  | .arrive src data => [.arrive src data]

/-- A wire between any two hosts. -/
def mesh : Wiring ν ν (List UInt8) (ν × List UInt8) where
  peer := fun p => some (p.2, p.1)
  outPort := Prod.fst
  frame := Prod.snd

/-- What happens between hosts. -/
abbrev HostHappening (ν : Type) := Happening ν ν (List UInt8) (ν × List UInt8)

section Networks

variable [DecidableEq ν]

/-- Hosts with the programs without virtual time. -/
def hostNet (fails : Bool) (role : ν → Role ν) :
    LTS (NetState ν ν (List UInt8) (HostState ν)) (NetLabel ν ν (List UInt8) (HostLabel ν)) :=
  network mesh (fun n => testHost fails .recvfrom (role n)) hostEvents

/-- Hosts with the virtual-time programs. -/
def timedNet (fails : Bool) (role : ν → Role ν) :
    LTS (NetState ν ν (List UInt8) (TimedState ν)) (NetLabel ν ν (List UInt8) (TimedLabel ν)) :=
  network mesh (fun n => timedHost fails (role n)) timedEvents

end Networks

/-- What happened in a run of the programs without virtual time. -/
def hostHistory (ls : List (NetLabel ν ν (List UInt8) (HostLabel ν))) : List (HostHappening ν) :=
  ls.flatMap (happenings hostEvents)

/-- What happened in a run of the virtual-time programs. -/
def timedHistory (ls : List (NetLabel ν ν (List UInt8) (TimedLabel ν))) :
    List (HostHappening ν) :=
  ls.flatMap (happenings timedEvents)

/-! ## Dialogues -/

/-- The datagram of a client for its request behind `n` exchanges.
SOURCE: client_n.c:148-161, client_n_vt.c:286-304 -/
def requestNo (n : ℕ) : List UInt8 := request (wrap32 n) ++ [0]

/-- The datagram of a server.
SOURCE: server_n.c:135-139, server_n_vt.c:316-325 -/
def reply : List UInt8 := fillBuffer (clientBufSize - 1)

/-- A request of the client `k` and the reply of its server `s`. -/
def exchange (k s : ν) (n : ℕ) : List (HostHappening ν) :=
  [.node k (.send (s, requestNo n)), .node s (.arrive k (requestNo n)),
    .node s (.take k (requestNo n)), .node s (.send (k, reply)), .node k (.arrive s reply),
    .node k (.take s reply)]

/-- How far an exchange has come: nothing has happened yet, or each of the first five happenings
is the last one; or the request or the reply was lost. -/
inductive Stage
  | composing
  | requested
  | queued
  | taken
  | replied
  | answered
  | requestLost
  | replyLost
  deriving DecidableEq

/-- What has happened of the exchange. -/
def Stage.happened (k s : ν) (n : ℕ) : Stage → List (HostHappening ν)
  | .composing => []
  | .requested => (exchange k s n).take 1
  | .queued => (exchange k s n).take 2
  | .taken => (exchange k s n).take 3
  | .replied => (exchange k s n).take 4
  | .answered => (exchange k s n).take 5
  | .requestLost => (exchange k s n).take 1 ++ [.lose (s, k) (requestNo n)]
  | .replyLost => (exchange k s n).take 4 ++ [.lose (k, s) reply]

/-- **The dialogue** of the client `k` and its server `s` at a stage behind `n` exchanges. -/
def script (k s : ν) (n : ℕ) (stage : Stage) : List (HostHappening ν) :=
  (List.range n).flatMap (exchange k s) ++ stage.happened k s n

/-- The host at which something happens, and the host it has to do with. -/
def parties : HostHappening ν → ν × ν
  | .node n (.arrive src _) => (n, src)
  | .node n (.take src _) => (n, src)
  | .node n (.send o) => (n, o.1)
  | .lose p _ => p

/-- What has happened between two hosts. -/
def conversation [DecidableEq ν] (k s : ν) (hs : List (HostHappening ν)) :
    List (HostHappening ν) :=
  hs.filter fun h => parties h = (k, s) ∨ parties h = (s, k)

/-- What is said of hosts when `hs` has happened: each client has a dialogue with its server, and
nobody talks to anybody else. -/
structure InDialogue [DecidableEq ν] (role : ν → Role ν) (hs : List (HostHappening ν)) :
    Prop where
  scripted : ∀ k s, role k = .client s → ∃ n stage, conversation k s hs = script k s n stage
  nobodyElse : ∀ h ∈ hs, ∃ k s, role k = .client s ∧ (parties h = (k, s) ∨ parties h = (s, k))

end VtRouter.Interface
