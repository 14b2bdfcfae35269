import VtRouter.Interface.Forwarding
import VtRouter.Library.FlowPath

/-!
# Routers joined by links

The routers of an experiment all run the same program, `router_n` or the virtual-time router, and
links join their interfaces.  `peer` says which: it gives the interface at the other end of the
link at an interface, and `none` where the link leads to a host.

A router looks at nothing of a frame but its destination, so the frames for one destination are a
flow in the sense of `Library.Flow` (`flowTo`), however many routers they pass.
-/

set_option autoImplicit false

namespace VtRouter.Interface

open Library VtRouter.Model

variable {ν : Type}

/-- The links as wires.  A frame is handed to `send_packet` for the socket of an interface. -/
def wiring (peer : ν × ℕ → Option (ν × ℕ)) : Wiring ν ℕ Frame Departure where
  peer := peer
  outPort := fun o => o.dst.toNat
  frame := Departure.data

/-- What happens in a network of routers. -/
abbrev NetworkEvent (ν : Type) := Happening ν ℕ Frame Departure

section Networks

variable [DecidableEq ν]

/-- Routers without virtual time. -/
def routerNet (cfg : ν → Config) (peer : ν × ℕ → Option (ν × ℕ)) :
    LTS (NetState ν ℕ Frame RouterState) (NetLabel ν ℕ Frame RouterLabel) :=
  network (wiring peer) (fun n => routerN (cfg n)) loopEvents

/-- Virtual-time routers. -/
def vtNet (cfg : ν → Config) (peer : ν × ℕ → Option (ν × ℕ)) :
    LTS (NetState ν ℕ Frame State) (NetLabel ν ℕ Frame Label) :=
  network (wiring peer) (fun n => vtRouter (cfg n)) netEvents

end Networks

/-- What happened in a run of routers without virtual time. -/
def routerHistory (ls : List (NetLabel ν ℕ Frame RouterLabel)) : List (NetworkEvent ν) :=
  ls.flatMap (happenings loopEvents)

/-- What happened in a run of virtual-time routers. -/
def vtHistory (ls : List (NetLabel ν ℕ Frame Label)) : List (NetworkEvent ν) :=
  ls.flatMap (happenings netEvents)

/-! ## Traffic -/

/-- The interface `getDstSockIdx` chooses for a destination.
SOURCE: utils.c:405-436 -/
def egressTo (cfg : Config) (dst : InAddr) : ℤ :=
  match dstIntf (inetNtoa dst) cfg.routingList with
  | none => -1
  | some dst =>
      match cfg.intfNames.findIdx? (fun name => decide (dst = name)) with
      | some i => i
      | none => 0

/-- INTERNAL: the lookup reads the destination only. -/
theorem egress_eq_egressTo (cfg : Config) (f : Frame) : egress cfg f = egressTo cfg (daddr f) := rfl

/-- A kind of frames for one destination, such as those from one host to another; what the
routers cut off a frame does not change its kind. -/
structure Traffic where
  dst : InAddr
  kind : Frame → Bool
  ne_nil : ∀ f, kind f = true → f ≠ []
  daddr_eq : ∀ f, kind f = true → daddr f = dst
  kind_take : ∀ f, kind (f.take bufSize) = kind f

/-- The source address in the IP header, which no router reads. -/
def saddr (pkt : List UInt8) : InAddr :=
  ⟨pkt.getD 26 0, pkt.getD 27 0, pkt.getD 28 0, pkt.getD 29 0⟩

/-- The bytes of the headers are the same in what a router sends. -/
theorem getD_take_bufSize (f : Frame) {k : ℕ} (hk : k < bufSize) :
    (f.take bufSize).getD k 0 = f.getD k 0 := by
  by_cases hlen : k < f.length
  · have hk' : k < (f.take bufSize).length := by
      rw [List.length_take]
      omega
    rw [List.getD_eq_getElem _ _ hk', List.getElem_take, List.getD_eq_getElem _ _ hlen]
  · have hk' : (f.take bufSize).length ≤ k := by
      rw [List.length_take]
      omega
    rw [List.getD_eq_default _ _ hk', List.getD_eq_default _ _ (by omega)]

/-- The traffic from one address to another. -/
def trafficBetween (src dst : InAddr) : Traffic where
  dst := dst
  kind := fun f => decide (f ≠ [] ∧ saddr f = src ∧ daddr f = dst)
  ne_nil := fun f hf => (of_decide_eq_true hf).1
  daddr_eq := fun f hf => (of_decide_eq_true hf).2.2
  kind_take := by
    intro f
    have hsize : 34 ≤ bufSize := by decide
    have hnil : f.take bufSize = [] ↔ f = [] := by simp [List.take_eq_nil_iff, bufSize]
    have hsaddr : saddr (f.take bufSize) = saddr f := by
      simp only [saddr, getD_take_bufSize f (show 26 < bufSize by omega),
        getD_take_bufSize f (show 27 < bufSize by omega),
        getD_take_bufSize f (show 28 < bufSize by omega),
        getD_take_bufSize f (show 29 < bufSize by omega)]
    have hdaddr : daddr (f.take bufSize) = daddr f := by
      simp only [daddr, getD_take_bufSize f (show 30 < bufSize by omega),
        getD_take_bufSize f (show 31 < bufSize by omega),
        getD_take_bufSize f (show 32 < bufSize by omega),
        getD_take_bufSize f (show 33 < bufSize by omega)]
    rw [hsaddr, hdaddr]
    simp only [ne_eq, hnil]

/-- **Traffic is a flow:** a router sends all frames for a destination out of one interface, or
none of them, and cuts them down to the size of its buffer.
SOURCE: utils.c:381-436, 733-769, router_n.c:188-202 -/
def flowTo (cfg : ν → Config) (peer : ν × ℕ → Option (ν × ℕ)) (T : Traffic) :
    Flow (wiring peer) (fun n => dueFor (cfg n)) where
  kind := T.kind
  norm := List.take bufSize
  out := fun n => if egressTo (cfg n) T.dst = -1 then none else some (egressTo (cfg n) T.dst).toNat
  norm_norm := fun f => by rw [List.take_take, Nat.min_self]
  kind_norm := T.kind_take
  frame_handle := by
    intro n i f o ho
    unfold dueFor at ho
    split at ho
    · cases ho
    · cases ho
      rfl
  out_handle := by
    intro n i f hk
    have hegress : egress (cfg n) f = egressTo (cfg n) T.dst := by
      rw [egress_eq_egressTo, T.daddr_eq f hk]
    simp only [dueFor, T.ne_nil f hk, false_or, hegress]
    split
    · rfl
    · rfl

/-- The frames of the traffic that have come in from hosts. -/
def incoming (peer : ν × ℕ → Option (ν × ℕ)) (T : Traffic) (hs : List (NetworkEvent ν)) :
    List Frame :=
  ((entered (wiring peer) hs).map Prod.snd).filter T.kind

/-- The frames of the traffic that have gone out to hosts. -/
def outgoing (peer : ν × ℕ → Option (ν × ℕ)) (T : Traffic) (hs : List (NetworkEvent ν)) :
    List Frame :=
  ((departed (wiring peer) hs).map Prod.snd).filter T.kind

/-- The frames of the traffic that were lost on links. -/
def lostOf (T : Traffic) (hs : List (NetworkEvent ν)) : List Frame := (lost hs).filter T.kind

/-- The traffic comes in from a host at one interface only. -/
def ComesInAt (peer : ν × ℕ → Option (ν × ℕ)) (T : Traffic) (port : ν × ℕ)
    (hs : List (NetworkEvent ν)) : Prop :=
  ∀ x ∈ entered (wiring peer) hs, T.kind x.2 = true → x.1 = port

/-- What is said of traffic that the routes lead to the host at `port`, when `hs` has happened
and `idle` says that the routers on the way have nothing left to do. -/
structure DeliveredTo (peer : ν × ℕ → Option (ν × ℕ)) (T : Traffic) (port : ν × ℕ)
    (hs : List (NetworkEvent ν)) (idle : Prop) : Prop where
  /-- What has come out, and then what is under way, has come in in this order; what is in
  neither was lost on a link. -/
  inOrder : ∃ underWay : List Frame,
    List.Sublist (outgoing peer T hs ++ underWay)
        ((incoming peer T hs).map (List.take bufSize)) ∧
      ((incoming peer T hs).map (List.take bufSize)).Perm
        (outgoing peer T hs ++ (lostOf T hs).map (List.take bufSize) ++ underWay) ∧
      (idle → underWay = [])
  /-- It comes out nowhere else. -/
  nowhereElse : ∀ x ∈ departed (wiring peer) hs, T.kind x.2 = true → x.1 = port

/-- The frames of the traffic that routers have taken and not sent. -/
def droppedBy (cfg : ν → Config) (T : Traffic) (hs : List (NetworkEvent ν)) : List Frame :=
  (discarded (fun n => dueFor (cfg n)) hs).filter T.kind

/-- What is said of traffic that the routes lead to no host. -/
structure Withheld (cfg : ν → Config) (peer : ν × ℕ → Option (ν × ℕ)) (T : Traffic)
    (hs : List (NetworkEvent ν)) (idle : Prop) : Prop where
  /-- It does not come out. -/
  neverOut : ∀ x ∈ departed (wiring peer) hs, T.kind x.2 = false
  /-- It was dropped by a router or lost on a link, or is still under way. -/
  accounted : ∃ underWay : List Frame,
    ((incoming peer T hs).map (List.take bufSize)).Perm
        ((droppedBy cfg T hs).map (List.take bufSize) ++
          (lostOf T hs).map (List.take bufSize) ++ underWay) ∧
      (idle → underWay = [])

end VtRouter.Interface
