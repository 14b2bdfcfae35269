import VtRouter.Library.Transition
import VtRouter.Model.Routing

/-!
# The tunnel

Two ends of `simpletun`, each between a tap device and one end of a TCP connection.  An end sends
every frame of its tap behind two bytes that tell the length, and writes what it reads from the
connection to its tap.  Once they are connected, client and server run the same loop
(`tunnelEnd`).

A step is atomic between two system calls, and its label carries what the call returns.  A
read from the connection may return any part of what is in the stream, from one byte on; a write
may accept any part of what it is given.  An end of a stream is seen when the other process has
gone and nothing is left to read.  Accesses to `buffer` are checked: one behind its end leads to
the control point `overrun`.

The two counters of the loop are only printed.
-/

set_option autoImplicit false

namespace VtRouter.Model.Tunnel

open Library

/-- SOURCE: simpletun.c:41 -/
def bufSize : ℕ := 2000

/-- `htons`, as the bytes in memory. -/
def htons (n : ℕ) : List UInt8 := [UInt8.ofNat (n / 256), UInt8.ofNat n]

/-- `ntohs` of two bytes in memory. -/
def ntohs (plength : List UInt8) : ℕ := 256 * (plength.getD 0 0).toNat + (plength.getD 1 0).toNat

/-- The bytes of a buffer behind a write at an offset. -/
def overwrite (buf : List UInt8) (offset : ℕ) (data : List UInt8) : List UInt8 :=
  buf.take offset ++ (data ++ buf.drop (offset + data.length))

/-- The control points of the loop: in front of its system calls, and gone.
SOURCE: simpletun.c:314-371 -/
inductive EndPc
  | select
  | readTap
  | writeLength
  | writeFrame
  | readLength
  | readFrame
  | writeTap
  | returned
  | exited
  | overrun
  deriving DecidableEq

/-- The variables of the loop, and of `read_n` (`left`). -/
structure End where
  pc : EndPc
  netReady : Bool
  buffer : List UInt8
  nread : ℕ
  plength : List UInt8
  left : ℕ

def End.init : End := ⟨.select, false, List.replicate bufSize 0, 0, [0, 0], 0⟩

/-- The process has gone. -/
def End.gone (e : End) : Bool := e.pc = .returned ∨ e.pc = .exited ∨ e.pc = .overrun

/-- What a step of an end exchanges with its environment; `none` for a call that fails.  For
`writeNet` the data handed over and the number of bytes accepted. -/
inductive EndAct
  | select (tap net : Bool)
  | interrupted
  | selectFailed
  | readTap (frame : Option Frame)
  | writeNet (data : List UInt8) (nwrite : Option ℕ)
  | readNet (chunk : Option (List UInt8))
  | writeTap (data : List UInt8) (ok : Bool)
  deriving DecidableEq

/-- The test of the second descriptor.
SOURCE: simpletun.c:348, 353 -/
def testNet (e : End) : End :=
  if e.netReady then { e with pc := .readLength, left := 2 } else { e with pc := .select }

/-- The frame `cread` puts into the buffer.
SOURCE: simpletun.c:335-341 -/
def tapRead (e : End) (frame : Frame) : End :=
  let data := frame.take bufSize
  { e with
    buffer := overwrite e.buffer 0 data
    nread := data.length
    plength := htons data.length
    pc := .writeLength }

/-- The loop of `read_n` for the length, behind one of its reads.
SOURCE: simpletun.c:117-130, 353-357 -/
def lengthRead (e : End) (chunk : List UInt8) : End :=
  if chunk = [] then { e with pc := .returned }
  else
    let plength := overwrite e.plength (2 - e.left) chunk
    let left := e.left - chunk.length
    if left ≠ 0 then { e with plength := plength, left := left }
    else if ntohs plength = 0 then
      { e with plength := plength, left := 0, nread := 0, pc := .writeTap }
    else { e with plength := plength, left := ntohs plength, pc := .readFrame }

/-- The loop of `read_n` for the frame, behind one of its reads.
SOURCE: simpletun.c:117-130, 362 -/
def frameRead (e : End) (chunk : List UInt8) : End :=
  if chunk = [] then { e with nread := 0, pc := .writeTap }
  else
    let offset := ntohs e.plength - e.left
    if bufSize < offset + chunk.length then { e with pc := .overrun }
    else
      let buffer := overwrite e.buffer offset chunk
      let left := e.left - chunk.length
      if left ≠ 0 then { e with buffer := buffer, left := left }
      else { e with buffer := buffer, left := 0, nread := ntohs e.plength, pc := .writeTap }

/-- One step of the loop, `none` where the label does not belong to the control point.
SOURCE: simpletun.c:314-371 -/
def tunnelEnd (e : End) (act : EndAct) : Option End :=
  match e.pc, act with
  | .select, .interrupted => some e
  | .select, .selectFailed => some { e with pc := .exited }
  | .select, .select tap net =>
      if tap || net then
        let e := { e with netReady := net }
        some (if tap then { e with pc := .readTap } else testNet e)
      else none
  | .readTap, .readTap none => some { e with pc := .exited }
  | .readTap, .readTap (some frame) => some (tapRead e frame)
  | .writeLength, .writeNet data nwrite =>
      if data = e.plength then
        some { e with pc := if nwrite.isSome then .writeFrame else .exited }
      else none
  | .writeFrame, .writeNet data nwrite =>
      if data = e.buffer.take e.nread then
        some (if nwrite.isSome then testNet e else { e with pc := .exited })
      else none
  | .readLength, .readNet none => some { e with pc := .exited }
  | .readLength, .readNet (some chunk) =>
      if chunk.length ≤ e.left then some (lengthRead e chunk) else none
  | .readFrame, .readNet none => some { e with pc := .exited }
  | .readFrame, .readNet (some chunk) =>
      if chunk.length ≤ e.left then some (frameRead e chunk) else none
  | .writeTap, .writeTap data ok =>
      if data = e.buffer.take e.nread then
        some { e with pc := if ok then .select else .exited }
      else none
  | _, _ => none

/-! ## The connection -/

/-- SOURCE: simpletun.c:42-43 -/
inductive Side
  | client
  | server
  deriving DecidableEq

def Side.peer : Side → Side
  | client => server
  | server => client

/-- The two ends, and for each side the bytes it has sent that the other has not read. -/
structure TunnelState where
  ends : Side → End
  stream : Side → List UInt8

/-- The effect of a step of one side on the connection, `none` where the call has to wait. -/
def streamAfter (t : TunnelState) (side : Side) : EndAct → Option (Side → List UInt8)
  | .writeNet data (some nwrite) =>
      if nwrite ≤ data.length then
        some (Function.update t.stream side (t.stream side ++ data.take nwrite))
      else none
  | .readNet (some []) =>
      if t.stream side.peer = [] ∧ (t.ends side.peer).gone then some t.stream else none
  | .readNet (some chunk) =>
      if chunk <+: t.stream side.peer then
        some (Function.update t.stream side.peer ((t.stream side.peer).drop chunk.length))
      else none
  | _ => some t.stream

/-- One step of either side. -/
def tunnelStep (t : TunnelState) (l : Side × EndAct) : Option TunnelState :=
  match tunnelEnd (t.ends l.1) l.2, streamAfter t l.1 l.2 with
  | some e, some stream => some ⟨Function.update t.ends l.1 e, stream⟩
  | _, _ => none

/-- **The tunnel**, from when the two ends are connected. -/
def tunnel : LTS TunnelState (Side × EndAct) :=
  ⟨⟨fun _ => .init, fun _ => []⟩, tunnelStep⟩

/-! ## The steps by name -/

/-- The steps of an end, one constructor a branch of the loop. -/
inductive EndStep : End → EndAct → End → Prop
  | interrupted (e : End) (hpc : e.pc = .select) : EndStep e .interrupted e
  | selectFailed (e : End) (hpc : e.pc = .select) :
      EndStep e .selectFailed { e with pc := .exited }
  | tapReady (e : End) (net : Bool) (hpc : e.pc = .select) :
      EndStep e (.select true net) { e with netReady := net, pc := .readTap }
  | netReady (e : End) (hpc : e.pc = .select) :
      EndStep e (.select false true) { e with netReady := true, pc := .readLength, left := 2 }
  | tapFailed (e : End) (hpc : e.pc = .readTap) :
      EndStep e (.readTap none) { e with pc := .exited }
  | readTap (e : End) (frame : Frame) (hpc : e.pc = .readTap) :
      EndStep e (.readTap (some frame)) (tapRead e frame)
  | lengthSent (e : End) (nwrite : ℕ) (hpc : e.pc = .writeLength) :
      EndStep e (.writeNet e.plength (some nwrite)) { e with pc := .writeFrame }
  | lengthFailed (e : End) (hpc : e.pc = .writeLength) :
      EndStep e (.writeNet e.plength none) { e with pc := .exited }
  | frameSent (e : End) (nwrite : ℕ) (hpc : e.pc = .writeFrame) :
      EndStep e (.writeNet (e.buffer.take e.nread) (some nwrite)) (testNet e)
  | frameFailed (e : End) (hpc : e.pc = .writeFrame) :
      EndStep e (.writeNet (e.buffer.take e.nread) none) { e with pc := .exited }
  | netFailed (e : End) (hpc : e.pc = .readLength ∨ e.pc = .readFrame) :
      EndStep e (.readNet none) { e with pc := .exited }
  | lengthEnd (e : End) (hpc : e.pc = .readLength) :
      EndStep e (.readNet (some [])) { e with pc := .returned }
  | lengthChunk (e : End) (chunk : List UInt8) (hpc : e.pc = .readLength) (hne : chunk ≠ [])
      (hlen : chunk.length ≤ e.left) : EndStep e (.readNet (some chunk)) (lengthRead e chunk)
  | frameEnd (e : End) (hpc : e.pc = .readFrame) :
      EndStep e (.readNet (some [])) { e with nread := 0, pc := .writeTap }
  | frameChunk (e : End) (chunk : List UInt8) (hpc : e.pc = .readFrame) (hne : chunk ≠ [])
      (hlen : chunk.length ≤ e.left) : EndStep e (.readNet (some chunk)) (frameRead e chunk)
  | tapWritten (e : End) (hpc : e.pc = .writeTap) :
      EndStep e (.writeTap (e.buffer.take e.nread) true) { e with pc := .select }
  | tapWriteFailed (e : End) (hpc : e.pc = .writeTap) :
      EndStep e (.writeTap (e.buffer.take e.nread) false) { e with pc := .exited }

/-- **Inversion of the loop's step function.** -/
theorem endStep_of_tunnelEnd {e e' : End} {act : EndAct} (h : tunnelEnd e act = some e') :
    EndStep e act e' := by
  unfold tunnelEnd at h
  split at h
  · rename_i hpc
    cases h
    exact .interrupted e hpc
  · rename_i hpc
    cases h
    exact .selectFailed e hpc
  · rename_i tap net hpc
    split at h
    · rename_i hready
      cases h
      cases tap with
      | true => exact .tapReady e net hpc
      | false =>
          cases net with
          | true => exact .netReady e hpc
          | false => cases hready
    · cases h
  · rename_i hpc
    cases h
    exact .tapFailed e hpc
  · rename_i frame hpc
    cases h
    exact .readTap e frame hpc
  · rename_i data nwrite hpc
    split at h
    · rename_i hdata
      subst hdata
      cases h
      cases nwrite with
      | none => exact .lengthFailed e hpc
      | some n => exact .lengthSent e n hpc
    · cases h
  · rename_i data nwrite hpc
    split at h
    · rename_i hdata
      subst hdata
      cases h
      cases nwrite with
      | none => exact .frameFailed e hpc
      | some n => exact .frameSent e n hpc
    · cases h
  · rename_i hpc
    cases h
    exact .netFailed e (Or.inl hpc)
  · rename_i chunk hpc
    split at h
    · rename_i hlen
      cases h
      by_cases hne : chunk = []
      · subst hne
        exact .lengthEnd e hpc
      · exact .lengthChunk e chunk hpc hne hlen
    · cases h
  · rename_i hpc
    cases h
    exact .netFailed e (Or.inr hpc)
  · rename_i chunk hpc
    split at h
    · rename_i hlen
      cases h
      by_cases hne : chunk = []
      · subst hne
        exact .frameEnd e hpc
      · exact .frameChunk e chunk hpc hne hlen
    · cases h
  · rename_i data ok hpc
    split at h
    · rename_i hdata
      subst hdata
      cases h
      cases ok with
      | true => exact .tapWritten e hpc
      | false => exact .tapWriteFailed e hpc
    · cases h
  · cases h

@[simp] theorem Side.peer_peer (side : Side) : side.peer.peer = side := by
  cases side <;> rfl

theorem Side.peer_ne (side : Side) : side.peer ≠ side := by
  cases side <;> decide

/-- INTERNAL: a side is this one or its peer. -/
theorem Side.eq_or_peer (side other : Side) : other = side ∨ other = side.peer := by
  cases side <;> cases other <;> decide

/-- INTERNAL: a step of the tunnel is a step of one end with its effect on the connection. -/
theorem tunnelStep_cases {t t' : TunnelState} {side : Side} {act : EndAct}
    (h : tunnelStep t (side, act) = some t') :
    EndStep (t.ends side) act (t'.ends side) ∧ streamAfter t side act = some t'.stream ∧
      t'.ends side.peer = t.ends side.peer := by
  simp only [tunnelStep] at h
  split at h
  · rename_i e stream he hstream
    cases h
    refine ⟨?_, hstream, Function.update_of_ne side.peer_ne _ _⟩
    show EndStep _ act (Function.update t.ends side e side)
    rw [Function.update_self]
    exact endStep_of_tunnelEnd he
  · cases h

end VtRouter.Model.Tunnel
