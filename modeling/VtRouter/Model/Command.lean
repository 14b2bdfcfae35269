import VtRouter.Library.CText
import VtRouter.Library.MachineInt

/-!
# The kernel's command text and its parser

The kernel answers `ioctl(TK_IO_WRITE_RESULTS)` with a text: `STOP`, or a list of tuples
`|pid,n_insns` with an optional final bar.  `getNextCommandTuple` reads one tuple at a
resume position and says where to resume, `ackAndGetNextCommand` loops over it and turns
the last instruction count into a budget in microseconds.

A pointer into the buffer is the rest of the buffer (`Library.ptrAdd`, `Library.deref`),
so a read outside the buffer is a fault and not a value.  Integers of type `int` and
`pid_t` are wrapped to 32 bits where the code computes with them.
-/

set_option autoImplicit false

namespace VtRouter.Model

open Library

/-- The loop of `str_to_i` from the current character on, with the number read so far.
SOURCE: utils.c:73-81 -/
def strToILoop : List UInt8 → ℤ → Except Fault ℤ
  | [], _ => .error .outOfBounds
  | c :: s, n =>
      if isDigit c then
        strToILoop s (wrap32 (wrap32 (wrap32 (10 * n) + c.toNat) - '0'.toNat))
      else .ok n

/-- The number at the front of a text, `0` when no digit stands there.
SOURCE: utils.c:73-81 -/
def strToI (s : List UInt8) : Except Fault ℤ := strToILoop s 0

/-- The loop of `get_next_value` and the two tests behind it, at index `i`.
SOURCE: router_app_vt.c:39-50 -/
def getNextValueLoop : List UInt8 → ℤ → Except Fault ℤ
  | [], _ => .error .outOfBounds
  | c :: s, i =>
      if isDigit c then getNextValueLoop s (i + 1)
      else if c = 0 then .ok (-1)
      else do
        let d ← deref s
        if d = 0 then return -1
        return i + 1

/-- The offset of the value behind the next separator; the first character is skipped
without a look.
SOURCE: router_app_vt.c:36-51 -/
def getNextValue (writeBuffer : List UInt8) : Except Fault ℤ := do
  let s ← ptrAdd writeBuffer 1
  getNextValueLoop s 1

/-- What one call of `get_next_command_tuple` returns (the resume position, or `-1`) and
stores in `*pid` and in the unsigned `*n_insns`. -/
structure CommandTuple where
  resumePtr : ℤ
  pid : ℤ
  nInsns : ℤ
  deriving DecidableEq, Repr

/-- Read one tuple at `resumePtr`.
SOURCE: router_app_vt.c:53-89 -/
def getNextCommandTuple (buffer : List UInt8) (resumePtr : ℤ) : Except Fault CommandTuple := do
  let p ← ptrAdd buffer resumePtr
  let cmp ← strcmp p (bytes "STOP" ++ [0])
  if cmp = 0 ∨ resumePtr < 0 then
    return ⟨-1, -1, 0⟩
  let c ← deref p
  if c ≠ ch '|' ∨ c = 0 then
    return ⟨-1, 0, 0⟩
  let p₁ ← ptrAdd p 1
  let pid ← strToI p₁
  let nxt ← getNextValue p
  if nxt = -1 then
    return ⟨-1, 0, 0⟩
  let nxtIdx := nxt + resumePtr
  let q ← ptrAdd buffer nxtIdx
  let n ← strToI q
  let v ← getNextValue q
  return ⟨nxtIdx + v - 1, pid, toU32 n⟩

/-- The result of `ack_and_get_next_command` (a budget in microseconds, or `-1` to stop)
with a record of what its loop did: the pairs (pid, instruction count) its body took over
and the resume positions it handed to `get_next_command_tuple`. -/
structure Ack where
  ret : ℤ
  delivered : List (ℤ × ℤ)
  resumes : List ℤ
  deriving DecidableEq, Repr

/-- The last two statements of `ack_and_get_next_command`.
SOURCE: router_app_vt.c:233-235 -/
def clampAdvance (perRoundAdvance : ℤ) : ℤ := if perRoundAdvance < 0 then 100 else perRoundAdvance

/-- `(int) n_insns/1000`, where the cast binds tighter than the division.
SOURCE: router_app_vt.c:225 -/
def advanceOf (nInsns : ℤ) : ℤ := (wrap32 nInsns).tdiv 1000

/-- The loop of `ack_and_get_next_command`, bounded by a number of iterations.
SOURCE: router_app_vt.c:212-235 -/
def ackLoop (buffer : List UInt8) : ℕ → ℤ → ℤ → Except Fault Ack
  | 0, _, _ => .error .outOfFuel
  | fuel + 1, tailPtr, perRoundAdvance =>
      if tailPtr = -1 then .ok ⟨clampAdvance perRoundAdvance, [], []⟩
      else do
        let t ← getNextCommandTuple buffer tailPtr
        if t.resumePtr = -1 ∧ t.pid = -1 then
          return ⟨-1, [], [tailPtr]⟩
        if t.pid = 0 then
          return ⟨clampAdvance perRoundAdvance, [], [tailPtr]⟩
        let r ← ackLoop buffer fuel t.resumePtr (advanceOf t.nInsns)
        return ⟨r.ret, (t.pid, t.nInsns) :: r.delivered, tailPtr :: r.resumes⟩

/-- `ack_and_get_next_command`; the argument is the content of the command buffer after
the `ioctl`, or `none` when the `ioctl` did not return `0`.
SOURCE: router_app_vt.c:193-236 -/
def ackAndGetNextCommand : Option (List UInt8) → Except Fault Ack
  | none => .ok ⟨100, [], []⟩
  | some buffer => ackLoop buffer (buffer.length + 1) 0 100

/-- The text of a tuple list, with or without a final bar. -/
def commandText (tuples : List (ℕ × ℕ)) (finalBar : Bool) : List UInt8 :=
  tuples.flatMap (fun t => ch '|' :: decimal t.1 ++ ch ',' :: decimal t.2) ++
    if finalBar then [ch '|'] else []

example : (ackAndGetNextCommand (some (commandText [(7, 100000), (12, 2500)] true ++ [0]))) =
    .ok ⟨2, [(7, 100000), (12, 2500)], [0, 9, 11]⟩ := by decide +kernel

end VtRouter.Model
