import VtRouter.Library.CText

/-!
# Writing a result back to the kernel

`write_results` prints `J,<advance_err>,` and writes it to a file descriptor in a loop.  The
outcomes of `write` are the environment's: a call fails, or it accepts at least one byte of
what it is given and at most all of it (`WriteCalls`).  The loop has a bound on the number of
its iterations, `fuel`; one that reaches it is reported as a fault.
-/

set_option autoImplicit false

namespace VtRouter.Model

open Library

/-- SOURCE: router_app_vt.c:32 -/
def tracerResults : UInt8 := ch 'J'

/-- What the calls of `write` return: `ret i n` for the `i`-th call when it is given `n` bytes. -/
structure WriteCalls where
  ret : ℕ → ℕ → ℤ
  outcome : ∀ i n, ret i n < 0 ∨ (n = 0 ∧ ret i n = 0) ∨ (1 ≤ ret i n ∧ ret i n ≤ n)

/-- The text that is written.
SOURCE: router_app_vt.c:155 -/
def resultsText (advanceErr : ℤ) : CString where
  toList := tracerResults :: ch ',' :: (intText advanceErr ++ [ch ','])
  noNul := by
    have hcomma : (0 : UInt8) ≠ ch ',' := by decide
    have hletter : (0 : UInt8) ≠ tracerResults := by decide
    simp [noNul_intText, hcomma, hletter]

/-- What a call of `write_results` leaves: the bytes the descriptor accepted, and whether the
loop was left because a call failed. -/
structure WriteRun where
  written : List UInt8
  failed : Bool
  deriving DecidableEq

/-- The loop, in front of the `i`-th call; `ret` is what the call before returned.
SOURCE: router_app_vt.c:157-167, client_n_vt.c:525-535 -/
def writeLoop (calls : WriteCalls) (command : List UInt8) :
    ℕ → ℕ → ℤ → List UInt8 → List UInt8 → Except Fault WriteRun
  | 0, _, _, _, _ => .error .outOfFuel
  | fuel + 1, i, ret, ptr, written => do
      if ret = (← strlen command) then return ⟨written, false⟩
      else
        let ret := calls.ret i (← strlen ptr)
        if ret < 0 then return ⟨written, true⟩
        else writeLoop calls command fuel (i + 1) ret (← ptrAdd ptr ret) (written ++ ptr.take ret.toNat)

/-- SOURCE: router_app_vt.c:147-168, client_n_vt.c:515-536 -/
def writeResults (fuel : ℕ) (calls : WriteCalls) (advanceErr : ℤ) : Except Fault WriteRun :=
  let command := (resultsText advanceErr).terminated
  writeLoop calls command fuel 0 0 command []

end VtRouter.Model
