import VtRouter.Model.ProcessThread

/-!
# One call of `update_stub`

The worker of the router and the client of the test programs share the text of
`update_stub`.  Here it is a function: from the budget, the name, the table of costs and the
command that the next `pipe_read` would deliver to everything the call does.

The function has no return statement behind its last branch.  A call that ends there has no
result, `none` in `ret`, and what its caller tests is whatever value is left behind.
-/

set_option autoImplicit false

namespace VtRouter.Model

open Library

/-- SOURCE: includes.h:39 -/
def success : ℤ := 1

/-- What a call of `update_stub` does: the budget it leaves, the cost it deducted, the message
it sent, the command it read, and the value it returned. -/
structure StubCall where
  left : ℤ
  timeElapsed : Option ℤ
  sent : Option ℤ
  cmd : Option ℤ
  ret : Option ℤ
  deriving DecidableEq

/-- A call with the name `none` is the one for the first command; `next` is what `pipe_read`
delivers if the call reads.
SOURCE: utils.c:549-583, client_n_vt.c:155-189 -/
def updateStubCall (funcTimesUs : Hashmap ℤ) (left : ℤ) (lastFn : Option (List UInt8))
    (next : ℤ) : Except Fault StubCall :=
  match lastFn with
  | none => .ok ⟨next, none, none, some next, some (if next < 0 then threadExiting else success)⟩
  | some lastFn => do
      match ← hmapGetAbs funcTimesUs (cAbs (strHash lastFn)) with
      | none => return ⟨left, none, none, none, some success⟩
      | some timeElapsed =>
          let left := wrap32 (left - timeElapsed)
          if left ≤ 0 then
            return ⟨next, some timeElapsed, some (wrap32 (-1 * left)), some next,
              some (if next ≤ 0 then threadExiting else success)⟩
          else return ⟨left, some timeElapsed, none, none, none⟩

end VtRouter.Model
