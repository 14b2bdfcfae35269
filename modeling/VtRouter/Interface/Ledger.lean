import VtRouter.Interface.Phases

/-!
# The ledger of virtual time

What a run says about time, written down from its labels alone: each round has the budget main
obtained for it and the costs `update_stub` deducted between the worker's read of that budget
and its reply.  Neither thread keeps this book.  Main adds up what it is told, the worker
counts down; that the two agree with the ledger is proved in `Analysis.VirtualTime`.
-/

set_option autoImplicit false

namespace VtRouter.Interface

open Library VtRouter.Model

/-- A round: the budget main obtained, and the costs deducted in it, in order. -/
structure Round where
  budget : ℤ
  charges : List ℤ

def Round.cost (r : Round) : ℤ := r.charges.sum

/-- The virtual time a round takes. -/
def Round.time (r : Round) : ℤ := max r.budget r.cost

/-- What a round takes beyond its budget. -/
def Round.overrun (r : Round) : ℤ := max 0 (r.cost - r.budget)

/-- A round with a budget overruns it by less than its last charge. -/
def Round.OverrunBounded (r : Round) : Prop :=
  0 < r.budget → r.budget < r.cost →
    ∃ last, r.charges.getLast? = some last ∧ r.cost - r.budget < last

/-- The completed rounds, the round in progress, and whether the worker is between the read of
its budget and its reply. -/
structure Ledger where
  completed : List Round
  current : Option Round
  counting : Bool

/-- A round begins when main obtains its budget and is complete when main has the reply, or
has found the worker blocked. -/
def Ledger.record (book : Ledger) : Label → Ledger
  | .main (.ackAndGetNextCommand _ _ perRoundAdvance) =>
      if perRoundAdvance = -1 then book
      else { book with current := some ⟨perRoundAdvance, []⟩ }
  | .worker (.pipeRead _) =>
      { book with
        current := book.current.map fun r => { r with charges := [] }
        counting := true }
  | .worker (.charge cost) =>
      if book.counting then
        { book with current := book.current.map fun r => { r with charges := r.charges ++ [cost] } }
      else book
  | .worker (.pipeSend _) => { book with counting := false }
  | .main (.pipeRead _) | .main (.readIsBlocked true) =>
      { book with completed := book.completed ++ book.current.toList, current := none }
  | _ => book

/-- The ledger of a run. -/
def ledger (ls : List Label) : Ledger := ls.foldl Ledger.record ⟨[], none, false⟩

@[simp] theorem ledger_snoc (ls : List Label) (l : Label) :
    ledger (ls ++ [l]) = (ledger ls).record l := by
  simp [ledger]

/-- The virtual time of the completed rounds. -/
def Ledger.elapsed (book : Ledger) : ℤ := (book.completed.map Round.time).sum

/-- The overrun of the last completed round. -/
def Ledger.lastOverrun (book : Ledger) : ℤ := (book.completed.getLast?.map Round.overrun).getD 0

/-- INTERNAL: completing a round adds its time and makes its overrun the last. -/
theorem completed_snoc (book : Ledger) (r : Round) (counting : Bool) :
    (Ledger.mk (book.completed ++ [r]) none counting).elapsed = book.elapsed + r.time ∧
      (Ledger.mk (book.completed ++ [r]) none counting).lastOverrun = r.overrun := by
  simp [Ledger.elapsed, Ledger.lastOverrun]

/-- INTERNAL: one more charge. -/
theorem cost_snoc (budget : ℤ) (charges : List ℤ) (cost : ℤ) :
    (Round.mk budget (charges ++ [cost])).cost = (Round.mk budget charges).cost + cost := by
  simp [Round.cost]

end VtRouter.Interface
