import VtRouter.Library.DoublyLinked
import VtRouter.Library.MachineInt
import VtRouter.Library.Transition

/-!
# The linked list

The list of `linkedlist.c` on an explicit heap of nodes.  A pointer is `none` for `NULL`, and
so is an item, which is a `void *`.  `malloc` never fails here; the location it returns and
what it finds there are arguments, and the location is one that is not allocated.  Every
access through a pointer is checked, so a function that returns a value has used no node
after its `free`.

The items are blocks of the program around the list, which only `free` in the two removals by
item looks behind.  They have a heap of their own that says which of them are allocated: the
program's `malloc` and `free` move it as well, and to free an item that is not allocated is a
fault.

The counters are `int`.  The loops have a bound on the number of their iterations, `fuel`;
one that reaches it is reported as a fault.
-/

set_option autoImplicit false

namespace VtRouter.Model

open Library

variable {L ι : Type} [DecidableEq L] [DecidableEq ι]

/-- SOURCE: linkedlist.h:5-8 -/
def elemNotFound : ℤ := -2

/-- SOURCE: linkedlist.h:5-8 -/
def llistSuccess : ℤ := 1

/-- SOURCE: linkedlist.h:20-28 -/
structure Llist (L ι : Type) where
  size : ℤ
  head : Option L
  tail : Option L
  equals : Option ι → Option ι → ℤ

/-- The nodes, the list, and which items are allocated. -/
structure LlistMem (L ι : Type) where
  heap : Heap L (Option ι)
  l : Llist L ι
  allocated : ι → Bool

/-- The default equality checker.
SOURCE: linkedlist.c:9-16 -/
def equals (elem1 elem2 : Option ι) : ℤ := if elem1 = elem2 then 0 else 1

/-- SOURCE: linkedlist.c:18-24 -/
def llistInit (m : LlistMem L ι) : LlistMem L ι := { m with l := ⟨0, none, none, equals⟩ }

/-- SOURCE: linkedlist.c:95-97 -/
def llistSetEqualityChecker (m : LlistMem L ι) (equalityChecker : Option ι → Option ι → ℤ) :
    LlistMem L ι :=
  { m with l := { m.l with equals := equalityChecker } }

/-- `newElem` is the location `malloc` returns, and `junk` what the node holds there.
SOURCE: linkedlist.c:26-60 -/
def llistAppend (m : LlistMem L ι) (item : Option ι) (newElem : L) (junk : Node L (Option ι)) :
    Except Fault (LlistMem L ι × ℤ) := do
  let heap := m.heap.set newElem (some { junk with item := item })
  let l : Llist L ι := { m.l with size := wrap32 (m.l.size + 1) }
  if l.head = none then
    let l : Llist L ι := { l with head := some newElem, tail := some newElem }
    let heap ← heap.setNext l.head none
    let heap ← heap.setPrev l.head none
    let heap ← heap.setNext l.tail none
    let heap ← heap.setPrev l.tail none
    return ({ m with heap := heap, l := l }, llistSuccess)
  else
    let heap ← heap.setNext l.tail (some newElem)
    let heap ← heap.setNext (some newElem) none
    let heap ← heap.setPrev (some newElem) l.tail
    return ({ m with heap := heap, l := { l with tail := some newElem } }, llistSuccess)

/-- The loop that the lookups and the removals share: from `head` on, with `i` counting, up to
the first node that is `found`.
SOURCE: linkedlist.c:64-75, 82-90, 129-184, 224-236 -/
def llistWalk {β : Type} (heap : Heap L (Option ι)) (found : ℤ → Option ι → Bool)
    (onFound : ℤ → L → Except Fault β) (onEnd : β) : ℕ → ℤ → Option L → Except Fault β
  | 0, _, _ => .error .outOfFuel
  | _ + 1, _, none => .ok onEnd
  | fuel + 1, i, some head => do
      let node ← heap.load (some head)
      if found i node.item then onFound i head
      else llistWalk heap found onFound onEnd fuel (wrap32 (i + 1)) node.next

/-- SOURCE: linkedlist.c:62-79 -/
def llistGet (fuel : ℕ) (m : LlistMem L ι) (index : ℤ) : Except Fault (Option ι) :=
  llistWalk m.heap (fun i _ => decide (i = index))
    (fun _ head => (m.heap.load (some head)).map Node.item) none fuel 0 m.l.head

/-- SOURCE: linkedlist.c:81-93 -/
def llistGetPos (fuel : ℕ) (m : LlistMem L ι) (item : Option ι) : Except Fault ℤ :=
  llistWalk m.heap (fun _ elem => decide (m.l.equals elem item = 0)) (fun i _ => .ok i)
    elemNotFound fuel 0 m.l.head

/-- SOURCE: linkedlist.c:99-121 -/
def llistRequeue (m : LlistMem L ι) : Except Fault (LlistMem L ι) := do
  if m.l.size = 0 ∨ m.l.size = 1 then return m
  else
    let head := m.l.head
    let tail := m.l.tail
    let second := (← m.heap.load head).next
    let heap ← m.heap.setPrev second none
    let heap ← heap.setNext tail head
    let heap ← heap.setPrev head tail
    let heap ← heap.setNext head none
    return { m with heap := heap, l := { m.l with head := second, tail := head } }

/-- The body of the loop of `llist_remove_at` at the index that was asked for.
SOURCE: linkedlist.c:135-181 -/
def unlink (m : LlistMem L ι) (head : L) : Except Fault (LlistMem L ι × Option ι) := do
  let result := (← m.heap.load (some head)).item
  let l : Llist L ι := { m.l with size := wrap32 (m.l.size - 1) }
  if some head = l.head then
    if l.size = 0 then
      let heap ← m.heap.free (some head)
      return ({ m with heap := heap, l := { l with head := none, tail := none } }, result)
    else
      let node ← m.heap.load (some head)
      let heap ← if node.next ≠ none then m.heap.setPrev node.next none else pure m.heap
      let newHead := (← heap.load (some head)).next
      let heap ← heap.free (some head)
      return ({ m with heap := heap, l := { l with head := newHead } }, result)
  else if some head = l.tail then
    let newTail := (← m.heap.load l.tail).prev
    if newTail ≠ none then
      let heap ← m.heap.setNext newTail none
      let heap ← heap.free (some head)
      return ({ m with heap := heap, l := { l with tail := newTail } }, result)
    else
      let heap ← m.heap.free (some head)
      return ({ m with heap := heap, l := { l with size := 0, head := none, tail := none } },
        result)
  else
    let node ← m.heap.load (some head)
    let heap ← if node.prev ≠ none then m.heap.setNext node.prev node.next else pure m.heap
    let node ← heap.load (some head)
    let heap ← if node.next ≠ none then heap.setPrev node.next node.prev else pure heap
    let heap ← heap.free (some head)
    return ({ m with heap := heap, l := l }, result)

/-- SOURCE: linkedlist.c:124-188 -/
def llistRemoveAt (fuel : ℕ) (m : LlistMem L ι) (index : ℤ) :
    Except Fault (LlistMem L ι × Option ι) :=
  llistWalk m.heap (fun i _ => decide (i = index)) (fun _ head => unlink m head) (m, none) fuel 0
    m.l.head

/-- SOURCE: linkedlist.c:190-192 -/
def llistSize (m : LlistMem L ι) : ℤ := m.l.size

/-- SOURCE: linkedlist.c:194-221 -/
def llistPop (m : LlistMem L ι) : Except Fault (LlistMem L ι × Option ι) := do
  if m.l.size = 0 then return (m, none)
  else
    let head := m.l.head
    let result := (← m.heap.load head).item
    let size := wrap32 (m.l.size - 1)
    if m.l.size = 1 then
      let heap ← m.heap.free head
      return ({ m with heap := heap, l := { m.l with size := size, head := none, tail := none } },
        result)
    else
      let newHead := (← m.heap.load m.l.head).next
      let heap ← m.heap.setPrev newHead none
      let heap ← heap.free head
      return ({ m with heap := heap, l := { m.l with size := size, head := newHead } }, result)

/-- `malloc` in the program around the list: an item that was not allocated is. -/
def mallocItem (m : LlistMem L ι) (item : ι) : LlistMem L ι :=
  { m with allocated := Function.update m.allocated item true }

/-- `free(elem)`; to free `NULL` does nothing.
SOURCE: linkedlist.c:231, 250 -/
def freeItem (m : LlistMem L ι) : Option ι → Except Fault (LlistMem L ι)
  | none => .ok m
  | some item =>
      if m.allocated item then
        .ok { m with allocated := Function.update m.allocated item false }
      else .error .outOfBounds

/-- SOURCE: linkedlist.c:223-239 -/
def llistRemove (fuel : ℕ) (m : LlistMem L ι) (item : Option ι) :
    Except Fault (LlistMem L ι × ℤ) :=
  llistWalk m.heap (fun _ elem => decide (m.l.equals elem item = 0))
    (fun i head => do
      let elem := (← m.heap.load (some head)).item
      let (m, _) ← llistRemoveAt fuel m i
      let m ← freeItem m elem
      return (m, llistSuccess))
    (m, elemNotFound) fuel 0 m.l.head

/-- The text of `llist_remove` again.
SOURCE: linkedlist.c:241-258 -/
def llistRemoveFree (fuel : ℕ) (m : LlistMem L ι) (item : Option ι) :
    Except Fault (LlistMem L ι × ℤ) :=
  llistRemove fuel m item

/-- The items that `act_on` is called with, in order.
SOURCE: linkedlist.c:261-272 -/
def llistIterateLoop (fuel' : ℕ) : ℕ → LlistMem L ι → ℤ → Except Fault (List ι)
  | 0, _, _ => .error .outOfFuel
  | fuel + 1, m, i => do
      if i < m.l.size then
        let elem ← llistGet fuel' m i
        let rest ← llistIterateLoop fuel' fuel m (wrap32 (i + 1))
        return elem.toList ++ rest
      else return []

/-- SOURCE: linkedlist.c:261-272 -/
def llistIterate (fuel : ℕ) (m : LlistMem L ι) : Except Fault (List ι) :=
  llistIterateLoop fuel fuel m 0

/-- SOURCE: linkedlist.c:274-278 -/
def llistDestroyLoop (fuel' : ℕ) : ℕ → LlistMem L ι → Except Fault (LlistMem L ι)
  | 0, _ => .error .outOfFuel
  | fuel + 1, m => do
      if 0 < m.l.size then
        let (m, _) ← llistRemoveAt fuel' m 0
        llistDestroyLoop fuel' fuel m
      else return m

/-- SOURCE: linkedlist.c:274-278 -/
def llistDestroy (fuel : ℕ) (m : LlistMem L ι) : Except Fault (LlistMem L ι) :=
  llistDestroyLoop fuel fuel m

/-! ## Sequences of operations -/

/-- The operations that change the list, and the two by which the program around it gets and
gives back items. -/
inductive LlistOp (L ι : Type)
  | malloc (item : ι)
  | free (item : Option ι)
  | init
  | setEqualityChecker (equalityChecker : Option ι → Option ι → ℤ)
  | append (item : Option ι) (newElem : L) (junk : Node L (Option ι))
  | removeAt (index : ℤ)
  | pop
  | requeue
  | remove (item : Option ι)
  | removeFree (item : Option ι)
  | destroy

/-- What an operation returns. -/
inductive LlistRet (ι : Type)
  | void
  | code (code : ℤ)
  | item (item : Option ι)

/-- `malloc` returns a location that is not allocated. -/
def LlistOp.fresh (m : LlistMem L ι) : LlistOp L ι → Bool
  | .malloc item => !m.allocated item
  | .append _ newElem _ => (m.heap newElem).isNone
  | _ => true

def LlistOp.exec (fuel : ℕ) (m : LlistMem L ι) :
    LlistOp L ι → Except Fault (LlistMem L ι × LlistRet ι)
  | .malloc item => .ok (mallocItem m item, .void)
  | .free item => (freeItem m item).map fun m' => (m', .void)
  | .init => .ok (llistInit m, .void)
  | .setEqualityChecker equalityChecker =>
      .ok (llistSetEqualityChecker m equalityChecker, .void)
  | .append item newElem junk =>
      (llistAppend m item newElem junk).map fun r => (r.1, .code r.2)
  | .removeAt index => (llistRemoveAt fuel m index).map fun r => (r.1, .item r.2)
  | .pop => (llistPop m).map fun r => (r.1, .item r.2)
  | .requeue => (llistRequeue m).map fun m' => (m', .void)
  | .remove item => (llistRemove fuel m item).map fun r => (r.1, .code r.2)
  | .removeFree item => (llistRemoveFree fuel m item).map fun r => (r.1, .code r.2)
  | .destroy => (llistDestroy fuel m).map fun m' => (m', .void)

/-- The operations on one list as a system; it begins behind a `llist_init` in memory where
other nodes and any items may be allocated. -/
def llist (fuel : ℕ) (m : LlistMem L ι) : LTS (LlistMem L ι) (LlistOp L ι) :=
  ⟨llistInit m, fun m op => if op.fresh m then (op.exec fuel m).toOption.map Prod.fst else none⟩

end VtRouter.Model
