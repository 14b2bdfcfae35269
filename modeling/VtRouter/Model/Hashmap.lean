import Mathlib.Data.List.Basic
import VtRouter.Library.CText

/-!
# The hash map of function times

`update_stub` looks the cost of a function up under the absolute value of the hash of its
name.  The map is an array of chains: a key lives in the chain at its remainder modulo the
size, a put overwrites in place or appends.  The C remainder has the sign of the key, so
the access to the array is checked.
-/

set_option autoImplicit false

namespace VtRouter.Model

open Library

/-- One round of the loop of `str_hash`, with a signed `char` and an arithmetic right shift.
SOURCE: hashmap.c:56-63 -/
def strHashRound (hash : BitVec 32) (c : UInt8) : BitVec 32 :=
  let hash := hash + c.toBitVec.signExtend 32
  let hash := hash + (hash <<< 10)
  hash ^^^ hash.sshiftRight 6

/-- SOURCE: hashmap.c:50-71 -/
def strHash (s : List UInt8) : BitVec 32 :=
  let hash := s.foldl strHashRound 0
  let hash := hash + (hash <<< 3)
  let hash := hash ^^^ hash.sshiftRight 11
  hash + (hash <<< 15)

/-- `abs` on `int`. -/
def cAbs (x : BitVec 32) : ℤ := if x.toInt < 0 then (-x).toInt else x.toInt

structure HashmapElem (α : Type) where
  keyVal : ℤ
  value : α

structure Hashmap (α : Type) where
  size : ℤ
  head : List (List (HashmapElem α))

variable {α : Type}

/-- SOURCE: hashmap.c:95-122 -/
def hmapInit (mSize : ℤ) : Hashmap α :=
  let mapSize := if mSize = 0 then 1000 else mSize
  ⟨mapSize, List.replicate mapSize.toNat []⟩

/-- The index and the chain of a key, `h->head[key % h->size]`. -/
def Hashmap.chain (h : Hashmap α) (key : ℤ) : Except Fault (ℕ × List (HashmapElem α)) :=
  let index := key.tmod h.size
  if 0 ≤ index ∧ h.size ≠ 0 then
    match h.head[index.toNat]? with
    | some list => .ok (index.toNat, list)
    | none => .error .outOfBounds
  else .error .outOfBounds

/-- The walk of a put along a chain. -/
def putChain (key : ℤ) (value : α) : List (HashmapElem α) → List (HashmapElem α)
  | [] => [⟨key, value⟩]
  | e :: list => if e.keyVal = key then ⟨e.keyVal, value⟩ :: list else e :: putChain key value list

/-- SOURCE: hashmap.c:133-166 -/
def hmapPutAbs (h : Hashmap α) (key : ℤ) (value : α) : Except Fault (Hashmap α) := do
  let (index, list) ← h.chain key
  return { h with head := h.head.set index (putChain key value list) }

/-- SOURCE: hashmap.c:168-200 -/
def hmapGetAbs (h : Hashmap α) (key : ℤ) : Except Fault (Option α) := do
  let (_, list) ← h.chain key
  return (list.find? fun e => decide (e.keyVal = key)).map HashmapElem.value

/-- What `hmap_get_abs` returns where the stored values are pointers, `none` for `NULL`.
SOURCE: hashmap.c:168-200 -/
def hmapGetPtr (h : Hashmap (Option α)) (key : ℤ) : Except Fault (Option α) :=
  (hmapGetAbs h key).map Option.join

/-- The walk of a removal along a chain. -/
def removeChain (key : ℤ) : List (HashmapElem α) → List (HashmapElem α)
  | [] => []
  | e :: list => if e.keyVal = key then ⟨0, e.value⟩ :: list else e :: removeChain key list

/-- The element is not unlinked, its key is overwritten.
SOURCE: hashmap.c:203-226 -/
def hmapRemoveAbs (h : Hashmap α) (key : ℤ) : Except Fault (Hashmap α) := do
  let (index, list) ← h.chain key
  return { h with head := h.head.set index (removeChain key list) }

/-- The names and costs that `init_func_times` registers, in its order.
SOURCE: utils.c:17-24, 841-848 -/
def funcTimes : List (String × ℤ) :=
  [("recvfrom", 50), ("rawSocket", 50), ("setPromisc", 50), ("intf_name_to_sock_idx", 50),
    ("get_dst_sock_idx", 50), ("send_packet", 50), ("poll", 50), ("flush_buffer", 50)]

/-- SOURCE: utils.c:837-854 -/
def initFuncTimes : Except Fault (Hashmap ℤ) :=
  funcTimes.foldlM (fun h t => hmapPutAbs h (cAbs (strHash (bytes t.1))) t.2) (hmapInit 1000)

/-- What `update_stub` finds for a function.
SOURCE: utils.c:563-566 -/
def funcTimeUs (lastFn : String) : Except Fault (Option ℤ) := do
  let h ← initFuncTimes
  hmapGetAbs h (cAbs (strHash (bytes lastFn)))

end VtRouter.Model
