import Mathlib.Data.Int.Basic
import Mathlib.Tactic.Linarith
import VtRouter.Library.ChainedTable
import VtRouter.Model.Hashmap

/-!
# The hash map as a table of chains

For a non-negative key and a positive size the C remainder is the mathematical one, so the
access to the array of chains does not fault and each operation of the map is one operation
of `Library.ChainedTable` on the chain of its key.
-/

set_option autoImplicit false

namespace VtRouter.Interface

open Library Model

variable {α : Type}

theorem putChain_eq (key : ℤ) (value : α) (list : List (HashmapElem α)) :
    putChain key value list = upsert HashmapElem.keyVal ⟨key, value⟩ list := by
  induction list with
  | nil => rfl
  | cons e list ih =>
      simp only [putChain, upsert, ih]
      split
      · rename_i he
        rw [he]
      · rfl

theorem removeChain_eq (key : ℤ) (list : List (HashmapElem α)) :
    removeChain key list =
      rewriteFirst HashmapElem.keyVal key (fun e => ⟨0, e.value⟩) list := by
  induction list with
  | nil => rfl
  | cons e list ih => simp only [removeChain, rewriteFirst, ih]

/-- A positive size and one chain for every remainder. -/
structure Sized (h : Hashmap α) : Prop where
  size_pos : 0 < h.size
  length_head : h.head.length = h.size.toNat

/-- The bucket of a key. -/
def slotOf (size key : ℤ) : ℕ := (key % size).toNat

/-- The chain of a key. -/
def chainOf (h : Hashmap α) (key : ℤ) : List (HashmapElem α) :=
  h.head.getD (slotOf h.size key) []

/-- The map with one chain replaced. -/
def withChain (h : Hashmap α) (key : ℤ) (list : List (HashmapElem α)) : Hashmap α :=
  { h with head := h.head.set (slotOf h.size key) list }

@[simp] theorem size_withChain (h : Hashmap α) (key : ℤ) (list : List (HashmapElem α)) :
    (withChain h key list).size = h.size := rfl

variable {h : Hashmap α} {key : ℤ}

theorem slotOf_lt (hs : Sized h) (key : ℤ) : slotOf h.size key < h.head.length := by
  have hlt := Int.emod_lt_of_pos key hs.size_pos
  have hnn := Int.emod_nonneg key (ne_of_gt hs.size_pos)
  have hlen := hs.length_head
  unfold slotOf
  omega

theorem getElem?_slotOf (hs : Sized h) (key : ℤ) :
    h.head[slotOf h.size key]? = some (chainOf h key) := by
  have hlt := slotOf_lt hs key
  rw [chainOf, List.getD_eq_getElem?_getD, List.getElem?_eq_getElem hlt, Option.getD_some]

theorem Sized.withChain (hs : Sized h) (list : List (HashmapElem α)) :
    Sized (withChain h key list) :=
  ⟨hs.size_pos, by rw [Interface.withChain, List.length_set, hs.length_head]⟩

theorem chainOf_withChain_self (hs : Sized h) {j : ℤ}
    (hj : slotOf h.size j = slotOf h.size key) (list : List (HashmapElem α)) :
    chainOf (withChain h key list) j = list := by
  have hlt := slotOf_lt hs key
  rw [chainOf, List.getD_eq_getElem?_getD, size_withChain, hj, Interface.withChain,
    List.getElem?_set_self hlt, Option.getD_some]

theorem chainOf_withChain_of_ne {j : ℤ} (hj : slotOf h.size j ≠ slotOf h.size key)
    (list : List (HashmapElem α)) : chainOf (withChain h key list) j = chainOf h j := by
  rw [chainOf, chainOf, List.getD_eq_getElem?_getD, List.getD_eq_getElem?_getD, size_withChain,
    Interface.withChain, List.getElem?_set_ne (Ne.symm hj)]

/-- INTERNAL: the index of a non-negative key is inside the array of chains.
SOURCE: hashmap.c:142-144, 177-180, 207-210 -/
theorem chain_eq (hs : Sized h) (hk : 0 ≤ key) :
    h.chain key = .ok (slotOf h.size key, chainOf h key) := by
  have hmod : key.tmod h.size = key % h.size := Int.tmod_eq_emod_of_nonneg hk
  have hnn := Int.emod_nonneg key (ne_of_gt hs.size_pos)
  have hne := ne_of_gt hs.size_pos
  have hget : h.head[(key % h.size).toNat]? = some (chainOf h key) := getElem?_slotOf hs key
  simp only [Hashmap.chain, hmod, hget, slotOf]
  rw [if_pos ⟨hnn, hne⟩]

/-- INTERNAL: a put is an upsert on the chain of its key.
SOURCE: hashmap.c:133-166 -/
theorem hmapPutAbs_eq (hs : Sized h) (hk : 0 ≤ key) (value : α) :
    hmapPutAbs h key value = .ok (withChain h key
      (upsert HashmapElem.keyVal ⟨key, value⟩ (chainOf h key))) := by
  unfold hmapPutAbs
  rw [chain_eq hs hk, ← putChain_eq]
  rfl

/-- INTERNAL: a get is a lookup in the chain of its key.
SOURCE: hashmap.c:168-200 -/
theorem hmapGetAbs_eq (hs : Sized h) (hk : 0 ≤ key) :
    hmapGetAbs h key =
      .ok ((lookup HashmapElem.keyVal key (chainOf h key)).map HashmapElem.value) := by
  unfold hmapGetAbs
  rw [chain_eq hs hk]
  rfl

/-- INTERNAL: a removal is a rewriting in the chain of its key.
SOURCE: hashmap.c:203-226 -/
theorem hmapRemoveAbs_eq (hs : Sized h) (hk : 0 ≤ key) :
    hmapRemoveAbs h key = .ok (withChain h key
      (rewriteFirst HashmapElem.keyVal key (fun e => ⟨0, e.value⟩) (chainOf h key))) := by
  unfold hmapRemoveAbs
  rw [chain_eq hs hk, ← removeChain_eq]
  rfl

/-- INTERNAL: a map that has just been made has its chains, all empty.
SOURCE: hashmap.c:95-122 -/
theorem hmapInit_of_pos {mSize : ℤ} (hsize : 0 < mSize) :
    (hmapInit mSize : Hashmap α) = ⟨mSize, List.replicate mSize.toNat []⟩ := by
  unfold hmapInit
  rw [if_neg (ne_of_gt hsize)]

theorem sized_hmapInit {mSize : ℤ} (hsize : 0 < mSize) : Sized (hmapInit mSize : Hashmap α) := by
  rw [hmapInit_of_pos hsize]
  exact ⟨hsize, List.length_replicate⟩

theorem chain_hmapInit {mSize : ℤ} (hsize : 0 < mSize) {i : ℕ} {list : List (HashmapElem α)}
    (hi : (hmapInit mSize).head[i]? = some list) : list = [] := by
  rw [hmapInit_of_pos hsize] at hi
  exact List.eq_of_mem_replicate (List.mem_of_getElem? hi)

/-- The value behind a lookup in a chain of pointers, `none` for `NULL`. -/
def pointerIn (key : ℤ) (list : List (HashmapElem (Option α))) : Option α :=
  (lookup HashmapElem.keyVal key list).bind HashmapElem.value

theorem hmapGetPtr_eq {h : Hashmap (Option α)} (hs : Sized h) (hk : 0 ≤ key) :
    hmapGetPtr h key = .ok (pointerIn key (chainOf h key)) := by
  unfold hmapGetPtr pointerIn
  rw [hmapGetAbs_eq hs hk]
  simp only [Except.map, ← Option.bind_id_eq_join, Option.bind_map]
  rfl

end VtRouter.Interface
