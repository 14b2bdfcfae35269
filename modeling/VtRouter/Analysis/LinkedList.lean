import VtRouter.Interface.LinkedList

/-!
# The linked list refines a list

Over any sequence of operations the chain on the heap stays linked up in both directions,
and its items are what the list operations make of them.  Two things are left to the program
around the list.  `size` is an `int`, and an append to a list of `2 ^ 31 - 1` nodes makes it
negative.  And the removals by item `free` what they take out, which has to be allocated:
an item that is in the list twice can be removed so once.  `Permitted` asks for these at the
operations concerned, of the sequence and not of the memory.
-/

set_option autoImplicit false

namespace VtRouter.Analysis

open Library Model Interface

variable {L ι : Type} [DecidableEq L] [DecidableEq ι]

/-! ## The sequence behind the list -/

/-- What the list is for: a sequence of items, and the checker that tells two items apart.
Beside it stands which items the program around the list has allocated. -/
structure Contents (ι : Type) where
  items : List (Option ι)
  equals : Option ι → Option ι → ℤ
  allocated : ι → Bool

/-- An item is given back. -/
def Contents.without (c : Contents ι) (item : Option ι) : Contents ι :=
  { c with allocated := fun x => c.allocated x && decide (item ≠ some x) }

/-- The first item that the checker finds equal; `none` where there is none or it is `NULL`. -/
def Contents.firstMatch (c : Contents ι) (item : Option ι) : Option ι :=
  (c.items.find? fun a => decide (c.equals a item = 0)).join

/-- What an operation does to the sequence. -/
def LlistOp.apply (c : Contents ι) : LlistOp L ι → Contents ι
  | .malloc item => { c with allocated := fun x => c.allocated x || decide (x = item) }
  | .free item => c.without item
  | .init => { c with items := [], equals := equals }
  | .setEqualityChecker equalityChecker => { c with equals := equalityChecker }
  | .append item _ _ => { c with items := c.items ++ [item] }
  | .removeAt index =>
      { c with items := if index < 0 then c.items else c.items.eraseIdx index.toNat }
  | .pop => { c with items := c.items.tail }
  | .requeue => { c with items := c.items.rotate 1 }
  | .remove item | .removeFree item =>
      { c.without (c.firstMatch item) with
        items := c.items.eraseP fun a => decide (c.equals a item = 0) }
  | .destroy => { c with items := [] }

/-- What an operation returns, read off the sequence. -/
def LlistOp.answer (c : Contents ι) : LlistOp L ι → LlistRet ι
  | .malloc _ | .free _ | .init | .setEqualityChecker _ | .requeue | .destroy => .void
  | .append _ _ _ => .code llistSuccess
  | .removeAt index => .item (if index < 0 then none else c.items[index.toNat]?.join)
  | .pop => .item c.items.head?.join
  | .remove item | .removeFree item =>
      .code (if c.items.any fun a => decide (c.equals a item = 0) then llistSuccess
        else elemNotFound)

/-- A new list beside the items that are allocated already. -/
def newList (allocated : ι → Bool) : Contents ι := ⟨[], equals, allocated⟩

/-- The sequence after some operations on a new list. -/
def contents (allocated : ι → Bool) (ops : List (LlistOp L ι)) : Contents ι :=
  ops.foldl LlistOp.apply (newList allocated)

/-- An append finds room for one more node in the size, and an item that is freed is
allocated. -/
def Permitted (c : Contents ι) : LlistOp L ι → Prop
  | .append _ _ _ => (c.items.length : ℤ) + 1 < 2 ^ 31
  | .remove item | .removeFree item => ∀ x, c.firstMatch item = some x → c.allocated x = true
  | .free item => ∀ x, item = some x → c.allocated x = true
  | _ => True

/-- Every one of the operations is permitted where it is made. -/
def Legal : Contents ι → List (LlistOp L ι) → Prop
  | _, [] => True
  | c, op :: ops => Permitted c op ∧ Legal (LlistOp.apply c op) ops

/-- The memory represents a sequence: the nodes from `head` by `next` are as many as `size`
says and hold the items, those from `tail` by `prev` are the same in reverse, and the ends
are `NULL`. -/
structure Represents (m : LlistMem L ι) (items : List (Option ι)) (locs : List L) : Prop where
  next : Path Node.next m.heap m.l.head locs
  prev : Path Node.prev m.heap m.l.tail locs.reverse
  distinct : locs.Nodup
  items : locs.map (fun x => (m.heap x).map Node.item) = items.map some
  size : m.l.size = locs.length
  head_prev : ∀ x n, m.l.head = some x → m.heap x = some n → n.prev = none
  tail_next : ∀ x n, m.l.tail = some x → m.heap x = some n → n.next = none
  head_null : m.l.head = none ↔ m.l.size = 0
  tail_null : m.l.tail = none ↔ m.l.size = 0

omit [DecidableEq L] [DecidableEq ι] in
theorem items_of_chain {h : Heap L (Option ι)} {p q : Option L} {xs : List (L × Option ι)}
    (hc : Chain h p xs q) :
    (xs.map Prod.fst).map (fun x => (h x).map Node.item) = (xs.map Prod.snd).map some := by
  induction xs generalizing p with
  | nil => rfl
  | cons x xs ih =>
      simp only [List.map_cons]
      rw [ih hc.2, hc.1]
      rfl

omit [DecidableEq L] [DecidableEq ι] in
/-- INTERNAL: a chain whose size counts represents its items. -/
theorem represents_of_holds {m : LlistMem L ι} {xs : List (L × Option ι)} (hh : Holds m xs) :
    Represents m (xs.map Prod.snd) (xs.map Prod.fst) := by
  have hw := hh.wired
  have hnext := hw.chain.path_next
  have hprev := hw.chain.path_prev
  rw [← hw.head] at hnext
  rw [← hw.tail] at hprev
  have hsize : m.l.size = (xs.map Prod.fst).length := by
    rw [List.length_map]
    exact hh.size
  refine ⟨hnext, hprev, hw.nodup, items_of_chain hw.chain, hsize, ?_, ?_, ?_, ?_⟩
  · intro x n hx hn
    cases xs with
    | nil => exact absurd (hw.head.symm.trans hx) (by simp)
    | cons y ys =>
        obtain rfl : y.1 = x := Option.some.inj (hw.head.symm.trans hx)
        rw [hw.chain.1, Option.some.injEq] at hn
        rw [← hn]
  · intro x n hx hn
    rcases List.eq_nil_or_concat' xs with rfl | ⟨ys, ⟨y, b⟩, rfl⟩
    · exact absurd (hw.tail.symm.trans hx) (by simp)
    · have htail := hw.tail.symm.trans hx
      rw [lastOr_snoc, Option.some.injEq] at htail
      subst htail
      rw [hw.chain.node, Option.some.injEq] at hn
      rw [← hn]
      rfl
  · rw [hw.head, hh.size]
    rcases xs with _ | ⟨⟨y, b⟩, ys⟩
    · simp
    · have hne : (((y, b) :: ys).length : ℤ) ≠ 0 := by simp; omega
      simp only [firstOr_cons, Option.some_ne_none, false_iff]
      exact hne
  · rw [hw.tail, hh.size]
    rcases List.eq_nil_or_concat' xs with rfl | ⟨ys, ⟨y, b⟩, rfl⟩
    · simp
    · have hne : ((ys ++ [(y, b)]).length : ℤ) ≠ 0 := by simp; omega
      simp only [lastOr_snoc, Option.some_ne_none, false_iff]
      exact hne

/-! ## The refinement -/

/-- The memory holds the sequence, in the nodes of `xs`. -/
structure Refines (m : LlistMem L ι) (c : Contents ι) (xs : List (L × Option ι)) : Prop where
  holds : Holds m xs
  items : xs.map Prod.snd = c.items
  equals : m.l.equals = c.equals
  allocated : m.allocated = c.allocated

omit [DecidableEq L] [DecidableEq ι] in
/-- INTERNAL: what an operation leaves refines the sequence of its items. -/
theorem Refines.becomes {m m' : LlistMem L ι} {c : Contents ι} {xs ys : List (L × Option ι)}
    {size : ℤ} (hr : Refines m c xs) (hb : Becomes m m' ys size) (hsize : size = ys.length)
    (hfits : (ys.length : ℤ) < 2 ^ 31) : Refines m' { c with items := ys.map Prod.snd } ys :=
  ⟨hb.holds hsize hfits, rfl, hb.equals.trans hr.equals, hb.allocated.trans hr.allocated⟩

omit [DecidableEq L] in
/-- INTERNAL: the program gets an item.  The list is not concerned. -/
theorem refines_malloc {m : LlistMem L ι} {c : Contents ι} {xs : List (L × Option ι)}
    (hr : Refines m c xs) (item : ι) :
    Refines (mallocItem m item) { c with
      allocated := fun x => c.allocated x || decide (x = item) } xs := by
  have hw := hr.holds.wired
  refine ⟨⟨⟨hw.chain, hw.nodup, hw.head, hw.tail⟩, hr.holds.size, hr.holds.fits⟩, hr.items,
    hr.equals, ?_⟩
  funext x
  simp only [mallocItem, Function.update_apply, hr.allocated]
  by_cases hx : x = item
  · simp [hx]
  · simp [hx]

omit [DecidableEq L] in
/-- INTERNAL: an item that is allocated, or `NULL`, can be freed.
SOURCE: linkedlist.c:231, 250 -/
theorem refines_free {m : LlistMem L ι} {c : Contents ι} {xs : List (L × Option ι)}
    (hr : Refines m c xs) (item : Option ι) (hpermit : ∀ x, item = some x → c.allocated x = true) :
    ∃ m', freeItem m item = .ok m' ∧ Refines m' (c.without item) xs := by
  have hw := hr.holds.wired
  cases item with
  | none =>
      refine ⟨m, rfl, hr.holds, hr.items, hr.equals, ?_⟩
      simp [Contents.without, hr.allocated]
  | some item =>
      have hallocated : m.allocated item = true := by
        rw [hr.allocated]
        exact hpermit item rfl
      refine ⟨{ m with allocated := Function.update m.allocated item false }, if_pos hallocated,
        ⟨⟨hw.chain, hw.nodup, hw.head, hw.tail⟩, hr.holds.size, hr.holds.fits⟩, hr.items,
        hr.equals, ?_⟩
      funext x
      simp only [Contents.without, Function.update_apply, hr.allocated]
      by_cases hx : x = item
      · simp [hx]
      · simp [hx, Ne.symm hx]

omit [DecidableEq ι] in
/-- INTERNAL: the removal at an index, with the item it returns.
SOURCE: linkedlist.c:124-188 -/
theorem refines_removeAt {m : LlistMem L ι} {c : Contents ι} {xs : List (L × Option ι)}
    (hr : Refines m c xs) {fuel : ℕ} (hfuel : xs.length < fuel) (index : ℤ) :
    ∃ m' ys, llistRemoveAt fuel m index =
        .ok (m', if index < 0 then none else c.items[index.toNat]?.join) ∧
      Refines m' { c with
        items := if index < 0 then c.items else c.items.eraseIdx index.toNat } ys ∧
      ys.length ≤ xs.length := by
  have hbound := hr.holds.fits
  have hsize := hr.holds.size
  have hitems := hr.items
  rcases llistRemoveAt_spec hr.holds hfuel index with
    ⟨ys, x, a, zs, m', rfl, hindex, hrun, hb⟩ | ⟨hout, hrun⟩
  · have hin : ¬ index < 0 := by omega
    have hnat : index.toNat = (ys.map Prod.snd).length := by
      rw [List.length_map]
      omega
    rw [List.length_append, List.length_cons] at hbound hsize
    rw [List.map_append, List.map_cons] at hitems
    have hnew := hr.becomes hb (by rw [hsize, List.length_append]; omega)
      (by rw [List.length_append]; omega)
    refine ⟨m', ys ++ zs, ?_, ?_, by simp⟩
    · rw [hrun, if_neg hin, ← hitems, hnat, List.getElem?_append_right le_rfl, Nat.sub_self]
      rfl
    · rw [if_neg hin, ← hitems, hnat, List.eraseIdx_append_of_length_le le_rfl, Nat.sub_self]
      rw [List.map_append] at hnew
      exact hnew
  · by_cases hneg : index < 0
    · exact ⟨m, xs, by rw [if_pos hneg, hrun], by rw [if_pos hneg]; exact hr, le_rfl⟩
    · have hlen : c.items.length ≤ index.toNat := by
        rw [← hitems, List.length_map]
        omega
      refine ⟨m, xs, ?_, ?_, le_rfl⟩
      · rw [hrun, if_neg hneg, List.getElem?_eq_none hlen]
        rfl
      · rw [if_neg hneg, List.eraseIdx_of_length_le hlen]
        exact hr

/-- INTERNAL: the removal of the first equal item, which has to be allocated, or of none.
SOURCE: linkedlist.c:223-239 -/
theorem refines_remove {m : LlistMem L ι} {c : Contents ι} {xs : List (L × Option ι)}
    (hr : Refines m c xs) {fuel : ℕ} (hfuel : xs.length < fuel) (item : Option ι)
    (hpermit : ∀ x, c.firstMatch item = some x → c.allocated x = true) :
    ∃ m' ys, llistRemove fuel m item =
        .ok (m', if c.items.any fun a => decide (c.equals a item = 0) then llistSuccess
          else elemNotFound) ∧
      Refines m' { c.without (c.firstMatch item) with
        items := c.items.eraseP fun a => decide (c.equals a item = 0) } ys ∧
      ys.length ≤ xs.length := by
  have hbound := hr.holds.fits
  have hsize := hr.holds.size
  have hitems := hr.items
  have hnone : ∀ ys : List (L × Option ι), (∀ w ∈ ys, m.l.equals w.2 item ≠ 0) →
      ∀ a ∈ ys.map Prod.snd, ¬ decide (c.equals a item = 0) = true := by
    intro ys hys a ha
    obtain ⟨w, hw, rfl⟩ := List.mem_map.mp ha
    rw [← hr.equals]
    simpa using hys w hw
  rcases llistRemove_spec hr.holds hfuel item with
    ⟨ys, x, a, zs, m', rfl, hnot, hat, hrun, hb⟩ | ⟨hnot, hrun⟩
  · rw [List.length_append, List.length_cons] at hbound hsize
    rw [List.map_append, List.map_cons] at hitems
    rw [hr.equals] at hat
    have hfirst : c.firstMatch item = a := by
      have hfind : ((x, a).2 :: zs.map Prod.snd).find? (fun a => decide (c.equals a item = 0)) =
          some a := List.find?_cons_of_pos (decide_eq_true hat)
      rw [Contents.firstMatch, ← hitems, List.find?_append,
        List.find?_eq_none.mpr (hnone ys hnot), hfind]
      rfl
    have hnew := hr.becomes hb (by rw [hsize, List.length_append]; omega)
      (by rw [List.length_append]; omega)
    obtain ⟨m'', hfree, hfreed⟩ := refines_free hnew a (hfirst ▸ hpermit)
    refine ⟨m'', ys ++ zs, ?_, ?_, by simp⟩
    · have hany : (c.items.any fun a => decide (c.equals a item = 0)) = true := by
        rw [← hitems, List.any_append, List.any_cons, decide_eq_true hat]
        simp
      rw [hrun, hfree, if_pos hany]
      rfl
    · have herase : ((x, a).2 :: zs.map Prod.snd).eraseP
          (fun a => decide (c.equals a item = 0)) = zs.map Prod.snd :=
        List.eraseP_cons_of_pos (decide_eq_true hat)
      rw [hfirst, ← hitems, List.eraseP_append_right _ (hnone ys hnot), herase, ← List.map_append]
      exact hfreed
  · have hfirst : c.firstMatch item = none := by
      rw [Contents.firstMatch, ← hitems, List.find?_eq_none.mpr (hnone xs hnot)]
      rfl
    obtain ⟨m', hfree, hfreed⟩ := refines_free hr none (fun x hx => absurd hx (by simp))
    obtain rfl : m = m' := Except.ok.inj hfree
    refine ⟨m, xs, ?_, ?_, le_rfl⟩
    · have hany : ¬ (c.items.any fun a => decide (c.equals a item = 0)) = true := by
        rw [← hitems, List.any_eq_true]
        rintro ⟨a, ha, hequal⟩
        exact hnone xs hnot a ha hequal
      rw [hrun, if_neg hany]
    · rw [hfirst, List.eraseP_of_forall_not (hitems ▸ hnone xs hnot)]
      exact hfreed

/-- INTERNAL: **one operation** on a list that refines a sequence succeeds, does to the
sequence what it should, and returns what can be read off the sequence.
SOURCE: linkedlist.c:18-278 -/
theorem exec_spec {m : LlistMem L ι} {c : Contents ι} {xs : List (L × Option ι)}
    (hr : Refines m c xs) {fuel : ℕ} (hfuel : xs.length < fuel) {op : LlistOp L ι}
    (hfresh : op.fresh m = true) (hpermit : Permitted c op) :
    ∃ m' ys, op.exec fuel m = .ok (m', LlistOp.answer c op) ∧
      Refines m' (LlistOp.apply c op) ys ∧ ys.length ≤ xs.length + 1 := by
  have hbound := hr.holds.fits
  have hsize := hr.holds.size
  cases op with
  | malloc item => exact ⟨mallocItem m item, xs, rfl, refines_malloc hr item, by omega⟩
  | free item =>
      obtain ⟨m', hfree, hnew⟩ := refines_free hr item hpermit
      exact ⟨m', xs, by simp only [LlistOp.exec, hfree]; rfl, hnew, by omega⟩
  | init =>
      refine ⟨llistInit m, [], rfl, ⟨⟨⟨trivial, List.nodup_nil, rfl, rfl⟩, rfl, ?_⟩, rfl, rfl,
        hr.allocated⟩, ?_⟩
      · simp
      · simp
  | setEqualityChecker equalityChecker =>
      have hw := hr.holds.wired
      refine ⟨llistSetEqualityChecker m equalityChecker, xs, rfl, ⟨?_, hr.items, rfl, hr.allocated⟩,
        by omega⟩
      exact ⟨⟨hw.chain, hw.nodup, hw.head, hw.tail⟩, hr.holds.size, hr.holds.fits⟩
  | append item newElem junk =>
      have hfree : m.heap newElem = none := Option.isNone_iff_eq_none.mp hfresh
      obtain ⟨m', hrun, hb, -⟩ := llistAppend_spec hr.holds.wired item hfree junk
      have hcount : (xs.length : ℤ) = c.items.length := by
        rw [← hr.items, List.length_map]
      have hfits : (c.items.length : ℤ) + 1 < 2 ^ 31 := hpermit
      have hlen : ((xs ++ [(newElem, item)]).length : ℤ) = m.l.size + 1 := by
        rw [List.length_append, List.length_singleton, hsize]
        rfl
      have hwrap : wrap32 (m.l.size + 1) = m.l.size + 1 :=
        wrap32_of_fits (by omega) (by omega)
      have hnew := hr.becomes hb (hwrap.trans hlen.symm) (by omega)
      refine ⟨m', xs ++ [(newElem, item)], ?_, ?_, by simp⟩
      · simp only [LlistOp.exec, hrun]
        rfl
      · rw [List.map_append, hr.items] at hnew
        exact hnew
  | removeAt index =>
      obtain ⟨m', ys, hrun, hnew, hlen⟩ := refines_removeAt hr hfuel index
      exact ⟨m', ys, by simp only [LlistOp.exec, hrun]; rfl, hnew, by omega⟩
  | pop =>
      obtain ⟨m', hrun, hb⟩ := llistPop_spec hr.holds
      have hlen : xs.tail.length ≤ xs.length := by simp
      have hnew := hr.becomes hb rfl (by omega)
      refine ⟨m', xs.tail, ?_, ?_, by omega⟩
      · simp only [LlistOp.exec, hrun, LlistOp.answer, ← hr.items, List.head?_map]
        rfl
      · rw [List.map_tail, hr.items] at hnew
        exact hnew
  | requeue =>
      obtain ⟨m', hrun, hb⟩ := llistRequeue_spec hr.holds
      have hnew := hr.becomes hb (by rw [List.length_rotate, hsize]) (by rwa [List.length_rotate])
      refine ⟨m', xs.rotate 1, ?_, ?_, by simp⟩
      · simp only [LlistOp.exec, hrun]
        rfl
      · rw [List.map_rotate, hr.items] at hnew
        exact hnew
  | remove item | removeFree item =>
      obtain ⟨m', ys, hrun, hnew, hlen⟩ := refines_remove hr hfuel item hpermit
      exact ⟨m', ys, by simp only [LlistOp.exec, llistRemoveFree, hrun]; rfl, hnew, by omega⟩
  | destroy =>
      obtain ⟨m', hrun, hb⟩ := llistDestroyLoop_spec hr.holds hfuel hfuel
      have hnew := hr.becomes hb rfl (by simp)
      exact ⟨m', [], by simp only [LlistOp.exec, llistDestroy, hrun]; rfl, hnew, by simp⟩

omit [DecidableEq L] in
theorem contents_snoc (allocated : ι → Bool) (ops : List (LlistOp L ι)) (op : LlistOp L ι) :
    contents allocated (ops ++ [op]) = LlistOp.apply (contents allocated ops) op := by
  simp [contents]

omit [DecidableEq L] in
/-- INTERNAL: what is legal one by one is legal up to the last, and permitted there. -/
theorem legal_snoc {c : Contents ι} {ops : List (LlistOp L ι)} {op : LlistOp L ι}
    (h : Legal c (ops ++ [op])) : Legal c ops ∧ Permitted (ops.foldl LlistOp.apply c) op := by
  induction ops generalizing c with
  | nil => exact ⟨trivial, h.1⟩
  | cons head ops ih =>
      obtain ⟨hlegal, hlast⟩ := ih h.2
      exact ⟨⟨h.1, hlegal⟩, hlast⟩

/-- INTERNAL: a run of legal operations refines their sequence, in no more nodes than there
were operations. -/
theorem refines_of_run {fuel : ℕ} {m₀ m : LlistMem L ι} {ops : List (LlistOp L ι)}
    (hrun : (llist fuel m₀).Run ops m) (hlegal : Legal (newList m₀.allocated) ops)
    (hfuel : ops.length < fuel) :
    ∃ xs, Refines m (contents m₀.allocated ops) xs ∧ xs.length ≤ ops.length := by
  revert hlegal hfuel
  apply LTS.run_invariant (llist fuel m₀) (fun ops m => Legal (newList m₀.allocated) ops →
    ops.length < fuel → ∃ xs, Refines m (contents m₀.allocated ops) xs ∧
      xs.length ≤ ops.length) _ _ ops m hrun
  · intro _ _
    exact ⟨[], ⟨⟨⟨trivial, List.nodup_nil, rfl, rfl⟩, rfl, by simp⟩, rfl, rfl, rfl⟩, le_rfl⟩
  · intro ops t op t' _ ih hstep hlegal hfuel
    rw [List.length_append, List.length_singleton] at hfuel ⊢
    obtain ⟨hbefore, hpermit⟩ := legal_snoc hlegal
    obtain ⟨xs, hr, hlen⟩ := ih hbefore (by omega)
    by_cases hfresh : op.fresh t = true
    · obtain ⟨m', ys, hexec, hr', hgrow⟩ :=
        exec_spec hr (by omega : xs.length < fuel) hfresh hpermit
      have hstep' : (llist fuel m₀).step t op = some m' := by
        simp only [llist, if_pos hfresh, hexec]
        rfl
      obtain rfl : m' = t' := Option.some.inj (hstep'.symm.trans hstep)
      refine ⟨ys, ?_, by omega⟩
      rw [contents_snoc]
      exact hr'
    · exact absurd hstep (by simp [llist, hfresh])

/-- **The list refines a sequence.**  In every run of legal operations, with any locations
from `malloc`, any items and any checkers, the memory represents the sequence that the
operations make, and the items that are allocated are those that the sequence says.  Every
operation that is permitted next succeeds, so nothing that was freed is used or freed again;
it leaves the memory representing what it does to the sequence, and returns what it should;
and the lookups agree with the sequence.
SOURCE: linkedlist.c:18-278 -/
theorem linked_list_refines (fuel : ℕ) (m₀ m : LlistMem L ι) (ops : List (LlistOp L ι))
    (hrun : (llist fuel m₀).Run ops m) (hlegal : Legal (newList m₀.allocated) ops)
    (hfuel : ops.length < fuel) :
    ((∃ locs, Represents m (contents m₀.allocated ops).items locs) ∧
        m.allocated = (contents m₀.allocated ops).allocated) ∧
      (∀ op : LlistOp L ι, op.fresh m = true → Permitted (contents m₀.allocated ops) op →
        ∃ m', op.exec fuel m = .ok (m', LlistOp.answer (contents m₀.allocated ops) op) ∧
          (∃ locs, Represents m' (contents m₀.allocated (ops ++ [op])).items locs) ∧
          m'.allocated = (contents m₀.allocated (ops ++ [op])).allocated) ∧
      (∀ index, llistGet fuel m index =
        .ok (if index < 0 then none
          else (contents m₀.allocated ops).items[index.toNat]?.join)) ∧
      (∀ item, llistGetPos fuel m item =
        .ok (((contents m₀.allocated ops).items.findIdx? fun a =>
          decide ((contents m₀.allocated ops).equals a item = 0)).elim elemNotFound
            fun i => (i : ℤ))) ∧
      llistSize m = (contents m₀.allocated ops).items.length ∧
      llistIterate fuel m = .ok ((contents m₀.allocated ops).items.filterMap id) := by
  obtain ⟨xs, hr, hlen⟩ := refines_of_run hrun hlegal hfuel
  have hfuel' : xs.length < fuel := by omega
  refine ⟨⟨?_, hr.allocated⟩, fun op hfresh hpermit => ?_, fun index => ?_, fun item => ?_, ?_, ?_⟩
  · rw [← hr.items]
    exact ⟨_, represents_of_holds hr.holds⟩
  · obtain ⟨m', ys, hexec, hr', -⟩ := exec_spec hr hfuel' hfresh hpermit
    rw [contents_snoc, ← hr'.items]
    exact ⟨m', hexec, ⟨_, represents_of_holds hr'.holds⟩, hr'.allocated⟩
  · rw [llistGet_spec hr.holds hfuel' index, ← hr.items, List.getElem?_map]
  · rw [llistGetPos_spec hr.holds hfuel' item, hr.items, hr.equals]
  · rw [llistSize, hr.holds.size, ← hr.items, List.length_map]
  · have hnil : Holds m ([] ++ xs) := hr.holds
    have hiterate := llistIterateLoop_spec hnil hfuel' hfuel'
    rw [llistIterate, ← hr.items, List.filterMap_map]
    exact hiterate

/-- Memory in which nothing is allocated. -/
def emptyMem : LlistMem ℕ ℕ := ⟨fun _ => none, ⟨0, none, none, equals⟩, fun _ => false⟩

/-- Two appends, a rotation, and a removal of the item that was allocated. -/
def fewOps : List (LlistOp ℕ ℕ) :=
  [.malloc 7, .append (some 7) 0 ⟨none, none, none⟩, .append (some 8) 1 ⟨none, none, none⟩,
    .requeue, .remove (some 7)]

/-- Behind them the list is the second item, and the first is not allocated any more. -/
theorem linked_list_refines_fewOps :
    ∃ m, (llist 9 emptyMem).Run fewOps m ∧ (∃ locs, Represents m [some 8] locs) ∧
      m.allocated 7 = false := by
  have hexec : ((llist 9 emptyMem).exec (llist 9 emptyMem).init fewOps).isSome := by
    decide +kernel
  obtain ⟨m, hrun⟩ := Option.isSome_iff_exists.mp hexec
  have hlegal : Legal (newList emptyMem.allocated) fewOps := by
    simp [fewOps, Legal, Permitted, LlistOp.apply, newList, Contents.firstMatch, equals]
  obtain ⟨⟨hrepresents, hallocated⟩, -⟩ :=
    linked_list_refines 9 emptyMem m fewOps hrun hlegal (by decide)
  exact ⟨m, hrun, hrepresents, congrFun hallocated 7⟩

/-- One append after the other. -/
def appends (n : ℕ) : List (LlistOp ℕ ℕ) :=
  (List.range n).map fun i => .append none i ⟨none, none, none⟩

/-- INTERNAL: any number of appends is a run; the chain has that many nodes, and the size is
what an `int` makes of the number.
SOURCE: linkedlist.c:26-60 -/
theorem appends_run (fuel n : ℕ) :
    ∃ m xs, (llist fuel emptyMem).Run (appends n) m ∧ Wired m xs ∧ xs.length = n ∧
      m.l.size = wrap32 n ∧ ∀ y, n ≤ y → m.heap y = none := by
  induction n with
  | zero =>
      exact ⟨llistInit emptyMem, [], rfl, ⟨trivial, List.nodup_nil, rfl, rfl⟩, rfl, rfl,
        fun _ _ => rfl⟩
  | succ n ih =>
      obtain ⟨m, xs, hrun, hw, hlen, hsize, hfree⟩ := ih
      obtain ⟨m', hexec, hb, hframe⟩ :=
        llistAppend_spec hw none (hfree n le_rfl) ⟨none, none, none⟩
      have happends : appends (n + 1) = appends n ++ [.append none n ⟨none, none, none⟩] := by
        rw [appends, appends, List.range_succ, List.map_append]
        rfl
      have hfresh : (m.heap n).isNone = true := by
        rw [hfree n le_rfl]
        rfl
      refine ⟨m', xs ++ [(n, none)], ?_, hb.wired, by simp [hlen], ?_, fun y hy => ?_⟩
      · rw [happends, LTS.run_snoc_iff]
        refine ⟨m, hrun, ?_⟩
        simp only [llist, LlistOp.fresh, LlistOp.exec, if_pos hfresh, hexec]
        rfl
      · rw [hb.size, hsize, wrap32_wrap32_add, Nat.cast_add, Nat.cast_one]
      · exact hframe y (by omega) (hfree y (by omega))

/-- INTERNAL: **the size overflows**: `2 ^ 31` appends leave a chain of `2 ^ 31` nodes and a
negative size, which no sequence represents. -/
theorem appends_overflow :
    ∃ m, (llist 1 emptyMem).Run (appends (2 ^ 31)) m ∧
      (∃ locs, Path Node.next m.heap m.l.head locs ∧ locs.length = 2 ^ 31) ∧
      m.l.size = -2 ^ 31 ∧ ¬ ∃ items locs, Represents m items locs := by
  obtain ⟨m, xs, hrun, hw, hlen, hsize, -⟩ := appends_run 1 (2 ^ 31)
  have hnegative : m.l.size = -2 ^ 31 := by
    rw [hsize]
    norm_num [wrap32, Int.bmod]
  have hnext := hw.chain.path_next
  rw [← hw.head] at hnext
  refine ⟨m, hrun, ⟨_, hnext, by rw [List.length_map, hlen]⟩, hnegative, ?_⟩
  rintro ⟨items, locs, hr⟩
  have hcount := hr.size
  rw [hnegative] at hcount
  omega

/-- An item that is in the list twice, and removed once. -/
def twiceOps : List (LlistOp ℕ ℕ) :=
  [.malloc 7, .append (some 7) 0 ⟨none, none, none⟩, .append (some 7) 1 ⟨none, none, none⟩,
    .remove (some 7)]

/-- **Both limits are reached**: the size overflows behind `2 ^ 31` appends; and where an item
is in the list twice, the second removal frees it a second time. -/
theorem list_limits :
    (∃ m, (llist 1 emptyMem).Run (appends (2 ^ 31)) m ∧
      (∃ locs, Path Node.next m.heap m.l.head locs ∧ locs.length = 2 ^ 31) ∧
      m.l.size = -2 ^ 31 ∧ ¬ ∃ items locs, Represents m items locs) ∧
    ∃ m, (llist 9 emptyMem).Run twiceOps m ∧ llistRemove 9 m (some 7) = .error .outOfBounds := by
  refine ⟨appends_overflow, _, rfl, ?_⟩
  rfl

end VtRouter.Analysis
