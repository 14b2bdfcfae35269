import Mathlib.Data.List.Rotate
import VtRouter.Model.LinkedList

/-!
# The operations of the linked list, one by one

`Wired m xs` says that the pairs `xs` of a location and its item are the list in memory `m`,
in both directions and with both ends.  Each operation is described once, by what it does to
`xs`; the size is a counter beside the chain, and `Holds` adds that it counts.
-/

set_option autoImplicit false

namespace VtRouter.Interface

open Library Model

variable {L ι : Type}

/-- The list in memory is the chain of `xs`. -/
structure Wired (m : LlistMem L ι) (xs : List (L × Option ι)) : Prop where
  chain : Chain m.heap none xs none
  nodup : (xs.map Prod.fst).Nodup
  head : m.l.head = firstOr xs none
  tail : m.l.tail = lastOr xs none

/-- And its size counts the nodes, which an `int` can. -/
structure Holds (m : LlistMem L ι) (xs : List (L × Option ι)) : Prop where
  wired : Wired m xs
  size : m.l.size = xs.length
  fits : (xs.length : ℤ) < 2 ^ 31

/-- The memory behind an operation that leaves the chain of `xs`, a size, and the rest of the
list and the items as they were. -/
structure Becomes (m m' : LlistMem L ι) (xs : List (L × Option ι)) (size : ℤ) : Prop where
  wired : Wired m' xs
  size : m'.l.size = size
  equals : m'.l.equals = m.l.equals
  allocated : m'.allocated = m.allocated

theorem Becomes.holds {m m' : LlistMem L ι} {xs : List (L × Option ι)} {size : ℤ}
    (hb : Becomes m m' xs size) (hsize : size = xs.length) (hfits : (xs.length : ℤ) < 2 ^ 31) :
    Holds m' xs :=
  ⟨hb.wired, hb.size.trans hsize, hfits⟩

theorem nodup_middle {pre post : List (L × Option ι)} {x : L} {a : Option ι}
    (hn : ((pre ++ (x, a) :: post).map Prod.fst).Nodup) :
    x ∉ (pre ++ post).map Prod.fst ∧ ((pre ++ post).map Prod.fst).Nodup := by
  rw [List.map_append, List.map_cons, List.nodup_middle, ← List.map_append] at hn
  exact List.nodup_cons.mp hn

/-- INTERNAL: distinct locations with one more at the end. -/
theorem nodup_snoc_iff {xs : List (L × Option ι)} {x : L} {a : Option ι} :
    ((xs ++ [(x, a)]).map Prod.fst).Nodup ↔ x ∉ xs.map Prod.fst ∧ (xs.map Prod.fst).Nodup := by
  rw [List.map_append, List.nodup_append_comm]
  exact List.nodup_cons

/-- INTERNAL: two stretches of a list share no location. -/
theorem ne_of_nodup_append {xs ys : List (L × Option ι)}
    (hn : ((xs ++ ys).map Prod.fst).Nodup) {x y : L} (hx : x ∈ xs.map Prod.fst)
    (hy : y ∈ ys.map Prod.fst) : x ≠ y := by
  rw [List.map_append] at hn
  exact (List.nodup_append.mp hn).2.2 x hx y hy

theorem firstOr_ne {xs : List (L × Option ι)} {q : Option L} {x : L}
    (hx : x ∉ xs.map Prod.fst) (hne : xs ≠ []) : firstOr xs q ≠ some x := by
  cases xs with
  | nil => exact absurd rfl hne
  | cons y xs =>
      intro heq
      exact hx (Option.some.inj heq ▸ List.mem_cons_self)

theorem lastOr_ne {xs : List (L × Option ι)} {x : L} (hx : x ∉ xs.map Prod.fst) :
    lastOr xs none ≠ some x :=
  fun heq => hx (lastOr_mem heq (Option.some_ne_none x).symm)

section Operations

variable [DecidableEq L]

/-- INTERNAL: an append puts a node behind the last, and counts it.
SOURCE: linkedlist.c:26-60 -/
theorem llistAppend_spec {m : LlistMem L ι} {xs : List (L × Option ι)} (hw : Wired m xs)
    (item : Option ι) {newElem : L} (hfresh : m.heap newElem = none)
    (junk : Node L (Option ι)) :
    ∃ m', llistAppend m item newElem junk = .ok (m', llistSuccess) ∧
      Becomes m m' (xs ++ [(newElem, item)]) (wrap32 (m.l.size + 1)) ∧
      ∀ y, y ≠ newElem → m.heap y = none → m'.heap y = none := by
  have hnew : newElem ∉ xs.map Prod.fst := fun hmem => hw.chain.allocated hmem hfresh
  have hnodup : ((xs ++ [(newElem, item)]).map Prod.fst).Nodup :=
    nodup_snoc_iff.mpr ⟨hnew, hw.nodup⟩
  have hchain := hw.chain.set hnew (some { junk with item := item })
  rcases List.eq_nil_or_concat' xs with rfl | ⟨ys, ⟨y, b⟩, rfl⟩
  · have hhead : m.l.head = none := hw.head
    refine ⟨{ m with
        heap := m.heap.set newElem (some ⟨item, none, none⟩)
        l := ⟨wrap32 (m.l.size + 1), some newElem, some newElem, m.l.equals⟩ }, ?_, ?_, ?_⟩
    · simp [llistAppend, hhead]
    · exact ⟨⟨⟨Heap.set_self _ _ _, trivial⟩, hnodup, rfl, rfl⟩, rfl, rfl, rfl⟩
    · intro z hz hnone
      exact (Heap.set_of_ne m.heap hz _).trans hnone
  · have hhead : m.l.head ≠ none := by
      rw [hw.head, firstOr_append]
      cases ys with
      | nil => exact Option.some_ne_none _
      | cons y ys => exact Option.some_ne_none _
    have htail : m.l.tail = some y := by
      rw [hw.tail, lastOr_snoc]
    have hy : y ∉ ys.map Prod.fst := (nodup_snoc_iff.mp hw.nodup).1
    have hyne : y ≠ newElem := by
      rintro rfl
      exact hnew (by simp)
    obtain ⟨heap, hset, hlinked, hframe⟩ := hchain.setNext_last hy (some newElem)
    have hnode : heap newElem = some { junk with item := item } :=
      (hframe newElem (Ne.symm hyne)).trans (Heap.set_self _ _ _)
    refine ⟨{ m with
        heap := heap.set newElem (some ⟨item, none, some y⟩)
        l := ⟨wrap32 (m.l.size + 1), m.l.head, some newElem, m.l.equals⟩ }, ?_, ?_, ?_⟩
    · simp only [llistAppend, if_neg hhead, htail, hset, ok_bind, Heap.setNext_some hnode,
        Heap.setPrev_set_self]
      rfl
    · refine ⟨⟨hlinked.snoc hnew, hnodup, ?_, (lastOr_snoc _ _ _ _).symm⟩, rfl, rfl, rfl⟩
      exact hw.head.trans (firstOr_snoc_append _ _ _ _ _).symm
    · intro z hz hnone
      have hzy : z ≠ y := by
        rintro rfl
        exact hw.chain.allocated (by simp) hnone
      calc heap.set newElem (some ⟨item, none, some y⟩) z = heap z := Heap.set_of_ne heap hz _
        _ = m.heap.set newElem (some { junk with item := item }) z := hframe z hzy
        _ = m.heap z := Heap.set_of_ne m.heap hz _
        _ = none := hnone

/-- INTERNAL: the only node.
SOURCE: linkedlist.c:137-145 -/
theorem unlink_single {m : LlistMem L ι} {x : L} {a : Option ι} (hw : Wired m [(x, a)])
    (hsize : wrap32 (m.l.size - 1) = 0) :
    ∃ m', unlink m x = .ok (m', a) ∧ Becomes m m' [] 0 := by
  have hnode : m.heap x = some ⟨a, none, none⟩ := hw.chain.1
  have hhead : m.l.head = some x := hw.head
  refine ⟨{ m with heap := m.heap.set x none, l := ⟨0, none, none, m.l.equals⟩ }, ?_, ?_⟩
  · simp only [unlink, load_some hnode, ok_bind, hhead, hsize, if_true, Heap.free_some hnode]
    rfl
  · exact ⟨⟨trivial, List.nodup_nil, rfl, rfl⟩, rfl, rfl, rfl⟩

/-- INTERNAL: the first node of several.
SOURCE: linkedlist.c:147-153 -/
theorem unlink_first {m : LlistMem L ι} {x y : L} {a b : Option ι} {ys : List (L × Option ι)}
    (hw : Wired m ((x, a) :: (y, b) :: ys)) (hsize : wrap32 (m.l.size - 1) ≠ 0) :
    ∃ m', unlink m x = .ok (m', a) ∧ Becomes m m' ((y, b) :: ys) (wrap32 (m.l.size - 1)) := by
  obtain ⟨hnode, hrest⟩ := hw.chain
  obtain ⟨hx, hnodup⟩ := List.nodup_cons.mp hw.nodup
  have hy : y ∉ ys.map Prod.fst := (List.nodup_cons.mp hnodup).1
  have hhead : m.l.head = some x := hw.head
  obtain ⟨heap, hset, hchain, hframe⟩ := hrest.setPrev_first hy none
  have hnode' : heap x = some ⟨a, some y, none⟩ := by
    rw [hframe x fun heq => hx (heq ▸ List.mem_cons_self)]
    exact hnode
  refine ⟨{ m with
      heap := heap.set x none
      l := ⟨wrap32 (m.l.size - 1), some y, m.l.tail, m.l.equals⟩ }, ?_, ?_⟩
  · simp only [unlink, load_some hnode, ok_bind, hhead, if_true, if_neg hsize, firstOr_cons]
    simp only [ne_eq, Option.some_ne_none, not_false_eq_true, if_true, hset, ok_bind,
      load_some hnode', Heap.free_some hnode']
    rfl
  · exact ⟨⟨hchain.set hx none, hnodup, rfl, hw.tail⟩, rfl, rfl, rfl⟩

/-- INTERNAL: the last node of several.
SOURCE: linkedlist.c:155-169 -/
theorem unlink_last {m : LlistMem L ι} {x z : L} {a c : Option ι} {zs : List (L × Option ι)}
    (hw : Wired m (zs ++ [(z, c)] ++ [(x, a)])) :
    ∃ m', unlink m x = .ok (m', a) ∧
      Becomes m m' (zs ++ [(z, c)]) (wrap32 (m.l.size - 1)) := by
  obtain ⟨hpre, hlast⟩ := chain_append.mp hw.chain
  obtain ⟨hx, hnodup⟩ := nodup_snoc_iff.mp hw.nodup
  have hnode : m.heap x = some ⟨a, none, some z⟩ := by
    rw [lastOr_snoc] at hlast
    exact hlast.1
  have hhead : some x ≠ m.l.head := by
    rw [hw.head, firstOr_append]
    exact (firstOr_ne hx (by simp)).symm
  have htail : m.l.tail = some x := by
    rw [hw.tail, lastOr_snoc]
  have hz : z ∉ zs.map Prod.fst := (nodup_snoc_iff.mp hnodup).1
  obtain ⟨heap, hset, hchain, hframe⟩ := hpre.setNext_last hz none
  have hxz : x ≠ z := by
    rintro rfl
    exact hx (by simp)
  have hnode' : heap x = some ⟨a, none, some z⟩ := (hframe x hxz).trans hnode
  refine ⟨{ m with
      heap := heap.set x none
      l := ⟨wrap32 (m.l.size - 1), m.l.head, some z, m.l.equals⟩ }, ?_, ?_⟩
  · simp only [unlink, load_some hnode, ok_bind, if_neg hhead, htail, if_true]
    simp only [ne_eq, Option.some_ne_none, not_false_eq_true, if_true, hset, ok_bind,
      Heap.free_some hnode']
    rfl
  · refine ⟨⟨hchain.set hx none, hnodup, ?_, (lastOr_snoc zs z c none).symm⟩, rfl, rfl, rfl⟩
    exact hw.head.trans (firstOr_snoc_append _ _ _ _ _)

/-- INTERNAL: a node between two others.
SOURCE: linkedlist.c:171-180 -/
theorem unlink_between {m : LlistMem L ι} {x y z : L} {a b c : Option ι}
    {ys zs : List (L × Option ι)} (hw : Wired m (zs ++ [(z, c)] ++ (x, a) :: (y, b) :: ys)) :
    ∃ m', unlink m x = .ok (m', a) ∧
      Becomes m m' (zs ++ [(z, c)] ++ (y, b) :: ys) (wrap32 (m.l.size - 1)) := by
  obtain ⟨hpre, hnode, hpost⟩ := chain_append.mp hw.chain
  obtain ⟨hx, hnodup⟩ := nodup_middle hw.nodup
  rw [lastOr_snoc, firstOr_cons] at hnode
  have hapart : ∀ w ∈ (zs ++ [(z, c)]).map Prod.fst, ∀ v ∈ ((y, b) :: ys).map Prod.fst, w ≠ v :=
    fun w hw v hv => ne_of_nodup_append hnodup hw hv
  rw [List.map_append, List.nodup_append] at hnodup
  have hz : z ∉ zs.map Prod.fst := (nodup_snoc_iff.mp hnodup.1).1
  have hy : y ∉ ys.map Prod.fst := (List.nodup_cons.mp hnodup.2.1).1
  rw [List.map_append, List.mem_append, not_or] at hx
  have hhead : some x ≠ m.l.head := by
    rw [hw.head, firstOr_append]
    exact (firstOr_ne hx.1 (by simp)).symm
  have htail : some x ≠ m.l.tail := by
    rw [hw.tail, lastOr_append]
    exact (lastOr_ne hx.2).symm
  have hxz : x ≠ z := by
    rintro rfl
    exact hx.1 (by simp)
  have hxy : x ≠ y := by
    rintro rfl
    exact hx.2 (by simp)
  -- the link into the node, then the link back to it
  obtain ⟨heap, hset, hpre, hframe⟩ := hpre.setNext_last hz (some y)
  have hpost : Chain heap (some x) ((y, b) :: ys) none :=
    hpost.congr fun w hw => hframe w (hapart z (by simp) w hw).symm
  obtain ⟨heap', hset', hpost, hframe'⟩ := hpost.setPrev_first hy (some z)
  have hpre : Chain heap' none (zs ++ [(z, c)]) (some y) :=
    hpre.congr fun w hw => hframe' w (hapart w hw y (by simp))
  have hnode' : heap x = some ⟨a, some y, some z⟩ := (hframe x hxz).trans hnode
  have hnode'' : heap' x = some ⟨a, some y, some z⟩ := (hframe' x hxy).trans hnode'
  refine ⟨{ m with
      heap := heap'.set x none
      l := ⟨wrap32 (m.l.size - 1), m.l.head, m.l.tail, m.l.equals⟩ }, ?_, ?_⟩
  · simp only [unlink, load_some hnode, ok_bind, if_neg hhead, if_neg htail]
    simp only [ne_eq, Option.some_ne_none, not_false_eq_true, if_true, hset, hset', ok_bind,
      load_some hnode', Heap.free_some hnode'']
    rfl
  · refine ⟨⟨?_, (nodup_middle hw.nodup).2, ?_, ?_⟩, rfl, rfl, rfl⟩
    · apply chain_append.mpr
      refine ⟨hpre.set hx.1 none, ?_⟩
      rw [lastOr_snoc]
      exact hpost.set hx.2 none
    · exact hw.head.trans ((firstOr_snoc_append _ _ _ _ none).trans
        (firstOr_snoc_append _ _ _ _ none).symm)
    · rw [hw.tail, lastOr_append (zs ++ [(z, c)]), lastOr_append (zs ++ [(z, c)])]
      rfl

theorem wrap32_of_fits {x : ℤ} (hlo : -1 ≤ x) (hhi : x < 2 ^ 31) : wrap32 x = x :=
  wrap32_of_isInt32 ⟨by omega, hhi⟩

/-- INTERNAL: **a node is taken out**, wherever it stands.
SOURCE: linkedlist.c:135-181 -/
theorem unlink_spec {m : LlistMem L ι} {pre post : List (L × Option ι)} {x : L} {a : Option ι}
    (hh : Holds m (pre ++ (x, a) :: post)) :
    ∃ m', unlink m x = .ok (m', a) ∧ Becomes m m' (pre ++ post) (m.l.size - 1) := by
  have hsize := hh.size
  have hfits := hh.fits
  rw [List.length_append, List.length_cons] at hsize hfits
  have hwrap : wrap32 (m.l.size - 1) = m.l.size - 1 := by
    apply wrap32_of_fits
    · omega
    · omega
  rcases List.eq_nil_or_concat' pre with rfl | ⟨zs, ⟨z, c⟩, rfl⟩
  · cases post with
    | nil =>
        have hone : m.l.size = 1 := by simpa using hsize
        rw [hone]
        exact unlink_single hh.wired (by rw [hone]; rfl)
    | cons y ys =>
        rw [← hwrap]
        apply unlink_first hh.wired
        rw [hwrap, hsize]
        simp only [List.length_nil, List.length_cons]
        omega
  · rw [← hwrap]
    cases post with
    | nil =>
        rw [List.append_nil]
        exact unlink_last hh.wired
    | cons y ys => exact unlink_between hh.wired

omit [DecidableEq L] in
/-- INTERNAL: **the walk along the list** stops at the first node that is found, with its
position, and at the end where there is none.  The induction is on the stretch that is still
to be walked, and the position stays an `int` because the list has no more nodes than that.
SOURCE: linkedlist.c:64-75, 82-90, 129-184, 224-236 -/
theorem llistWalk_spec {m : LlistMem L ι} {β : Type} (found : ℤ → Option ι → Bool)
    (onFound : ℤ → L → Except Fault β) (onEnd : β) {pre post : List (L × Option ι)}
    (hh : Holds m (pre ++ post)) {fuel : ℕ} (hfuel : post.length < fuel) :
    (∃ ys x a zs, post = ys ++ (x, a) :: zs ∧
        (∀ (k : ℕ) w, ys[k]? = some w → found (pre.length + k) w.2 = false) ∧
        found (pre.length + ys.length) a = true ∧
        llistWalk m.heap found onFound onEnd fuel pre.length (firstOr post none) =
          onFound (pre.length + ys.length) x) ∨
      ((∀ (k : ℕ) w, post[k]? = some w → found (pre.length + k) w.2 = false) ∧
        llistWalk m.heap found onFound onEnd fuel pre.length (firstOr post none) = .ok onEnd) := by
  induction post generalizing pre fuel with
  | nil =>
      obtain ⟨fuel, rfl⟩ := Nat.exists_eq_add_one_of_ne_zero (Nat.ne_of_gt hfuel)
      exact Or.inr ⟨fun k w hk => absurd hk (by simp), rfl⟩
  | cons y ys ih =>
      obtain ⟨fuel, rfl⟩ := Nat.exists_eq_add_one_of_ne_zero (Nat.ne_zero_of_lt hfuel)
      obtain ⟨y, b⟩ := y
      have hnode := hh.wired.chain.node
      rw [List.length_cons] at hfuel
      simp only [firstOr_cons, llistWalk, load_some hnode, ok_bind]
      by_cases hfound : found pre.length b = true
      · rw [if_pos hfound]
        refine Or.inl ⟨[], y, b, ys, rfl, fun k w hk => absurd hk (by simp), ?_, ?_⟩
        · simpa using hfound
        · simp
      · rw [if_neg hfound]
        have hh' : Holds m (pre ++ [(y, b)] ++ ys) := by
          rw [List.append_assoc]
          exact hh
        have hlen : ((pre ++ [(y, b)]).length : ℤ) = pre.length + 1 := by simp
        have hwrap : wrap32 (pre.length + 1) = ((pre ++ [(y, b)]).length : ℤ) := by
          have hfits := hh.fits
          rw [List.length_append, List.length_cons] at hfits
          rw [hlen]
          apply wrap32_of_fits
          · omega
          · omega
        have hstep : ∀ (zs : List (L × Option ι)),
            (∀ (k : ℕ) w, zs[k]? = some w →
              found ((pre ++ [(y, b)]).length + k) w.2 = false) →
            ∀ (k : ℕ) w, ((y, b) :: zs)[k]? = some w → found (pre.length + k) w.2 = false := by
          intro zs hzs k w hk
          cases k with
          | zero =>
              rw [List.getElem?_cons_zero, Option.some.injEq] at hk
              rw [← hk]
              simpa using hfound
          | succ k =>
              rw [List.getElem?_cons_succ] at hk
              have hnot := hzs k w hk
              rw [hlen] at hnot
              rw [Nat.cast_add, Nat.cast_one]
              have hpos : (pre.length : ℤ) + (k + 1) = pre.length + 1 + k := by omega
              rw [hpos]
              exact hnot
        have hrest := ih hh' (by omega : ys.length < fuel)
        rw [hwrap]
        rcases hrest with ⟨ws, x, a, zs, hys, hnot, hat, hrun⟩ | ⟨hnot, hrun⟩
        · have hpos : (((pre ++ [(y, b)]).length : ℤ) + ws.length) =
              pre.length + ((y, b) :: ws).length := by
            rw [hlen, List.length_cons]
            omega
          rw [hpos] at hat hrun
          exact Or.inl ⟨(y, b) :: ws, x, a, zs, by rw [hys]; rfl, hstep ws hnot, hat, hrun⟩
        · exact Or.inr ⟨hstep ys hnot, hrun⟩

omit [DecidableEq L] in
/-- INTERNAL: the same for a walk from the head of the list. -/
theorem llistWalk_head {m : LlistMem L ι} {β : Type} (found : ℤ → Option ι → Bool)
    (onFound : ℤ → L → Except Fault β) (onEnd : β) {xs : List (L × Option ι)}
    (hh : Holds m xs) {fuel : ℕ} (hfuel : xs.length < fuel) :
    (∃ ys x a zs, xs = ys ++ (x, a) :: zs ∧
        (∀ (k : ℕ) w, ys[k]? = some w → found k w.2 = false) ∧ found ys.length a = true ∧
        llistWalk m.heap found onFound onEnd fuel 0 m.l.head = onFound ys.length x) ∨
      ((∀ (k : ℕ) w, xs[k]? = some w → found k w.2 = false) ∧
        llistWalk m.heap found onFound onEnd fuel 0 m.l.head = .ok onEnd) := by
  have hnil : Holds m ([] ++ xs) := hh
  have hwalk := llistWalk_spec found onFound onEnd hnil hfuel
  simp only [List.length_nil, Nat.cast_zero, zero_add] at hwalk
  rw [hh.wired.head]
  exact hwalk

/-- INTERNAL: **`llist_remove_at`** at any index.
SOURCE: linkedlist.c:124-188 -/
theorem llistRemoveAt_spec {m : LlistMem L ι} {xs : List (L × Option ι)} (hh : Holds m xs)
    {fuel : ℕ} (hfuel : xs.length < fuel) (index : ℤ) :
    (∃ ys x a zs m', xs = ys ++ (x, a) :: zs ∧ index = ys.length ∧
        llistRemoveAt fuel m index = .ok (m', a) ∧ Becomes m m' (ys ++ zs) (m.l.size - 1)) ∨
      ((index < 0 ∨ (xs.length : ℤ) ≤ index) ∧ llistRemoveAt fuel m index = .ok (m, none)) := by
  rcases llistWalk_head (fun i _ => decide (i = index)) (fun _ head => unlink m head) (m, none) hh
    hfuel with ⟨ys, x, a, zs, rfl, -, hat, hrun⟩ | ⟨hnot, hrun⟩
  · obtain ⟨m', hunlink, hbecomes⟩ := unlink_spec hh
    have hindex : index = ys.length := (of_decide_eq_true hat).symm
    exact Or.inl ⟨ys, x, a, zs, m', rfl, hindex, hrun.trans hunlink, hbecomes⟩
  · refine Or.inr ⟨?_, hrun⟩
    by_contra hin
    have hlt : index.toNat < xs.length := by omega
    have hfalse := hnot index.toNat _ (List.getElem?_eq_getElem hlt)
    have hcast : (index.toNat : ℤ) = index := by omega
    rw [hcast] at hfalse
    exact absurd rfl (of_decide_eq_false hfalse)

/-- INTERNAL: `llist_pop` takes out the first node.
SOURCE: linkedlist.c:194-221 -/
theorem llistPop_spec {m : LlistMem L ι} {xs : List (L × Option ι)} (hh : Holds m xs) :
    ∃ m', llistPop m = .ok (m', (xs.head?.map Prod.snd).join) ∧
      Becomes m m' xs.tail (xs.tail.length : ℤ) := by
  have hsize := hh.size
  have hfits := hh.fits
  cases xs with
  | nil =>
      refine ⟨m, ?_, hh.wired, hh.size, rfl, rfl⟩
      simp only [llistPop, hsize, List.length_nil, Nat.cast_zero, if_true]
      rfl
  | cons x rest =>
      obtain ⟨x, a⟩ := x
      obtain ⟨hnode, hrest⟩ := hh.wired.chain
      obtain ⟨hx, hnodup⟩ := List.nodup_cons.mp hh.wired.nodup
      have hhead : m.l.head = some x := hh.wired.head
      rw [List.length_cons] at hsize hfits
      have hne : m.l.size ≠ 0 := by omega
      have hwrap : wrap32 (m.l.size - 1) = rest.length := by
        rw [hsize, Nat.cast_add, Nat.cast_one, add_sub_cancel_right]
        apply wrap32_of_fits
        · omega
        · omega
      cases rest with
      | nil =>
          have hone : m.l.size = 1 := by simpa using hsize
          refine ⟨{ m with
              heap := m.heap.set x none
              l := ⟨(0 : ℕ), none, none, m.l.equals⟩ }, ?_, ?_⟩
          · simp only [llistPop, if_neg hne, hhead, load_some hnode, ok_bind, if_pos hone, hwrap,
              Heap.free_some hnode]
            rfl
          · exact ⟨⟨trivial, List.nodup_nil, rfl, rfl⟩, rfl, rfl, rfl⟩
      | cons y ys =>
          obtain ⟨y, b⟩ := y
          have hy : y ∉ ys.map Prod.fst := (List.nodup_cons.mp hnodup).1
          obtain ⟨heap, hset, hchain, hframe⟩ := hrest.setPrev_first hy none
          have hnode' : heap x = some ⟨a, some y, none⟩ := by
            rw [hframe x fun heq => hx (heq ▸ List.mem_cons_self)]
            exact hnode
          have hmore : m.l.size ≠ 1 := by
            rw [List.length_cons] at hsize
            omega
          refine ⟨{ m with
              heap := heap.set x none
              l := ⟨((y, b) :: ys).length, some y, m.l.tail, m.l.equals⟩ }, ?_, ?_⟩
          · simp only [llistPop, if_neg hne, hhead, load_some hnode, ok_bind, if_neg hmore, hwrap,
              firstOr_cons, hset, Heap.free_some hnode']
            rfl
          · exact ⟨⟨hchain.set hx none, hnodup, rfl, hh.wired.tail⟩, rfl, rfl, rfl⟩

/-- INTERNAL: `llist_requeue` puts the first node behind the last.
SOURCE: linkedlist.c:99-121 -/
theorem llistRequeue_spec {m : LlistMem L ι} {xs : List (L × Option ι)} (hh : Holds m xs) :
    ∃ m', llistRequeue m = .ok m' ∧ Becomes m m' (xs.rotate 1) m.l.size := by
  have hsize := hh.size
  rcases xs with _ | ⟨⟨x, a⟩, _ | ⟨⟨y, b⟩, ys⟩⟩
  · refine ⟨m, ?_, hh.wired, rfl, rfl, rfl⟩
    simp only [llistRequeue, hsize, List.length_nil, Nat.cast_zero, true_or, if_true]
    rfl
  · refine ⟨m, ?_, by simpa using hh.wired, rfl, rfl, rfl⟩
    simp only [llistRequeue, hsize, List.length_singleton, Nat.cast_one, or_true, if_true]
    rfl
  · obtain ⟨hnode, hrest⟩ := hh.wired.chain
    obtain ⟨hx, hnodup⟩ := List.nodup_cons.mp hh.wired.nodup
    have hy : y ∉ ys.map Prod.fst := (List.nodup_cons.mp hnodup).1
    have hhead : m.l.head = some x := hh.wired.head
    have hmore : ¬ (m.l.size = 0 ∨ m.l.size = 1) := by
      rw [List.length_cons, List.length_cons] at hsize
      omega
    obtain ⟨heap, hset, hchain, hframe⟩ := hrest.setPrev_first hy none
    obtain ⟨zs, ⟨z, c⟩, hlast⟩ :=
      (List.eq_nil_or_concat' ((y, b) :: ys)).resolve_left (List.cons_ne_nil _ _)
    have htail : m.l.tail = some z := by
      rw [hh.wired.tail, hlast]
      exact lastOr_snoc zs z c (some x)
    have hrotate : ((x, a) :: (y, b) :: ys).rotate 1 = zs ++ [(z, c)] ++ [(x, a)] := by
      rw [List.rotate_cons_succ, List.rotate_zero, ← hlast]
    rw [hlast] at hx hnodup hchain
    have hz : z ∉ zs.map Prod.fst := (nodup_snoc_iff.mp hnodup).1
    obtain ⟨heap', hset', hchain', hframe'⟩ := hchain.setNext_last hz (some x)
    have hxy : x ≠ y := by
      rintro rfl
      exact hx (hlast ▸ List.mem_cons_self)
    have hxz : x ≠ z := by
      rintro rfl
      exact hx (by simp)
    have hnode' : heap' x = some ⟨a, some y, none⟩ :=
      (hframe' x hxz).trans ((hframe x hxy).trans hnode)
    refine ⟨{ m with
        heap := heap'.set x (some ⟨a, none, some z⟩)
        l := ⟨m.l.size, some y, some x, m.l.equals⟩ }, ?_, ?_⟩
    · simp only [llistRequeue, if_neg hmore, hhead, htail, load_some hnode, ok_bind, firstOr_cons,
        hset, hset', Heap.setPrev_some hnode', Heap.setNext_set_self]
      rfl
    · rw [hrotate]
      refine ⟨⟨hchain'.snoc hx, nodup_snoc_iff.mpr ⟨hx, hnodup⟩, ?_,
        (lastOr_snoc _ x a none).symm⟩, rfl, rfl, rfl⟩
      rw [← hlast]
      rfl

omit [DecidableEq L] in
/-- INTERNAL: a checker that finds no position equal finds no pair equal. -/
theorem forall_mem_of_getElem? {ys : List (L × Option ι)} {equals : Option ι → Option ι → ℤ}
    {item : Option ι}
    (hys : ∀ (k : ℕ) w, ys[k]? = some w → decide (equals w.2 item = 0) = false) :
    ∀ w ∈ ys, equals w.2 item ≠ 0 := by
  intro w hw
  obtain ⟨k, hk⟩ := List.mem_iff_getElem?.mp hw
  exact of_decide_eq_false (hys k w hk)

/-- INTERNAL: `llist_remove` takes out the first node whose item the checker finds equal, and
frees the item.
SOURCE: linkedlist.c:223-239 -/
theorem llistRemove_spec [DecidableEq ι] {m : LlistMem L ι} {xs : List (L × Option ι)}
    (hh : Holds m xs) {fuel : ℕ} (hfuel : xs.length < fuel) (item : Option ι) :
    (∃ ys x a zs m', xs = ys ++ (x, a) :: zs ∧ (∀ w ∈ ys, m.l.equals w.2 item ≠ 0) ∧
        m.l.equals a item = 0 ∧
        llistRemove fuel m item = (freeItem m' a).map (fun m'' => (m'', llistSuccess)) ∧
        Becomes m m' (ys ++ zs) (m.l.size - 1)) ∨
      ((∀ w ∈ xs, m.l.equals w.2 item ≠ 0) ∧
        llistRemove fuel m item = .ok (m, elemNotFound)) := by
  rcases llistWalk_head (fun _ elem => decide (m.l.equals elem item = 0)) _
    (m, elemNotFound) hh hfuel with ⟨ys, x, a, zs, rfl, hnot, hat, hrun⟩ | ⟨hnot, hrun⟩
  · have hnode := hh.wired.chain.node
    rcases llistRemoveAt_spec hh hfuel ys.length with
      ⟨ys', x', a', zs', m', hsplit, hlen, hremove, hbecomes⟩ | ⟨hout, -⟩
    · obtain ⟨rfl, hcons⟩ := List.append_inj hsplit (by omega)
      cases hcons
      refine Or.inl ⟨ys, x, a, zs, m', rfl, forall_mem_of_getElem? hnot,
        of_decide_eq_true hat, hrun.trans ?_, hbecomes⟩
      simp only [load_some hnode, ok_bind, hremove]
      cases freeItem m' a with
      | error fault => rfl
      | ok m'' => rfl
    · rw [List.length_append, List.length_cons] at hout
      omega
  · exact Or.inr ⟨forall_mem_of_getElem? hnot, hrun⟩

/-- INTERNAL: `llist_destroy` takes out one node after the other.
SOURCE: linkedlist.c:274-278 -/
theorem llistDestroyLoop_spec {m : LlistMem L ι} {xs : List (L × Option ι)} (hh : Holds m xs)
    {fuel fuel' : ℕ} (hfuel : xs.length < fuel) (hfuel' : xs.length < fuel') :
    ∃ m', llistDestroyLoop fuel' fuel m = .ok m' ∧ Becomes m m' [] 0 := by
  have hsize := hh.size
  induction xs generalizing m fuel with
  | nil =>
      obtain ⟨fuel, rfl⟩ := Nat.exists_eq_add_one_of_ne_zero (Nat.ne_of_gt hfuel)
      refine ⟨m, ?_, hh.wired, hh.size, rfl, rfl⟩
      simp only [llistDestroyLoop, hsize, List.length_nil, Nat.cast_zero, lt_self_iff_false,
        if_false]
      rfl
  | cons x xs ih =>
      obtain ⟨fuel, rfl⟩ := Nat.exists_eq_add_one_of_ne_zero (Nat.ne_zero_of_lt hfuel)
      have hfits := hh.fits
      rw [List.length_cons] at hsize hfits hfuel
      rcases llistRemoveAt_spec hh hfuel' 0 with
        ⟨ys, x', a, zs, m', hsplit, hlen, hremove, hbecomes⟩ | ⟨hout, -⟩
      · obtain rfl : ys = [] := List.length_eq_zero_iff.mp (by omega)
        obtain ⟨-, rfl⟩ := List.cons.inj hsplit
        rw [List.nil_append] at hbecomes
        have hh' : Holds m' xs := hbecomes.holds (by omega) (by omega)
        have hless : xs.length < fuel' := Nat.lt_of_succ_lt hfuel'
        obtain ⟨m'', hrun, hdone⟩ := ih hh' (by omega : xs.length < fuel) hless hh'.size
        refine ⟨m'', ?_, hdone.wired, hdone.size, hdone.equals.trans hbecomes.equals,
          hdone.allocated.trans hbecomes.allocated⟩
        simp only [llistDestroyLoop, if_pos (by omega : 0 < m.l.size), hremove, ok_bind]
        exact hrun
      · rw [List.length_cons] at hout
        omega

/-! ## Lookups -/

omit [DecidableEq L] in
/-- INTERNAL: `llist_get` at any index.
SOURCE: linkedlist.c:62-79 -/
theorem llistGet_spec {m : LlistMem L ι} {xs : List (L × Option ι)} (hh : Holds m xs)
    {fuel : ℕ} (hfuel : xs.length < fuel) (index : ℤ) :
    llistGet fuel m index =
      .ok (if index < 0 then none else (xs[index.toNat]?.map Prod.snd).join) := by
  rcases llistWalk_head (fun i _ => decide (i = index))
    (fun _ head => (m.heap.load (some head)).map Node.item) none hh hfuel with
    ⟨ys, x, a, zs, rfl, -, hat, hrun⟩ | ⟨hnot, hrun⟩
  · have hindex : index = ys.length := (of_decide_eq_true hat).symm
    have hnode := hh.wired.chain.node
    refine hrun.trans ?_
    rw [load_some hnode, hindex, if_neg (by omega), Int.toNat_natCast,
      List.getElem?_append_right le_rfl, Nat.sub_self]
    rfl
  · refine hrun.trans ?_
    by_cases hneg : index < 0
    · rw [if_pos hneg]
    · rw [if_neg hneg]
      have hout : xs[index.toNat]? = none := by
        cases hget : xs[index.toNat]? with
        | none => rfl
        | some w =>
            have hcast : (index.toNat : ℤ) = index := by omega
            have hfalse := hnot index.toNat w hget
            rw [hcast] at hfalse
            exact absurd rfl (of_decide_eq_false hfalse)
      rw [hout]
      rfl

omit [DecidableEq L] in
/-- INTERNAL: in such a stretch there is no position of an equal item. -/
theorem findIdx?_eq_none_of_getElem? {ys : List (L × Option ι)}
    {equals : Option ι → Option ι → ℤ} {item : Option ι}
    (hys : ∀ (k : ℕ) w, ys[k]? = some w → decide (equals w.2 item = 0) = false) :
    (ys.map Prod.snd).findIdx? (fun a => decide (equals a item = 0)) = none := by
  rw [List.findIdx?_eq_none_iff]
  intro b hb
  obtain ⟨w, hw, rfl⟩ := List.mem_map.mp hb
  exact decide_eq_false (forall_mem_of_getElem? hys w hw)

omit [DecidableEq L] in
/-- INTERNAL: `llist_get_pos` finds the position of the first equal item.
SOURCE: linkedlist.c:81-93 -/
theorem llistGetPos_spec {m : LlistMem L ι} {xs : List (L × Option ι)} (hh : Holds m xs)
    {fuel : ℕ} (hfuel : xs.length < fuel) (item : Option ι) :
    llistGetPos fuel m item =
      .ok (((xs.map Prod.snd).findIdx? fun a => decide (m.l.equals a item = 0)).elim
        elemNotFound fun i => (i : ℤ)) := by
  rcases llistWalk_head (fun _ elem => decide (m.l.equals elem item = 0)) (fun i _ => .ok i)
    elemNotFound hh hfuel with ⟨ys, x, a, zs, rfl, hnot, hat, hrun⟩ | ⟨hnot, hrun⟩
  · refine hrun.trans ?_
    rw [List.map_append, List.findIdx?_append, findIdx?_eq_none_of_getElem? hnot, List.map_cons, List.findIdx?_cons, hat]
    simp
  · refine hrun.trans ?_
    rw [findIdx?_eq_none_of_getElem? hnot]
    rfl

omit [DecidableEq L] in
/-- INTERNAL: `llist_iterate` calls its function with the items that are not `NULL`, in order.
SOURCE: linkedlist.c:261-272 -/
theorem llistIterateLoop_spec {m : LlistMem L ι} {pre post : List (L × Option ι)}
    (hh : Holds m (pre ++ post)) {fuel fuel' : ℕ} (hfuel : post.length < fuel)
    (hfuel' : (pre ++ post).length < fuel') :
    llistIterateLoop fuel' fuel m pre.length = .ok (post.filterMap Prod.snd) := by
  have hsize := hh.size
  have hfits := hh.fits
  induction post generalizing pre fuel with
  | nil =>
      obtain ⟨fuel, rfl⟩ := Nat.exists_eq_add_one_of_ne_zero (Nat.ne_of_gt hfuel)
      rw [List.append_nil] at hsize
      simp only [llistIterateLoop, hsize, lt_self_iff_false, if_false]
      rfl
  | cons y ys ih =>
      obtain ⟨fuel, rfl⟩ := Nat.exists_eq_add_one_of_ne_zero (Nat.ne_zero_of_lt hfuel)
      have happend : pre ++ y :: ys = pre ++ [y] ++ ys := by simp
      have hget : llistGet fuel' m pre.length = .ok y.2 := by
        rw [llistGet_spec hh hfuel', if_neg (by omega), Int.toNat_natCast,
          List.getElem?_append_right le_rfl, Nat.sub_self]
        rfl
      have hlt : (pre.length : ℤ) < m.l.size := by
        rw [hsize, List.length_append, List.length_cons]
        omega
      have hwrap : wrap32 (pre.length + 1) = ((pre ++ [y]).length : ℤ) := by
        rw [List.length_append, List.length_cons] at hfits
        rw [List.length_append, List.length_singleton, Nat.cast_add, Nat.cast_one]
        apply wrap32_of_fits
        · omega
        · omega
      have hrest := ih (happend ▸ hh) (by simpa using hfuel : ys.length < fuel) (happend ▸ hfuel')
        (happend ▸ hsize) (happend ▸ hfits)
      simp only [llistIterateLoop, if_pos hlt, hget, ok_bind, hwrap, hrest, List.filterMap_cons]
      cases y.2 with
      | none => rfl
      | some a => rfl

end Operations

end VtRouter.Interface
