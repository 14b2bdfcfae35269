import Mathlib.Data.List.Induction
import Mathlib.Data.List.Nodup
import VtRouter.Library.CText

/-!
# Doubly linked nodes on a heap

A heap gives some locations a node: an item and two nullable links.  Reading or writing
through `NULL` or through a location without a node faults, and so does freeing one.

`Chain h p xs q` says that the pairs `xs` of a location and its item are linked up in `h` in
both directions, with `p` in front of them and `q` behind.  A chain is cut and joined with
`chain_append`; what is written outside it does not matter (`Chain.congr`); and the two
links at its ends can be redirected (`Chain.setNext_last`, `Chain.setPrev_first`).  With
these four every rewiring of a list is put together from the pieces it leaves alone.

`Path` reads a chain off in one direction, which is all that a traversal sees of it.
-/

set_option autoImplicit false

namespace Library

universe u v

/-- A node: what it holds, and the links to its neighbours, `none` for `NULL`. -/
structure Node (L : Type u) (ι : Type v) where
  item : ι
  next : Option L
  prev : Option L

/-- The allocated nodes. -/
abbrev Heap (L : Type u) (ι : Type v) := L → Option (Node L ι)

variable {L : Type u} {ι : Type v}

namespace Heap

/-- Read the node behind a pointer. -/
def load (h : Heap L ι) : Option L → Except Fault (Node L ι)
  | none => .error .outOfBounds
  | some x => match h x with
      | none => .error .outOfBounds
      | some n => .ok n

variable [DecidableEq L]

/-- The heap with the contents of one location replaced. -/
def set (h : Heap L ι) (x : L) (c : Option (Node L ι)) : Heap L ι :=
  fun y => if y = x then c else h y

/-- Write a node behind a pointer, as a function of the one that is there. -/
def modify (h : Heap L ι) (p : Option L) (f : Node L ι → Node L ι) : Except Fault (Heap L ι) :=
  match p with
  | none => .error .outOfBounds
  | some x => match h x with
      | none => .error .outOfBounds
      | some n => .ok (h.set x (some (f n)))

/-- `p->next = q`. -/
def setNext (h : Heap L ι) (p q : Option L) : Except Fault (Heap L ι) :=
  h.modify p fun n => { n with next := q }

/-- `p->prev = q`. -/
def setPrev (h : Heap L ι) (p q : Option L) : Except Fault (Heap L ι) :=
  h.modify p fun n => { n with prev := q }

/-- `free(p)`; to free `NULL` does nothing. -/
def free (h : Heap L ι) : Option L → Except Fault (Heap L ι)
  | none => .ok h
  | some x => match h x with
      | none => .error .outOfBounds
      | some _ => .ok (h.set x none)

@[simp] theorem set_self (h : Heap L ι) (x : L) (c : Option (Node L ι)) : h.set x c x = c :=
  if_pos rfl

@[simp] theorem set_set (h : Heap L ι) (x : L) (c c' : Option (Node L ι)) :
    (h.set x c).set x c' = h.set x c' := by
  funext y
  unfold set
  split
  · rfl
  · rfl

theorem set_of_ne (h : Heap L ι) {x y : L} (hne : y ≠ x) (c : Option (Node L ι)) :
    h.set x c y = h y :=
  if_neg hne

theorem setNext_some {h : Heap L ι} {x : L} {n : Node L ι} (hx : h x = some n) (q : Option L) :
    h.setNext (some x) q = .ok (h.set x (some { n with next := q })) := by
  simp only [setNext, modify, hx]

theorem setPrev_some {h : Heap L ι} {x : L} {n : Node L ι} (hx : h x = some n) (q : Option L) :
    h.setPrev (some x) q = .ok (h.set x (some { n with prev := q })) := by
  simp only [setPrev, modify, hx]

@[simp] theorem setNext_set_self (h : Heap L ι) (x : L) (n : Node L ι) (q : Option L) :
    (h.set x (some n)).setNext (some x) q = .ok (h.set x (some { n with next := q })) := by
  rw [setNext_some (set_self h x _), set_set]

@[simp] theorem setPrev_set_self (h : Heap L ι) (x : L) (n : Node L ι) (q : Option L) :
    (h.set x (some n)).setPrev (some x) q = .ok (h.set x (some { n with prev := q })) := by
  rw [setPrev_some (set_self h x _), set_set]

theorem free_some {h : Heap L ι} {x : L} {n : Node L ι} (hx : h x = some n) :
    h.free (some x) = .ok (h.set x none) := by
  simp only [free, hx]

end Heap

theorem load_some {h : Heap L ι} {x : L} {n : Node L ι} (hx : h x = some n) :
    h.load (some x) = .ok n := by
  simp only [Heap.load, hx]

/-! ## Chains -/

/-- The first location of some pairs, or what comes behind them. -/
def firstOr : List (L × ι) → Option L → Option L
  | [], q => q
  | (x, _) :: _, _ => some x

/-- The last location of some pairs, or what comes in front of them. -/
def lastOr : List (L × ι) → Option L → Option L
  | [], p => p
  | (x, _) :: xs, _ => lastOr xs (some x)

/-- The pairs are linked up in both directions, between `p` and `q`. -/
def Chain (h : Heap L ι) : Option L → List (L × ι) → Option L → Prop
  | _, [], _ => True
  | p, (x, a) :: xs, q => h x = some ⟨a, firstOr xs q, p⟩ ∧ Chain h (some x) xs q

@[simp] theorem firstOr_nil (q : Option L) : firstOr ([] : List (L × ι)) q = q := rfl

@[simp] theorem lastOr_nil (p : Option L) : lastOr ([] : List (L × ι)) p = p := rfl

@[simp] theorem firstOr_cons (x : L) (a : ι) (xs : List (L × ι)) (q : Option L) :
    firstOr ((x, a) :: xs) q = some x := rfl

theorem firstOr_append (xs ys : List (L × ι)) (q : Option L) :
    firstOr (xs ++ ys) q = firstOr xs (firstOr ys q) := by
  cases xs with
  | nil => rfl
  | cons x xs => rfl

theorem lastOr_append (xs ys : List (L × ι)) (p : Option L) :
    lastOr (xs ++ ys) p = lastOr ys (lastOr xs p) := by
  induction xs generalizing p with
  | nil => rfl
  | cons x xs ih => exact ih (some x.1)

@[simp] theorem lastOr_snoc (xs : List (L × ι)) (x : L) (a : ι) (p : Option L) :
    lastOr (xs ++ [(x, a)]) p = some x := by
  rw [lastOr_append]
  rfl

/-- INTERNAL: what follows a nonempty stretch does not change where it starts. -/
theorem firstOr_snoc_append (xs ys : List (L × ι)) (x : L × ι) (q q' : Option L) :
    firstOr (xs ++ [x] ++ ys) q = firstOr (xs ++ [x]) q' := by
  cases xs with
  | nil => rfl
  | cons y xs => rfl

/-- INTERNAL: a chain is two chains, each between the other's end and its own. -/
theorem chain_append {h : Heap L ι} {p q : Option L} {xs ys : List (L × ι)} :
    Chain h p (xs ++ ys) q ↔
      Chain h p xs (firstOr ys q) ∧ Chain h (lastOr xs p) ys q := by
  induction xs generalizing p with
  | nil => simp [Chain]
  | cons x xs ih =>
      simp only [List.cons_append, Chain, lastOr, ih, firstOr_append, and_assoc]

/-- INTERNAL: a chain does not depend on the heap outside its locations. -/
theorem Chain.congr {h h' : Heap L ι} {p q : Option L} {xs : List (L × ι)}
    (hc : Chain h p xs q) (heq : ∀ x ∈ xs.map Prod.fst, h' x = h x) : Chain h' p xs q := by
  induction xs generalizing p with
  | nil => trivial
  | cons x xs ih =>
      refine ⟨?_, ih hc.2 fun y hy => heq y (List.mem_cons_of_mem _ hy)⟩
      rw [heq x.1 List.mem_cons_self]
      exact hc.1

/-- INTERNAL: every location of a chain is allocated. -/
theorem Chain.allocated {h : Heap L ι} {p q : Option L} {xs : List (L × ι)}
    (hc : Chain h p xs q) {x : L} (hx : x ∈ xs.map Prod.fst) : h x ≠ none := by
  induction xs generalizing p with
  | nil => exact absurd hx List.not_mem_nil
  | cons y xs ih =>
      rcases List.mem_cons.mp hx with rfl | hx
      · rw [hc.1]
        exact Option.some_ne_none _
      · exact ih hc.2 hx

/-- INTERNAL: the node in the middle of a chain. -/
theorem Chain.node {h : Heap L ι} {p q : Option L} {pre post : List (L × ι)} {x : L} {a : ι}
    (hc : Chain h p (pre ++ (x, a) :: post) q) :
    h x = some ⟨a, firstOr post q, lastOr pre p⟩ :=
  (chain_append.mp hc).2.1

theorem lastOr_mem {xs : List (L × ι)} {p : Option L} {x : L} (hx : lastOr xs p = some x)
    (hp : p ≠ some x) : x ∈ xs.map Prod.fst := by
  induction xs generalizing p with
  | nil => exact absurd hx hp
  | cons y xs ih =>
      by_cases hy : y.1 = x
      · rw [← hy]
        exact List.mem_cons_self
      · exact List.mem_cons_of_mem _ (ih hx fun heq => hy (Option.some.inj heq))

theorem ne_of_mem {xs : List (L × ι)} {x y : L} (hy : y ∈ xs.map Prod.fst)
    (hx : x ∉ xs.map Prod.fst) : y ≠ x := by
  rintro rfl
  exact hx hy

section Writes

variable [DecidableEq L]

/-- INTERNAL: a chain does not depend on a location that it does not visit. -/
theorem Chain.set {h : Heap L ι} {p q : Option L} {xs : List (L × ι)} {x : L}
    (hc : Chain h p xs q) (hx : x ∉ xs.map Prod.fst) (c : Option (Node L ι)) :
    Chain (h.set x c) p xs q :=
  hc.congr fun _ hy => Heap.set_of_ne h (ne_of_mem hy hx) c

/-- INTERNAL: a node behind a chain that already points to it. -/
theorem Chain.snoc {h : Heap L ι} {p q : Option L} {xs : List (L × ι)} {z x : L} {c a : ι}
    (hc : Chain h p (xs ++ [(z, c)]) (some x)) (hx : x ∉ (xs ++ [(z, c)]).map Prod.fst) :
    Chain (h.set x (some ⟨a, q, some z⟩)) p (xs ++ [(z, c)] ++ [(x, a)]) q := by
  apply chain_append.mpr
  refine ⟨hc.set hx _, ?_⟩
  rw [lastOr_snoc]
  exact ⟨Heap.set_self _ _ _, trivial⟩

/-- INTERNAL: the link behind a chain can be redirected, and nothing but its last node is
written. -/
theorem Chain.setNext_last {h : Heap L ι} {p q : Option L} {xs : List (L × ι)} {x : L} {a : ι}
    (hc : Chain h p (xs ++ [(x, a)]) q) (hx : x ∉ xs.map Prod.fst) (q' : Option L) :
    ∃ h', h.setNext (some x) q' = .ok h' ∧ Chain h' p (xs ++ [(x, a)]) q' ∧
      ∀ y, y ≠ x → h' y = h y := by
  obtain ⟨hxs, hlast⟩ := chain_append.mp hc
  have hnode : h x = some ⟨a, q, lastOr xs p⟩ := hlast.1
  refine ⟨h.set x (some ⟨a, q', lastOr xs p⟩), ?_, ?_, fun y hy => Heap.set_of_ne h hy _⟩
  · exact Heap.setNext_some hnode q'
  · apply chain_append.mpr
    exact ⟨hxs.set hx _, Heap.set_self h x _, trivial⟩

/-- INTERNAL: the same for the link in front of a chain. -/
theorem Chain.setPrev_first {h : Heap L ι} {p q : Option L} {xs : List (L × ι)} {x : L} {a : ι}
    (hc : Chain h p ((x, a) :: xs) q) (hx : x ∉ xs.map Prod.fst) (p' : Option L) :
    ∃ h', h.setPrev (some x) p' = .ok h' ∧ Chain h' p' ((x, a) :: xs) q ∧
      ∀ y, y ≠ x → h' y = h y := by
  obtain ⟨hnode, hxs⟩ := hc
  refine ⟨h.set x (some ⟨a, firstOr xs q, p'⟩), ?_, ?_, fun y hy => Heap.set_of_ne h hy _⟩
  · exact Heap.setPrev_some hnode p'
  · exact ⟨Heap.set_self h x _, hxs.set hx _⟩

end Writes

/-! ## Paths -/

/-- The locations that a traversal along one of the links visits until it is at `NULL`. -/
def Path (link : Node L ι → Option L) (h : Heap L ι) : Option L → List L → Prop
  | p, [] => p = none
  | p, x :: xs => p = some x ∧ ∃ n, h x = some n ∧ Path link h (link n) xs

/-- INTERNAL: forwards, a chain that ends in `NULL` is a path over its locations. -/
theorem Chain.path_next {h : Heap L ι} {p : Option L} {xs : List (L × ι)}
    (hc : Chain h p xs none) : Path Node.next h (firstOr xs none) (xs.map Prod.fst) := by
  induction xs generalizing p with
  | nil => rfl
  | cons x xs ih => exact ⟨rfl, _, hc.1, ih hc.2⟩

/-- INTERNAL: backwards, a chain that begins behind `NULL` is a path over them in reverse. -/
theorem Chain.path_prev {h : Heap L ι} {q : Option L} {xs : List (L × ι)}
    (hc : Chain h none xs q) : Path Node.prev h (lastOr xs none) (xs.map Prod.fst).reverse := by
  induction xs using List.reverseRecOn generalizing q with
  | nil => rfl
  | append_singleton xs x ih =>
      obtain ⟨hxs, hlast⟩ := chain_append.mp hc
      rw [List.map_append, List.reverse_append, lastOr_append]
      exact ⟨rfl, _, hlast.1, ih hxs⟩

end Library
