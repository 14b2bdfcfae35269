import Mathlib.Data.List.Basic
import Mathlib.Data.List.Nodup
import Mathlib.Data.List.Pairwise

/-!
# Tables of chains

A hash table with separate chaining is a list of chains, and an entry lives in the chain
that a slot function assigns to its key.  A chain is searched from its front, an insertion
overwrites the first entry under the key or appends, and a rewriting changes the first
entry under a key in place.

The file has two parts.  The first is about one chain: what each operation does to the
lookup of every key, and when the keys of a chain stay distinct.  Distinctness is relative
to a predicate on the keys, since a program may use one key as a mark.  The second part
carries this to the table: a chain other than the one written is not touched, and keys
that are distinct in every chain and in their own slots are distinct in the table.
-/

set_option autoImplicit false

namespace Library

universe u v

variable {κ : Type u} {ε : Type v} [DecidableEq κ] (key : ε → κ)

/-- The first entry of a chain under a key. -/
def lookup (k : κ) (chain : List ε) : Option ε := chain.find? fun e => decide (key e = k)

/-- Overwrite the first entry under the key of `x`, or append `x`. -/
def upsert (x : ε) : List ε → List ε
  | [] => [x]
  | e :: chain => if key e = key x then x :: chain else e :: upsert x chain

/-- Change the first entry under a key in place. -/
def rewriteFirst (k : κ) (f : ε → ε) : List ε → List ε
  | [] => []
  | e :: chain => if key e = k then f e :: chain else e :: rewriteFirst k f chain

/-- No key that satisfies `P` occurs twice in the chain. -/
def DistinctKeys (P : κ → Prop) (chain : List ε) : Prop :=
  chain.Pairwise fun a b => P (key b) → key a ≠ key b

@[simp] theorem lookup_nil (k : κ) : lookup key k [] = none := rfl

theorem lookup_cons (k : κ) (e : ε) (chain : List ε) :
    lookup key k (e :: chain) = if key e = k then some e else lookup key k chain := by
  unfold lookup
  by_cases h : key e = k <;> simp [h]

/-- INTERNAL: a lookup goes through the front of a chain first. -/
theorem lookup_append (k : κ) (pre post : List ε) :
    lookup key k (pre ++ post) = (lookup key k pre).or (lookup key k post) := by
  simp [lookup, List.find?_append]

theorem lookup_eq_none {k : κ} {chain : List ε} :
    lookup key k chain = none ↔ ∀ e ∈ chain, key e ≠ k := by
  simp [lookup]

/-- INTERNAL: where a lookup finds its entry, no entry under the key stands before it. -/
theorem lookup_split {k : κ} {chain : List ε} {e : ε} (h : lookup key k chain = some e) :
    ∃ pre post, chain = pre ++ e :: post ∧ (∀ x ∈ pre, key x ≠ k) ∧ key e = k := by
  obtain ⟨he, pre, post, hchain, hpre⟩ := List.find?_eq_some_iff_append.mp h
  exact ⟨pre, post, hchain, fun x hx => by simpa using hpre x hx, by simpa using he⟩

/-- INTERNAL: an overwritten or appended entry is found. -/
theorem lookup_upsert_self (x : ε) (chain : List ε) :
    lookup key (key x) (upsert key x chain) = some x := by
  induction chain with
  | nil => simp [upsert, lookup_cons]
  | cons e chain ih =>
      unfold upsert
      split
      · simp [lookup_cons]
      · rename_i hne
        rw [lookup_cons, if_neg hne, ih]

/-- INTERNAL: the lookups of the other keys do not change. -/
theorem lookup_upsert_of_ne {x : ε} {k : κ} (hk : k ≠ key x) (chain : List ε) :
    lookup key k (upsert key x chain) = lookup key k chain := by
  induction chain with
  | nil => simp [upsert, lookup_cons, Ne.symm hk]
  | cons e chain ih =>
      unfold upsert
      split
      · rename_i he
        rw [lookup_cons, lookup_cons, if_neg (Ne.symm hk), if_neg (he ▸ Ne.symm hk)]
      · rw [lookup_cons, lookup_cons, ih]

theorem mem_upsert {x z : ε} {chain : List ε} (h : z ∈ upsert key x chain) :
    z = x ∨ z ∈ chain := by
  induction chain with
  | nil => simpa [upsert] using h
  | cons e chain ih =>
      unfold upsert at h
      split at h
      · rcases List.mem_cons.mp h with rfl | hz
        · exact Or.inl rfl
        · exact Or.inr (List.mem_cons_of_mem e hz)
      · rcases List.mem_cons.mp h with rfl | hz
        · exact Or.inr List.mem_cons_self
        · exact (ih hz).imp id (List.mem_cons_of_mem e)

variable {key}

/-- INTERNAL: distinctness looks at the keys behind an entry only, and an upsert leaves
those in place or adds one that no entry has. -/
theorem DistinctKeys.upsert {P : κ → Prop} {chain : List ε} (h : DistinctKeys key P chain)
    (x : ε) : DistinctKeys key P (upsert key x chain) := by
  induction chain with
  | nil => exact List.pairwise_singleton _ _
  | cons e chain ih =>
      obtain ⟨he, hchain⟩ := List.pairwise_cons.mp h
      unfold Library.upsert
      split
      · rename_i heq
        apply List.pairwise_cons.mpr
        refine ⟨fun z hz hP => ?_, hchain⟩
        rw [← heq]
        exact he z hz hP
      · rename_i hne
        apply List.pairwise_cons.mpr
        refine ⟨fun z hz hP => ?_, ih hchain⟩
        rcases mem_upsert key hz with rfl | hmem
        · exact hne
        · exact he z hmem hP

/-- INTERNAL: behind an entry of a chain its key does not occur again. -/
theorem DistinctKeys.lookup_behind {P : κ → Prop} {pre post : List ε} {e : ε}
    (h : DistinctKeys key P (pre ++ e :: post)) (hP : P (key e)) :
    lookup key (key e) post = none := by
  have hpost := (List.pairwise_cons.mp (List.pairwise_append.mp h).2.1).1
  rw [lookup_eq_none]
  intro z hz heq
  exact hpost z hz (heq ▸ hP) heq.symm

theorem rewriteFirst_of_lookup {k : κ} (f : ε → ε) {chain : List ε}
    (h : lookup key k chain = none) : rewriteFirst key k f chain = chain := by
  induction chain with
  | nil => rfl
  | cons e chain ih =>
      have hne : key e ≠ k := (lookup_eq_none key).mp h e List.mem_cons_self
      rw [lookup_cons, if_neg hne] at h
      simp only [rewriteFirst, if_neg hne, ih h]

theorem rewriteFirst_split {k : κ} (f : ε → ε) {pre post : List ε} {e : ε}
    (hpre : ∀ x ∈ pre, key x ≠ k) (he : key e = k) :
    rewriteFirst key k f (pre ++ e :: post) = pre ++ f e :: post := by
  induction pre with
  | nil => simp [rewriteFirst, he]
  | cons x pre ih =>
      have hne : key x ≠ k := hpre x List.mem_cons_self
      have hrest := ih fun y hy => hpre y (List.mem_cons_of_mem x hy)
      simp only [List.cons_append, rewriteFirst, if_neg hne, hrest]

/-- INTERNAL: a rewriting that gives its entry a marked key keeps the others distinct. -/
theorem DistinctKeys.rewriteFirst {P : κ → Prop} {chain : List ε} {k : κ} {f : ε → ε}
    (h : DistinctKeys key P chain) (hf : ∀ e, ¬ P (key (f e))) :
    DistinctKeys key P (rewriteFirst key k f chain) := by
  induction chain with
  | nil => exact List.Pairwise.nil
  | cons e chain ih =>
      obtain ⟨he, hchain⟩ := List.pairwise_cons.mp h
      unfold Library.rewriteFirst
      split
      · apply List.pairwise_cons.mpr
        exact ⟨fun z _ hP heq => hf e (heq ▸ hP), hchain⟩
      · apply List.pairwise_cons.mpr
        refine ⟨fun z hz hP => ?_, ih hchain⟩
        cases hl : lookup key k chain with
        | none =>
            rw [rewriteFirst_of_lookup f hl] at hz
            exact he z hz hP
        | some y =>
            obtain ⟨pre, post, rfl, hpre, hy⟩ := lookup_split key hl
            rw [rewriteFirst_split f hpre hy] at hz
            rcases List.mem_append.mp hz with hz | hz
            · exact he z (List.mem_append_left _ hz) hP
            · rcases List.mem_cons.mp hz with rfl | hz
              · exact absurd hP (hf y)
              · exact he z (List.mem_append_right _ (List.mem_cons_of_mem y hz)) hP

/-! ## Tables -/

/-- Every entry lives in the chain at the slot of its key. -/
def Placed (slot : ε → ℕ) (table : List (List ε)) : Prop :=
  ∀ (i : ℕ) chain, table[i]? = some chain → ∀ e ∈ chain, slot e = i

/-- INTERNAL: writing one chain of a table keeps what holds of every chain, if it holds of
the new one. -/
theorem forall_getElem?_set {table : List (List ε)} {i : ℕ} {chain : List ε}
    {Q : ℕ → List ε → Prop} (h : ∀ j c, table[j]? = some c → Q j c) (hi : Q i chain) :
    ∀ j c, (table.set i chain)[j]? = some c → Q j c := by
  intro j c hj
  rw [List.getElem?_set] at hj
  split at hj
  · rename_i hij
    split at hj
    · rw [Option.some.injEq] at hj
      rw [← hj, ← hij]
      exact hi
    · exact absurd hj (by simp)
  · exact h j c hj

omit [DecidableEq κ] in
/-- **Keys that are distinct in every chain are distinct in the table**, if each entry is in
the slot of its key. -/
theorem nodup_keys_flatten {slot : κ → ℕ} {table : List (List ε)}
    (hplaced : Placed (fun e => slot (key e)) table)
    (hdistinct : ∀ (i : ℕ) chain, table[i]? = some chain → DistinctKeys key (fun _ => True) chain) :
    (table.flatten.map key).Nodup := by
  rw [List.Nodup, List.pairwise_map, List.pairwise_flatten]
  refine ⟨fun chain hchain => ?_, ?_⟩
  · obtain ⟨i, hi⟩ := List.mem_iff_getElem?.mp hchain
    exact (hdistinct i chain hi).imp fun hab => hab trivial
  · apply List.pairwise_iff_getElem.mpr
    intro i j hi hj hij a ha b hb hkey
    have hia : slot (key a) = i := hplaced i _ (List.getElem?_eq_getElem hi) a ha
    have hjb : slot (key b) = j := hplaced j _ (List.getElem?_eq_getElem hj) b hb
    rw [hkey] at hia
    omega

end Library
