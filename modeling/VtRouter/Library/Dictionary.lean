import VtRouter.Library.ChainedTable

/-!
# Dictionaries

A dictionary is a chain of pairs in which no key occurs twice.  Writing pairs into it one by
one, the last pair under a key wins (`get_setAll`), so a dictionary built from pairs answers
with the last value listed under a key (`get_ofPairs`).
-/

set_option autoImplicit false

namespace Library

variable {κ ν μ : Type} [DecidableEq κ]

structure Dict (κ ν : Type) where
  entries : List (κ × ν)
  distinct : DistinctKeys Prod.fst (fun _ => True) entries

namespace Dict

def empty : Dict κ ν := ⟨[], List.Pairwise.nil⟩

def keys (d : Dict κ ν) : List κ := d.entries.map Prod.fst

/-- The value under a key. -/
def get (d : Dict κ ν) (k : κ) : Option ν := (lookup Prod.fst k d.entries).map Prod.snd

/-- Write a value under a key. -/
def set (d : Dict κ ν) (k : κ) (v : ν) : Dict κ ν :=
  ⟨upsert Prod.fst (k, v) d.entries, d.distinct.upsert (k, v)⟩

/-- Write pairs, one after the other. -/
def setAll (d : Dict κ ν) (pairs : List (κ × ν)) : Dict κ ν :=
  pairs.foldl (fun d p => d.set p.1 p.2) d

/-- The dictionary of a list of pairs. -/
def ofPairs (pairs : List (κ × ν)) : Dict κ ν := empty.setAll pairs

/-- Change every value, whatever its key. -/
def mapValues (f : ν → μ) (d : Dict κ ν) : Dict κ μ where
  entries := d.entries.map fun p => (p.1, f p.2)
  distinct := by
    unfold DistinctKeys
    rw [List.pairwise_map]
    exact d.distinct

/-- The last value listed under a key. -/
def lastUnder (k : κ) (pairs : List (κ × ν)) : Option ν :=
  ((pairs.filter fun p => decide (p.1 = k)).map Prod.snd).getLast?

@[simp] theorem get_empty (k : κ) : (empty : Dict κ ν).get k = none := rfl

theorem get_set_self (d : Dict κ ν) (k : κ) (v : ν) : (d.set k v).get k = some v := by
  have h := lookup_upsert_self Prod.fst (k, v) d.entries
  simp only [get, set, h, Option.map_some]

theorem get_set_of_ne (d : Dict κ ν) {k k' : κ} (v : ν) (hk : k' ≠ k) :
    (d.set k v).get k' = d.get k' := by
  have h := lookup_upsert_of_ne Prod.fst (x := (k, v)) hk d.entries
  simp only [get, set, h]

theorem get_mapValues (f : ν → μ) (d : Dict κ ν) (k : κ) :
    (d.mapValues f).get k = (d.get k).map f := by
  unfold get mapValues lookup
  rw [List.find?_map, Option.map_map, Option.map_map]
  rfl

@[simp] theorem setAll_nil (d : Dict κ ν) : d.setAll [] = d := rfl

@[simp] theorem setAll_cons (d : Dict κ ν) (p : κ × ν) (pairs : List (κ × ν)) :
    d.setAll (p :: pairs) = (d.set p.1 p.2).setAll pairs := rfl

theorem setAll_append (d : Dict κ ν) (pairs pairs' : List (κ × ν)) :
    d.setAll (pairs ++ pairs') = (d.setAll pairs).setAll pairs' := List.foldl_append

/-- INTERNAL: a pair in front counts only when nothing behind it has its key. -/
theorem lastUnder_cons (k : κ) (p : κ × ν) (pairs : List (κ × ν)) :
    lastUnder k (p :: pairs) = (lastUnder k pairs).or (if p.1 = k then some p.2 else none) := by
  unfold lastUnder
  by_cases hp : p.1 = k
  · rw [List.filter_cons_of_pos (by simpa using hp), List.map_cons, List.getLast?_cons, if_pos hp]
    cases ((pairs.filter fun p => decide (p.1 = k)).map Prod.snd).getLast? <;> rfl
  · rw [List.filter_cons_of_neg (by simpa using hp), if_neg hp, Option.or_none]

/-- **The last pair under a key wins**, and where there is none the old value stays. -/
theorem get_setAll (d : Dict κ ν) (pairs : List (κ × ν)) (k : κ) :
    (d.setAll pairs).get k = (lastUnder k pairs).or (d.get k) := by
  induction pairs generalizing d with
  | nil => rfl
  | cons p pairs ih =>
      rw [setAll_cons, ih, lastUnder_cons, Option.or_assoc]
      congr 1
      by_cases hp : p.1 = k
      · rw [if_pos hp, ← hp, get_set_self]
        rfl
      · rw [if_neg hp, get_set_of_ne d p.2 (Ne.symm hp)]
        rfl

theorem get_ofPairs (pairs : List (κ × ν)) (k : κ) :
    (ofPairs pairs).get k = lastUnder k pairs := by
  rw [ofPairs, get_setAll, get_empty, Option.or_none]

/-- INTERNAL: no pair under the key. -/
theorem lastUnder_eq_none {k : κ} {pairs : List (κ × ν)} (h : ∀ p ∈ pairs, p.1 ≠ k) :
    lastUnder k pairs = none := by
  unfold lastUnder
  rw [List.filter_eq_nil_iff.mpr fun p hp => by simpa using h p hp]
  rfl

/-- INTERNAL: all pairs under the key agree, and there is one. -/
theorem lastUnder_eq_some {k : κ} {v : ν} {pairs : List (κ × ν)} (hmem : (k, v) ∈ pairs)
    (hall : ∀ p ∈ pairs, p.1 = k → p.2 = v) : lastUnder k pairs = some v := by
  induction pairs with
  | nil => cases hmem
  | cons p pairs ih =>
      have hall' : ∀ q ∈ pairs, q.1 = k → q.2 = v := fun q hq => hall q (List.mem_cons_of_mem p hq)
      rw [lastUnder_cons]
      by_cases hex : ∃ q ∈ pairs, q.1 = k
      · obtain ⟨q, hq, rfl⟩ := hex
        have hv := hall' q hq rfl
        rw [ih (hv ▸ hq) hall']
        rfl
      · have hnone : lastUnder k pairs = none :=
          lastUnder_eq_none fun q hq hk => hex ⟨q, hq, hk⟩
        rcases List.mem_cons.mp hmem with rfl | hmem
        · rw [hnone, if_pos rfl]
          rfl
        · exact absurd ⟨_, hmem, rfl⟩ hex

/-- INTERNAL: the last value under a key, where the pairs come from the elements that have a
value. -/
theorem lastUnder_filterMap {α : Type} (key : α → κ) (value : α → Option ν) (k : κ) (l : List α) :
    lastUnder k (l.filterMap fun x => (value x).map fun v => (key x, v)) =
      ((l.filter fun x => decide (key x = k)).filterMap value).getLast? := by
  unfold lastUnder
  congr 1
  induction l with
  | nil => rfl
  | cons x l ih =>
      by_cases hk : key x = k
      · cases hv : value x with
        | none => simp [hk, hv, ih]
        | some v => simp [hk, hv, ih]
      · cases hv : value x with
        | none => simp [hk, hv, ih]
        | some v => simp [hk, hv, ih]

theorem mem_keys_of_get {d : Dict κ ν} {k : κ} {v : ν} (h : d.get k = some v) : k ∈ d.keys := by
  obtain ⟨p, hp, -⟩ := Option.map_eq_some_iff.mp h
  obtain ⟨pre, post, hentries, -, hk⟩ := lookup_split Prod.fst hp
  rw [keys, hentries, ← hk]
  simp

end Dict

end Library
