import Mathlib.Data.List.Induction
import VtRouter.Interface.Hashmap

/-!
# What the hash map remembers

A map that is filled by puts alone keeps every element in the chain of its key and no key
twice, and a get answers with the last put under its key.  A removal gives the element the
key 0 instead of unlinking it, so the element can be found again under that key; the exact
condition under which nobody notices is `LeavesNoTrace`.

The costs of `update_stub` are filed under the absolute value of a string hash.  Its last
two rounds clear the sign bit and multiply by an odd number, which excludes `INT_MIN`, the
one hash whose absolute value would be an index in front of the array.
-/

set_option autoImplicit false

namespace VtRouter.Analysis

open Library Model Interface

variable {α : Type}

/-! ## Puts -/

/-- The value of the last put under a key. -/
def lastPut (puts : List (ℤ × α)) (key : ℤ) : Option α :=
  ((puts.filter fun p => decide (p.1 = key)).getLast?).map Prod.snd

/-- A new map, filled by puts one after the other. -/
def putAll (size : ℤ) (puts : List (ℤ × α)) : Except Fault (Hashmap α) :=
  puts.foldlM (fun h p => hmapPutAbs h p.1 p.2) (hmapInit size)

theorem lastPut_snoc_self (puts : List (ℤ × α)) (key : ℤ) (value : α) :
    lastPut (puts ++ [(key, value)]) key = some value := by
  simp [lastPut, List.filter_append]

theorem lastPut_snoc_of_ne (puts : List (ℤ × α)) {key j : ℤ} (value : α) (hj : j ≠ key) :
    lastPut (puts ++ [(key, value)]) j = lastPut puts j := by
  simp [lastPut, List.filter_append, Ne.symm hj]

/-- INTERNAL: a put is seen under its own key and under no other.
SOURCE: hashmap.c:133-200 -/
theorem hmapGetAbs_put {h h' : Hashmap α} (hs : Sized h) {key : ℤ} (hk : 0 ≤ key) {value : α}
    (hput : hmapPutAbs h key value = .ok h') :
    hmapGetAbs h' key = .ok (some value) ∧
      ∀ j, 0 ≤ j → j ≠ key → hmapGetAbs h' j = hmapGetAbs h j := by
  rw [hmapPutAbs_eq hs hk value, Except.ok.injEq] at hput
  have hs' : Sized h' := by
    rw [← hput]
    exact hs.withChain _
  constructor
  · have hself := lookup_upsert_self HashmapElem.keyVal ⟨key, value⟩ (chainOf h key)
    rw [hmapGetAbs_eq hs' hk, ← hput, chainOf_withChain_self hs rfl, hself]
    rfl
  · intro j hj hne
    rw [hmapGetAbs_eq hs' hj, hmapGetAbs_eq hs hj, ← hput]
    by_cases hslot : slotOf h.size j = slotOf h.size key
    · have hchain : chainOf h j = chainOf h key := by rw [chainOf, chainOf, hslot]
      rw [chainOf_withChain_self hs hslot, hchain, lookup_upsert_of_ne HashmapElem.keyVal hne]
    · rw [chainOf_withChain_of_ne hslot]

/-- Every element is in the chain of its key, and no chain has a key twice. -/
structure Orderly (h : Hashmap α) : Prop where
  sized : Sized h
  placed : Placed (fun e => slotOf h.size e.keyVal) h.head
  distinct : ∀ (i : ℕ) list, h.head[i]? = some list →
    DistinctKeys HashmapElem.keyVal (fun _ => True) list

theorem orderly_hmapInit {size : ℤ} (hsize : 0 < size) :
    Orderly (hmapInit size : Hashmap α) := by
  refine ⟨sized_hmapInit hsize, ?_, ?_⟩
  · intro i list hi e he
    rw [chain_hmapInit hsize hi] at he
    exact absurd he List.not_mem_nil
  · intro i list hi
    rw [chain_hmapInit hsize hi]
    exact List.Pairwise.nil

/-- INTERNAL: a put keeps the map orderly.
SOURCE: hashmap.c:133-166 -/
theorem Orderly.put {h h' : Hashmap α} (ho : Orderly h) {key : ℤ} (hk : 0 ≤ key) {value : α}
    (hput : hmapPutAbs h key value = .ok h') : Orderly h' := by
  rw [hmapPutAbs_eq ho.sized hk value, Except.ok.injEq] at hput
  have hchain := getElem?_slotOf ho.sized key
  rw [← hput]
  refine ⟨ho.sized.withChain _, ?_, ?_⟩
  · apply forall_getElem?_set ho.placed
    intro e he
    rcases mem_upsert _ he with rfl | he
    · rfl
    · exact ho.placed _ _ hchain e he
  · apply forall_getElem?_set ho.distinct
    exact (ho.distinct _ _ hchain).upsert _

/-- INTERNAL: **the history of a map filled by puts**: it is orderly, and every get answers
with the last put.
SOURCE: hashmap.c:95-200 -/
theorem putAll_spec {size : ℤ} (hsize : 0 < size) (puts : List (ℤ × α))
    (hkeys : ∀ p ∈ puts, 0 ≤ p.1) :
    ∃ h, putAll size puts = .ok h ∧ h.size = size ∧ Orderly h ∧
      ∀ k, 0 ≤ k → hmapGetAbs h k = .ok (lastPut puts k) := by
  induction puts using List.reverseRecOn with
  | nil =>
      have ho := orderly_hmapInit (α := α) hsize
      refine ⟨hmapInit size, rfl, by rw [hmapInit_of_pos hsize], ho, fun k hk => ?_⟩
      have hchain := getElem?_slotOf ho.sized k
      rw [hmapGetAbs_eq ho.sized hk, chain_hmapInit hsize hchain]
      rfl
  | append_singleton puts p ih =>
      obtain ⟨h, hall, hsz, ho, hget⟩ :=
        ih fun q hq => hkeys q (List.mem_append_left _ hq)
      have hp : 0 ≤ p.1 := hkeys p (List.mem_append_right _ (List.mem_singleton_self p))
      have hput := hmapPutAbs_eq ho.sized hp p.2
      obtain ⟨hself, hother⟩ := hmapGetAbs_put ho.sized hp hput
      refine ⟨withChain h p.1 _, ?_, hsz, ho.put hp hput, fun k hk => ?_⟩
      · unfold putAll at hall ⊢
        rw [List.foldlM_append, hall, ok_bind, List.foldlM_cons, hput, ok_bind]
        rfl
      · by_cases hkp : k = p.1
        · rw [hkp, hself, lastPut_snoc_self]
        · rw [hother k hk hkp, hget k hk, lastPut_snoc_of_ne puts p.2 hkp]

/-- **A map answers with the last put.**  After any puts with non-negative keys into a map of
any positive size, a get returns the value of the last put under its key, `NULL` if there
was none; every bucket holds only keys with its remainder, no key is stored twice, and one
more put changes the answer for its own key only.
SOURCE: hashmap.c:95-200 -/
theorem hashmap_history (size : ℤ) (hsize : 0 < size) (puts : List (ℤ × Option α))
    (hkeys : ∀ p ∈ puts, 0 ≤ p.1) :
    ∃ h, putAll size puts = .ok h ∧
      (∀ k, 0 ≤ k → hmapGetPtr h k = .ok (lastPut puts k).join) ∧
      (∀ (i : ℕ) list, h.head[i]? = some list → ∀ e ∈ list, e.keyVal % size = i) ∧
      (h.head.flatten.map HashmapElem.keyVal).Nodup ∧
      ∀ k value, 0 ≤ k → ∃ h', hmapPutAbs h k value = .ok h' ∧
        ∀ j, 0 ≤ j → j ≠ k → hmapGetPtr h' j = hmapGetPtr h j := by
  obtain ⟨h, hall, hsz, ho, hget⟩ := putAll_spec hsize puts hkeys
  refine ⟨h, hall, fun k hk => ?_, ?_, ?_, fun k value hk => ?_⟩
  · rw [hmapGetPtr, hget k hk]
    rfl
  · intro i list hi e he
    have hslot : slotOf h.size e.keyVal = i := ho.placed i list hi e he
    have hnn := Int.emod_nonneg e.keyVal (ne_of_gt hsize)
    rw [slotOf, hsz] at hslot
    omega
  · exact nodup_keys_flatten ho.placed ho.distinct
  · have hput := hmapPutAbs_eq ho.sized hk value
    refine ⟨_, hput, fun j hj hne => ?_⟩
    rw [hmapGetPtr, hmapGetPtr, (hmapGetAbs_put ho.sized hk hput).2 j hj hne]

/-- Two keys that collide in a map of three buckets, and one of them put again. -/
theorem hashmap_history_colliding :
    ∃ h, putAll 3 [(1, some 10), (4, some 20), (1, some 30)] = .ok h ∧
      hmapGetPtr h 1 = .ok (some 30) := by
  obtain ⟨h, hall, hget, -⟩ := hashmap_history 3 (by omega)
    [(1, some 10), (4, some 20), (1, some 30)] (by simp)
  exact ⟨h, hall, hget 1 (by omega)⟩

/-! ## Removals -/

/-- A change of the map. -/
inductive MapOp (α : Type)
  | put (key : ℤ) (value : Option α)
  | remove (key : ℤ)

def MapOp.key : MapOp α → ℤ
  | .put key _ => key
  | .remove key => key

def MapOp.apply (h : Hashmap (Option α)) : MapOp α → Except Fault (Hashmap (Option α))
  | .put key value => hmapPutAbs h key value
  | .remove key => hmapRemoveAbs h key

/-- The map is what some puts and removals with non-negative keys make of a new map. -/
def Reached (size : ℤ) (ops : List (MapOp α)) (h : Hashmap (Option α)) : Prop :=
  (∀ op ∈ ops, 0 ≤ op.key) ∧ ops.foldlM MapOp.apply (hmapInit size) = .ok h

/-- A removal that does what it says: the key is gone, and no other key noticed. -/
def Removes (h : Hashmap (Option α)) (key : ℤ) : Prop :=
  ∃ h', hmapRemoveAbs h key = .ok h' ∧ hmapGetPtr h' key = .ok none ∧
    ∀ j, 0 ≤ j → j ≠ key → hmapGetPtr h' j = hmapGetPtr h j

/-- The key is not in bucket 0 or not stored, or the element that a removal gives the key 0
cannot be found under it: an element with the key 0 stands in front of it, or it holds what
the key 0 is answered with behind it.  An element that has the key 0 already must hold
`NULL`. -/
def LeavesNoTrace (h : Hashmap (Option α)) (key : ℤ) : Prop :=
  key % h.size ≠ 0 ∨ (∀ e ∈ chainOf h key, e.keyVal ≠ key) ∨
    ∃ pre e post, chainOf h key = pre ++ e :: post ∧ (∀ x ∈ pre, x.keyVal ≠ key) ∧
      e.keyVal = key ∧
      if key = 0 then e.value = none
      else (∃ x ∈ pre, x.keyVal = 0) ∨ e.value = pointerIn 0 post

/-- What every reached map keeps: its chains, and in each of them every key but the mark 0
at most once. -/
structure Marked (h : Hashmap α) : Prop where
  sized : Sized h
  distinct : ∀ (i : ℕ) list, h.head[i]? = some list →
    DistinctKeys HashmapElem.keyVal (fun k => k ≠ 0) list

theorem Marked.apply {h h' : Hashmap (Option α)} (hm : Marked h) {op : MapOp α}
    (hk : 0 ≤ op.key) (hop : op.apply h = .ok h') : Marked h' ∧ h'.size = h.size := by
  have hchain := hm.distinct _ _ (getElem?_slotOf hm.sized op.key)
  cases op with
  | put key value =>
      rw [MapOp.apply, hmapPutAbs_eq hm.sized (by exact hk) value, Except.ok.injEq] at hop
      rw [← hop]
      refine ⟨⟨hm.sized.withChain _, ?_⟩, rfl⟩
      exact forall_getElem?_set hm.distinct (hchain.upsert _)
  | remove key =>
      rw [MapOp.apply, hmapRemoveAbs_eq hm.sized (by exact hk), Except.ok.injEq] at hop
      rw [← hop]
      refine ⟨⟨hm.sized.withChain _, ?_⟩, rfl⟩
      apply forall_getElem?_set hm.distinct
      exact hchain.rewriteFirst fun e he => he rfl

theorem Reached.marked {size : ℤ} (hsize : 0 < size) {ops : List (MapOp α)}
    {h : Hashmap (Option α)} (hr : Reached size ops h) : Marked h ∧ h.size = size := by
  obtain ⟨hkeys, hfold⟩ := hr
  induction ops using List.reverseRecOn generalizing h with
  | nil =>
      have hh : hmapInit size = h := Except.ok.inj hfold
      rw [← hh]
      refine ⟨⟨sized_hmapInit hsize, ?_⟩, by rw [hmapInit_of_pos hsize]⟩
      intro i list hi
      rw [chain_hmapInit hsize hi]
      exact List.Pairwise.nil
  | append_singleton ops op ih =>
      rw [List.foldlM_append] at hfold
      obtain ⟨g, hpre, hlast⟩ := exists_of_bind_ok hfold
      rw [List.foldlM_cons] at hlast
      obtain ⟨g', hop, hnil⟩ := exists_of_bind_ok hlast
      cases hnil
      obtain ⟨hm, hsz⟩ := ih (fun o ho => hkeys o (List.mem_append_left _ ho)) hpre
      have hk := hkeys op (List.mem_append_right _ (List.mem_singleton_self op))
      obtain ⟨hm', hsz'⟩ := hm.apply hk hop
      exact ⟨hm', hsz'.trans hsz⟩

/-- The chain of a key after its removal. -/
def removedChain (h : Hashmap (Option α)) (key : ℤ) : List (HashmapElem (Option α)) :=
  rewriteFirst HashmapElem.keyVal key (fun e => ⟨0, e.value⟩) (chainOf h key)

/-- INTERNAL: only the keys of the same bucket can notice a removal.
SOURCE: hashmap.c:203-226 -/
theorem removes_iff_removedChain {h : Hashmap (Option α)} (hs : Sized h) {key : ℤ}
    (hk : 0 ≤ key) :
    Removes h key ↔ pointerIn key (removedChain h key) = none ∧
      ∀ j, 0 ≤ j → j ≠ key → slotOf h.size j = slotOf h.size key →
        pointerIn j (removedChain h key) = pointerIn j (chainOf h key) := by
  have hremove : hmapRemoveAbs h key = .ok (withChain h key (removedChain h key)) :=
    hmapRemoveAbs_eq hs hk
  have hs' : Sized (withChain h key (removedChain h key)) := hs.withChain _
  have hself : hmapGetPtr (withChain h key (removedChain h key)) key =
      .ok (pointerIn key (removedChain h key)) := by
    rw [hmapGetPtr_eq hs' hk, chainOf_withChain_self hs rfl]
  have hsame : ∀ j, 0 ≤ j → slotOf h.size j = slotOf h.size key →
      hmapGetPtr (withChain h key (removedChain h key)) j =
        .ok (pointerIn j (removedChain h key)) ∧
      hmapGetPtr h j = .ok (pointerIn j (chainOf h key)) := by
    intro j hj hslot
    have hchain : chainOf h j = chainOf h key := by rw [chainOf, chainOf, hslot]
    rw [hmapGetPtr_eq hs' hj, chainOf_withChain_self hs hslot, hmapGetPtr_eq hs hj, hchain]
    exact ⟨rfl, rfl⟩
  constructor
  · rintro ⟨h', hh', hgone, hothers⟩
    rw [hremove, Except.ok.injEq] at hh'
    rw [← hh'] at hgone hothers
    refine ⟨?_, fun j hj hne hslot => ?_⟩
    · rw [hself, Except.ok.injEq] at hgone
      exact hgone
    · obtain ⟨hafter, hbefore⟩ := hsame j hj hslot
      have heq := hothers j hj hne
      rw [hafter, hbefore, Except.ok.injEq] at heq
      exact heq
  · rintro ⟨hgone, hothers⟩
    refine ⟨_, hremove, by rw [hself, hgone], fun j hj hne => ?_⟩
    by_cases hslot : slotOf h.size j = slotOf h.size key
    · obtain ⟨hafter, hbefore⟩ := hsame j hj hslot
      rw [hafter, hbefore, hothers j hj hne hslot]
    · rw [hmapGetPtr_eq hs' hj, hmapGetPtr_eq hs hj, chainOf_withChain_of_ne hslot]

theorem pointerIn_append (key : ℤ) (pre post : List (HashmapElem (Option α))) :
    pointerIn key (pre ++ post) =
      if ∃ x ∈ pre, x.keyVal = key then pointerIn key pre else pointerIn key post := by
  unfold pointerIn
  rw [lookup_append]
  split
  · rename_i hpre
    cases hl : lookup HashmapElem.keyVal key pre with
    | none =>
        obtain ⟨x, hx, hxk⟩ := hpre
        exact absurd hxk ((lookup_eq_none _).mp hl x hx)
    | some e => rfl
  · rename_i hpre
    have hl : lookup HashmapElem.keyVal key pre = none := by
      rw [lookup_eq_none]
      exact fun x hx hxk => hpre ⟨x, hx, hxk⟩
    rw [hl, Option.none_or]

theorem pointerIn_cons (key : ℤ) (e : HashmapElem (Option α))
    (list : List (HashmapElem (Option α))) :
    pointerIn key (e :: list) = if e.keyVal = key then e.value else pointerIn key list := by
  unfold pointerIn
  rw [lookup_cons]
  split
  · rfl
  · rfl

/-- INTERNAL: the marked element answers for no key but 0, so every other key of the chain
is answered as before, and the removed key is gone.
SOURCE: hashmap.c:215-221 -/
theorem pointerIn_marked {pre post : List (HashmapElem (Option α))}
    {e : HashmapElem (Option α)}
    (hdistinct : DistinctKeys HashmapElem.keyVal (fun k => k ≠ 0) (pre ++ e :: post))
    (hpre : ∀ x ∈ pre, x.keyVal ≠ e.keyVal) {j : ℤ} (hj : j ≠ 0) :
    pointerIn j (pre ++ ⟨0, e.value⟩ :: post) =
      if j = e.keyVal then none else pointerIn j (pre ++ e :: post) := by
  rw [pointerIn_append, pointerIn_append, pointerIn_cons, pointerIn_cons]
  simp only [Ne.symm hj, if_false]
  by_cases hje : j = e.keyVal
  · have hfront : ¬ ∃ x ∈ pre, x.keyVal = j := by
      rintro ⟨x, hx, hxj⟩
      exact hpre x hx (hxj.trans hje)
    have hbehind : lookup HashmapElem.keyVal e.keyVal post = none :=
      hdistinct.lookup_behind (by rw [← hje]; exact hj)
    rw [if_neg hfront, if_pos hje, hje, pointerIn, hbehind, Option.bind_none]
  · simp only [if_neg hje, if_neg (Ne.symm hje)]

/-- INTERNAL: under the key 0 the marked element is found unless another stands in front.
SOURCE: hashmap.c:186-196, 215-221 -/
theorem pointerIn_zero_marked (pre post : List (HashmapElem (Option α)))
    {e : HashmapElem (Option α)} (he : e.keyVal ≠ 0) :
    pointerIn 0 (pre ++ ⟨0, e.value⟩ :: post) = pointerIn 0 (pre ++ e :: post) ↔
      (∃ x ∈ pre, x.keyVal = 0) ∨ e.value = pointerIn 0 post := by
  rw [pointerIn_append, pointerIn_append, pointerIn_cons, pointerIn_cons, if_pos rfl,
    if_neg he]
  by_cases hfront : ∃ x ∈ pre, x.keyVal = 0
  · simp [hfront]
  · simp [hfront]

/-- INTERNAL: for a stored key other than 0 a removal can fail in bucket 0 only. -/
theorem removes_stored_iff {h : Hashmap (Option α)} (hm : Marked h) {key : ℤ} (hk : 0 ≤ key)
    (hkey : key ≠ 0) {pre post : List (HashmapElem (Option α))} {e : HashmapElem (Option α)}
    (hchain : chainOf h key = pre ++ e :: post) (hpre : ∀ x ∈ pre, x.keyVal ≠ key)
    (he : e.keyVal = key) :
    Removes h key ↔
      key % h.size ≠ 0 ∨ (∃ x ∈ pre, x.keyVal = 0) ∨ e.value = pointerIn 0 post := by
  have hdistinct := hm.distinct _ _ (getElem?_slotOf hm.sized key)
  have hremoved : removedChain h key = pre ++ ⟨0, e.value⟩ :: post := by
    rw [removedChain, hchain, rewriteFirst_split _ hpre he]
  have hslot : slotOf h.size 0 = slotOf h.size key ↔ key % h.size = 0 := by
    have hnn := Int.emod_nonneg key (ne_of_gt hm.sized.size_pos)
    rw [slotOf, slotOf, Int.zero_emod]
    omega
  rw [hchain] at hdistinct
  rw [← he] at hpre
  rw [removes_iff_removedChain hm.sized hk, hremoved, hchain, ← he]
  rw [← he] at hkey hslot
  rw [pointerIn_marked hdistinct hpre hkey, if_pos rfl]
  constructor
  · rintro ⟨-, hothers⟩
    by_cases hzero : e.keyVal % h.size = 0
    · right
      have hsame := hothers 0 le_rfl (Ne.symm hkey) (hslot.mpr hzero)
      exact (pointerIn_zero_marked pre post hkey).mp hsame
    · exact Or.inl hzero
  · intro hcond
    refine ⟨rfl, fun j _ hne hj => ?_⟩
    by_cases hj0 : j = 0
    · subst j
      have hzero := hslot.mp hj
      exact (pointerIn_zero_marked pre post hkey).mpr (hcond.resolve_left fun hc => hc hzero)
    · rw [pointerIn_marked hdistinct hpre hj0, if_neg hne]

/-- INTERNAL: a removal of the key 0 changes nothing, so it succeeds where `NULL` is stored.
SOURCE: hashmap.c:215-221 -/
theorem removes_zero_iff {h : Hashmap (Option α)} (hs : Sized h)
    {pre post : List (HashmapElem (Option α))} {e : HashmapElem (Option α)}
    (hchain : chainOf h 0 = pre ++ e :: post) (hpre : ∀ x ∈ pre, x.keyVal ≠ 0)
    (he : e.keyVal = 0) : Removes h 0 ↔ e.value = none := by
  have hsame : (⟨0, e.value⟩ : HashmapElem (Option α)) = e := by rw [← he]
  have hremoved : removedChain h 0 = chainOf h 0 := by
    rw [removedChain, hchain, rewriteFirst_split _ hpre he, hsame]
  have hfront : ¬ ∃ x ∈ pre, x.keyVal = 0 := by
    rintro ⟨x, hx, hx0⟩
    exact hpre x hx hx0
  have hvalue : pointerIn 0 (chainOf h 0) = e.value := by
    rw [hchain, pointerIn_append, if_neg hfront, pointerIn_cons, if_pos he]
  rw [removes_iff_removedChain hs le_rfl, hremoved, hvalue]
  exact ⟨fun hr => hr.1, fun hv => ⟨hv, fun _ _ _ _ => rfl⟩⟩

/-- INTERNAL: a removal of a key that is not stored changes nothing. -/
theorem removes_of_absent {h : Hashmap (Option α)} (hs : Sized h) {key : ℤ} (hk : 0 ≤ key)
    (habsent : lookup HashmapElem.keyVal key (chainOf h key) = none) : Removes h key := by
  have hremoved : removedChain h key = chainOf h key :=
    rewriteFirst_of_lookup _ habsent
  rw [removes_iff_removedChain hs hk, hremoved, pointerIn, habsent]
  exact ⟨rfl, fun _ _ _ _ => rfl⟩

/-- **Exactly when a removal removes.**  In every map that puts and removals with
non-negative keys make, a removal takes its key out and leaves the answers for the others
alone if and only if the element, which keeps its place under the key 0, leaves no trace.
SOURCE: hashmap.c:203-226 -/
theorem removal_iff_leaves_no_trace (size : ℤ) (hsize : 0 < size) (ops : List (MapOp α))
    (h : Hashmap (Option α)) (hr : Reached size ops h) (key : ℤ) (hk : 0 ≤ key) :
    Removes h key ↔ LeavesNoTrace h key := by
  obtain ⟨hm, -⟩ := hr.marked hsize
  constructor
  · intro hremoves
    cases hl : lookup HashmapElem.keyVal key (chainOf h key) with
    | none => exact Or.inr (Or.inl ((lookup_eq_none HashmapElem.keyVal).mp hl))
    | some e =>
        obtain ⟨pre, post, hchain, hpre, he⟩ := lookup_split HashmapElem.keyVal hl
        by_cases hkey : key = 0
        · rw [hkey] at hremoves hchain hpre he ⊢
          have hnull := (removes_zero_iff hm.sized hchain hpre he).mp hremoves
          exact Or.inr (Or.inr ⟨pre, e, post, hchain, hpre, he, hnull⟩)
        · rcases (removes_stored_iff hm hk hkey hchain hpre he).mp hremoves with hmod | htrace
          · exact Or.inl hmod
          · refine Or.inr (Or.inr ⟨pre, e, post, hchain, hpre, he, ?_⟩)
            rw [if_neg hkey]
            exact htrace
  · rintro (hmod | habsent | ⟨pre, e, post, hchain, hpre, he, htrace⟩)
    · cases hl : lookup HashmapElem.keyVal key (chainOf h key) with
      | none => exact removes_of_absent hm.sized hk hl
      | some e =>
          obtain ⟨pre, post, hchain, hpre, he⟩ := lookup_split HashmapElem.keyVal hl
          have hkey : key ≠ 0 := by
            rintro rfl
            exact hmod (Int.zero_emod _)
          exact (removes_stored_iff hm hk hkey hchain hpre he).mpr (Or.inl hmod)
    · exact removes_of_absent hm.sized hk ((lookup_eq_none HashmapElem.keyVal).mpr habsent)
    · by_cases hkey : key = 0
      · rw [if_pos hkey] at htrace
        rw [hkey] at hchain hpre he ⊢
        exact (removes_zero_iff hm.sized hchain hpre he).mpr htrace
      · rw [if_neg hkey] at htrace
        exact (removes_stored_iff hm hk hkey hchain hpre he).mpr (Or.inr htrace)

/-- A stored key of a bucket other than 0 is removed. -/
theorem removal_iff_leaves_no_trace_four :
    ∃ h, Reached 3 [MapOp.put 4 (some 7)] h ∧ (Removes h 4 ↔ LeavesNoTrace h 4) := by
  have hput := hmapPutAbs_eq (sized_hmapInit (α := Option ℕ) (by omega : (0 : ℤ) < 3))
    (by omega : (0 : ℤ) ≤ 4) (some 7)
  have hr : Reached 3 [MapOp.put 4 (some 7)] _ := ⟨by simp [MapOp.key], by
    simp only [List.foldlM_cons, List.foldlM_nil, MapOp.apply, hput]
    rfl⟩
  exact ⟨_, hr, removal_iff_leaves_no_trace 3 (by omega) [MapOp.put 4 (some 7)] _ hr 4 (by omega)⟩

/-- The map of one bucket that holds the key 1. -/
def oneKey : Hashmap (Option ℕ) := ⟨1, [[⟨1, some 7⟩]]⟩

/-- **A removed value turns up under the key 0**: with one bucket, the removal of the key 1
leaves its value to be found under 0, where `NULL` was found before. -/
theorem removed_value_under_zero :
    Reached 1 [MapOp.put 1 (some 7)] oneKey ∧ hmapGetPtr oneKey 0 = .ok none ∧
      (∃ h', hmapRemoveAbs oneKey 1 = .ok h' ∧ hmapGetPtr h' 0 = .ok (some 7)) ∧
      ¬ Removes oneKey 1 := by
  have hremove : hmapRemoveAbs oneKey 1 = .ok ⟨1, [[⟨0, some 7⟩]]⟩ := rfl
  have hbefore : hmapGetPtr oneKey 0 = .ok none := rfl
  refine ⟨⟨by simp [MapOp.key], rfl⟩, hbefore, ⟨_, hremove, rfl⟩, ?_⟩
  rintro ⟨h', hh', -, hothers⟩
  rw [hremove, Except.ok.injEq] at hh'
  have hsame := hothers 0 le_rfl (by omega)
  rw [← hh', hbefore] at hsame
  have hafter : hmapGetPtr (⟨1, [[⟨0, some 7⟩]]⟩ : Hashmap (Option ℕ)) 0 = .ok (some 7) := rfl
  rw [hafter, Except.ok.injEq] at hsame
  exact absurd hsame (by simp)

/-! ## The hash of a name -/

/-- INTERNAL: the last but one round clears the sign bit. -/
theorem msb_xor_sshiftRight (x : BitVec 32) : (x ^^^ x.sshiftRight 11).msb = false := by
  rw [BitVec.msb_xor, BitVec.msb_sshiftRight, Bool.xor_self]

/-- INTERNAL: the last round multiplies by an odd number, and only `INT_MIN` itself is a
multiple of it that is `INT_MIN`. -/
theorem add_shiftLeft_ne_intMin {x : BitVec 32} (hx : x.msb = false) :
    x + (x <<< 15) ≠ BitVec.intMin 32 := by
  intro h
  have hlt : x.toNat < 2 ^ 31 := by
    have hmsb := BitVec.msb_eq_false_iff_two_mul_lt.mp hx
    omega
  have hnat := congrArg BitVec.toNat h
  rw [BitVec.toNat_add, BitVec.toNat_shiftLeft, BitVec.toNat_intMin, Nat.shiftLeft_eq] at hnat
  omega

/-- INTERNAL: a string hash is never the `int` without an absolute value.
SOURCE: hashmap.c:50-71 -/
theorem strHash_ne_intMin (s : List UInt8) : strHash s ≠ BitVec.intMin 32 := by
  unfold strHash
  exact add_shiftLeft_ne_intMin (msb_xor_sshiftRight _)

theorem cAbs_nonneg {x : BitVec 32} (hx : x ≠ BitVec.intMin 32) : 0 ≤ cAbs x := by
  unfold cAbs
  split
  · rename_i hneg
    rw [BitVec.toInt_neg_of_ne_intMin hx]
    omega
  · omega

/-- **The index of a hashed name is inside the map.**  No string hashes to `INT_MIN`, so the
key has the sign of a length, its remainder is an index for every positive size, and no
put and no get under it faults.
SOURCE: hashmap.c:50-71, 133-200, utils.c:563-567 -/
theorem str_hash_in_range (s : List UInt8) (size : ℤ) (hsize : 0 < size) :
    strHash s ≠ BitVec.intMin 32 ∧ 0 ≤ cAbs (strHash s) ∧
      0 ≤ (cAbs (strHash s)).tmod size ∧ (cAbs (strHash s)).tmod size < size ∧
      ∀ h : Hashmap ℤ, Sized h → h.size = size →
        (∀ value, ∃ h', hmapPutAbs h (cAbs (strHash s)) value = .ok h') ∧
        ∃ value, hmapGetAbs h (cAbs (strHash s)) = .ok value := by
  have hmin := strHash_ne_intMin s
  have habs := cAbs_nonneg hmin
  have hmod : (cAbs (strHash s)).tmod size = cAbs (strHash s) % size :=
    Int.tmod_eq_emod_of_nonneg habs
  refine ⟨hmin, habs, ?_, ?_, fun h hs _ => ⟨fun value => ?_, ?_⟩⟩
  · rw [hmod]
    exact Int.emod_nonneg _ (ne_of_gt hsize)
  · rw [hmod]
    exact Int.emod_lt_of_pos _ hsize
  · exact ⟨_, hmapPutAbs_eq hs habs value⟩
  · exact ⟨_, hmapGetAbs_eq hs habs⟩

/-- The hash of a registered name. -/
theorem str_hash_in_range_poll : 0 ≤ (cAbs (strHash (bytes "poll"))).tmod 1000 :=
  (str_hash_in_range (bytes "poll") 1000 (by omega)).2.2.1

/-- The puts of a list of names and costs. -/
def registered (names : List (String × ℤ)) : List (ℤ × ℤ) :=
  names.map fun t => (cAbs (strHash (bytes t.1)), t.2)

theorem foldlM_registered (names : List (String × ℤ)) (h : Hashmap ℤ) :
    (registered names).foldlM (fun h p => hmapPutAbs h p.1 p.2) h =
      names.foldlM (fun h t => hmapPutAbs h (cAbs (strHash (bytes t.1))) t.2) h := by
  rw [registered, List.foldlM_map]

/-- INTERNAL: a table of function times can be made from any names, and then answers every
name with the cost that was registered last under its hash.
SOURCE: utils.c:837-854 -/
theorem funcTimes_spec (names : List (String × ℤ)) :
    ∃ h : Hashmap ℤ,
      names.foldlM (fun h t => hmapPutAbs h (cAbs (strHash (bytes t.1))) t.2) (hmapInit 1000) =
        .ok h ∧ Sized h ∧
      ∀ name, hmapGetAbs h (cAbs (strHash name)) =
        .ok (lastPut (registered names) (cAbs (strHash name))) := by
  have hkeys : ∀ p ∈ registered names, 0 ≤ p.1 := by
    intro p hp
    obtain ⟨t, -, ht⟩ := List.mem_map.mp hp
    rw [← ht]
    simp only
    exact cAbs_nonneg (strHash_ne_intMin _)
  obtain ⟨h, hall, -, ho, hget⟩ := putAll_spec (by omega : (0 : ℤ) < 1000) _ hkeys
  refine ⟨h, ?_, ho.sized, fun name => hget _ (cAbs_nonneg (strHash_ne_intMin _))⟩
  rw [← foldlM_registered]
  exact hall

end VtRouter.Analysis
