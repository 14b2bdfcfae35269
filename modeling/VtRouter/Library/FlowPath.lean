import Mathlib.Data.Fintype.Card
import Mathlib.Data.List.Chain
import Mathlib.Data.List.Flatten
import VtRouter.Library.Flow

/-!
# The paths of a flow

Since a node treats all frames of a flow alike, the flow follows one path from the port at which
it comes in, and the path ends in one of three ways (`exists_itinerary`): the last node sends the
flow out of the network, drops it, or sends it back to a node on the path.  What becomes of the
flow in each case is said by `fate_of_exits`, `fate_of_drops` and `fate_of_returns`.  On the path
the frames stand in a line, from the hand of the last node back to the wire before the first
(`transit`), and every step of the network keeps their order (`transit_step`).
-/

set_option autoImplicit false

namespace Library

variable {ν ι φ ω : Type}

namespace Flow

variable {W : Wiring ν ι φ ω} {handle : ν → ι → φ → Option ω} (F : Flow W handle)

/-! ### Paths -/

/-- A path on which the nodes send the flow from port to port, through different nodes. -/
structure Path (path : List (ν × ι)) : Prop where
  chain : path.IsChain fun p q => F.next p.1 = some q
  nodup : (path.map Prod.fst).Nodup

/-- The last node of the path sends the flow out of the network, at `port`. -/
def Exits (path : List (ν × ι)) (port : ν × ι) : Prop :=
  ∃ p ∈ path.getLast?, p.1 = port.1 ∧ F.out port.1 = some port.2 ∧ W.peer port = none

/-- The last node of the path drops the flow. -/
def Drops (path : List (ν × ι)) : Prop := ∃ p ∈ path.getLast?, F.out p.1 = none

/-- The last node of the path sends the flow to a node on the path, at `port`. -/
def Returns (path : List (ν × ι)) (port : ν × ι) : Prop :=
  (∃ p ∈ path.getLast?, F.next p.1 = some port) ∧ port.1 ∈ path.map Prod.fst

variable {F}

/-- INTERNAL: from a port on the path the flow goes on along the path, unless it is the last. -/
theorem Path.next_mem {path : List (ν × ι)} (hpath : F.Path path) {p : ν × ι} (hp : p ∈ path) :
    p ∈ path.getLast? ∨ ∃ q ∈ path.tail, F.next p.1 = some q := by
  obtain ⟨pre, post, rfl⟩ := List.append_of_mem hp
  cases post with
  | nil => exact Or.inl (by simp)
  | cons q post =>
      right
      refine ⟨q, ?_, ?_⟩
      · cases pre <;> simp
      · have hsuffix : (p :: q :: post).IsChain fun p q => F.next p.1 = some q :=
          hpath.chain.right_of_append
        exact (List.isChain_cons_cons.mp hsuffix).1

/-- INTERNAL: each node has one port on the path. -/
theorem Path.eq_of_fst {path : List (ν × ι)} (hpath : F.Path path) {p q : ν × ι} (hp : p ∈ path)
    (hq : q ∈ path) (h : p.1 = q.1) : p = q :=
  List.inj_on_of_nodup_map hpath.nodup hp hq h

/-- INTERNAL: what the last node does, it does from any port on the path. -/
theorem next_of_exits {path : List (ν × ι)} {port p : ν × ι} (hexit : F.Exits path port)
    (hp : p ∈ path.getLast?) : F.next p.1 = none := by
  obtain ⟨p', hp', hnode, hout, hpeer⟩ := hexit
  rw [Option.mem_unique hp hp', hnode]
  simp [next, hout, hpeer]

theorem next_of_drops {path : List (ν × ι)} {p : ν × ι} (hdrops : F.Drops path)
    (hp : p ∈ path.getLast?) : F.next p.1 = none := by
  obtain ⟨p', hp', hout⟩ := hdrops
  rw [Option.mem_unique hp hp', next, hout]
  rfl

/-- INTERNAL: a path that goes nowhere in the end is a closed region. -/
theorem Path.closed {path : List (ν × ι)} (hpath : F.Path path)
    (hend : ∀ p ∈ path.getLast?, F.next p.1 = none) : F.Closed {p | p ∈ path} := by
  intro p hp q hq
  rcases hpath.next_mem hp with hlast | ⟨r, hr, hnext⟩
  · rw [hend p hlast] at hq
    cases hq
  · rw [hnext] at hq
    cases hq
    exact List.mem_of_mem_tail hr

/-- INTERNAL: a path that comes back, with the port at which it does, as a closed region. -/
theorem Path.closed_of_returns {path : List (ν × ι)} {port : ν × ι} (hpath : F.Path path)
    (hreturns : F.Returns path port) : F.Closed {p | p ∈ port :: path} := by
  obtain ⟨⟨last, hlast, hport⟩, hnode⟩ := hreturns
  have hclosed : ∀ p ∈ path, ∀ q, F.next p.1 = some q → q ∈ port :: path := by
    intro p hp q hq
    rcases hpath.next_mem hp with hp' | ⟨r, hr, hnext⟩
    · rw [Option.mem_unique hp' hlast, hport] at hq
      cases hq
      exact List.mem_cons_self
    · rw [hnext] at hq
      cases hq
      exact List.mem_cons_of_mem _ (List.mem_of_mem_tail hr)
  intro p hp q hq
  rcases List.mem_cons.mp hp with rfl | hp
  · obtain ⟨p', hp', hsame⟩ := List.mem_map.mp hnode
    exact hclosed p' hp' q (hsame ▸ hq)
  · exact hclosed p hp q hq

/-- INTERNAL: no node of a path out of the network drops the flow. -/
theorem Path.out_of_exits {path : List (ν × ι)} {port p : ν × ι} (hpath : F.Path path)
    (hexit : F.Exits path port) (hp : p ∈ path) : F.out p.1 ≠ none := by
  intro hnone
  rcases hpath.next_mem hp with hlast | ⟨r, -, hnext⟩
  · obtain ⟨p', hp', hnode, hout, -⟩ := hexit
    rw [Option.mem_unique hlast hp', hnode, hout] at hnone
    cases hnone
  · simp [next, hnone] at hnext

/-- INTERNAL: a path goes on, unless the flow ends there. -/
theorem Path.extend {path : List (ν × ι)} {p : ν × ι} (hpath : F.Path (path ++ [p])) :
    (∃ port, F.Exits (path ++ [p]) port) ∨ F.Drops (path ++ [p]) ∨
      (∃ port, F.Returns (path ++ [p]) port) ∨ ∃ q, F.Path (path ++ [p] ++ [q]) := by
  have hlast : p ∈ (path ++ [p]).getLast? := by simp
  cases hout : F.out p.1 with
  | none => exact Or.inr (Or.inl ⟨p, hlast, hout⟩)
  | some o =>
      cases hpeer : W.peer (p.1, o) with
      | none => exact Or.inl ⟨(p.1, o), p, hlast, rfl, hout, hpeer⟩
      | some q =>
          have hnext : F.next p.1 = some q := by simp [next, hout, hpeer]
          by_cases hq : q.1 ∈ (path ++ [p]).map Prod.fst
          · exact Or.inr (Or.inr (Or.inl ⟨q, ⟨p, hlast, hnext⟩, hq⟩))
          · refine Or.inr (Or.inr (Or.inr ⟨q, ?_, ?_⟩))
            · refine hpath.chain.append (List.isChain_singleton q) ?_
              intro x hx y hy
              obtain rfl := Option.mem_unique hx hlast
              obtain rfl : q = y := by simpa using hy
              exact hnext
            · rw [List.map_append, List.nodup_append]
              refine ⟨hpath.nodup, by simp, ?_⟩
              rintro n hn m hm rfl
              obtain rfl : n = q.1 := by simpa using hm
              exact hq hn

/-- **There is no fourth way.**  From every port the flow is led along a path of different nodes
out of the network, to a node that drops it, or back onto the path. -/
theorem exists_itinerary [Fintype ν] (F : Flow W handle) (p₀ : ν × ι) :
    ∃ path, F.Path (p₀ :: path) ∧ ((∃ port, F.Exits (p₀ :: path) port) ∨ F.Drops (p₀ :: path) ∨
      ∃ port, F.Returns (p₀ :: path) port) := by
  by_contra hnone
  have hlong : ∀ k, ∃ path, F.Path (p₀ :: path) ∧ path.length = k := by
    intro k
    induction k with
    | zero => exact ⟨[], ⟨List.isChain_singleton _, by simp⟩, rfl⟩
    | succ k ih =>
        obtain ⟨path, hpath, hk⟩ := ih
        obtain ⟨front, last, hsplit⟩ : ∃ front last, p₀ :: path = front ++ [last] :=
          ⟨_, _, (List.dropLast_append_getLast (List.cons_ne_nil p₀ path)).symm⟩
        have hpath' := hpath
        rw [hsplit] at hpath'
        rcases hpath'.extend with hend | hend | hend | ⟨q, hq⟩
        · exact absurd ⟨path, hpath, Or.inl (hsplit ▸ hend)⟩ hnone
        · exact absurd ⟨path, hpath, Or.inr (Or.inl (hsplit ▸ hend))⟩ hnone
        · exact absurd ⟨path, hpath, Or.inr (Or.inr (hsplit ▸ hend))⟩ hnone
        · rw [← hsplit] at hq
          exact ⟨path ++ [q], hq, by simp [hk]⟩
  obtain ⟨path, hpath, hk⟩ := hlong (Fintype.card ν)
  have hle := hpath.nodup.length_le_card
  simp only [List.map_cons, List.length_cons, List.length_map] at hle
  omega

/-! ### Order along a path -/

variable (F)

/-- What is at a port of the path, the oldest first: in the hand of its node, in the queue, in
flight to it. -/
def station (c : Contents ν ι φ ω) (p : ν × ι) : List φ :=
  F.pick ((c.hand p.1).toList.map W.frame) ++ F.pick (c.queue p) ++ F.pick (c.flight p)

/-- What is on the path, the oldest first. -/
def transit (path : List (ν × ι)) (c : Contents ν ι φ ω) : List φ :=
  path.reverse.flatMap (F.station c)

variable {F}

/-- INTERNAL: the later half of a path holds the older frames. -/
theorem transit_append (path rest : List (ν × ι)) (c : Contents ν ι φ ω) :
    F.transit (path ++ rest) c = F.transit rest c ++ F.transit path c := by
  simp [transit]

theorem transit_cons (p : ν × ι) (path : List (ν × ι)) (c : Contents ν ι φ ω) :
    F.transit (p :: path) c = F.transit path c ++ F.station c p := by
  simp [transit]

/-- INTERNAL: nothing has moved on the path. -/
theorem transit_congr {path : List (ν × ι)} {c c' : Contents ν ι φ ω}
    (h : ∀ p ∈ path, F.station c' p = F.station c p) : F.transit path c' = F.transit path c := by
  unfold transit
  exact List.flatMap_congr fun p hp => h p (List.mem_reverse.mp hp)

/-- INTERNAL: a station is determined by what is there. -/
theorem station_congr {c c' : Contents ν ι φ ω} {p : ν × ι} (hhand : c'.hand p.1 = c.hand p.1)
    (hqueue : c'.queue p = c.queue p) (hflight : c'.flight p = c.flight p) :
    F.station c' p = F.station c p := by
  unfold station
  rw [hhand, hqueue, hflight]

/-- INTERNAL: nothing of the flow is there. -/
theorem pick_eq_nil {fs : List φ} (h : ∀ f ∈ fs, ¬ F.kind f = true) : F.pick fs = [] := by
  unfold pick
  rw [List.filter_eq_nil_iff.mpr h, List.map_nil]

/-- INTERNAL: nothing is in flight to the first port of a path. -/
theorem flight_first {p₀ port : ν × ι} {path : List (ν × ι)} {c : Contents ν ι φ ω}
    (hpath : F.Path (p₀ :: path)) (hexit : F.Exits (p₀ :: path) port)
    (hc : F.Confined {p | p ∈ p₀ :: path} c) : F.pick (c.flight p₀) = [] := by
  refine pick_eq_nil fun f hf hk => ?_
  obtain ⟨q, hq, hnext⟩ := hc.flight p₀ f hf hk
  rcases hpath.next_mem hq with hlast | ⟨r, hr, hnext'⟩
  · rw [next_of_exits hexit hlast] at hnext
    cases hnext
  · rw [hnext] at hnext'
    cases hnext'
    exact (List.nodup_cons.mp hpath.nodup).1 (List.mem_map_of_mem hr)

section Order

variable [DecidableEq ν] [DecidableEq ι]

/-- INTERNAL: a frame that comes in at the first port is the last of those on the path. -/
theorem transit_enter {p₀ port : ν × ι} {path : List (ν × ι)} {c : Contents ν ι φ ω}
    (hpath : F.Path (p₀ :: path)) (hexit : F.Exits (p₀ :: path) port)
    (hc : F.Confined {p | p ∈ p₀ :: path} c) {p : ν × ι} {f : φ}
    (hfirst : F.kind f = true → p = p₀) :
    F.transit (p₀ :: path) { c with queue := Function.update c.queue p (c.queue p ++ [f]) } =
      F.transit (p₀ :: path) c ++ F.pick [f] := by
  by_cases hk : F.kind f = true
  · obtain rfl := hfirst hk
    have hnot : p ∉ path := fun hmem =>
      (List.nodup_cons.mp hpath.nodup).1 (List.mem_map_of_mem hmem)
    have hrest : F.transit path { c with
        queue := Function.update c.queue p (c.queue p ++ [f]) } = F.transit path c := by
      refine transit_congr fun q hq => station_congr rfl ?_ rfl
      have hqp : q ≠ p := fun h => hnot (h ▸ hq)
      exact Function.update_of_ne hqp _ _
    rw [transit_cons, transit_cons, hrest]
    simp [station, flight_first hpath hexit hc]
  · rw [F.pick_of_not_kind hk, List.append_nil]
    refine transit_congr fun q _ => ?_
    by_cases hq : q = p
    · subst hq
      simp [station, F.pick_of_not_kind hk]
    · exact station_congr rfl (Function.update_of_ne hq _ _) rfl

/-- INTERNAL: what a node takes stays where it is on the path. -/
theorem transit_take {path : List (ν × ι)} {c : Contents ν ι φ ω} {n : ν} {i : ι} {f : φ}
    {rest : List φ} (hpath : F.Path path) (hmem : F.kind f = true → (n, i) ∈ path)
    (hout : F.kind f = true → handle n i f ≠ none) (hq : c.queue (n, i) = f :: rest)
    (hnone : c.hand n = none) :
    F.transit path { c with
      queue := Function.update c.queue (n, i) rest
      hand := Function.update c.hand n (handle n i f) } = F.transit path c := by
  refine transit_congr fun p hp => ?_
  by_cases hk : F.kind f = true
  · obtain ⟨o, ho⟩ := Option.ne_none_iff_exists'.mp (hout hk)
    by_cases hpn : p.1 = n
    · obtain rfl : p = (n, i) := hpath.eq_of_fst hp (hmem hk) hpn
      simp [station, hq, hnone, ho, F.pick_cons f rest, F.pick_handle ho]
    · exact station_congr (Function.update_of_ne hpn _ _)
        (Function.update_of_ne (fun h => hpn (congrArg Prod.fst h)) _ _) rfl
  · have hnothing : F.pick ((handle n i f).toList.map W.frame) = [] := by
      cases ho : handle n i f with
      | none => rfl
      | some o =>
          have hpick := F.pick_handle ho
          rw [F.pick_of_not_kind hk] at hpick
          simpa using hpick
    have hhands : F.pick ((Function.update c.hand n (handle n i f) p.1).toList.map W.frame) =
        F.pick ((c.hand p.1).toList.map W.frame) := by
      by_cases hpn : p.1 = n
      · rw [hpn, Function.update_self, hnone, hnothing]
        rfl
      · rw [Function.update_of_ne hpn]
    have hqueues : F.pick (Function.update c.queue (n, i) rest p) = F.pick (c.queue p) := by
      by_cases hp : p = (n, i)
      · rw [hp, Function.update_self, hq, F.pick_cons, F.pick_of_not_kind hk]
        rfl
      · rw [Function.update_of_ne hp]
    unfold station
    rw [hhands, hqueues]

/-- INTERNAL: what a node sends along the path moves to the end of the next station. -/
theorem transit_send {path : List (ν × ι)} {port : ν × ι} {c : Contents ν ι φ ω} {n : ν} {i : ι}
    {o : ω} {p : ν × ι} (hpath : F.Path path) (hexit : F.Exits path port) (hmem : (n, i) ∈ path)
    (hnext : F.next n = some p) (ho : c.hand n = some o) :
    F.transit path { c with
      hand := Function.update c.hand n none
      flight := Function.update c.flight p (c.flight p ++ [W.frame o]) } = F.transit path c := by
  obtain ⟨pre, post, rfl⟩ := List.append_of_mem hmem
  cases post with
  | nil =>
      rw [next_of_exits hexit (p := (n, i)) (by simp)] at hnext
      cases hnext
  | cons q post =>
      have hsuffix : ((n, i) :: q :: post).IsChain fun p q => F.next p.1 = some q :=
        hpath.chain.right_of_append
      obtain rfl : q = p := Option.some.inj ((List.isChain_cons_cons.mp hsuffix).1.symm.trans hnext)
      have hnodup := hpath.nodup
      simp only [List.map_append, List.map_cons, List.nodup_append, List.nodup_cons,
        List.mem_cons, List.mem_map, not_or] at hnodup
      obtain ⟨-, ⟨⟨hnq, hnpost⟩, hqpost, -⟩, hpre⟩ := hnodup
      have hoff : ∀ r, r.1 ≠ n → r ≠ q → F.station { c with
          hand := Function.update c.hand n none
          flight := Function.update c.flight q (c.flight q ++ [W.frame o]) } r = F.station c r :=
        fun r hrn hrq => station_congr (Function.update_of_ne hrn _ _) rfl
          (Function.update_of_ne hrq _ _)
      have hpost : ∀ r ∈ post, r.1 ≠ n ∧ r ≠ q := fun r hr =>
        ⟨fun h => hnpost ⟨r, hr, h⟩, fun h => hqpost ⟨r, hr, congrArg Prod.fst h⟩⟩
      have hbefore : ∀ r ∈ pre, r.1 ≠ n ∧ r ≠ q := fun r hr =>
        ⟨hpre _ ⟨r, hr, rfl⟩ _ (Or.inl rfl), fun h => hpre _ ⟨r, hr, rfl⟩ _ (Or.inr (Or.inl rfl))
          (congrArg Prod.fst h)⟩
      have hqn : q ≠ (n, i) := fun h => hnq (congrArg Prod.fst h).symm
      simp only [transit_append, transit_cons]
      rw [transit_congr fun r hr => hoff r (hpost r hr).1 (hpost r hr).2,
        transit_congr fun r hr => hoff r (hbefore r hr).1 (hbefore r hr).2]
      simp [station, ho, Function.update_of_ne (Ne.symm hnq), Function.update_of_ne (Ne.symm hqn)]

omit [DecidableEq ι] in
/-- INTERNAL: what the last node sends is the oldest on the path. -/
theorem transit_depart {path : List (ν × ι)} {c : Contents ν ι φ ω} {n : ν} {i : ι} {o : ω}
    (hpath : F.Path path) (hmem : (n, i) ∈ path) (hlast : F.next n = none)
    (ho : c.hand n = some o) :
    F.pick [W.frame o] ++ F.transit path { c with hand := Function.update c.hand n none } =
      F.transit path c := by
  obtain ⟨pre, post, rfl⟩ := List.append_of_mem hmem
  cases post with
  | cons q post =>
      have hsuffix : ((n, i) :: q :: post).IsChain fun p q => F.next p.1 = some q :=
        hpath.chain.right_of_append
      have hnext := (List.isChain_cons_cons.mp hsuffix).1
      rw [hlast] at hnext
      cases hnext
  | nil =>
      have hnodup := hpath.nodup
      simp only [List.map_append, List.map_cons, List.map_nil, List.nodup_append,
        List.mem_cons, List.mem_map] at hnodup
      obtain ⟨-, -, hpre⟩ := hnodup
      have hbefore : ∀ r ∈ pre, r.1 ≠ n := fun r hr => hpre _ ⟨r, hr, rfl⟩ _ (Or.inl rfl)
      have hrest : F.transit pre { c with hand := Function.update c.hand n none } =
          F.transit pre c :=
        transit_congr fun r hr => station_congr (Function.update_of_ne (hbefore r hr) _ _) rfl rfl
      rw [transit_append, transit_append, hrest]
      simp [transit, station, ho, ← List.append_assoc, ← pick_append]

/-- INTERNAL: **a step along a path keeps the order**: what goes out and what is then on the path
is, in this order, of what was on the path and what comes in. -/
theorem transit_step {p₀ port : ν × ι} {path : List (ν × ι)} {c c' : Contents ν ι φ ω}
    {h : Happening ν ι φ ω} (hpath : F.Path (p₀ :: path)) (hexit : F.Exits (p₀ :: path) port)
    (hc : F.Confined {p | p ∈ p₀ :: path} c) (henter : F.EntersAt {p₀} [h])
    (hs : Move W handle c h c') :
    List.Sublist (F.pick ((departed W [h]).map Prod.snd) ++ F.transit (p₀ :: path) c')
      (F.transit (p₀ :: path) c ++ F.pick ((entered W [h]).map Prod.snd)) := by
  cases hs with
  | enter n i f hpeer =>
      have hfirst : F.kind f = true → (n, i) = p₀ :=
        fun hk => henter ((n, i), f) (by simp [entered, hpeer]) hk
      rw [transit_enter hpath hexit hc hfirst]
      simp [departed, entered, hpeer]
  | arrive n i f rest p hpeer hfl =>
      have hsame : F.transit (p₀ :: path) { c with
          queue := Function.update c.queue (n, i) (c.queue (n, i) ++ [f])
          flight := Function.update c.flight (n, i) rest } = F.transit (p₀ :: path) c := by
        refine transit_congr fun q _ => ?_
        by_cases hq : q = (n, i)
        · subst hq
          simp [station, hfl, F.pick_cons f rest]
        · exact station_congr rfl (Function.update_of_ne hq _ _) (Function.update_of_ne hq _ _)
      rw [hsame]
      simp [departed, entered, hpeer]
  | take n i f rest hq hnone =>
      have hmem : F.kind f = true → (n, i) ∈ p₀ :: path :=
        fun hk => hc.queue (n, i) f (hq ▸ List.mem_cons_self) hk
      have hout : F.kind f = true → handle n i f ≠ none :=
        fun hk hd => hpath.out_of_exits hexit (hmem hk) (F.out_of_dropped hk hd)
      rw [transit_take hpath hmem hout hq hnone]
      simp [departed, entered]
  | send n o p ho hpeer =>
      have hsame : F.transit (p₀ :: path) { c with
          hand := Function.update c.hand n none
          flight := Function.update c.flight p (c.flight p ++ [W.frame o]) } =
            F.transit (p₀ :: path) c := by
        by_cases hk : F.kind (W.frame o) = true
        · obtain ⟨⟨i, hmem⟩, hout⟩ := hc.hand n o ho hk
          have hnext : F.next n = some p := by simp [next, hout, hpeer]
          exact transit_send hpath hexit hmem hnext ho
        · refine transit_congr fun q _ => ?_
          have hhands : F.pick ((Function.update c.hand n none q.1).toList.map W.frame) =
              F.pick ((c.hand q.1).toList.map W.frame) := by
            by_cases hqn : q.1 = n
            · rw [hqn, Function.update_self, ho]
              exact (F.pick_of_not_kind hk).symm
            · rw [Function.update_of_ne hqn]
          have hflights : F.pick (Function.update c.flight p (c.flight p ++ [W.frame o]) q) =
              F.pick (c.flight q) := by
            by_cases hq : q = p
            · rw [hq, Function.update_self, F.pick_append, F.pick_of_not_kind hk, List.append_nil]
            · rw [Function.update_of_ne hq]
          unfold station
          rw [hhands, hflights]
      rw [hsame]
      simp [departed, entered, hpeer]
  | depart n o ho hpeer =>
      have hsame : F.pick [W.frame o] ++ F.transit (p₀ :: path)
          { c with hand := Function.update c.hand n none } = F.transit (p₀ :: path) c := by
        by_cases hk : F.kind (W.frame o) = true
        · obtain ⟨⟨i, hmem⟩, hout⟩ := hc.hand n o ho hk
          exact transit_depart hpath hmem (by simp [next, hout, hpeer]) ho
        · rw [F.pick_of_not_kind hk, List.nil_append]
          refine transit_congr fun q _ => ?_
          by_cases hqn : q.1 = n
          · simp [station, hqn, ho, F.pick_of_not_kind hk]
          · exact station_congr (Function.update_of_ne hqn _ _) rfl rfl
      have hdeparted : F.pick ((departed W [.node n (.send o)]).map Prod.snd) =
          F.pick [W.frame o] := by
        simp [departed, hpeer]
      rw [hdeparted, hsame]
      simp [entered]
  | lose p f rest hfl =>
      have hless : List.Sublist (F.transit (p₀ :: path)
          { c with flight := Function.update c.flight p rest }) (F.transit (p₀ :: path) c) := by
        refine List.Sublist.flatMap_right _ fun q _ => ?_
        by_cases hq : q = p
        · subst hq
          simp [station, hfl, F.pick_cons f rest]
        · have hstation : F.station { c with flight := Function.update c.flight p rest } q =
              F.station c q := station_congr rfl rfl (Function.update_of_ne hq _ _)
          rw [hstation]
      simpa [departed, entered] using hless

end Order

/-! ## What becomes of a flow -/

section Fates

variable [DecidableEq ν] [DecidableEq ι] [DecidableEq φ] [DecidableEq ω]

/-- INTERNAL: where a flow goes out of a closed region, and that it does so in its normal
form. -/
theorem departed_at {region : Set (ν × ι)} (hclosed : F.Closed region)
    {hs : List (Happening ν ι φ ω)} {s : NetState ν ι φ (Forwarder ι φ ω)}
    (hrun : (fabric W handle).Run hs s) (henter : F.EntersAt region hs) :
    (∀ n o, s.contents.hand n = some o → F.norm (W.frame o) = W.frame o) ∧
      ∀ x ∈ departed W hs, F.norm x.2 = x.2 ∧ (F.kind x.2 = true →
        (∃ i, (x.1.1, i) ∈ region) ∧ F.out x.1.1 = some x.1.2 ∧ W.peer x.1 = none) := by
  refine (fabric W handle).run_invariant (fun hs s => F.EntersAt region hs →
    (∀ n o, s.contents.hand n = some o → F.norm (W.frame o) = W.frame o) ∧
      ∀ x ∈ departed W hs, F.norm x.2 = x.2 ∧ (F.kind x.2 = true →
        (∃ i, (x.1.1, i) ∈ region) ∧ F.out x.1.1 = some x.1.2 ∧ W.peer x.1 = none))
    (fun _ => ⟨nofun, nofun⟩) ?_ hs s hrun henter
  intro hs s h s' hr ih hstep henter
  obtain ⟨hnorm, hbefore⟩ := ih henter.left
  have hconfined := F.confined hclosed hr henter.left
  have hmove := move_of_step hstep
  have happend : departed W (hs ++ [h]) = departed W hs ++ departed W [h] := by
    simp [departed]
  rw [happend]
  generalize s'.contents = c' at hmove ⊢
  cases hmove with
  | enter n i f hpeer => exact ⟨hnorm, by simpa [departed] using hbefore⟩
  | arrive n i f rest p hpeer hfl => exact ⟨hnorm, by simpa [departed] using hbefore⟩
  | take n i f rest hq hnone =>
      refine ⟨?_, by simpa [departed] using hbefore⟩
      intro m o ho
      rcases hand_update ho with ⟨rfl, ho⟩ | ho
      · rw [F.frame_handle _ _ _ _ ho, F.norm_norm]
      · exact hnorm m o ho
  | send n o p ho hpeer =>
      refine ⟨?_, by simpa [departed, hpeer] using hbefore⟩
      intro m o' ho'
      rcases hand_update ho' with ⟨-, ho'⟩ | ho'
      · cases ho'
      · exact hnorm m o' ho'
  | depart n o ho hpeer =>
      refine ⟨?_, ?_⟩
      · intro m o' ho'
        rcases hand_update ho' with ⟨-, ho'⟩ | ho'
        · cases ho'
        · exact hnorm m o' ho'
      · intro x hx
        rcases List.mem_append.mp hx with hx | hx
        · exact hbefore x hx
        · obtain rfl : x = ((n, W.outPort o), W.frame o) := by simpa [departed, hpeer] using hx
          refine ⟨hnorm n o ho, fun hk => ?_⟩
          obtain ⟨hmem, hout⟩ := hconfined.hand n o ho hk
          exact ⟨hmem, hout, hpeer⟩
  | lose p f rest hfl => exact ⟨hnorm, by simpa [departed] using hbefore⟩

/-- INTERNAL: a flow is dropped in a closed region by a node that drops it. -/
theorem discarded_at {region : Set (ν × ι)} (hclosed : F.Closed region)
    {hs : List (Happening ν ι φ ω)} {s : NetState ν ι φ (Forwarder ι φ ω)}
    (hrun : (fabric W handle).Run hs s) (henter : F.EntersAt region hs) :
    ∀ f ∈ discarded handle hs, F.kind f = true → ∃ p ∈ region, F.out p.1 = none := by
  refine (fabric W handle).run_invariant (fun hs _ => F.EntersAt region hs →
    ∀ f ∈ discarded handle hs, F.kind f = true → ∃ p ∈ region, F.out p.1 = none)
    (fun _ => nofun) ?_ hs s hrun henter
  intro hs s h s' hr ih hstep henter f hf hk
  have hconfined := F.confined hclosed hr henter.left
  have hmove := move_of_step hstep
  have happend : discarded handle (hs ++ [h]) = discarded handle hs ++ discarded handle [h] := by
    simp [discarded]
  rw [happend] at hf
  rcases List.mem_append.mp hf with hf | hf
  · exact ih henter.left f hf hk
  · generalize s'.contents = c' at hmove
    cases hmove with
    | take n i g rest hq hnone =>
        simp only [discarded, List.filterMap_cons, List.filterMap_nil] at hf
        cases hd : handle n i g with
        | some o => simp [hd] at hf
        | none =>
            obtain rfl : f = g := by simpa [hd] using hf
            have hmem : (n, i) ∈ region :=
              hconfined.queue (n, i) f (hq ▸ List.mem_cons_self) hk
            exact ⟨(n, i), hmem, F.out_of_dropped hk hd⟩
    | _ => simp [discarded] at hf

omit [DecidableEq φ] [DecidableEq ω] in
/-- INTERNAL: what is on a path is what is inside of it. -/
theorem transit_eq_inside {path : List (ν × ι)} (hpath : F.Path path) (c : Contents ν ι φ ω) :
    (F.transit path c : Multiset φ) = F.inside path.toFinset c := by
  have himage : path.toFinset.image Prod.fst = (path.map Prod.fst).toFinset := by
    ext n
    simp
  have hnodup : path.Nodup := List.Nodup.of_map Prod.fst hpath.nodup
  rw [inside, himage, List.sum_toFinset _ hpath.nodup, List.sum_toFinset _ hnodup,
    List.sum_toFinset _ hnodup, List.map_map]
  clear hpath hnodup himage
  induction path with
  | nil => rfl
  | cons p path ih =>
      rw [transit_cons, ← Multiset.coe_add, ih]
      simp only [station, List.map_cons, List.sum_cons, ← Multiset.coe_add, Function.comp_apply]
      abel

/-- INTERNAL: the frames of the flow among those that have gone out are in their normal form. -/
theorem pick_departed {region : Set (ν × ι)} (hclosed : F.Closed region)
    {hs : List (Happening ν ι φ ω)} {s : NetState ν ι φ (Forwarder ι φ ω)}
    (hrun : (fabric W handle).Run hs s) (henter : F.EntersAt region hs) :
    F.pick ((departed W hs).map Prod.snd) = ((departed W hs).map Prod.snd).filter F.kind := by
  obtain ⟨-, hdeparted⟩ := departed_at hclosed hrun henter
  unfold pick
  refine (List.map_congr_left fun f hf => ?_).trans (List.map_id _)
  obtain ⟨x, hx, rfl⟩ := List.mem_map.mp (List.mem_of_mem_filter hf)
  exact (hdeparted x hx).1

/-- INTERNAL: the flow, in its order, along a path out of the network. -/
theorem in_order {p₀ port : ν × ι} {path : List (ν × ι)} (hpath : F.Path (p₀ :: path))
    (hexit : F.Exits (p₀ :: path) port) {hs : List (Happening ν ι φ ω)}
    {s : NetState ν ι φ (Forwarder ι φ ω)} (hrun : (fabric W handle).Run hs s)
    (henter : F.EntersAt {p₀} hs) :
    List.Sublist
      (F.pick ((departed W hs).map Prod.snd) ++ F.transit (p₀ :: path) s.contents)
      (F.pick ((entered W hs).map Prod.snd)) := by
  have hwithin : ∀ {hs}, F.EntersAt {p₀} hs → F.EntersAt {p | p ∈ p₀ :: path} hs :=
    fun h x hx hk => (h x hx hk : x.1 = p₀) ▸ List.mem_cons_self
  refine (fabric W handle).run_invariant (fun hs s => F.EntersAt {p₀} hs → List.Sublist
    (F.pick ((departed W hs).map Prod.snd) ++ F.transit (p₀ :: path) s.contents)
    (F.pick ((entered W hs).map Prod.snd))) ?_ ?_ hs s hrun henter
  · intro _
    have hempty : F.transit (p₀ :: path) (fabric W handle).init.contents = [] := by
      unfold transit
      exact List.flatMap_eq_nil_iff.mpr fun p _ => rfl
    rw [hempty]
    exact List.nil_sublist _
  · intro hs s h s' hr ih hstep henter
    have hstep' := transit_step hpath hexit
      (F.confined (hpath.closed fun _ => next_of_exits hexit) hr (hwithin henter.left)) henter.right
      (move_of_step hstep)
    have hbefore := ih henter.left
    simp only [entered, departed, List.filterMap_append, List.map_append, pick_append]
      at hbefore hstep' ⊢
    rw [List.append_assoc]
    refine (hstep'.append_left _).trans ?_
    rw [← List.append_assoc]
    exact hbefore.append_right _

/-- **A flow that is led out of the network** comes out at the end of its path and nowhere else,
in the order in which it came in.  What has come in has come out, is on the path, or was lost on a
wire. -/
theorem fate_of_exits {p₀ port : ν × ι} {path : List (ν × ι)} (hpath : F.Path (p₀ :: path))
    (hexit : F.Exits (p₀ :: path) port) {hs : List (Happening ν ι φ ω)}
    {s : NetState ν ι φ (Forwarder ι φ ω)} (hrun : (fabric W handle).Run hs s)
    (henter : F.EntersAt {p₀} hs) :
    List.Sublist
        (((departed W hs).map Prod.snd).filter F.kind ++ F.transit (p₀ :: path) s.contents)
        (F.pick ((entered W hs).map Prod.snd)) ∧
      (F.pick ((entered W hs).map Prod.snd)).Perm
        (((departed W hs).map Prod.snd).filter F.kind ++ F.pick (lost hs) ++
          F.transit (p₀ :: path) s.contents) ∧
      ∀ x ∈ departed W hs, F.kind x.2 = true → x.1 = port := by
  have hclosed := hpath.closed fun _ => next_of_exits hexit
  have hwithin : F.EntersAt {p | p ∈ p₀ :: path} hs :=
    fun x hx hk => (henter x hx hk : x.1 = p₀) ▸ List.mem_cons_self
  rw [← pick_departed hclosed hrun hwithin]
  refine ⟨in_order hpath hexit hrun henter, ?_, ?_⟩
  · have hcoe : (↑(p₀ :: path).toFinset : Set (ν × ι)) = {p | p ∈ p₀ :: path} :=
      List.coe_toFinset _
    have haccount := F.account (hcoe ▸ hclosed) hrun (hcoe ▸ hwithin)
    have hdropped : F.pick (discarded handle hs) = [] := by
      refine pick_eq_nil fun f hf hk => ?_
      obtain ⟨p, hp, hout⟩ := discarded_at hclosed hrun hwithin f hf hk
      exact hpath.out_of_exits hexit hp hout
    rw [Accounted, hdropped, Multiset.coe_nil, add_zero, ← transit_eq_inside hpath,
      Multiset.coe_add, Multiset.coe_add] at haccount
    exact Multiset.coe_eq_coe.mp haccount
  · intro x hx hk
    obtain ⟨⟨i, hmem⟩, hout, hpeer⟩ := ((departed_at hclosed hrun hwithin).2 x hx).2 hk
    have hnext : F.next x.1.1 = none := by simp [next, hout, hpeer]
    rcases hpath.next_mem hmem with hlast | ⟨r, -, hnext'⟩
    · obtain ⟨p, hp, hnode, hout', -⟩ := hexit
      obtain rfl := Option.mem_unique hp hlast
      have hnode' : x.1.1 = port.1 := hnode
      rw [hnode', hout'] at hout
      exact Prod.ext hnode' (Option.some.inj hout).symm
    · rw [hnext] at hnext'
      cases hnext'

/-- **A flow that is led to a node that drops it** never comes out.  What has come in was dropped,
was lost on a wire, or is on the path. -/
theorem fate_of_drops {path : List (ν × ι)} (hpath : F.Path path) (hdrops : F.Drops path)
    {hs : List (Happening ν ι φ ω)} {s : NetState ν ι φ (Forwarder ι φ ω)}
    (hrun : (fabric W handle).Run hs s) (henter : F.EntersAt {p | p ∈ path} hs) :
    (∀ x ∈ departed W hs, ¬ F.kind x.2 = true) ∧
      (F.pick ((entered W hs).map Prod.snd)).Perm
        (F.pick (discarded handle hs) ++ F.pick (lost hs) ++ F.transit path s.contents) := by
  have hclosed := hpath.closed fun _ => next_of_drops hdrops
  have hnever : ∀ x ∈ departed W hs, ¬ F.kind x.2 = true := by
    intro x hx hk
    obtain ⟨⟨i, hmem⟩, hout, hpeer⟩ := ((departed_at hclosed hrun henter).2 x hx).2 hk
    rcases hpath.next_mem hmem with hlast | ⟨r, -, hnext⟩
    · obtain ⟨p, hp, hnone⟩ := hdrops
      obtain rfl := Option.mem_unique hp hlast
      rw [show F.out x.1.1 = none from hnone] at hout
      cases hout
    · simp [next, hout, hpeer] at hnext
  refine ⟨hnever, ?_⟩
  have hcoe : (↑path.toFinset : Set (ν × ι)) = {p | p ∈ path} := List.coe_toFinset _
  have haccount := F.account (hcoe ▸ hclosed) hrun (hcoe ▸ henter)
  have hnothing : F.pick ((departed W hs).map Prod.snd) = [] := by
    refine pick_eq_nil fun f hf => ?_
    obtain ⟨x, hx, rfl⟩ := List.mem_map.mp hf
    exact hnever x hx
  rw [Accounted, hnothing, Multiset.coe_nil, zero_add, ← transit_eq_inside hpath,
    Multiset.coe_add, Multiset.coe_add] at haccount
  exact Multiset.coe_eq_coe.mp haccount

/-- **A flow that is led in a circle** never comes out, and no node drops it.  What has come in
was lost on a wire, or is still inside. -/
theorem fate_of_returns {path : List (ν × ι)} {port : ν × ι} (hpath : F.Path path)
    (hreturns : F.Returns path port) {hs : List (Happening ν ι φ ω)}
    {s : NetState ν ι φ (Forwarder ι φ ω)} (hrun : (fabric W handle).Run hs s)
    (henter : F.EntersAt {p | p ∈ port :: path} hs) :
    (∀ x ∈ departed W hs, ¬ F.kind x.2 = true) ∧ (∀ f ∈ discarded handle hs, ¬ F.kind f = true) ∧
      (F.pick ((entered W hs).map Prod.snd) : Multiset φ) =
        F.pick (lost hs) + F.inside (port :: path).toFinset s.contents := by
  have hclosed := hpath.closed_of_returns hreturns
  have hnext : ∀ p ∈ port :: path, F.next p.1 ≠ none := by
    have honPath : ∀ p ∈ path, F.next p.1 ≠ none := by
      intro p hp hnone
      rcases hpath.next_mem hp with hlast | ⟨r, -, hnext⟩
      · obtain ⟨⟨p', hp', hport⟩, -⟩ := hreturns
        rw [Option.mem_unique hlast hp', hport] at hnone
        cases hnone
      · rw [hnext] at hnone
        cases hnone
    intro p hp
    rcases List.mem_cons.mp hp with rfl | hp
    · obtain ⟨p', hp', hsame⟩ := List.mem_map.mp hreturns.2
      rw [← hsame]
      exact honPath p' hp'
    · exact honPath p hp
  have hnever : ∀ x ∈ departed W hs, ¬ F.kind x.2 = true := by
    intro x hx hk
    obtain ⟨⟨i, hmem⟩, hout, hpeer⟩ := ((departed_at hclosed hrun henter).2 x hx).2 hk
    exact hnext _ hmem (by simp [next, hout, hpeer])
  have hnotDropped : ∀ f ∈ discarded handle hs, ¬ F.kind f = true := by
    intro f hf hk
    obtain ⟨p, hp, hout⟩ := discarded_at hclosed hrun henter f hf hk
    exact hnext p hp (by simp [next, hout])
  refine ⟨hnever, hnotDropped, ?_⟩
  have hcoe : (↑(port :: path).toFinset : Set (ν × ι)) = {p | p ∈ port :: path} :=
    List.coe_toFinset _
  have haccount := F.account (hcoe ▸ hclosed) hrun (hcoe ▸ henter)
  have hnothing : F.pick ((departed W hs).map Prod.snd) = [] := by
    refine pick_eq_nil fun f hf => ?_
    obtain ⟨x, hx, rfl⟩ := List.mem_map.mp hf
    exact hnever x hx
  rwa [Accounted, hnothing, pick_eq_nil hnotDropped, Multiset.coe_nil, zero_add,
    zero_add] at haccount

end Fates

end Flow

end Library
