import Mathlib.Algebra.BigOperators.Group.Finset.Basic
import Mathlib.Algebra.Order.Group.Multiset
import Mathlib.Data.Finset.Card
import Mathlib.Tactic.Abel
import VtRouter.Library.Network

/-!
# Flows through a network

A flow is a kind of frames that every node treats alike: a node sends all of them out of one
port, or drops them all, whatever port they came in by (`Flow.out`).  On the way a frame may be
cut down to a normal form (`norm`), once and for all.

Where the nodes send a flow decides what becomes of it.  In a region that the flow never leaves
by itself (`Closed`) everything that has entered is accounted for (`account`): it has departed,
was dropped, was lost on a wire, or is still inside.
-/

set_option autoImplicit false

namespace Library

variable {ν ι φ ω : Type}

/-! ## Histories -/

/-- What has come in from outside, with the port. -/
def entered (W : Wiring ν ι φ ω) : List (Happening ν ι φ ω) → List ((ν × ι) × φ) :=
  List.filterMap fun h => match h with
    | .node n (.arrive i f) => if (W.peer (n, i)).isNone then some ((n, i), f) else none
    | _ => none

/-- What has gone out of the network, with the port. -/
def departed (W : Wiring ν ι φ ω) : List (Happening ν ι φ ω) → List ((ν × ι) × φ) :=
  List.filterMap fun h => match h with
    | .node n (.send o) =>
        if (W.peer (n, W.outPort o)).isNone then some ((n, W.outPort o), W.frame o) else none
    | _ => none

/-- What nodes have taken and sent nothing for. -/
def discarded (handle : ν → ι → φ → Option ω) : List (Happening ν ι φ ω) → List φ :=
  List.filterMap fun h => match h with
    | .node n (.take i f) => if (handle n i f).isNone then some f else none
    | _ => none

/-- What was lost on the wires. -/
def lost : List (Happening ν ι φ ω) → List φ :=
  List.filterMap fun h => match h with
    | .lose _ f => some f
    | _ => none

/-! ## Networks of forwarders -/

section Fabric

variable [DecidableEq ν] [DecidableEq ι] [DecidableEq φ] [DecidableEq ω]

/-- The network of the forwarders `handle`. -/
def fabric (W : Wiring ν ι φ ω) (handle : ν → ι → φ → Option ω) :
    LTS (NetState ν ι φ (Forwarder ι φ ω)) (Happening ν ι φ ω) :=
  network W (fun n => forwarder (handle n)) fun e => [e]

/-- What a network of forwarders holds: in the queues, in the hands of the nodes, and on the
wires. -/
structure Contents (ν ι φ ω : Type) where
  queue : ν × ι → List φ
  hand : ν → Option ω
  flight : ν × ι → List φ

def NetState.contents (s : NetState ν ι φ (Forwarder ι φ ω)) : Contents ν ι φ ω :=
  ⟨fun p => (s.node p.1).queue p.2, fun n => (s.node n).inHand, s.flight⟩

/-- How a step moves what the network holds. -/
inductive Move (W : Wiring ν ι φ ω) (handle : ν → ι → φ → Option ω) (c : Contents ν ι φ ω) :
    Happening ν ι φ ω → Contents ν ι φ ω → Prop
  | enter (n : ν) (i : ι) (f : φ) (hpeer : W.peer (n, i) = none) :
      Move W handle c (.node n (.arrive i f))
        { c with queue := Function.update c.queue (n, i) (c.queue (n, i) ++ [f]) }
  | arrive (n : ν) (i : ι) (f : φ) (rest : List φ) (p : ν × ι) (hpeer : W.peer (n, i) = some p)
      (hflight : c.flight (n, i) = f :: rest) :
      Move W handle c (.node n (.arrive i f))
        { c with
          queue := Function.update c.queue (n, i) (c.queue (n, i) ++ [f])
          flight := Function.update c.flight (n, i) rest }
  | take (n : ν) (i : ι) (f : φ) (rest : List φ) (hqueue : c.queue (n, i) = f :: rest)
      (hhand : c.hand n = none) :
      Move W handle c (.node n (.take i f))
        { c with
          queue := Function.update c.queue (n, i) rest
          hand := Function.update c.hand n (handle n i f) }
  | send (n : ν) (o : ω) (p : ν × ι) (hhand : c.hand n = some o)
      (hpeer : W.peer (n, W.outPort o) = some p) :
      Move W handle c (.node n (.send o))
        { c with
          hand := Function.update c.hand n none
          flight := Function.update c.flight p (c.flight p ++ [W.frame o]) }
  | depart (n : ν) (o : ω) (hhand : c.hand n = some o) (hpeer : W.peer (n, W.outPort o) = none) :
      Move W handle c (.node n (.send o)) { c with hand := Function.update c.hand n none }
  | lose (p : ν × ι) (f : φ) (rest : List φ) (hflight : c.flight p = f :: rest) :
      Move W handle c (.lose p f) { c with flight := Function.update c.flight p rest }

omit [DecidableEq φ] [DecidableEq ω] in
/-- INTERNAL: a step of one node, in what the network holds. -/
theorem contents_node (s : NetState ν ι φ (Forwarder ι φ ω)) (n : ν) (i : ι) (q : List φ)
    (hand : Option ω) (flight : ν × ι → List φ) :
    NetState.contents ⟨Function.update s.node n ⟨Function.update (s.node n).queue i q, hand⟩, flight⟩ =
      ⟨Function.update s.contents.queue (n, i) q, Function.update s.contents.hand n hand,
        flight⟩ := by
  unfold NetState.contents
  congr 1
  · funext ⟨m, j⟩
    by_cases hm : m = n
    · subst hm
      by_cases hj : j = i
      · subst hj
        simp
      · simp [hj]
    · simp [hm]
  · funext m
    by_cases hm : m = n
    · subst hm
      simp
    · simp [Function.update_of_ne hm]

omit [DecidableEq ι] [DecidableEq φ] [DecidableEq ω] in
/-- INTERNAL: the same for a step that only empties the hand. -/
theorem contents_hand (s : NetState ν ι φ (Forwarder ι φ ω)) (n : ν) (hand : Option ω)
    (flight : ν × ι → List φ) :
    NetState.contents ⟨Function.update s.node n { s.node n with inHand := hand }, flight⟩ =
      ⟨s.contents.queue, Function.update s.contents.hand n hand, flight⟩ := by
  unfold NetState.contents
  congr 1
  · funext ⟨m, j⟩
    by_cases hm : m = n
    · subst hm
      simp
    · simp [Function.update_of_ne hm]
  · funext m
    by_cases hm : m = n
    · subst hm
      simp
    · simp [Function.update_of_ne hm]

/-- INTERNAL: **inversion of the network's steps.** -/
theorem move_of_step {W : Wiring ν ι φ ω} {handle : ν → ι → φ → Option ω}
    {s s' : NetState ν ι φ (Forwarder ι φ ω)} {h : Happening ν ι φ ω}
    (hs : (fabric W handle).step s h = some s') : Move W handle s.contents h s'.contents := by
  rcases networkStep_cases hs with
    ⟨n, e, x, flight, rfl, hx, hcarry, rfl⟩ | ⟨p, f, rest, rfl, hp, rfl⟩
  · have hevent : carryEvent W n s.flight e = some flight := by
      simpa [carry] using hcarry
    have hforward : forward (handle n) (s.node n) e = some x := hx
    rcases forward_cases hforward with
      ⟨i, f, rfl, rfl⟩ | ⟨i, f, rest, rfl, hq, hnone, rfl⟩ | ⟨o, rfl, ho, rfl⟩
    · rw [contents_node]
      have hhand : Function.update s.contents.hand n (s.node n).inHand = s.contents.hand :=
        Function.update_eq_self n _
      rw [hhand]
      simp only [carryEvent] at hevent
      split at hevent
      · rename_i hpeer
        cases hevent
        exact .enter n i f hpeer
      · rename_i p g rest hpeer hflight
        split at hevent
        · rename_i hfg
          subst hfg
          cases hevent
          exact .arrive n i f rest p hpeer hflight
        · cases hevent
      · cases hevent
    · cases hevent
      rw [contents_node]
      exact .take n i f rest hq hnone
    · rw [contents_hand]
      simp only [carryEvent] at hevent
      split at hevent
      · rename_i p hpeer
        cases hevent
        exact .send n o p ho hpeer
      · rename_i hpeer
        cases hevent
        exact .depart n o ho hpeer
  · exact .lose p f rest hp

end Fabric

/-! ## Flows -/

/-- A kind of frames that every node treats alike.  `out n` is the port at which node `n` sends
them out, `none` where it drops them; `norm` is what sending does to a frame. -/
structure Flow (W : Wiring ν ι φ ω) (handle : ν → ι → φ → Option ω) where
  kind : φ → Bool
  norm : φ → φ
  out : ν → Option ι
  norm_norm : ∀ f, norm (norm f) = norm f
  kind_norm : ∀ f, kind (norm f) = kind f
  frame_handle : ∀ n i f o, handle n i f = some o → W.frame o = norm f
  out_handle : ∀ n i f, kind f = true → (handle n i f).map W.outPort = out n

namespace Flow

variable {W : Wiring ν ι φ ω} {handle : ν → ι → φ → Option ω} (F : Flow W handle)

/-- The port at which the flow arrives next, once a node has sent it. -/
def next (n : ν) : Option (ν × ι) := (F.out n).bind fun o => W.peer (n, o)

/-- The frames of the flow in a list, in their normal form. -/
def pick (fs : List φ) : List φ := (fs.filter F.kind).map F.norm

@[simp] theorem pick_nil : F.pick [] = [] := rfl

@[simp] theorem pick_append (fs gs : List φ) : F.pick (fs ++ gs) = F.pick fs ++ F.pick gs := by
  simp [pick]

theorem pick_cons (f : φ) (fs : List φ) : F.pick (f :: fs) = F.pick [f] ++ F.pick fs :=
  F.pick_append [f] fs

theorem pick_of_kind {f : φ} (h : F.kind f = true) : F.pick [f] = [F.norm f] := by
  simp [pick, h]

theorem pick_of_not_kind {f : φ} (h : ¬ F.kind f = true) : F.pick [f] = [] := by
  simp [pick, h]

/-- INTERNAL: only a frame of the flow counts. -/
theorem kind_of_pick {f : φ} (h : (F.pick [f] : Multiset φ) ≠ 0) : F.kind f = true := by
  by_contra hk
  rw [F.pick_of_not_kind hk] at h
  exact h rfl

/-- INTERNAL: a node that sends something has an output port, one that does not has none. -/
theorem out_of_handle {n : ν} {i : ι} {f : φ} {o : ω} (hk : F.kind f = true)
    (h : handle n i f = some o) : F.out n = some (W.outPort o) := by
  rw [← F.out_handle n i f hk, h]
  rfl

theorem out_of_dropped {n : ν} {i : ι} {f : φ} (hk : F.kind f = true)
    (h : handle n i f = none) : F.out n = none := by
  rw [← F.out_handle n i f hk, h]
  rfl

/-- INTERNAL: what is sent for a frame is of the flow iff the frame is. -/
theorem kind_handle {n : ν} {i : ι} {f : φ} {o : ω} (h : handle n i f = some o) :
    F.kind (W.frame o) = F.kind f := by
  rw [F.frame_handle n i f o h, F.kind_norm]

/-- INTERNAL: and is the same frame in normal form. -/
theorem pick_handle {n : ν} {i : ι} {f : φ} {o : ω} (h : handle n i f = some o) :
    F.pick [W.frame o] = F.pick [f] := by
  by_cases hk : F.kind f = true
  · rw [F.pick_of_kind hk, F.pick_of_kind ((F.kind_handle h).trans hk), F.frame_handle n i f o h,
      F.norm_norm]
  · have hk' : ¬ F.kind (W.frame o) = true := by rwa [F.kind_handle h]
    rw [F.pick_of_not_kind hk, F.pick_of_not_kind hk']

/-! ### Where the flow is -/

/-- The flow does not leave the region by itself, except out of the network. -/
def Closed (region : Set (ν × ι)) : Prop := ∀ p ∈ region, ∀ q, F.next p.1 = some q → q ∈ region

/-- The flow comes in from outside at ports of the region only. -/
def EntersAt (region : Set (ν × ι)) (hs : List (Happening ν ι φ ω)) : Prop :=
  ∀ x ∈ entered W hs, F.kind x.2 = true → x.1 ∈ region

/-- Everything of the flow is in the region; on the wires it is where a node of the region has
sent it. -/
structure Confined (region : Set (ν × ι)) (c : Contents ν ι φ ω) : Prop where
  queue : ∀ p, ∀ f ∈ c.queue p, F.kind f = true → p ∈ region
  hand : ∀ n o, c.hand n = some o → F.kind (W.frame o) = true →
    (∃ i, (n, i) ∈ region) ∧ F.out n = some (W.outPort o)
  flight : ∀ p, ∀ f ∈ c.flight p, F.kind f = true → ∃ q ∈ region, F.next q.1 = some p

theorem EntersAt.left {region : Set (ν × ι)} {hs hs' : List (Happening ν ι φ ω)}
    (h : F.EntersAt region (hs ++ hs')) : F.EntersAt region hs := by
  intro x hx
  apply h
  rw [entered, List.filterMap_append]
  exact List.mem_append_left _ hx

theorem EntersAt.right {region : Set (ν × ι)} {hs hs' : List (Happening ν ι φ ω)}
    (h : F.EntersAt region (hs ++ hs')) : F.EntersAt region hs' := by
  intro x hx
  apply h
  rw [entered, List.filterMap_append]
  exact List.mem_append_right _ hx

/-- INTERNAL: what is somewhere after a change is what the change put there, or was there. -/
theorem mem_update {κ : Type} [DecidableEq κ] {g : κ → List φ} {k j : κ} {l : List φ} {f : φ}
    (hf : f ∈ Function.update g k l j) : (j = k ∧ f ∈ l) ∨ f ∈ g j := by
  by_cases hj : j = k
  · subst hj
    exact Or.inl ⟨rfl, by simpa using hf⟩
  · exact Or.inr (by simpa [Function.update_of_ne hj] using hf)

/-- INTERNAL: the same for what is in a hand. -/
theorem hand_update [DecidableEq ν] {g : ν → Option ω} {n m : ν} {x : Option ω} {o : ω}
    (ho : Function.update g n x m = some o) : (m = n ∧ x = some o) ∨ g m = some o := by
  by_cases hm : m = n
  · subst hm
    exact Or.inl ⟨rfl, by simpa using ho⟩
  · exact Or.inr (by simpa [Function.update_of_ne hm] using ho)

/-- INTERNAL: **a step keeps the flow in a closed region**, if it enters there. -/
theorem confined_step [DecidableEq ν] [DecidableEq ι] {region : Set (ν × ι)} {c c' : Contents ν ι φ ω} {h : Happening ν ι φ ω}
    (hclosed : F.Closed region) (hc : F.Confined region c) (henter : F.EntersAt region [h])
    (hs : Move W handle c h c') : F.Confined region c' := by
  obtain ⟨hqueue, hhand, hflight⟩ := hc
  cases hs with
  | enter n i f hpeer =>
      refine ⟨?_, hhand, hflight⟩
      intro p g hg hk
      rcases mem_update hg with ⟨rfl, hg'⟩ | hg'
      · rcases List.mem_append.mp hg' with hg' | hg'
        · exact hqueue _ g hg' hk
        · rw [List.mem_singleton] at hg'
          subst hg'
          exact henter ((n, i), g) (by simp [entered, hpeer]) hk
      · exact hqueue p g hg' hk
  | arrive n i f rest p hpeer hfl =>
      refine ⟨?_, hhand, ?_⟩
      · intro q g hg hk
        rcases mem_update hg with ⟨rfl, hg'⟩ | hg'
        · rcases List.mem_append.mp hg' with hg' | hg'
          · exact hqueue _ g hg' hk
          · rw [List.mem_singleton] at hg'
            subst hg'
            obtain ⟨q, hq, hnext⟩ := hflight (n, i) g (hfl ▸ List.mem_cons_self) hk
            exact hclosed q hq _ hnext
        · exact hqueue q g hg' hk
      · intro q g hg hk
        rcases mem_update hg with ⟨rfl, hg'⟩ | hg'
        · exact hflight _ g (hfl ▸ List.mem_cons_of_mem f hg') hk
        · exact hflight q g hg' hk
  | take n i f rest hq hnone =>
      refine ⟨?_, ?_, hflight⟩
      · intro p g hg hk
        rcases mem_update hg with ⟨rfl, hg'⟩ | hg'
        · exact hqueue _ g (hq ▸ List.mem_cons_of_mem f hg') hk
        · exact hqueue p g hg' hk
      · intro m o ho hk
        rcases hand_update ho with ⟨rfl, ho⟩ | ho
        · have hkf : F.kind f = true := (F.kind_handle ho).symm.trans hk
          exact ⟨⟨i, hqueue (m, i) f (hq ▸ List.mem_cons_self) hkf⟩, F.out_of_handle hkf ho⟩
        · exact hhand m o ho hk
  | send n o p ho hpeer =>
      refine ⟨hqueue, ?_, ?_⟩
      · intro m o' ho' hk
        rcases hand_update ho' with ⟨-, ho'⟩ | ho'
        · cases ho'
        · exact hhand m o' ho' hk
      · intro q g hg hk
        rcases mem_update hg with ⟨rfl, hg'⟩ | hg'
        · rcases List.mem_append.mp hg' with hg' | hg'
          · exact hflight _ g hg' hk
          · rw [List.mem_singleton] at hg'
            subst hg'
            obtain ⟨⟨i, hi⟩, hout⟩ := hhand n o ho hk
            refine ⟨(n, i), hi, ?_⟩
            simp [next, hout, hpeer]
        · exact hflight q g hg' hk
  | depart n o ho hpeer =>
      refine ⟨hqueue, ?_, hflight⟩
      intro m o' ho' hk
      rcases hand_update ho' with ⟨-, ho'⟩ | ho'
      · cases ho'
      · exact hhand m o' ho' hk
  | lose p f rest hfl =>
      refine ⟨hqueue, hhand, ?_⟩
      intro q g hg hk
      rcases mem_update hg with ⟨rfl, hg'⟩ | hg'
      · exact hflight _ g (hfl ▸ List.mem_cons_of_mem f hg') hk
      · exact hflight q g hg' hk

section Regions

variable [DecidableEq ν] [DecidableEq ι] [DecidableEq φ] [DecidableEq ω]

/-- **A flow stays in a closed region.** -/
theorem confined {region : Set (ν × ι)} (hclosed : F.Closed region)
    {hs : List (Happening ν ι φ ω)} {s : NetState ν ι φ (Forwarder ι φ ω)}
    (hrun : (fabric W handle).Run hs s) (henter : F.EntersAt region hs) :
    F.Confined region s.contents := by
  refine (fabric W handle).run_invariant
    (fun hs s => F.EntersAt region hs → F.Confined region s.contents) ?_ ?_ hs s hrun henter
  · intro _
    refine ⟨?_, ?_, ?_⟩
    · intro p f hf
      cases hf
    · intro n o ho
      cases ho
    · intro p f hf
      cases hf
  · intro hs s h s' _ ih hstep henter
    exact F.confined_step hclosed (ih henter.left) henter.right (move_of_step hstep)

/-! ### What becomes of it -/

/-- What is inside of the region: in the hands of its nodes, in the queues of its ports, and in
flight to them. -/
def inside (region : Finset (ν × ι)) (c : Contents ν ι φ ω) : Multiset φ :=
  (∑ n ∈ region.image Prod.fst, (F.pick ((c.hand n).toList.map W.frame) : Multiset φ)) +
    (∑ p ∈ region, (F.pick (c.queue p) : Multiset φ)) +
    ∑ p ∈ region, (F.pick (c.flight p) : Multiset φ)

omit [DecidableEq φ] [DecidableEq ω] [DecidableEq ν] [DecidableEq ι] in
/-- INTERNAL: a sum behind a change at one place. -/
theorem sum_update {κ : Type} [DecidableEq κ] {region : Finset κ} {g g' : κ → Multiset φ} {k : κ}
    {x : Multiset φ} (hoff : ∀ j, j ≠ k → g' j = g j) (hat : g' k = g k + x)
    (hin : x ≠ 0 → k ∈ region) : ∑ j ∈ region, g' j = ∑ j ∈ region, g j + x := by
  by_cases hk : k ∈ region
  · have hrest : ∑ j ∈ region.erase k, g' j = ∑ j ∈ region.erase k, g j :=
      Finset.sum_congr rfl fun j hj => hoff j (Finset.ne_of_mem_erase hj)
    rw [← Finset.add_sum_erase _ _ hk, ← Finset.add_sum_erase _ g hk, hrest, hat]
    abel
  · have hx : x = 0 := by
      by_contra hx
      exact hk (hin hx)
    rw [hx, add_zero]
    exact Finset.sum_congr rfl fun j hj => hoff j fun h => hk (h ▸ hj)

omit [DecidableEq φ] [DecidableEq ω] in
/-- INTERNAL: **a step moves the flow from one place to another:** what comes in and what was
inside has gone out, was dropped or lost, or is inside. -/
theorem balance {region : Finset (ν × ι)} {c c' : Contents ν ι φ ω} {h : Happening ν ι φ ω}
    (hclosed : F.Closed region) (hc : F.Confined region c) (henter : F.EntersAt region [h])
    (hs : Move W handle c h c') :
    (F.pick ((entered W [h]).map Prod.snd) : Multiset φ) + F.inside region c =
      F.pick ((departed W [h]).map Prod.snd) + F.pick (discarded handle [h]) + F.pick (lost [h]) +
        F.inside region c' := by
  obtain ⟨hqueue, hhand, hflight⟩ := hc
  have hnode : ∀ {n i}, (n, i) ∈ region → n ∈ region.image Prod.fst :=
    fun hi => Finset.mem_image_of_mem Prod.fst hi
  cases hs with
  | enter n i f hpeer =>
      have hsum : ∑ p ∈ region, (F.pick (Function.update c.queue (n, i)
          (c.queue (n, i) ++ [f]) p) : Multiset φ) = ∑ p ∈ region, (F.pick (c.queue p) : Multiset φ)
            + F.pick [f] := by
        refine sum_update (k := (n, i)) (fun j hj => by simp [hj]) (by simp) fun hx => ?_
        exact henter ((n, i), f) (by simp [entered, hpeer]) (F.kind_of_pick hx)
      simp only [inside, hsum, entered, departed, discarded, lost]
      simp [hpeer]
      abel
  | arrive n i f rest p hpeer hfl =>
      have hin : (F.pick [f] : Multiset φ) ≠ 0 → (n, i) ∈ region := fun hx => by
        obtain ⟨q, hq, hnext⟩ := hflight (n, i) f (hfl ▸ List.mem_cons_self) (F.kind_of_pick hx)
        exact hclosed q hq _ hnext
      have hqueues : ∑ p ∈ region, (F.pick (Function.update c.queue (n, i)
          (c.queue (n, i) ++ [f]) p) : Multiset φ) = ∑ p ∈ region, (F.pick (c.queue p) : Multiset φ)
            + F.pick [f] :=
        sum_update (k := (n, i)) (fun j hj => by simp [hj]) (by simp) hin
      have hflights : ∑ p ∈ region, (F.pick (c.flight p) : Multiset φ) =
          ∑ p ∈ region, (F.pick (Function.update c.flight (n, i) rest p) : Multiset φ)
            + F.pick [f] := by
        refine sum_update (k := (n, i)) (fun j hj => by simp [hj]) ?_ hin
        rw [hfl, F.pick_cons, Function.update_self, ← Multiset.coe_add, add_comm]
      simp only [inside, hqueues, hflights, entered, departed, discarded, lost]
      simp [hpeer]
      abel
  | take n i f rest hq hnone =>
      have hin : (F.pick [f] : Multiset φ) ≠ 0 → (n, i) ∈ region := fun hx =>
        hqueue (n, i) f (hq ▸ List.mem_cons_self) (F.kind_of_pick hx)
      have hqueues : ∑ p ∈ region, (F.pick (c.queue p) : Multiset φ) =
          ∑ p ∈ region, (F.pick (Function.update c.queue (n, i) rest p) : Multiset φ)
            + F.pick [f] := by
        refine sum_update (k := (n, i)) (fun j hj => by simp [hj]) ?_ hin
        rw [hq, F.pick_cons, Function.update_self, ← Multiset.coe_add, add_comm]
      cases hd : handle n i f with
      | none =>
          have hhands : Function.update c.hand n none = c.hand := by
            rw [← hnone, Function.update_eq_self]
          simp only [inside, hqueues, entered, departed, discarded, lost, hhands]
          simp [hd]
          abel
      | some o =>
          have hhands : ∑ m ∈ region.image Prod.fst,
              (F.pick ((Function.update c.hand n (some o) m).toList.map W.frame) : Multiset φ) =
                ∑ m ∈ region.image Prod.fst, (F.pick ((c.hand m).toList.map W.frame) : Multiset φ)
                  + F.pick [f] := by
            refine sum_update (k := n) (fun j hj => by simp [hj]) ?_ fun hx => hnode (hin hx)
            simp [hnone, F.pick_handle hd]
          simp only [inside, hqueues, hhands, entered, departed, discarded, lost]
          simp [hd]
          abel
  | send n o p ho hpeer =>
      have hhands : ∑ m ∈ region.image Prod.fst,
          (F.pick ((c.hand m).toList.map W.frame) : Multiset φ) =
            ∑ m ∈ region.image Prod.fst,
              (F.pick ((Function.update c.hand n none m).toList.map W.frame) : Multiset φ)
              + F.pick [W.frame o] := by
        refine sum_update (k := n) (fun j hj => by simp [hj]) (by simp [ho]) fun hx => ?_
        obtain ⟨⟨i, hi⟩, -⟩ := hhand n o ho (F.kind_of_pick hx)
        exact hnode hi
      have hflights : ∑ q ∈ region, (F.pick (Function.update c.flight p
          (c.flight p ++ [W.frame o]) q) : Multiset φ) =
            ∑ q ∈ region, (F.pick (c.flight q) : Multiset φ) + F.pick [W.frame o] := by
        refine sum_update (k := p) (fun j hj => by simp [hj]) (by simp) fun hx => ?_
        obtain ⟨⟨i, hi⟩, hout⟩ := hhand n o ho (F.kind_of_pick hx)
        exact hclosed (n, i) hi p (by simp [next, hout, hpeer])
      simp only [inside, hhands, hflights, entered, departed, discarded, lost]
      simp [hpeer]
      abel
  | depart n o ho hpeer =>
      have hhands : ∑ m ∈ region.image Prod.fst,
          (F.pick ((c.hand m).toList.map W.frame) : Multiset φ) =
            ∑ m ∈ region.image Prod.fst,
              (F.pick ((Function.update c.hand n none m).toList.map W.frame) : Multiset φ)
              + F.pick [W.frame o] := by
        refine sum_update (k := n) (fun j hj => by simp [hj]) (by simp [ho]) fun hx => ?_
        obtain ⟨⟨i, hi⟩, -⟩ := hhand n o ho (F.kind_of_pick hx)
        exact hnode hi
      simp only [inside, hhands, entered, departed, discarded, lost]
      simp [hpeer]
      abel
  | lose p f rest hfl =>
      have hflights : ∑ q ∈ region, (F.pick (c.flight q) : Multiset φ) =
          ∑ q ∈ region, (F.pick (Function.update c.flight p rest q) : Multiset φ)
            + F.pick [f] := by
        refine sum_update (k := p) (fun j hj => by simp [hj]) ?_ fun hx => ?_
        · rw [hfl, F.pick_cons, Function.update_self, ← Multiset.coe_add, add_comm]
        · obtain ⟨q, hq, hnext⟩ := hflight p f (hfl ▸ List.mem_cons_self) (F.kind_of_pick hx)
          exact hclosed q hq _ hnext
      simp only [inside, hflights, entered, departed, discarded, lost]
      simp
      abel

/-- What has entered of the flow, what has gone out, what was dropped and lost, and what is
inside. -/
def Accounted (region : Finset (ν × ι)) (hs : List (Happening ν ι φ ω)) (c : Contents ν ι φ ω) :
    Prop :=
  (F.pick ((entered W hs).map Prod.snd) : Multiset φ) =
    F.pick ((departed W hs).map Prod.snd) + F.pick (discarded handle hs) + F.pick (lost hs) +
      F.inside region c

/-- **Everything is accounted for.**  What has entered of a flow has gone out, was dropped by a
node, was lost on a wire, or is inside of any closed region in which it enters. -/
theorem account {region : Finset (ν × ι)} (hclosed : F.Closed region)
    {hs : List (Happening ν ι φ ω)} {s : NetState ν ι φ (Forwarder ι φ ω)}
    (hrun : (fabric W handle).Run hs s) (henter : F.EntersAt region hs) :
    F.Accounted region hs s.contents := by
  refine (fabric W handle).run_invariant
    (fun hs s => F.EntersAt region hs → F.Accounted region hs s.contents) ?_ ?_ hs s hrun henter
  · intro _
    simp [Accounted, inside, NetState.contents, fabric, network, forwarder, entered, departed, discarded,
      lost]
  · intro hs s h s' hr ih hstep henter
    have hbefore : F.Accounted region hs s.contents := ih henter.left
    have hbalance := F.balance hclosed (F.confined hclosed hr henter.left) henter.right
      (move_of_step hstep)
    unfold Accounted at hbefore ⊢
    simp only [entered, departed, discarded, lost, List.filterMap_append, List.map_append,
      pick_append, ← Multiset.coe_add] at hbefore hbalance ⊢
    rw [hbefore, add_assoc _ (F.inside region s.contents), add_comm (F.inside region s.contents),
      hbalance]
    abel

end Regions

end Flow

end Library
