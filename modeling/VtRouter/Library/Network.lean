import VtRouter.Library.Forwarder

/-!
# Forwarders joined by wires

Nodes that take frames from their inputs and send outputs, and wires between them.  A node is
given as a transition system with the events its labels stand for, so the same network can be
built of programs and of the forwarders they implement; a frame that was sent over a wire is in
flight until the node at the other end has it, or until it is lost.

What happens in a network is said in the events of its nodes.  `network_simulation` lifts a
simulation of the nodes to the network: if every node of one network follows a node of another,
event for event, so does the network.
-/

set_option autoImplicit false

namespace Library

variable {ν ι φ ω σ α τ β : Type}

/-- Where the wires go: `peer (n, i)` is the port at the other end of the wire at port `i` of
node `n`, and `none` for a port that leads out of the network.  An output names its port and
carries a frame. -/
structure Wiring (ν ι φ ω : Type) where
  peer : ν × ι → Option (ν × ι)
  outPort : ω → ι
  frame : ω → φ

/-- A step of a network: of a node, or the loss of a frame in flight to a port. -/
inductive NetLabel (ν ι φ α : Type)
  | node (n : ν) (l : α)
  | lose (p : ν × ι) (f : φ)
  deriving DecidableEq

/-- The states of the nodes, and the frames in flight to each port. -/
structure NetState (ν ι φ σ : Type) where
  node : ν → σ
  flight : ν × ι → List φ

/-- What happens in a network: events at its nodes, and losses. -/
abbrev Happening (ν ι φ ω : Type) := NetLabel ν ι φ (Event ι φ ω)

/-- The events a step of the network stands for. -/
def happenings (obs : α → List (Event ι φ ω)) : NetLabel ν ι φ α → List (Happening ν ι φ ω)
  | .node n l => (obs l).map (.node n)
  | .lose p f => [.lose p f]

section Steps

variable [DecidableEq ν] [DecidableEq ι] [DecidableEq φ]

/-- An event at a node, seen from the wires: what arrives over a wire was in flight there, what
is sent over a wire is in flight behind it, and the outer ports are open. -/
def carryEvent (W : Wiring ν ι φ ω) (n : ν) (flight : ν × ι → List φ) :
    Event ι φ ω → Option (ν × ι → List φ)
  | .arrive i f =>
      match W.peer (n, i), flight (n, i) with
      | none, _ => some flight
      | some _, g :: rest => if f = g then some (Function.update flight (n, i) rest) else none
      | some _, [] => none
  | .take _ _ => some flight
  | .send o =>
      match W.peer (n, W.outPort o) with
      | some p => some (Function.update flight p (flight p ++ [W.frame o]))
      | none => some flight

/-- The events of one step of a node, seen from the wires. -/
def carry (W : Wiring ν ι φ ω) (n : ν) :
    (ν × ι → List φ) → List (Event ι φ ω) → Option (ν × ι → List φ)
  | flight, [] => some flight
  | flight, e :: es => (carryEvent W n flight e).bind fun flight' => carry W n flight' es

/-- One step of a network of the nodes `M`. -/
def networkStep (W : Wiring ν ι φ ω) (M : ν → LTS σ α) (obs : α → List (Event ι φ ω))
    (s : NetState ν ι φ σ) : NetLabel ν ι φ α → Option (NetState ν ι φ σ)
  | .node n l =>
      match (M n).step (s.node n) l, carry W n s.flight (obs l) with
      | some x, some flight => some ⟨Function.update s.node n x, flight⟩
      | _, _ => none
  | .lose p f =>
      match s.flight p with
      | g :: rest => if f = g then some { s with flight := Function.update s.flight p rest } else none
      | [] => none

/-- **The network** of the nodes `M`, whose labels stand for the events `obs`. -/
def network (W : Wiring ν ι φ ω) (M : ν → LTS σ α) (obs : α → List (Event ι φ ω)) :
    LTS (NetState ν ι φ σ) (NetLabel ν ι φ α) :=
  ⟨⟨fun n => (M n).init, fun _ => []⟩, networkStep W M obs⟩

/-! ## Steps by name -/

/-- INTERNAL: a step of the network is a step of a node or a loss. -/
theorem networkStep_cases {W : Wiring ν ι φ ω} {M : ν → LTS σ α}
    {obs : α → List (Event ι φ ω)} {s s' : NetState ν ι φ σ} {l : NetLabel ν ι φ α}
    (h : networkStep W M obs s l = some s') :
    (∃ n a x flight, l = .node n a ∧ (M n).step (s.node n) a = some x ∧
      carry W n s.flight (obs a) = some flight ∧ s' = ⟨Function.update s.node n x, flight⟩) ∨
    (∃ p f rest, l = .lose p f ∧ s.flight p = f :: rest ∧
      s' = { s with flight := Function.update s.flight p rest }) := by
  cases l with
  | node n a =>
      left
      simp only [networkStep] at h
      split at h
      · rename_i x flight hx hflight
        cases h
        exact ⟨n, a, x, flight, rfl, hx, hflight, rfl⟩
      · cases h
  | lose p f =>
      right
      simp only [networkStep] at h
      split at h
      · rename_i g rest hg
        split at h
        · rename_i hfg
          subst hfg
          cases h
          exact ⟨p, f, rest, rfl, hg, rfl⟩
        · cases h
      · cases h

/-- INTERNAL: a step of a node, with its effect on the wires, is a step of the network. -/
theorem networkStep_node {W : Wiring ν ι φ ω} {M : ν → LTS σ α} {obs : α → List (Event ι φ ω)}
    {s : NetState ν ι φ σ} {n : ν} {a : α} {x : σ} {flight : ν × ι → List φ}
    (hx : (M n).step (s.node n) a = some x) (hflight : carry W n s.flight (obs a) = some flight) :
    (network W M obs).step s (.node n a) = some ⟨Function.update s.node n x, flight⟩ := by
  show networkStep W M obs s (.node n a) = _
  simp only [networkStep, hx, hflight]

/-- INTERNAL: a loss is possible in every network with the frame in flight. -/
theorem networkStep_lose {W : Wiring ν ι φ ω} {M : ν → LTS σ α} {obs : α → List (Event ι φ ω)}
    {s : NetState ν ι φ σ} {p : ν × ι} {f : φ} {rest : List φ} (h : s.flight p = f :: rest) :
    (network W M obs).step s (.lose p f) =
      some { s with flight := Function.update s.flight p rest } := by
  show networkStep W M obs s (.lose p f) = _
  simp only [networkStep, h, if_true]

theorem carry_append (W : Wiring ν ι φ ω) (n : ν) (flight : ν × ι → List φ)
    (es fs : List (Event ι φ ω)) :
    carry W n flight (es ++ fs) = (carry W n flight es).bind fun flight' => carry W n flight' fs := by
  induction es generalizing flight with
  | nil => rfl
  | cons e es ih =>
      simp only [List.cons_append, carry]
      cases carryEvent W n flight e with
      | none => rfl
      | some flight' => simpa using ih flight'

/-! ## Simulation -/

/-- INTERNAL: what a node does in several steps, it can do in the network. -/
theorem exec_node {W : Wiring ν ι φ ω} {N : ν → LTS τ β} {obs : β → List (Event ι φ ω)} {n : ν}
    {t : NetState ν ι φ τ} {y : τ} {flight : ν × ι → List φ} {ms : List β}
    (hy : (N n).exec (t.node n) ms = some y)
    (hflight : carry W n t.flight (ms.flatMap obs) = some flight) :
    (network W N obs).exec t (ms.map (.node n)) = some ⟨Function.update t.node n y, flight⟩ := by
  induction ms generalizing t with
  | nil =>
      cases hy
      cases hflight
      rw [Function.update_eq_self]
      rfl
  | cons m ms ih =>
      simp only [LTS.exec, Option.bind_eq_some_iff] at hy
      obtain ⟨z, hz, hrest⟩ := hy
      rw [List.flatMap_cons, carry_append, Option.bind_eq_some_iff] at hflight
      obtain ⟨flight', hfirst, hflight⟩ := hflight
      rw [List.map_cons, LTS.exec_cons_of_step _ (networkStep_node hz hfirst)]
      have hexec := ih (t := ⟨Function.update t.node n z, flight'⟩)
        (by simpa using hrest) hflight
      rwa [Function.update_idem] at hexec

/-- **Simulation, node by node.**  If every step of a node is matched by an execution of its
counterpart with the same events, every run of the network is matched by a run of the network of
the counterparts in which the same happens, with the same frames in flight. -/
theorem network_simulation {W : Wiring ν ι φ ω} {M : ν → LTS σ α} {N : ν → LTS τ β}
    {obs : α → List (Event ι φ ω)} {obs' : β → List (Event ι φ ω)} {R : ν → σ → τ → Prop}
    (hinit : ∀ n, R n (M n).init (N n).init)
    (hstep : ∀ n s t l s', R n s t → (M n).step s l = some s' →
      ∃ t', (N n).Emits obs' t (obs l) t' ∧ R n s' t')
    {ls : List (NetLabel ν ι φ α)} {s : NetState ν ι φ σ}
    (hrun : (network W M obs).Run ls s) :
    ∃ ms t, (network W N obs').Run ms t ∧
      ms.flatMap (happenings obs') = ls.flatMap (happenings obs) ∧
      t.flight = s.flight ∧ ∀ n, R n (s.node n) (t.node n) := by
  have hmatch : ∀ (s : NetState ν ι φ σ) (t : NetState ν ι φ τ) l s',
      t.flight = s.flight ∧ (∀ n, R n (s.node n) (t.node n)) →
      (network W M obs).step s l = some s' →
      ∃ t', (network W N obs').Emits (happenings obs') t (happenings obs l) t' ∧
        t'.flight = s'.flight ∧ ∀ n, R n (s'.node n) (t'.node n) := by
    rintro s t l s' ⟨hflight, hR⟩ hs
    rcases networkStep_cases hs with
      ⟨n, a, x, flight, rfl, hx, hcarry, rfl⟩ | ⟨p, f, rest, rfl, hp, rfl⟩
    · obtain ⟨y, ⟨ms, hms, hobs⟩, hRy⟩ := hstep n _ _ _ _ (hR n) hx
      rw [← hflight, ← hobs] at hcarry
      refine ⟨⟨Function.update t.node n y, flight⟩, ⟨ms.map (.node n), exec_node hms hcarry, ?_⟩,
        rfl, ?_⟩
      · simp only [happenings, ← hobs, List.flatMap_map, List.map_flatMap]
      · intro m
        by_cases hm : m = n
        · subst hm
          simpa using hRy
        · simpa [Function.update_of_ne hm] using hR m
    · rw [← hflight] at hp
      refine ⟨{ t with flight := Function.update t.flight p rest },
        .of_step (networkStep_lose hp), ?_, hR⟩
      rw [hflight]
  obtain ⟨t, ⟨ms, hms, hsame⟩, hflight, hR⟩ := (network W M obs).run_simulation
    (network W N obs') (happenings obs) (happenings obs') ⟨rfl, hinit⟩ hmatch ls s hrun
  exact ⟨ms, t, hms, hsame, hflight, hR⟩

end Steps

end Library
