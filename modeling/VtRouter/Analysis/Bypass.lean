import VtRouter.Analysis.Forwarding

/-!
# How long an interface can be passed over

The loop of `router_n` polls all interfaces and then takes at most one frame from each, in the
order of their indices.  A frame without a route ends the pass: `goto repeat` polls again and
starts at interface 0.  If this happens below an interface that has frames waiting, that
interface is passed over, and nothing bounds how often.

`bypass_bounded` says that this is the only way: in a run without such a jump at most `2 * n`
frames are taken from other interfaces while one waits.  The proof counts, for each control
point, how many frames can still be taken before the loop comes to the interface
(`takesLeft`), and no step raises that number (`takesLeft_step`).
-/

set_option autoImplicit false

namespace VtRouter.Analysis

open Library VtRouter.Model VtRouter.Interface

/-! ## The property, and what can break it -/

/-- At most `2 * n` frames are taken from other interfaces in any stretch of the run that
starts with a frame waiting at interface `k` and takes none from there. -/
def BoundedBypass (cfg : Config) (k : ℕ) (ls : List RouterLabel) : Prop :=
  ∀ pre mid post s, ls = pre ++ (mid ++ post) → (routerN cfg).Run pre s → s.queue k ≠ [] →
    taken k (mid.flatMap loopEvents) = [] →
    (takes (mid.flatMap loopEvents)).length ≤ 2 * cfg.nIntfs

/-- What `poll` and `recvfrom` do where frames wait: `poll` reports every interface that has
some, and `recvfrom` does not fail on one that has. -/
def Served (cfg : Config) (s : RouterState) : RouterLabel → Prop
  | .loop (.poll (.ready revents)) =>
      ∀ j < cfg.nIntfs, s.queue j ≠ [] → revents.getD j false = true
  | .loop (.recvfrom j none) => s.queue j = []
  | _ => True

/-- The step does not jump back from below interface `k` while a frame waits there: no frame
without a route is taken from a lower interface.
SOURCE: router_n.c:189-202 -/
def NoJumpBelow (cfg : Config) (k : ℕ) (s : RouterState) : RouterLabel → Prop
  | .loop (.recvfrom i (some f)) => i < k → f ≠ [] → egress cfg f = -1 → s.queue k = []
  | _ => True

instance (cfg : Config) (s : RouterState) : DecidablePred (Served cfg s) := fun l =>
  match l with
  | .loop (.poll (.ready revents)) =>
      inferInstanceAs (Decidable (∀ j < cfg.nIntfs, s.queue j ≠ [] → revents.getD j false = true))
  | .loop (.recvfrom j none) => inferInstanceAs (Decidable (s.queue j = []))
  | .loop (.poll .interrupted) | .loop (.poll .failed) | .loop (.blockingPoll _)
  | .loop (.recvfrom _ (some _)) | .loop (.sendPacket _ _ _) | .loop .tau | .arrive _ _ =>
      .isTrue trivial

instance (cfg : Config) (k : ℕ) (s : RouterState) : DecidablePred (NoJumpBelow cfg k s) := fun l =>
  match l with
  | .loop (.recvfrom i (some f)) =>
      inferInstanceAs (Decidable (i < k → f ≠ [] → egress cfg f = -1 → s.queue k = []))
  | .loop (.recvfrom _ none) | .loop (.poll _) | .loop (.blockingPoll _)
  | .loop (.sendPacket _ _ _) | .loop .tau | .arrive _ _ => .isTrue trivial

/-! ## The frames that can still be taken -/

/-- In a pass at interface `i`: up to interface `k` when this pass takes a frame there, else
to the end of the pass and up to interface `k` in the next one. -/
def passLeft (n k : ℕ) (revents : List Bool) (i : ℕ) : ℕ :=
  if revents.getD k false = true ∧ i ≤ k then k - i else n - i + k

/-- How many frames can still be taken from other interfaces while a frame waits at `k`. -/
def takesLeft (n k : ℕ) (r : Loop) : ℕ :=
  match r.pc with
  | .exited => 0
  | .poll | .blockingPoll => k
  | .scan | .recvfrom => passLeft n k r.revents r.i
  | .sendPacket => passLeft n k r.revents (r.i + 1)

/-- INTERNAL: a frame from another interface is one frame less. -/
theorem passLeft_succ_of_ne {n k i : ℕ} (revents : List Bool) (hi : i < n) (hne : i ≠ k) :
    passLeft n k revents (i + 1) + 1 ≤ passLeft n k revents i := by
  unfold passLeft
  split
  · rename_i hnow
    rw [if_pos ⟨hnow.1, by omega⟩]
    omega
  · rename_i hlater
    split
    · rename_i hnow
      exact absurd ⟨hnow.1, by omega⟩ hlater
    · omega

/-- INTERNAL: an interface that was not reported costs nothing. -/
theorem passLeft_succ_of_not_ready {n k i : ℕ} {revents : List Bool}
    (hready : ¬revents.getD i false = true) :
    passLeft n k revents (i + 1) ≤ passLeft n k revents i := by
  unfold passLeft
  split
  · rename_i hnow
    rw [if_pos ⟨hnow.1, by omega⟩]
    omega
  · rename_i hlater
    split
    · rename_i hnow
      have hne : i ≠ k := by
        rintro rfl
        exact hready hnow.1
      exact absurd ⟨hnow.1, by omega⟩ hlater
    · omega

/-- INTERNAL: behind interface `k` the next pass is still to come. -/
theorem le_passLeft {n k i : ℕ} (revents : List Bool) (hi : k < i) :
    n - i + k ≤ passLeft n k revents i := by
  unfold passLeft
  rw [if_neg (by omega)]

/-- INTERNAL: at no time are there more than two passes to come. -/
theorem takesLeft_le {n k : ℕ} (hk : k < n) (r : Loop) : takesLeft n k r ≤ 2 * n := by
  have hpass : ∀ i, passLeft n k r.revents i ≤ 2 * n := by
    intro i
    unfold passLeft
    split <;> omega
  unfold takesLeft
  split
  · omega
  · omega
  · omega
  · exact hpass _
  · exact hpass _
  · exact hpass _

/-! ## One step -/

/-- INTERNAL: behind `recvfrom` the loop goes on to the next interface, sends, or jumps back
because the frame has no route.
SOURCE: router_n.c:188-204 -/
theorem afterRecvfrom_cases (cfg : Config) {r : Loop} (hbuf : r.buf = List.replicate bufSize 0)
    (frame : Option Frame) :
    (afterRecvfrom cfg r frame).revents = r.revents ∧
      ((afterRecvfrom cfg r frame).pc = .scan ∧ (afterRecvfrom cfg r frame).i = r.i + 1 ∨
        (afterRecvfrom cfg r frame).pc = .sendPacket ∧ (afterRecvfrom cfg r frame).i = r.i ∨
        (afterRecvfrom cfg r frame).pc = .poll ∧
          ∃ f, frame = some f ∧ f ≠ [] ∧ egress cfg f = -1) := by
  cases frame with
  | none => exact ⟨rfl, Or.inl ⟨rfl, rfl⟩⟩
  | some f =>
      have hbuf' : f.take bufSize ++ r.buf.drop (f.take bufSize).length = receivedBuf f := by
        rw [hbuf]
        rfl
      simp only [afterRecvfrom, hbuf']
      split
      · rename_i hlen
        have hf : f ≠ [] := by
          rintro rfl
          simp at hlen
        simp only [chooseDst, egress_received]
        split
        · exact ⟨rfl, Or.inr (Or.inl ⟨rfl, rfl⟩)⟩
        · rename_i hdst
          refine ⟨rfl, Or.inr (Or.inr ⟨rfl, f, rfl, hf, ?_⟩)⟩
          exact not_not.mp hdst
      · exact ⟨rfl, Or.inl ⟨rfl, rfl⟩⟩

/-- INTERNAL: the loop comes to `recvfrom` only from the scan, which checks the index and
flushes the buffer.
SOURCE: router_n.c:180-188 -/
theorem recvfrom_of_loopStep {cfg : Config} {r r' : Loop} {act : LoopAct}
    (h : LoopStep cfg r act r') (hpc' : r'.pc = .recvfrom) :
    r'.i < cfg.nIntfs ∧ r'.buf = List.replicate bufSize 0 := by
  cases h with
  | scan hpc =>
      have hbuf := (scanLoop_spec cfg hpc).2 hpc'
      refine ⟨?_, hbuf⟩
      unfold scanLoop at hpc' ⊢
      split
      · rename_i hi
        split
        · exact hi
        · rename_i hready
          rw [if_pos hi, if_neg hready, hpc] at hpc'
          cases hpc'
      · rename_i hi
        rw [if_neg hi] at hpc'
        split at hpc' <;> cases hpc'
  | recvfrom frame hpc =>
      exfalso
      cases frame with
      | none => cases hpc'
      | some f =>
          simp only [afterRecvfrom, chooseDst] at hpc'
          split at hpc'
          · split at hpc' <;> cases hpc'
          · cases hpc'
  | pollInterrupted hpc | blockingInterrupted hpc =>
      rw [hpc] at hpc'
      cases hpc'
  | pollFailed hpc | pollReady revents hpc hlen | sendPacket hpc | blockingFailed hpc
  | blockingReady revents hpc hlen => cases hpc'

/-- A frame waits at interface `k`, and what the loop has found out when it is at `recvfrom`. -/
structure Waiting (cfg : Config) (k : ℕ) (s : RouterState) : Prop where
  waiting : s.queue k ≠ []
  inPass : s.loop.pc = .recvfrom →
    s.loop.i < cfg.nIntfs ∧ s.loop.buf = List.replicate bufSize 0

/-- INTERNAL: a frame taken elsewhere is one frame less, wherever the loop goes on, unless it
jumps back from below interface `k`.
SOURCE: router_n.c:188-204 -/
theorem takesLeft_afterRecvfrom {cfg : Config} {k : ℕ} {r : Loop} (hi : r.i < cfg.nIntfs)
    (hbuf : r.buf = List.replicate bufSize 0) (hne : r.i ≠ k) (frame : Option Frame)
    (hjump : ∀ f, frame = some f → r.i < k → f ≠ [] → egress cfg f ≠ -1) :
    takesLeft cfg.nIntfs k (afterRecvfrom cfg r frame) + 1 ≤
      passLeft cfg.nIntfs k r.revents r.i := by
  have hsucc := passLeft_succ_of_ne r.revents hi hne
  obtain ⟨hrev, ⟨hpc, hidx⟩ | ⟨hpc, hidx⟩ | ⟨hpc, f, hframe, hf, hdst⟩⟩ :=
    afterRecvfrom_cases cfg hbuf frame
  · simp only [takesLeft, hpc, hrev, hidx]
    exact hsucc
  · simp only [takesLeft, hpc, hrev, hidx]
    exact hsucc
  · have hk : k < r.i := by
      by_contra hle
      exact hjump f hframe (by omega) hf hdst
    have hpass := le_passLeft (n := cfg.nIntfs) r.revents hk
    simp only [takesLeft, hpc]
    omega

/-- INTERNAL: a round of the scan takes nothing, and brings interface `k` no further away.
SOURCE: router_n.c:180-186, 208-217 -/
theorem takesLeft_scanLoop {cfg : Config} {k : ℕ} (hk : k < cfg.nIntfs) {r : Loop}
    (hpc : r.pc = .scan) :
    takesLeft cfg.nIntfs k (scanLoop cfg r) ≤ passLeft cfg.nIntfs k r.revents r.i := by
  unfold scanLoop
  split
  · split
    · exact le_refl _
    · rename_i hready
      simp only [takesLeft, hpc]
      exact passLeft_succ_of_not_ready hready
  · have hpass := le_passLeft (n := cfg.nIntfs) r.revents (show k < r.i by omega)
    split
    · simp only [takesLeft]
      omega
    · simp only [takesLeft]
      omega

/-- INTERNAL: **no step raises the number of frames that can still be taken**, and one that
takes a frame lowers it.
SOURCE: router_n.c:155-231 -/
theorem takesLeft_step {cfg : Config} {k : ℕ} (hk : k < cfg.nIntfs) {s s' : RouterState}
    {l : RouterLabel} (hw : Waiting cfg k s) (hserved : Served cfg s l)
    (hjump : NoJumpBelow cfg k s l) (hquiet : taken k (loopEvents l) = [])
    (hs : (routerN cfg).step s l = some s') :
    Waiting cfg k s' ∧
      takesLeft cfg.nIntfs k s'.loop + (takes (loopEvents l)).length ≤
        takesLeft cfg.nIntfs k s.loop := by
  have hcases : routerStep cfg s l = some s' := hs
  rcases routerStep_cases hcases with
    ⟨act, r, queue, rfl, hr, hq, rfl⟩ | ⟨j, frame, rfl, -, rfl⟩
  · have hpass : r.pc = .recvfrom → r.i < cfg.nIntfs ∧ r.buf = List.replicate bufSize 0 :=
      recvfrom_of_loopStep hr
    cases hr with
    | pollInterrupted hpc | blockingInterrupted hpc =>
        cases hq
        exact ⟨⟨hw.waiting, hpass⟩, le_refl _⟩
    | pollFailed hpc | blockingFailed hpc =>
        cases hq
        refine ⟨⟨hw.waiting, hpass⟩, ?_⟩
        exact Nat.zero_le _
    | pollReady revents hpc hlen =>
        cases hq
        refine ⟨⟨hw.waiting, hpass⟩, ?_⟩
        have hready : revents.getD k false = true := hserved k hk hw.waiting
        have hleft : passLeft cfg.nIntfs k revents 0 = k := by
          unfold passLeft
          rw [if_pos ⟨hready, Nat.zero_le k⟩, Nat.sub_zero]
        simp only [takesLeft, hpc, hleft]
        exact le_refl _
    | scan hpc =>
        cases hq
        refine ⟨⟨hw.waiting, hpass⟩, ?_⟩
        have hscan := takesLeft_scanLoop hk hpc
        simp only [takesLeft, hpc] at hscan ⊢
        exact hscan
    | recvfrom frame hpc =>
        obtain ⟨hi, hbuf⟩ := hw.inPass hpc
        have hleft : takesLeft cfg.nIntfs k s.loop =
            passLeft cfg.nIntfs k s.loop.revents s.loop.i := by
          simp only [takesLeft, hpc]
        rw [hleft]
        cases frame with
        | none =>
            cases hq
            have hne : s.loop.i ≠ k := by
              rintro rfl
              exact hw.waiting hserved
            have hafter := takesLeft_afterRecvfrom hi hbuf hne none nofun
            exact ⟨⟨hw.waiting, hpass⟩, (Nat.le_succ _).trans hafter⟩
        | some f =>
            obtain ⟨rest, hg, rfl⟩ := queueAfter_recvfrom hq
            have hne : s.loop.i ≠ k := by
              rintro rfl
              simp [taken, takes, loopEvents] at hquiet
            have hwaiting : Function.update s.queue s.loop.i rest k ≠ [] := by
              rw [Function.update_of_ne hne.symm]
              exact hw.waiting
            have hafter := takesLeft_afterRecvfrom hi hbuf hne (some f) (by
              rintro g ⟨⟩ hlt hf hdst
              exact hw.waiting (hjump hlt hf hdst))
            exact ⟨⟨hwaiting, hpass⟩, hafter⟩
    | sendPacket hpc =>
        cases hq
        refine ⟨⟨hw.waiting, hpass⟩, ?_⟩
        simp only [takesLeft, hpc]
        exact le_refl _
    | blockingReady revents hpc hlen =>
        cases hq
        refine ⟨⟨hw.waiting, hpass⟩, ?_⟩
        simp only [takesLeft, hpc]
        exact le_refl _
  · refine ⟨⟨?_, hw.inPass⟩, le_refl _⟩
    dsimp only
    by_cases hj : k = j
    · subst hj
      simp
    · rw [Function.update_of_ne hj]
      exact hw.waiting

/-! ## Whole runs -/

/-- INTERNAL: the frames taken in a stretch, step by step. -/
theorem takes_flatMap (ls : List RouterLabel) :
    takes (ls.flatMap loopEvents) = ls.flatMap fun l => takes (loopEvents l) := by
  unfold takes
  rw [List.filterMap_flatMap]

/-- INTERNAL: a stretch that takes nothing from `k` does so with none of its steps. -/
theorem taken_eq_nil_of_flatMap {k : ℕ} {ls : List RouterLabel}
    (h : taken k (ls.flatMap loopEvents) = []) {l : RouterLabel} (hl : l ∈ ls) :
    taken k (loopEvents l) = [] := by
  obtain ⟨front, back, rfl⟩ := List.append_of_mem hl
  rw [List.flatMap_append, List.flatMap_cons] at h
  simp only [taken, takes, List.filterMap_append, List.filter_append, List.map_append,
    List.append_eq_nil_iff] at h
  exact h.2.1

/-- INTERNAL: in every run the loop is at `recvfrom` with an index and a flushed buffer. -/
theorem inPass_of_run {cfg : Config} {ls : List RouterLabel} {s : RouterState}
    (hrun : (routerN cfg).Run ls s) :
    s.loop.pc = .recvfrom → s.loop.i < cfg.nIntfs ∧ s.loop.buf = List.replicate bufSize 0 := by
  refine (routerN cfg).run_invariant
    (fun _ s => s.loop.pc = .recvfrom →
      s.loop.i < cfg.nIntfs ∧ s.loop.buf = List.replicate bufSize 0) nofun ?_ ls s hrun
  intro ls s l s' _ hpass hs
  have hcases : routerStep cfg s l = some s' := hs
  rcases routerStep_cases hcases with ⟨act, r, queue, rfl, hr, -, rfl⟩ | ⟨j, frame, rfl, -, rfl⟩
  · exact recvfrom_of_loopStep hr
  · exact hpass

/-- **Bounded bypass, without jumps.**  With any number of interfaces, any names, routes and
arrivals: in every run in which `poll` and `recvfrom` serve waiting frames and no frame
without a route is taken from below interface `k` while a frame waits there, at most `2 * n`
frames are taken from other interfaces before one is taken from `k`.
SOURCE: router_n.c:155-231 -/
theorem bypass_bounded (cfg : Config) (k : ℕ) (hk : k < cfg.nIntfs) (ls : List RouterLabel)
    (t : RouterState) (hrun : (routerN cfg).Run ls t)
    (hserved : (routerN cfg).Along (Served cfg) ls)
    (hjump : (routerN cfg).Along (NoJumpBelow cfg k) ls) : BoundedBypass cfg k ls := by
  rintro pre mid post s rfl hs hwaiting hquiet
  rw [← List.append_assoc] at hrun hserved hjump
  obtain ⟨u, hu, -⟩ := hrun.prefix
  obtain ⟨s', hs', hmid⟩ := hu.prefix
  cases hs.unique hs'
  have hok : (routerN cfg).Along (fun s l => Served cfg s l ∧ NoJumpBelow cfg k s l)
      (pre ++ mid) := by
    intro front l back v heq hv
    refine ⟨hserved front l (back ++ post) v ?_ hv, hjump front l (back ++ post) v ?_ hv⟩
    · rw [heq]
      simp
    · rw [heq]
      simp
  have hcost := (routerN cfg).length_obs_le_rank (fun s l => Served cfg s l ∧ NoJumpBelow cfg k s l)
    (fun l => taken k (loopEvents l) = []) (Waiting cfg k)
    (fun s => takesLeft cfg.nIntfs k s.loop) (fun l => takes (loopEvents l))
    (fun s l s' hw hok hquiet hs => takesLeft_step hk hw hok.1 hok.2 hquiet hs)
    hs ⟨hwaiting, inPass_of_run hs⟩ hmid hok (fun l hl => taken_eq_nil_of_flatMap hquiet hl)
  have hrank := takesLeft_le hk s.loop
  rw [takes_flatMap]
  omega

/-- Two interfaces, with routes to them and with none. -/
def routed : Config := ⟨[cstr "s1-eth1", cstr "s1-eth2"], s1Routes.map RouteLine.entry⟩
def unrouted : Config := ⟨[cstr "s1-eth1", cstr "s1-eth2"], []⟩

/-- The loop serves both interfaces in one pass. -/
def passingRun : List RouterLabel :=
  [.arrive 1 frameToOne, .arrive 0 frameToOne, .loop (.poll (.ready [true, true])), .loop .tau,
    .loop (.recvfrom 0 (some frameToOne)), .loop (.sendPacket 0 0 frameToOne), .loop .tau,
    .loop (.recvfrom 1 (some frameToOne))]

/-- In that run interface 1 waits for one frame. -/
theorem bypass_bounded_passingRun :
    (∃ t, (routerN routed).Run passingRun t) ∧ BoundedBypass routed 1 passingRun := by
  have hsome : ((routerN routed).exec (routerN routed).init passingRun).isSome := by
    decide +kernel
  obtain ⟨t, ht⟩ := Option.isSome_iff_exists.mp hsome
  have hserved := (routerN routed).along_of_checkAlong (fun s l => decide (Served routed s l))
    passingRun (by decide +kernel)
  have hjump := (routerN routed).along_of_checkAlong (fun s l => decide (NoJumpBelow routed 1 s l))
    passingRun (by decide +kernel)
  exact ⟨⟨t, ht⟩, bypass_bounded routed 1 (by decide) passingRun t ht
    (hserved.mono fun s l h => of_decide_eq_true h) (hjump.mono fun s l h => of_decide_eq_true h)⟩

/-- Interface 0 has five frames without a route, and the loop takes them one after the other. -/
def jumpingRun : List RouterLabel :=
  List.replicate 5 (.arrive 0 frameToOne) ++ (List.replicate 5
    [.loop (.poll (.ready [true, true])), .loop .tau,
      .loop (.recvfrom 0 (some frameToOne))]).flatten

/-- **Jumps pass an interface over.**  Every `poll` reports the frame that waits at interface 1,
and more than `2 * n` frames are taken from interface 0 before it. -/
theorem jumps_pass_over :
    (∃ t, (routerN unrouted).Run (.arrive 1 frameToOne :: jumpingRun) t) ∧
      (routerN unrouted).Along (Served unrouted) (.arrive 1 frameToOne :: jumpingRun) ∧
      ¬BoundedBypass unrouted 1 (.arrive 1 frameToOne :: jumpingRun) := by
  have hsome : ((routerN unrouted).exec (routerN unrouted).init
      (.arrive 1 frameToOne :: jumpingRun)).isSome := by
    decide +kernel
  have hserved := (routerN unrouted).along_of_checkAlong (fun s l => decide (Served unrouted s l))
    (.arrive 1 frameToOne :: jumpingRun) (by decide +kernel)
  refine ⟨Option.isSome_iff_exists.mp hsome, hserved.mono fun s l h => of_decide_eq_true h, ?_⟩
  intro hbounded
  have hfirst : (routerN unrouted).Run [.arrive 1 frameToOne]
      ⟨.init, Function.update (fun _ => []) 1 [frameToOne]⟩ := rfl
  have htakes : (takes (jumpingRun.flatMap loopEvents)).length = 5 := by decide +kernel
  have hle := hbounded [.arrive 1 frameToOne] jumpingRun [] _ (by simp) hfirst (by simp)
    (by decide +kernel)
  rw [htakes] at hle
  exact absurd hle (by decide +kernel)

end VtRouter.Analysis
