import Mathlib.Data.Fintype.Card
import Mathlib.Data.List.Count
import VtRouter.Analysis.Dialogue

/-!
# The server takes its clients in turn

Requests wait at the socket of the server in the order of their arrival, at most one of each
client.  So many clients cannot keep one of them waiting: the steps the server still makes before
it answers a request go down with each of them (`stepsToReply_step`), and there are no more than
four for every client (`requests_are_answered`).
-/

set_option autoImplicit false

namespace VtRouter.Analysis

open Library VtRouter.Model VtRouter.Interface

variable {ν : Type} [DecidableEq ν]

/-! ## How long a client waits -/

/-- The request of a client waits at the server, or the server is at it. -/
def AtServer (k : ν) (x : HostState ν) : Prop :=
  (∃ d ∈ x.inbox, d.1 = k) ∨ beingServed x = some k

/-- The datagrams that are taken before the first of a client. -/
def ahead (k : ν) (inbox : List (ν × List UInt8)) : ℕ := inbox.findIdx fun d => d.1 = k

/-- The steps of the server up to its reply to a client; an iteration has four. -/
def stepsToReply (k : ν) (x : HostState ν) : ℕ :=
  match x.vars with
  | .client _ => 0
  | .server v =>
      match v.pc with
      | .fillBuffer => if v.serverStorage = some k then 2 else 4 * ahead k x.inbox + 6
      | .sendto => if v.serverStorage = some k then 1 else 4 * ahead k x.inbox + 5
      | .loop | .flushBuffer => 4 * ahead k x.inbox + 4
      | .recvfrom => 4 * ahead k x.inbox + 3

theorem ahead_cons_self (k : ν) (data : List UInt8) (rest : List (ν × List UInt8)) :
    ahead k ((k, data) :: rest) = 0 := by
  simp [ahead, List.findIdx_cons]

theorem ahead_cons_of_ne {k src : ν} (hne : src ≠ k) (data : List UInt8)
    (rest : List (ν × List UInt8)) : ahead k ((src, data) :: rest) = ahead k rest + 1 := by
  simp [ahead, List.findIdx_cons, hne]

/-- INTERNAL: who comes later does not push in. -/
theorem ahead_append {k : ν} {inbox : List (ν × List UInt8)} (h : ∃ d ∈ inbox, d.1 = k)
    (later : List (ν × List UInt8)) : ahead k (inbox ++ later) = ahead k inbox := by
  obtain ⟨d, hd, hdk⟩ := h
  have hlt : ahead k inbox < inbox.length :=
    List.findIdx_lt_length_of_exists ⟨d, hd, decide_eq_true hdk⟩
  unfold ahead at hlt ⊢
  rw [List.findIdx_append, if_pos hlt]

/-- INTERNAL: who comes now has all others ahead. -/
theorem ahead_append_self {k : ν} {inbox : List (ν × List UInt8)} (h : ∀ d ∈ inbox, d.1 ≠ k)
    (data : List UInt8) : ahead k (inbox ++ [(k, data)]) = inbox.length := by
  have hall : inbox.findIdx (fun d => decide (d.1 = k)) = inbox.length :=
    List.findIdx_eq_length_of_false fun d hd => decide_eq_false (h d hd)
  unfold ahead
  rw [List.findIdx_append, hall, if_neg (lt_irrefl _)]
  simp

/-! ## One step -/

/-- INTERNAL: what waits at a server is the request of the exchange. -/
theorem Session.queued_of_mem {k s : ν} {n : ℕ} {stage : Stage}
    {t : NetState ν ν (List UInt8) (HostState ν)} {data : List UInt8}
    (h : Session k s n stage t) (hd : (k, data) ∈ (t.node s).inbox) :
    stage = .queued ∧ data = requestNo n := by
  have hmem : (k, data) ∈ waitingFrom k (t.node s) :=
    List.mem_filter.mpr ⟨hd, decide_eq_true rfl⟩
  rw [h.queued] at hmem
  by_cases hstage : stage = .queued
  · rw [if_pos hstage, List.mem_singleton, Prod.mk.injEq] at hmem
    exact ⟨hstage, hmem.2⟩
  · rw [if_neg hstage] at hmem
    cases hmem

omit [DecidableEq ν] in
/-- INTERNAL: a client that the server is not at waits. -/
theorem AtServer.waits {k : ν} {x : HostState ν} (h : AtServer k x)
    (hserving : beingServed x ≠ some k) : ∃ d ∈ x.inbox, d.1 = k := h.resolve_right hserving

/-- INTERNAL: **every step of the server brings the reply nearer.**
SOURCE: server_n.c:125-142 -/
theorem stepsToReply_step {role : ν → Role ν} {hs : List (HostHappening ν)}
    {t : NetState ν ν (List UInt8) (HostState ν)} {k s : ν} {act : TestAct ν} {vars : TestVars ν}
    {inbox : List (ν × List UInt8)} (h : Talks role hs t) (hrole : role s = .server)
    (hk : AtServer k (t.node s)) (hstep : (t.node s).vars.step .recvfrom act = some vars)
    (hinbox : inboxAfter false (t.node s).inbox act = some inbox)
    (hquiet : ∀ data, act ≠ .sendto (some k) data) :
    AtServer k ⟨vars, inbox⟩ ∧ stepsToReply k ⟨vars, inbox⟩ + 1 ≤ stepsToReply k (t.node s) := by
  obtain ⟨hclients, v, hv, -, -⟩ := h.server s hrole
  rw [hv] at hstep
  obtain ⟨v', hvstep, rfl⟩ := Option.map_eq_some_iff.mp hstep
  cases serverNStep_of_serverN hvstep with
  | loop hpc | flushBuffer hpc =>
      cases hinbox
      have hwaits := hk.waits (by simp [beingServed, hv, hpc])
      refine ⟨Or.inl hwaits, ?_⟩
      simp [stepsToReply, hv, hpc]
  | fillBuffer hpc =>
      cases hinbox
      constructor
      · rcases hk with hk | hk
        · exact Or.inl hk
        · right
          simpa [beingServed, hv, hpc] using hk
      · simp only [stepsToReply, hv, hpc]
        split
        · exact le_refl _
        · exact le_refl _
  | recvfromError hpc => cases hinbox
  | recvfrom src data hpc =>
      have hfront := inboxAfter_recvfrom hinbox
      have hmem : (src, data) ∈ (t.node s).inbox := by
        rw [hfront]
        exact List.mem_cons_self
      obtain ⟨n, stage, hsession, -⟩ := h.session src s (hclients _ hmem)
      obtain ⟨-, rfl⟩ := hsession.queued_of_mem hmem
      rw [if_pos (length_requestNo_ne_zero n)]
      simp only [stepsToReply, hv, hpc, hfront]
      by_cases hsrc : src = k
      · -- The server turns to the client.
        subst hsrc
        rw [ahead_cons_self, if_pos rfl]
        exact ⟨Or.inr rfl, le_refl _⟩
      · have hother : some src ≠ some k := fun heq => hsrc (Option.some.inj heq)
        obtain ⟨d, hd, hdk⟩ := hk.waits (by simp [beingServed, hv, hpc])
        rw [hfront] at hd
        rw [ahead_cons_of_ne hsrc, if_neg hother]
        constructor
        · rcases List.mem_cons.mp hd with rfl | hd
          · exact absurd hdk hsrc
          · exact Or.inl ⟨d, hd, hdk⟩
        · omega
  | sendto hpc =>
      have hother : v.serverStorage ≠ some k := by
        intro haddr
        rw [haddr] at hquiet
        exact hquiet _ rfl
      cases hinbox
      have hwaits := hk.waits (by simpa [beingServed, hv, hpc] using hother)
      refine ⟨Or.inl hwaits, ?_⟩
      simp only [stepsToReply, hv, hpc, if_neg hother]
      exact le_refl _

/-- INTERNAL: a datagram that comes in does not change the turn of a client. -/
theorem stepsToReply_arrive {k : ν} {x : HostState ν} (hk : AtServer k x) (src : ν)
    (data : List UInt8) :
    AtServer k { x with inbox := x.inbox ++ [(src, data)] } ∧
      stepsToReply k { x with inbox := x.inbox ++ [(src, data)] } = stepsToReply k x := by
  rcases hk with ⟨d, hd, hdk⟩ | hk
  · refine ⟨Or.inl ⟨d, List.mem_append_left _ hd, hdk⟩, ?_⟩
    simp only [stepsToReply, ahead_append ⟨d, hd, hdk⟩]
  · refine ⟨Or.inr hk, ?_⟩
    obtain ⟨vars, inbox⟩ := x
    cases vars with
    | client c => rfl
    | server v =>
        cases hpc : v.pc with
        | fillBuffer | sendto =>
            have haddr : v.serverStorage = some k := by simpa [beingServed, hpc] using hk
            simp only [stepsToReply, hpc, if_pos haddr]
        | loop | flushBuffer | recvfrom =>
            simp only [beingServed, hpc] at hk
            cases hk

/-! ## A run -/

/-- The steps of the program on one host. -/
def opsAt (s : ν) : NetLabel ν ν (List UInt8) (HostLabel ν) → List (TestAct ν)
  | .node n (.op act) => if n = s then [act] else []
  | _ => []

/-- INTERNAL: one step of the hosts before the reply. -/
theorem atServer_step {role : ν → Role ν} (hroles : ∀ k s, role k = .client s → role s = .server)
    {t t' : NetState ν ν (List UInt8) (HostState ν)} {k s : ν}
    {l : NetLabel ν ν (List UInt8) (HostLabel ν)} (hrole : role s = .server)
    (h : (∃ hs, Talks role hs t) ∧ AtServer k (t.node s))
    (hquiet : ∀ data, l ≠ .node s (.op (.sendto (some k) data)))
    (hstep : (hostNet false role).step t l = some t') :
    ((∃ hs, Talks role hs t') ∧ AtServer k (t'.node s)) ∧
      stepsToReply k (t'.node s) + (opsAt s l).length ≤ stepsToReply k (t.node s) := by
  obtain ⟨⟨hs, htalks⟩, hk⟩ := h
  have htalks' : ∃ hs, Talks role hs t' := ⟨_, talks_step hroles htalks hstep⟩
  have hcases : networkStep mesh (fun n => testHost false .recvfrom (role n)) hostEvents t l =
      some t' := hstep
  rcases networkStep_cases hcases with
    ⟨n, a, x, flight, rfl, hx, -, rfl⟩ | ⟨p, f, rest, rfl, -, rfl⟩
  · by_cases hns : n = s
    · subst hns
      rcases hostStep_cases hx with
        ⟨act, vars, inbox, rfl, hvars, hinbox, rfl⟩ | ⟨src, data, rfl, rfl⟩
      · obtain ⟨hk', hless⟩ := stepsToReply_step htalks hrole hk hvars hinbox fun data heq =>
          hquiet data (by rw [heq])
        simp only [Function.update_self, opsAt, if_true]
        exact ⟨⟨htalks', hk'⟩, hless⟩
      · obtain ⟨hk', hsame⟩ := stepsToReply_arrive hk src data
        simp only [Function.update_self, opsAt]
        exact ⟨⟨htalks', hk'⟩, le_of_eq hsame⟩
    · have hops : (opsAt s (.node n a)).length = 0 := by
        cases a with
        | op act => simp [opsAt, hns]
        | arrive src data => rfl
      simp only [Function.update_of_ne (Ne.symm hns), hops]
      exact ⟨⟨htalks', hk⟩, le_refl _⟩
  · exact ⟨⟨htalks', hk⟩, le_refl _⟩

/-- INTERNAL: the server, the clients that wait for it and the one it is at are different. -/
theorem nodup_atServer {role : ν → Role ν} {hs : List (HostHappening ν)}
    {t : NetState ν ν (List UInt8) (HostState ν)} {s : ν} (h : Talks role hs t)
    (hrole : role s = .server) :
    ((beingServed (t.node s)).toList ++ (t.node s).inbox.map Prod.fst).Nodup ∧
      ∀ j ∈ (beingServed (t.node s)).toList ++ (t.node s).inbox.map Prod.fst,
        role j = .client s := by
  obtain ⟨hclients, v, hv, hserves, -⟩ := h.server s hrole
  have hserved : ∀ j, beingServed (t.node s) = some j → role j = .client s := by
    intro j hj
    rw [beingServed, hv] at hj
    cases hpc : v.pc with
    | fillBuffer =>
        obtain ⟨i, haddr, hi⟩ := hserves (Or.inl hpc)
        simp only [hpc, haddr, Option.some.injEq] at hj
        exact hj ▸ hi
    | sendto =>
        obtain ⟨i, haddr, hi⟩ := hserves (Or.inr hpc)
        simp only [hpc, haddr, Option.some.injEq] at hj
        exact hj ▸ hi
    | loop | flushBuffer | recvfrom =>
        simp only [hpc] at hj
        cases hj
  have hwaiting : ∀ j ∈ (t.node s).inbox.map Prod.fst, role j = .client s := by
    intro j hj
    obtain ⟨d, hd, rfl⟩ := List.mem_map.mp hj
    exact hclients d hd
  refine ⟨List.nodup_append.mpr ⟨?_, ?_, ?_⟩, ?_⟩
  · cases beingServed (t.node s) with
    | none => exact List.nodup_nil
    | some j => exact List.nodup_singleton j
  · refine List.nodup_iff_count_le_one.mpr fun j => ?_
    by_cases hj : j ∈ (t.node s).inbox.map Prod.fst
    · obtain ⟨n, stage, hsession, -⟩ := h.session j s (hwaiting j hj)
      have hcount : ((t.node s).inbox.map Prod.fst).count j =
          (waitingFrom j (t.node s)).length := by
        rw [List.count, List.countP_map, List.countP_eq_length_filter]
        rfl
      rw [hcount, hsession.queued]
      split
      · exact le_refl _
      · exact Nat.zero_le _
    · rw [List.count_eq_zero_of_not_mem hj]
      exact Nat.zero_le _
  · rintro j hj i hi rfl
    have hserving := Option.mem_toList.mp hj
    obtain ⟨n, stage, hsession, -⟩ := h.session j s (hserved j hserving)
    obtain ⟨⟨src, data⟩, hd, rfl⟩ := List.mem_map.mp hi
    have hqueued := (hsession.queued_of_mem hd).1
    have htaken := hsession.served.mp hserving
    rw [hqueued] at htaken
    cases htaken
  · intro j hj
    rcases List.mem_append.mp hj with hj | hj
    · exact hserved j (Option.mem_toList.mp hj)
    · exact hwaiting j hj

/-- The clients of a server. -/
def clientsOf [Fintype ν] (role : ν → Role ν) (s : ν) : Finset ν :=
  Finset.univ.filter fun j => role j = .client s

/-- INTERNAL: a request that comes in waits for no more than four steps for each client. -/
theorem stepsToReply_le [Fintype ν] {role : ν → Role ν} {hs : List (HostHappening ν)}
    {t : NetState ν ν (List UInt8) (HostState ν)} {k s : ν} (h : Talks role hs t)
    (hrole : role s = .server) (hk : role k = .client s)
    (hnew : ∀ d ∈ (t.node s).inbox, d.1 ≠ k) (hserving : beingServed (t.node s) ≠ some k)
    (data : List UInt8) :
    stepsToReply k ⟨(t.node s).vars, (t.node s).inbox ++ [(k, data)]⟩ ≤
      4 * (clientsOf role s).card := by
  obtain ⟨hnodup, hall⟩ := nodup_atServer h hrole
  have hnotMem : k ∉ (beingServed (t.node s)).toList ++ (t.node s).inbox.map Prod.fst := by
    intro hmem
    rcases List.mem_append.mp hmem with hmem | hmem
    · exact hserving (Option.mem_toList.mp hmem)
    · obtain ⟨d, hd, hdk⟩ := List.mem_map.mp hmem
      exact hnew d hd hdk
  have hcard : (beingServed (t.node s)).toList.length + (t.node s).inbox.length + 1 ≤
      (clientsOf role s).card := by
    have hsub : (k :: ((beingServed (t.node s)).toList ++
        (t.node s).inbox.map Prod.fst)).toFinset ⊆ clientsOf role s := by
      intro j hj
      refine Finset.mem_filter.mpr ⟨Finset.mem_univ j, ?_⟩
      rcases List.mem_cons.mp (List.mem_toFinset.mp hj) with rfl | hj
      · exact hk
      · exact hall j hj
    have hle := Finset.card_le_card hsub
    rw [List.toFinset_card_of_nodup (List.nodup_cons.mpr ⟨hnotMem, hnodup⟩)] at hle
    simpa using hle
  obtain ⟨-, v, hv, hserves, -⟩ := h.server s hrole
  have hbusy : v.pc = .fillBuffer ∨ v.pc = .sendto →
      v.serverStorage ≠ some k ∧ (beingServed (t.node s)).toList.length = 1 := by
    intro hpc
    obtain ⟨j, haddr, -⟩ := hserves hpc
    have hj : beingServed (t.node s) = some j := by
      rw [beingServed, hv]
      rcases hpc with hpc | hpc
      · simp only [hpc, haddr]
      · simp only [hpc, haddr]
    rw [haddr, ← hj]
    exact ⟨hserving, by rw [hj]; rfl⟩
  simp only [stepsToReply, hv, ahead_append_self hnew]
  cases hpc : v.pc with
  | fillBuffer =>
      obtain ⟨hother, hone⟩ := hbusy (Or.inl hpc)
      simp only [if_neg hother]
      omega
  | sendto =>
      obtain ⟨hother, hone⟩ := hbusy (Or.inr hpc)
      simp only [if_neg hother]
      omega
  | loop | flushBuffer | recvfrom =>
      simp only []
      omega

/-- INTERNAL: before the reply there is a step to make. -/
theorem stepsToReply_pos {role : ν → Role ν} {hs : List (HostHappening ν)}
    {t : NetState ν ν (List UInt8) (HostState ν)} {s : ν} (h : Talks role hs t)
    (hrole : role s = .server) (k : ν) : 0 < stepsToReply k (t.node s) := by
  obtain ⟨-, v, hv, -, -⟩ := h.server s hrole
  simp only [stepsToReply, hv]
  by_cases haddr : v.serverStorage = some k
  · cases v.pc <;> simp [haddr]
  · cases v.pc <;> simp [haddr]

/-- INTERNAL: a server with a request has a step to make.
SOURCE: server_n.c:125-142 -/
theorem server_can_move {role : ν → Role ν} {hs : List (HostHappening ν)}
    {t : NetState ν ν (List UInt8) (HostState ν)} {k s : ν} (h : Talks role hs t)
    (hrole : role s = .server) (hk : AtServer k (t.node s)) :
    ∃ act t', (hostNet false role).step t (.node s (.op act)) = some t' := by
  obtain ⟨-, v, hv, hserves, -⟩ := h.server s hrole
  have hmove : ∀ {act : TestAct ν} {v' : ServerN ν} {inbox : List (ν × List UInt8)}
      {flight : ν × ν → List (List UInt8)}, ServerNStep .recvfrom v act v' →
      inboxAfter false (t.node s).inbox act = some inbox →
      carry mesh s t.flight (actEvents act) = some flight →
      ∃ act t', (hostNet false role).step t (.node s (.op act)) = some t' := by
    intro act v' inbox flight hstep hinbox hflight
    have hhost : (testHost false .recvfrom (role s)).step (t.node s) (.op act) =
        some ⟨.server v', inbox⟩ := by
      show hostStep false .recvfrom (t.node s) (.op act) = _
      simp only [hostStep, hv, step_of_serverNStep hstep, hinbox]
    exact ⟨act, _, networkStep_node hhost hflight⟩
  cases hpc : v.pc with
  | loop => exact hmove (.loop v hpc) rfl rfl
  | flushBuffer => exact hmove (.flushBuffer v hpc) rfl rfl
  | fillBuffer => exact hmove (.fillBuffer v hpc) rfl rfl
  | sendto =>
      obtain ⟨j, haddr, -⟩ := hserves (Or.inr hpc)
      have hsend : ServerNStep .recvfrom v _ _ := .sendto v hpc
      rw [haddr] at hsend
      exact hmove hsend rfl rfl
  | recvfrom =>
      obtain ⟨d, hd, -⟩ := hk.waits (by simp [beingServed, hv, hpc])
      cases hinbox : (t.node s).inbox with
      | nil =>
          rw [hinbox] at hd
          cases hd
      | cons d rest =>
          have htake : inboxAfter false (t.node s).inbox (.recvfrom (some d)) = some rest := by
            rw [hinbox]
            exact if_pos rfl
          exact hmove (.recvfrom v d.1 d.2 hpc) htake rfl

/-- **Every request that arrives is answered**, in its turn.  Behind the arrival of a request, and
before the reply to it, the server makes fewer than four steps for each of its clients, whatever
they send and however their steps and the losses are interleaved; and it always has a step to
make.
SOURCE: server_n.c:125-142, client_n.c:139-206 -/
theorem requests_are_answered [Fintype ν] (role : ν → Role ν)
    (hroles : ∀ k s, role k = .client s → role s = .server) (k s : ν) (hk : role k = .client s)
    (pre mid : List (NetLabel ν ν (List UInt8) (HostLabel ν))) (data : List UInt8)
    (t : NetState ν ν (List UInt8) (HostState ν))
    (hrun : (hostNet false role).Run (pre ++ .node s (.arrive k data) :: mid) t)
    (hquiet : ∀ data, .node s (.op (.sendto (some k) data)) ∉ mid) :
    (mid.flatMap (opsAt s)).length < 4 * (clientsOf role s).card ∧
      ∃ act t', (hostNet false role).step t (.node s (.op act)) = some t' := by
  have hrole := hroles k s hk
  obtain ⟨u, hu, -⟩ := hrun.prefix
  obtain ⟨w, hstep, hw, hmid⟩ := hrun.split_at hu
  have htalks := talks_run hroles hu
  -- The request that arrives was on the wire, so none was at the server.
  have hcases : networkStep mesh (fun n => testHost false .recvfrom (role n)) hostEvents u
      (.node s (.arrive k data)) = some w := hstep
  obtain ⟨n, a, x, flight, hl, hx, hcarry, rfl⟩ | ⟨p, f, rest, hl, -⟩ :=
    networkStep_cases hcases
  · cases hl
    cases hx
    obtain ⟨rest, hflight, rfl⟩ := carry_arrive hcarry
    obtain ⟨n, stage, hsession, -⟩ := htalks.session k s hk
    have hout := hsession.outgoing
    rw [hflight] at hout
    obtain ⟨rfl, -, -⟩ := cons_eq_ite hout
    have hnew : ∀ d ∈ (u.node s).inbox, d.1 ≠ k := by
      rintro ⟨src, req⟩ hd rfl
      cases (hsession.queued_of_mem hd).1
    have hserving : beingServed (u.node s) ≠ some k := fun hserving => by
      cases hsession.served.mp hserving
    have hle := stepsToReply_le htalks hrole hk hnew hserving data
    have hhere : AtServer k { u.node s with inbox := (u.node s).inbox ++ [(k, data)] } :=
      Or.inl ⟨(k, data), List.mem_append_right _ List.mem_cons_self, rfl⟩
    obtain ⟨⟨⟨hs, htalks'⟩, hk'⟩, hrank⟩ := (hostNet false role).length_obs_le_rank
      (fun _ _ => True) (fun l => ∀ data, l ≠ .node s (.op (.sendto (some k) data)))
      (fun t => (∃ hs, Talks role hs t) ∧ AtServer k (t.node s))
      (fun t => stepsToReply k (t.node s)) (opsAt s)
      (fun s l s' h _ hq hs => atServer_step hroles hrole h hq hs) hw
      ⟨⟨_, talks_step hroles htalks hstep⟩, by simpa only [Function.update_self] using hhere⟩ hmid
      (fun _ _ _ _ _ _ => trivial) (fun l hl data heq => hquiet data (heq ▸ hl))
    simp only [Function.update_self] at hrank
    have hpos := stepsToReply_pos htalks' hrole k
    exact ⟨by omega, server_can_move htalks' hrole hk'⟩
  · cases hl

/-- A server and two clients of it. -/
def oneServer (n : Fin 3) : Role (Fin 3) := if n = 0 then .server else .client 0

/-- Both clients have sent a request, and the server has taken the first one. -/
def bothRequested : List (NetLabel (Fin 3) (Fin 3) (List UInt8) (HostLabel (Fin 3))) :=
  [.node 1 (.op .usleep), .node 1 (.op .loop), .node 1 (.op .flushBuffer), .node 0 (.op .loop),
    .node 1 (.op (.sendto (some 0) (requestNo 0))), .node 2 (.op .usleep), .node 2 (.op .loop),
    .node 0 (.arrive 1 (requestNo 0)), .node 2 (.op .flushBuffer),
    .node 2 (.op (.sendto (some 0) (requestNo 0))),
    .node 0 (.op (.recvfrom (some (1, requestNo 0))))]

/-- The second request waits for the first. -/
theorem requests_are_answered_bothRequested :
    ∃ t, (hostNet false oneServer).Run
        (bothRequested ++ .node 0 (.arrive 2 (requestNo 0)) :: [.node 0 (.op .fillBuffer)]) t ∧
      ∃ act t', (hostNet false oneServer).step t (.node 0 (.op act)) = some t' := by
  have hroles : ∀ k s, oneServer k = .client s → oneServer s = .server := by decide
  have hsome : ((hostNet false oneServer).exec (hostNet false oneServer).init
      (bothRequested ++ .node 0 (.arrive 2 (requestNo 0)) ::
        [.node 0 (.op .fillBuffer)])).isSome := by decide +kernel
  obtain ⟨t, ht⟩ := Option.isSome_iff_exists.mp hsome
  obtain ⟨-, hmoves⟩ := requests_are_answered oneServer hroles 2 0 (by decide) bothRequested
    [.node 0 (.op .fillBuffer)] (requestNo 0) t ht (by simp)
  exact ⟨t, ht, hmoves⟩

end VtRouter.Analysis
