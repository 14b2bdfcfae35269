import VtRouter.Analysis.Histories
import VtRouter.Analysis.Launch
import VtRouter.Analysis.Topology
import VtRouter.Interface.Network
import VtRouter.Model.Wiring

/-!
# What a network of routers does to its traffic

Each router is a forwarder (`Analysis.Forwarding`), so a network of routers is a network of
forwarders (`routerNet_follows`), and what `Library.FlowPath` says of a flow holds of its traffic.
A network of virtual-time routers does what the same network does without virtual time
(`vtNet_follows`): whatever main orders and the routers charge for, in any interleaving of all
their threads.  And it can do all of it (`routerNet_hosted`), so the two networks cannot be told
apart by what happens on their links and in their queues (`networks_agree`).

The routers do not count the hops of a frame, so routes that lead in a circle keep their traffic
for ever (`traffic_has_a_fate`): it never comes out, and no router drops any of it.
-/

set_option autoImplicit false

namespace VtRouter.Analysis

open Library VtRouter.Model Topology VtRouter.Interface

variable {ν : Type} [DecidableEq ν]

/-! ## Virtual time does not show -/

/-- A virtual-time router and a router without virtual time correspond: the same frames wait,
and the worker runs as the loop. -/
structure RunsAs (cfg : Config) (s : State) (t : RouterState) : Prop where
  queue : t.queue = s.shared.queue
  worker : Mirrors cfg s.worker t.loop

/-- INTERNAL: one step of the virtual-time router is followed by the loop. -/
theorem runsAs_step {cfg : Config} {s s' : State} {t : RouterState} {l : Label}
    (h : RunsAs cfg s t) (hs : (vtRouter cfg).step s l = some s') :
    ∃ t', (routerN cfg).Emits loopEvents t (netEvents l) t' ∧ RunsAs cfg s' t' := by
  obtain ⟨r, queue⟩ := t
  obtain ⟨rfl, hM⟩ := h
  rcases step_cases hs with ⟨act, m, sh, rfl, hm, hsh, rfl⟩ |
    ⟨act, w, sh, rfl, hw, hsh, rfl⟩ | ⟨i, frame, rfl, hi, rfl⟩
  · exact ⟨⟨r, s.shared.queue⟩, .refl _, (mainEffect_of_main hsh).queue_eq.symm, hM⟩
  · obtain ⟨r', hemits, hM'⟩ := mirrors_step hM hw (workerEffect_of_worker hsh)
    exact ⟨⟨r', sh.queue⟩, hemits, rfl, hM'⟩
  · have harrive : (routerN cfg).step ⟨r, s.shared.queue⟩ (.arrive i frame) =
        some ⟨r, Function.update s.shared.queue i (s.shared.queue i ++ [frame])⟩ := if_pos hi
    exact ⟨_, .of_step harrive, rfl, hM⟩

theorem runsAs_init (cfg : Config) : RunsAs cfg (vtRouter cfg).init (routerN cfg).init :=
  ⟨rfl, .running .init⟩

/-- INTERNAL: **a network of virtual-time routers does what the network without virtual time
does.**  The same frames arrive, are taken, sent and lost at the same routers and in the same
order, and the same are left in the queues and on the links.
SOURCE: utils.c:669-834, router_app_vt.c:361-463, router_n.c:155-231 -/
theorem vtNet_follows {cfg : ν → Config} {peer : ν × ℕ → Option (ν × ℕ)}
    {ls : List (NetLabel ν ℕ Frame Label)} {s : NetState ν ℕ Frame State}
    (hrun : (vtNet cfg peer).Run ls s) :
    ∃ ms t, (routerNet cfg peer).Run ms t ∧ routerHistory ms = vtHistory ls ∧
      t.flight = s.flight ∧ ∀ n, RunsAs (cfg n) (s.node n) (t.node n) :=
  network_simulation (fun n => runsAs_init (cfg n)) (fun _ _ _ _ _ h hs => runsAs_step h hs) hrun

/-- INTERNAL: **a network of virtual-time routers can do whatever the network without virtual
time does**, if main's commands are generous enough.
SOURCE: utils.c:669-834, router_app_vt.c:361-463, router_n.c:155-231 -/
theorem routerNet_hosted {cfg : ν → Config} {peer : ν × ℕ → Option (ν × ℕ)}
    {ls : List (NetLabel ν ℕ Frame RouterLabel)} {t : NetState ν ℕ Frame RouterState}
    (hrun : (routerNet cfg peer).Run ls t) :
    ∃ ms s, (vtNet cfg peer).Run ms s ∧ vtHistory ms = routerHistory ls ∧
      s.flight = t.flight ∧ ∀ n, Hosts (t.node n) (s.node n) :=
  network_simulation (fun _ => .starting .init .init (fun _ => []) rfl rfl)
    (fun _ _ _ _ _ h hs => hosts_step h hs) hrun

/-- **Virtual time does not show.**  With any links between any routers, what can happen in a
network of routers is what can happen in the network of the virtual-time routers: the same frames
arrive, are taken, sent and lost at the same interfaces and in the same order, and leave the same
frames in the queues and on the links.
SOURCE: utils.c:669-834, router_app_vt.c:361-463, router_n.c:155-231 -/
theorem networks_agree (cfg : ν → Config) (peer : ν × ℕ → Option (ν × ℕ))
    (hs : List (NetworkEvent ν)) (flight : ν × ℕ → List Frame) (queue : ν → ℕ → List Frame) :
    (∃ ls t, (routerNet cfg peer).Run ls t ∧ routerHistory ls = hs ∧ t.flight = flight ∧
      ∀ n, (t.node n).queue = queue n) ↔
    ∃ ls s, (vtNet cfg peer).Run ls s ∧ vtHistory ls = hs ∧ s.flight = flight ∧
      ∀ n, (s.node n).shared.queue = queue n := by
  constructor
  · rintro ⟨ls, t, hrun, hhist, hflight, hqueue⟩
    obtain ⟨ms, s, hs, hsame, hsflight, hhosts⟩ := routerNet_hosted hrun
    refine ⟨ms, s, hs, hsame.trans hhist, hsflight.trans hflight, fun n => ?_⟩
    rw [(hhosts n).queue_eq, hqueue n]
  · rintro ⟨ls, s, hrun, hhist, hflight, hqueue⟩
    obtain ⟨ms, t, ht, hsame, htflight, hnode⟩ := vtNet_follows hrun
    refine ⟨ms, t, ht, hsame.trans hhist, htflight.trans hflight, fun n => ?_⟩
    rw [(hnode n).queue, hqueue n]

/-! ## Routers are forwarders -/

omit [DecidableEq ν] in
/-- INTERNAL: the happenings of a network of forwarders are its labels. -/
theorem flatMap_happenings (ms : List (NetworkEvent ν)) :
    ms.flatMap (happenings fun e => [e]) = ms := by
  induction ms with
  | nil => rfl
  | cons m ms ih =>
      rw [List.flatMap_cons, ih]
      cases m with
      | node n e => rfl
      | lose p f => rfl

/-- INTERNAL: one step of a router is followed by the forwarder. -/
theorem implements_emits {cfg : Config} {t t' : RouterState} {u : Forwarder ℕ Frame Departure}
    {l : RouterLabel} (h : Implements t u) (hs : (routerN cfg).step t l = some t') :
    ∃ u', (forwarder (dueFor cfg)).Emits (fun e => [e]) u (loopEvents l) u' ∧
      Implements t' u' := by
  obtain ⟨u', hu', h'⟩ := implements_step h hs
  exact ⟨u', ⟨loopEvents l, hu', List.flatMap_singleton' _⟩, h'⟩

theorem implements_init (cfg : Config) :
    Implements (routerN cfg).init (forwarder (dueFor cfg)).init := ⟨rfl, rfl, nofun⟩

/-- INTERNAL: **a network of routers is a network of forwarders.** -/
theorem routerNet_follows {cfg : ν → Config} {peer : ν × ℕ → Option (ν × ℕ)}
    {ls : List (NetLabel ν ℕ Frame RouterLabel)} {t : NetState ν ℕ Frame RouterState}
    (hrun : (routerNet cfg peer).Run ls t) :
    ∃ u, (fabric (wiring peer) fun n => dueFor (cfg n)).Run (routerHistory ls) u ∧
      u.flight = t.flight ∧ ∀ n, Implements (t.node n) (u.node n) := by
  obtain ⟨ms, u, hu, hsame, hflight, himp⟩ := network_simulation
    (fun n => implements_init (cfg n)) (fun _ _ _ _ _ h hs => implements_emits h hs) hrun
  rw [flatMap_happenings] at hsame
  rw [routerHistory, ← hsame]
  exact ⟨u, hu, hflight, himp⟩

/-! ## Delivery -/

/-- Nothing is left to do at the interfaces `ports`, and their routers wait for frames. -/
def RoutersIdle (ports : List (ν × ℕ)) (t : NetState ν ℕ Frame RouterState) : Prop :=
  ∀ p ∈ ports, (t.node p.1).queue p.2 = [] ∧ t.flight p = [] ∧
    ((t.node p.1).loop.pc = .poll ∨ (t.node p.1).loop.pc = .blockingPoll)

/-- The same of virtual-time routers. -/
def VtRoutersIdle (ports : List (ν × ℕ)) (s : NetState ν ℕ Frame State) : Prop :=
  ∀ p ∈ ports, (s.node p.1).shared.queue p.2 = [] ∧ s.flight p = [] ∧
    ((s.node p.1).worker.pc = .poll ∨ (s.node p.1).worker.pc = .blockingPoll)

/-- `P` holds in every run of either network in which the traffic comes in from hosts at `first`
and at no other interface (`ComesInAt`); it is told what has happened, and whether the interfaces
`ports` are idle. -/
def InEveryRun (cfg : ν → Config) (peer : ν × ℕ → Option (ν × ℕ)) (T : Traffic) (first : ν × ℕ)
    (ports : List (ν × ℕ)) (P : List (NetworkEvent ν) → Prop → Prop) : Prop :=
  (∀ ls t, (routerNet cfg peer).Run ls t → ComesInAt peer T first (routerHistory ls) →
    P (routerHistory ls) (RoutersIdle ports t)) ∧
  ∀ ls s, (vtNet cfg peer).Run ls s → ComesInAt peer T first (vtHistory ls) →
    P (vtHistory ls) (VtRoutersIdle ports s)

omit [DecidableEq ν] in
/-- INTERNAL: where virtual-time routers are idle, so are the loops that they run as. -/
theorem routersIdle_of_vt {cfg : ν → Config} {ports : List (ν × ℕ)}
    {s : NetState ν ℕ Frame State} {t : NetState ν ℕ Frame RouterState}
    (hflight : t.flight = s.flight) (hnode : ∀ n, RunsAs (cfg n) (s.node n) (t.node n))
    (hidle : VtRoutersIdle ports s) : RoutersIdle ports t := by
  intro p hp
  obtain ⟨hqueue, hfl, hpc⟩ := hidle p hp
  obtain ⟨hsame, hM⟩ := hnode p.1
  refine ⟨by rw [hsame, hqueue], by rw [hflight, hfl], ?_⟩
  rcases hpc with hpc | hpc
  · left
    rw [hM.eq_mirror (by simp [hpc]) (by simp [hpc])]
    simp [mirror, hpc, loopAt]
  · right
    obtain ⟨revents, hr⟩ := hM.of_blockingPoll hpc
    rw [hr]
    rfl

/-- INTERNAL: what holds in every run without virtual time holds in every run. -/
theorem inEveryRun {cfg : ν → Config} {peer : ν × ℕ → Option (ν × ℕ)} {T : Traffic}
    {first : ν × ℕ} {ports : List (ν × ℕ)} {P : List (NetworkEvent ν) → Prop → Prop}
    (hmono : ∀ {hs idle idle'}, (idle' → idle) → P hs idle → P hs idle')
    (h : ∀ ls t, (routerNet cfg peer).Run ls t → ComesInAt peer T first (routerHistory ls) →
      P (routerHistory ls) (RoutersIdle ports t)) : InEveryRun cfg peer T first ports P := by
  refine ⟨h, fun ls s hrun henter => ?_⟩
  obtain ⟨ms, t, ht, hsame, hflight, hnode⟩ := vtNet_follows hrun
  rw [← hsame] at henter ⊢
  exact hmono (routersIdle_of_vt hflight hnode) (h ms t ht henter)

omit [DecidableEq ν] in
/-- INTERNAL: nothing is at an idle interface. -/
theorem contents_of_idle {ports : List (ν × ℕ)} {t : NetState ν ℕ Frame RouterState}
    {u : NetState ν ℕ Frame (Forwarder ℕ Frame Departure)} (hflight : u.flight = t.flight)
    (himp : ∀ n, Implements (t.node n) (u.node n)) (hidle : RoutersIdle ports t) {p : ν × ℕ}
    (hp : p ∈ ports) :
    u.contents.hand p.1 = none ∧ u.contents.queue p = [] ∧ u.contents.flight p = [] := by
  obtain ⟨hqueue, hfl, hpc⟩ := hidle p hp
  refine ⟨?_, (congrFun (himp p.1).queue p.2).trans hqueue, (congrFun hflight p).trans hfl⟩
  have hhand := (himp p.1).inHand
  rwa [inHand_eq_none (by rcases hpc with hpc | hpc <;> rw [hpc] <;> simp)] at hhand

omit [DecidableEq ν] in
/-- INTERNAL: nothing is on an idle path. -/
theorem transit_of_idle {cfg : ν → Config} {peer : ν × ℕ → Option (ν × ℕ)} {T : Traffic}
    {ports : List (ν × ℕ)} {t : NetState ν ℕ Frame RouterState}
    {u : NetState ν ℕ Frame (Forwarder ℕ Frame Departure)} (hflight : u.flight = t.flight)
    (himp : ∀ n, Implements (t.node n) (u.node n)) (hidle : RoutersIdle ports t) :
    (flowTo cfg peer T).transit ports u.contents = [] := by
  refine List.flatMap_eq_nil_iff.mpr fun p hp => ?_
  obtain ⟨hhand, hqueue, hfl⟩ := contents_of_idle hflight himp hidle (List.mem_reverse.mp hp)
  simp only [Flow.station, hhand, hqueue, hfl]
  rfl

/-- INTERNAL: nothing is inside of idle interfaces. -/
theorem inside_of_idle {cfg : ν → Config} {peer : ν × ℕ → Option (ν × ℕ)} {T : Traffic}
    {ports : List (ν × ℕ)} {t : NetState ν ℕ Frame RouterState}
    {u : NetState ν ℕ Frame (Forwarder ℕ Frame Departure)} (hflight : u.flight = t.flight)
    (himp : ∀ n, Implements (t.node n) (u.node n)) (hidle : RoutersIdle ports t) :
    (flowTo cfg peer T).inside ports.toFinset u.contents = 0 := by
  have hport : ∀ p ∈ ports.toFinset, u.contents.hand p.1 = none ∧ u.contents.queue p = [] ∧
      u.contents.flight p = [] :=
    fun p hp => contents_of_idle hflight himp hidle (List.mem_toFinset.mp hp)
  have hhands : ∀ n ∈ ports.toFinset.image Prod.fst, u.contents.hand n = none := by
    intro n hn
    obtain ⟨p, hp, rfl⟩ := Finset.mem_image.mp hn
    exact (hport p hp).1
  unfold Flow.inside
  rw [Finset.sum_eq_zero fun n hn => by rw [hhands n hn]; rfl,
    Finset.sum_eq_zero fun p hp => by rw [(hport p hp).2.1]; rfl,
    Finset.sum_eq_zero fun p hp => by rw [(hport p hp).2.2]; rfl]
  rfl

/-- INTERNAL: traffic that is led out of the network. -/
theorem delivers_of_exits {cfg : ν → Config} {peer : ν × ℕ → Option (ν × ℕ)} {T : Traffic}
    {first last : ν × ℕ} {path : List (ν × ℕ)} (hpath : (flowTo cfg peer T).Path (first :: path))
    (hexit : (flowTo cfg peer T).Exits (first :: path) last) :
    InEveryRun cfg peer T first (first :: path) (DeliveredTo peer T last) := by
  apply inEveryRun
  · rintro hs idle idle' himp ⟨⟨underWay, horder, hperm, hidle⟩, honly⟩
    exact ⟨⟨underWay, horder, hperm, fun h => hidle (himp h)⟩, honly⟩
  · intro ls t hrun henter
    obtain ⟨u, hu, hflight, himp⟩ := routerNet_follows hrun
    obtain ⟨horder, hperm, honly⟩ := Flow.fate_of_exits hpath hexit hu henter
    exact ⟨⟨(flowTo cfg peer T).transit (first :: path) u.contents, horder, hperm,
      fun hidle => transit_of_idle hflight himp hidle⟩, honly⟩

/-- **Delivery.**  Traffic that comes in at one interface only, and that the routes lead out of the
network from there, comes out where they lead it and nowhere else, in the order in which it came
in and none of it twice; what does not come out is still under way, or was lost on a link.  This
holds for routers without virtual time and for virtual-time routers, in every run in which no
such frame comes in from a host at a second interface (`ComesInAt`).
SOURCE: router_n.c:155-231, utils.c:381-436, 669-834, router_app_vt.c:361-463 -/
theorem network_delivers (cfg : ν → Config) (peer : ν × ℕ → Option (ν × ℕ)) (T : Traffic)
    (first last : ν × ℕ) (path : List (ν × ℕ))
    (hpath : (flowTo cfg peer T).Path (first :: path))
    (hexit : (flowTo cfg peer T).Exits (first :: path) last) :
    InEveryRun cfg peer T first (first :: path) (DeliveredTo peer T last) :=
  delivers_of_exits hpath hexit

/-- The links of the three switches and four hosts of the manifests in the repository.
SOURCE: mininet/topo_APP_VT.json:7 -/
def lineLinks : List LinkArgs :=
  let h := node .host
  let s := node .switch
  match appTopo [(h 1, s 1), (h 2, s 1), (s 1, s 2), (s 2, s 3), (h 3, s 3), (h 4, s 3)]
      Dict.empty Dict.empty (bytes "/tmp") with
  | .ok (_, calls) => addedLinks calls
  | .error _ => []

/-- The entry of a route to a host.
SOURCE: routing/routes/s1_routes.txt:1-4, s2_routes.txt:1-4, s3_routes.txt:1-4 -/
def route (host sw intf : Fin 10) : RoutingEntry where
  ipAddress := CString.ofBytes (hostIp host)
  outputIf := CString.ofBytes (Launch.intfName (node .switch sw).text intf)
  ipFits := by revert host; decide +kernel
  ifFits := by revert sw intf; decide +kernel

/-- The routes in the repository. -/
def lineRoutes (sw : NodeName) : List RoutingEntry :=
  if sw = node .switch 1 then [route 1 1 1, route 2 1 2, route 3 1 3, route 4 1 3]
  else if sw = node .switch 2 then [route 1 2 1, route 2 2 1, route 3 2 2, route 4 2 2]
  else [route 1 3 3, route 2 3 3, route 3 3 1, route 4 3 2]

/-- From the first host to the third the routes lead through all switches. -/
theorem network_delivers_line :
    InEveryRun (routerConfig lineLinks lineRoutes) (peerOf lineLinks)
      (trafficBetween ⟨10, 0, 0, 1⟩ ⟨10, 0, 0, 3⟩) (node .switch 1, 0)
      [(node .switch 1, 0), (node .switch 2, 0), (node .switch 3, 2)]
      (DeliveredTo (peerOf lineLinks) (trafficBetween ⟨10, 0, 0, 1⟩ ⟨10, 0, 0, 3⟩)
        (node .switch 3, 0)) := by
  apply network_delivers
  · refine ⟨?_, by decide +kernel⟩
    refine List.isChain_cons_cons.mpr ⟨?_, List.isChain_cons_cons.mpr ⟨?_,
      List.isChain_singleton _⟩⟩
    · decide +kernel
    · decide +kernel
  · exact ⟨(node .switch 3, 2), by simp, rfl, by decide +kernel, by decide +kernel⟩

/-! ## Traffic without a way out -/

omit [DecidableEq ν] in
/-- INTERNAL: the more is idle, the less is said. -/
theorem Withheld.mono {cfg : ν → Config} {peer : ν × ℕ → Option (ν × ℕ)} {T : Traffic}
    {hs : List (NetworkEvent ν)} {idle idle' : Prop} (himp : idle' → idle)
    (h : Withheld cfg peer T hs idle) : Withheld cfg peer T hs idle' := by
  obtain ⟨hnever, underWay, hperm, hidle⟩ := h
  exact ⟨hnever, underWay, hperm, fun h => hidle (himp h)⟩

/-- INTERNAL: traffic that is led to a router without a route for it. -/
theorem withheld_of_drops {cfg : ν → Config} {peer : ν × ℕ → Option (ν × ℕ)} {T : Traffic}
    {first : ν × ℕ} {path : List (ν × ℕ)} (hpath : (flowTo cfg peer T).Path (first :: path))
    (hdrops : (flowTo cfg peer T).Drops (first :: path)) :
    InEveryRun cfg peer T first (first :: path) (Withheld cfg peer T) := by
  refine inEveryRun Withheld.mono fun ls t hrun henter => ?_
  obtain ⟨u, hu, hflight, himp⟩ := routerNet_follows hrun
  obtain ⟨hnever, hperm⟩ := Flow.fate_of_drops hpath hdrops hu fun x hx hk =>
    (henter x hx hk) ▸ List.mem_cons_self
  exact ⟨fun x hx => Bool.eq_false_iff.mpr (hnever x hx), _, hperm,
    fun hidle => transit_of_idle hflight himp hidle⟩

/-- INTERNAL: traffic that is led in a circle. -/
theorem withheld_of_returns {cfg : ν → Config} {peer : ν × ℕ → Option (ν × ℕ)} {T : Traffic}
    {first port : ν × ℕ} {path : List (ν × ℕ)} (hpath : (flowTo cfg peer T).Path (first :: path))
    (hreturns : (flowTo cfg peer T).Returns (first :: path) port) :
    InEveryRun cfg peer T first (port :: first :: path) fun hs idle =>
      Withheld cfg peer T hs idle ∧ droppedBy cfg T hs = [] := by
  refine inEveryRun (fun himp h => ⟨Withheld.mono himp h.1, h.2⟩) fun ls t hrun henter => ?_
  obtain ⟨u, hu, hflight, himp⟩ := routerNet_follows hrun
  obtain ⟨hnever, hnotDropped, hinside⟩ := Flow.fate_of_returns hpath hreturns hu fun x hx hk =>
    (henter x hx hk) ▸ List.mem_cons_of_mem _ List.mem_cons_self
  have hdropped : droppedBy cfg T (routerHistory ls) = [] :=
    List.filter_eq_nil_iff.mpr hnotDropped
  refine ⟨⟨fun x hx => Bool.eq_false_iff.mpr (hnever x hx),
    ((flowTo cfg peer T).inside (port :: first :: path).toFinset u.contents).toList, ?_, ?_⟩,
    hdropped⟩
  · rw [hdropped, List.map_nil, List.nil_append]
    apply Multiset.coe_eq_coe.mp
    rw [← Multiset.coe_add, Multiset.coe_toList]
    exact hinside
  · intro hidle
    rw [inside_of_idle hflight himp hidle, Multiset.toList_zero]

/-- **What becomes of traffic.**  From the interface at which it comes in, the routes lead it
through different routers, and so through no more than there are: out of the network, where it
comes out; to a router that drops it; or back to a router it has passed.  Then none of it is ever
dropped, for no router counts the hops, and none comes out: the routers come to rest only if all
of it is lost.
SOURCE: router_n.c:155-231, utils.c:381-436, 669-834, router_app_vt.c:361-463 -/
theorem traffic_has_a_fate [Fintype ν] (cfg : ν → Config) (peer : ν × ℕ → Option (ν × ℕ))
    (T : Traffic) (first : ν × ℕ) :
    ∃ path, (flowTo cfg peer T).Path (first :: path) ∧ path.length < Fintype.card ν ∧
      ((∃ last, (flowTo cfg peer T).Exits (first :: path) last ∧
          InEveryRun cfg peer T first (first :: path) (DeliveredTo peer T last)) ∨
        ((flowTo cfg peer T).Drops (first :: path) ∧
          InEveryRun cfg peer T first (first :: path) (Withheld cfg peer T)) ∨
        ∃ port, (flowTo cfg peer T).Returns (first :: path) port ∧
          InEveryRun cfg peer T first (port :: first :: path) fun hs idle =>
            Withheld cfg peer T hs idle ∧ droppedBy cfg T hs = []) := by
  obtain ⟨path, hpath, hend⟩ := (flowTo cfg peer T).exists_itinerary first
  refine ⟨path, hpath, ?_, ?_⟩
  · have hle := hpath.nodup.length_le_card
    simp only [List.map_cons, List.length_cons, List.length_map] at hle
    omega
  · rcases hend with ⟨last, hexit⟩ | hdrops | ⟨port, hreturns⟩
    · exact Or.inl ⟨last, hexit, delivers_of_exits hpath hexit⟩
    · exact Or.inr (Or.inl ⟨hdrops, withheld_of_drops hpath hdrops⟩)
    · exact Or.inr (Or.inr ⟨port, hreturns, withheld_of_returns hpath hreturns⟩)

end VtRouter.Analysis
