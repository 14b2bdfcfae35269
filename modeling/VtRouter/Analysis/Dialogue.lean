import VtRouter.Analysis.HostHistories

/-!
# What the test programs say to each other

A client sends a request only when it has the reply to the one before, and a server a reply only
to the request it has just taken.  So between a client and its server at most one datagram is
under way, and where it is, or who has it, is what the `Stage` of their exchange says
(`Session`).  A server may have many clients: what it does for one leaves the sessions of the
others alone (`Talks.update`).

Neither program sends anything twice, so a dialogue is over once a datagram of it is lost.
-/

set_option autoImplicit false

namespace VtRouter.Analysis

open Library VtRouter.Model VtRouter.Interface

variable {ν : Type} [DecidableEq ν]

/-! ## One session -/

/-- The datagrams of a client that wait at a host. -/
def waitingFrom (k : ν) (x : HostState ν) : List (ν × List UInt8) :=
  x.inbox.filter fun d => d.1 = k

/-- The client whose request a server has taken and not yet answered. -/
def beingServed (x : HostState ν) : Option ν :=
  match x.vars with
  | .client _ => none
  | .server v =>
      match v.pc with
      | .fillBuffer | .sendto => v.serverStorage
      | _ => none

/-- A client that has taken `n` replies and not sent the next request. -/
def ComposesRequest (n : ℕ) (c : ClientN ν) : Prop :=
  match c.pc with
  | .usleep | .loop | .flushRequest => c.pktNo = wrap32 n
  | .sendto =>
      c.pktNo = wrap32 n ∧ c.buffer = request (wrap32 n) ∧
        c.nBytes = (request (wrap32 n)).length + 1
  | .computation => wrap32 (c.pktNo + 1) = wrap32 n
  | .flushReply | .recvfrom => False

/-- A client that has taken `n` replies and waits for the next. -/
def ExpectsReply (n : ℕ) (c : ClientN ν) : Prop :=
  (c.pc = .flushReply ∨ c.pc = .recvfrom) ∧ c.pktNo = wrap32 n

/-- **A client and its server**, whose exchange number `n` has come to a stage. -/
structure Session (k s : ν) (n : ℕ) (stage : Stage)
    (t : NetState ν ν (List UInt8) (HostState ν)) : Prop where
  client : ∃ c, (t.node k).vars = .client c ∧ c.serverAddr = s ∧
    if stage = .composing then ComposesRequest n c else ExpectsReply n c
  outgoing : t.flight (s, k) = if stage = .requested then [requestNo n] else []
  queued : waitingFrom k (t.node s) = if stage = .queued then [(k, requestNo n)] else []
  served : beingServed (t.node s) = some k ↔ stage = .taken
  incoming : t.flight (k, s) = if stage = .replied then [reply] else []
  inbox : (t.node k).inbox = if stage = .answered then [(s, reply)] else []

/-- A server that deals with its clients only. -/
def ServesClients (role : ν → Role ν) (s : ν) (x : HostState ν) : Prop :=
  (∀ d ∈ x.inbox, role d.1 = .client s) ∧
    ∃ v, x.vars = .server v ∧
      ((v.pc = .fillBuffer ∨ v.pc = .sendto) →
        ∃ k, v.serverStorage = some k ∧ role k = .client s) ∧
      (v.pc = .sendto → v.buffer = reply)

/-- One of two hosts is a client of the other. -/
def Paired (role : ν → Role ν) (p : ν × ν) : Prop :=
  role p.1 = .client p.2 ∨ role p.2 = .client p.1

/-- **The hosts in the middle of their dialogues.** -/
structure Talks (role : ν → Role ν) (hs : List (HostHappening ν))
    (t : NetState ν ν (List UInt8) (HostState ν)) : Prop where
  session : ∀ k s, role k = .client s →
    ∃ n stage, Session k s n stage t ∧ conversation k s hs = script k s n stage
  server : ∀ s, role s = .server → ServesClients role s (t.node s)
  flight : ∀ p, t.flight p ≠ [] → Paired role p
  paired : ∀ h ∈ hs, Paired role (parties h)

/-! ## What the others notice -/

omit [DecidableEq ν] in
/-- INTERNAL: what is in the place of one stage is there at that stage only. -/
theorem cons_eq_ite {β : Type} {P : Prop} [Decidable P] {x y : β} {rest : List β}
    (h : y :: rest = if P then [x] else []) : P ∧ y = x ∧ rest = [] := by
  by_cases hP : P
  · rw [if_pos hP, List.cons.injEq] at h
    exact ⟨hP, h⟩
  · rw [if_neg hP] at h
    cases h

theorem conversation_append (k s : ν) (hs es : List (HostHappening ν)) :
    conversation k s (hs ++ es) = conversation k s hs ++ conversation k s es :=
  List.filter_append hs es

theorem conversation_eq_self {k s : ν} {es : List (HostHappening ν)}
    (h : ∀ e ∈ es, parties e = (k, s) ∨ parties e = (s, k)) : conversation k s es = es :=
  List.filter_eq_self.mpr fun e he => decide_eq_true (h e he)

omit [DecidableEq ν] in
/-- INTERNAL: a client is not its server. -/
theorem ne_of_client {role : ν → Role ν} (hroles : ∀ k s, role k = .client s → role s = .server)
    {k s : ν} (hk : role k = .client s) : k ≠ s := by
  rintro rfl
  rw [hroles k k hk] at hk
  cases hk

/-- INTERNAL: a session depends on the client, on the wires between the two, and on what the
server has of this client. -/
theorem Session.congr {k s : ν} {n : ℕ} {stage : Stage}
    {t t' : NetState ν ν (List UInt8) (HostState ν)} (h : Session k s n stage t)
    (hnode : t'.node k = t.node k) (hout : t'.flight (s, k) = t.flight (s, k))
    (hin : t'.flight (k, s) = t.flight (k, s))
    (hwaiting : waitingFrom k (t'.node s) = waitingFrom k (t.node s))
    (hserving : beingServed (t'.node s) = some k ↔ beingServed (t.node s) = some k) :
    Session k s n stage t' where
  client := by
    rw [hnode]
    exact h.client
  outgoing := hout.trans h.outgoing
  queued := hwaiting.trans h.queued
  served := hserving.trans h.served
  incoming := hin.trans h.incoming
  inbox := by
    rw [hnode]
    exact h.inbox

/-- INTERNAL: **what happens between a client and its server is no other client's business.** -/
theorem Talks.update {role : ν → Role ν} (hroles : ∀ k s, role k = .client s → role s = .server)
    {hs es : List (HostHappening ν)} {t t' : NetState ν ν (List UInt8) (HostState ν)} {k s : ν}
    (h : Talks role hs t) (hk : role k = .client s) (n : ℕ) (stage : Stage)
    (hsession : Session k s n stage t') (hscript : conversation k s hs ++ es = script k s n stage)
    (hes : ∀ e ∈ es, parties e = (k, s) ∨ parties e = (s, k))
    (hnode : ∀ m, m ≠ k → m ≠ s → t'.node m = t.node m)
    (hflight : ∀ p, p ≠ (k, s) → p ≠ (s, k) → t'.flight p = t.flight p)
    (hwaiting : ∀ j, j ≠ k → waitingFrom j (t'.node s) = waitingFrom j (t.node s))
    (hserving : ∀ j, j ≠ k →
      (beingServed (t'.node s) = some j ↔ beingServed (t.node s) = some j))
    (hserver : ServesClients role s (t'.node s)) : Talks role (hs ++ es) t' where
  session := by
    intro j r hj
    by_cases hjk : j = k
    · subst hjk
      rw [hk] at hj
      cases hj
      refine ⟨n, stage, hsession, ?_⟩
      rw [conversation_append, conversation_eq_self hes]
      exact hscript
    · obtain ⟨m, stage', hother, hsame⟩ := h.session j r hj
      have hjs : j ≠ s := by
        rintro rfl
        rw [hroles k j hk] at hj
        cases hj
      have hrk : r ≠ k := by
        rintro rfl
        rw [hroles j r hj] at hk
        cases hk
      have hquiet : conversation j r es = [] := by
        refine List.filter_eq_nil_iff.mpr fun e he => ?_
        rw [decide_eq_true_eq]
        rcases hes e he with hp | hp
        · rw [hp]
          simp [Ne.symm hjk, Ne.symm hrk]
        · rw [hp]
          simp [Ne.symm hjk, Ne.symm hjs]
      refine ⟨m, stage', hother.congr (hnode j hjk hjs) (hflight _ (by simp [hrk]) (by simp [hjk]))
        (hflight _ (by simp [hjk]) (by simp [hjs])) ?_ ?_, ?_⟩
      · by_cases hrs : r = s
        · subst hrs
          exact hwaiting j hjk
        · rw [hnode r hrk hrs]
      · by_cases hrs : r = s
        · subst hrs
          exact hserving j hjk
        · rw [hnode r hrk hrs]
      · rw [conversation_append, hquiet, List.append_nil]
        exact hsame
  server := by
    intro r hr
    by_cases hrs : r = s
    · subst hrs
      exact hserver
    · have hrk : r ≠ k := by
        rintro rfl
        rw [hk] at hr
        cases hr
      rw [hnode r hrk hrs]
      exact h.server r hr
  flight := by
    intro p hp
    by_cases hks : p = (k, s)
    · rw [hks]
      exact Or.inl hk
    · by_cases hsk : p = (s, k)
      · rw [hsk]
        exact Or.inr hk
      · rw [hflight p hks hsk] at hp
        exact h.flight p hp
  paired := by
    intro e he
    rcases List.mem_append.mp he with he | he
    · exact h.paired e he
    · rcases hes e he with hp | hp
      · rw [hp]
        exact Or.inl hk
      · rw [hp]
        exact Or.inr hk

/-- INTERNAL: what a client does, its server and the other clients do not notice. -/
theorem Talks.atClient {role : ν → Role ν} (hroles : ∀ k s, role k = .client s → role s = .server)
    {hs es : List (HostHappening ν)} {t : NetState ν ν (List UInt8) (HostState ν)} {k s : ν}
    {x : HostState ν} {flight : ν × ν → List (List UInt8)} (h : Talks role hs t)
    (hk : role k = .client s) (n : ℕ) (stage : Stage)
    (hsession : Session k s n stage ⟨Function.update t.node k x, flight⟩)
    (hscript : conversation k s hs ++ es = script k s n stage)
    (hes : ∀ e ∈ es, parties e = (k, s) ∨ parties e = (s, k))
    (hflight : ∀ p, p ≠ (k, s) → p ≠ (s, k) → flight p = t.flight p) :
    Talks role (hs ++ es) ⟨Function.update t.node k x, flight⟩ := by
  have hsk : s ≠ k := (ne_of_client hroles hk).symm
  apply h.update hroles hk n stage hsession hscript hes
  · exact fun m hm _ => Function.update_of_ne hm _ _
  · exact hflight
  · exact fun j _ => by simp only [Function.update_of_ne hsk]
  · exact fun j _ => by simp only [Function.update_of_ne hsk]
  · simpa only [Function.update_of_ne hsk] using h.server s (hroles k s hk)

/-- INTERNAL: what a server does for one client, the others do not notice. -/
theorem Talks.atServer {role : ν → Role ν} (hroles : ∀ k s, role k = .client s → role s = .server)
    {hs es : List (HostHappening ν)} {t : NetState ν ν (List UInt8) (HostState ν)} {k s : ν}
    {x : HostState ν} {flight : ν × ν → List (List UInt8)} (h : Talks role hs t)
    (hk : role k = .client s) (n : ℕ) (stage : Stage)
    (hsession : Session k s n stage ⟨Function.update t.node s x, flight⟩)
    (hscript : conversation k s hs ++ es = script k s n stage)
    (hes : ∀ e ∈ es, parties e = (k, s) ∨ parties e = (s, k))
    (hflight : ∀ p, p ≠ (k, s) → p ≠ (s, k) → flight p = t.flight p)
    (hwaiting : ∀ j, j ≠ k → waitingFrom j x = waitingFrom j (t.node s))
    (hserving : ∀ j, j ≠ k → (beingServed x = some j ↔ beingServed (t.node s) = some j))
    (hserver : ServesClients role s x) :
    Talks role (hs ++ es) ⟨Function.update t.node s x, flight⟩ := by
  apply h.update hroles hk n stage hsession hscript hes
  · exact fun m _ hm => Function.update_of_ne hm _ _
  · exact hflight
  · simpa only [Function.update_self] using hwaiting
  · simpa only [Function.update_self] using hserving
  · simpa only [Function.update_self] using hserver

/-! ## On the wires -/

theorem carry_arrive {n src : ν} {data : List UInt8}
    {flight flight' : ν × ν → List (List UInt8)}
    (h : carry mesh n flight [.arrive src data] = some flight') :
    ∃ rest, flight (n, src) = data :: rest ∧
      flight' = Function.update flight (n, src) rest := by
  obtain ⟨after, hafter, hdone⟩ := Option.bind_eq_some_iff.mp h
  cases hdone
  cases hq : flight (n, src) with
  | nil =>
      simp only [carryEvent, mesh, hq] at hafter
      cases hafter
  | cons g rest =>
      simp only [carryEvent, mesh, hq] at hafter
      split at hafter
      · rename_i heq
        subst heq
        cases hafter
        exact ⟨rest, rfl, rfl⟩
      · cases hafter

/-- INTERNAL: a datagram is lost. -/
theorem talks_lose {role : ν → Role ν} (hroles : ∀ k s, role k = .client s → role s = .server)
    {hs : List (HostHappening ν)} {t : NetState ν ν (List UInt8) (HostState ν)} {p : ν × ν}
    {f : List UInt8} {rest : List (List UInt8)} (h : Talks role hs t)
    (hp : t.flight p = f :: rest) :
    Talks role (hs ++ [.lose p f]) { t with flight := Function.update t.flight p rest } := by
  have hpaired : Paired role p := h.flight p (by rw [hp]; nofun)
  obtain ⟨a, b⟩ := p
  rcases hpaired with hk | hk
  · -- A reply to the client `a`.
    obtain ⟨n, stage, hsession, hsame⟩ := h.session a b hk
    have hab : a ≠ b := ne_of_client hroles hk
    have hin := hsession.incoming
    rw [hp] at hin
    obtain ⟨rfl, rfl, rfl⟩ := cons_eq_ite hin
    apply h.update hroles hk n .replyLost
    · exact {
        client := by simpa using hsession.client
        outgoing := by simpa [Function.update_of_ne, hab, hab.symm] using hsession.outgoing
        queued := by simpa using hsession.queued
        served := by simpa using hsession.served
        incoming := by simp
        inbox := by simpa using hsession.inbox }
    · rw [hsame]
      simp [script, Stage.happened, exchange]
    · simp [parties]
    · exact fun m _ _ => rfl
    · exact fun p hp _ => Function.update_of_ne hp _ _
    · exact fun j _ => rfl
    · exact fun j _ => Iff.rfl
    · exact h.server b (hroles a b hk)
  · -- A request of the client `b`.
    obtain ⟨n, stage, hsession, hsame⟩ := h.session b a hk
    have hab : b ≠ a := ne_of_client hroles hk
    have hout := hsession.outgoing
    rw [hp] at hout
    obtain ⟨rfl, rfl, rfl⟩ := cons_eq_ite hout
    apply h.update hroles hk n .requestLost
    · exact {
        client := by simpa using hsession.client
        outgoing := by simp
        queued := by simpa using hsession.queued
        served := by simpa using hsession.served
        incoming := by simpa [Function.update_of_ne, hab, hab.symm] using hsession.incoming
        inbox := by simpa using hsession.inbox }
    · rw [hsame]
      simp [script, Stage.happened, exchange]
    · simp [parties]
    · exact fun m _ _ => rfl
    · exact fun p _ hp => Function.update_of_ne hp _ _
    · exact fun j _ => rfl
    · exact fun j _ => Iff.rfl
    · exact h.server a (hroles b a hk)

/-- INTERNAL: what waits at a host when a datagram has come in. -/
theorem waitingFrom_append (k : ν) (vars : TestVars ν) (inbox : List (ν × List UInt8)) (src : ν)
    (data : List UInt8) :
    waitingFrom k ⟨vars, inbox ++ [(src, data)]⟩ =
      waitingFrom k ⟨vars, inbox⟩ ++ if src = k then [(src, data)] else [] := by
  by_cases hsrc : src = k <;> simp [waitingFrom, hsrc]

/-- INTERNAL: a datagram arrives. -/
theorem talks_arrive {role : ν → Role ν} (hroles : ∀ k s, role k = .client s → role s = .server)
    {hs : List (HostHappening ν)} {t : NetState ν ν (List UInt8) (HostState ν)} {m src : ν}
    {data : List UInt8} {rest : List (List UInt8)} (h : Talks role hs t)
    (hp : t.flight (m, src) = data :: rest) :
    Talks role (hs ++ [.node m (.arrive src data)])
      ⟨Function.update t.node m
          { t.node m with inbox := (t.node m).inbox ++ [(src, data)] },
        Function.update t.flight (m, src) rest⟩ := by
  have hpaired : role m = .client src ∨ role src = .client m :=
    h.flight (m, src) (by rw [hp]; nofun)
  rcases hpaired with hk | hk
  · -- A reply comes to the client `m`.
    obtain ⟨n, stage, hsession, hsame⟩ := h.session m src hk
    have hne : m ≠ src := ne_of_client hroles hk
    have hin := hsession.incoming
    rw [hp] at hin
    obtain ⟨rfl, rfl, rfl⟩ := cons_eq_ite hin
    apply h.atClient hroles hk n .answered
    · exact {
        client := by simpa using hsession.client
        outgoing := by simpa [Function.update_of_ne, hne, hne.symm] using hsession.outgoing
        queued := by simpa [Function.update_of_ne hne.symm] using hsession.queued
        served := by simpa [Function.update_of_ne hne.symm] using hsession.served
        incoming := by simp
        inbox := by simpa using hsession.inbox }
    · rw [hsame]
      simp [script, Stage.happened, exchange]
    · simp [parties]
    · exact fun p hp _ => Function.update_of_ne hp _ _
  · -- A request comes to the server `m`.
    obtain ⟨n, stage, hsession, hsame⟩ := h.session src m hk
    have hne : src ≠ m := ne_of_client hroles hk
    have hout := hsession.outgoing
    rw [hp] at hout
    obtain ⟨rfl, rfl, rfl⟩ := cons_eq_ite hout
    obtain ⟨hinbox, hserver⟩ := h.server m (hroles src m hk)
    apply h.atServer hroles hk n .queued
    · exact {
        client := by simpa [Function.update_of_ne hne] using hsession.client
        outgoing := by simp
        queued := by
          have hqueued := hsession.queued
          simp only [Function.update_self, waitingFrom_append, if_true]
          simpa [waitingFrom] using hqueued
        served := by simpa [beingServed] using hsession.served
        incoming := by simpa [Function.update_of_ne, hne, hne.symm] using hsession.incoming
        inbox := by simpa [Function.update_of_ne hne] using hsession.inbox }
    · rw [hsame]
      simp [script, Stage.happened, exchange]
    · simp [parties]
    · exact fun p _ hp => Function.update_of_ne hp _ _
    · intro j hj
      rw [waitingFrom_append, if_neg (Ne.symm hj), List.append_nil]
    · exact fun j _ => Iff.rfl
    · refine ⟨fun d hd => ?_, hserver⟩
      rcases List.mem_append.mp hd with hd | hd
      · exact hinbox d hd
      · rw [List.mem_singleton.mp hd]
        exact hk

/-! ## The client -/

/-- INTERNAL: a client that is not waiting for a reply composes its request. -/
theorem Session.composes {k s : ν} {n : ℕ} {stage : Stage}
    {t : NetState ν ν (List UInt8) (HostState ν)} {c : ClientN ν}
    (h : Session k s n stage t) (hc : (t.node k).vars = .client c) (hflush : c.pc ≠ .flushReply)
    (hrecv : c.pc ≠ .recvfrom) : stage = .composing ∧ c.serverAddr = s ∧ ComposesRequest n c := by
  obtain ⟨c', hc', haddr, hstage⟩ := h.client
  rw [hc] at hc'
  cases hc'
  by_cases hcomp : stage = .composing
  · rw [if_pos hcomp] at hstage
    exact ⟨hcomp, haddr, hstage⟩
  · rw [if_neg hcomp] at hstage
    exact absurd hstage.1 (by simp [hflush, hrecv])

/-- INTERNAL: a client that waits for a reply has sent its request. -/
theorem Session.expects {k s : ν} {n : ℕ} {stage : Stage}
    {t : NetState ν ν (List UInt8) (HostState ν)} {c : ClientN ν}
    (h : Session k s n stage t) (hc : (t.node k).vars = .client c)
    (hpc : c.pc = .flushReply ∨ c.pc = .recvfrom) :
    stage ≠ .composing ∧ c.serverAddr = s ∧ c.pktNo = wrap32 n := by
  obtain ⟨c', hc', haddr, hstage⟩ := h.client
  rw [hc] at hc'
  cases hc'
  by_cases hcomp : stage = .composing
  · rw [if_pos hcomp, ComposesRequest] at hstage
    rcases hpc with hpc | hpc
    · rw [hpc] at hstage
      cases hstage
    · rw [hpc] at hstage
      cases hstage
  · rw [if_neg hcomp] at hstage
    exact ⟨hcomp, haddr, hstage.2⟩

/-- INTERNAL: a step of a client between its datagrams. -/
theorem Talks.clientSilent {role : ν → Role ν}
    (hroles : ∀ k s, role k = .client s → role s = .server) {hs : List (HostHappening ν)}
    {t : NetState ν ν (List UInt8) (HostState ν)} {k s : ν} {n : ℕ} {stage : Stage}
    {c : ClientN ν} (h : Talks role hs t) (hk : role k = .client s)
    (hsession : Session k s n stage t) (hsame : conversation k s hs = script k s n stage)
    (haddr : c.serverAddr = s)
    (hstage : if stage = .composing then ComposesRequest n c else ExpectsReply n c) :
    Talks role hs ⟨Function.update t.node k ⟨.client c, (t.node k).inbox⟩, t.flight⟩ := by
  have hsk : s ≠ k := (ne_of_client hroles hk).symm
  have htalks : Talks role (hs ++ [])
      ⟨Function.update t.node k ⟨.client c, (t.node k).inbox⟩, t.flight⟩ := by
    apply h.atClient hroles hk n stage
    · exact {
        client := ⟨c, by simp only [Function.update_self], haddr, hstage⟩
        outgoing := hsession.outgoing
        queued := by simpa only [Function.update_of_ne hsk] using hsession.queued
        served := by simpa only [Function.update_of_ne hsk] using hsession.served
        incoming := hsession.incoming
        inbox := by simpa only [Function.update_self] using hsession.inbox }
    · rw [List.append_nil]
      exact hsame
    · exact nofun
    · exact fun p _ _ => rfl
  rwa [List.append_nil] at htalks

omit [DecidableEq ν] in
theorem length_reply : reply.length = clientBufSize - 1 := List.length_replicate

/-- INTERNAL: **one step of a client.**
SOURCE: client_n.c:139-206 -/
theorem talks_client {role : ν → Role ν} (hroles : ∀ k s, role k = .client s → role s = .server)
    {hs : List (HostHappening ν)} {t : NetState ν ν (List UInt8) (HostState ν)} {k s : ν}
    {act : TestAct ν} {vars : TestVars ν} {inbox : List (ν × List UInt8)}
    {flight : ν × ν → List (List UInt8)} (h : Talks role hs t) (hk : role k = .client s)
    (hstep : (t.node k).vars.step .recvfrom act = some vars)
    (hinbox : inboxAfter false (t.node k).inbox act = some inbox)
    (hcarry : carry mesh k t.flight (actEvents act) = some flight) :
    Talks role (hs ++ (actEvents act).map (.node k))
      ⟨Function.update t.node k ⟨vars, inbox⟩, flight⟩ := by
  have hsk : s ≠ k := (ne_of_client hroles hk).symm
  obtain ⟨n, stage, hsession, hsame⟩ := h.session k s hk
  obtain ⟨c, hc, -⟩ := hsession.client
  rw [hc] at hstep
  obtain ⟨c', hcstep, rfl⟩ := Option.map_eq_some_iff.mp hstep
  cases clientNStep_of_clientN hcstep with
  | usleep hpc | loop hpc =>
      obtain ⟨rfl, haddr, hcomp⟩ := hsession.composes hc (by simp [hpc]) (by simp [hpc])
      cases hinbox
      cases hcarry
      simp only [actEvents, List.map_nil, List.append_nil]
      refine h.clientSilent hroles hk hsession hsame haddr ?_
      simpa [ComposesRequest, hpc] using hcomp
  | flushRequest hpc =>
      obtain ⟨rfl, haddr, hcomp⟩ := hsession.composes hc (by simp [hpc]) (by simp [hpc])
      cases hinbox
      cases hcarry
      simp only [actEvents, List.map_nil, List.append_nil]
      refine h.clientSilent hroles hk hsession hsame haddr ?_
      have hno : c.pktNo = wrap32 n := by simpa [ComposesRequest, hpc] using hcomp
      simp [ComposesRequest, hno]
  | computation hpc =>
      obtain ⟨rfl, haddr, hcomp⟩ := hsession.composes hc (by simp [hpc]) (by simp [hpc])
      cases hinbox
      cases hcarry
      simp only [actEvents, List.map_nil, List.append_nil]
      refine h.clientSilent hroles hk hsession hsame haddr ?_
      simpa [ComposesRequest, hpc] using hcomp
  | flushReply hpc =>
      obtain ⟨hstage, haddr, hno⟩ := hsession.expects hc (Or.inl hpc)
      cases hinbox
      cases hcarry
      simp only [actEvents, List.map_nil, List.append_nil]
      refine h.clientSilent hroles hk hsession hsame haddr ?_
      rw [if_neg hstage]
      exact ⟨Or.inr rfl, hno⟩
  | sendto hpc =>
      obtain ⟨rfl, haddr, hcomp⟩ := hsession.composes hc (by simp [hpc]) (by simp [hpc])
      rw [ComposesRequest, hpc] at hcomp
      obtain ⟨hno, hbuffer, hsize⟩ := hcomp
      have hdata : (c.buffer ++ [0]).take c.nBytes.toNat = requestNo n := by
        rw [hbuffer, hsize]
        refine List.take_of_length_le ?_
        rw [List.length_append, List.length_singleton]
        omega
      rw [haddr, hdata] at hcarry ⊢
      cases hinbox
      cases hcarry
      apply h.atClient hroles hk n .requested
      · exact {
          client :=
            ⟨_, congrArg HostState.vars (Function.update_self k _ t.node), rfl, Or.inl rfl, hno⟩
          outgoing := by
            have hout := hsession.outgoing
            simp only [reduceCtorEq, if_false] at hout
            simp [mesh, hout]
          queued := by simpa [Function.update_of_ne hsk] using hsession.queued
          served := by simpa [Function.update_of_ne hsk] using hsession.served
          incoming := by simpa [mesh, Function.update_of_ne, hsk, hsk.symm] using hsession.incoming
          inbox := by simpa using hsession.inbox }
      · rw [hsame]
        simp [script, Stage.happened, exchange, actEvents]
      · simp [actEvents, parties]
      · exact fun p _ hp => Function.update_of_ne hp _ _
  | recvfromError hpc => cases hinbox
  | recvfrom src data hpc =>
      obtain ⟨-, -, hno⟩ := hsession.expects hc (Or.inr hpc)
      have hfront := inboxAfter_recvfrom hinbox
      rw [hsession.inbox] at hfront
      obtain ⟨rfl, hdatagram, rfl⟩ := cons_eq_ite hfront.symm
      cases hdatagram
      cases hcarry
      have hsize : 0 < (reply.take clientBufSize).length := by
        rw [List.length_take, length_reply]
        decide
      generalize reply.take clientBufSize = buffer at hsize
      apply h.atClient hroles hk (n + 1) .composing
      · exact {
          client := by
            refine ⟨_, congrArg HostState.vars (Function.update_self k _ t.node), rfl, ?_⟩
            rw [if_pos rfl, ComposesRequest, if_pos hsize]
            simp [hno]
          outgoing := by simpa using hsession.outgoing
          queued := by simpa [Function.update_of_ne hsk] using hsession.queued
          served := by simpa [Function.update_of_ne hsk] using hsession.served
          incoming := by simpa using hsession.incoming
          inbox := by simp }
      · rw [hsame]
        simp [script, Stage.happened, exchange, actEvents, List.range_succ]
      · simp [actEvents, parties]
      · exact fun p _ _ => rfl

/-! ## The server -/

theorem length_requestNo_ne_zero (n : ℕ) :
    (((requestNo n).take clientBufSize).length : ℤ) ≠ 0 := by
  rw [List.length_take, requestNo, List.length_append, List.length_singleton, clientBufSize]
  omega

/-- INTERNAL: what waits at a host before its first datagram is taken. -/
theorem waitingFrom_cons (k : ν) {x : HostState ν} {src : ν} {data : List UInt8}
    {rest : List (ν × List UInt8)} (hx : x.inbox = (src, data) :: rest) (vars : TestVars ν) :
    waitingFrom k x =
      if src = k then (src, data) :: waitingFrom k ⟨vars, rest⟩
      else waitingFrom k ⟨vars, rest⟩ := by
  by_cases hsrc : src = k <;> simp [waitingFrom, hx, hsrc]

/-- INTERNAL: a step of a server between its datagrams. -/
theorem Talks.serverSilent {role : ν → Role ν} {hs : List (HostHappening ν)}
    {t : NetState ν ν (List UInt8) (HostState ν)} {s : ν} {v : ServerN ν} (h : Talks role hs t)
    (hserving : beingServed ⟨.server v, (t.node s).inbox⟩ = beingServed (t.node s))
    (hrole : role s = .server) (hserver : ServesClients role s ⟨.server v, (t.node s).inbox⟩) :
    Talks role hs ⟨Function.update t.node s ⟨.server v, (t.node s).inbox⟩, t.flight⟩ where
  session := by
    intro k r hk
    obtain ⟨n, stage, hsession, hsame⟩ := h.session k r hk
    have hks : k ≠ s := by
      rintro rfl
      rw [hrole] at hk
      cases hk
    refine ⟨n, stage, hsession.congr (Function.update_of_ne hks _ _) rfl rfl ?_ ?_, hsame⟩
    · by_cases hrs : r = s
      · subst hrs
        simp only [Function.update_self]
        rfl
      · simp only [Function.update_of_ne hrs]
    · by_cases hrs : r = s
      · subst hrs
        simp only [Function.update_self, hserving]
      · simp only [Function.update_of_ne hrs]
  server := by
    intro r hr
    by_cases hrs : r = s
    · subst hrs
      simpa only [Function.update_self] using hserver
    · simpa only [Function.update_of_ne hrs] using h.server r hr
  flight := h.flight
  paired := h.paired

/-- INTERNAL: **one step of a server.**
SOURCE: server_n.c:125-142 -/
theorem talks_server {role : ν → Role ν} (hroles : ∀ k s, role k = .client s → role s = .server)
    {hs : List (HostHappening ν)} {t : NetState ν ν (List UInt8) (HostState ν)} {s : ν}
    {act : TestAct ν} {vars : TestVars ν} {inbox : List (ν × List UInt8)}
    {flight : ν × ν → List (List UInt8)} (h : Talks role hs t) (hrole : role s = .server)
    (hstep : (t.node s).vars.step .recvfrom act = some vars)
    (hinbox : inboxAfter false (t.node s).inbox act = some inbox)
    (hcarry : carry mesh s t.flight (actEvents act) = some flight) :
    Talks role (hs ++ (actEvents act).map (.node s))
      ⟨Function.update t.node s ⟨vars, inbox⟩, flight⟩ := by
  obtain ⟨hwaits, v, hv, hserves, hbuffer⟩ := h.server s hrole
  rw [hv] at hstep
  obtain ⟨v', hvstep, rfl⟩ := Option.map_eq_some_iff.mp hstep
  cases serverNStep_of_serverN hvstep with
  | loop hpc | flushBuffer hpc =>
      cases hinbox
      cases hcarry
      simp only [actEvents, List.map_nil, List.append_nil]
      refine h.serverSilent ?_ hrole ⟨hwaits, _, rfl, nofun, nofun⟩
      simp [beingServed, hv, hpc]
  | fillBuffer hpc =>
      cases hinbox
      cases hcarry
      simp only [actEvents, List.map_nil, List.append_nil]
      refine h.serverSilent ?_ hrole
        ⟨hwaits, _, rfl, fun _ => hserves (Or.inl hpc), fun _ => rfl⟩
      simp [beingServed, hv, hpc]
  | recvfromError hpc => cases hinbox
  | recvfrom src data hpc =>
      have hfront := inboxAfter_recvfrom hinbox
      have hmem : (src, data) ∈ (t.node s).inbox := by
        rw [hfront]
        exact List.mem_cons_self
      have hk : role src = .client s := hwaits (src, data) hmem
      have hks : src ≠ s := ne_of_client hroles hk
      obtain ⟨n, stage, hsession, hsame⟩ := h.session src s hk
      have hqueued := hsession.queued
      rw [waitingFrom_cons src hfront (.server v), if_pos rfl] at hqueued
      obtain ⟨rfl, hdatagram, hrest⟩ := cons_eq_ite hqueued
      cases hdatagram
      cases hcarry
      rw [if_pos (length_requestNo_ne_zero n)]
      generalize (requestNo n).take clientBufSize = buffer
      apply h.atServer hroles hk n .taken
      · exact {
          client := by simpa [Function.update_of_ne hks] using hsession.client
          outgoing := by simpa using hsession.outgoing
          queued := by simpa [waitingFrom] using hrest
          served := by simp [beingServed]
          incoming := by simpa using hsession.incoming
          inbox := by simpa [Function.update_of_ne hks] using hsession.inbox }
      · rw [hsame]
        simp [script, Stage.happened, exchange, actEvents]
      · simp [actEvents, parties]
      · exact fun p _ _ => rfl
      · intro j hj
        rw [waitingFrom_cons j hfront (.server v), if_neg (Ne.symm hj)]
        rfl
      · intro j hj
        simp [beingServed, hv, hpc, Ne.symm hj]
      · refine ⟨fun d hd => hwaits d ?_, _, rfl, fun _ => ⟨src, rfl, hk⟩, nofun⟩
        rw [hfront]
        exact List.mem_cons_of_mem _ hd
  | sendto hpc =>
      obtain ⟨k, haddr, hk⟩ := hserves (Or.inr hpc)
      have hks : k ≠ s := ne_of_client hroles hk
      obtain ⟨n, stage, hsession, hsame⟩ := h.session k s hk
      have hserved : beingServed (t.node s) = some k := by simp [beingServed, hv, hpc, haddr]
      obtain rfl := hsession.served.mp hserved
      have hdata : v.buffer.take (clientBufSize - 1) = reply := by
        rw [hbuffer hpc]
        exact List.take_of_length_le (le_of_eq length_reply)
      rw [hdata, haddr] at hcarry ⊢
      cases hinbox
      cases hcarry
      apply h.atServer hroles hk n .replied
      · exact {
          client := by simpa [Function.update_of_ne hks] using hsession.client
          outgoing := by
            simpa [mesh, Function.update_of_ne, hks, hks.symm] using hsession.outgoing
          queued := by simpa [waitingFrom] using hsession.queued
          served := by simp [beingServed]
          incoming := by
            have hin := hsession.incoming
            simp only [reduceCtorEq, if_false] at hin
            simp [mesh, hin]
          inbox := by simpa [Function.update_of_ne hks] using hsession.inbox }
      · rw [hsame]
        simp [script, Stage.happened, exchange, actEvents]
      · simp [actEvents, parties]
      · exact fun p hp _ => Function.update_of_ne hp _ _
      · exact fun j _ => rfl
      · intro j hj
        rw [hserved]
        simp [beingServed, Ne.symm hj]
      · exact ⟨hwaits, _, rfl, nofun, nofun⟩

/-! ## Every run -/

/-- INTERNAL: **one step of the hosts.** -/
theorem talks_step {role : ν → Role ν} (hroles : ∀ k s, role k = .client s → role s = .server)
    {hs : List (HostHappening ν)} {t t' : NetState ν ν (List UInt8) (HostState ν)}
    {l : NetLabel ν ν (List UInt8) (HostLabel ν)} (h : Talks role hs t)
    (hstep : (hostNet false role).step t l = some t') :
    Talks role (hs ++ happenings hostEvents l) t' := by
  have hcases : networkStep mesh (fun n => testHost false .recvfrom (role n)) hostEvents t l =
      some t' := hstep
  rcases networkStep_cases hcases with
    ⟨n, a, x, flight, rfl, hx, hcarry, rfl⟩ | ⟨p, f, rest, rfl, hp, rfl⟩
  · rcases hostStep_cases hx with
      ⟨act, vars, inbox, rfl, hvars, hinbox, rfl⟩ | ⟨src, data, rfl, rfl⟩
    · cases hrole : role n with
      | client s => exact talks_client hroles h hrole hvars hinbox hcarry
      | server => exact talks_server hroles h hrole hvars hinbox hcarry
    · obtain ⟨rest, hp, rfl⟩ := carry_arrive hcarry
      exact talks_arrive hroles h hp
  · exact talks_lose hroles h hp

theorem talks_init (role : ν → Role ν) : Talks role [] (hostNet false role).init where
  session := by
    intro k s hk
    have hclient : ((hostNet false role).init.node k).vars = .client (.init s) := by
      show (role k).init = _
      rw [hk]
      rfl
    refine ⟨0, .composing, ⟨⟨_, hclient, rfl, ?_⟩, rfl, rfl, ?_, rfl, rfl⟩, rfl⟩
    · rw [if_pos rfl]
      rfl
    · have hnone : beingServed ((hostNet false role).init.node s) = none := by
        show beingServed ⟨(role s).init, []⟩ = none
        cases role s with
        | client r => rfl
        | server => rfl
      rw [hnone]
      exact ⟨nofun, nofun⟩
  server := by
    intro s hs
    have hserver : ((hostNet false role).init.node s).vars = .server .init := by
      show (role s).init = _
      rw [hs]
      rfl
    exact ⟨nofun, _, hserver, nofun, nofun⟩
  flight := fun p hp => absurd rfl hp
  paired := nofun

/-- INTERNAL: **hosts talk to their partners along every run.** -/
theorem talks_run {role : ν → Role ν} (hroles : ∀ k s, role k = .client s → role s = .server)
    {ls : List (NetLabel ν ν (List UInt8) (HostLabel ν))}
    {t : NetState ν ν (List UInt8) (HostState ν)} (hrun : (hostNet false role).Run ls t) :
    Talks role (hostHistory ls) t := by
  refine (hostNet false role).run_invariant (fun ls t => Talks role (hostHistory ls) t)
    (talks_init role) ?_ ls t hrun
  intro ls t l t' _ h hs
  have hsnoc : hostHistory (ls ++ [l]) = hostHistory ls ++ happenings hostEvents l := by
    simp [hostHistory]
  rw [hsnoc]
  exact talks_step hroles h hs

/-- INTERNAL: what has happened are dialogues. -/
theorem Talks.inDialogue {role : ν → Role ν} {hs : List (HostHappening ν)}
    {t : NetState ν ν (List UInt8) (HostState ν)} (h : Talks role hs t) :
    InDialogue role hs where
  scripted := by
    intro k s hk
    obtain ⟨n, stage, -, hsame⟩ := h.session k s hk
    exact ⟨n, stage, hsame⟩
  nobodyElse := by
    intro e he
    rcases h.paired e he with hk | hk
    · exact ⟨_, _, hk, Or.inl rfl⟩
    · exact ⟨_, _, hk, Or.inr rfl⟩

/-- **The dialogues of the test programs.**  With any number of clients to a server, in every run
in which no `recvfrom` fails, with virtual time or without: what happens between a client and its
server is the request, arrival, taking, reply, arrival and taking of one exchange after the
other, numbered from the first; a datagram that is lost is the last of the dialogue; and nobody
ever sends anything to anybody else.
SOURCE: client_n.c:139-206, server_n.c:125-142, client_n_vt.c:211-379, server_n_vt.c:219-339 -/
theorem programs_converse (role : ν → Role ν)
    (hroles : ∀ k s, role k = .client s → role s = .server) :
    (∀ ls t, (hostNet false role).Run ls t → InDialogue role (hostHistory ls)) ∧
      ∀ ls s, (timedNet false role).Run ls s → InDialogue role (timedHistory ls) := by
  refine ⟨fun ls t hrun => (talks_run hroles hrun).inDialogue, fun ls s hrun => ?_⟩
  obtain ⟨ms, t, ht, hsame, -, -⟩ := timedNet_follows hrun
  rw [← hsame]
  exact (talks_run hroles ht).inDialogue

/-- The server `0`, and clients of it. -/
def twoClients (n : ℕ) : Role ℕ := if n = 0 then .server else .client 0

/-- The first client's request is taken, the second one's is lost. -/
def twoRequests : List (NetLabel ℕ ℕ (List UInt8) (HostLabel ℕ)) :=
  [.node 1 (.op .usleep), .node 1 (.op .loop), .node 1 (.op .flushBuffer), .node 0 (.op .loop),
    .node 1 (.op (.sendto (some 0) (requestNo 0))), .node 2 (.op .usleep), .node 2 (.op .loop),
    .node 0 (.arrive 1 (requestNo 0)), .node 2 (.op .flushBuffer),
    .node 2 (.op (.sendto (some 0) (requestNo 0))), .node 1 (.op .flushBuffer),
    .node 0 (.op (.recvfrom (some (1, requestNo 0)))), .lose (0, 2) (requestNo 0)]

/-- What these clients have said. -/
theorem programs_converse_twoRequests :
    (∃ t, (hostNet false twoClients).Run twoRequests t) ∧
      InDialogue twoClients (hostHistory twoRequests) := by
  have hroles : ∀ k s, twoClients k = .client s → twoClients s = .server := by
    intro k s hk
    unfold twoClients at hk
    split at hk
    · cases hk
    · cases hk
      rfl
  have hsome : ((hostNet false twoClients).exec (hostNet false twoClients).init
      twoRequests).isSome := by decide +kernel
  obtain ⟨t, ht⟩ := Option.isSome_iff_exists.mp hsome
  exact ⟨⟨t, ht⟩, (programs_converse twoClients hroles).1 twoRequests t ht⟩

end VtRouter.Analysis
