import VtRouter.Analysis.Handshake

/-!
# Where the worker waits for a packet

Two calls of the worker can wait for a frame: the blocking poll, and `recvfrom` on an empty
queue.  The second never does.  An entry of `revents` that the scan still has to look at
(`Pending`) was set by the last poll, and no frame has left its queue since: only the worker
takes frames, and behind a `recvfrom` the scan is past that interface.  This holds on all ways
into the scan, the one from the blocking poll included.

In the blocking poll the flag is set and the announcement sent, so main is not left waiting
with both pipes empty.
-/

set_option autoImplicit false

namespace VtRouter.Analysis

open Library VtRouter.Model VtRouter.Interface

/-! ## The entries still to be looked at -/

/-- Entry `j` of `revents` comes from the last poll and is still ahead of the scan, at a site. -/
def PendingAt (w : Worker) (j : ℕ) : Site → Prop
  | .poll => ∃ revents, w.ret = .ready revents
  | .flushBuffer => w.i ≤ j
  | _ => w.i < j

/-- Entry `j` of `revents` comes from the last poll and is still ahead of the scan. -/
def Pending (w : Worker) (j : ℕ) : Prop :=
  match w.pc with
  | .updateStub site | .reply site | .nextCmd site | .fallOff site | .testStop site =>
      PendingAt w j site
  | .scan | .recvfrom => w.i ≤ j
  | .sendPacket => w.i < j
  | .resume | .resumeCmd | .resumeStop => True
  | _ => False

/-- The worker is about to take a frame from interface `i`. -/
def Taking (w : Worker) : Prop :=
  match w.pc with
  | .updateStub site | .reply site | .nextCmd site | .fallOff site | .testStop site =>
      site = .flushBuffer
  | .recvfrom => True
  | _ => False

/-- INTERNAL: `update_stub` lets the scan go on where it was.
SOURCE: utils.c:705-769 -/
theorem pending_afterSite {cfg : Config} {w : Worker} {site : Site} {j : ℕ}
    (h : Pending (afterSite cfg w site) j) :
    PendingAt w j site ∧ (afterSite cfg w site).revents = w.revents := by
  cases site with
  | poll =>
      cases hret : w.ret with
      | ready revents =>
          refine ⟨⟨revents, hret⟩, ?_⟩
          simp [afterSite, hret]
      | interrupted => simp [afterSite, hret, Pending] at h
      | failed => simp [afterSite, hret, Pending] at h
  | flushBuffer => exact ⟨h, rfl⟩
  | recvfrom =>
      by_cases hsize : 0 < w.dataSize
      · simp only [afterSite, if_pos hsize] at h ⊢
        exact ⟨h, trivial⟩
      · simp only [afterSite, if_neg hsize] at h ⊢
        exact ⟨h, trivial⟩
  | getDstSockIdx =>
      by_cases hdst : w.dstSockIdx = -1
      · simp [afterSite, hdst, Pending] at h
      · simp only [afterSite, if_pos hdst] at h ⊢
        exact ⟨h, trivial⟩
  | sendPacket => exact ⟨h, rfl⟩

/-- INTERNAL: behind a site the worker takes a frame iff it has just flushed its buffer.
SOURCE: utils.c:705-769 -/
theorem taking_afterSite {cfg : Config} {w : Worker} {site : Site}
    (h : Taking (afterSite cfg w site)) :
    site = .flushBuffer ∧ (afterSite cfg w site).i = w.i ∧
      (afterSite cfg w site).revents = w.revents := by
  cases site with
  | poll => cases hret : w.ret <;> simp [afterSite, hret, Taking] at h
  | flushBuffer => exact ⟨rfl, rfl, rfl⟩
  | recvfrom => by_cases hsize : 0 < w.dataSize <;> simp [afterSite, hsize, Taking] at h
  | getDstSockIdx => by_cases hdst : w.dstSockIdx = -1 <;> simp [afterSite, hdst, Taking] at h
  | sendPacket => simp [afterSite, Taking] at h

/-- INTERNAL: **an entry is pending after a step** only if the step is a poll, or the entry was
pending before and the step does not take a frame from its interface.
SOURCE: utils.c:667-834 -/
theorem pending_step {cfg : Config} {w w' : Worker} {act : WorkerAct} {j : ℕ}
    (h : WorkerStep cfg w act w') (hp : Pending w' j) :
    act = .poll (.ready w'.revents) ∨
      (Pending w j ∧ w'.revents = w.revents ∧ ∀ frame, act ≠ .recvfrom j frame) := by
  cases h with
  | pollReady revents hpc hlen | blockingReady revents hpc hlen hsome
  | blockingIdle revents hpc hlen hnone => exact Or.inl rfl
  | pollError outcome hpc herr =>
      obtain ⟨revents, hret⟩ := hp
      rcases herr with rfl | rfl <;> cases hret
  | blockingInterrupted hpc =>
      unfold Pending at hp
      rw [hpc] at hp
      cases hp
  | chargeOver site hpc hleft | charge site hpc hleft | reply site hpc | nextCmd site msg hpc hmsg
  | fallOff site ret hpc hret =>
      refine Or.inr ⟨?_, rfl, nofun⟩
      unfold Pending
      rw [hpc]
      cases site <;> exact hp
  | testStop site hpc =>
      obtain ⟨hat, hrev⟩ := pending_afterSite hp
      refine Or.inr ⟨?_, hrev, nofun⟩
      unfold Pending
      rw [hpc]
      exact hat
  | scan hpc =>
      refine Or.inr ?_
      have hscan : Pending w j ↔ w.i ≤ j := by
        unfold Pending
        rw [hpc]
      rw [hscan]
      unfold scan at hp ⊢
      split at hp
      · split at hp
        · rename_i hi hr
          simp only [if_pos hi, if_pos hr]
          exact ⟨hp, trivial, nofun⟩
        · rename_i hi hr
          simp only [if_pos hi, if_neg hr]
          simp only [Pending, hpc] at hp
          exact ⟨by omega, trivial, nofun⟩
      · split at hp <;> cases hp
  | recvfrom frame hpc =>
      have hafter : w.i < j := by
        cases frame <;> exact hp
      refine Or.inr ⟨?_, by cases frame <;> rfl, ?_⟩
      · unfold Pending
        rw [hpc]
        exact le_of_lt hafter
      · rintro frame' heq
        cases heq
        omega
  | sendPacket hpc =>
      refine Or.inr ⟨?_, rfl, nofun⟩
      unfold Pending
      rw [hpc]
      exact hp
  | resume hpc | resumeCmd msg hpc hmsg | resumeStop hpc =>
      refine Or.inr ⟨?_, rfl, nofun⟩
      unfold Pending
      rw [hpc]
      trivial
  | _ => cases hp

/-- INTERNAL: the worker only takes a frame from an interface whose entry is set.
SOURCE: utils.c:717-733 -/
theorem taking_step {cfg : Config} {w w' : Worker} {act : WorkerAct}
    (h : WorkerStep cfg w act w') (ht : Taking w') :
    w'.revents.getD w'.i false = true ∨
      (Taking w ∧ w'.i = w.i ∧ w'.revents = w.revents) := by
  cases h with
  | chargeOver site hpc hleft | charge site hpc hleft | reply site hpc | nextCmd site msg hpc hmsg
  | fallOff site ret hpc hret =>
      refine Or.inr ⟨?_, rfl, rfl⟩
      unfold Taking
      rw [hpc]
      exact ht
  | testStop site hpc =>
      obtain ⟨hsite, hi, hrev⟩ := taking_afterSite ht
      refine Or.inr ⟨?_, hi, hrev⟩
      unfold Taking
      rw [hpc]
      exact hsite
  | scan hpc =>
      left
      unfold scan at ht ⊢
      split at ht
      · split at ht
        · rename_i hi hr
          rw [if_pos hi, if_pos hr]
          exact hr
        · simp only [Taking, hpc] at ht
      · split at ht <;> cases ht
  | recvfrom frame hpc => cases frame <;> cases ht
  | blockingInterrupted hpc =>
      unfold Taking at ht
      rw [hpc] at ht
      cases ht
  | blockingIdle revents hpc hlen hnone =>
      simp only [Taking, hpc] at ht
  | _ => cases ht

/-! ## Polls that tell the truth -/

/-- A poll sets `POLLIN` only where a frame is queued. -/
def SoundPoll (s : State) : Label → Prop
  | .worker (.poll (.ready revents)) =>
      ∀ j < revents.length, revents.getD j false = true → s.shared.queue j ≠ []
  | _ => True

instance (s : State) (l : Label) : Decidable (SoundPoll s l) := by
  unfold SoundPoll
  split <;> infer_instance

/-- Every pending entry that is set belongs to a queue with a frame, and the worker takes a
frame only where the entry is set and pending. -/
structure Fresh (s : State) : Prop where
  queued : ∀ j, Pending s.worker j → s.worker.revents.getD j false = true →
    s.shared.queue j ≠ []
  taking : Taking s.worker → s.worker.revents.getD s.worker.i false = true

/-- INTERNAL: an entry that is set is in range. -/
theorem lt_length_of_getD {revents : List Bool} {j : ℕ} (h : revents.getD j false = true) :
    j < revents.length := by
  by_contra hge
  rw [List.getD_eq_getElem?_getD, List.getElem?_eq_none (by omega)] at h
  cases h

/-- INTERNAL: pending entries stay true along every run with sound polls. -/
theorem fresh_run {cfg : Config} {ls : List Label} {s : State}
    (hrun : (vtRouter cfg).Run ls s) (hok : (vtRouter cfg).Along SoundPoll ls) : Fresh s := by
  refine (vtRouter cfg).run_induction SoundPoll (fun _ s => Fresh s) ⟨nofun, nofun⟩ ?_ ls s
    hrun hok
  rintro ls s l s' - ⟨hqueued, htaking⟩ hsound hs
  rcases step_cases hs with ⟨act, m, sh, rfl, hm, hsh, rfl⟩ |
    ⟨act, w, sh, rfl, hw, hsh, rfl⟩ | ⟨i, frame, rfl, hi, rfl⟩
  · refine ⟨?_, htaking⟩
    intro j hp hset
    show sh.queue j ≠ []
    rw [(mainEffect_of_main hsh).queue_eq]
    exact hqueued j hp hset
  · constructor
    · intro j hp hset
      have hset' : w.revents.getD j false = true := hset
      show sh.queue j ≠ []
      rcases pending_step hw hp with rfl | ⟨hp', hrev, hact⟩
      · cases hsh
        exact hsound j (lt_length_of_getD hset') hset'
      · rw [(workerEffect_of_worker hsh).queue_eq hact]
        rw [hrev] at hset'
        exact hqueued j hp' hset'
    · intro ht
      show w.revents.getD w.i false = true
      rcases taking_step hw ht with hset | ⟨ht', hi, hrev⟩
      · exact hset
      · rw [hi, hrev]
        exact htaking ht'
  · refine ⟨?_, htaking⟩
    intro j hp hset
    show Function.update s.shared.queue i (s.shared.queue i ++ [frame]) j ≠ []
    by_cases hij : j = i
    · rw [hij, Function.update_self]
      simp
    · rw [Function.update_of_ne hij]
      exact hqueued j hp hset

/-! ## The announcement -/

/-- What the worker has sent since it last read a command. -/
def sentThisRound (ls : List Label) : List ℤ :=
  ls.foldl (fun sent l => match l with
    | .worker (.pipeRead _) => []
    | .worker (.pipeSend x) => sent ++ [x]
    | _ => sent) []

/-- What has been sent in the round, phase by phase. -/
def RoundOk (sent : List ℤ) : Phase → Prop
  | .computing | .announcing => sent = []
  | .blocked => sent = [threadBlocked]
  | _ => True

/-- INTERNAL: a worker in its blocking poll has sent its announcement and nothing else. -/
theorem roundOk_run {cfg : Config} {ls : List Label} {s : State}
    (hrun : (vtRouter cfg).Run ls s) : RoundOk (sentThisRound ls) (phase s.worker.pc) := by
  refine (vtRouter cfg).run_invariant
    (fun ls s => RoundOk (sentThisRound ls) (phase s.worker.pc)) trivial ?_ ls s hrun
  intro ls s l s' hrun h hs
  obtain ⟨c, hlinked⟩ := linked_run hrun
  rcases step_cases hs with ⟨act, m, sh, rfl, hm, hsh, rfl⟩ |
    ⟨act, w, sh, rfl, hw, hsh, rfl⟩ | ⟨i, frame, rfl, hi, rfl⟩
  · simpa [sentThisRound] using h
  · have hp := phaseStep_of_workerStep hlinked.left hw
    show RoundOk (sentThisRound (ls ++ [.worker act])) (phase w.pc)
    simp only [sentThisRound, List.foldl_append, List.foldl_cons, List.foldl_nil] at h ⊢
    generalize phase s.worker.pc = p at h hp
    generalize phase w.pc = p' at hp
    cases hp with
    | receive msg p' hp' hneg => rcases hp' with rfl | rfl <;> trivial
    | compute act p' hact hp' =>
        rcases hp' with rfl | rfl
        · cases act with
          | pipeRead msg => cases hact
          | pipeSend msg => cases hact
          | writeIsBlocked isBlocked => cases hact
          | _ => exact h
        · trivial
    | reply msg h0 h50 => trivial
    | block => exact h
    | announce =>
        have hnil : ls.foldl _ [] = [] := h
        show ls.foldl _ [] ++ [threadBlocked] = [threadBlocked]
        rw [hnil]
        rfl
    | poll outcome p' hp' =>
        rcases hp' with rfl | rfl
        · exact h
        · trivial
    | wake => trivial
  · simpa [sentThisRound] using h

/-! ## Waiting -/

/-- The worker is in a call that returns only when a frame arrives. -/
def WaitsForPacket (s : State) : Prop :=
  s.worker.pc = .blockingPoll ∨
    s.worker.pc = .recvfrom ∧ s.shared.queue s.worker.i = []

/-- **The worker waits for a packet only when it has said so.**  In every run whose polls are
sound, `recvfrom` finds a frame; when the worker waits for a frame it is in its blocking poll,
its flag is set and its only message since its last command is `THREAD_BLOCKED`; and then main
does not wait for a reply with both pipes empty.
SOURCE: utils.c:677-834; router_app_vt.c:412-447 -/
theorem waits_only_when_announced (cfg : Config) (ls : List Label) (s : State)
    (hrun : (vtRouter cfg).Run ls s) (hpoll : (vtRouter cfg).Along SoundPoll ls) :
    (s.worker.pc = .recvfrom → s.shared.queue s.worker.i ≠ []) ∧
    (WaitsForPacket s → s.worker.pc = .blockingPoll ∧ s.shared.isBlocked = true ∧
      sentThisRound ls = [threadBlocked]) ∧
    ¬(s.main.pc = .waitReply ∧ s.shared.mainToThread = [] ∧ s.shared.threadToMain = [] ∧
      WaitsForPacket s) := by
  obtain ⟨hqueued, htaking⟩ := fresh_run hrun hpoll
  obtain ⟨c, hlinked⟩ := linked_run hrun
  have hrecv : s.worker.pc = .recvfrom → s.shared.queue s.worker.i ≠ [] := by
    intro hpc
    apply hqueued
    · unfold Pending
      rw [hpc]
    · apply htaking
      unfold Taking
      rw [hpc]
      trivial
  have hblocked : WaitsForPacket s → s.worker.pc = .blockingPoll := by
    rintro (hpc | ⟨hpc, hnil⟩)
    · exact hpc
    · exact absurd hnil (hrecv hpc)
  refine ⟨hrecv, ?_, ?_⟩
  · intro hwait
    have hpc := hblocked hwait
    have hround := roundOk_run hrun
    have hhand := hlinked.handshake
    rw [hpc] at hround hhand
    refine ⟨hpc, ?_, hround⟩
    rw [hlinked.carries.isBlocked]
    exact hhand.isBlocked_of_blocked
  · rintro ⟨hmain, hmt, htm, hwait⟩
    have hhand := hlinked.handshake
    rw [hblocked hwait, hmain] at hhand
    cases hhand with
    | answered p b x hx hq =>
        rw [hlinked.carries.threadToMain, List.flatMap_singleton] at htm
        exact intText_ne_nil x htm

/-- The wait at the end of a round in which no frame came. -/
theorem waits_only_when_announced_blockingRound :
    ∃ s, (vtRouter oneIntf).Run blockingRound s ∧ s.worker.pc = .blockingPoll ∧
      s.shared.isBlocked = true ∧ sentThisRound blockingRound = [threadBlocked] := by
  have hexec : ((vtRouter oneIntf).exec State.init blockingRound).map (fun s => s.worker.pc) =
      some .blockingPoll := by decide +kernel
  have hcheck : (vtRouter oneIntf).checkAlong (fun s l => decide (SoundPoll s l)) State.init
      blockingRound = true := by decide +kernel
  obtain ⟨s, hs, hpc⟩ := Option.map_eq_some_iff.mp hexec
  have halong := ((vtRouter oneIntf).along_of_checkAlong _ blockingRound hcheck).mono
    fun _ _ h => of_decide_eq_true h
  obtain ⟨-, hwait, -⟩ := waits_only_when_announced oneIntf blockingRound s hs halong
  exact ⟨s, hs, hwait (Or.inl hpc)⟩

end VtRouter.Analysis
