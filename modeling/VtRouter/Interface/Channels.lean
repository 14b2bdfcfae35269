import VtRouter.Model.System

/-!
# The pipes as message queues

The shared part of a state, with a queue of integers in place of each byte stream
(`Channels`), and the effect of each step on it.  A byte stream without frames keeps no
boundaries between messages, so it behaves as a queue only as long as at most one message is
in it: `carries_main` and `carries_worker` are that refinement, with the bound as their
hypothesis.  The bound itself is an invariant of the protocol and is proved there.

`Delivered` is the bookkeeping of a queue: what was sent is what was read and then what is
still in the queue.
-/

set_option autoImplicit false

namespace VtRouter.Interface

open Library VtRouter.Model

/-- The flags, and the messages in each direction that have not been read. -/
structure Channels where
  toWorker : List ℤ
  toMain : List ℤ
  isBlocked : Bool
  stop : Bool

/-- The effect of a step of main on the queues and flags. -/
def Channels.main (c : Channels) : MainAct → Option Channels
  | .ackAndGetNextCommand _ _ _ => some c
  | .readIsBlocked isBlocked => if isBlocked = c.isBlocked then some c else none
  | .pipeSend msg => some { c with toWorker := c.toWorker ++ [msg] }
  | .pipeRead msg =>
      match c.toMain with
      | x :: rest => if msg = x then some { c with toMain := rest } else none
      | [] => none
  | .writeStop => some { c with stop := true }
  | .pthreadJoin => some c

/-- The effect of a step of the worker on the queues and flags. -/
def Channels.worker (c : Channels) : WorkerAct → Option Channels
  | .pipeRead msg =>
      match c.toWorker with
      | x :: rest => if msg = x then some { c with toWorker := rest } else none
      | [] => none
  | .pipeSend msg => some { c with toMain := c.toMain ++ [msg] }
  | .readStop stop => if stop = c.stop then some c else none
  | .writeIsBlocked isBlocked => some { c with isBlocked := isBlocked }
  | _ => some c

/-- The effect of a step of the system on the queues and flags. -/
def Channels.step (c : Channels) : Label → Option Channels
  | .main act => c.main act
  | .worker act => c.worker act
  | .arrive _ _ => some c

/-- INTERNAL: main reads the front of its queue. -/
theorem Channels.main_pipeRead {c c' : Channels} {msg : ℤ}
    (h : c.main (.pipeRead msg) = some c') :
    ∃ rest, c.toMain = msg :: rest ∧ c' = { c with toMain := rest } := by
  simp only [Channels.main] at h
  split at h
  · rename_i x rest hq
    split at h
    · rename_i hmsg
      cases h
      exact ⟨rest, by rw [hq, hmsg], rfl⟩
    · cases h
  · cases h

/-- INTERNAL: the worker reads the front of its queue. -/
theorem Channels.worker_pipeRead {c c' : Channels} {msg : ℤ}
    (h : c.worker (.pipeRead msg) = some c') :
    ∃ rest, c.toWorker = msg :: rest ∧ c' = { c with toWorker := rest } := by
  simp only [Channels.worker] at h
  split at h
  · rename_i x rest hq
    split at h
    · rename_i hmsg
      cases h
      exact ⟨rest, by rw [hq, hmsg], rfl⟩
    · cases h
  · cases h

/-- INTERNAL: main finds the flag as it is. -/
theorem Channels.main_readIsBlocked {c c' : Channels} {isBlocked : Bool}
    (h : c.main (.readIsBlocked isBlocked) = some c') : isBlocked = c.isBlocked ∧ c' = c := by
  simp only [Channels.main] at h
  split at h
  · rename_i heq
    exact ⟨heq, (Option.some.inj h).symm⟩
  · cases h

/-- INTERNAL: the worker finds the flag as it is. -/
theorem Channels.worker_readStop {c c' : Channels} {stop : Bool}
    (h : c.worker (.readStop stop) = some c') : stop = c.stop ∧ c' = c := by
  simp only [Channels.worker] at h
  split at h
  · rename_i heq
    exact ⟨heq, (Option.some.inj h).symm⟩
  · cases h

/-- The byte streams hold the texts of the messages in the queues. -/
structure Carries (sh : Shared) (c : Channels) : Prop where
  mainToThread : sh.mainToThread = c.toWorker.flatMap intText
  threadToMain : sh.threadToMain = c.toMain.flatMap intText
  isBlocked : sh.isBlocked = c.isBlocked
  stop : sh.stop = c.stop

/-- At most one message in each direction, and each an `int`. -/
structure Channels.Small (c : Channels) : Prop where
  toWorker : c.toWorker.length ≤ 1 ∧ ∀ x ∈ c.toWorker, IsInt32 x
  toMain : c.toMain.length ≤ 1 ∧ ∀ x ∈ c.toMain, IsInt32 x

/-- INTERNAL: sending appends the message to the queue.
SOURCE: utils.c:42-54 -/
theorem pipeSend_flatMap (ms : List ℤ) (x : ℤ) :
    pipeSend (ms.flatMap intText) x = (ms ++ [x]).flatMap intText := by
  simp [pipeSend]

/-- INTERNAL: reading a stream with at most one message takes that message.
SOURCE: utils.c:57-70 -/
theorem pipeRead_flatMap {ms : List ℤ} (hone : ms.length ≤ 1) (hint : ∀ x ∈ ms, IsInt32 x)
    {x : ℤ} {rest : List UInt8} (h : pipeRead (ms.flatMap intText) = some (x, rest)) :
    ms = [x] ∧ rest = [] := by
  cases ms with
  | nil =>
      rw [List.flatMap_nil] at h
      cases h
  | cons y ys =>
      have hnil : ys = [] := List.eq_nil_of_length_eq_zero (by simpa using hone)
      subst hnil
      rw [List.flatMap_singleton, pipeRead_intText (hint y (by simp))] at h
      cases h
      exact ⟨rfl, rfl⟩

/-- **The byte stream refines the queue** for the steps of main. -/
theorem carries_main {sh sh' : Shared} {c : Channels} {w : Worker} {act : MainAct}
    (hc : Carries sh c) (hsmall : c.Small) (h : sh.main w act = some sh') :
    ∃ c', c.main act = some c' ∧ Carries sh' c' := by
  obtain ⟨hmt, htm, hb, hs⟩ := hc
  cases mainEffect_of_main h with
  | ackAndGetNextCommand payload advanceErr perRoundAdvance =>
      exact ⟨c, rfl, hmt, htm, hb, hs⟩
  | readIsBlocked => exact ⟨c, if_pos hb, hmt, htm, hb, hs⟩
  | pipeSend msg => exact ⟨_, rfl, by rw [hmt, pipeSend_flatMap], htm, hb, hs⟩
  | pipeRead msg rest hread =>
      rw [htm] at hread
      obtain ⟨hone, rfl⟩ := pipeRead_flatMap hsmall.toMain.1 hsmall.toMain.2 hread
      refine ⟨{ c with toMain := [] }, ?_, hmt, rfl, hb, hs⟩
      simp only [Channels.main, hone, if_true]
  | writeStop => exact ⟨_, rfl, hmt, htm, hb, rfl⟩
  | pthreadJoin hfinished => exact ⟨c, rfl, hmt, htm, hb, hs⟩

/-- INTERNAL: a step of the worker that touches neither a pipe nor a flag leaves them as they
are. -/
theorem carries_of_queue {sh : Shared} {c : Channels} (hc : Carries sh c)
    (queue : ℕ → List Frame) : Carries { sh with queue := queue } c :=
  ⟨hc.mainToThread, hc.threadToMain, hc.isBlocked, hc.stop⟩

/-- **The byte stream refines the queue** for the steps of the worker. -/
theorem carries_worker {sh sh' : Shared} {c : Channels} {act : WorkerAct}
    (hc : Carries sh c) (hsmall : c.Small) (h : sh.worker act = some sh') :
    ∃ c', c.worker act = some c' ∧ Carries sh' c' := by
  obtain ⟨hmt, htm, hb, hs⟩ := hc
  cases workerEffect_of_worker h with
  | pipeRead msg rest hread =>
      rw [hmt] at hread
      obtain ⟨hone, rfl⟩ := pipeRead_flatMap hsmall.toWorker.1 hsmall.toWorker.2 hread
      refine ⟨{ c with toWorker := [] }, ?_, rfl, htm, hb, hs⟩
      simp only [Channels.worker, hone, if_true]
  | pipeSend msg => exact ⟨_, rfl, hmt, by rw [htm, pipeSend_flatMap], hb, hs⟩
  | readStop => exact ⟨c, if_pos hs, hmt, htm, hb, hs⟩
  | writeIsBlocked isBlocked => exact ⟨_, rfl, hmt, htm, rfl, hs⟩
  | recvfrom i frame rest hqueue =>
      exact ⟨c, rfl, carries_of_queue ⟨hmt, htm, hb, hs⟩ _⟩
  | _ => exact ⟨c, rfl, hmt, htm, hb, hs⟩

/-! ## Histories -/

/-- The numbers main sends along a run. -/
def mainSent : List Label → List ℤ :=
  List.filterMap fun l => match l with
    | .main (.pipeSend x) => some x
    | _ => none

/-- The numbers main reads along a run. -/
def mainRead : List Label → List ℤ :=
  List.filterMap fun l => match l with
    | .main (.pipeRead x) => some x
    | _ => none

/-- The numbers the worker sends along a run. -/
def workerSent : List Label → List ℤ :=
  List.filterMap fun l => match l with
    | .worker (.pipeSend x) => some x
    | _ => none

/-- The numbers the worker reads along a run. -/
def workerRead : List Label → List ℤ :=
  List.filterMap fun l => match l with
    | .worker (.pipeRead x) => some x
    | _ => none

/-- Every message sent was read or is in its queue, in order. -/
structure Delivered (ls : List Label) (c : Channels) : Prop where
  toWorker : mainSent ls = workerRead ls ++ c.toWorker
  toMain : workerSent ls = mainRead ls ++ c.toMain

/-- INTERNAL: a step of main keeps the books of both queues. -/
theorem delivered_main {ls : List Label} {c c' : Channels} {act : MainAct}
    (h : Delivered ls c) (hact : c.main act = some c') : Delivered (ls ++ [.main act]) c' := by
  obtain ⟨hw, hm⟩ := h
  cases act with
  | pipeSend msg =>
      cases hact
      constructor
      · simp only [mainSent, workerRead, List.filterMap_append] at hw ⊢
        simp [hw]
      · simp only [workerSent, mainRead, List.filterMap_append] at hm ⊢
        simp [hm]
  | pipeRead msg =>
      obtain ⟨rest, hq, rfl⟩ := Channels.main_pipeRead hact
      constructor
      · simp only [mainSent, workerRead, List.filterMap_append] at hw ⊢
        simp [hw]
      · rw [hq] at hm
        simp only [workerSent, mainRead, List.filterMap_append] at hm ⊢
        simp [hm]
  | readIsBlocked isBlocked =>
      obtain ⟨-, rfl⟩ := Channels.main_readIsBlocked hact
      exact ⟨by simpa [mainSent, workerRead] using hw, by simpa [workerSent, mainRead] using hm⟩
  | _ =>
      cases hact
      exact ⟨by simpa [mainSent, workerRead] using hw, by simpa [workerSent, mainRead] using hm⟩

/-- INTERNAL: a step of the worker keeps the books of both queues. -/
theorem delivered_worker {ls : List Label} {c c' : Channels} {act : WorkerAct}
    (h : Delivered ls c) (hact : c.worker act = some c') :
    Delivered (ls ++ [.worker act]) c' := by
  obtain ⟨hw, hm⟩ := h
  have hsame : ∀ act, mainSent (ls ++ [.worker act]) = mainSent ls ∧
      mainRead (ls ++ [.worker act]) = mainRead ls := by
    intro act
    simp [mainSent, mainRead]
  cases act with
  | pipeSend msg =>
      cases hact
      constructor
      · rw [(hsame _).1, hw]
        simp [workerRead]
      · rw [(hsame _).2]
        simp only [workerSent, List.filterMap_append] at hm ⊢
        simp [hm]
  | pipeRead msg =>
      obtain ⟨rest, hq, rfl⟩ := Channels.worker_pipeRead hact
      constructor
      · rw [(hsame _).1, hw, hq]
        simp [workerRead]
      · rw [(hsame _).2]
        simpa [workerSent] using hm
  | readStop stop =>
      obtain ⟨-, rfl⟩ := Channels.worker_readStop hact
      exact ⟨by simpa [mainSent, workerRead] using hw, by simpa [workerSent, mainRead] using hm⟩
  | _ =>
      cases hact
      exact ⟨by simpa [mainSent, workerRead] using hw, by simpa [workerSent, mainRead] using hm⟩

/-- INTERNAL: an arrival keeps the books of both queues. -/
theorem delivered_arrive {ls : List Label} {c : Channels} (h : Delivered ls c) (i : ℕ)
    (frame : Frame) : Delivered (ls ++ [.arrive i frame]) c := by
  obtain ⟨hw, hm⟩ := h
  exact ⟨by simpa [mainSent, workerRead] using hw, by simpa [workerSent, mainRead] using hm⟩

end VtRouter.Interface
