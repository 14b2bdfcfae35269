import VtRouter.Library.Transition
import VtRouter.Model.MainLoop

/-!
# Main, worker, and what they share

The two threads share two pipes, two flags and, with the network, the receive queues of the
interfaces.  A pipe is a byte stream without frames: `pipeSend` appends a numeral, `pipeRead`
takes all bytes present (up to the size of its buffer) and reads one number off their front.
A label is a step of one of the threads or the arrival of a frame, so a run is an
interleaving.
-/

set_option autoImplicit false

namespace VtRouter.Model

open Library

/-- SOURCE: utils.c:42-54 -/
def pipeSend (pipe : List UInt8) (msg : ℤ) : List UInt8 := pipe ++ intText msg

/-- `none` where the read waits for a first byte.
SOURCE: utils.c:57-70 -/
def pipeRead (pipe : List UInt8) : Option (ℤ × List UInt8) :=
  if pipe = [] then none else some (atoi (pipe.take bufSize), pipe.drop bufSize)

/-- The pipes, the flags of `thread_args`, and the frames waiting at each interface. -/
structure Shared where
  mainToThread : List UInt8
  threadToMain : List UInt8
  isBlocked : Bool
  stop : Bool
  queue : ℕ → List Frame

structure State where
  main : Main
  worker : Worker
  shared : Shared

/-- SOURCE: router_app_vt.c:361-380 -/
def State.init : State := ⟨.init, .init, ⟨[], [], false, false, fun _ => []⟩⟩

inductive Label
  | main (act : MainAct)
  | worker (act : WorkerAct)
  | arrive (i : ℕ) (frame : Frame)
  deriving DecidableEq

/-- The effect of a step of main on what it shares with the worker, `none` where the step has
to wait. -/
def Shared.main (sh : Shared) (worker : Worker) : MainAct → Option Shared
  | .ackAndGetNextCommand _ _ _ => some sh
  | .readIsBlocked isBlocked => if isBlocked = sh.isBlocked then some sh else none
  | .pipeSend msg => some { sh with mainToThread := pipeSend sh.mainToThread msg }
  | .pipeRead msg =>
      match pipeRead sh.threadToMain with
      | some (x, rest) => if msg = x then some { sh with threadToMain := rest } else none
      | none => none
  | .writeStop => some { sh with stop := true }
  | .pthreadJoin => if worker.pc = .finished then some sh else none

/-- The effect of a step of the worker on what it shares with main and the network, `none`
where the step has to wait. -/
def Shared.worker (sh : Shared) : WorkerAct → Option Shared
  | .pipeRead msg =>
      match pipeRead sh.mainToThread with
      | some (x, rest) => if msg = x then some { sh with mainToThread := rest } else none
      | none => none
  | .pipeSend msg => some { sh with threadToMain := pipeSend sh.threadToMain msg }
  | .readStop stop => if stop = sh.stop then some sh else none
  | .writeIsBlocked isBlocked => some { sh with isBlocked := isBlocked }
  | .recvfrom i (some frame) =>
      match sh.queue i with
      | f :: rest =>
          if frame = f then some { sh with queue := Function.update sh.queue i rest } else none
      | [] => none
  | .recvfrom _ none | .charge _ | .fallOff _ | .poll _ | .sendPacket _ _ _ | .tau => some sh

/-- One step of the program or the network. -/
def step (cfg : Config) (s : State) : Label → Option State
  | .main act =>
      match mainLoop s.main act, s.shared.main s.worker act with
      | some m, some sh => some { s with main := m, shared := sh }
      | _, _ => none
  | .worker act =>
      match processThread cfg s.worker act, s.shared.worker act with
      | some w, some sh => some { s with worker := w, shared := sh }
      | _, _ => none
  | .arrive i frame =>
      if i < cfg.nIntfs then
        some { s with shared := { s.shared with
          queue := Function.update s.shared.queue i (s.shared.queue i ++ [frame]) } }
      else none

/-- **The virtual-time router**, for the names of its interfaces and its routing list. -/
def vtRouter (cfg : Config) : LTS State Label := ⟨.init, step cfg⟩

/-! ## The steps by party -/

/-- INTERNAL: a step of the system is a step of main, a step of the worker, or an arrival. -/
theorem step_cases {cfg : Config} {s s' : State} {l : Label} (h : step cfg s l = some s') :
    (∃ act m sh, l = .main act ∧ MainStep s.main act m ∧
      s.shared.main s.worker act = some sh ∧ s' = { s with main := m, shared := sh }) ∨
    (∃ act w sh, l = .worker act ∧ WorkerStep cfg s.worker act w ∧
      s.shared.worker act = some sh ∧ s' = { s with worker := w, shared := sh }) ∨
    (∃ i frame, l = .arrive i frame ∧ i < cfg.nIntfs ∧
      s' = { s with shared := { s.shared with
        queue := Function.update s.shared.queue i (s.shared.queue i ++ [frame]) } }) := by
  cases l with
  | main act =>
      left
      simp only [step] at h
      split at h
      · rename_i m sh hm hsh
        cases h
        exact ⟨act, m, sh, rfl, mainStep_of_mainLoop hm, hsh, rfl⟩
      · cases h
  | worker act =>
      right
      left
      simp only [step] at h
      split at h
      · rename_i w sh hw hsh
        cases h
        exact ⟨act, w, sh, rfl, workerStep_of_processThread hw, hsh, rfl⟩
      · cases h
  | arrive i frame =>
      right
      right
      simp only [step] at h
      split at h
      · rename_i hi
        cases h
        exact ⟨i, frame, rfl, hi, rfl⟩
      · cases h

/-- The effects of main's steps on what it shares, one constructor a kind of step. -/
inductive MainEffect (sh : Shared) (worker : Worker) : MainAct → Shared → Prop
  | ackAndGetNextCommand (payload : Option (List UInt8)) (advanceErr perRoundAdvance : ℤ) :
      MainEffect sh worker (.ackAndGetNextCommand payload advanceErr perRoundAdvance) sh
  | readIsBlocked : MainEffect sh worker (.readIsBlocked sh.isBlocked) sh
  | pipeSend (msg : ℤ) :
      MainEffect sh worker (.pipeSend msg)
        { sh with mainToThread := Model.pipeSend sh.mainToThread msg }
  | pipeRead (msg : ℤ) (rest : List UInt8)
      (hread : Model.pipeRead sh.threadToMain = some (msg, rest)) :
      MainEffect sh worker (.pipeRead msg) { sh with threadToMain := rest }
  | writeStop : MainEffect sh worker .writeStop { sh with stop := true }
  | pthreadJoin (hfinished : worker.pc = .finished) : MainEffect sh worker .pthreadJoin sh

/-- INTERNAL: **inversion of main's effect.** -/
theorem mainEffect_of_main {sh sh' : Shared} {worker : Worker} {act : MainAct}
    (h : sh.main worker act = some sh') : MainEffect sh worker act sh' := by
  cases act with
  | ackAndGetNextCommand payload advanceErr perRoundAdvance =>
      cases h
      exact .ackAndGetNextCommand payload advanceErr perRoundAdvance
  | readIsBlocked isBlocked =>
      simp only [Shared.main] at h
      split at h
      · rename_i heq
        subst heq
        cases h
        exact .readIsBlocked
      · cases h
  | pipeSend msg =>
      cases h
      exact .pipeSend msg
  | pipeRead msg =>
      simp only [Shared.main] at h
      split at h
      · rename_i x rest hread
        split at h
        · rename_i heq
          subst heq
          cases h
          exact .pipeRead msg rest hread
        · cases h
      · cases h
  | writeStop =>
      cases h
      exact .writeStop
  | pthreadJoin =>
      simp only [Shared.main] at h
      split at h
      · rename_i hfinished
        cases h
        exact .pthreadJoin hfinished
      · cases h

/-- The effects of the worker's steps on what it shares, one constructor a kind of step. -/
inductive WorkerEffect (sh : Shared) : WorkerAct → Shared → Prop
  | pipeRead (msg : ℤ) (rest : List UInt8)
      (hread : Model.pipeRead sh.mainToThread = some (msg, rest)) :
      WorkerEffect sh (.pipeRead msg) { sh with mainToThread := rest }
  | pipeSend (msg : ℤ) :
      WorkerEffect sh (.pipeSend msg)
        { sh with threadToMain := Model.pipeSend sh.threadToMain msg }
  | readStop : WorkerEffect sh (.readStop sh.stop) sh
  | writeIsBlocked (isBlocked : Bool) :
      WorkerEffect sh (.writeIsBlocked isBlocked) { sh with isBlocked := isBlocked }
  | charge (cost : ℤ) : WorkerEffect sh (.charge cost) sh
  | fallOff (ret : ℤ) : WorkerEffect sh (.fallOff ret) sh
  | poll (outcome : PollOutcome) : WorkerEffect sh (.poll outcome) sh
  | recvfrom (i : ℕ) (frame : Frame) (rest : List Frame) (hqueue : sh.queue i = frame :: rest) :
      WorkerEffect sh (.recvfrom i (some frame))
        { sh with queue := Function.update sh.queue i rest }
  | recvfromError (i : ℕ) : WorkerEffect sh (.recvfrom i none) sh
  | sendPacket (i : ℕ) (dst : ℤ) (data : List UInt8) :
      WorkerEffect sh (.sendPacket i dst data) sh
  | tau : WorkerEffect sh .tau sh

/-- INTERNAL: **inversion of the worker's effect.** -/
theorem workerEffect_of_worker {sh sh' : Shared} {act : WorkerAct}
    (h : sh.worker act = some sh') : WorkerEffect sh act sh' := by
  cases act with
  | pipeRead msg =>
      simp only [Shared.worker] at h
      split at h
      · rename_i x rest hread
        split at h
        · rename_i heq
          subst heq
          cases h
          exact .pipeRead msg rest hread
        · cases h
      · cases h
  | pipeSend msg =>
      cases h
      exact .pipeSend msg
  | readStop stop =>
      simp only [Shared.worker] at h
      split at h
      · rename_i heq
        subst heq
        cases h
        exact .readStop
      · cases h
  | writeIsBlocked isBlocked =>
      cases h
      exact .writeIsBlocked isBlocked
  | charge cost =>
      cases h
      exact .charge cost
  | fallOff ret =>
      cases h
      exact .fallOff ret
  | poll outcome =>
      cases h
      exact .poll outcome
  | recvfrom i frame =>
      cases frame with
      | none =>
          cases h
          exact .recvfromError i
      | some frame =>
          simp only [Shared.worker] at h
          split at h
          · rename_i f rest hqueue
            split at h
            · rename_i heq
              subst heq
              cases h
              exact .recvfrom i frame rest hqueue
            · cases h
          · cases h
  | sendPacket i dst data =>
      cases h
      exact .sendPacket i dst data
  | tau =>
      cases h
      exact .tau

/-- INTERNAL: every effect by name is one of the function. -/
theorem main_of_mainEffect {sh sh' : Shared} {w : Worker} {act : MainAct}
    (h : MainEffect sh w act sh') : sh.main w act = some sh' := by
  cases h <;> simp_all [Shared.main]

/-- INTERNAL: every effect by name is one of the function. -/
theorem worker_of_workerEffect {sh sh' : Shared} {act : WorkerAct} (h : WorkerEffect sh act sh') :
    sh.worker act = some sh' := by
  cases h <;> simp_all [Shared.worker]

/-- INTERNAL: a step of main with its effect is a step of the system. -/
theorem step_of_mainStep {cfg : Config} {s : State} {act : MainAct} {m : Main} {sh : Shared}
    (hm : MainStep s.main act m) (heffect : MainEffect s.shared s.worker act sh) :
    step cfg s (.main act) = some { s with main := m, shared := sh } := by
  simp only [step, mainLoop_of_mainStep hm, main_of_mainEffect heffect]

/-- INTERNAL: a step of the worker with its effect is a step of the system. -/
theorem step_of_workerStep {cfg : Config} {s : State} {act : WorkerAct} {w : Worker}
    {sh : Shared} (hw : WorkerStep cfg s.worker act w)
    (heffect : WorkerEffect s.shared act sh) :
    step cfg s (.worker act) = some { s with worker := w, shared := sh } := by
  simp only [step, processThread_of_workerStep hw, worker_of_workerEffect heffect]

/-- INTERNAL: main leaves the queues of the interfaces alone. -/
theorem MainEffect.queue_eq {sh sh' : Shared} {worker : Worker} {act : MainAct}
    (h : MainEffect sh worker act sh') : sh'.queue = sh.queue := by
  cases h <;> rfl

/-- INTERNAL: the worker takes frames by `recvfrom` only. -/
theorem WorkerEffect.queue_eq {sh sh' : Shared} {act : WorkerAct} (h : WorkerEffect sh act sh')
    {j : ℕ} (hact : ∀ frame, act ≠ .recvfrom j frame) : sh'.queue j = sh.queue j := by
  cases h with
  | recvfrom i frame rest hqueue =>
      have hij : j ≠ i := by
        rintro rfl
        exact hact _ rfl
      exact Function.update_of_ne hij _ _
  | _ => rfl

/-- INTERNAL: an `int` prints at most eleven bytes. -/
theorem length_intText_le {x : ℤ} (hx : IsInt32 x) : (intText x).length ≤ 11 := by
  have hdec : ∀ n : ℕ, n ≤ 2 ^ 31 → (decimal n).length ≤ 10 := by
    intro n hn
    rw [decimal, List.length_map, Nat.length_toDigits_le_iff (by norm_num) (by norm_num)]
    norm_num at *
    omega
  obtain ⟨hlo, hhi⟩ := hx
  cases x with
  | ofNat n =>
      have := hdec n (by norm_num at *; omega)
      simp only [intText]
      omega
  | negSucc n =>
      have := hdec (n + 1) (by norm_num at *; omega)
      simp only [intText, List.length_cons]
      omega

/-- INTERNAL: a read from a pipe that holds one numeral takes exactly that number.
SOURCE: utils.c:42-70 -/
theorem pipeRead_intText {x : ℤ} (hx : IsInt32 x) : pipeRead (intText x) = some (x, []) := by
  have hlen : (intText x).length ≤ bufSize := by
    have := length_intText_le hx
    unfold bufSize
    omega
  unfold pipeRead
  rw [if_neg (intText_ne_nil x), List.take_of_length_le hlen, List.drop_of_length_le hlen,
    atoi_intText]

end VtRouter.Model
