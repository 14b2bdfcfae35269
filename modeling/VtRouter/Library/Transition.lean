import Mathlib.Data.List.Induction
import Mathlib.Data.Option.Basic
import Mathlib.Logic.Function.Basic

/-!
# Executable labelled transition systems

A system is an initial state and a partial step function; a run is a list of labels
that the step function accepts one after the other.  Since the step function is
deterministic once the label is given, the labels of a run are its whole history, and
every property of "what happened so far" is a property of the list.

Two rules carry the developments that use this file.  `LTS.run_induction` is the
invariant rule: a relation between history and state that holds initially and is kept
by every step holds at the end of every run (`LTS.Along` restricts the steps that have
to be considered).  `LTS.run_simulation` is the forward simulation rule: if every step
of one system is matched by a few steps of another with the same observations, every
run is matched by a run with the same observations.
-/

set_option autoImplicit false

namespace Library

universe u v w x y

/-- A labelled transition system: the state in which every run starts, and the state
after a label, `none` where the label is not enabled. -/
structure LTS (σ : Type u) (α : Type v) where
  init : σ
  step : σ → α → Option σ

namespace LTS

variable {σ : Type u} {α : Type v} {τ : Type w} {β : Type x} {ε : Type y}

/-- Take the labels one after the other from a state. -/
def exec (M : LTS σ α) : σ → List α → Option σ
  | s, [] => some s
  | s, l :: ls => (M.step s l).bind fun s' => M.exec s' ls

/-- `M.Run ls s`: the labels `ls` are a run of `M`, and it ends in `s`. -/
def Run (M : LTS σ α) (ls : List α) (s : σ) : Prop := M.exec M.init ls = some s

/-- Every step of the run `ls` meets `ok`, a condition on the state before the step and
the label. -/
def Along (M : LTS σ α) (ok : σ → α → Prop) (ls : List α) : Prop :=
  ∀ pre l post s, ls = pre ++ l :: post → M.Run pre s → ok s l

@[simp] theorem exec_nil (M : LTS σ α) (s : σ) : M.exec s [] = some s := rfl

/-- INTERNAL: executing a concatenation is executing its halves. -/
theorem exec_append (M : LTS σ α) (s : σ) (ls ms : List α) :
    M.exec s (ls ++ ms) = (M.exec s ls).bind fun t => M.exec t ms := by
  induction ls generalizing s with
  | nil => simp
  | cons l ls ih =>
      simp only [List.cons_append, exec]
      cases M.step s l with
      | none => rfl
      | some s' => simpa using ih s'

@[simp] theorem exec_singleton (M : LTS σ α) (s : σ) (l : α) :
    M.exec s [l] = M.step s l := by
  simp only [exec]
  cases M.step s l <;> rfl

theorem exec_cons_of_step (M : LTS σ α) {s t : σ} {l : α} (h : M.step s l = some t)
    (ls : List α) : M.exec s (l :: ls) = M.exec t ls := by
  simp only [exec, h, Option.bind_some]

/-- INTERNAL: two consecutive executions are one. -/
theorem exec_trans (M : LTS σ α) {s t t' : σ} {ls ms : List α}
    (h : M.exec s ls = some t) (h' : M.exec t ms = some t') :
    M.exec s (ls ++ ms) = some t' := by
  rw [exec_append, h]
  exact h'

@[simp] theorem run_nil_iff (M : LTS σ α) (s : σ) : M.Run [] s ↔ s = M.init := by
  simp [Run, eq_comm]

/-- INTERNAL: the last step of a nonempty run. -/
theorem run_snoc_iff (M : LTS σ α) (ls : List α) (l : α) (s' : σ) :
    M.Run (ls ++ [l]) s' ↔ ∃ s, M.Run ls s ∧ M.step s l = some s' := by
  unfold Run
  rw [exec_append, Option.bind_eq_some_iff]
  simp

/-- INTERNAL: a run is determined by its labels. -/
theorem Run.unique {M : LTS σ α} {ls : List α} {s t : σ} (h : M.Run ls s)
    (h' : M.Run ls t) : s = t :=
  Option.some.inj (h.symm.trans h')

/-- INTERNAL: every prefix of a run is a run. -/
theorem Run.prefix {M : LTS σ α} {ls ms : List α} {s : σ} (h : M.Run (ls ++ ms) s) :
    ∃ t, M.Run ls t ∧ M.exec t ms = some s := by
  unfold Run at *
  rwa [exec_append, Option.bind_eq_some_iff] at h

/-- INTERNAL: the step of a run at a given label. -/
theorem Run.step_at {M : LTS σ α} {pre post : List α} {l : α} {s t : σ}
    (h : M.Run (pre ++ l :: post) s) (ht : M.Run pre t) :
    ∃ t', M.step t l = some t' ∧ M.Run (pre ++ [l]) t' := by
  rw [List.append_cons] at h
  obtain ⟨t', ht', -⟩ := h.prefix
  obtain ⟨t₀, ht₀, hstep⟩ := (M.run_snoc_iff pre l t').mp ht'
  rw [ht.unique ht₀]
  exact ⟨t', hstep, ht'⟩

/-- INTERNAL: a run at a given label, and what follows it. -/
theorem Run.split_at {M : LTS σ α} {pre post : List α} {l : α} {s t : σ}
    (h : M.Run (pre ++ l :: post) s) (ht : M.Run pre t) :
    ∃ t', M.step t l = some t' ∧ M.Run (pre ++ [l]) t' ∧ M.exec t' post = some s := by
  obtain ⟨t', hstep, ht'⟩ := h.step_at ht
  rw [List.append_cons] at h
  obtain ⟨u, hu, hpost⟩ := h.prefix
  rw [hu.unique ht'] at hpost
  exact ⟨t', hstep, ht', hpost⟩

/-- INTERNAL: a condition holds along a longer run iff it holds along the shorter one
and at the last step. -/
theorem along_snoc_iff (M : LTS σ α) (ok : σ → α → Prop) (ls : List α) (l : α) :
    M.Along ok (ls ++ [l]) ↔ M.Along ok ls ∧ ∀ s, M.Run ls s → ok s l := by
  constructor
  · intro h
    refine ⟨?_, fun s hs => h ls l [] s rfl hs⟩
    intro pre m post s heq hs
    exact h pre m (post ++ [l]) s (by simp [heq]) hs
  · rintro ⟨h, hl⟩ pre m post s heq hs
    rcases List.eq_nil_or_concat post with rfl | ⟨post', x, rfl⟩
    · obtain ⟨rfl, hml⟩ := List.append_inj' heq rfl
      cases hml
      exact hl s hs
    · have hsplit : ls ++ [l] = (pre ++ m :: post') ++ [x] := by simp [heq]
      obtain ⟨rfl, -⟩ := List.append_inj' hsplit rfl
      exact h pre m post' s rfl hs

/-- INTERNAL: the same with the state the shorter run ends in. -/
theorem along_snoc_of_run (M : LTS σ α) (ok : σ → α → Prop) {ls : List α} {s : σ}
    (hr : M.Run ls s) (l : α) : M.Along ok (ls ++ [l]) ↔ M.Along ok ls ∧ ok s l := by
  rw [along_snoc_iff]
  refine and_congr_right fun _ => ⟨fun h => h s hr, fun h t ht => ?_⟩
  rw [Run.unique ht hr]
  exact h

/-- INTERNAL: a weaker condition also holds along the run. -/
theorem Along.mono {M : LTS σ α} {ok ok' : σ → α → Prop} {ls : List α}
    (h : M.Along ok ls) (himp : ∀ s l, ok s l → ok' s l) : M.Along ok' ls :=
  fun pre l post s heq hs => himp s l (h pre l post s heq hs)

/-- Check a decidable condition at every step of an execution. -/
def checkAlong (M : LTS σ α) (ok : σ → α → Bool) : σ → List α → Bool
  | _, [] => true
  | s, l :: ls => ok s l && (M.step s l).all fun s' => M.checkAlong ok s' ls

/-- INTERNAL: a condition that the check confirms holds along the run. -/
theorem along_of_checkAlong (M : LTS σ α) (ok : σ → α → Bool) (ls : List α)
    (h : M.checkAlong ok M.init ls = true) : M.Along (fun s l => ok s l = true) ls := by
  have hgen : ∀ pre s l post t, M.checkAlong ok s (pre ++ l :: post) = true →
      M.exec s pre = some t → ok t l = true := by
    intro pre
    induction pre with
    | nil =>
        intro s l post t hcheck hexec
        cases hexec
        simp only [List.nil_append, checkAlong, Bool.and_eq_true] at hcheck
        exact hcheck.1
    | cons m pre ih =>
        intro s l post t hcheck hexec
        simp only [List.cons_append, checkAlong, Bool.and_eq_true] at hcheck
        simp only [exec] at hexec
        obtain ⟨s', hs', hexec'⟩ := Option.bind_eq_some_iff.mp hexec
        rw [hs'] at hcheck
        exact ih s' l post t hcheck.2 hexec'
  rintro pre l post s rfl hrun
  exact hgen pre M.init l post s h hrun

/-- **The invariant rule.**  What holds of the empty history and the initial state, and
is kept by every step that meets `ok`, holds at the end of every run along which `ok`
holds. -/
theorem run_induction (M : LTS σ α) (ok : σ → α → Prop) (P : List α → σ → Prop)
    (hinit : P [] M.init)
    (hstep : ∀ ls s l s', M.Run ls s → P ls s → ok s l → M.step s l = some s' →
      P (ls ++ [l]) s')
    (ls : List α) (s : σ) (hrun : M.Run ls s) (hok : M.Along ok ls) : P ls s := by
  induction ls using List.reverseRecOn generalizing s with
  | nil =>
      rw [run_nil_iff] at hrun
      exact hrun ▸ hinit
  | append_singleton ls l ih =>
      obtain ⟨t, ht, hl⟩ := (M.run_snoc_iff ls l s).mp hrun
      obtain ⟨hpre, hlast⟩ := (M.along_snoc_iff ok ls l).mp hok
      exact hstep ls t l s ht (ih t ht hpre) (hlast t ht) hl

/-- The invariant rule for all runs. -/
theorem run_invariant (M : LTS σ α) (P : List α → σ → Prop) (hinit : P [] M.init)
    (hstep : ∀ ls s l s', M.Run ls s → P ls s → M.step s l = some s' → P (ls ++ [l]) s')
    (ls : List α) (s : σ) (hrun : M.Run ls s) : P ls s :=
  M.run_induction (fun _ _ => True) P hinit
    (fun ls s l s' hr hp _ hs => hstep ls s l s' hr hp hs) ls s hrun
    (fun _ _ _ _ _ _ => trivial)

/-- The invariant rule for what follows a state: a relation between the labels taken since and the
state reached, kept by every step. -/
theorem exec_invariant (M : LTS σ α) (P : List α → σ → Prop) {s : σ} (hinit : P [] s)
    (hstep : ∀ ls t l t', M.exec s ls = some t → P ls t → M.step t l = some t' →
      P (ls ++ [l]) t')
    (ls : List α) (t : σ) (hexec : M.exec s ls = some t) : P ls t := by
  induction ls using List.reverseRecOn generalizing t with
  | nil =>
      cases hexec
      exact hinit
  | append_singleton ls l ih =>
      rw [exec_append, Option.bind_eq_some_iff] at hexec
      obtain ⟨u, hu, hlast⟩ := hexec
      rw [exec_singleton] at hlast
      exact hstep ls u l t hu (ih u hu) hlast

/-- **The ranking rule.**  Every step that meets `ok`, from a state with the invariant `I` and
with a quiet label, keeps `I` and lowers the rank by at least the number of its observations.
Then a quiet stretch of a run has at most as many observations as the rank of the state it
starts in. -/
theorem length_obs_le_rank (M : LTS σ α) (ok : σ → α → Prop) (quiet : α → Prop) (I : σ → Prop)
    (rank : σ → ℕ) (obs : α → List ε)
    (hstep : ∀ s l s', I s → ok s l → quiet l → M.step s l = some s' →
      I s' ∧ rank s' + (obs l).length ≤ rank s)
    {pre mid : List α} {s t : σ} (hs : M.Run pre s) (hI : I s) (ht : M.exec s mid = some t)
    (hok : M.Along ok (pre ++ mid)) (hquiet : ∀ l ∈ mid, quiet l) :
    I t ∧ rank t + (mid.flatMap obs).length ≤ rank s := by
  refine M.exec_invariant
    (fun mid t => M.Along ok (pre ++ mid) → (∀ l ∈ mid, quiet l) →
      I t ∧ rank t + (mid.flatMap obs).length ≤ rank s)
    (fun _ _ => ⟨hI, Nat.le_refl _⟩) ?_ mid t ht hok hquiet
  intro mid u l t hu ih hlast hok hquiet
  have hrun : M.Run (pre ++ mid) u := M.exec_trans hs hu
  rw [← List.append_assoc, M.along_snoc_of_run ok hrun] at hok
  obtain ⟨hIu, hrank⟩ := ih hok.1 fun m hm => hquiet m (List.mem_append_left [l] hm)
  obtain ⟨hIt, hdrop⟩ := hstep u l t hIu hok.2
    (hquiet l (List.mem_append_right mid List.mem_cons_self)) hlast
  refine ⟨hIt, ?_⟩
  rw [List.flatMap_append, List.flatMap_singleton, List.length_append]
  omega

/-- `M.Emits obs s es t`: an execution leads from `s` to `t`, and its observations are `es`. -/
def Emits (M : LTS σ α) (obs : α → List ε) (s : σ) (es : List ε) (t : σ) : Prop :=
  ∃ ls, M.exec s ls = some t ∧ ls.flatMap obs = es

section Emits

variable {M : LTS σ α} {obs : α → List ε}

theorem Emits.refl (s : σ) : M.Emits obs s [] s := ⟨[], rfl, rfl⟩

theorem Emits.of_step {s t : σ} {l : α} (h : M.step s l = some t) : M.Emits obs s (obs l) t :=
  ⟨[l], by rw [exec_singleton, h], by simp⟩

theorem Emits.trans {s t u : σ} {es fs : List ε} (h : M.Emits obs s es t)
    (h' : M.Emits obs t fs u) : M.Emits obs s (es ++ fs) u := by
  obtain ⟨ls, hls, rfl⟩ := h
  obtain ⟨ms, hms, rfl⟩ := h'
  exact ⟨ls ++ ms, M.exec_trans hls hms, List.flatMap_append⟩

/-- INTERNAL: steps without observations may follow. -/
theorem Emits.trans_silent {s t u : σ} {es : List ε} (h : M.Emits obs s es t)
    (h' : M.Emits obs t [] u) : M.Emits obs s es u := by
  have hall := h.trans h'
  rwa [List.append_nil] at hall

end Emits

/-- **The forward simulation rule.**  `R` relates the states of `M` to those of `N`; every
step of `M` from related states is matched by a finite execution of `N` with the same
observations. -/
theorem run_simulation (M : LTS σ α) (N : LTS τ β) (obs : α → List ε) (obs' : β → List ε)
    {R : σ → τ → Prop} (hinit : R M.init N.init)
    (hstep : ∀ s t l s', R s t → M.step s l = some s' →
      ∃ t', N.Emits obs' t (obs l) t' ∧ R s' t')
    (ls : List α) (s : σ) (hrun : M.Run ls s) :
    ∃ t, N.Emits obs' N.init (ls.flatMap obs) t ∧ R s t := by
  refine M.run_invariant (fun ls s => ∃ t, N.Emits obs' N.init (ls.flatMap obs) t ∧ R s t)
    ⟨N.init, .refl _, hinit⟩ ?_ ls s hrun
  rintro ls s l s' - ⟨t, hemits, hR⟩ hs
  obtain ⟨t', hemits', hR'⟩ := hstep s t l s' hR hs
  refine ⟨t', ?_, hR'⟩
  have hsnoc : (ls ++ [l]).flatMap obs = ls.flatMap obs ++ obs l := by simp
  rw [hsnoc]
  exact hemits.trans hemits'

end LTS

end Library
