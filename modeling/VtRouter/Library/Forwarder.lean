import VtRouter.Library.Transition

/-!
# A forwarder with one frame in hand

What a single-threaded switch is for, without its loop: frames arrive in a queue for each
input, the forwarder takes one frame at a time off the front of some queue, and what is due
for it (`handle`, nothing for a frame to be dropped) is sent before the next frame is taken.

The results are about the sequence of events of a run: nothing is lost or taken twice
(`conserved`), everything due is sent once and in the order of the takes (`handled`,
`handled_before_take`), nothing is sent for a frame to be dropped (`nothing_sent`), and so
what one input sends is in the order of its arrivals (`sent_of_input`).
-/

set_option autoImplicit false

namespace Library

variable {ι φ ω : Type}

/-- What happens at a forwarder with inputs `ι`, frames `φ` and outputs `ω`. -/
inductive Event (ι φ ω : Type)
  | arrive (i : ι) (f : φ)
  | take (i : ι) (f : φ)
  | send (o : ω)

/-- The frames waiting at each input, and the output still due for the frame in hand. -/
structure Forwarder (ι φ ω : Type) where
  queue : ι → List φ
  inHand : Option ω

section Step

variable [DecidableEq ι] [DecidableEq φ] [DecidableEq ω]

/-- One event.  A frame is only taken when nothing is due any more. -/
def forward (handle : ι → φ → Option ω) (st : Forwarder ι φ ω) :
    Event ι φ ω → Option (Forwarder ι φ ω)
  | .arrive i f => some { st with queue := Function.update st.queue i (st.queue i ++ [f]) }
  | .take i f =>
      match st.queue i, st.inHand with
      | g :: rest, none =>
          if f = g then some ⟨Function.update st.queue i rest, handle i f⟩ else none
      | _, _ => none
  | .send o => if st.inHand = some o then some { st with inHand := none } else none

/-- The forwarder, for what is due for each frame. -/
def forwarder (handle : ι → φ → Option ω) : LTS (Forwarder ι φ ω) (Event ι φ ω) :=
  ⟨⟨fun _ => [], none⟩, forward handle⟩

end Step

/-! ## Histories -/

/-- The arrivals at an input. -/
def arrivals [DecidableEq ι] (i : ι) : List (Event ι φ ω) → List φ :=
  List.filterMap fun e => match e with
    | .arrive j f => if j = i then some f else none
    | _ => none

/-- The frames taken, with their inputs. -/
def takes : List (Event ι φ ω) → List (ι × φ) :=
  List.filterMap fun e => match e with
    | .take i f => some (i, f)
    | _ => none

/-- The frames taken from an input. -/
def taken [DecidableEq ι] (i : ι) (tr : List (Event ι φ ω)) : List φ :=
  ((takes tr).filter fun t => decide (t.1 = i)).map Prod.snd

/-- The outputs. -/
def sent : List (Event ι φ ω) → List ω :=
  List.filterMap fun e => match e with
    | .send o => some o
    | _ => none

/-- What is due for the frames taken. -/
def due (handle : ι → φ → Option ω) (tr : List (Event ι φ ω)) : List ω :=
  (takes tr).filterMap fun t => handle t.1 t.2

/-! ## Runs -/

section Runs

variable [DecidableEq ι] [DecidableEq φ] [DecidableEq ω] {handle : ι → φ → Option ω}

/-- INTERNAL: the three kinds of events. -/
theorem forward_cases {st st' : Forwarder ι φ ω} {e : Event ι φ ω}
    (h : forward handle st e = some st') :
    (∃ i f, e = .arrive i f ∧
      st' = { st with queue := Function.update st.queue i (st.queue i ++ [f]) }) ∨
    (∃ i f rest, e = .take i f ∧ st.queue i = f :: rest ∧ st.inHand = none ∧
      st' = ⟨Function.update st.queue i rest, handle i f⟩) ∨
    (∃ o, e = .send o ∧ st.inHand = some o ∧ st' = { st with inHand := none }) := by
  cases e with
  | arrive i f =>
      cases h
      exact Or.inl ⟨i, f, rfl, rfl⟩
  | take i f =>
      simp only [forward] at h
      split at h
      · rename_i g rest hq hnone
        split at h
        · rename_i hfg
          subst hfg
          cases h
          exact Or.inr (Or.inl ⟨i, f, rest, rfl, hq, hnone, rfl⟩)
        · cases h
      · cases h
  | send o =>
      simp only [forward] at h
      split at h
      · rename_i ho
        cases h
        exact Or.inr (Or.inr ⟨o, rfl, ho, rfl⟩)
      · cases h

/-- **Conservation.**  Every arrival has been taken, or waits in its queue; both in order. -/
theorem conserved {tr : List (Event ι φ ω)} {st : Forwarder ι φ ω}
    (hrun : (forwarder handle).Run tr st) (i : ι) :
    arrivals i tr = taken i tr ++ st.queue i := by
  refine (forwarder handle).run_invariant
    (fun tr st => arrivals i tr = taken i tr ++ st.queue i) rfl ?_ tr st hrun
  intro tr st e st' _ ih hs
  rcases forward_cases hs with ⟨j, f, rfl, rfl⟩ | ⟨j, f, rest, rfl, hq, -, rfl⟩ |
    ⟨o, rfl, -, rfl⟩
  · have htaken : taken i (tr ++ [.arrive j f]) = taken i tr := by simp [taken, takes]
    rw [htaken]
    by_cases hij : j = i
    · subst hij
      simp only [arrivals, List.filterMap_append] at ih ⊢
      rw [ih]
      simp
    · have hji : i ≠ j := fun h => hij h.symm
      simp only [arrivals, List.filterMap_append] at ih ⊢
      rw [ih, Function.update_of_ne hji]
      simp [hij]
  · have harr : arrivals i (tr ++ [.take j f]) = arrivals i tr := by simp [arrivals]
    rw [harr, ih]
    by_cases hij : j = i
    · subst hij
      simp [taken, takes, hq]
    · have hji : i ≠ j := fun h => hij h.symm
      simp [taken, takes, hij, Function.update_of_ne hji]
  · simpa [arrivals, taken, takes] using ih

/-- **Everything due is sent, once and in order**, up to the output still due for the frame in
hand. -/
theorem handled {tr : List (Event ι φ ω)} {st : Forwarder ι φ ω}
    (hrun : (forwarder handle).Run tr st) : due handle tr = sent tr ++ st.inHand.toList := by
  refine (forwarder handle).run_invariant
    (fun tr st => due handle tr = sent tr ++ st.inHand.toList) rfl ?_ tr st hrun
  intro tr st e st' _ ih hs
  rcases forward_cases hs with ⟨j, f, rfl, rfl⟩ | ⟨j, f, rest, rfl, -, hnone, rfl⟩ |
    ⟨o, rfl, ho, rfl⟩
  · simpa [due, takes, sent] using ih
  · rw [hnone, Option.toList_none, List.append_nil] at ih
    simp only [due, takes, sent, List.filterMap_append] at ih ⊢
    rw [ih]
    cases hd : handle j f with
    | none => simp [hd]
    | some o => simp [hd]
  · rw [ho, Option.toList_some] at ih
    simp only [due, takes, sent, List.filterMap_append] at ih ⊢
    simp [ih]

/-- **Nothing is left due when a frame is taken.** -/
theorem handled_before_take {pre post : List (Event ι φ ω)} {i : ι} {f : φ}
    {st : Forwarder ι φ ω} (hrun : (forwarder handle).Run (pre ++ .take i f :: post) st) :
    due handle pre = sent pre := by
  obtain ⟨t, ht, -⟩ := hrun.prefix
  obtain ⟨t', hstep, -⟩ := hrun.step_at ht
  have hdue := handled ht
  have hcases : forward handle t (.take i f) = some t' := hstep
  rcases forward_cases hcases with ⟨j, g, he, -⟩ | ⟨j, g, rest, -, -, hnone, -⟩ | ⟨o, he, -⟩
  · cases he
  · rwa [hnone, Option.toList_none, List.append_nil] at hdue
  · cases he

/-- **Each frame is dealt with before the next is taken:** between two consecutive takes exactly
what is due for the first is sent. -/
theorem handled_between {pre mid post : List (Event ι φ ω)} {i j : ι} {f g : φ}
    {st : Forwarder ι φ ω}
    (hrun : (forwarder handle).Run (pre ++ .take i f :: (mid ++ .take j g :: post)) st)
    (hmid : takes mid = []) : sent mid = (handle i f).toList := by
  have hfirst : due handle pre = sent pre := handled_before_take hrun
  have hsecond : due handle (pre ++ .take i f :: mid) = sent (pre ++ .take i f :: mid) := by
    apply handled_before_take (i := j) (f := g)
    simpa using hrun
  have hdue : due handle (pre ++ .take i f :: mid) = due handle pre ++ (handle i f).toList := by
    unfold takes at hmid
    cases hd : handle i f with
    | none => simp [due, takes, hmid, hd]
    | some o => simp [due, takes, hmid, hd]
  have hsent : sent (pre ++ .take i f :: mid) = sent pre ++ sent mid := by simp [sent]
  rw [hdue, hsent, hfirst] at hsecond
  exact (List.append_cancel_left hsecond).symm

/-- **A frame for which nothing is due is dropped:** up to the next take nothing is sent. -/
theorem nothing_sent {pre mid : List (Event ι φ ω)} {i : ι} {f : φ} {st : Forwarder ι φ ω}
    (hrun : (forwarder handle).Run (pre ++ .take i f :: mid) st) (hmid : takes mid = [])
    (hnone : handle i f = none) : sent mid = [] := by
  have hbefore : due handle pre = sent pre := handled_before_take hrun
  have hdue : due handle (pre ++ .take i f :: mid) = due handle pre := by
    unfold takes at hmid
    simp [due, takes, hmid, hnone]
  have hsent : sent (pre ++ .take i f :: mid) = sent pre ++ sent mid := by simp [sent]
  have hall := handled hrun
  rw [hdue, hsent, hbefore, List.append_assoc] at hall
  have hnil : sent mid ++ st.inHand.toList = [] :=
    (List.append_cancel_left ((List.append_nil (sent pre)).trans hall)).symm
  exact (List.append_eq_nil_iff.mp hnil).1

omit [DecidableEq φ] [DecidableEq ω] in
/-- INTERNAL: what is due for the frames of one input. -/
theorem due_of_input {source : ω → ι} (hsource : ∀ i f o, handle i f = some o → source o = i)
    (i : ι) (tr : List (Event ι φ ω)) :
    (due handle tr).filter (fun o => decide (source o = i)) =
      (taken i tr).filterMap (handle i) := by
  unfold due taken
  induction takes tr with
  | nil => rfl
  | cons t ts ih =>
      obtain ⟨j, f⟩ := t
      by_cases hij : j = i
      · subst hij
        rw [List.filter_cons_of_pos (by simp), List.map_cons]
        cases ho : handle j f with
        | none => simpa [ho] using ih
        | some o =>
            have ho' := hsource j f o ho
            simpa [ho, ho'] using ih
      · rw [List.filter_cons_of_neg (by simpa using hij)]
        cases ho : handle j f with
        | none => simpa [ho] using ih
        | some o =>
            have ho' : source o ≠ i := by
              rw [hsource j f o ho]
              exact hij
            simpa [ho, ho'] using ih

/-- **Order.**  What has been sent of the frames of one input, and is of one kind, is what is
due for the first arrivals there, in the order of arrival. -/
theorem sent_of_input {source : ω → ι}
    (hsource : ∀ i f o, handle i f = some o → source o = i) {tr : List (Event ι φ ω)}
    {st : Forwarder ι φ ω} (hrun : (forwarder handle).Run tr st) (i : ι) (kind : ω → Bool) :
    (sent tr).filter (fun o => decide (source o = i) && kind o) <+:
      ((arrivals i tr).filterMap (handle i)).filter kind := by
  rw [conserved hrun i, List.filterMap_append, List.filter_append,
    ← due_of_input hsource i tr, handled hrun, List.filter_append, List.filter_append,
    List.filter_filter, List.append_assoc]
  have hcomm : ∀ o, (kind o && decide (source o = i)) = (decide (source o = i) && kind o) :=
    fun o => Bool.and_comm _ _
  simp only [hcomm]
  exact List.prefix_append _ _

end Runs

end Library
