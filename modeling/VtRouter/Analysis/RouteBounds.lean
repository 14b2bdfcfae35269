import VtRouter.Analysis.RouteLayout

/-!
# When reading a route file stays inside its arrays

`populate_routing_list` copies as many bytes into `tmp` as the line buffer of `getline` is
large, and the two columns of a line into the arrays of an entry, all three without a test.
`populate_inBounds_iff` says what it takes for no copy to leave its array, and
`routes_inBounds_iff` that this is also what it takes for the lines to be independent of one
another: a file that fits gives one entry for each line, a function of the line alone
(`lineEntry`), and in a file that does not fit there is no entry at all.
-/

set_option autoImplicit false

namespace VtRouter.Analysis

open Library VtRouter.Model VtRouter.Interface

/-! ## A file as its lines -/

theorem noNewline_lineBody (w : List UInt8) : ch '\n' ∉ lineBody w := by
  intro h
  simpa using (List.mem_filter.mp h).2

/-- INTERNAL: a line that another follows ends with its newline. -/
theorem pairwise_getlines (s : List UInt8) :
    (getlines s).Pairwise fun w _ => w = lineBody w ++ [ch '\n'] := by
  induction s with
  | nil => exact List.Pairwise.nil
  | cons c s ih =>
      rw [getlines]
      by_cases hc : c = ch '\n'
      · have hbody : [c] = lineBody [c] ++ [ch '\n'] := by
          rw [hc]
          rfl
        rw [if_pos hc]
        exact List.pairwise_cons.mpr ⟨fun _ _ => hbody, ih⟩
      · rw [if_neg hc]
        cases hlines : getlines s with
        | nil => exact List.pairwise_singleton _ _
        | cons l ls =>
            rw [hlines] at ih
            obtain ⟨hl, hls⟩ := List.pairwise_cons.mp ih
            refine List.pairwise_cons.mpr ⟨?_, hls⟩
            intro v hv
            have hbody : lineBody (c :: l) = c :: lineBody l :=
              List.filter_cons_of_pos (by simpa using hc)
            rw [hbody, List.cons_append, ← hl v hv]

/-- INTERNAL: lines of this shape are the lines of the file they make up. -/
theorem getlines_flatten {ls : List (List UInt8)}
    (hshape : ∀ w ∈ ls, w ≠ [] ∧ (w = lineBody w ++ [] ∨ w = lineBody w ++ [ch '\n']))
    (hends : ls.Pairwise fun w _ => w = lineBody w ++ [ch '\n']) : getlines ls.flatten = ls := by
  induction ls with
  | nil => rfl
  | cons w ls ih =>
      obtain ⟨hw, hls⟩ := List.pairwise_cons.mp hends
      obtain ⟨hne, hbody⟩ := hshape w List.mem_cons_self
      have hrest := ih (fun v hv => hshape v (List.mem_cons_of_mem w hv)) hls
      rw [List.flatten_cons]
      rcases hbody with hplain | hnewline
      · cases ls with
        | nil =>
            rw [List.append_nil] at hplain
            have hmem := noNewline_lineBody w
            rw [← hplain] at hmem
            rw [List.flatten_nil, List.append_nil]
            exact getlines_last hne hmem
        | cons v ls =>
            have hlen := congrArg List.length (hplain.symm.trans (hw v List.mem_cons_self))
            simp at hlen
      · have hline := getlines_line (noNewline_lineBody w) ls.flatten
        rw [List.append_cons, ← hnewline, hrest] at hline
        exact hline

/-- INTERNAL: some of the lines of a file are again the lines of a file. -/
theorem getlines_flatten_sublist {s : List UInt8} {ls : List (List UInt8)}
    (h : ls.Sublist (getlines s)) : getlines ls.flatten = ls :=
  getlines_flatten (fun _ hw => mem_getlines (h.subset hw)) ((pairwise_getlines s).sublist h)

/-! ## One line -/

/-- The two columns of a line fit in the arrays of an entry, with their terminators. -/
def ColumnsFit (w : List UInt8) : Prop :=
  (fields (lineText w)).1.length < ipAddrSize ∧ (fields (lineText w)).2.length < ifNameSize

instance (w : List UInt8) : Decidable (ColumnsFit w) := inferInstanceAs (Decidable (_ ∧ _))

theorem noNul_lineText (w : List UInt8) : 0 ∉ lineText w := by
  intro h
  simpa using List.mem_takeWhile_imp h

theorem noNul_fields (w : List UInt8) :
    0 ∉ (fields (lineText w)).1 ∧ 0 ∉ (fields (lineText w)).2 :=
  ⟨fun h => noNul_lineText w ((List.takeWhile_prefix _).subset h),
    fun h => noNul_lineText w ((List.rtakeWhile_suffix _ _).subset h)⟩

/-- The entry of a line, a function of the line alone. -/
def lineEntry (w : List UInt8) : Option RoutingEntry :=
  if h : ColumnsFit w then
    some ⟨⟨_, (noNul_fields w).1⟩, ⟨_, (noNul_fields w).2⟩, h.1, h.2⟩
  else none

/-- INTERNAL: a copy fits exactly when the source does. -/
theorem strcpy_isOk_iff (size : ℕ) {s : List UInt8} (hs : 0 ∉ s) (t : List UInt8) :
    (∃ d, strcpy size (s ++ 0 :: t) = .ok d) ↔ s.length < size := by
  constructor
  · rintro ⟨d, hd⟩
    rw [← toList_of_strcpy hs hd]
    exact d.2
  · intro h
    exact ⟨_, strcpy_eq ⟨s, hs⟩ h t⟩

/-- INTERNAL: a line buffer larger than `tmp` overruns it.
SOURCE: utils.c:325 -/
theorem parseLine_overrun {line : List UInt8} (h : bufSize < line.length) :
    parseLine line = .error .outOfBounds := by
  have hlen : 1 < line.length := by
    unfold bufSize at h
    omega
  unfold parseLine
  simp only [if_pos hlen]
  unfold strncpy
  rw [List.length_replicate, if_neg (by omega)]
  rfl

/-- INTERNAL: **one line** stays inside the arrays exactly when the line buffer is no larger
than `tmp` and the columns fit, and then it gives its entry, whatever stands behind it.
SOURCE: utils.c:314-343 -/
theorem parseLine_cases {w u : List UInt8} (hne : w ≠ [])
    (hw : w = lineBody w ++ [] ∨ w = lineBody w ++ [ch '\n']) :
    if (w ++ 0 :: u).length ≤ bufSize ∧ ColumnsFit w then
      parseLine (w ++ 0 :: u) = .ok (lineEntry w)
    else ∀ r, parseLine (w ++ 0 :: u) ≠ .ok r := by
  by_cases hcap : (w ++ 0 :: u).length ≤ bufSize
  · obtain ⟨e, v, hbuf, he⟩ := lineBuffer_eq hw u
    have hlen : 1 < (w ++ 0 :: u).length := by
      have hpos := List.length_pos_iff.mpr hne
      rw [List.length_append, List.length_cons]
      omega
    have hnewline : ch '\n' ∉ lineText w := fun h =>
      noNewline_lineBody w ((List.takeWhile_prefix _).subset h)
    obtain ⟨hfirst, hlast⟩ := noNul_fields w
    have hcap' := hcap
    rw [hbuf] at hlen hcap'
    obtain ⟨x, y, hparse⟩ := parseLine_fields hnewline (noNul_lineText w) he v hlen hcap'
    rw [← hbuf] at hparse
    by_cases hfit : ColumnsFit w
    · have hip := strcpy_eq ⟨_, hfirst⟩ hfit.1 x
      have hif := strcpy_eq ⟨_, hlast⟩ hfit.2 y
      unfold fields at hip hif
      rw [if_pos ⟨hcap, hfit⟩, hparse, hip, ok_bind, hif, ok_bind, lineEntry, dif_pos hfit]
      rfl
    · rw [if_neg fun h => hfit h.2]
      intro r hr
      rw [hparse] at hr
      obtain ⟨ipAddress, hip, hr⟩ := exists_of_bind_ok hr
      obtain ⟨outputIf, hif, -⟩ := exists_of_bind_ok hr
      exact hfit ⟨(strcpy_isOk_iff ipAddrSize hfirst x).mp ⟨ipAddress, hip⟩,
        (strcpy_isOk_iff ifNameSize hlast y).mp ⟨outputIf, hif⟩⟩
  · rw [if_neg fun h => hcap h.1]
    intro r hr
    rw [parseLine_overrun (by omega)] at hr
    cases hr

/-! ## A whole file -/

/-- The lines, the first of them the `k`-th of its file, fit: the line buffer is never larger
than `tmp`, and the columns fit in the arrays of an entry. -/
def LinesFit (tails : ℕ → List UInt8) (lines : List (List UInt8)) (k : ℕ) : Prop :=
  ∀ j w, lines[j]? = some w → (w ++ 0 :: tails (k + j)).length ≤ bufSize ∧ ColumnsFit w

theorem linesFit_cons_iff (tails : ℕ → List UInt8) (w : List UInt8) (lines : List (List UInt8))
    (k : ℕ) :
    LinesFit tails (w :: lines) k ↔
      ((w ++ 0 :: tails k).length ≤ bufSize ∧ ColumnsFit w) ∧ LinesFit tails lines (k + 1) := by
  constructor
  · intro h
    exact ⟨h 0 w rfl, forall_lines_tail (P := fun i v =>
      (v ++ 0 :: tails i).length ≤ bufSize ∧ ColumnsFit v) h⟩
  · rintro ⟨hw, hlines⟩ j v hj
    cases j with
    | zero =>
        cases hj
        exact hw
    | succ j =>
        have hv := hlines j v hj
        rwa [show k + 1 + j = k + (j + 1) by omega] at hv

theorem entries_cons (w : List UInt8) (lines : List (List UInt8)) :
    (w :: lines).filterMap lineEntry = (lineEntry w).toList ++ lines.filterMap lineEntry := by
  cases hentry : lineEntry w with
  | none => rw [List.filterMap_cons_none hentry, Option.toList_none, List.nil_append]
  | some e => rw [List.filterMap_cons_some hentry, Option.toList_some, List.singleton_append]

/-- INTERNAL: the loop over lines that fit appends the entry of each.
SOURCE: utils.c:312-344 -/
theorem populateLoop_of_fit (tails : ℕ → List UInt8) {lines : List (List UInt8)}
    (hlines : ∀ w ∈ lines, w ≠ [] ∧ (w = lineBody w ++ [] ∨ w = lineBody w ++ [ch '\n']))
    {k : ℕ} (hfit : LinesFit tails lines k) (routes : List RoutingEntry) :
    populateLoop tails lines k routes = .ok (routes ++ lines.filterMap lineEntry) := by
  induction lines generalizing k routes with
  | nil =>
      rw [List.filterMap_nil, List.append_nil]
      rfl
  | cons w lines ih =>
      obtain ⟨hw, hrest⟩ := (linesFit_cons_iff tails w lines k).mp hfit
      obtain ⟨hne, hshape⟩ := hlines w List.mem_cons_self
      have hparse := parseLine_cases hne hshape (u := tails k)
      rw [if_pos hw] at hparse
      rw [populateLoop, hparse, ok_bind,
        ih (fun v hv => hlines v (List.mem_cons_of_mem w hv)) hrest, List.append_assoc,
        entries_cons]

/-- INTERNAL: a loop that returns has read lines that fit.
SOURCE: utils.c:312-344 -/
theorem fit_of_populateLoop (tails : ℕ → List UInt8) {lines : List (List UInt8)}
    (hlines : ∀ w ∈ lines, w ≠ [] ∧ (w = lineBody w ++ [] ∨ w = lineBody w ++ [ch '\n']))
    {k : ℕ} {front routes : List RoutingEntry}
    (h : populateLoop tails lines k front = .ok routes) : LinesFit tails lines k := by
  induction lines generalizing k front with
  | nil =>
      intro j w hj
      cases hj
  | cons w lines ih =>
      rw [populateLoop] at h
      obtain ⟨entry, hparse, h⟩ := exists_of_bind_ok h
      obtain ⟨hne, hshape⟩ := hlines w List.mem_cons_self
      have hcases := parseLine_cases hne hshape (u := tails k)
      rw [linesFit_cons_iff]
      refine ⟨?_, ih (fun v hv => hlines v (List.mem_cons_of_mem w hv)) h⟩
      by_contra hw
      rw [if_neg hw] at hcases
      exact hcases entry hparse

/-- No access and no copy leaves its array. -/
def InBounds (tails : ℕ → List UInt8) (file : List UInt8) : Prop :=
  ∃ routes, populateRoutingList tails file = .ok routes

/-- Every line is rejected or gives one entry, and the entries of the other lines are the same
as if it were absent, whatever the line buffer holds then, as long as it is no larger than
`tmp`. -/
def LinesIndependent (tails : ℕ → List UInt8) (file : List UInt8) : Prop :=
  ∀ front w back, getlines file = front ++ w :: back →
    ∃ (before after : List RoutingEntry) (entry : Option RoutingEntry),
      populateRoutingList tails file = .ok (before ++ entry.toList ++ after) ∧
      ∀ tails', (∀ j v, (front ++ back)[j]? = some v → (v ++ 0 :: tails' j).length ≤ bufSize) →
        populateRoutingList tails' front.flatten = .ok before ∧
        populateRoutingList tails' (front ++ back).flatten = .ok (before ++ after)

/-- INTERNAL: the routing list of lines that fit.
SOURCE: utils.c:294-352 -/
theorem populateRoutingList_of_fit {tails : ℕ → List UInt8} {file : List UInt8}
    (hfit : LinesFit tails (getlines file) 0) :
    populateRoutingList tails file = .ok ((getlines file).filterMap lineEntry) := by
  have h := populateLoop_of_fit tails (fun w hw => mem_getlines hw) hfit []
  rwa [List.nil_append] at h

/-- **When reading a file stays in bounds**: the line buffer never grows beyond `tmp`, and no
column is too long for its array.
SOURCE: utils.c:294-352 -/
theorem populate_inBounds_iff (tails : ℕ → List UInt8) (file : List UInt8) :
    InBounds tails file ↔ LinesFit tails (getlines file) 0 := by
  constructor
  · rintro ⟨routes, h⟩
    exact fit_of_populateLoop tails (fun w hw => mem_getlines hw) h
  · intro hfit
    exact ⟨_, populateRoutingList_of_fit hfit⟩

/-- INTERNAL: lines that fit are independent of one another. -/
theorem linesIndependent_of_fit {tails : ℕ → List UInt8} {file : List UInt8}
    (hfit : LinesFit tails (getlines file) 0) : LinesIndependent tails file := by
  intro front w back hsplit
  have hcolumns : ∀ v ∈ getlines file, ColumnsFit v := by
    intro v hv
    obtain ⟨j, hj⟩ := List.mem_iff_getElem?.mp hv
    exact (hfit j v hj).2
  have hsub : ∀ ls : List (List UInt8), ls.Sublist (getlines file) → ∀ tails',
      (∀ j v, ls[j]? = some v → (v ++ 0 :: tails' j).length ≤ bufSize) →
      populateRoutingList tails' ls.flatten = .ok (ls.filterMap lineEntry) := by
    intro ls hls tails' hcap
    have hlines := getlines_flatten_sublist hls
    have hfit' : LinesFit tails' (getlines ls.flatten) 0 := by
      rw [hlines]
      intro j v hj
      rw [Nat.zero_add]
      exact ⟨hcap j v hj, hcolumns v (hls.subset (List.mem_of_getElem? hj))⟩
    rw [populateRoutingList_of_fit hfit', hlines]
  refine ⟨front.filterMap lineEntry, back.filterMap lineEntry, lineEntry w, ?_, ?_⟩
  · rw [populateRoutingList_of_fit hfit, hsplit, List.filterMap_append, List.append_assoc,
      entries_cons]
  · intro tails' hcap
    have hfront : front.Sublist (getlines file) := by
      rw [hsplit]
      exact List.sublist_append_left front (w :: back)
    have hboth : (front ++ back).Sublist (getlines file) := by
      rw [hsplit]
      exact (List.Sublist.refl front).append (List.sublist_cons_self w back)
    constructor
    · apply hsub front hfront tails'
      intro j v hj
      apply hcap j v
      rw [List.getElem?_append_left (List.getElem?_eq_some_iff.mp hj).1]
      exact hj
    · rw [hsub (front ++ back) hboth tails' hcap, List.filterMap_append]

/-- **Reading a route file is safe, and its lines are independent, exactly when it fits.**
`tails` are the bytes behind each line in the line buffer, so the capacity that `getline`
reports for the `k`-th line is `(w ++ 0 :: tails k).length`; the statement is for all of them,
those of a buffer that only grows among them.
SOURCE: utils.c:294-352, includes.h:53-57 -/
theorem routes_inBounds_iff (tails : ℕ → List UInt8) (file : List UInt8) :
    InBounds tails file ∧ LinesIndependent tails file ↔
      ∀ k w, (getlines file)[k]? = some w →
        (w ++ 0 :: tails k).length ≤ bufSize ∧
        (firstField isBlank (lineText w)).length < ipAddrSize ∧
        (lastField isBlank (lineText w)).length < ifNameSize := by
  have hfits : LinesFit tails (getlines file) 0 ↔ ∀ k w, (getlines file)[k]? = some w →
      (w ++ 0 :: tails k).length ≤ bufSize ∧
      (firstField isBlank (lineText w)).length < ipAddrSize ∧
      (lastField isBlank (lineText w)).length < ifNameSize := by
    unfold LinesFit
    simp only [Nat.zero_add]
    rfl
  rw [← hfits]
  constructor
  · rintro ⟨hbounds, -⟩
    exact (populate_inBounds_iff tails file).mp hbounds
  · intro hfit
    exact ⟨(populate_inBounds_iff tails file).mpr hfit, linesIndependent_of_fit hfit⟩

/-- A file whose only line has an address of twenty-four bytes. -/
def longAddress : List UInt8 := bytes "10.0.0.1/255.255.255.255\t=>\ts1-eth1\n"

/-- A line of 2000 bytes in front of a short one. -/
def longLine : List UInt8 := List.replicate 2000 (ch 'x') ++ bytes "\n10.0.0.1\t=>\ts1-eth1\n"

/-- What stands behind the two lines of `longLine` when the line buffer has grown to the first
of them. -/
def longLineTails : ℕ → List UInt8
  | 0 => []
  | _ => List.replicate 1979 (ch 'x') ++ [ch '\n', 0]

/-- A long column, and a long line, in front of a short one or not, run over an array; the
short line alone does not. -/
theorem long_line_overruns :
    ¬(InBounds (fun _ => []) longAddress ∧ LinesIndependent (fun _ => []) longAddress) ∧
    ¬(InBounds longLineTails longLine ∧ LinesIndependent longLineTails longLine) ∧
    InBounds (fun _ => []) (bytes "10.0.0.1\t=>\ts1-eth1\n") := by
  have hfault : ∀ tails file, (populateRoutingList tails file).isOk = false →
      ¬InBounds tails file := by
    rintro tails file h ⟨routes, hroutes⟩
    rw [hroutes] at h
    cases h
  refine ⟨?_, ?_, ?_⟩
  · rintro ⟨hbounds, -⟩
    exact hfault _ _ (by decide +kernel) hbounds
  · rintro ⟨hbounds, -⟩
    exact hfault _ _ (by decide +kernel) hbounds
  · exact exists_of_isOk (by decide +kernel)

end VtRouter.Analysis
