import VtRouter.Analysis.RouteLookup

/-!
# From the layout of a route file to its routing list

`populate_routing_list` has no notion of an empty column: it takes over the text before the
first blank of a line and the text behind the last (`Interface.parseLine_fields`).  On a line
that begins with a blank the address is lost, and on a line that ends with one the interface
is.  `dstIntf_of_file` says what a lookup finds then: the last column of the last row for the
address whose line does not begin with a blank, or nothing when a blank follows it.
-/

set_option autoImplicit false

namespace VtRouter.Analysis

open Library VtRouter.Model VtRouter.Interface

/-! ## Rows and columns -/

/-- The lines of a file as C sees them, without their newlines and up to a NUL byte. -/
def fileLines (file : List UInt8) : List (List UInt8) :=
  (file.splitOn (ch '\n')).map fun line => line.takeWhile (· ≠ 0)

/-- The columns of a line. -/
def columns (line : List UInt8) : List (List UInt8) := words isBlank line

/-- The lines that have columns. -/
def rowLines (file : List UInt8) : List (List UInt8) :=
  (fileLines file).filter fun line => !(columns line).isEmpty

/-- The rows of columns of a file, whatever its layout. -/
def rows (file : List UInt8) : List (List (List UInt8)) := (rowLines file).map columns

/-- Whether a line begins and whether it ends with a blank. -/
def blankEnds (line : List UInt8) : Bool × Bool :=
  (startsWithSep isBlank line, endsWithSep isBlank line)

/-- The last row for an address whose line does not begin with a blank. -/
def lastRow (d : InAddr) (file : List UInt8) : Option (List UInt8) :=
  ((rowLines file).filter fun line =>
    !startsWithSep isBlank line && decide ((columns line).head? = some d.text)).getLast?

/-- The last column of a line, or nothing when a blank follows it. -/
def shownIf (line : List UInt8) : List UInt8 :=
  if endsWithSep isBlank line then [] else ((columns line).getLast?).getD []

/-! ## The lines `getline` delivers -/

/-- A line without its newline. -/
def lineBody (w : List UInt8) : List UInt8 := w.filter fun c => decide (c ≠ ch '\n')

/-- The text of a line, up to a NUL byte. -/
def lineText (w : List UInt8) : List UInt8 := (lineBody w).takeWhile (· ≠ 0)

/-- INTERNAL: the lines `getline` delivers are the pieces between newlines, but for an empty
piece behind the last newline. -/
theorem splitOn_eq_getlines (s : List UInt8) :
    s.splitOn (ch '\n') = (getlines s).map lineBody ∨
      s.splitOn (ch '\n') = (getlines s).map lineBody ++ [[]] := by
  induction s with
  | nil => exact Or.inr rfl
  | cons c s ih =>
      rw [List.splitOn_cons_eq_if_modifyHead]
      by_cases hc : c = ch '\n'
      · have hbody : lineBody [c] = [] := by
          rw [hc]
          rfl
        rw [if_pos (by simpa using hc), getlines, if_pos hc, List.map_cons, hbody]
        rcases ih with h | h
        · left
          rw [h]
        · right
          rw [h]
          rfl
      · have hbody : ∀ l, lineBody (c :: l) = c :: lineBody l := by
          intro l
          exact List.filter_cons_of_pos (by simpa using hc)
        rw [if_neg (by simpa using hc), getlines, if_neg hc]
        cases hlines : getlines s with
        | nil =>
            left
            rw [hlines] at ih
            rcases ih with h | h
            · exact absurd h (List.splitOn_ne_nil _ s)
            · rw [h]
              exact congrArg (fun l => [l]) (hbody []).symm
        | cons l ls =>
            rw [hlines] at ih
            dsimp only
            rw [List.map_cons, hbody]
            rcases ih with h | h
            · left
              rw [h]
              rfl
            · right
              rw [h]
              rfl

/-- INTERNAL: a line is not empty, and is its body with or without a newline. -/
theorem mem_getlines {s w : List UInt8} (hw : w ∈ getlines s) :
    w ≠ [] ∧ (w = lineBody w ++ [] ∨ w = lineBody w ++ [ch '\n']) := by
  induction s generalizing w with
  | nil => cases hw
  | cons c s ih =>
      rw [getlines] at hw
      by_cases hc : c = ch '\n'
      · rw [if_pos hc] at hw
        rcases List.mem_cons.mp hw with rfl | hw
        · refine ⟨List.cons_ne_nil c [], Or.inr ?_⟩
          rw [hc]
          rfl
        · exact ih hw
      · have hbody : ∀ l, lineBody (c :: l) = c :: lineBody l := by
          intro l
          exact List.filter_cons_of_pos (by simpa using hc)
        rw [if_neg hc] at hw
        cases hlines : getlines s with
        | nil =>
            rw [hlines] at hw
            rw [List.mem_singleton.mp hw, hbody]
            exact ⟨List.cons_ne_nil c [], Or.inl rfl⟩
        | cons l ls =>
            rw [hlines] at hw ih
            rcases List.mem_cons.mp hw with rfl | hw
            · obtain ⟨-, h⟩ := ih (List.mem_cons_self)
              refine ⟨List.cons_ne_nil c l, ?_⟩
              rw [hbody, List.cons_append, List.cons_append]
              exact h.imp (congrArg (c :: ·)) (congrArg (c :: ·))
            · exact ih (List.mem_cons_of_mem l hw)

/-- INTERNAL: up to the first NUL byte the line buffer holds the text of the line, with or
without a newline. -/
theorem lineBuffer_eq {w : List UInt8} (hw : w = lineBody w ++ [] ∨ w = lineBody w ++ [ch '\n'])
    (u : List UInt8) :
    ∃ e v, w ++ 0 :: u = lineText w ++ e ++ 0 :: v ∧ (e = [] ∨ e = [ch '\n']) := by
  obtain ⟨e, hsplit, he⟩ : ∃ e, w = lineBody w ++ e ∧ (e = [] ∨ e = [ch '\n']) := by
    rcases hw with h | h
    · exact ⟨[], h, Or.inl rfl⟩
    · exact ⟨[ch '\n'], h, Or.inr rfl⟩
  have htext := List.takeWhile_append_dropWhile (p := fun c => decide (c ≠ 0)) (l := lineBody w)
  cases hrest : (lineBody w).dropWhile (fun c => decide (c ≠ 0)) with
  | nil =>
      rw [hrest, List.append_nil] at htext
      refine ⟨e, u, ?_, he⟩
      conv_lhs => rw [hsplit, ← htext]
      rfl
  | cons z rest =>
      have hhead := List.head?_dropWhile_not (fun c : UInt8 => decide (c ≠ 0)) (lineBody w)
      rw [hrest] at hhead
      have hz : z = 0 := by simpa using hhead
      rw [hrest, hz] at htext
      refine ⟨[], rest ++ e ++ 0 :: u, ?_, Or.inl rfl⟩
      conv_lhs => rw [hsplit, ← htext]
      simp [lineText]

/-! ## From the file to the routing list -/

/-- The two texts of an entry. -/
def entryTexts (e : RoutingEntry) : List UInt8 × List UInt8 := (e.ipAddress.toList, e.outputIf.toList)

/-- The two fields of a line. -/
def fields (line : List UInt8) : List UInt8 × List UInt8 :=
  (firstField isBlank line, lastField isBlank line)

/-- INTERNAL: the entry of a line has the two fields of its text.
SOURCE: utils.c:314-343 -/
theorem entryTexts_of_parseLine {w u : List UInt8} (hne : w ≠ [])
    (hw : w = lineBody w ++ [] ∨ w = lineBody w ++ [ch '\n'])
    (hcap : (w ++ 0 :: u).length ≤ bufSize) {r : Option RoutingEntry}
    (h : parseLine (w ++ 0 :: u) = .ok r) :
    ∃ e, r = some e ∧ entryTexts e = fields (lineText w) := by
  obtain ⟨e, v, hbuf, he⟩ := lineBuffer_eq hw u
  have hlen : 1 < (w ++ 0 :: u).length := by
    have hpos := List.length_pos_iff.mpr hne
    rw [List.length_append, List.length_cons]
    omega
  have hnewline : ch '\n' ∉ lineText w := by
    intro hmem
    have hbody := (List.takeWhile_prefix _).subset hmem
    simp [lineBody] at hbody
  have hnul : 0 ∉ lineText w := by
    intro hmem
    simpa using List.mem_takeWhile_imp hmem
  have hfirst : 0 ∉ firstField isBlank (lineText w) :=
    fun hmem => hnul ((List.takeWhile_prefix _).subset hmem)
  have hlast : 0 ∉ lastField isBlank (lineText w) :=
    fun hmem => hnul ((List.rtakeWhile_suffix _ _).subset hmem)
  rw [hbuf] at h hlen hcap
  obtain ⟨x, y, hparse⟩ := parseLine_fields hnewline hnul he v hlen hcap
  rw [hparse] at h
  obtain ⟨ipAddress, hip, h⟩ := exists_of_bind_ok h
  obtain ⟨outputIf, hif, h⟩ := exists_of_bind_ok h
  cases h
  refine ⟨_, rfl, ?_⟩
  unfold entryTexts fields
  rw [toList_of_strcpy hfirst hip, toList_of_strcpy hlast hif]

/-- INTERNAL: the loop over the lines appends an entry for every line.
SOURCE: utils.c:312-344 -/
theorem entryTexts_of_populateLoop (tails : ℕ → List UInt8) {lines : List (List UInt8)}
    (hlines : ∀ w ∈ lines, w ≠ [] ∧ (w = lineBody w ++ [] ∨ w = lineBody w ++ [ch '\n']))
    {k : ℕ} (hcap : ∀ j w, lines[j]? = some w → (w ++ 0 :: tails (k + j)).length ≤ bufSize)
    {front routes : List RoutingEntry} (h : populateLoop tails lines k front = .ok routes) :
    routes.map entryTexts =
      front.map entryTexts ++ (lines.map lineText).map fields := by
  induction lines generalizing k front with
  | nil =>
      cases h
      simp
  | cons w lines ih =>
      rw [populateLoop] at h
      obtain ⟨r, hparse, h⟩ := exists_of_bind_ok h
      obtain ⟨hne, hw⟩ := hlines w List.mem_cons_self
      obtain ⟨e, rfl, he⟩ := entryTexts_of_parseLine hne hw (hcap 0 w rfl) hparse
      have hrest := forall_lines_tail (P := fun i v => (v ++ 0 :: tails i).length ≤ bufSize) hcap
      rw [ih (fun v hv => hlines v (List.mem_cons_of_mem w hv)) hrest h]
      simp [he]

/-- INTERNAL: the lines of a file are what `getline` delivers, and perhaps an empty line. -/
theorem fileLines_eq (file : List UInt8) :
    fileLines file = (getlines file).map lineText ∨
      fileLines file = (getlines file).map lineText ++ [[]] := by
  unfold fileLines
  rcases splitOn_eq_getlines file with h | h
  · left
    rw [h, List.map_map]
    rfl
  · right
    rw [h, List.map_append, List.map_map]
    rfl

/-- INTERNAL: an address prints at least its dots. -/
theorem addrText_ne_nil (d : InAddr) : d.text ≠ [] := by
  simp [InAddr.text]

/-- INTERNAL: the last row for an address, in terms of the first fields. -/
theorem lastRow_eq (d : InAddr) (file : List UInt8) :
    lastRow d file =
      ((fileLines file).filter fun line => decide (firstField isBlank line = d.text)).getLast? := by
  unfold lastRow rowLines
  rw [List.filter_filter]
  congr 1
  apply List.filter_congr
  intro line _
  rw [Bool.eq_iff_iff, decide_eq_true_iff, firstField_eq_iff isBlank (addrText_ne_nil d)]
  have hcolumns : (columns line).head? = some d.text → columns line ≠ [] := by
    intro hhead hnil
    rw [hnil] at hhead
    cases hhead
  simp only [Bool.and_eq_true, Bool.not_eq_true', decide_eq_true_iff, List.isEmpty_eq_false_iff]
  exact ⟨fun h => h.1, fun h => ⟨h, hcolumns h.2⟩⟩

/-- INTERNAL: **what the walk finds in the list of a file**: the interface shown by the last
row for the address.
SOURCE: utils.c:312-344, 412-421 -/
theorem dstIntf_of_file (tails : ℕ → List UInt8) {file : List UInt8}
    (hcap : ∀ k line, (getlines file)[k]? = some line → (line ++ 0 :: tails k).length ≤ bufSize)
    {routes : List RoutingEntry} (h : populateRoutingList tails file = .ok routes) (d : InAddr) :
    (dstIntf (inetNtoa d) routes).map CString.toList = (lastRow d file).map shownIf := by
  have htexts : routes.map entryTexts = ((getlines file).map lineText).map fields := by
    have hloop := entryTexts_of_populateLoop tails (fun w hw => mem_getlines hw)
      (k := 0) (fun j w hj => by simpa using hcap j w hj) h
    simpa using hloop
  have hshown : shownIf = lastField isBlank := by
    funext line
    exact (lastField_eq isBlank line).symm
  have hmatching : (matching (inetNtoa d) routes).map entryTexts =
      (((getlines file).map lineText).filter fun line =>
        decide (firstField isBlank line = d.text)).map fields := by
    have hcomp : (fun e : RoutingEntry => decide (e.ipAddress = inetNtoa d)) =
        (fun t : List UInt8 × List UInt8 => decide (t.1 = d.text)) ∘ entryTexts := by
      funext e
      show decide (e.ipAddress = inetNtoa d) = decide (e.ipAddress.toList = d.text)
      congr 1
      exact propext ⟨fun heq => congrArg CString.toList heq, fun heq => CString.ext heq⟩
    unfold matching
    rw [hcomp, ← List.filter_map, htexts, List.filter_map]
    rfl
  have hlines : (fileLines file).filter (fun line => decide (firstField isBlank line = d.text)) =
      ((getlines file).map lineText).filter fun line =>
        decide (firstField isBlank line = d.text) := by
    have hempty : ¬[] = d.text := (addrText_ne_nil d).symm
    rcases fileLines_eq file with hfile | hfile
    · rw [hfile]
    · rw [hfile, List.filter_append]
      simp [hempty]
  have hlast : (matching (inetNtoa d) routes).getLast?.map entryTexts =
      (lastRow d file).map fields := by
    rw [← List.getLast?_map, hmatching, List.getLast?_map, lastRow_eq, hlines]
  have hsnd := congrArg (Option.map Prod.snd) hlast
  rw [Option.map_map, Option.map_map] at hsnd
  rw [dstIntf_eq, Option.map_map, hshown]
  exact hsnd

end VtRouter.Analysis
