import VtRouter.Analysis.RouteBounds

/-!
# Which layouts of a route file a lookup cannot tell apart

Two files have the same rows of columns.  `layout_independent_iff` says when reading either
stays in bounds and their lookups agree: where blanks stand at the ends of the row lines, and
how long the columns there are, is all that matters.  Blank lines do not matter, nor the
blanks between columns, nor how many blanks there are at an end.
-/

set_option autoImplicit false

namespace VtRouter.Analysis

open Library VtRouter.Model VtRouter.Interface

/-! ## What the ends of the lines decide -/

/-- The text before the first blank of every line, and the text behind its last, fit in the
arrays of an entry.
SOURCE: includes.h:53-57 -/
def ColumnsInBounds (file : List UInt8) : Prop :=
  ∀ line ∈ fileLines file, (firstField isBlank line).length < ipAddrSize ∧
    (lastField isBlank line).length < ifNameSize

instance (file : List UInt8) : Decidable (ColumnsInBounds file) :=
  inferInstanceAs (Decidable (∀ line ∈ fileLines file, _ ∧ _))

/-- The row line that decides the lookups for an address: its first column is the address, it
does not begin with a blank, and every later line with this first column does. -/
def Decides (d : InAddr) (file line : List UInt8) : Prop :=
  ∃ front back, rowLines file = front ++ line :: back ∧
    (columns line).head? = some d.text ∧ startsWithSep isBlank line = false ∧
    ∀ later ∈ back, (columns later).head? = some d.text → startsWithSep isBlank later = true

/-- For every address a line decides in both files or in neither; and if in both, then either
both lines end with a blank, or neither does and their last columns are the same. -/
def BlankEndsAgree (file₁ file₂ : List UInt8) : Prop :=
  ∀ d, ((∃ line, Decides d file₁ line) ↔ ∃ line, Decides d file₂ line) ∧
    ∀ line₁ line₂, Decides d file₁ line₁ → Decides d file₂ line₂ →
      endsWithSep isBlank line₁ = endsWithSep isBlank line₂ ∧
      (endsWithSep isBlank line₁ = false →
        (columns line₁).getLast? = (columns line₂).getLast?)

/-- INTERNAL: the last row for an address is the one that decides. -/
theorem lastRow_eq_some_iff {d : InAddr} {file line : List UInt8} :
    lastRow d file = some line ↔ Decides d file line := by
  unfold lastRow
  rw [List.getLast?_filter, List.find?_eq_some_iff_append]
  simp only [Bool.and_eq_true, decide_eq_true_eq, Bool.not_eq_eq_eq_not, Bool.not_true,
    Bool.and_eq_false_imp, decide_eq_false_iff_not]
  constructor
  · rintro ⟨⟨hfront, haddress⟩, as, bs, hsplit, hlater⟩
    refine ⟨bs.reverse, as.reverse, ?_, haddress, hfront, ?_⟩
    · rw [← List.reverse_reverse (rowLines file), hsplit]
      simp
    · intro later hmem hd
      by_contra hstart
      exact hlater later (List.mem_reverse.mp hmem) (Bool.not_eq_true _ ▸ hstart) hd
  · rintro ⟨front, back, hsplit, haddress, hfront, hlater⟩
    refine ⟨⟨hfront, haddress⟩, back.reverse, front.reverse, ?_, ?_⟩
    · rw [hsplit]
      simp
    · intro later hmem hstart hd
      rw [hlater later (List.mem_reverse.mp hmem) hd] at hstart
      cases hstart

theorem Decides.columns_ne_nil {d : InAddr} {file line : List UInt8} (h : Decides d file line) :
    columns line ≠ [] := by
  obtain ⟨front, back, -, haddress, -⟩ := h
  intro hnil
  rw [hnil] at haddress
  cases haddress

/-- INTERNAL: two lines with columns show the same exactly when both end with a blank, or
neither does and their last columns are the same. -/
theorem shownIf_eq_iff {line₁ line₂ : List UInt8} (h₁ : columns line₁ ≠ [])
    (h₂ : columns line₂ ≠ []) :
    shownIf line₁ = shownIf line₂ ↔
      endsWithSep isBlank line₁ = endsWithSep isBlank line₂ ∧
      (endsWithSep isBlank line₁ = false →
        (columns line₁).getLast? = (columns line₂).getLast?) := by
  -- A column is not empty, so it is told from the nothing that a blank leaves.
  have hcolumn : ∀ line, columns line ≠ [] →
      ∃ c, (columns line).getLast? = some c ∧ c ≠ [] := by
    intro line hne
    exact ⟨_, List.getLast?_eq_getLast_of_ne_nil hne, ne_nil_of_mem_words (List.getLast_mem hne)⟩
  obtain ⟨c₁, hc₁, hne₁⟩ := hcolumn line₁ h₁
  obtain ⟨c₂, hc₂, hne₂⟩ := hcolumn line₂ h₂
  unfold shownIf
  rw [hc₁, hc₂]
  cases endsWithSep isBlank line₁ with
  | true =>
      cases endsWithSep isBlank line₂ with
      | true => simp
      | false => simpa using hne₂.symm
  | false =>
      cases endsWithSep isBlank line₂ with
      | true => simpa using hne₁
      | false => simp

/-- INTERNAL: the ends agree exactly when the last rows show the same. -/
theorem blankEndsAgree_iff (file₁ file₂ : List UInt8) :
    BlankEndsAgree file₁ file₂ ↔
      ∀ d, (lastRow d file₁).map shownIf = (lastRow d file₂).map shownIf := by
  apply forall_congr'
  intro d
  simp only [← lastRow_eq_some_iff]
  cases h₁ : lastRow d file₁ with
  | none =>
      cases h₂ : lastRow d file₂ with
      | none => simp
      | some line₂ => simp
  | some line₁ =>
      cases h₂ : lastRow d file₂ with
      | none => simp
      | some line₂ =>
          have hshown := shownIf_eq_iff (lastRow_eq_some_iff.mp h₁).columns_ne_nil
            (lastRow_eq_some_iff.mp h₂).columns_ne_nil
          simp [hshown]

/-- INTERNAL: the lines that fit are those whose columns do, where the line buffers fit `tmp`. -/
theorem linesFit_iff {tails : ℕ → List UInt8} {file : List UInt8}
    (hcap : ∀ k line, (getlines file)[k]? = some line →
      (line ++ 0 :: tails k).length ≤ bufSize) :
    LinesFit tails (getlines file) 0 ↔ ColumnsInBounds file := by
  have hlines : ColumnsInBounds file ↔ ∀ w ∈ getlines file, ColumnsFit w := by
    have hnil : (firstField isBlank []).length < ipAddrSize ∧
        (lastField isBlank []).length < ifNameSize := by decide
    unfold ColumnsInBounds
    rcases fileLines_eq file with hfile | hfile
    · rw [hfile, List.forall_mem_map]
      rfl
    · rw [hfile, List.forall_mem_append, List.forall_mem_map, List.forall_mem_singleton]
      exact and_iff_left hnil
  rw [hlines]
  constructor
  · intro h w hw
    obtain ⟨j, hj⟩ := List.mem_iff_getElem?.mp hw
    exact (h j w hj).2
  · intro h j w hj
    refine ⟨?_, h w (List.mem_of_getElem? hj)⟩
    rw [Nat.zero_add]
    exact hcap j w hj

/-! ## Two files with the same rows -/

/-- A frame for an address. -/
def frameTo (d : InAddr) : List UInt8 := List.replicate 30 0 ++ [d.b0, d.b1, d.b2, d.b3]

/-- INTERNAL: two routing lists give every frame the same index for every interface array
exactly when their walks find the same interface for every address.
SOURCE: utils.c:381-436 -/
theorem sameLookups_iff (routes₁ routes₂ : List RoutingEntry) :
    (∀ pkt names, getDstSockIdx pkt names routes₁ = getDstSockIdx pkt names routes₂) ↔
      ∀ d, dstIntf (inetNtoa d) routes₁ = dstIntf (inetNtoa d) routes₂ := by
  constructor
  · intro h d
    have hd : daddr (frameTo d) = d := rfl
    -- No interface tells a match from none, and the two interfaces tell each other apart.
    cases h₁ : dstIntf (inetNtoa d) routes₁ with
    | none =>
        cases h₂ : dstIntf (inetNtoa d) routes₂ with
        | none => rfl
        | some y =>
            have heq := h (frameTo d) []
            simp [getDstSockIdx, hd, h₁, h₂] at heq
    | some x =>
        cases h₂ : dstIntf (inetNtoa d) routes₂ with
        | none =>
            have heq := h (frameTo d) []
            simp [getDstSockIdx, hd, h₁, h₂] at heq
        | some y =>
            by_contra hne
            have hxy : ¬y = x := fun hyx => hne (by rw [hyx])
            have heq := h (frameTo d) [x, y]
            simp [getDstSockIdx, hd, h₁, h₂, List.findIdx?_cons, hxy] at heq
  · intro h pkt names
    unfold getDstSockIdx
    rw [h]

/-- INTERNAL: what the last row for an address shows depends only on the rows and on the
ends of their lines. -/
theorem lastRow_shownIf_congr {file₁ file₂ : List UInt8} (hrows : rows file₁ = rows file₂)
    (hends : (rowLines file₁).map blankEnds = (rowLines file₂).map blankEnds) (d : InAddr) :
    (lastRow d file₁).map shownIf = (lastRow d file₂).map shownIf := by
  have hsee : ∀ file, (lastRow d file).map shownIf =
      (((((rowLines file).map columns).zip ((rowLines file).map blankEnds)).filter fun x =>
        !x.2.1 && decide (x.1.head? = some d.text)).getLast?).map fun x =>
          if x.2.2 then [] else (x.1.getLast?).getD [] := by
    intro file
    rw [List.zip_map', List.filter_map, List.getLast?_map, Option.map_map]
    rfl
  have hcols : (rowLines file₁).map columns = (rowLines file₂).map columns := hrows
  rw [hsee, hsee, hcols, hends]

/-- **Which layouts a lookup cannot tell apart.**  Two files have the same rows of columns, and
the line buffers fit `tmp`.  Both files are read and the lookups agree, for every frame and
every interface array, if and only if the columns at the ends of the lines fit in the arrays
of an entry, and for every address the blanks in front of its lines leave the same line to
decide, or lines that end alike.  In particular they agree when the same lines begin, and the
same lines end, with blanks.
SOURCE: utils.c:312-344, 412-435 -/
theorem layout_independent_iff (file₁ file₂ : List UInt8) (hrows : rows file₁ = rows file₂)
    (tails₁ tails₂ : ℕ → List UInt8)
    (hcap₁ : ∀ k line, (getlines file₁)[k]? = some line →
      (line ++ 0 :: tails₁ k).length ≤ bufSize)
    (hcap₂ : ∀ k line, (getlines file₂)[k]? = some line →
      (line ++ 0 :: tails₂ k).length ≤ bufSize) :
    ((∃ routes₁ routes₂, populateRoutingList tails₁ file₁ = .ok routes₁ ∧
        populateRoutingList tails₂ file₂ = .ok routes₂ ∧
        ∀ pkt names, getDstSockIdx pkt names routes₁ = getDstSockIdx pkt names routes₂) ↔
      ColumnsInBounds file₁ ∧ ColumnsInBounds file₂ ∧ BlankEndsAgree file₁ file₂) ∧
    ((rowLines file₁).map blankEnds = (rowLines file₂).map blankEnds →
      BlankEndsAgree file₁ file₂) := by
  have hlookups : ∀ routes₁ routes₂, populateRoutingList tails₁ file₁ = .ok routes₁ →
      populateRoutingList tails₂ file₂ = .ok routes₂ →
      ((∀ pkt names, getDstSockIdx pkt names routes₁ = getDstSockIdx pkt names routes₂) ↔
        BlankEndsAgree file₁ file₂) := by
    intro routes₁ routes₂ hread₁ hread₂
    rw [sameLookups_iff, blankEndsAgree_iff]
    apply forall_congr'
    intro d
    rw [← dstIntf_of_file tails₁ hcap₁ hread₁ d, ← dstIntf_of_file tails₂ hcap₂ hread₂ d]
    exact (Option.map_injective fun _ _ h => CString.ext h).eq_iff.symm
  have hbounds₁ := (populate_inBounds_iff tails₁ file₁).trans (linesFit_iff hcap₁)
  have hbounds₂ := (populate_inBounds_iff tails₂ file₂).trans (linesFit_iff hcap₂)
  refine ⟨?_, fun hends => (blankEndsAgree_iff _ _).mpr (lastRow_shownIf_congr hrows hends)⟩
  constructor
  · rintro ⟨routes₁, routes₂, hread₁, hread₂, hsame⟩
    exact ⟨hbounds₁.mp ⟨routes₁, hread₁⟩, hbounds₂.mp ⟨routes₂, hread₂⟩,
      (hlookups routes₁ routes₂ hread₁ hread₂).mp hsame⟩
  · rintro ⟨hcolumns₁, hcolumns₂, hagree⟩
    obtain ⟨routes₁, hread₁⟩ := hbounds₁.mpr hcolumns₁
    obtain ⟨routes₂, hread₂⟩ := hbounds₂.mpr hcolumns₂
    exact ⟨routes₁, routes₂, hread₁, hread₂,
      (hlookups routes₁ routes₂ hread₁ hread₂).mpr hagree⟩

/-- A row, the same row with other gaps behind a blank line and without the final newline, and
the same row with a blank in front and with one at the end. -/
def plainRow : List UInt8 := bytes "10.0.0.1\t=>\ts1-eth1\n"
def spacedRow : List UInt8 := bytes " \n10.0.0.1   => \t s1-eth1"
def leadingBlank : List UInt8 := bytes " 10.0.0.1\t=>\ts1-eth1\n"
def trailingBlank : List UInt8 := bytes "10.0.0.1\t=>\ts1-eth1 \n"

/-- Gaps, blank lines and the final newline change no lookup. -/
theorem layout_independent_iff_gaps :
    ∃ routes₁ routes₂, populateRoutingList (fun _ => []) plainRow = .ok routes₁ ∧
      populateRoutingList (fun _ => [7, 7]) spacedRow = .ok routes₂ ∧
      ∀ pkt names, getDstSockIdx pkt names routes₁ = getDstSockIdx pkt names routes₂ := by
  have hshort : ∀ l ∈ getlines plainRow ++ getlines spacedRow, l.length ≤ 100 := by
    decide +kernel
  obtain ⟨hiff, hends⟩ := layout_independent_iff plainRow spacedRow (by decide +kernel)
    (fun _ => []) (fun _ => [7, 7]) (by
      intro k line hk
      have hlen := hshort line (List.mem_append_left _ (List.mem_of_getElem? hk))
      simp only [List.length_append, List.length_cons, List.length_nil, bufSize]
      omega) (by
      intro k line hk
      have hlen := hshort line (List.mem_append_right _ (List.mem_of_getElem? hk))
      simp only [List.length_append, List.length_cons, List.length_nil, bufSize]
      omega)
  exact hiff.mpr ⟨by decide +kernel, by decide +kernel, hends (by decide +kernel)⟩

/-- **A blank at an end of a line changes the route**: in front it hides the row, so that the
frame is dropped, and at the end it sends the frame to interface 0. -/
theorem blank_end_changes_route :
    rows plainRow = rows leadingBlank ∧ rows plainRow = rows trailingBlank ∧
    ∃ routes routesLeading routesTrailing,
      populateRoutingList (fun _ => []) plainRow = .ok routes ∧
      populateRoutingList (fun _ => []) leadingBlank = .ok routesLeading ∧
      populateRoutingList (fun _ => []) trailingBlank = .ok routesTrailing ∧
      getDstSockIdx (frameTo ⟨10, 0, 0, 1⟩) [cstr "s1-eth0", cstr "s1-eth1"] routes = 1 ∧
      getDstSockIdx (frameTo ⟨10, 0, 0, 1⟩) [cstr "s1-eth0", cstr "s1-eth1"] routesLeading = -1 ∧
      getDstSockIdx (frameTo ⟨10, 0, 0, 1⟩) [cstr "s1-eth0", cstr "s1-eth1"] routesTrailing = 0 := by
  have hlookup : ∀ file (x : ℤ),
      (populateRoutingList (fun _ => []) file).map
        (getDstSockIdx (frameTo ⟨10, 0, 0, 1⟩) [cstr "s1-eth0", cstr "s1-eth1"]) = .ok x →
      ∃ routes, populateRoutingList (fun _ => []) file = .ok routes ∧
        getDstSockIdx (frameTo ⟨10, 0, 0, 1⟩) [cstr "s1-eth0", cstr "s1-eth1"] routes = x := by
    intro file x h
    cases hread : populateRoutingList (fun _ => []) file with
    | error e =>
        rw [hread] at h
        cases h
    | ok routes =>
        rw [hread] at h
        cases h
        exact ⟨routes, rfl, rfl⟩
  obtain ⟨r₁, hread₁, hidx₁⟩ := hlookup plainRow 1 (by decide +kernel)
  obtain ⟨r₂, hread₂, hidx₂⟩ := hlookup leadingBlank (-1) (by decide +kernel)
  obtain ⟨r₃, hread₃, hidx₃⟩ := hlookup trailingBlank 0 (by decide +kernel)
  exact ⟨by decide +kernel, by decide +kernel, r₁, r₂, r₃, hread₁, hread₂, hread₃, hidx₁, hidx₂,
    hidx₃⟩

end VtRouter.Analysis
