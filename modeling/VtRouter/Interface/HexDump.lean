import VtRouter.Model.PktInfo

/-!
# Hex dumps

What a hex dump with sixteen bytes a row is: a line for each row, with the bytes of the row as
two digits each in a column of fixed width, and one character for each of them behind it
(`IsHexDump`).  A dump reads back as the bytes that were dumped (`readDump_of_isHexDump`).

`Model.printData` prints the rows in this layout, but with as many digits for a byte as the
converted `char` has (`printData_eq`): the run of its loop is followed with the character column
one row behind the hex column, as in the source.
-/

set_option autoImplicit false

namespace VtRouter.Interface

open Library VtRouter.Model

/-! ## The layout -/

/-- The bytes of a row in the hex column. -/
def hexColumn (bs : List UInt8) : List UInt8 := bs.flatMap fun b => ch ' ' :: hexText true b.toNat

/-- A line: the bytes `bs`, padded to the width of sixteen, and the characters `cs`. -/
def dumpLine (bs cs : List UInt8) : List UInt8 :=
  spaces 3 ++ hexColumn bs ++ spaces (3 * (16 - bs.length)) ++ spaces 9 ++ cs ++ [ch '\n']

/-- The number of rows, rounded up. -/
def rowCount (n : ℕ) : ℕ := (n + 15) / 16

/-- The bytes `16 r` to `16 r + 15`, as far as there are any. -/
def row (bs : List UInt8) (r : ℕ) : List UInt8 := (bs.drop (16 * r)).take 16

/-- The text is a line for each row, with one character for each byte of it. -/
def IsHexDump (bs text : List UInt8) : Prop :=
  ∃ cs : ℕ → List UInt8,
    (∀ r < rowCount bs.length, (cs r).length = (row bs r).length ∧ ch '\n' ∉ cs r) ∧
    text = (List.range (rowCount bs.length)).flatMap fun r => dumpLine (row bs r) (cs r)

/-- INTERNAL: the rows one after the other. -/
theorem flatMap_row (bs : List UInt8) (m : ℕ) :
    (List.range m).flatMap (row bs) = bs.take (16 * m) := by
  induction m with
  | zero => simp
  | succ m ih =>
      rw [List.range_succ, List.flatMap_append, List.flatMap_singleton, ih, row,
        show 16 * (m + 1) = 16 * m + 16 by omega, List.take_add]

/-- **The rows make up the bytes.** -/
theorem flatMap_rows (bs : List UInt8) :
    (List.range (rowCount bs.length)).flatMap (row bs) = bs := by
  rw [flatMap_row, List.take_of_length_le]
  unfold rowCount
  omega

/-! ## Reading a dump back -/

/-- The bytes at the front of a hex column. -/
def readBytes : List UInt8 → List UInt8
  | c :: hi :: lo :: rest =>
      match hexVal hi, hexVal lo with
      | some h, some l => if c = ch ' ' then UInt8.ofNat (16 * h + l) :: readBytes rest else []
      | _, _ => []
  | _ => []

/-- The bytes of a dump, from the hex columns of its lines. -/
def readDump (text : List UInt8) : List UInt8 :=
  (text.splitOnP fun c => c == ch '\n').flatMap fun line => readBytes (line.drop 3)

/-- INTERNAL: a hex column in front of blanks reads back. -/
theorem readBytes_hexColumn (bs t : List UInt8) :
    readBytes (hexColumn bs ++ (spaces 3 ++ t)) = bs := by
  induction bs with
  | nil => rfl
  | cons b bs ih =>
      obtain ⟨hi, lo, htext, hhi, hlo⟩ := hexText_byte true b.toNat_lt
      have hvalue : 16 * (b.toNat / 16) + b.toNat % 16 = b.toNat := Nat.div_add_mod _ _
      have hcons : hexColumn (b :: bs) ++ (spaces 3 ++ t) =
          ch ' ' :: hi :: lo :: (hexColumn bs ++ (spaces 3 ++ t)) := by
        simp [hexColumn, htext]
      rw [hcons, readBytes, hhi, hlo]
      simp only [if_true, hvalue, ih, UInt8.ofNat_toNat]

/-- INTERNAL: the hex column of a line reads back. -/
theorem readBytes_dumpLine (bs cs : List UInt8) :
    readBytes ((spaces 3 ++ hexColumn bs ++ spaces (3 * (16 - bs.length)) ++ spaces 9 ++ cs).drop 3) =
      bs := by
  have hblank : ∃ t, spaces (3 * (16 - bs.length)) ++ (spaces 9 ++ cs) = spaces 3 ++ t := by
    refine ⟨spaces (3 * (16 - bs.length) + 6) ++ cs, ?_⟩
    rw [← List.append_assoc, ← List.append_assoc]
    congr 1
    unfold spaces
    rw [List.replicate_append_replicate, List.replicate_append_replicate]
    congr 1
    omega
  obtain ⟨t, ht⟩ := hblank
  rw [List.append_assoc, List.append_assoc, List.append_assoc, List.drop_left' (by rfl), ht]
  exact readBytes_hexColumn bs t

theorem noNewline_spaces (n : ℕ) : ch '\n' ∉ spaces n := by
  intro h
  exact absurd (List.eq_of_mem_replicate h) (by decide)

/-- INTERNAL: no digit is a newline. -/
theorem noNewline_hexColumn (bs : List UInt8) : ch '\n' ∉ hexColumn bs := by
  intro h
  obtain ⟨b, -, hmem⟩ := List.mem_flatMap.mp h
  rcases List.mem_cons.mp hmem with hspace | hdigit
  · exact absurd hspace (by decide)
  · exact absurd (hexVal_of_mem_hexText b.toNat_lt hdigit) (by decide)

/-- INTERNAL: lines one after the other, cut at the newlines. -/
theorem readDump_lines (ls : List (List UInt8 × List UInt8)) (h : ∀ l ∈ ls, ch '\n' ∉ l.2) :
    readDump (ls.flatMap fun l => dumpLine l.1 l.2) = ls.flatMap Prod.fst := by
  induction ls with
  | nil => rfl
  | cons l ls ih =>
      have hrest := ih fun m hm => h m (List.mem_cons_of_mem l hm)
      have hfront : ∀ c ∈ spaces 3 ++ hexColumn l.1 ++ spaces (3 * (16 - l.1.length)) ++ spaces 9 ++
          l.2, (c == ch '\n') = false := by
        intro c hc
        rw [beq_eq_false_iff_ne]
        rintro rfl
        simp only [List.mem_append] at hc
        rcases hc with (((hc | hc) | hc) | hc) | hc
        · exact noNewline_spaces _ hc
        · exact noNewline_hexColumn _ hc
        · exact noNewline_spaces _ hc
        · exact noNewline_spaces _ hc
        · exact h l List.mem_cons_self hc
      have hcut : ((l :: ls).flatMap fun l => dumpLine l.1 l.2) =
          (spaces 3 ++ hexColumn l.1 ++ spaces (3 * (16 - l.1.length)) ++ spaces 9 ++ l.2) ++
            ch '\n' :: ls.flatMap fun l => dumpLine l.1 l.2 := by
        simp [dumpLine]
      unfold readDump at hrest ⊢
      rw [hcut, List.splitOnP_append_cons _ _ (by simp), List.splitOnP_eq_singleton hfront,
        List.flatMap_append, List.flatMap_singleton, readBytes_dumpLine, hrest, List.flatMap_cons]

/-- **A dump reads back as the bytes that were dumped.** -/
theorem readDump_of_isHexDump {bs text : List UInt8} (h : IsHexDump bs text) :
    readDump text = bs := by
  obtain ⟨cs, hcs, rfl⟩ := h
  have hlines := readDump_lines ((List.range (rowCount bs.length)).map fun r => (row bs r, cs r))
    (by
      intro l hl
      obtain ⟨r, hr, rfl⟩ := List.mem_map.mp hl
      exact (hcs r (List.mem_range.mp hr)).2)
  rw [List.flatMap_map, List.flatMap_map] at hlines
  rw [hlines]
  exact flatMap_rows bs

/-! ## The run of the printing loop -/

/-- The bytes `lo` to `lo + k - 1` as the loop prints them. -/
def printedHex (data : List UInt8) (lo k : ℕ) : List UInt8 :=
  (List.range' lo k).flatMap fun i => ch ' ' :: hexText true (hexArg (data.getD i 0))

/-- A line as the loop prints it. -/
def printedLine (data : List UInt8) (lo k : ℕ) : List UInt8 :=
  spaces 3 ++ printedHex data lo k ++ spaces (3 * (16 - k)) ++ spaces 9 ++
    shownChars data lo (lo + k) ++ [ch '\n']

/-- What an iteration prints but for the end of the last line. -/
def printBody (data : List UInt8) (i : ℕ) : List UInt8 :=
  (if i ≠ 0 ∧ i % 16 = 0 then spaces 9 ++ shownChars data (i - 16) i ++ [ch '\n'] else []) ++
  (if i % 16 = 0 then spaces 3 else []) ++
  (ch ' ' :: hexText true (hexArg (data.getD i 0)))

theorem printedHex_succ (data : List UInt8) (lo k : ℕ) :
    printedHex data lo (k + 1) =
      printedHex data lo k ++ ch ' ' :: hexText true (hexArg (data.getD (lo + k) 0)) := by
  unfold printedHex
  rw [List.range'_concat, List.flatMap_append, List.flatMap_singleton, Nat.one_mul]

/-- INTERNAL: **behind iteration `m`** the full lines in front of the current one are printed,
and the hex column of the current one up to the byte `m`.
SOURCE: pkt_info.c:231-247 -/
theorem printBody_run (data : List UInt8) (m : ℕ) :
    (List.range (m + 1)).flatMap (printBody data) =
      ((List.range (m / 16)).flatMap fun r => printedLine data (16 * r) 16) ++
        (spaces 3 ++ printedHex data (16 * (m / 16)) (m % 16 + 1)) := by
  induction m with
  | zero => rfl
  | succ m ih =>
      rw [List.range_succ, List.flatMap_append, List.flatMap_singleton, ih]
      by_cases hline : (m + 1) % 16 = 0
      · -- The character column of the line before is printed in front of the new line.
        have hdiv : (m + 1) / 16 = m / 16 + 1 := by omega
        have hmod : m % 16 + 1 = 16 := by omega
        have hlo : m + 1 - 16 = 16 * (m / 16) := by omega
        have hhi : m + 1 = 16 * (m / 16) + 16 := by omega
        have hnew : 16 * (m / 16 + 1) = m + 1 := by omega
        have hbody : printBody data (m + 1) =
            spaces 9 ++ shownChars data (16 * (m / 16)) (16 * (m / 16) + 16) ++ [ch '\n'] ++
              (spaces 3 ++ printedHex data (m + 1) 1) := by
          unfold printBody
          rw [if_pos ⟨Nat.succ_ne_zero m, hline⟩, if_pos hline, hlo, ← hhi, printedHex,
            List.range'_one, List.flatMap_singleton]
          simp
        rw [hbody, hdiv, hmod, hline, Nat.zero_add, hnew, List.range_succ, List.flatMap_append,
          List.flatMap_singleton, printedLine, Nat.sub_self, Nat.mul_zero]
        simp [spaces]
      · have hdiv : (m + 1) / 16 = m / 16 := by omega
        have hmod : (m + 1) % 16 = m % 16 + 1 := by omega
        have hbyte : 16 * (m / 16) + (m % 16 + 1) = m + 1 := by omega
        have hbody : printBody data (m + 1) =
            ch ' ' :: hexText true (hexArg (data.getD (m + 1) 0)) := by
          unfold printBody
          rw [if_neg fun h => hline h.2, if_neg hline]
          rfl
        rw [hbody, hdiv, hmod, printedHex_succ data (16 * (m / 16)) (m % 16 + 1), hbyte]
        simp only [List.append_assoc]

/-- INTERNAL: the iterations in front of the last one print their bodies. -/
theorem printDataStep_of_lt (data : List UInt8) {m i : ℕ} (hi : i < m) :
    printDataStep data (m + 1 : ℕ) i = printBody data i := by
  have hne : ¬(i : ℤ) = (m + 1 : ℕ) - 1 := by omega
  unfold printDataStep
  rw [if_neg hne, List.append_nil]
  rfl

/-- INTERNAL: the last iteration pads the hex column and prints the last characters.
SOURCE: pkt_info.c:249-271 -/
theorem printDataStep_last (data : List UInt8) (m : ℕ) :
    printDataStep data (m + 1 : ℕ) m =
      printBody data m ++ (spaces (3 * (16 - (m % 16 + 1))) ++ spaces 9 ++
        shownChars data (16 * (m / 16)) (16 * (m / 16) + (m % 16 + 1)) ++ [ch '\n']) := by
  have heq : (m : ℤ) = (m + 1 : ℕ) - 1 := by omega
  have hlo : m - m % 16 = 16 * (m / 16) := by omega
  have hhi : m + 1 = 16 * (m / 16) + (m % 16 + 1) := by omega
  have hpad : ∀ n, (List.range n).flatMap (fun _ => spaces 3) = spaces (3 * n) := by
    intro n
    induction n with
    | zero => rfl
    | succ n ih =>
        rw [List.range_succ, List.flatMap_append, List.flatMap_singleton, ih]
        unfold spaces
        rw [List.replicate_append_replicate]
        rfl
  have hwidth : 15 - m % 16 = 16 - (m % 16 + 1) := by omega
  unfold printDataStep
  rw [if_pos heq, hpad, hlo, ← hhi, hwidth]
  rfl

/-- INTERNAL: **what the loop prints**: a line for every sixteen bytes and one for the rest.
SOURCE: pkt_info.c:228-273 -/
theorem printData_lines (data : List UInt8) (n : ℕ) :
    printData data n =
      (List.range (rowCount n)).flatMap fun r => printedLine data (16 * r) (min 16 (n - 16 * r)) := by
  cases n with
  | zero => rfl
  | succ m =>
      have hcount : rowCount (m + 1) = m / 16 + 1 := by
        unfold rowCount
        omega
      have hfull : ((List.range (m / 16)).flatMap fun r =>
          printedLine data (16 * r) (min 16 (m + 1 - 16 * r))) =
          (List.range (m / 16)).flatMap fun r => printedLine data (16 * r) 16 := by
        apply List.flatMap_congr
        intro r hr
        have hlt := List.mem_range.mp hr
        rw [Nat.min_eq_left (by omega)]
      have hlast : min 16 (m + 1 - 16 * (m / 16)) = m % 16 + 1 := by omega
      have hbody : (List.range m).flatMap (printDataStep data (m + 1 : ℕ)) =
          (List.range m).flatMap (printBody data) := by
        apply List.flatMap_congr
        intro i hi
        exact printDataStep_of_lt data (List.mem_range.mp hi)
      have hrun := printBody_run data m
      rw [List.range_succ, List.flatMap_append, List.flatMap_singleton] at hrun
      unfold printData
      rw [Int.toNat_natCast, List.range_succ, List.flatMap_append, List.flatMap_singleton, hbody,
        printDataStep_last, ← List.append_assoc, hrun, hcount, List.range_succ, List.flatMap_append,
        List.flatMap_singleton, hfull, hlast, printedLine]
      simp only [List.append_assoc]

/-- INTERNAL: reading bytes by index is cutting them out. -/
theorem map_getD_range' (data : List UInt8) {lo k : ℕ} (h : lo + k ≤ data.length) :
    (List.range' lo k).map (fun i => data.getD i 0) = (data.drop lo).take k := by
  apply List.ext_getElem
  · simp only [List.length_map, List.length_range', List.length_take, List.length_drop]
    omega
  · intro i hi _
    simp only [List.length_map, List.length_range'] at hi
    simp only [List.getElem_map, List.getElem_range', List.getElem_take, List.getElem_drop,
      Nat.one_mul]
    rw [List.getD_eq_getElem?_getD, List.getElem?_eq_getElem (by omega), Option.getD_some]

/-- The line of a row as the loop prints it. -/
def printedRow (bs : List UInt8) : List UInt8 :=
  spaces 3 ++ (bs.flatMap fun b => ch ' ' :: hexText true (hexArg b)) ++
    spaces (3 * (16 - bs.length)) ++ spaces 9 ++ bs.map shownChar ++ [ch '\n']

/-- **What `PrintData` prints**: the rows of the bytes, with every byte converted as a signed
`char`.
SOURCE: pkt_info.c:228-273 -/
theorem printData_rows (data : List UInt8) {n : ℕ} (hn : n ≤ data.length) :
    printData data n =
      (List.range (rowCount (data.take n).length)).flatMap fun r =>
        printedRow (row (data.take n) r) := by
  rw [printData_lines, List.length_take, Nat.min_eq_left hn]
  apply List.flatMap_congr
  intro r hr
  have hlt := List.mem_range.mp hr
  unfold rowCount at hlt
  have hrow : row (data.take n) r = (data.drop (16 * r)).take (min 16 (n - 16 * r)) := by
    unfold row
    rw [List.drop_take, List.take_take]
  have hend : 16 * r + min 16 (n - 16 * r) ≤ data.length := by omega
  have hmap := map_getD_range' data hend
  have hlen : (row (data.take n) r).length = min 16 (n - 16 * r) := by
    rw [hrow, List.length_take, List.length_drop]
    omega
  unfold printedLine printedRow printedHex shownChars
  rw [hlen, hrow, ← hmap, List.flatMap_map, List.map_map, Nat.add_sub_cancel_left]
  rfl

end VtRouter.Interface
