import VtRouter.Interface.HexDump

/-!
# When the hex dump is one

`PrintData` gives `%02X` a `char` converted to `unsigned int`, and `char` is signed: a byte with
the top bit prints as eight digits (`hexArg_eq`), and its line is six characters too wide.  The
dump is a hex dump exactly when no byte of it has the top bit (`printData_isHexDump_iff`).
-/

set_option autoImplicit false

namespace VtRouter.Analysis

open Library VtRouter.Model VtRouter.Interface

/-- INTERNAL: a fact about every byte, from the numbers below 256. -/
theorem forall_byte {P : UInt8 → Prop} (h : ∀ n < 256, P (UInt8.ofNat n)) (b : UInt8) : P b := by
  have hb := h b.toNat b.toNat_lt
  rwa [UInt8.ofNat_toNat] at hb

/-- INTERNAL: the sign extension of a byte. -/
theorem hexArg_eq (b : UInt8) :
    hexArg b = if b.toNat < 128 then b.toNat else b.toNat + (2 ^ 32 - 2 ^ 8) :=
  forall_byte (P := fun b => hexArg b = if b.toNat < 128 then b.toNat else b.toNat + (2 ^ 32 - 2 ^ 8))
    (by decide +kernel) b

theorem shownChar_ne_newline (b : UInt8) : shownChar b ≠ ch '\n' :=
  forall_byte (P := fun b => shownChar b ≠ ch '\n') (by decide +kernel) b

/-- INTERNAL: a byte prints as two digits exactly when it has no sign. -/
theorem length_hexArg_eq_two_iff (b : UInt8) :
    (hexText true (hexArg b)).length = 2 ↔ b.toNat < 128 := by
  rw [hexArg_eq]
  by_cases hb : b.toNat < 128
  · rw [if_pos hb, length_hexText_byte true b.toNat_lt]
    exact ⟨fun _ => hb, fun _ => rfl⟩
  · have hlong := two_lt_length_hexText true (n := b.toNat + (2 ^ 32 - 2 ^ 8)) (by omega)
    rw [if_neg hb]
    constructor
    · intro h
      omega
    · intro h
      exact absurd h hb

section Lengths

variable {α : Type} {f g : α → List UInt8}

theorem length_flatMap_le {l : List α} (h : ∀ a ∈ l, (f a).length ≤ (g a).length) :
    (l.flatMap f).length ≤ (l.flatMap g).length := by
  induction l with
  | nil => exact Nat.le_refl _
  | cons a l ih =>
      have ha := h a List.mem_cons_self
      have hl := ih fun x hx => h x (List.mem_cons_of_mem a hx)
      rw [List.flatMap_cons, List.flatMap_cons, List.length_append, List.length_append]
      omega

/-- INTERNAL: when no piece is shorter and the whole is no longer, every piece is as long. -/
theorem length_eq_of_flatMap {l : List α} (h : ∀ a ∈ l, (f a).length ≤ (g a).length)
    (hlen : (l.flatMap g).length ≤ (l.flatMap f).length) :
    ∀ a ∈ l, (g a).length = (f a).length := by
  induction l with
  | nil =>
      intro a ha
      cases ha
  | cons a l ih =>
      have ha := h a List.mem_cons_self
      have hrest : ∀ x ∈ l, (f x).length ≤ (g x).length :=
        fun x hx => h x (List.mem_cons_of_mem a hx)
      have hl := length_flatMap_le hrest
      rw [List.flatMap_cons, List.flatMap_cons, List.length_append, List.length_append] at hlen
      intro x hx
      rcases List.mem_cons.mp hx with rfl | hx
      · omega
      · exact ih hrest (by omega) x hx

end Lengths

/-- INTERNAL: no byte prints shorter than in a hex dump. -/
theorem length_hexText_le_hexArg (b : UInt8) :
    (ch ' ' :: hexText true b.toNat).length ≤ (ch ' ' :: hexText true (hexArg b)).length := by
  have hbyte := length_hexText_byte true b.toNat_lt
  rw [List.length_cons, List.length_cons, hbyte]
  by_cases hb : b.toNat < 128
  · rw [(length_hexArg_eq_two_iff b).mpr hb]
  · have hlong := two_lt_length_hexText true (n := b.toNat + (2 ^ 32 - 2 ^ 8)) (by omega)
    rw [hexArg_eq, if_neg hb]
    omega

/-- INTERNAL: a row is printed no shorter than the line of a dump, and as long only when none
of its bytes has the top bit. -/
theorem length_dumpLine_le {bs cs : List UInt8} (hcs : cs.length = bs.length) :
    (dumpLine bs cs).length ≤ (printedRow bs).length ∧
      ((printedRow bs).length = (dumpLine bs cs).length → ∀ b ∈ bs, b.toNat < 128) := by
  have hle := length_flatMap_le (l := bs) fun b _ => length_hexText_le_hexArg b
  have hdump : (dumpLine bs cs).length =
      (bs.flatMap fun b => ch ' ' :: hexText true b.toNat).length + bs.length +
        (3 * (16 - bs.length) + 13) := by
    simp only [dumpLine, hexColumn, spaces, List.length_append, List.length_replicate, hcs,
      List.length_cons, List.length_nil]
    omega
  have hprinted : (printedRow bs).length =
      (bs.flatMap fun b => ch ' ' :: hexText true (hexArg b)).length + bs.length +
        (3 * (16 - bs.length) + 13) := by
    simp only [printedRow, spaces, List.length_append, List.length_replicate, List.length_map,
      List.length_cons, List.length_nil]
    omega
  rw [hdump, hprinted]
  refine ⟨by omega, ?_⟩
  intro heq b hb
  have hbyte := length_eq_of_flatMap (fun b _ => length_hexText_le_hexArg b) (l := bs) (by omega) b hb
  rw [List.length_cons, List.length_cons, length_hexText_byte true b.toNat_lt] at hbyte
  exact (length_hexArg_eq_two_iff b).mp (by omega)

/-- INTERNAL: without a top bit a row is printed as in a dump. -/
theorem printedRow_eq {bs : List UInt8} (h : ∀ b ∈ bs, b.toNat < 128) :
    printedRow bs = dumpLine bs (bs.map shownChar) := by
  have hhex : (bs.flatMap fun b => ch ' ' :: hexText true (hexArg b)) = hexColumn bs := by
    apply List.flatMap_congr
    intro b hb
    rw [hexArg_eq, if_pos (h b hb)]
  unfold printedRow dumpLine
  rw [hhex]

/-- **When `PrintData` prints a hex dump**: exactly when no byte it is to print has the top bit.
SOURCE: pkt_info.c:228-273 -/
theorem printData_isHexDump_iff (data : List UInt8) (size : ℤ) (hsize : size ≤ data.length) :
    IsHexDump (data.take size.toNat) (printData data size) ∧
        readDump (printData data size) = data.take size.toNat ↔
      ∀ b ∈ data.take size.toNat, b.toNat < 128 := by
  have hrows := printData_rows data (n := size.toNat) (by omega)
  have hsame : printData data size = printData data (size.toNat : ℤ) := by
    rcases Int.le_total 0 size with hpos | hneg
    · rw [Int.toNat_of_nonneg hpos]
    · rw [Int.toNat_of_nonpos hneg]
      unfold printData
      rw [Int.toNat_of_nonpos hneg]
      rfl
  have hmem : ∀ r b, b ∈ row (data.take size.toNat) r → b ∈ data.take size.toNat :=
    fun r b hb => List.mem_of_mem_drop (List.mem_of_mem_take hb)
  rw [hsame]
  constructor
  · rintro ⟨⟨cs, hcs, htext⟩, -⟩ b hb
    rw [hrows] at htext
    have hlines : ∀ r ∈ List.range (rowCount (data.take size.toNat).length),
        (dumpLine (row (data.take size.toNat) r) (cs r)).length ≤
          (printedRow (row (data.take size.toNat) r)).length :=
      fun r hr => (length_dumpLine_le (hcs r (List.mem_range.mp hr)).1).1
    have hequal := length_eq_of_flatMap hlines (by rw [htext])
    rw [← flatMap_rows (data.take size.toNat)] at hb
    obtain ⟨r, hr, hbr⟩ := List.mem_flatMap.mp hb
    exact (length_dumpLine_le (hcs r (List.mem_range.mp hr)).1).2 (hequal r hr) b hbr
  · intro h
    have hdump : IsHexDump (data.take size.toNat) (printData data size.toNat) := by
      refine ⟨fun r => (row (data.take size.toNat) r).map shownChar, ?_, ?_⟩
      · intro r _
        refine ⟨List.length_map _, ?_⟩
        intro hnewline
        obtain ⟨b, -, hb⟩ := List.mem_map.mp hnewline
        exact shownChar_ne_newline b hb
      · rw [hrows]
        apply List.flatMap_congr
        intro r _
        exact printedRow_eq fun b hb => h b (hmem r b hb)
    exact ⟨hdump, readDump_of_isHexDump hdump⟩

/-- The first two bytes of an array whose third has the top bit. -/
theorem printData_isHexDump_iff_prefix :
    IsHexDump [0x41, 0x7F] (printData [0x41, 0x7F, 0x80] 2) ∧
      readDump (printData [0x41, 0x7F, 0x80] 2) = [0x41, 0x7F] :=
  (printData_isHexDump_iff [0x41, 0x7F, 0x80] 2 (by decide)).mpr (by decide +kernel)

/-- A byte `0x80` is dumped as `FFFFFF80`, and what the columns read back as is another byte. -/
theorem signed_byte_dump :
    printData [0x80] 1 = bytes "    FFFFFF80                                                      .\n" ∧
    ¬(IsHexDump [0x80] (printData [0x80] 1) ∧ readDump (printData [0x80] 1) = [0x80]) := by
  refine ⟨by decide +kernel, ?_⟩
  rintro ⟨-, hread⟩
  exact absurd hread (by decide +kernel)

end VtRouter.Analysis
