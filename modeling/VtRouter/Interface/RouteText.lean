import Mathlib.Data.List.Forall2
import VtRouter.Library.Words
import VtRouter.Model.Routing

/-!
# Route files and their columns

The shape of the route files in `routes/`: lines `ADDR blanks => blanks IFACE`, as data
(`RouteLine`, `routeFile`), and the column split of `Model.parseLine` as functions of the
text of a line (`parseLine_eq`): whatever the capacity of the line buffer and whatever it
holds behind the line, the loop turns blanks and newlines of the line itself into NUL bytes
and remembers the position behind the last blank. The two texts the line yields are its first
and its last column (`parseLine_fields`).
-/

set_option autoImplicit false

namespace VtRouter.Interface

open Library VtRouter.Model

/-! ## The column split -/

/-- What the loop leaves at the place of a byte. -/
def zap (c : UInt8) : UInt8 := if isBlank c ∨ c = ch '\n' then 0 else c

/-- The position behind the last blank of a text that starts at index `i`, or `ifIdx`. -/
def lastBlank : List UInt8 → ℕ → ℕ → ℕ
  | [], _, ifIdx => ifIdx
  | c :: s, i, ifIdx => lastBlank s (i + 1) (if isBlank c then i + 1 else ifIdx)

/-- A text without blanks and newlines. -/
def Solid (s : List UInt8) : Prop := ∀ c ∈ s, isBlank c = false ∧ c ≠ ch '\n'

instance (s : List UInt8) : Decidable (Solid s) := inferInstanceAs (Decidable (∀ c ∈ s, _))

@[simp] theorem zap_zero : zap 0 = 0 := by decide

theorem zap_blank {c : UInt8} (h : isBlank c = true) : zap c = 0 := if_pos (Or.inl h)

theorem map_zap_solid {s : List UInt8} (hs : Solid s) : s.map zap = s := by
  conv_rhs => rw [← List.map_id s]
  apply List.map_congr_left
  intro c hc
  obtain ⟨hb, hn⟩ := hs c hc
  exact if_neg (by simp [hb, hn])

theorem lastBlank_append (s t : List UInt8) (i ifIdx : ℕ) :
    lastBlank (s ++ t) i ifIdx = lastBlank t (i + s.length) (lastBlank s i ifIdx) := by
  induction s generalizing i ifIdx with
  | nil => rfl
  | cons c s ih =>
      simp only [List.cons_append, lastBlank, ih, List.length_cons]
      congr 1
      omega

theorem lastBlank_of_no_blank {s : List UInt8} (hs : ∀ c ∈ s, isBlank c = false) (i ifIdx : ℕ) :
    lastBlank s i ifIdx = ifIdx := by
  induction s generalizing i ifIdx with
  | nil => rfl
  | cons c s ih =>
      have hc : ¬isBlank c = true := by simp [hs c (by simp)]
      simp only [lastBlank, if_neg hc]
      exact ih (fun d hd => hs d (by simp [hd])) (i + 1) ifIdx

/-- INTERNAL: the separator loop over the middle part of the buffer.
SOURCE: utils.c:327-336 -/
theorem splitLoop_eq (front todo back : List UInt8) (ifIdx : ℕ) :
    splitLoop todo.length front.length (front ++ (todo ++ back)) ifIdx =
      .ok (front ++ (todo.map zap ++ back), lastBlank todo front.length ifIdx) := by
  induction todo generalizing front ifIdx with
  | nil => rfl
  | cons c todo ih =>
      have hread : deref ((front ++ (c :: todo ++ back)).drop front.length) = .ok c := by
        rw [List.drop_left]
        rfl
      have hlen : front.length + 1 = (front ++ [zap c]).length := by simp
      have hset : (front ++ (c :: todo ++ back)).set front.length (zap c) =
          (front ++ [zap c]) ++ (todo ++ back) := by
        rw [List.set_append_right _ _ (le_refl _)]
        simp
      have hgoal : ∀ idx, splitLoop todo.length (front.length + 1)
          ((front ++ [zap c]) ++ (todo ++ back)) idx =
          .ok (front ++ ((c :: todo).map zap ++ back), lastBlank todo (front.length + 1) idx) := by
        intro idx
        rw [hlen, ih]
        simp
      rw [List.length_cons, splitLoop, hread, ok_bind]
      by_cases hc : isBlank c ∨ c = ch '\n'
      · have hzap : zap c = 0 := if_pos hc
        rw [if_pos hc]
        rw [hzap] at hset hgoal
        rw [hset, hgoal]
        congr 2
        simp only [lastBlank]
        congr 1
        rcases hc with hb | hn
        · have hne : c ≠ ch '\n' := by
            rintro rfl
            exact absurd hb (by decide)
          rw [if_pos hne, if_pos hb]
        · have hb : ¬isBlank c = true := by
            rw [hn]
            decide
          rw [if_neg (by simp [hn]), if_neg hb]
      · have hzap : zap c = c := if_neg hc
        have hb : ¬isBlank c = true := fun h => hc (Or.inl h)
        rw [if_neg hc]
        rw [hzap] at hgoal
        have hassoc : front ++ (c :: todo ++ back) = (front ++ [c]) ++ (todo ++ back) := by simp
        rw [hassoc, hgoal, lastBlank, if_neg hb]

/-- INTERNAL: copying a terminated line buffer into the zeroed `tmp` leaves the line and
zeros.
SOURCE: utils.c:324-325 -/
theorem strncpy_line {w : List UInt8} (hw : 0 ∉ w) (u : List UInt8)
    (hcap : (w ++ 0 :: u).length ≤ bufSize) :
    strncpy (List.replicate bufSize 0) (w ++ 0 :: u) (w ++ 0 :: u).length =
      .ok (w ++ List.replicate (bufSize - w.length) 0) := by
  have htake : (w ++ 0 :: u).takeWhile (fun c => decide (c ≠ 0)) = w := by
    rw [List.takeWhile_append_of_pos, List.takeWhile_cons_of_neg (by simp), List.append_nil]
    intro c hc
    simp only [decide_eq_true_eq]
    rintro rfl
    exact hw hc
  unfold strncpy
  rw [List.length_replicate, if_pos hcap, List.take_length, htake, List.drop_replicate,
    List.append_assoc, List.replicate_append_replicate]
  congr 3
  simp only [List.length_append, List.length_cons] at hcap ⊢
  omega

/-- INTERNAL: the separator loop over the copy of a line: what it leaves and remembers depends
on the line alone, not on the capacity of the buffer the line stands in.
SOURCE: utils.c:326-336 -/
theorem splitLoop_line (w u : List UInt8) (hcap : (w ++ 0 :: u).length ≤ bufSize) :
    splitLoop (w ++ 0 :: u).length 0 (w ++ List.replicate (bufSize - w.length) 0) 0 =
      .ok (w.map zap ++ List.replicate (bufSize - w.length) 0, lastBlank w 0 0) := by
  have hzeros : List.replicate (bufSize - w.length) (0 : UInt8) =
      List.replicate ((w ++ 0 :: u).length - w.length) 0 ++
        List.replicate (bufSize - (w ++ 0 :: u).length) 0 := by
    rw [List.replicate_append_replicate]
    congr 1
    simp only [List.length_append, List.length_cons] at hcap ⊢
    omega
  have htodo : (w ++ 0 :: u).length =
      (w ++ List.replicate ((w ++ 0 :: u).length - w.length) (0 : UInt8)).length := by
    simp only [List.length_append, List.length_cons, List.length_replicate]
    omega
  have hsplit := splitLoop_eq []
    (w ++ List.replicate ((w ++ 0 :: u).length - w.length) (0 : UInt8))
    (List.replicate (bufSize - (w ++ 0 :: u).length) 0) 0
  rw [← htodo, List.length_nil, List.nil_append, List.nil_append, List.append_assoc, ← hzeros,
    List.map_append, List.map_replicate, zap_zero, List.append_assoc, ← hzeros,
    lastBlank_append, lastBlank_of_no_blank (s := List.replicate _ _)] at hsplit
  · exact hsplit
  · intro c hc
    rw [List.eq_of_mem_replicate hc]
    decide

/-- **The column split of a line** depends on the line alone: not on the capacity of the
buffer it stands in, as long as `tmp` is that large, and not on what stands behind it.
SOURCE: utils.c:314-343 -/
theorem parseLine_eq {w : List UInt8} (hw : 0 ∉ w) (u : List UInt8)
    (hlen : 1 < (w ++ 0 :: u).length) (hcap : (w ++ 0 :: u).length ≤ bufSize) :
    parseLine (w ++ 0 :: u) = (do
      let tmp := w.map zap ++ List.replicate (bufSize - w.length) 0
      let ipAddress ← strcpy ipAddrSize tmp
      let outputIf ← strcpy ifNameSize (tmp.drop (lastBlank w 0 0))
      return some ⟨ipAddress.1, outputIf.1, ipAddress.2, outputIf.2⟩) := by
  unfold parseLine
  simp only [if_pos hlen]
  rw [strncpy_line hw u hcap, ok_bind, splitLoop_line w u hcap, ok_bind]

/-- INTERNAL: behind a line `tmp` goes on with a NUL byte, with or without the newline. -/
theorem map_zap_end {e : List UInt8} (he : e = [] ∨ e = [ch '\n']) {m : ℕ} (hm : 0 < m) :
    ∃ x, e.map zap ++ List.replicate m (0 : UInt8) = 0 :: x := by
  obtain ⟨m, rfl⟩ := Nat.exists_eq_add_one_of_ne_zero (Nat.ne_of_gt hm)
  rcases he with rfl | rfl
  · exact ⟨List.replicate m 0, rfl⟩
  · exact ⟨List.replicate (m + 1) 0, rfl⟩

/-- INTERNAL: the text before the first blank ends with a NUL byte in `tmp`. -/
theorem tmp_firstField {b e : List UInt8} (hb : ch '\n' ∉ b) (he : e = [] ∨ e = [ch '\n'])
    {m : ℕ} (hm : 0 < m) :
    ∃ x, (b ++ e).map zap ++ List.replicate m 0 = firstField isBlank b ++ 0 :: x := by
  obtain ⟨x, hx⟩ := map_zap_end he hm
  have hmem : ∀ c ∈ firstField isBlank b, c ∈ b := fun c hc => (List.takeWhile_prefix _).subset hc
  have hsolid : Solid (firstField isBlank b) := by
    intro c hc
    refine ⟨noSep_firstField c hc, ?_⟩
    rintro rfl
    exact hb (hmem _ hc)
  have hzap := map_zap_solid hsolid
  rcases firstField_split isBlank b with hall | ⟨c, t, hsplit, hc⟩
  · rw [hall] at hzap ⊢
    refine ⟨x, ?_⟩
    rw [List.map_append, hzap, List.append_assoc, hx]
  · refine ⟨(t ++ e).map zap ++ List.replicate m 0, ?_⟩
    conv_lhs => rw [hsplit]
    simp only [List.append_assoc, List.map_append, List.cons_append, List.map_cons, hzap,
      zap_blank hc]

/-- INTERNAL: the remembered position is where the text behind the last blank starts.
SOURCE: utils.c:329-333 -/
theorem tmp_lastField {b e : List UInt8} (hb : ch '\n' ∉ b) (he : e = [] ∨ e = [ch '\n'])
    {m : ℕ} (hm : 0 < m) :
    ∃ y, ((b ++ e).map zap ++ List.replicate m 0).drop (lastBlank (b ++ e) 0 0) =
      lastField isBlank b ++ 0 :: y := by
  obtain ⟨y, hy⟩ := map_zap_end he hm
  have heb : ∀ c ∈ e, isBlank c = false := by rcases he with rfl | rfl <;> decide +kernel
  have hmem : ∀ c ∈ lastField isBlank b, c ∈ b := fun c hc => (List.rtakeWhile_suffix _ b).subset hc
  have hsolid : Solid (lastField isBlank b) := by
    intro c hc
    refine ⟨noSep_lastField c hc, ?_⟩
    rintro rfl
    exact hb (hmem _ hc)
  have hzap := map_zap_solid hsolid
  refine ⟨y, ?_⟩
  rw [lastBlank_append, lastBlank_of_no_blank heb]
  rcases lastField_split isBlank b with hall | ⟨t, c, hsplit, hc⟩
  · rw [hall] at hzap ⊢
    have hnone : ∀ c ∈ b, isBlank c = false := by
      intro c hc
      rw [← hall] at hc
      exact noSep_lastField c hc
    rw [lastBlank_of_no_blank hnone, List.drop_zero, List.map_append, hzap, List.append_assoc, hy]
  · have hindex : lastBlank b 0 0 = ((t ++ [c]).map zap).length := by
      conv_lhs => rw [hsplit]
      rw [lastBlank_append, lastBlank, if_pos hc, lastBlank_of_no_blank noSep_lastField]
      simp
    have htmp : (b ++ e).map zap ++ List.replicate m 0 =
        (t ++ [c]).map zap ++ (lastField isBlank b ++ 0 :: y) := by
      conv_lhs => rw [hsplit]
      rw [← hy]
      simp [hzap]
    rw [hindex, htmp, List.drop_left]

/-- **The two fields of a line**: what `populate_routing_list` takes over is the text before
the first blank and the text behind the last.
SOURCE: utils.c:314-343 -/
theorem parseLine_fields {b e : List UInt8} (hb : ch '\n' ∉ b) (hb0 : 0 ∉ b)
    (he : e = [] ∨ e = [ch '\n']) (u : List UInt8) (hlen : 1 < (b ++ e ++ 0 :: u).length)
    (hcap : (b ++ e ++ 0 :: u).length ≤ bufSize) :
    ∃ x y, parseLine (b ++ e ++ 0 :: u) = (do
      let ipAddress ← strcpy ipAddrSize (firstField isBlank b ++ 0 :: x)
      let outputIf ← strcpy ifNameSize (lastField isBlank b ++ 0 :: y)
      return some ⟨ipAddress.1, outputIf.1, ipAddress.2, outputIf.2⟩) := by
  have hw0 : 0 ∉ b ++ e := by
    have he0 : 0 ∉ e := by rcases he with rfl | rfl <;> decide
    simp only [List.mem_append, not_or]
    exact ⟨hb0, he0⟩
  have hroom : 0 < bufSize - (b ++ e).length := by
    rw [List.length_append, List.length_cons] at hcap
    omega
  obtain ⟨x, hx⟩ := tmp_firstField hb he hroom
  obtain ⟨y, hy⟩ := tmp_lastField hb he hroom
  refine ⟨x, y, ?_⟩
  rw [parseLine_eq hw0 u hlen hcap]
  simp only [hx] at hy ⊢
  rw [hy]

/-! ## The lines of a file -/

theorem Solid.noNewline {s : List UInt8} (hs : Solid s) : ch '\n' ∉ s := fun h => (hs _ h).2 rfl

/-- INTERNAL: a byte that is no blank and not in the arrow is only in the columns of a line. -/
theorem notMem_columns {a gap₁ gap₂ z : List UInt8} {c : UInt8} (hblank : isBlank c = false)
    (harrow : c ∉ bytes "=>") (ha : c ∉ a) (h₁ : ∀ d ∈ gap₁, isBlank d = true)
    (h₂ : ∀ d ∈ gap₂, isBlank d = true) (hz : c ∉ z) :
    c ∉ a ++ (gap₁ ++ (bytes "=>" ++ (gap₂ ++ z))) := by
  have hgap : ∀ s : List UInt8, (∀ d ∈ s, isBlank d = true) → c ∉ s := by
    intro s hs hc
    rw [hs c hc] at hblank
    cases hblank
  simp only [List.mem_append, not_or]
  exact ⟨ha, hgap _ h₁, harrow, hgap _ h₂, hz⟩

/-- INTERNAL: `getline` delivers a line with its newline. -/
theorem getlines_line {l : List UInt8} (hl : ch '\n' ∉ l) (s : List UInt8) :
    getlines (l ++ ch '\n' :: s) = (l ++ [ch '\n']) :: getlines s := by
  induction l with
  | nil => simp [getlines]
  | cons c l ih =>
      have hc : c ≠ ch '\n' := fun h => hl (by simp [h])
      rw [List.cons_append, getlines, if_neg hc, ih fun h => hl (by simp [h])]
      rfl

/-- INTERNAL: `getline` delivers a last line without a newline. -/
theorem getlines_last {l : List UInt8} (hne : l ≠ []) (hl : ch '\n' ∉ l) :
    getlines l = [l] := by
  induction l with
  | nil => exact absurd rfl hne
  | cons c l ih =>
      have hc : c ≠ ch '\n' := fun h => hl (by simp [h])
      rw [getlines, if_neg hc]
      cases l with
      | nil => rfl
      | cons d l => rw [ih (List.cons_ne_nil d l) fun h => hl (List.mem_cons_of_mem c h)]

/-- A file of texts: a newline after each, optional after the last. -/
def textFile : List (List UInt8) → Bool → List UInt8
  | [], _ => []
  | [t], finalNewline => t ++ if finalNewline then [ch '\n'] else []
  | t :: t' :: ts, finalNewline => t ++ ch '\n' :: textFile (t' :: ts) finalNewline

/-- INTERNAL: what holds of the lines from the `k`-th on holds of those behind the first. -/
theorem forall_lines_tail {P : ℕ → List UInt8 → Prop} {w : List UInt8} {ws : List (List UInt8)}
    {k : ℕ} (h : ∀ j line, (w :: ws)[j]? = some line → P (k + j) line) :
    ∀ j line, ws[j]? = some line → P (k + 1 + j) line := by
  intro j line hj
  have hline := h (j + 1) line hj
  rwa [show k + (j + 1) = k + 1 + j by omega] at hline

/-- A text, with or without a newline behind it. -/
def IsLineOf (w t : List UInt8) : Prop := ∃ e, w = t ++ e ∧ (e = [] ∨ e = [ch '\n'])

/-- **`getline` delivers the texts of a file** one by one, in order. -/
theorem getlines_textFile {ts : List (List UInt8)} (finalNewline : Bool)
    (hts : ∀ t ∈ ts, t ≠ [] ∧ ch '\n' ∉ t) :
    List.Forall₂ IsLineOf (getlines (textFile ts finalNewline)) ts := by
  induction ts, finalNewline using textFile.induct with
  | case1 finalNewline => exact List.Forall₂.nil
  | case2 t finalNewline =>
      obtain ⟨hne, hnl⟩ := hts t (by simp)
      cases finalNewline with
      | false =>
          rw [textFile, if_neg Bool.false_ne_true, List.append_nil, getlines_last hne hnl]
          exact List.Forall₂.cons ⟨[], by simp, Or.inl rfl⟩ List.Forall₂.nil
      | true =>
          rw [textFile, if_pos rfl, getlines_line hnl]
          exact List.Forall₂.cons ⟨_, rfl, Or.inr rfl⟩ List.Forall₂.nil
  | case3 t t' ts finalNewline ih =>
      obtain ⟨-, hnl⟩ := hts t (by simp)
      rw [textFile, getlines_line hnl]
      exact List.Forall₂.cons ⟨_, rfl, Or.inr rfl⟩ (ih fun s hs => hts s (List.mem_cons_of_mem t hs))

/-! ## Route files -/

/-- A line `ADDR blanks => blanks IFACE` of a route file.
SOURCE: routes/s1_routes.txt -/
structure RouteLine where
  addr : InAddr
  gap₁ : List UInt8
  gap₂ : List UInt8
  iface : CString
  gap₁_blank : gap₁ ≠ [] ∧ ∀ c ∈ gap₁, isBlank c = true
  gap₂_blank : gap₂ ≠ [] ∧ ∀ c ∈ gap₂, isBlank c = true
  iface_solid : Solid iface.toList
  iface_fits : iface.toList.length < ifNameSize

/-- The text of the line, without a newline. -/
def RouteLine.text (l : RouteLine) : List UInt8 :=
  l.addr.text ++ (l.gap₁ ++ (bytes "=>" ++ (l.gap₂ ++ l.iface.toList)))

/-- A route file: a newline after each line, optional after the last. -/
def routeFile : List RouteLine → Bool → List UInt8
  | [], _ => []
  | [l], finalNewline => l.text ++ if finalNewline then [ch '\n'] else []
  | l :: m :: ls, finalNewline => l.text ++ ch '\n' :: routeFile (m :: ls) finalNewline

/-- INTERNAL: an address prints at most fifteen bytes, none of them a separator. -/
theorem addrText_fits (a : InAddr) : a.text.length < ipAddrSize ∧ Solid a.text := by
  have hlen : ∀ b : UInt8, (decimal b.toNat).length ≤ 3 := by
    intro b
    have hb := b.toNat_lt
    rw [decimal, List.length_map, Nat.length_toDigits_le_iff (by norm_num) (by norm_num)]
    omega
  constructor
  · have h0 := hlen a.b0
    have h1 := hlen a.b1
    have h2 := hlen a.b2
    have h3 := hlen a.b3
    simp only [InAddr.text, List.length_append, List.length_cons, ipAddrSize]
    omega
  · have hdec : ∀ n, Solid (decimal n) := by
      intro n c hc
      have hd := isDigit_of_mem_decimal hc
      constructor
      · by_contra hb
        simp only [isBlank, Bool.not_eq_false, Bool.or_eq_true, decide_eq_true_eq] at hb
        rcases hb with rfl | rfl <;> exact absurd hd (by decide)
      · rintro rfl
        exact absurd hd (by decide)
    have hdot : isBlank (ch '.') = false ∧ ch '.' ≠ ch '\n' := by decide
    intro c hc
    simp only [InAddr.text, List.mem_append, List.mem_cons] at hc
    rcases hc with hc | rfl | hc | rfl | hc | rfl | hc
    · exact hdec _ c hc
    · exact hdot
    · exact hdec _ c hc
    · exact hdot
    · exact hdec _ c hc
    · exact hdot
    · exact hdec _ c hc

theorem RouteLine.text_ne_nil (l : RouteLine) : l.text ≠ [] := by
  obtain ⟨hne, -⟩ := l.gap₁_blank
  intro h
  rw [RouteLine.text, List.append_eq_nil_iff, List.append_eq_nil_iff] at h
  exact hne h.2.1

theorem RouteLine.noNewline_text (l : RouteLine) : ch '\n' ∉ l.text :=
  notMem_columns (by decide) (by decide) (addrText_fits l.addr).2.noNewline l.gap₁_blank.2
    l.gap₂_blank.2 l.iface_solid.noNewline

theorem RouteLine.noNul_text (l : RouteLine) : 0 ∉ l.text :=
  notMem_columns (by decide) (by decide) l.addr.noNul_text l.gap₁_blank.2 l.gap₂_blank.2
    l.iface.noNul

/-- The entry a line stands for. -/
def RouteLine.entry (l : RouteLine) : RoutingEntry where
  ipAddress := inetNtoa l.addr
  outputIf := l.iface
  ipFits := (addrText_fits l.addr).1
  ifFits := l.iface_fits

/-- INTERNAL: the address stands before the first blank of the line. -/
theorem RouteLine.firstField_text (l : RouteLine) :
    firstField isBlank l.text = (inetNtoa l.addr).toList := by
  obtain ⟨hne, hblank⟩ := l.gap₁_blank
  obtain ⟨g, gs, hg⟩ := List.exists_cons_of_ne_nil hne
  have hsep : isBlank g = true := hblank g (by simp [hg])
  unfold RouteLine.text
  rw [hg, List.cons_append]
  exact firstField_append_cons hsep fun c hc => ((addrText_fits l.addr).2 c hc).1

/-- INTERNAL: the interface stands behind the last blank of the line. -/
theorem RouteLine.lastField_text (l : RouteLine) : lastField isBlank l.text = l.iface.toList := by
  obtain ⟨hne, hblank⟩ := l.gap₂_blank
  obtain ⟨gs, g, hg⟩ := (List.eq_nil_or_concat' l.gap₂).resolve_left hne
  have hsep : isBlank g = true := hblank g (by simp [hg])
  have hsplit : l.text =
      (l.addr.text ++ (l.gap₁ ++ (bytes "=>" ++ gs))) ++ g :: l.iface.toList := by
    simp [RouteLine.text, hg]
  rw [hsplit]
  exact lastField_append_cons hsep fun c hc => (l.iface_solid c hc).1

/-- INTERNAL: a route file is the file of the texts of its lines. -/
theorem routeFile_eq (lines : List RouteLine) (finalNewline : Bool) :
    routeFile lines finalNewline = textFile (lines.map RouteLine.text) finalNewline := by
  induction lines, finalNewline using routeFile.induct with
  | case1 finalNewline => rfl
  | case2 l finalNewline => rfl
  | case3 l m ls finalNewline ih =>
      rw [routeFile, ih]
      rfl

/-- INTERNAL: **one line of a route file** becomes its entry, with or without the newline,
whatever stands behind it in the line buffer.
SOURCE: utils.c:314-343 -/
theorem parseLine_routeLine (l : RouteLine) {e : List UInt8} (he : e = [] ∨ e = [ch '\n'])
    (u : List UInt8) (hcap : (l.text ++ e ++ 0 :: u).length ≤ bufSize) :
    parseLine (l.text ++ e ++ 0 :: u) = .ok (some l.entry) := by
  have hlen : 1 < (l.text ++ e ++ 0 :: u).length := by
    have hpos := List.length_pos_iff.mpr l.text_ne_nil
    simp only [List.length_append, List.length_cons]
    omega
  obtain ⟨x, y, hparse⟩ :=
    parseLine_fields l.noNewline_text l.noNul_text he u hlen hcap
  rw [hparse, l.firstField_text, l.lastField_text, strcpy_eq (inetNtoa l.addr) l.entry.ipFits,
    ok_bind, strcpy_eq l.iface l.iface_fits, ok_bind]
  rfl

end VtRouter.Interface
