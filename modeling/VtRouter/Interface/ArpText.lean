import Mathlib.Data.List.OfFn
import VtRouter.Interface.RouteText
import VtRouter.Model.UdpClient

/-!
# ARP files and the octets of an address

The shape of `arp_table.txt`: lines `ADDR blanks => blanks xx:xx:xx:xx:xx:xx`, as data
(`ArpLine`, `arpFile`), and what `parseArpLine` makes of one (`parseArpLine_arpLine`).

The loop over the last column cuts it at its colons.  At the first five it reads the two digits
in front of the colon, which the cut has terminated (`macLoop_octet`), and at the fifth also
what follows, up to the end of the text (`macLoop_last`).  What stands in front of the column
is untouched, so the first column can be copied afterwards.
-/

set_option autoImplicit false

namespace VtRouter.Interface

open Library VtRouter.Model UdpClient

/-! ## ARP files -/

/-- The octets of an address in two digits each, joined by colons. -/
def macText (upper : Bool) : List UInt8 → List UInt8
  | [] => []
  | [b] => hexText upper b.toNat
  | b :: c :: bs => hexText upper b.toNat ++ ch ':' :: macText upper (c :: bs)

/-- A line `ADDR blanks => blanks xx:xx:xx:xx:xx:xx` of an ARP file, with digits of either
case.
SOURCE: mininet/apptopo.py:43-46 -/
structure ArpLine where
  ip : CString
  gap₁ : List UInt8
  gap₂ : List UInt8
  mac : Fin 6 → UInt8
  upper : Bool
  ip_solid : Solid ip.toList
  ip_fits : ip.toList.length < UdpClient.ipAddrSize
  gap₁_blank : gap₁ ≠ [] ∧ ∀ c ∈ gap₁, isBlank c = true
  gap₂_blank : gap₂ ≠ [] ∧ ∀ c ∈ gap₂, isBlank c = true

/-- The last column of the line. -/
def ArpLine.macText (l : ArpLine) : List UInt8 := Interface.macText l.upper (List.ofFn l.mac)

/-- The text of the line, without a newline. -/
def ArpLine.text (l : ArpLine) : List UInt8 :=
  l.ip.toList ++ (l.gap₁ ++ (bytes "=>" ++ (l.gap₂ ++ l.macText)))

/-- An ARP file: a newline after each line, optional after the last. -/
def arpFile (lines : List ArpLine) (finalNewline : Bool) : List UInt8 :=
  textFile (lines.map ArpLine.text) finalNewline

/-- The entry a line stands for. -/
def ArpLine.entry (l : ArpLine) : ArpEntry where
  ipAddress := l.ip
  mac := fun k => (l.mac k).toNat
  ipFits := l.ip_fits

/-- INTERNAL: the last column consists of digits and colons. -/
theorem mem_macText {upper : Bool} {bs : List UInt8} {c : UInt8} (hc : c ∈ macText upper bs) :
    (hexVal c).isSome = true ∨ c = ch ':' := by
  induction bs using macText.induct with
  | case1 => cases hc
  | case2 b => exact Or.inl (hexVal_of_mem_hexText b.toNat_lt hc)
  | case3 b d bs ih =>
      rw [macText, List.mem_append, List.mem_cons] at hc
      rcases hc with hb | rfl | hrest
      · exact Or.inl (hexVal_of_mem_hexText b.toNat_lt hb)
      · exact Or.inr rfl
      · exact ih hrest

/-- INTERNAL: a byte that is no digit and no colon is not in the last column. -/
theorem notMem_macText {upper : Bool} {bs : List UInt8} {c : UInt8} (hdigit : hexVal c = none)
    (hcolon : c ≠ ch ':') : c ∉ macText upper bs := by
  intro hc
  rcases mem_macText hc with h | h
  · rw [hdigit] at h
    cases h
  · exact hcolon h

theorem solid_macText (upper : Bool) (bs : List UInt8) : Solid (macText upper bs) := by
  have hother : ∀ c, hexVal c = none → c ≠ ch ':' → ∀ d ∈ macText upper bs, d ≠ c := by
    rintro c hdigit hcolon d hd rfl
    exact notMem_macText hdigit hcolon hd
  intro c hc
  have hspace := hother (ch ' ') (by decide) (by decide) c hc
  have htab := hother (ch '\t') (by decide) (by decide) c hc
  exact ⟨by simp [isBlank, hspace, htab], hother (ch '\n') (by decide) (by decide) c hc⟩

theorem ArpLine.text_ne_nil (l : ArpLine) : l.text ≠ [] := by
  obtain ⟨hne, -⟩ := l.gap₁_blank
  intro h
  rw [ArpLine.text, List.append_eq_nil_iff, List.append_eq_nil_iff] at h
  exact hne h.2.1

theorem ArpLine.noNewline_text (l : ArpLine) : ch '\n' ∉ l.text :=
  notMem_columns (by decide) (by decide) l.ip_solid.noNewline l.gap₁_blank.2 l.gap₂_blank.2
    (solid_macText _ _).noNewline

theorem ArpLine.noNul_text (l : ArpLine) : 0 ∉ l.text :=
  notMem_columns (by decide) (by decide) l.ip.noNul l.gap₁_blank.2 l.gap₂_blank.2
    (notMem_macText (by decide) (by decide))

/-! ## The two columns of a line -/

/-- INTERNAL: a line of two columns with anything between them: what the separator loop leaves
is the first column, terminated, and from the remembered position on the last.
SOURCE: test/udp_client_n.c:178-188 -/
theorem tmp_columns {a z e : List UInt8} {g h : UInt8} (mid : List UInt8) (ha : Solid a)
    (hz : Solid z) (hg : isBlank g = true) (hh : isBlank h = true) (he : e = [] ∨ e = [ch '\n']) {m : ℕ}
    (hm : 0 < m) :
    ∃ x y, ((a ++ g :: (mid ++ h :: z)) ++ e).map zap ++ List.replicate m 0 =
        (a ++ 0 :: x) ++ (z ++ 0 :: y) ∧
      lastBlank ((a ++ g :: (mid ++ h :: z)) ++ e) 0 0 = (a ++ 0 :: x).length := by
  obtain ⟨y, hy⟩ := map_zap_end he hm
  have heb : ∀ c ∈ e, isBlank c = false := by rcases he with rfl | rfl <;> decide +kernel
  refine ⟨mid.map zap ++ [0], y, ?_, ?_⟩
  · rw [← hy]
    simp [map_zap_solid ha, map_zap_solid hz, zap_blank hg, zap_blank hh]
  · have hsplit : a ++ g :: (mid ++ h :: z) = (a ++ g :: mid ++ [h]) ++ z := by simp
    rw [lastBlank_append, lastBlank_of_no_blank heb, hsplit, lastBlank_append,
      lastBlank_of_no_blank fun c hc => (hz c hc).1, lastBlank_append, lastBlank, if_pos hh,
      lastBlank]
    simp only [List.length_append, List.length_cons, List.length_nil, List.length_map]
    omega

/-! ## The octets -/

/-- INTERNAL: a byte that is neither the end nor a colon is passed over.
SOURCE: test/udp_client_n.c:193-206 -/
theorem macLoop_other (fuel j : ℕ) (front back : List UInt8) (mac : MacInts) {c : UInt8}
    (hzero : c ≠ 0) (hcolon : c ≠ ch ':') :
    macLoop (fuel + 1) front.length j (front ++ c :: back) mac =
      macLoop fuel (front ++ [c]).length j ((front ++ [c]) ++ back) mac := by
  rw [macLoop, List.drop_left, deref_cons, ok_bind, if_neg hzero, if_neg hcolon]
  simp

/-- INTERNAL: the digits of an octet are passed over. -/
theorem macLoop_digits (upper : Bool) (fuel j : ℕ) (front back : List UInt8) (mac : MacInts)
    (b : UInt8) :
    macLoop (fuel + 2) front.length j (front ++ (hexText upper b.toNat ++ back)) mac =
      macLoop fuel (front ++ hexText upper b.toNat).length j
        ((front ++ hexText upper b.toNat) ++ back) mac := by
  have hother : ∀ c ∈ hexText upper b.toNat, c ≠ 0 ∧ c ≠ ch ':' := by
    intro c hc
    have hdigit := hexVal_of_mem_hexText b.toNat_lt hc
    constructor
    · rintro rfl
      exact absurd hdigit (by decide)
    · rintro rfl
      exact absurd hdigit (by decide)
  obtain ⟨hi, lo, htext, -, -⟩ := hexText_byte upper b.toNat_lt
  rw [htext] at hother ⊢
  obtain ⟨hhi0, hhic⟩ := hother hi (by simp)
  obtain ⟨hlo0, hloc⟩ := hother lo (by simp)
  rw [List.cons_append, macLoop_other (fuel + 1) j front _ mac hhi0 hhic, List.cons_append,
    List.nil_append, macLoop_other fuel j (front ++ [hi]) back mac hlo0 hloc]
  simp

/-- INTERNAL: an octet in front of the end of the text reads back. -/
theorem octetAt_octet (upper : Bool) (front back : List UInt8) (b : UInt8) {k : ℤ}
    (hk : k = front.length) :
    octetAt (front ++ (hexText upper b.toNat ++ 0 :: back)) k = .ok b.toNat := by
  have hint : IsInt32 b.toNat := by
    have hb := b.toNat_lt
    constructor <;> omega
  unfold octetAt
  rw [ptrAdd_append front _ k hk, ok_bind, strtol16_hexText upper b.toNat_lt, ok_bind,
    wrap32_of_isInt32 hint]
  rfl

/-- INTERNAL: at the colon behind an octet the text is cut and the octet stored.
SOURCE: test/udp_client_n.c:191-206 -/
theorem macLoop_colon (upper : Bool) (fuel : ℕ) {j : ℕ} (hj : j < 5) (front back : List UInt8)
    (mac : MacInts) (b : UInt8) :
    macLoop (fuel + 3) front.length j (front ++ (hexText upper b.toNat ++ ch ':' :: back)) mac = (do
      let tmp := front ++ (hexText upper b.toNat ++ 0 :: back)
      let i := (front ++ hexText upper b.toNat).length
      let mac := Function.update mac ⟨j, by omega⟩ (b.toNat : ℤ)
      if j + 1 = 5 then
        let mac ← storeMac mac (j + 1) (← octetAt tmp (i + 1))
        return (tmp, mac)
      else macLoop fuel (i + 1) (j + 1) tmp mac) := by
  have hset : ((front ++ hexText upper b.toNat) ++ ch ':' :: back).set
      (front ++ hexText upper b.toNat).length 0 =
      front ++ (hexText upper b.toNat ++ 0 :: back) := by
    rw [List.set_append_right _ _ (le_refl _), Nat.sub_self, List.append_assoc]
    rfl
  have hindex : ((front ++ hexText upper b.toNat).length : ℤ) - 2 = front.length := by
    rw [List.length_append, length_hexText_byte upper b.toNat_lt]
    omega
  rw [macLoop_digits, macLoop, List.drop_left, deref_cons, ok_bind, if_neg (by decide), if_pos rfl]
  simp only [hset]
  rw [octetAt_octet upper front back b hindex, ok_bind, storeMac, dif_pos (show j < 6 by omega),
    ok_bind]

/-- INTERNAL: the octet behind those that are done. -/
theorem octet_of_split {octets : Fin 6 → UInt8} {done todo : List UInt8} {b : UInt8}
    (hsplit : List.ofFn octets = done ++ b :: todo) {k : Fin 6} (hk : (k : ℕ) = done.length) :
    octets k = b := by
  have hget : (List.ofFn octets)[(k : ℕ)]? = some b := by
    rw [hsplit, hk, List.getElem?_append_right (le_refl _), Nat.sub_self]
    rfl
  rw [List.getElem?_ofFn, dif_pos k.isLt] at hget
  exact Option.some.inj hget

/-- INTERNAL: one more octet is stored. -/
theorem stored_succ {octets : Fin 6 → UInt8} {mac : MacInts} {j : Fin 6} {b : UInt8}
    (hb : octets j = b) (hmac : ∀ k < j, mac k = (octets k).toNat) {k : Fin 6} (hk : k ≤ j) :
    Function.update mac j (b.toNat : ℤ) k = (octets k).toNat := by
  by_cases hkj : k = j
  · rw [hkj, Function.update_self, hb]
  · rw [Function.update_of_ne hkj]
    exact hmac k (lt_of_le_of_ne hk hkj)

/-- **The octets of an address** are all read back, from the `j`-th on when those in front of it
are stored, and what stands in front of the text stays as it is.
SOURCE: test/udp_client_n.c:191-206 -/
theorem macLoop_macText (upper : Bool) (fuel : ℕ) (octets : Fin 6 → UInt8)
    {done todo : List UInt8} (hsplit : List.ofFn octets = done ++ todo) (htodo : 2 ≤ todo.length)
    (front back : List UInt8) (mac : MacInts)
    (hmac : ∀ k : Fin 6, (k : ℕ) < done.length → mac k = (octets k).toNat) :
    ∃ x, macLoop (fuel + 3 * todo.length) front.length done.length
        (front ++ (macText upper todo ++ 0 :: back)) mac =
      .ok (front ++ x, fun k => ((octets k).toNat : ℤ)) := by
  induction todo using macText.induct generalizing done front mac with
  | case1 => simp at htodo
  | case2 b => simp at htodo
  | case3 b c bs ih =>
      have hlen := congrArg List.length hsplit
      simp only [List.length_ofFn, List.length_append, List.length_cons] at hlen
      have hj : done.length < 5 := by omega
      have hb : octets ⟨done.length, by omega⟩ = b := octet_of_split hsplit rfl
      have hstored : ∀ k : Fin 6, (k : ℕ) < done.length + 1 →
          Function.update mac ⟨done.length, by omega⟩ (b.toNat : ℤ) k = (octets k).toNat := by
        intro k hk
        exact stored_succ hb (fun i hi => hmac i hi) (Nat.lt_succ_iff.mp hk)
      have hdone : done.length + 1 = (done ++ [b]).length := by simp
      have hsplit' : List.ofFn octets = (done ++ [b]) ++ c :: bs := by simpa using hsplit
      have hcut : ∀ back', front ++ (hexText upper b.toNat ++ 0 :: back') =
          (front ++ (hexText upper b.toNat ++ [0])) ++ back' := by
        intro back'
        simp
      have hnext : (front ++ hexText upper b.toNat).length + 1 =
          (front ++ (hexText upper b.toNat ++ [0])).length := by
        simp only [List.length_append, List.length_cons, List.length_nil]
        omega
      have hfuel : fuel + 3 * (b :: c :: bs).length = fuel + 3 * (c :: bs).length + 3 := by
        simp only [List.length_cons]
        omega
      rw [macText, List.append_assoc, List.cons_append, hfuel, macLoop_colon upper _ hj]
      dsimp only
      cases bs with
      | nil =>
          have hindex : done.length + 1 = 5 := by
            rw [List.length_nil] at hlen
            omega
          have hfive : ∀ h, (⟨done.length + 1, h⟩ : Fin 6) = 5 := fun h => Fin.ext hindex
          have hc : octets 5 = c := octet_of_split hsplit' (by rw [← hdone, hindex]; rfl)
          have hall : (fun k => ((octets k).toNat : ℤ)) =
              Function.update (Function.update mac ⟨done.length, by omega⟩ (b.toNat : ℤ)) 5
                (c.toNat : ℤ) := by
            funext k
            refine (stored_succ hc (fun i hi => hstored i ?_) (Fin.le_last k)).symm
            have hi5 : (i : ℕ) < 5 := hi
            omega
          refine ⟨hexText upper b.toNat ++ 0 :: (hexText upper c.toNat ++ 0 :: back), ?_⟩
          rw [if_pos hindex, macText, hcut, octetAt_octet upper _ back c (by exact_mod_cast hnext),
            ok_bind, storeMac, dif_pos (by omega), ok_bind, hall, hfive, ← hcut]
          rfl
      | cons d bs =>
          have hne : ¬done.length + 1 = 5 := by
            simp only [List.length_cons] at hlen
            omega
          obtain ⟨x, hrec⟩ := ih hsplit' (by simp) (front ++ (hexText upper b.toNat ++ [0])) _
            (by rwa [← hdone])
          refine ⟨hexText upper b.toNat ++ 0 :: x, ?_⟩
          rw [if_neg hne, hcut, hnext, hdone, hrec]
          simp

/-! ## One line -/

/-- INTERNAL: **one line of an ARP file** becomes its entry, with or without the newline,
whatever stands behind it in the line buffer and whatever the fresh entry holds.
SOURCE: test/udp_client_n.c:165-211 -/
theorem parseArpLine_arpLine (l : ArpLine) {e : List UInt8} (he : e = [] ∨ e = [ch '\n'])
    (u : List UInt8) (junk : MacInts)
    (hcap : (l.text ++ e ++ 0 :: u).length ≤ UdpClient.bufSize) :
    parseArpLine (l.text ++ e ++ 0 :: u) junk = .ok (some l.entry) := by
  obtain ⟨hne₁, hblank₁⟩ := l.gap₁_blank
  obtain ⟨g, gs, hg⟩ := List.exists_cons_of_ne_nil hne₁
  obtain ⟨hne₂, hblank₂⟩ := l.gap₂_blank
  obtain ⟨hs, h, hh⟩ := (List.eq_nil_or_concat' l.gap₂).resolve_left hne₂
  have htext : l.text =
      l.ip.toList ++ g :: ((gs ++ (bytes "=>" ++ hs)) ++ h :: l.macText) := by
    simp [ArpLine.text, hg, hh]
  have hw0 : 0 ∉ l.text ++ e := by
    have he0 : 0 ∉ e := by rcases he with rfl | rfl <;> decide
    simp only [List.mem_append, not_or]
    exact ⟨l.noNul_text, he0⟩
  have hlen : 1 < (l.text ++ e ++ 0 :: u).length := by
    have hpos := List.length_pos_iff.mpr l.text_ne_nil
    simp only [List.length_append, List.length_cons]
    omega
  have hroom : 0 < Model.bufSize - (l.text ++ e).length := by
    rw [List.length_append, List.length_cons] at hcap
    simp only [UdpClient.bufSize, Model.bufSize] at hcap ⊢
    omega
  have hsolid : Solid l.macText := solid_macText l.upper (List.ofFn l.mac)
  obtain ⟨x, y, htmp, hlast⟩ := tmp_columns (gs ++ (bytes "=>" ++ hs)) l.ip_solid hsolid
    (hblank₁ g (by simp [hg])) (hblank₂ h (by simp [hh])) he hroom
  obtain ⟨z, hmac⟩ := macLoop_macText l.upper 1983 l.mac (List.nil_append _).symm (by simp)
    (l.ip.toList ++ 0 :: x) y junk (by simp)
  have hbuf : UdpClient.bufSize = Model.bufSize := rfl
  have hfuel : Model.bufSize + 1 = 1983 + 3 * (List.ofFn l.mac).length := by
    rw [List.length_ofFn]
    rfl
  rw [hbuf] at hcap
  rw [← htext] at htmp hlast
  unfold parseArpLine
  simp only [if_pos hlen]
  rw [hbuf, strncpy_line hw0 u hcap, ok_bind, splitLoop_line (l.text ++ e) u hcap, ok_bind]
  simp only [htmp, hlast]
  rw [hfuel]
  unfold ArpLine.macText
  rw [List.length_nil] at hmac
  rw [hmac, ok_bind]
  simp only [List.append_assoc, List.cons_append]
  rw [strcpy_eq l.ip l.ip_fits, ok_bind]
  rfl

end VtRouter.Interface
