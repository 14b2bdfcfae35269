import VtRouter.Library.OnesComplement
import VtRouter.Model.UdpClient

/-!
# The checksums of the UDP client

`udp_csum` adds the words of a buffer in a 64-bit accumulator, adds the carries twice, and
returns the complement.  Up to 131072 bytes the sum has 32 bits and twice is enough, so the
result is the complement of the one's-complement sum (`udpCsum_eq`).  Stored in a word of the
buffer that was zero, it makes the sum all ones (`checksum_completes_sum`).
-/

set_option autoImplicit false

namespace VtRouter.Analysis

open Library VtRouter.Model VtRouter.Model.UdpClient

/-! ## The accumulator -/

theorem toNat_load16 (a b : UInt8) :
    ((b.toBitVec ++ a.toBitVec).setWidth 64).toNat = a.toNat + 256 * b.toNat := by
  have ha : a.toBitVec.toNat < 2 ^ 8 := a.toNat_lt
  have hb : b.toBitVec.toNat < 2 ^ 8 := b.toNat_lt
  rw [BitVec.toNat_setWidth, BitVec.toNat_append, ← Nat.shiftLeft_add_eq_or_of_lt ha,
    Nat.shiftLeft_eq]
  show _ = a.toBitVec.toNat + 256 * b.toBitVec.toNat
  omega

/-- INTERNAL: the loop adds the words of the buffer.
SOURCE: test/udp_client_n.c:53-62 -/
theorem udpCsumLoop_eq (s : List UInt8) (sum : BitVec 64) :
    udpCsumLoop s s.length sum = .ok (sum + BitVec.ofNat 64 (wordTotal s)) := by
  induction s using words16.induct generalizing sum with
  | case1 a b s ih =>
      have hword : (b.toBitVec ++ a.toBitVec).setWidth 64 =
          BitVec.ofNat 64 (a.toNat + 256 * b.toNat) := by
        rw [← toNat_load16, BitVec.ofNat_toNat, BitVec.setWidth_eq]
      rw [List.length_cons, List.length_cons, udpCsumLoop]
      show (do udpCsumLoop s s.length (sum + (b.toBitVec ++ a.toBitVec).setWidth 64)) = _
      rw [ih, hword, wordTotal, BitVec.ofNat_add (a.toNat + 256 * b.toNat), BitVec.add_assoc]
  | case2 a =>
      show Except.ok (sum + a.toBitVec.setWidth 64) = _
      congr 2
      apply BitVec.eq_of_toNat_eq
      rw [BitVec.toNat_setWidth, BitVec.toNat_ofNat]
      rfl
  | case3 =>
      show Except.ok sum = _
      rw [wordTotal, BitVec.add_zero]

/-- INTERNAL: the sum of a whole buffer. -/
theorem udpCsumLoop_zero (s : List UInt8) :
    udpCsumLoop s s.length 0 = .ok (BitVec.ofNat 64 (wordTotal s)) := by
  rw [udpCsumLoop_eq]
  exact congrArg Except.ok (BitVec.zero_add _)

/-- INTERNAL: the two loops read an even number of bytes alike.
SOURCE: test/udp_client_n.c:54-57, 233-234 -/
theorem csumLoop_eq (n : ℕ) (s : List UInt8) (sum : BitVec 64) :
    csumLoop s n sum = udpCsumLoop s (2 * n) sum := by
  induction n generalizing s sum with
  | zero => rfl
  | succ n ih =>
      rw [show 2 * (n + 1) = 2 * n + 2 by omega, csumLoop, udpCsumLoop]
      congr 1
      funext w
      exact ih (s.drop 2) _

/-! ## The carries -/

/-- INTERNAL: without a sign the arithmetic shift is the logical one. -/
theorem sshiftRight_eq {x : BitVec 64} (hx : x.toNat < 2 ^ 63) :
    x.sshiftRight 16 = x >>> 16 := by
  apply BitVec.sshiftRight_eq_of_msb_false
  rw [BitVec.msb_eq_decide]
  simpa using hx

/-- INTERNAL: one round of adding the high part to the low word. -/
theorem toNat_round {x : BitVec 64} (hx : x.toNat < 2 ^ 63) :
    ((x >>> 16) + (x &&& 0xffff)).toNat = x.toNat / 65536 + x.toNat % 65536 := by
  have hlow : (x &&& 0xffff).toNat = x.toNat % 65536 := by
    rw [BitVec.toNat_and]
    exact Nat.and_two_pow_sub_one_eq_mod x.toNat 16
  rw [BitVec.toNat_add, BitVec.toNat_ushiftRight, Nat.shiftRight_eq_div_pow, hlow]
  omega

/-- The two rounds, with the logical shift. -/
def foldTwice (x : BitVec 64) : BitVec 64 :=
  let sum := (x >>> 16) + (x &&& 0xffff)
  sum + (sum >>> 16)

/-- INTERNAL: the complement of the low word behind the two rounds. -/
theorem toNat_complement {x : BitVec 64} (hx : x.toNat < 2 ^ 63) :
    ((~~~foldTwice x).setWidth 16).toNat = 65535 - foldCarries x.toNat := by
  have hround := toNat_round hx
  unfold foldTwice
  dsimp only
  rw [BitVec.toNat_setWidth, BitVec.toNat_not, BitVec.toNat_add, BitVec.toNat_ushiftRight,
    Nat.shiftRight_eq_div_pow, hround]
  unfold foldCarries
  dsimp only
  generalize x.toNat / 65536 + x.toNat % 65536 = t at hround ⊢
  omega

/-- INTERNAL: the sum of a buffer shorter than an `int` can say is no negative `long`. -/
theorem toNat_wordTotal {s : List UInt8} (hs : s.length < 2 ^ 31) :
    (BitVec.ofNat 64 (wordTotal s)).toNat = wordTotal s ∧ wordTotal s < 2 ^ 63 := by
  have hle := wordTotal_le s
  rw [BitVec.toNat_ofNat]
  omega

/-- INTERNAL: **the checksum** is the complement of the two rounds.
SOURCE: test/udp_client_n.c:47-69 -/
theorem udpCsum_eq {s : List UInt8} (hs : s.length < 2 ^ 31) :
    udpCsum s s.length = .ok ((~~~foldTwice (BitVec.ofNat 64 (wordTotal s))).setWidth 16) := by
  obtain ⟨htotal, hlt⟩ := toNat_wordTotal hs
  have hsum : (BitVec.ofNat 64 (wordTotal s)).toNat < 2 ^ 63 := by omega
  have hround := toNat_round hsum
  unfold udpCsum
  rw [udpCsumLoop_zero, ok_bind]
  simp only [sshiftRight_eq hsum]
  rw [sshiftRight_eq]
  · rfl
  · omega

/-- INTERNAL: the checksum as a number, when the sum has 32 bits. -/
theorem toNat_udpCsum {s : List UInt8} (hs : s.length ≤ 131072) :
    ∃ c : BitVec 16, udpCsum s s.length = .ok c ∧ c.toNat = 65535 - reduce16 (wordTotal s) := by
  have hle := wordTotal_le s
  obtain ⟨htotal, hlt⟩ := toNat_wordTotal (s := s) (by omega)
  refine ⟨_, udpCsum_eq (by omega), ?_⟩
  rw [toNat_complement (by omega), htotal, foldCarries_eq (by omega)]

/-! ## Storing the checksum -/

/-- Store a 16-bit word at an offset. -/
def store16 (buffer : List UInt8) (f : ℕ) (c : BitVec 16) : List UInt8 :=
  buffer.take f ++ bytes16 c ++ buffer.drop (f + 2)

/-- INTERNAL: the bytes of a word are its two halves. -/
theorem wordTotal_bytes16 (c : BitVec 16) (s : List UInt8) :
    wordTotal (bytes16 c ++ s) = c.toNat + wordTotal s := by
  have hc := c.isLt
  show (c.setWidth 8).toNat + 256 * ((c >>> 8).setWidth 8).toNat + wordTotal s = _
  rw [BitVec.toNat_setWidth, BitVec.toNat_setWidth, BitVec.toNat_ushiftRight,
    Nat.shiftRight_eq_div_pow]
  omega

/-- INTERNAL: a word stored over zeros adds to the sum. -/
theorem wordTotal_store16 {buffer : List UInt8} {f : ℕ} (heven : f % 2 = 0)
    (h0 : buffer[f]? = some 0) (h1 : buffer[f + 1]? = some 0) (c : BitVec 16) :
    wordTotal (store16 buffer f c) = wordTotal buffer + c.toNat := by
  obtain ⟨hlt0, heq0⟩ := List.getElem?_eq_some_iff.mp h0
  obtain ⟨hlt1, heq1⟩ := List.getElem?_eq_some_iff.mp h1
  have hlen : (buffer.take f).length = 2 * (f / 2) := by
    rw [List.length_take]
    omega
  have hsplit : buffer = buffer.take f ++ ([0, 0] ++ buffer.drop (f + 2)) := by
    conv_lhs => rw [← List.take_append_drop f buffer]
    rw [List.drop_eq_getElem_cons hlt0, List.drop_eq_getElem_cons hlt1, heq0, heq1]
    rfl
  have hzeros : wordTotal ([0, 0] ++ buffer.drop (f + 2)) = wordTotal (buffer.drop (f + 2)) := by
    show 0 + 256 * 0 + wordTotal (buffer.drop (f + 2)) = _
    omega
  conv_rhs => rw [hsplit, wordTotal_append _ hlen, hzeros]
  unfold store16
  rw [List.append_assoc, wordTotal_append _ hlen, wordTotal_bytes16]
  omega

theorem length_store16 {buffer : List UInt8} {f : ℕ} (hf : f + 1 < buffer.length) (c : BitVec 16) :
    (store16 buffer f c).length = buffer.length := by
  have hbytes : (bytes16 c).length = 2 := rfl
  unfold store16
  rw [List.length_append, List.length_append, List.length_take, List.length_drop, hbytes]
  omega

/-- INTERNAL: a buffer with the checksum in it sums to all ones and has the checksum zero. -/
theorem ones_of_total {s : List UInt8} (hs : s.length ≤ 131072) {n : ℕ}
    (h : wordTotal s = n + (65535 - reduce16 n)) :
    onesSum (words16 s) = 65535 ∧ udpCsum s s.length = .ok 0 := by
  have hones : reduce16 (wordTotal s) = 65535 := by rw [h, reduce16_add_complement]
  obtain ⟨c, hc, hvalue⟩ := toNat_udpCsum hs
  rw [hones] at hvalue
  refine ⟨by rw [onesSum_words16, hones], ?_⟩
  rw [hc, BitVec.eq_of_toNat_eq (y := 0) hvalue]

/-- **The checksum completes the sum**: stored in a word of the buffer that is zero, it makes the
one's-complement sum all ones, so that the checksum of the result is zero; and on a buffer of
even length the two checksums of the client agree.
SOURCE: test/udp_client_n.c:47-69, 230-238 -/
theorem checksum_completes_sum (buffer : List UInt8) :
    (buffer.length ≤ 131072 → ∀ f, f % 2 = 0 → f + 1 < buffer.length → buffer[f]? = some 0 →
      buffer[f + 1]? = some 0 →
      ∃ c, udpCsum buffer buffer.length = .ok c ∧
        onesSum (words16 (store16 buffer f c)) = 0xFFFF ∧
        udpCsum (store16 buffer f c) buffer.length = .ok 0) ∧
    (buffer.length < 2 ^ 31 → buffer.length % 2 = 0 →
      ∃ c, udpCsum buffer buffer.length = .ok c ∧ csum buffer (buffer.length / 2) = .ok c) := by
  constructor
  · intro hlen f heven hf h0 h1
    obtain ⟨c, hc, hvalue⟩ := toNat_udpCsum hlen
    have htotal := wordTotal_store16 heven h0 h1 c
    rw [hvalue] at htotal
    have hstored := length_store16 hf c
    obtain ⟨hones, hzero⟩ := ones_of_total (s := store16 buffer f c) (by omega) htotal
    rw [hstored] at hzero
    exact ⟨c, hc, hones, hzero⟩
  · intro hlen heven
    refine ⟨_, udpCsum_eq hlen, ?_⟩
    unfold csum
    rw [csumLoop_eq, show 2 * (buffer.length / 2) = buffer.length by omega, udpCsumLoop_zero,
      ok_bind]
    rfl

/-- The checksum of five bytes, stored in front of the odd one, and that of four bytes. -/
theorem checksum_completes_sum_odd :
    (∃ c, udpCsum [0xFF, 0xFF, 0, 0, 7] 5 = .ok c ∧
      onesSum (words16 (store16 [0xFF, 0xFF, 0, 0, 7] 2 c)) = 0xFFFF ∧
      udpCsum (store16 [0xFF, 0xFF, 0, 0, 7] 2 c) 5 = .ok 0) ∧
    ∃ c, udpCsum [1, 2, 3, 4] 4 = .ok c ∧ csum [1, 2, 3, 4] 2 = .ok c :=
  ⟨(checksum_completes_sum [0xFF, 0xFF, 0, 0, 7]).1 (by decide) 2 (by decide) (by decide)
    (by decide) (by decide),
    (checksum_completes_sum [1, 2, 3, 4]).2 (by decide) (by decide)⟩

end VtRouter.Analysis
