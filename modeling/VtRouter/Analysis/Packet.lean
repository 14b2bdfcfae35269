import VtRouter.Analysis.Checksum
import VtRouter.Model.PktInfo

/-!
# The packets of the UDP client

`construct_packet` fills in the lengths and the two checksums, each over a region where the
other fields are final and the checksum itself is still zero.  The frame is a valid datagram by
the rules it encodes but for one case (`packet_valid_iff`): RFC 768 keeps the checksum zero for
"no checksum", and the client sends it when the sum of the words happens to be all ones.
-/

set_option autoImplicit false

namespace VtRouter.Analysis

open Library VtRouter.Model VtRouter.Model.UdpClient

/-! ## Addresses -/

/-- INTERNAL: a byte reads back from its numeral. -/
theorem addrPart_decimal (b : UInt8) : addrPart (decimal b.toNat) = some b.toNat := by
  have hall : ∀ n < 256, addrPart (decimal n) = some n := by decide +kernel
  exact hall b.toNat b.toNat_lt

/-- **`inet_addr` reads back what `inet_ntoa` prints.** -/
theorem inetAddr_inetNtoa (a : InAddr) : inetAddr (inetNtoa a) = a := by
  have hdigit : ∀ n, ∀ c ∈ decimal n, (c == ch '.') = false ∧ (!isSpace c) = true := by
    intro n c hc
    have hd := isDigit_of_mem_decimal hc
    refine ⟨?_, by simp [(not_space_of_isDigit hd).1]⟩
    rw [beq_eq_false_iff_ne]
    rintro rfl
    exact absurd hd (by decide)
  have hdot : (!isSpace (ch '.')) = true := by decide
  have hspace : ∀ c ∈ a.text, (!isSpace c) = true := by
    intro c hc
    simp only [InAddr.text, List.mem_append, List.mem_cons] at hc
    rcases hc with hc | rfl | hc | rfl | hc | rfl | hc
    · exact (hdigit _ c hc).2
    · exact hdot
    · exact (hdigit _ c hc).2
    · exact hdot
    · exact (hdigit _ c hc).2
    · exact hdot
    · exact (hdigit _ c hc).2
  have hone : ∀ n, (decimal n).splitOnP (fun c => c == ch '.') = [decimal n] :=
    fun n => List.splitOnP_eq_singleton fun c hc => (hdigit n c hc).1
  have hparts : a.text.splitOnP (fun c => c == ch '.') =
      [decimal a.b0.toNat, decimal a.b1.toNat, decimal a.b2.toNat, decimal a.b3.toNat] := by
    unfold InAddr.text
    rw [List.splitOnP_append_cons _ _ (by simp), List.splitOnP_append_cons _ _ (by simp),
      List.splitOnP_append_cons _ _ (by simp), hone, hone, hone, hone]
    rfl
  have htext : a.text.takeWhile (fun c => !isSpace c) = a.text :=
    List.takeWhile_eq_self_iff.mpr hspace
  have h0 := a.b0.toNat_lt
  have h1 := a.b1.toNat_lt
  have h2 := a.b2.toNat_lt
  have h3 := a.b3.toNat_lt
  unfold inetAddr
  show ((((a.text.takeWhile fun c => !isSpace c).splitOnP fun c => c == ch '.').mapM
    addrPart).bind addrOfParts).getD inaddrNone = a
  rw [htext, hparts]
  simp only [List.mapM_cons, List.mapM_nil, addrPart_decimal, Option.pure_def, Option.bind_eq_bind,
    Option.bind_some, addrOfParts]
  rw [if_pos ⟨h0, h1, h2, h3⟩]
  simp only [UInt8.ofNat_toNat, Option.getD_some]

/-! ## The bytes of a packet -/

/-- Bytes of a frame from an offset on. -/
def slice (frame : List UInt8) (off len : ℕ) : List UInt8 := (frame.drop off).take len

/-- INTERNAL: a word of a frame in network order, by its two bytes. -/
theorem ntohsAt_of_slice {frame : List UInt8} {off : ℕ} {c : BitVec 16}
    (h : slice frame off 2 = bytes16 c) :
    ntohsAt frame off = (UInt8.ofBitVec (c.setWidth 8)).toNat * 2 ^ 8 +
      (UInt8.ofBitVec ((c >>> 8).setWidth 8)).toNat := by
  have hbyte : ∀ i < 2, frame.getD (off + i) 0 = (bytes16 c).getD i 0 := by
    intro i hi
    rw [← h]
    simp [slice, List.getD_eq_getElem?_getD, List.getElem?_drop, hi]
  have hlo := hbyte 0 (by omega)
  have hhi := hbyte 1 (by omega)
  unfold ntohsAt byteAt
  rw [hhi, show frame.getD off 0 = _ from hlo]
  rfl

/-- The text of every packet. -/
def helloWorld : CString := cstr "HelloWorld"

section Layout

variable (eh : EtherHeader) (iph : Iphdr) (udph : Udphdr)

theorem slice_iphdr : slice (sendbuf eh iph udph helloWorld) 14 20 = iph.bytes := rfl

theorem slice_udp :
    slice (sendbuf eh iph udph helloWorld) 34 18 = udph.bytes ++ helloWorld.toList := rfl

theorem slice_addrs :
    slice (sendbuf eh iph udph helloWorld) 26 8 = addrBytes iph.saddr ++ addrBytes iph.daddr := rfl

theorem getD_protocol : (sendbuf eh iph udph helloWorld).getD 23 0 = iph.protocol := rfl

theorem slice_len : slice (sendbuf eh iph udph helloWorld) 38 2 = bytes16 udph.len := rfl

theorem slice_totLen : slice (sendbuf eh iph udph helloWorld) 16 2 = bytes16 iph.totLen := rfl

theorem slice_check : slice (sendbuf eh iph udph helloWorld) 40 2 = bytes16 udph.check := rfl

theorem daddr_sendbuf : daddr (sendbuf eh iph udph helloWorld) = iph.daddr := rfl

theorem dhost_sendbuf (k : Fin 6) :
    (sendbuf eh iph udph helloWorld).getD k 0 = eh.etherDhost k := by
  have hslice : slice (sendbuf eh iph udph helloWorld) 0 6 = List.ofFn eh.etherDhost := rfl
  have hbyte : (sendbuf eh iph udph helloWorld).getD k 0 = (List.ofFn eh.etherDhost).getD k 0 := by
    rw [← hslice]
    simp [slice, List.getD_eq_getElem?_getD, k.isLt]
  rw [hbyte, List.getD_eq_getElem?_getD, List.getElem?_ofFn, dif_pos k.isLt]
  rfl

end Layout

/-- INTERNAL: a checksum field adds its value to the sum of an IP header. -/
theorem wordTotal_iphdr (iph : Iphdr) (c : BitVec 16) :
    wordTotal { iph with check := c }.bytes =
      wordTotal { iph with check := 0 }.bytes + c.toNat := by
  obtain ⟨front, hlen, hsplit⟩ : ∃ front : List UInt8, front.length = 2 * 5 ∧
      ∀ c, { iph with check := c }.bytes =
        front ++ (bytes16 c ++ (addrBytes iph.saddr ++ addrBytes iph.daddr)) := by
    refine ⟨[UInt8.ofBitVec (iph.version ++ iph.ihl), iph.tos] ++ bytes16 iph.totLen ++
      bytes16 iph.id ++ bytes16 iph.fragOff ++ [iph.ttl, iph.protocol], rfl, ?_⟩
    intro c
    simp only [Iphdr.bytes, List.append_assoc]
  have hnone : (0 : BitVec 16).toNat = 0 := rfl
  rw [hsplit, hsplit, wordTotal_append 5 hlen, wordTotal_append 5 hlen, wordTotal_bytes16,
    wordTotal_bytes16, hnone]
  omega

/-- The bytes that the checksum of a packet is of: the addresses, the protocol and the length
in front of the UDP header and the text. -/
def pseudogram (src dst : InAddr) (check : BitVec 16) : List UInt8 :=
  addrBytes src ++ (addrBytes dst ++ ([0, 17] ++ (bytes16 (htons 18) ++
    (bytes16 (htons 3423) ++ (bytes16 (htons 12000) ++ (bytes16 (htons 18) ++
      (bytes16 check ++ helloWorld.toList)))))))

/-- INTERNAL: the sum of a pseudogram is that of the addresses, of a constant and of the
checksum. -/
theorem wordTotal_pseudogram (src dst : InAddr) (check : BitVec 16) :
    wordTotal (pseudogram src dst check) =
      wordTotal (addrBytes src) + wordTotal (addrBytes dst) + 226361 + check.toNat := by
  have htext : wordTotal helloWorld.toList = 131070 := by decide
  unfold pseudogram
  rw [wordTotal_append 2 rfl, wordTotal_append 2 rfl, wordTotal_append 1 rfl, wordTotal_bytes16,
    wordTotal_bytes16, wordTotal_bytes16, wordTotal_bytes16, wordTotal_bytes16, htext]
  show _ + (_ + (4352 + (4608 + (24333 + (57390 + (4608 + _)))))) = _
  omega

/-- The Ethernet header of a packet. -/
def packetEther (ifMac : Fin 6 → UInt8) (dst : InAddr) (arpList : List ArpEntry) : EtherHeader where
  etherShost := ifMac
  etherDhost := match getArpEntry (inetNtoa dst) arpList with
    | none => myDestMac
    | some entry => fun k => toU8 (entry.mac k)
  etherType := htons 0x0800

/-- The IP header of a packet but for its checksum. -/
def packetIphdr (src dst : InAddr) : Iphdr where
  ihl := 5
  version := 4
  tos := 0
  totLen := htons 38
  id := htons 54321
  fragOff := 0
  ttl := 64
  protocol := 17
  check := 0
  saddr := src
  daddr := dst

/-- INTERNAL: **what `construct_packet` returns**.
SOURCE: test/udp_client_n.c:240-351 -/
theorem constructPacket_eq (ifMac : Fin 6 → UInt8) (src dst : InAddr) (arpList : List ArpEntry) :
    ∃ ipCheck check : BitVec 16,
      constructPacket ifMac src (inetNtoa dst) arpList =
        .ok (sendbuf (packetEther ifMac dst arpList)
          { packetIphdr src dst with check := ipCheck }
          ⟨htons 3423, htons 12000, htons 18, check⟩ helloWorld, 52) ∧
      ipCheck.toNat = 65535 - reduce16 (wordTotal (packetIphdr src dst).bytes) ∧
      check.toNat = 65535 - reduce16 (wordTotal (pseudogram src dst 0)) := by
  have hipLen : (packetIphdr src dst).bytes.length ≤ 131072 := Nat.le_of_ble_eq_true rfl
  have hudpLen : (pseudogram src dst 0).length ≤ 131072 := Nat.le_of_ble_eq_true rfl
  obtain ⟨ipCheck, hip, hipValue⟩ := toNat_udpCsum hipLen
  obtain ⟨check, hudp, hvalue⟩ := toNat_udpCsum hudpLen
  refine ⟨ipCheck, check, ?_, hipValue, hvalue⟩
  unfold constructPacket
  rw [inetAddr_inetNtoa, inetAddr_inetNtoa]
  change (udpCsum (packetIphdr src dst).bytes (packetIphdr src dst).bytes.length >>= _) = _
  rw [hip, ok_bind]
  change (udpCsum (pseudogram src dst 0) (pseudogram src dst 0).length >>= _) = _
  rw [hudp, ok_bind]
  rfl

/-! ## The rules of a datagram -/

/-- The pseudo-header of a frame: the addresses, the protocol and the UDP length. -/
def pseudoHeader (frame : List UInt8) : List UInt8 :=
  slice frame 26 8 ++ [0, frame.getD 23 0] ++ slice frame 38 2

/-- The frame is a valid datagram to `dst`, by the rules it encodes. -/
structure ValidDatagram (frame : List UInt8) (txLen : ℕ) (dst : InAddr) (arpList : List ArpEntry) :
    Prop where
  ipLength : ntohsAt frame 16 + 14 = txLen
  udpLength : ntohsAt frame 38 + 34 = txLen
  ipSum : onesSum (words16 (slice frame 14 20)) = 0xFFFF
  udpSum : onesSum (words16 (pseudoHeader frame ++ slice frame 34 (txLen - 34))) = 0xFFFF
  udpChecked : ntohsAt frame 40 ≠ 0
  destMac : ∀ front entry back, arpList = front ++ entry :: back →
    (∀ e ∈ front, e.ipAddress ≠ inetNtoa dst) → entry.ipAddress = inetNtoa dst →
    ∀ k : Fin 6, ((frame.getD k 0).toNat : ℤ) = entry.mac k % 2 ^ 8
  destAddr : inetNtoa (daddr frame) = inetNtoa dst

/-- INTERNAL: what a receiver sums up is the pseudogram, with the checksum in it. -/
theorem pseudoHeader_sendbuf (eh : EtherHeader) (src dst : InAddr) (ipCheck check : BitVec 16) :
    pseudoHeader (sendbuf eh { packetIphdr src dst with check := ipCheck }
        ⟨htons 3423, htons 12000, htons 18, check⟩ helloWorld) ++
      slice (sendbuf eh { packetIphdr src dst with check := ipCheck }
        ⟨htons 3423, htons 12000, htons 18, check⟩ helloWorld) 34 18 =
      pseudogram src dst check := by
  unfold pseudoHeader
  rw [slice_addrs, getD_protocol, slice_len, slice_udp]
  simp only [pseudogram, packetIphdr, Udphdr.bytes, List.append_assoc]

theorem toNat_toU8 (x : ℤ) : ((toU8 x).toNat : ℤ) = x % 2 ^ 8 := by
  unfold toU8
  rw [UInt8.toNat_ofNat']
  omega

/-- INTERNAL: two bytes are zero exactly when the word is. -/
theorem check_eq_zero_iff {frame : List UInt8} {c : BitVec 16}
    (h : slice frame 40 2 = bytes16 c) : ntohsAt frame 40 = 0 ↔ c.toNat = 0 := by
  have hword := wordTotal_bytes16 c []
  have hbytes : (UInt8.ofBitVec (c.setWidth 8)).toNat +
      256 * (UInt8.ofBitVec ((c >>> 8).setWidth 8)).toNat + 0 = c.toNat + 0 := hword
  rw [ntohsAt_of_slice h]
  omega

/-- **When `construct_packet` builds a valid datagram**: exactly when the words of the two
addresses and of the rest of the pseudogram do not sum to a multiple of `0xFFFF`.
SOURCE: test/udp_client_n.c:240-351, utils.c:394-408 -/
theorem packet_valid_iff (ifMac : Fin 6 → UInt8) (ifIp dst : InAddr) (arpList : List ArpEntry) :
    (∃ frame txLen, constructPacket ifMac ifIp (inetNtoa dst) arpList = .ok (frame, txLen) ∧
      ValidDatagram frame txLen dst arpList) ↔
    (ifIp.b0.toNat + 256 * ifIp.b1.toNat + ifIp.b2.toNat + 256 * ifIp.b3.toNat +
      (dst.b0.toNat + 256 * dst.b1.toNat + dst.b2.toNat + 256 * dst.b3.toNat) + 226361) % 0xFFFF ≠
      0 := by
  obtain ⟨ipCheck, check, hpacket, hip, hcheck⟩ := constructPacket_eq ifMac ifIp dst arpList
  have haddr : ∀ a : InAddr, wordTotal (addrBytes a) =
      a.b0.toNat + 256 * a.b1.toNat + a.b2.toNat + 256 * a.b3.toNat := by
    intro a
    show a.b0.toNat + 256 * a.b1.toNat + (a.b2.toNat + 256 * a.b3.toNat + 0) = _
    omega
  have htotal := wordTotal_pseudogram ifIp dst 0
  have hnone : (0 : BitVec 16).toNat = 0 := rfl
  rw [haddr, haddr, hnone, Nat.add_zero] at htotal
  rw [← htotal]
  have hzero : check.toNat = 0 ↔ wordTotal (pseudogram ifIp dst 0) % 65535 = 0 := by
    have hle := reduce16_le (wordTotal (pseudogram ifIp dst 0))
    have hones := reduce16_eq_ones_iff (wordTotal (pseudogram ifIp dst 0))
    constructor
    · intro h
      exact (hones.mp (by omega)).2
    · intro h
      rw [hcheck, hones.mpr ⟨by omega, h⟩]
  have hfield := check_eq_zero_iff (slice_check (packetEther ifMac dst arpList)
    { packetIphdr ifIp dst with check := ipCheck } ⟨htons 3423, htons 12000, htons 18, check⟩)
  constructor
  · rintro ⟨frame, txLen, hframe, hvalid⟩ hmod
    rw [hpacket] at hframe
    cases hframe
    exact hvalid.udpChecked (hfield.mpr (hzero.mpr hmod))
  · intro hmod
    refine ⟨_, _, hpacket, ?_⟩
    have hipTotal := wordTotal_iphdr (packetIphdr ifIp dst) ipCheck
    rw [hip] at hipTotal
    have hudpTotal := wordTotal_pseudogram ifIp dst check
    rw [haddr, haddr, ← htotal, hcheck] at hudpTotal
    constructor
    · rw [ntohsAt_of_slice (c := htons 38) (slice_totLen _ _ _)]
      decide
    · rw [ntohsAt_of_slice (c := htons 18) (slice_len _ _ _)]
      decide
    · rw [slice_iphdr]
      exact (ones_of_total (Nat.le_of_ble_eq_true rfl) hipTotal).1
    · rw [pseudoHeader_sendbuf]
      exact (ones_of_total (Nat.le_of_ble_eq_true rfl) hudpTotal).1
    · exact fun h => hmod (hzero.mp (hfield.mp h))
    · rintro front entry back rfl hfront hentry k
      rw [dhost_sendbuf]
      unfold packetEther
      simp only [getArpEntry_first hfront hentry, toNat_toU8]
    · rw [daddr_sendbuf]
      rfl

/-- From `10.0.0.1` to `10.0.175.138` the UDP checksum is zero, and the frame goes out as if it
had none. -/
theorem zero_checksum_sent :
    ¬∃ frame txLen, constructPacket (fun _ => 2) ⟨10, 0, 0, 1⟩ (inetNtoa ⟨10, 0, 175, 138⟩) [] =
      .ok (frame, txLen) ∧ ValidDatagram frame txLen ⟨10, 0, 175, 138⟩ [] := by
  rintro ⟨frame, txLen, hframe, hvalid⟩
  have hsent : (constructPacket (fun _ => 2) ⟨10, 0, 0, 1⟩ (inetNtoa ⟨10, 0, 175, 138⟩) []).map
      (fun packet => ntohsAt packet.1 40) = .ok 0 := by decide +kernel
  rw [hframe] at hsent
  exact hvalid.udpChecked (Except.ok.inj hsent)

end VtRouter.Analysis
