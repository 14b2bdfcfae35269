import Mathlib.Data.Fin.VecNotation
import VtRouter.Library.HexText
import VtRouter.Library.MachineInt
import VtRouter.Model.Routing

/-!
# The UDP test client

`udp_client_n.c` reads an ARP table from a file (`populateArpList`), builds a UDP packet for a
destination (`constructPacket`) and checksums it (`udpCsum`, `csum`).

The accumulators of the checksums are 64-bit vectors, `long` with an arithmetic shift and
`unsigned long` with a logical one.  Reads through pointers are checked.  A packet is the three
headers and the text behind them, which is how the source reaches into its buffer; their bytes
are laid out as on the little-endian target.
-/

set_option autoImplicit false

namespace VtRouter.Model.UdpClient

open Library

/-! ## The checksums -/

/-- A 16-bit word through a pointer. -/
def load16 : List UInt8 → Except Fault (BitVec 16)
  | a :: b :: _ => .ok (b.toBitVec ++ a.toBitVec)
  | _ => .error .outOfBounds

/-- The two bytes of a 16-bit word in memory. -/
def bytes16 (c : BitVec 16) : List UInt8 :=
  [UInt8.ofBitVec (c.setWidth 8), UInt8.ofBitVec ((c >>> 8).setWidth 8)]

/-- The loop over the words, and the odd byte.
SOURCE: test/udp_client_n.c:53-62 -/
def udpCsumLoop : List UInt8 → ℕ → BitVec 64 → Except Fault (BitVec 64)
  | ptr, n + 2, sum => do udpCsumLoop (ptr.drop 2) n (sum + (← load16 ptr).setWidth 64)
  | ptr, 1, sum => do return sum + (← deref ptr).toBitVec.setWidth 64
  | _, 0, sum => return sum

/-- SOURCE: test/udp_client_n.c:47-69 -/
def udpCsum (ptr : List UInt8) (nbytes : ℕ) : Except Fault (BitVec 16) := do
  let sum ← udpCsumLoop ptr nbytes 0
  let sum := sum.sshiftRight 16 + (sum &&& 0xffff)
  let sum := sum + sum.sshiftRight 16
  return (~~~sum).setWidth 16

/-- SOURCE: test/udp_client_n.c:232-234 -/
def csumLoop : List UInt8 → ℕ → BitVec 64 → Except Fault (BitVec 64)
  | buf, nwords + 1, sum => do csumLoop (buf.drop 2) nwords (sum + (← load16 buf).setWidth 64)
  | _, 0, sum => return sum

/-- SOURCE: test/udp_client_n.c:230-238 -/
def csum (buf : List UInt8) (nwords : ℕ) : Except Fault (BitVec 16) := do
  let sum ← csumLoop buf nwords 0
  let sum := (sum >>> 16) + (sum &&& 0xffff)
  let sum := sum + (sum >>> 16)
  return (~~~sum).setWidth 16

/-! ## The ARP table -/

/-- SOURCE: test/udp_client_n.c:20-21 -/
def bufSize : ℕ := 2000

/-- SOURCE: test/udp_client_n.c:22 -/
def ipAddrSize : ℕ := 100

/-- `int mac[6]`. -/
abbrev MacInts := Fin 6 → ℤ

/-- SOURCE: test/udp_client_n.c:98-102 -/
structure ArpEntry where
  ipAddress : CString
  mac : MacInts
  ipFits : ipAddress.toList.length < ipAddrSize

/-- A store to an element of `mac`. -/
def storeMac (mac : MacInts) (j : ℕ) (x : ℤ) : Except Fault MacInts :=
  if h : j < 6 then .ok (Function.update mac ⟨j, h⟩ x) else .error .outOfBounds

/-- `(int) strtol(tmp + k, NULL, 16)`. -/
def octetAt (tmp : List UInt8) (k : ℤ) : Except Fault ℤ := do
  return wrap32 (← strtol16 (← ptrAdd tmp k))

/-- The loop that cuts the address at its colons, from index `i` on with the octet `j` to come.
SOURCE: test/udp_client_n.c:191-206 -/
def macLoop : ℕ → ℕ → ℕ → List UInt8 → MacInts → Except Fault (List UInt8 × MacInts)
  | 0, _, _, _, _ => .error .outOfFuel
  | fuel + 1, i, j, tmp, mac => do
      let c ← deref (tmp.drop i)
      if c = 0 then return (tmp, mac)
      else if c = ch ':' then
        let tmp := tmp.set i 0
        let mac ← storeMac mac j (← octetAt tmp ((i : ℤ) - 2))
        let j := j + 1
        if j = 5 then
          let mac ← storeMac mac j (← octetAt tmp (i + 1))
          return (tmp, mac)
        else macLoop fuel (i + 1) j tmp mac
      else macLoop fuel (i + 1) j tmp mac

/-- The loop body for one line; `line` is the whole buffer of `getline`, and `junk` what the
fresh entry holds in `mac`.
SOURCE: test/udp_client_n.c:165-211 -/
def parseArpLine (line : List UInt8) (junk : MacInts) : Except Fault (Option ArpEntry) := do
  let len := line.length
  if 1 < len then
    let tmp ← strncpy (List.replicate bufSize 0) line len
    let (tmp, ifIdx) ← splitLoop len 0 tmp 0
    let (tmp, mac) ← macLoop (bufSize + 1) ifIdx 0 tmp junk
    let ipAddress ← strcpy ipAddrSize tmp
    return some ⟨ipAddress.1, mac, ipAddress.2⟩
  else return none

/-- The loop over the lines, from the `k`-th on, with the list built so far.
SOURCE: test/udp_client_n.c:163-212 -/
def populateArpLoop (tails : ℕ → List UInt8) (junk : ℕ → MacInts) :
    List (List UInt8) → ℕ → List ArpEntry → Except Fault (List ArpEntry)
  | [], _, arpList => .ok arpList
  | line :: lines, k, arpList => do
      let entry ← parseArpLine (line ++ 0 :: tails k) (junk k)
      populateArpLoop tails junk lines (k + 1) (arpList ++ entry.toList)

/-- The ARP list after `populate_arp_list` on a file; `tails` are the bytes behind each line in
the line buffer.
SOURCE: test/udp_client_n.c:145-221 -/
def populateArpList (tails : ℕ → List UInt8) (junk : ℕ → MacInts) (file : List UInt8) :
    Except Fault (List ArpEntry) :=
  populateArpLoop tails junk (getlines file) 0 []

/-- SOURCE: test/udp_client_n.c:114-129 -/
def getArpEntry (ipAddr : CString) (arpList : List ArpEntry) : Option ArpEntry :=
  arpList.find? fun entry => decide (entry.ipAddress = ipAddr)

/-- INTERNAL: the first entry for an address is the one that is found. -/
theorem getArpEntry_first {front back : List ArpEntry} {entry : ArpEntry} {ip : CString}
    (hfront : ∀ e ∈ front, e.ipAddress ≠ ip) (hentry : entry.ipAddress = ip) :
    getArpEntry ip (front ++ entry :: back) = some entry := by
  have hnone : front.find? (fun e => decide (e.ipAddress = ip)) = none :=
    List.find?_eq_none.mpr fun e he => by simpa using hfront e he
  unfold getArpEntry
  rw [List.find?_append, hnone, Option.none_or, List.find?_cons_of_pos (by simpa using hentry)]

/-- INTERNAL: nothing is found for an address without an entry. -/
theorem getArpEntry_none {arpList : List ArpEntry} {ip : CString}
    (hnone : ∀ e ∈ arpList, e.ipAddress ≠ ip) : getArpEntry ip arpList = none :=
  List.find?_eq_none.mpr fun e he => by simpa using hnone e he

/-! ## Addresses in text -/

/-- A numeral in a base, if all bytes are digits of it. -/
def numeralIn (base : ℕ) : List UInt8 → ℕ → Option ℕ
  | [], n => some n
  | c :: s, n =>
      match hexVal c with
      | some d => if d < base then numeralIn base s (base * n + d) else none
      | none => none

/-- A part of an address: hexadecimal behind `0x`, octal behind `0`, else decimal. -/
def addrPart : List UInt8 → Option ℕ
  | [] => none
  | [c] => numeralIn 10 [c] 0
  | c :: d :: s =>
      if c = ch '0' then
        if d = ch 'x' ∨ d = ch 'X' then if s = [] then none else numeralIn 16 s 0
        else numeralIn 8 (d :: s) 0
      else numeralIn 10 (c :: d :: s) 0

/-- The address of one to four parts, the last of which fills the bytes that are left. -/
def addrOfParts : List ℕ → Option InAddr
  | [a] =>
      if a < 2 ^ 32 then
        some ⟨.ofNat (a / 2 ^ 24), .ofNat (a / 2 ^ 16), .ofNat (a / 2 ^ 8), .ofNat a⟩
      else none
  | [a, b] =>
      if a < 2 ^ 8 ∧ b < 2 ^ 24 then
        some ⟨.ofNat a, .ofNat (b / 2 ^ 16), .ofNat (b / 2 ^ 8), .ofNat b⟩
      else none
  | [a, b, c] =>
      if a < 2 ^ 8 ∧ b < 2 ^ 8 ∧ c < 2 ^ 16 then
        some ⟨.ofNat a, .ofNat b, .ofNat (c / 2 ^ 8), .ofNat c⟩
      else none
  | [a, b, c, d] =>
      if a < 2 ^ 8 ∧ b < 2 ^ 8 ∧ c < 2 ^ 8 ∧ d < 2 ^ 8 then
        some ⟨.ofNat a, .ofNat b, .ofNat c, .ofNat d⟩
      else none
  | _ => none

/-- `INADDR_NONE`. -/
def inaddrNone : InAddr := ⟨255, 255, 255, 255⟩

/-- `inet_addr`; what follows white space is not looked at. -/
def inetAddr (cp : CString) : InAddr :=
  let text := cp.toList.takeWhile fun c => !isSpace c
  let parts := (text.splitOnP fun c => c == ch '.').mapM addrPart
  (parts.bind addrOfParts).getD inaddrNone

/-! ## The packet -/

/-- `htons`. -/
def htons (x : ℕ) : BitVec 16 := BitVec.ofNat 16 (x % 2 ^ 8 * 2 ^ 8 + x / 2 ^ 8 % 2 ^ 8)

/-- An `int` stored to a byte. -/
def toU8 (x : ℤ) : UInt8 := UInt8.ofNat (x % 2 ^ 8).toNat

/-- The bytes of an address in memory. -/
def addrBytes (a : InAddr) : List UInt8 := [a.b0, a.b1, a.b2, a.b3]

/-- `struct ether_header`. -/
structure EtherHeader where
  etherDhost : Fin 6 → UInt8
  etherShost : Fin 6 → UInt8
  etherType : BitVec 16

/-- `struct iphdr`. -/
structure Iphdr where
  ihl : BitVec 4
  version : BitVec 4
  tos : UInt8
  totLen : BitVec 16
  id : BitVec 16
  fragOff : BitVec 16
  ttl : UInt8
  protocol : UInt8
  check : BitVec 16
  saddr : InAddr
  daddr : InAddr

/-- `struct udphdr`. -/
structure Udphdr where
  source : BitVec 16
  dest : BitVec 16
  len : BitVec 16
  check : BitVec 16

/-- SOURCE: test/udp_client_n.c:37-44 -/
structure PseudoHeader where
  sourceAddress : InAddr
  destAddress : InAddr
  placeholder : UInt8
  protocol : UInt8
  udpLength : BitVec 16

def EtherHeader.bytes (eh : EtherHeader) : List UInt8 :=
  List.ofFn eh.etherDhost ++ List.ofFn eh.etherShost ++ bytes16 eh.etherType

def Iphdr.bytes (iph : Iphdr) : List UInt8 :=
  [UInt8.ofBitVec (iph.version ++ iph.ihl), iph.tos] ++ bytes16 iph.totLen ++ bytes16 iph.id ++
    bytes16 iph.fragOff ++ [iph.ttl, iph.protocol] ++ bytes16 iph.check ++ addrBytes iph.saddr ++
    addrBytes iph.daddr

def Udphdr.bytes (udph : Udphdr) : List UInt8 :=
  bytes16 udph.source ++ bytes16 udph.dest ++ bytes16 udph.len ++ bytes16 udph.check

def PseudoHeader.bytes (psh : PseudoHeader) : List UInt8 :=
  addrBytes psh.sourceAddress ++ addrBytes psh.destAddress ++ [psh.placeholder, psh.protocol] ++
    bytes16 psh.udpLength

/-- The buffer: the headers, the text at `data`, and zeros up to `BUF_SIZE`. -/
def sendbuf (eh : EtherHeader) (iph : Iphdr) (udph : Udphdr) (data : CString) : List UInt8 :=
  let front := eh.bytes ++ iph.bytes ++ udph.bytes ++ data.toList
  front ++ List.replicate (bufSize - front.length) 0

/-- `sizeof(struct ether_header)`. -/
def sizeofEtherHeader : ℕ := 14

/-- `sizeof(struct iphdr)`. -/
def sizeofIphdr : ℕ := 20

/-- `sizeof(struct udphdr)`. -/
def sizeofUdphdr : ℕ := 8

/-- `sizeof(struct pseudo_header)`. -/
def sizeofPseudoHeader : ℕ := 12

/-- The destination address for a host that is not in the table.
SOURCE: test/udp_client_n.c:24-29 -/
def myDestMac : Fin 6 → UInt8 := ![0x00, 0x11, 0x22, 0x33, 0x44, 0x55]

/-- The buffer and the length of the packet.  `ifMac` is the hardware address of the interface
and `ifIp` its address.
SOURCE: test/udp_client_n.c:240-351 -/
def constructPacket (ifMac : Fin 6 → UInt8) (ifIp : InAddr) (dstIP : CString)
    (arpList : List ArpEntry) : Except Fault (List UInt8 × ℕ) := do
  let data := cstr "HelloWorld"
  let eh : EtherHeader := {
    etherShost := ifMac
    etherDhost := match getArpEntry dstIP arpList with
      | none => myDestMac
      | some entry => fun k => toU8 (entry.mac k)
    etherType := htons 0x0800 }
  let txLen := sizeofEtherHeader
  let iph : Iphdr := {
    ihl := 5, version := 4, tos := 0, totLen := 0, id := htons 54321, fragOff := 0, ttl := 64
    protocol := 17, check := 0, saddr := inetAddr (inetNtoa ifIp), daddr := inetAddr dstIP }
  let txLen := txLen + sizeofIphdr
  let udph : Udphdr := { source := htons 3423, dest := htons 12000, len := 0, check := 0 }
  let txLen := txLen + sizeofUdphdr
  let txLen := txLen + data.toList.length
  let udph := { udph with len := htons (txLen - sizeofEtherHeader - sizeofIphdr) }
  let iph := { iph with totLen := htons (txLen - sizeofEtherHeader) }
  let iph := { iph with check := ← udpCsum iph.bytes sizeofIphdr }
  let psh : PseudoHeader := {
    sourceAddress := inetAddr (inetNtoa ifIp), destAddress := inetAddr dstIP, placeholder := 0
    protocol := 17, udpLength := htons (sizeofUdphdr + data.toList.length) }
  let psize := sizeofPseudoHeader + sizeofUdphdr + data.toList.length
  let pseudogram := psh.bytes ++ (udph.bytes ++ data.toList)
  let udph := { udph with check := ← udpCsum pseudogram psize }
  return (sendbuf eh iph udph data, txLen)

end VtRouter.Model.UdpClient
