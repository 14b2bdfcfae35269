import VtRouter.Library.HexText
import VtRouter.Library.MachineInt
import VtRouter.Model.Routing

/-!
# The packet printers and the packet counters

`pkt_info.c` exists twice, beside the router and beside the test programs.  `printData` is the
hex dump; the three printers `printTcpPacket`, `printUdpPacket` and `printIcmpPacket` are the
list of what they print, where a field carries the offset of the header it is read from and a
dump the range it is given.  The two versions of `ProcessPacket` count a packet and print it.

Frames are lists of bytes, and a byte behind the end of a frame reads as zero.
-/

set_option autoImplicit false

namespace VtRouter.Model

open Library

/-! ## The hex dump -/

/-- `fprintf` of so many spaces. -/
def spaces (n : ℕ) : List UInt8 := List.replicate n (ch ' ')

/-- The value `%02X` is given for a byte: a signed `char`, converted to `unsigned int`.
SOURCE: pkt_info.c:247 -/
def hexArg (c : UInt8) : ℕ := (c.toBitVec.signExtend 32).toNat

/-- What stands for a byte in the character column; `char` is signed.
SOURCE: pkt_info.c:238-241, 260-267 -/
def shownChar (c : UInt8) : UInt8 :=
  if 32 ≤ c.toBitVec.toInt ∧ c.toBitVec.toInt ≤ 128 then c else ch '.'

/-- The loops over the characters from `lo` to `hi`. -/
def shownChars (data : List UInt8) (lo hi : ℕ) : List UInt8 :=
  (List.range' lo (hi - lo)).map fun j => shownChar (data.getD j 0)

/-- One iteration of the loop over the bytes.
SOURCE: pkt_info.c:233-271 -/
def printDataStep (data : List UInt8) (size : ℤ) (i : ℕ) : List UInt8 :=
  (if i ≠ 0 ∧ i % 16 = 0 then spaces 9 ++ shownChars data (i - 16) i ++ [ch '\n'] else []) ++
  (if i % 16 = 0 then spaces 3 else []) ++
  (ch ' ' :: hexText true (hexArg (data.getD i 0))) ++
  (if (i : ℤ) = size - 1 then
    (List.range (15 - i % 16)).flatMap (fun _ => spaces 3) ++ spaces 9 ++
      shownChars data (i - i % 16) (i + 1) ++ [ch '\n']
  else [])

/-- SOURCE: pkt_info.c:228-273 -/
def printData (data : List UInt8) (size : ℤ) : List UInt8 :=
  (List.range size.toNat).flatMap (printDataStep data size)

/-! ## The headers of a frame -/

/-- `sizeof(struct ethhdr)`. -/
def sizeofEthhdr : ℕ := 14

/-- `sizeof udph` and `sizeof icmph` are the size of a pointer, on a 64-bit target. -/
def sizeofPtr : ℕ := 8

/-- A byte of a frame as a number. -/
def byteAt (buffer : Frame) (i : ℕ) : ℕ := (buffer.getD i 0).toNat

/-- `ntohs` of a field of two bytes. -/
def ntohsAt (buffer : Frame) (i : ℕ) : ℕ := byteAt buffer i * 2 ^ 8 + byteAt buffer (i + 1)

/-- `ntohl` of a field of four bytes. -/
def ntohlAt (buffer : Frame) (i : ℕ) : ℕ := ntohsAt buffer i * 2 ^ 16 + ntohsAt buffer (i + 2)

/-- A field of two bytes on a little-endian machine. -/
def le16At (buffer : Frame) (i : ℕ) : ℕ := byteAt buffer i + byteAt buffer (i + 1) * 2 ^ 8

/-- A bit of a byte, as a bit field. -/
def bitAt (buffer : Frame) (i k : ℕ) : ℕ := byteAt buffer i / 2 ^ k % 2

/-- An address in a frame. -/
def addrAt (buffer : Frame) (i : ℕ) : InAddr :=
  ⟨buffer.getD i 0, buffer.getD (i + 1) 0, buffer.getD (i + 2) 0, buffer.getD (i + 3) 0⟩

/-- `iph->ihl`, for an IP header at an offset. -/
def iphIhl (buffer : Frame) (iph : ℕ) : ℕ := byteAt buffer iph % 2 ^ 4

/-- `iph->protocol`. -/
def iphProtocol (buffer : Frame) (iph : ℕ) : ℕ := byteAt buffer (iph + 9)

/-- `tcph->doff`. -/
def tcphDoff (buffer : Frame) (tcph : ℕ) : ℕ := byteAt buffer (tcph + 12) / 2 ^ 4

/-- `iphdrlen`, an `unsigned short`.
SOURCE: pkt_info.c:91-95 -/
def iphdrlen (buffer : Frame) : ℕ := iphIhl buffer sizeofEthhdr * 4 % 2 ^ 16

/-! ## The printers -/

/-- One call of `fprintf` or `PrintData`: a text, the numbers of a field with the offset of the
header it is read from, an address, or the dump of `size` bytes from an offset on. -/
inductive LogItem
  | text (s : String)
  | field (hdr : ℕ) (fmt : String) (values : List ℕ)
  | addr (hdr : ℕ) (fmt : String) (a : InAddr)
  | data (offset : ℕ) (size : ℤ)
  deriving DecidableEq

/-- The format of the line on the protocol.
SOURCE: pkt_info.c:83 -/
def protocolFmt : String := "   |-Protocol : %d\n"

/-- SOURCE: pkt_info.c:54-87 -/
def printIpHeader (buffer : Frame) : List LogItem :=
  let iph := sizeofEthhdr
  [.text "\n",
    .text "IP Header\n",
    .field iph "   |-IP Version        : %d\n" [byteAt buffer iph / 2 ^ 4],
    .field iph "   |-IP Header Length  : %d DWORDS or %d Bytes\n"
      [iphIhl buffer iph, iphIhl buffer iph * 4],
    .field iph "   |-Type Of Service   : %d\n" [byteAt buffer (iph + 1)],
    .field iph "   |-IP Total Length   : %d  Bytes(Size of Packet)\n" [ntohsAt buffer (iph + 2)],
    .field iph "   |-Identification    : %d\n" [ntohsAt buffer (iph + 4)],
    .field iph "   |-TTL      : %d\n" [byteAt buffer (iph + 8)],
    .field iph protocolFmt [iphProtocol buffer iph],
    .field iph "   |-Checksum : %d\n" [ntohsAt buffer (iph + 10)],
    .addr iph "   |-Source IP        : %s\n" (addrAt buffer (iph + 12)),
    .addr iph "   |-Destination IP   : %s\n" (addrAt buffer (iph + 16))]

/-- SOURCE: pkt_info.c:89-137 -/
def printTcpPacket (buffer : Frame) (size : ℤ) : List LogItem :=
  let tcph := iphdrlen buffer + sizeofEthhdr
  let doff := tcphDoff buffer tcph
  let headerSize := sizeofEthhdr + iphdrlen buffer + doff * 4
  .text "\n\n***********************TCP Packet*************************\n" ::
  printIpHeader buffer ++
  ([.text "\n",
    .text "TCP Header\n",
    .field tcph "   |-Source Port      : %u\n" [ntohsAt buffer tcph],
    .field tcph "   |-Destination Port : %u\n" [ntohsAt buffer (tcph + 2)],
    .field tcph "   |-Sequence Number    : %u\n" [ntohlAt buffer (tcph + 4)],
    .field tcph "   |-Acknowledge Number : %u\n" [ntohlAt buffer (tcph + 8)],
    .field tcph "   |-Header Length      : %d DWORDS or %d BYTES\n" [doff, doff * 4],
    .field tcph "   |-Urgent Flag          : %d\n" [bitAt buffer (tcph + 13) 5],
    .field tcph "   |-Acknowledgement Flag : %d\n" [bitAt buffer (tcph + 13) 4],
    .field tcph "   |-Push Flag            : %d\n" [bitAt buffer (tcph + 13) 3],
    .field tcph "   |-Reset Flag           : %d\n" [bitAt buffer (tcph + 13) 2],
    .field tcph "   |-Synchronise Flag     : %d\n" [bitAt buffer (tcph + 13) 1],
    .field tcph "   |-Finish Flag          : %d\n" [bitAt buffer (tcph + 13) 0],
    .field tcph "   |-Window         : %d\n" [ntohsAt buffer (tcph + 14)],
    .field tcph "   |-Checksum       : %d\n" [ntohsAt buffer (tcph + 16)],
    .field tcph "   |-Urgent Pointer : %d\n" [le16At buffer (tcph + 18)],
    .text "\n",
    .text "                        DATA Dump                         ",
    .text "\n",
    .text "IP Header\n",
    .data 0 (iphdrlen buffer),
    .text "TCP Header\n",
    .data (iphdrlen buffer) (doff * 4 : ℕ),
    .text "Data Payload\n",
    .data headerSize (size - headerSize),
    .text "\n###########################################################"] : List LogItem)

/-- SOURCE: pkt_info.c:139-176 -/
def printUdpPacket (buffer : Frame) (size : ℤ) : List LogItem :=
  let udph := iphdrlen buffer + sizeofEthhdr
  let headerSize := sizeofEthhdr + iphdrlen buffer + sizeofPtr
  .text "\n\n***********************UDP Packet*************************\n" ::
  printIpHeader buffer ++
  ([.text "\nUDP Header\n",
    .field udph "   |-Source Port      : %d\n" [ntohsAt buffer udph],
    .field udph "   |-Destination Port : %d\n" [ntohsAt buffer (udph + 2)],
    .field udph "   |-UDP Length       : %d\n" [ntohsAt buffer (udph + 4)],
    .field udph "   |-UDP Checksum     : %d\n" [ntohsAt buffer (udph + 6)],
    .text "\n",
    .text "IP Header\n",
    .data 0 (iphdrlen buffer),
    .text "UDP Header\n",
    .data (iphdrlen buffer) sizeofPtr,
    .text "Data Payload\n",
    .data headerSize (size - headerSize),
    .text "\n###########################################################"] : List LogItem)

/-- `ICMP_ECHOREPLY`. -/
def icmpEchoreply : ℕ := 0

/-- SOURCE: pkt_info.c:178-226 -/
def printIcmpPacket (buffer : Frame) (size : ℤ) : List LogItem :=
  let icmph := iphdrlen buffer + sizeofEthhdr
  let headerSize := sizeofEthhdr + iphdrlen buffer + sizeofPtr
  .text "\n\n***********************ICMP Packet*************************\n" ::
  printIpHeader buffer ++
  ([.text "\n",
    .text "ICMP Header\n",
    .field icmph "   |-Type : %d" [byteAt buffer icmph]] : List LogItem) ++
  (if byteAt buffer icmph = 11 then [.text "  (TTL Expired)\n"]
  else if byteAt buffer icmph = icmpEchoreply then [.text "  (ICMP Echo Reply)\n"]
  else []) ++
  ([.field icmph "   |-Code : %d\n" [byteAt buffer (icmph + 1)],
    .field icmph "   |-Checksum : %d\n" [ntohsAt buffer (icmph + 2)],
    .text "\n",
    .text "IP Header\n",
    .data 0 (iphdrlen buffer),
    .text "UDP Header\n",
    .data (iphdrlen buffer) sizeofPtr,
    .text "Data Payload\n",
    .data headerSize (size - headerSize),
    .text "\n###########################################################"] : List LogItem)

/-! ## The counters -/

/-- The global counters, of type `int`.
SOURCE: pkt_info.c:6 -/
structure Counters where
  tcp : ℤ
  udp : ℤ
  icmp : ℤ
  others : ℤ
  igmp : ℤ
  total : ℤ
  deriving DecidableEq

/-- SOURCE: pkt_info.c:6 -/
def Counters.init : Counters := ⟨0, 0, 0, 0, 0, 0⟩

/-- The line with the counters.
SOURCE: pkt_info.c:39 -/
def countersLine (c : Counters) : LogItem :=
  .text ("TCP : " ++ toString c.tcp ++ "   UDP : " ++ toString c.udp ++ "   ICMP : " ++
    toString c.icmp ++ "   IGMP : " ++ toString c.igmp ++ "   Others : " ++ toString c.others ++
    "   Total : " ++ toString c.total ++ "\r")

/-- The switch on the protocol that the two versions share.
SOURCE: pkt_info.c:13-38 -/
def countProtocol (protocol : ℕ) (c : Counters) : Counters :=
  let c := { c with total := wrap32 (c.total + 1) }
  match protocol with
  | 1 => { c with icmp := wrap32 (c.icmp + 1) }
  | 2 => { c with igmp := wrap32 (c.igmp + 1) }
  | 6 => { c with tcp := wrap32 (c.tcp + 1) }
  | 17 => { c with udp := wrap32 (c.udp + 1) }
  | _ => { c with others := wrap32 (c.others + 1) }

/-- `ProcessPacket` of the router, which takes the IP header to be at the start of the buffer.
SOURCE: pkt_info.c:8-40 -/
def processPacket (c : Counters) (buffer : Frame) (size : ℤ) : Counters × List LogItem :=
  let protocol := iphProtocol buffer 0
  let c := countProtocol protocol c
  let printed := match protocol with
    | 1 => printIcmpPacket buffer size
    | 6 => printTcpPacket buffer size
    | 17 => printUdpPacket buffer size
    | _ => []
  (c, printed ++ [countersLine c])

/-- `ProcessPacket` of the test programs, which prints UDP packets only, and of those only the
IP header.
SOURCE: test/pkt_info.c:8-42 -/
def processPacketTest (c : Counters) (buffer : Frame) (_size : ℤ) : Counters × List LogItem :=
  let protocol := iphProtocol buffer sizeofEthhdr
  let c := countProtocol protocol c
  let printed := match protocol with
    | 17 => printIpHeader buffer ++ [countersLine c]
    | _ => []
  (c, printed)

end VtRouter.Model
