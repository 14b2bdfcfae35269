import Mathlib.Data.List.Induction
import VtRouter.Model.PktInfo

/-!
# What the packet printers dump, and what the packet counters count

The printers read the IP header behind the Ethernet header, and the transport header behind
that, but they hand `PrintData` the ranges counted from the start of the buffer: both header
dumps begin fourteen bytes too early (`dumps_misplaced`, `headerDumps_shifted`).  The same slip
stands in one of the two versions of `ProcessPacket`, which takes the protocol from inside the
source address of the Ethernet header; `decoders_agree_iff` says when the versions agree.
-/

set_option autoImplicit false

namespace VtRouter.Analysis

open Library VtRouter.Model

/-! ## The ranges that are dumped -/

/-- The range of a dump. -/
def dumpRange : LogItem → Option (ℕ × ℤ)
  | .data offset size => some (offset, size)
  | _ => none

/-- The header a field is read from. -/
def fieldHeader : LogItem → Option ℕ
  | .field hdr _ _ => some hdr
  | .addr hdr _ _ => some hdr
  | _ => none

/-- The ranges, in order. -/
def dumps (items : List LogItem) : List (ℕ × ℤ) := items.filterMap dumpRange

/-- The headers of the fields that are printed. -/
def headers (items : List LogItem) : List ℕ := items.filterMap fieldHeader

/-- The three ranges follow one another without gap or overlap from the end of the Ethernet
header to the end of the frame, and the fields are read from the headers with which the first
two begin. -/
def Tiles (ranges : List (ℕ × ℤ)) (hdrs : List ℕ) (size : ℤ) : Prop :=
  ∃ (ip transport payload : ℕ) (n₁ n₂ n₃ : ℤ),
    ranges = [(ip, n₁), (transport, n₂), (payload, n₃)] ∧
    ip = sizeofEthhdr ∧ ip + n₁ = transport ∧ transport + n₂ = payload ∧ payload + n₃ = size ∧
    0 ≤ n₁ ∧ 0 ≤ n₂ ∧ 0 ≤ n₃ ∧ ∀ hdr ∈ hdrs, hdr = ip ∨ hdr = transport

/-- INTERNAL: the ranges and the headers of a TCP packet.
SOURCE: pkt_info.c:96-134 -/
theorem dumps_tcp (buffer : Frame) (size : ℤ) :
    dumps (printTcpPacket buffer size) =
      [(0, (iphdrlen buffer : ℤ)),
        (iphdrlen buffer, ((tcphDoff buffer (iphdrlen buffer + sizeofEthhdr) * 4 : ℕ) : ℤ)),
        (sizeofEthhdr + iphdrlen buffer + tcphDoff buffer (iphdrlen buffer + sizeofEthhdr) * 4,
          size - (sizeofEthhdr + iphdrlen buffer +
            tcphDoff buffer (iphdrlen buffer + sizeofEthhdr) * 4 : ℕ))] ∧
    ∀ hdr ∈ headers (printTcpPacket buffer size),
      hdr = sizeofEthhdr ∨ hdr = iphdrlen buffer + sizeofEthhdr := by
  refine ⟨rfl, ?_⟩
  simp only [headers, printTcpPacket, printIpHeader, fieldHeader, List.filterMap_cons,
    List.filterMap_nil, List.cons_append, List.nil_append, List.mem_cons,
    List.not_mem_nil, or_false, or_self]
  intro hdr hhdr
  omega

/-- INTERNAL: the ranges and the headers of a UDP packet.
SOURCE: pkt_info.c:146-173 -/
theorem dumps_udp (buffer : Frame) (size : ℤ) :
    dumps (printUdpPacket buffer size) =
      [(0, (iphdrlen buffer : ℤ)), (iphdrlen buffer, (sizeofPtr : ℤ)),
        (sizeofEthhdr + iphdrlen buffer + sizeofPtr,
          size - (sizeofEthhdr + iphdrlen buffer + sizeofPtr : ℕ))] ∧
    ∀ hdr ∈ headers (printUdpPacket buffer size),
      hdr = sizeofEthhdr ∨ hdr = iphdrlen buffer + sizeofEthhdr := by
  refine ⟨rfl, ?_⟩
  simp only [headers, printUdpPacket, printIpHeader, fieldHeader, List.filterMap_cons,
    List.filterMap_nil, List.cons_append, List.nil_append, List.mem_cons,
    List.not_mem_nil, or_false, or_self]
  intro hdr hhdr
  omega

/-- INTERNAL: the ranges and the headers of an ICMP packet.
SOURCE: pkt_info.c:184-223 -/
theorem dumps_icmp (buffer : Frame) (size : ℤ) :
    dumps (printIcmpPacket buffer size) =
      [(0, (iphdrlen buffer : ℤ)), (iphdrlen buffer, (sizeofPtr : ℤ)),
        (sizeofEthhdr + iphdrlen buffer + sizeofPtr,
          size - (sizeofEthhdr + iphdrlen buffer + sizeofPtr : ℕ))] ∧
    ∀ hdr ∈ headers (printIcmpPacket buffer size),
      hdr = sizeofEthhdr ∨ hdr = iphdrlen buffer + sizeofEthhdr := by
  unfold printIcmpPacket
  dsimp only
  split
  · exact ⟨rfl, by simp [headers, printIpHeader, fieldHeader, eq_comm]⟩
  · split
    · exact ⟨rfl, by simp [headers, printIpHeader, fieldHeader, eq_comm]⟩
    · exact ⟨rfl, by simp [headers, printIpHeader, fieldHeader, eq_comm]⟩

/-- INTERNAL: ranges from the start of the buffer do not start behind the Ethernet header. -/
theorem not_tiles_of_start {n : ℤ} {rest ranges : List (ℕ × ℤ)} (h : ranges = (0, n) :: rest)
    (hdrs : List ℕ) (size : ℤ) : ¬Tiles ranges hdrs size := by
  rintro ⟨ip, transport, payload, n₁, n₂, n₃, hranges, hip, -⟩
  rw [h] at hranges
  cases hranges
  cases hip

/-- **No packet is dumped as it should be**: whatever the frame, the ranges of none of the three
printers start behind the Ethernet header.
SOURCE: pkt_info.c:89-226 -/
theorem dumps_misplaced (buffer : Frame) (size : ℤ) :
    ¬Tiles (dumps (printTcpPacket buffer size)) (headers (printTcpPacket buffer size)) size ∧
    ¬Tiles (dumps (printUdpPacket buffer size)) (headers (printUdpPacket buffer size)) size ∧
    ¬Tiles (dumps (printIcmpPacket buffer size)) (headers (printIcmpPacket buffer size)) size :=
  ⟨not_tiles_of_start (dumps_tcp buffer size).1 _ size,
    not_tiles_of_start (dumps_udp buffer size).1 _ size,
    not_tiles_of_start (dumps_icmp buffer size).1 _ size⟩

/-- A frame of 42 bytes with an IP header of 20 bytes and the protocol UDP, and nothing behind
its UDP header. -/
def udpFrame : Frame := List.replicate 14 0 ++ 0x45 :: List.replicate 8 0 ++ 17 :: List.replicate 18 0

/-- The dumps of a UDP packet without payload: the first is of the Ethernet header. -/
theorem udp_dumps_from_zero :
    iphIhl udpFrame sizeofEthhdr = 5 ∧ iphProtocol udpFrame sizeofEthhdr = 17 ∧
    udpFrame.length = 42 ∧ dumps (printUdpPacket udpFrame 42) = [(0, 20), (20, 8), (42, 0)] ∧
    ¬Tiles (dumps (printUdpPacket udpFrame 42)) (headers (printUdpPacket udpFrame 42)) 42 :=
  ⟨by decide, by decide, by decide, by decide, not_tiles_of_start (dumps_udp udpFrame 42).1 _ 42⟩

/-- The first two ranges moved behind the Ethernet header. -/
def shiftHeaders : List (ℕ × ℤ) → List (ℕ × ℤ)
  | (ip, n₁) :: (transport, n₂) :: rest =>
      (ip + sizeofEthhdr, n₁) :: (transport + sizeofEthhdr, n₂) :: rest
  | ranges => ranges

/-- **The offset of the two header dumps is the only defect**: moved behind the Ethernet header,
the ranges of every frame that holds its headers are as they should be.
SOURCE: pkt_info.c:89-226 -/
theorem headerDumps_shifted (buffer : Frame) (size : ℤ) :
    ((sizeofEthhdr + iphdrlen buffer +
        tcphDoff buffer (iphdrlen buffer + sizeofEthhdr) * 4 : ℕ) ≤ size →
      Tiles (shiftHeaders (dumps (printTcpPacket buffer size)))
        (headers (printTcpPacket buffer size)) size) ∧
    ((sizeofEthhdr + iphdrlen buffer + sizeofPtr : ℕ) ≤ size →
      Tiles (shiftHeaders (dumps (printUdpPacket buffer size)))
        (headers (printUdpPacket buffer size)) size ∧
      Tiles (shiftHeaders (dumps (printIcmpPacket buffer size)))
        (headers (printIcmpPacket buffer size)) size) := by
  have htiles : ∀ (n : ℕ) (ranges : List (ℕ × ℤ)) (hdrs : List ℕ),
      ranges = [(0, (iphdrlen buffer : ℤ)), (iphdrlen buffer, (n : ℤ)),
        (sizeofEthhdr + iphdrlen buffer + n, size - (sizeofEthhdr + iphdrlen buffer + n : ℕ))] →
      (∀ hdr ∈ hdrs, hdr = sizeofEthhdr ∨ hdr = iphdrlen buffer + sizeofEthhdr) →
      (sizeofEthhdr + iphdrlen buffer + n : ℕ) ≤ size → Tiles (shiftHeaders ranges) hdrs size := by
    intro n ranges hdrs hranges hhdrs hsize
    subst hranges
    exact ⟨sizeofEthhdr, iphdrlen buffer + sizeofEthhdr, sizeofEthhdr + iphdrlen buffer + n,
      iphdrlen buffer, n, size - (sizeofEthhdr + iphdrlen buffer + n : ℕ), by simp [shiftHeaders],
      rfl, by omega, by omega, by omega, by omega, by omega, by omega, hhdrs⟩
  refine ⟨htiles _ _ _ (dumps_tcp buffer size).1 (dumps_tcp buffer size).2, ?_⟩
  intro hsize
  exact ⟨htiles _ _ _ (dumps_udp buffer size).1 (dumps_udp buffer size).2 hsize,
    htiles _ _ _ (dumps_icmp buffer size).1 (dumps_icmp buffer size).2 hsize⟩

/-! ## The counters -/

/-- The five kinds of packets that are counted. -/
inductive Kind
  | tcp
  | udp
  | icmp
  | igmp
  | others
  deriving DecidableEq

/-- The kind of a protocol number. -/
def kindOf : ℕ → Kind
  | 1 => .icmp
  | 2 => .igmp
  | 6 => .tcp
  | 17 => .udp
  | _ => .others

/-- The counter of a kind. -/
def counter (c : Counters) : Kind → ℤ
  | .tcp => c.tcp
  | .udp => c.udp
  | .icmp => c.icmp
  | .igmp => c.igmp
  | .others => c.others

/-- One more packet of a kind. -/
def count (c : Counters) (kind : Kind) : Counters :=
  let c := { c with total := wrap32 (c.total + 1) }
  match kind with
  | .tcp => { c with tcp := wrap32 (c.tcp + 1) }
  | .udp => { c with udp := wrap32 (c.udp + 1) }
  | .icmp => { c with icmp := wrap32 (c.icmp + 1) }
  | .igmp => { c with igmp := wrap32 (c.igmp + 1) }
  | .others => { c with others := wrap32 (c.others + 1) }

@[simp] theorem total_count (c : Counters) (kind : Kind) :
    (count c kind).total = wrap32 (c.total + 1) := by
  cases kind <;> rfl

@[simp] theorem counter_count_self (c : Counters) (kind : Kind) :
    counter (count c kind) kind = wrap32 (counter c kind + 1) := by
  cases kind <;> rfl

theorem counter_count_of_ne (c : Counters) {kind kind' : Kind} (h : kind' ≠ kind) :
    counter (count c kind) kind' = counter c kind' := by
  cases kind <;> cases kind' <;> first | rfl | exact absurd rfl h

/-- INTERNAL: the switch counts a packet under the kind of its protocol.
SOURCE: pkt_info.c:13-38 -/
theorem countProtocol_eq (protocol : ℕ) (c : Counters) :
    countProtocol protocol c = count c (kindOf protocol) := by
  unfold countProtocol
  split
  · rfl
  · rfl
  · rfl
  · rfl
  · rename_i hicmp higmp htcp hudp
    have hothers : kindOf protocol = .others := by
      unfold kindOf
      split
      · exact absurd rfl hicmp
      · exact absurd rfl higmp
      · exact absurd rfl htcp
      · exact absurd rfl hudp
      · rfl
    rw [hothers]
    rfl

/-- INTERNAL: counting is never without effect. -/
theorem wrap32_succ_ne (x : ℤ) : wrap32 (x + 1) ≠ x := by
  intro h
  have hmod := congrArg toU32 h
  rw [toU32_wrap32] at hmod
  unfold toU32 at hmod
  omega

/-- INTERNAL: a packet counts under one kind only. -/
theorem count_injective {c : Counters} {kind kind' : Kind} (h : count c kind = count c kind') :
    kind = kind' := by
  by_contra hne
  have hcounter := congrArg (fun c => counter c kind) h
  simp only [counter_count_self, counter_count_of_ne c hne] at hcounter
  exact wrap32_succ_ne _ hcounter

/-- The counters after a sequence of frames, from zero. -/
def runDecoder (step : Counters → Frame → ℤ → Counters × List LogItem) (frames : List Frame) :
    Counters :=
  frames.foldl (fun c f => (step c f f.length).1) Counters.init

/-- The counters when every frame counts under a kind of its own. -/
def countAll (kind : Frame → Kind) (frames : List Frame) : Counters :=
  frames.foldl (fun c f => count c (kind f)) Counters.init

theorem countAll_snoc (kind : Frame → Kind) (frames : List Frame) (f : Frame) :
    countAll kind (frames ++ [f]) = count (countAll kind frames) (kind f) := by
  unfold countAll
  rw [List.foldl_append]
  rfl

/-- The kind of a frame by the header that is printed. -/
def headerKind (f : Frame) : Kind := kindOf (iphProtocol f sizeofEthhdr)

/-- The kind of a frame by the byte at the place of the protocol when the buffer starts with the
IP header. -/
def bufferKind (f : Frame) : Kind := kindOf (iphProtocol f 0)

theorem runDecoder_processPacket (frames : List Frame) :
    runDecoder processPacket frames = countAll bufferKind frames := by
  unfold runDecoder countAll
  congr 1
  funext c f
  exact countProtocol_eq (iphProtocol f 0) c

theorem runDecoder_processPacketTest (frames : List Frame) :
    runDecoder processPacketTest frames = countAll headerKind frames := by
  unfold runDecoder countAll
  congr 1
  funext c f
  exact countProtocol_eq (iphProtocol f sizeofEthhdr) c

/-- The number of frames of a kind. -/
def number (kind : Frame → Kind) (frames : List Frame) (k : Kind) : ℕ :=
  frames.countP fun f => decide (kind f = k)

theorem number_snoc (kind : Frame → Kind) (frames : List Frame) (f : Frame) (k : Kind) :
    number kind (frames ++ [f]) k = number kind frames k + if kind f = k then 1 else 0 := by
  unfold number
  rw [List.countP_append, List.countP_singleton]
  simp only [decide_eq_true_eq]

/-- INTERNAL: **the counters hold the wrapped numbers of frames**. -/
theorem counter_countAll (kind : Frame → Kind) (frames : List Frame) (k : Kind) :
    counter (countAll kind frames) k = wrap32 (number kind frames k) := by
  have hzero : wrap32 0 = 0 := wrap32_of_isInt32 (by decide)
  induction frames using List.reverseRecOn with
  | nil => cases k <;> exact hzero.symm
  | append_singleton frames f ih =>
      rw [countAll_snoc, number_snoc]
      by_cases hk : kind f = k
      · rw [if_pos hk, hk, counter_count_self, ih, wrap32_wrap32_add]
        push_cast
        rfl
      · rw [if_neg hk, counter_count_of_ne _ (Ne.symm hk), ih, Nat.add_zero]

/-- The sum of the five counters. -/
def sumCounters (c : Counters) : ℤ := c.tcp + c.udp + c.icmp + c.igmp + c.others

/-- INTERNAL: only the counter of its kind changes with a packet. -/
theorem sumCounters_count_eq (c : Counters) (kind : Kind) :
    sumCounters (count c kind) =
      sumCounters c - counter c kind + wrap32 (counter c kind + 1) := by
  cases kind <;>
    · simp only [sumCounters, count, counter]
      omega

/-- INTERNAL: a packet more is one more in the sum, up to wrapping. -/
theorem sumCounters_count (c : Counters) (kind : Kind) :
    wrap32 (sumCounters (count c kind)) = wrap32 (sumCounters c + 1) := by
  have hcounter : wrap32 (counter c kind + 1) % 2 ^ 32 = (counter c kind + 1) % 2 ^ 32 :=
    toU32_wrap32 _
  apply wrap32_congr
  rw [sumCounters_count_eq]
  omega

/-- INTERNAL: the total is the wrapped sum of the counters. -/
theorem total_countAll (kind : Frame → Kind) (frames : List Frame) :
    (countAll kind frames).total = wrap32 (sumCounters (countAll kind frames)) := by
  have hzero : wrap32 0 = 0 := wrap32_of_isInt32 (by decide)
  induction frames using List.reverseRecOn with
  | nil => exact hzero.symm
  | append_singleton frames f ih =>
      rw [countAll_snoc, total_count, ih, wrap32_wrap32_add, sumCounters_count]

/-- INTERNAL: the sum of the counters in terms of the frames. -/
theorem sumCounters_countAll (kind : Frame → Kind) (frames : List Frame) :
    sumCounters (countAll kind frames) =
      wrap32 (number kind frames .tcp) + wrap32 (number kind frames .udp) +
        wrap32 (number kind frames .icmp) + wrap32 (number kind frames .igmp) +
        wrap32 (number kind frames .others) := by
  rw [← counter_countAll, ← counter_countAll, ← counter_countAll, ← counter_countAll,
    ← counter_countAll]
  rfl

/-- INTERNAL: the total is the sum exactly when the sum is an `int`. -/
theorem total_eq_sum_iff (kind : Frame → Kind) (frames : List Frame) :
    (countAll kind frames).total = sumCounters (countAll kind frames) ↔
      IsInt32 (sumCounters (countAll kind frames)) := by
  rw [total_countAll]
  constructor
  · intro h
    rw [← h]
    exact isInt32_wrap32 _
  · exact wrap32_of_isInt32

/-- A run counts every frame under the kind of the protocol that `print_ip_header` prints for
it. -/
def CountsPrinted (step : Counters → Frame → ℤ → Counters × List LogItem) (frames : List Frame) :
    Prop :=
  ∀ front f back, frames = front ++ f :: back →
    ∀ hdr protocol, .field hdr protocolFmt [protocol] ∈ printIpHeader f →
      runDecoder step (front ++ [f]) = count (runDecoder step front) (kindOf protocol)

/-- INTERNAL: the protocol that is printed.
SOURCE: pkt_info.c:83 -/
theorem field_mem_printIpHeader_iff (f : Frame) (hdr protocol : ℕ) :
    .field hdr protocolFmt [protocol] ∈ printIpHeader f ↔
      hdr = sizeofEthhdr ∧ protocol = iphProtocol f sizeofEthhdr := by
  simp [printIpHeader, protocolFmt]

/-- INTERNAL: a run that counts every frame under a kind of its own counts as printed exactly
when these are the kinds that are printed. -/
theorem countsPrinted_iff {step : Counters → Frame → ℤ → Counters × List LogItem}
    {kind : Frame → Kind} (hstep : ∀ frames, runDecoder step frames = countAll kind frames)
    (frames : List Frame) :
    CountsPrinted step frames ↔ ∀ f ∈ frames, kind f = headerKind f := by
  constructor
  · intro h f hf
    obtain ⟨front, back, hsplit⟩ := List.append_of_mem hf
    have hcount := h front f back hsplit sizeofEthhdr (iphProtocol f sizeofEthhdr)
      ((field_mem_printIpHeader_iff f _ _).mpr ⟨rfl, rfl⟩)
    rw [hstep, hstep, countAll_snoc] at hcount
    exact count_injective hcount
  · intro h front f back hsplit hdr protocol hmem
    obtain ⟨-, rfl⟩ := (field_mem_printIpHeader_iff f hdr protocol).mp hmem
    rw [hstep, hstep, countAll_snoc, h f (by simp [hsplit])]
    rfl

/-- INTERNAL: kinds that agree on the frames give the same counters. -/
theorem countAll_congr {kind kind' : Frame → Kind} {frames : List Frame}
    (h : ∀ f ∈ frames, kind f = kind' f) : countAll kind frames = countAll kind' frames := by
  induction frames using List.reverseRecOn with
  | nil => rfl
  | append_singleton frames f ih =>
      rw [countAll_snoc, countAll_snoc, ih fun x hx => h x (List.mem_append_left [f] hx),
        h f (by simp)]

/-- **When the two decoders agree**: exactly when every frame has protocol numbers of the same
kind at the two places, and the wrapped numbers of the five kinds add up to an `int`.
SOURCE: pkt_info.c:8-40, test/pkt_info.c:8-42 -/
theorem decoders_agree_iff (frames : List Frame) :
    (runDecoder processPacket frames = runDecoder processPacketTest frames ∧
      (runDecoder processPacket frames).total = sumCounters (runDecoder processPacket frames) ∧
      (runDecoder processPacketTest frames).total =
        sumCounters (runDecoder processPacketTest frames) ∧
      CountsPrinted processPacket frames ∧ CountsPrinted processPacketTest frames) ↔
    (∀ f ∈ frames, kindOf (iphProtocol f 0) = kindOf (iphProtocol f sizeofEthhdr)) ∧
      IsInt32 (wrap32 (number headerKind frames .tcp) + wrap32 (number headerKind frames .udp) +
        wrap32 (number headerKind frames .icmp) + wrap32 (number headerKind frames .igmp) +
        wrap32 (number headerKind frames .others)) := by
  rw [countsPrinted_iff runDecoder_processPacket, countsPrinted_iff runDecoder_processPacketTest,
    runDecoder_processPacket, runDecoder_processPacketTest, total_eq_sum_iff, total_eq_sum_iff,
    ← sumCounters_countAll]
  constructor
  · rintro ⟨-, -, hsum, hkinds, -⟩
    exact ⟨hkinds, hsum⟩
  · rintro ⟨hkinds, hsum⟩
    have hsame : countAll bufferKind frames = countAll headerKind frames := countAll_congr hkinds
    exact ⟨hsame, by rwa [hsame], hsum, hkinds, fun _ _ => rfl⟩

/-- A UDP frame is counted under other protocols by the version of the router. -/
theorem udp_counted_as_others :
    34 ≤ udpFrame.length ∧
    runDecoder processPacket [udpFrame] = ⟨0, 0, 0, 1, 0, 1⟩ ∧
    runDecoder processPacketTest [udpFrame] = ⟨0, 1, 0, 0, 0, 1⟩ ∧
    ¬CountsPrinted processPacket [udpFrame] := by
  refine ⟨by decide, by decide, by decide, ?_⟩
  intro h
  have hcount := h [] udpFrame [] rfl sizeofEthhdr 17 (by decide)
  exact absurd hcount (by decide)

end VtRouter.Analysis
