import VtRouter.Analysis.ArpTable
import VtRouter.Analysis.RouteLookup
import VtRouter.Analysis.Topology

/-!
# The ARP file of a topology

`AppTopo` writes a line into the ARP file for every link of a host, and the UDP client reads the
file back.  The two are maintained separately and meet only in the file.  `arpFile_eq` says that
what is written are lines of the kind that is read, as long as the numbers in the names are
bytes, and `topology_arp_table` that the client then finds, for the address of a linked host, the
hardware address that the network was told of a host with this number.
-/

set_option autoImplicit false

namespace VtRouter.Analysis

open Library VtRouter.Model UdpClient Topology VtRouter.Interface

/-! ## The lines that are written -/

/-- The octets of the hardware address on a link of a host. -/
def linkOctets (sw h : NodeName) : Fin 6 → UInt8 :=
  ![0, 0, 0, 0, UInt8.ofNat sw.num, UInt8.ofNat h.num]

/-- The address of a host. -/
def hostAddr (h : NodeName) : InAddr := ⟨10, 0, 0, UInt8.ofNat h.num⟩

theorem toNat_ofNat_num {n : ℕ} (hn : n < 256) : (UInt8.ofNat n).toNat = n := by
  rw [UInt8.toNat_ofNat']
  exact Nat.mod_eq_of_lt hn

/-- INTERNAL: the hardware address as it is written.
SOURCE: mininet/apptopo.py:43 -/
theorem linkMac_eq {sw h : NodeName} (hsw : sw.num < 256) (hh : h.num < 256) :
    linkMac sw.num h.num = macText false (List.ofFn (linkOctets sw h)) := by
  have hoctets : List.ofFn (linkOctets sw h) =
      [0, 0, 0, 0, UInt8.ofNat sw.num, UInt8.ofNat h.num] := rfl
  have hzeros : bytes "00:00:00:00:" = hexText false 0 ++ ch ':' :: (hexText false 0 ++ ch ':' ::
      (hexText false 0 ++ ch ':' :: (hexText false 0 ++ [ch ':']))) := by decide +kernel
  have hzero : (0 : UInt8).toNat = 0 := rfl
  rw [hoctets]
  simp only [macText, toNat_ofNat_num hsw, toNat_ofNat_num hh, hzero, linkMac, hzeros,
    List.append_assoc, List.cons_append, List.nil_append]

/-- INTERNAL: the line of a link is a line of an ARP file.
SOURCE: mininet/apptopo.py:42-46 -/
theorem arpLine_eq (latencies : Dict Text Text) (bws : Dict Text Value) {sw h : NodeName}
    (hsw : sw.num < 256) (hh : h.num < 256) :
    (hostLinkArgs latencies bws h sw).1 =
      (addrLine (hostAddr h) (linkOctets sw h)).text ++ [ch '\n'] := by
  have hip : hostIp h.num = (inetNtoa (hostAddr h)).toList := by
    have hfront : bytes "10.0.0." = decimal 10 ++ ch '.' :: (decimal 0 ++ ch '.' ::
        (decimal 0 ++ [ch '.'])) := by decide +kernel
    show _ = decimal (10 : UInt8).toNat ++ ch '.' :: (decimal (0 : UInt8).toNat ++ ch '.' ::
      (decimal (0 : UInt8).toNat ++ ch '.' :: decimal (UInt8.ofNat h.num).toNat))
    rw [toNat_ofNat_num hh, hostIp, hfront]
    simp
  have harrow : bytes "    =>  " = bytes "    " ++ (bytes "=>" ++ bytes "  ") := by decide
  show hostIp h.num ++ bytes "    =>  " ++ linkMac sw.num h.num ++ [ch '\n'] = _
  rw [hip, linkMac_eq hsw hh, harrow]
  simp only [ArpLine.text, addrLine, ArpLine.macText, List.append_assoc]

/-- The lines of a topology. -/
def topologyLines (links : List Link) : List ArpLine :=
  (hostNames links).flatMap fun h => (linksOf links h).map fun l =>
    addrLine (hostAddr h) (linkOctets (other h l) h)

theorem textFile_true (ts : List (List UInt8)) :
    textFile ts true = ts.flatMap fun t => t ++ [ch '\n'] := by
  induction ts with
  | nil => rfl
  | cons t ts ih =>
      cases ts with
      | nil => simp [textFile]
      | cons t' ts =>
          rw [textFile, ih, List.flatMap_cons]
          simp

/-- INTERNAL: where the numbers in the names are bytes, so are those on the links of a host. -/
theorem num_lt {links : List Link} (hnum : ∀ l ∈ links, l.1.num < 256 ∧ l.2.num < 256)
    {h : NodeName} {l : Link} (hl : l ∈ linksOf links h) :
    h.num < 256 ∧ (other h l).num < 256 := by
  obtain ⟨hmem, hon⟩ := List.mem_filter.mp hl
  obtain ⟨hfirst, hsecond⟩ := hnum l hmem
  constructor
  · rcases of_decide_eq_true hon with rfl | rfl
    · exact hfirst
    · exact hsecond
  · unfold other
    split
    · exact hfirst
    · exact hsecond

/-- **The ARP file of a topology**, when the numbers in the names are bytes.
SOURCE: mininet/apptopo.py:13-15, 45-46 -/
theorem arpFile_eq {links : List Link} (hnum : ∀ l ∈ links, l.1.num < 256 ∧ l.2.num < 256)
    (latencies : Dict Text Text) (bws : Dict Text Value) :
    (hostArgs links latencies bws).flatMap Prod.fst = arpFile (topologyLines links) true := by
  unfold arpFile hostArgs topologyLines
  rw [textFile_true, List.flatMap_assoc, List.map_flatMap, List.flatMap_assoc]
  apply List.flatMap_congr
  intro h _
  rw [List.flatMap_map, List.map_map, List.flatMap_map]
  apply List.flatMap_congr
  intro l hl
  obtain ⟨hh, hsw⟩ := num_lt hnum hl
  exact arpLine_eq latencies bws hsw hh

/-! ## What the client finds -/

/-- INTERNAL: the first of the lines for an address. -/
theorem exists_first_line {lines : List ArpLine} {ip : CString} (h : ∃ l ∈ lines, l.ip = ip) :
    ∃ front l back, lines = front ++ l :: back ∧ (∀ m ∈ front, m.ip ≠ ip) ∧ l.ip = ip := by
  obtain ⟨l, hl, hip⟩ := h
  have hsome : (lines.find? fun m => decide (m.ip = ip)).isSome = true := by
    rw [List.find?_isSome]
    exact ⟨l, hl, decide_eq_true hip⟩
  obtain ⟨first, hfirst⟩ := Option.isSome_iff_exists.mp hsome
  obtain ⟨hmatch, front, back, hlines, hfront⟩ := List.find?_eq_some_iff_append.mp hfirst
  exact ⟨front, first, back, hlines, fun m hm => by simpa using hfront m hm,
    of_decide_eq_true hmatch⟩

/-- **The client finds what the network was told.**  For every host the topology links, the table
read from the ARP file has an entry for its address, with the octets that a call of `addLink` for
a host with its number has as the first address.
SOURCE: mininet/apptopo.py:6-82, test/udp_client_n.c:114-221 -/
theorem topology_arp_table (format : Text → Text) (conf : Manifest)
    (hlinks : ∀ l ∈ conf.links, l.a.kind = .switch ∨ l.b.kind = .switch)
    (hnum : ∀ l ∈ conf.links, l.a.num < 256 ∧ l.b.num < 256) (tails : ℕ → List UInt8)
    (junk : ℕ → MacInts)
    (hcap : ∀ k line, (getlines (arpFile (topologyLines conf.pairs) true))[k]? = some line →
      (line ++ 0 :: tails k).length ≤ UdpClient.bufSize) :
    ∃ file calls arpList, buildTopo format conf = .ok (file, calls) ∧
      populateArpList tails junk file = .ok arpList ∧
      ∀ c ∈ addedLinks calls, c.node1.kind = .host →
        ∃ e octets, getArpEntry (inetNtoa (hostAddr c.node1)) arpList = some e ∧
          (∀ k, e.mac k = ((octets k : UInt8).toNat : ℤ)) ∧
          ∃ c' ∈ addedLinks calls, c'.node1.num = c.node1.num ∧
            c'.addr1 = some (macText false (List.ofFn octets)) := by
  have hpairs := forall_pairs (P := fun a b => a.kind = .switch ∨ b.kind = .switch) hlinks
  have hnums := forall_pairs (P := fun a b => a.num < 256 ∧ b.num < 256) hnum
  obtain ⟨calls, hrun, hadded⟩ := appTopo_ok hpairs (latencyTable format conf)
    (bandwidthTable conf) (bytes "/tmp")
  rw [arpFile_eq hnums] at hrun
  refine ⟨_, calls, _, hrun, populateArpList_arpFile tails junk _ true hcap, ?_⟩
  intro c hc hhost
  rw [hadded] at hc ⊢
  rcases List.mem_append.mp hc with hc | hc
  · obtain ⟨p, hp, rfl⟩ := List.mem_map.mp hc
    obtain ⟨h, hh, l, hl, rfl⟩ := mem_hostArgs.mp hp
    have hline : ∃ m ∈ topologyLines conf.pairs, m.ip = inetNtoa (hostAddr h) :=
      ⟨_, List.mem_flatMap.mpr ⟨h, hh, List.mem_map_of_mem hl⟩, rfl⟩
    obtain ⟨front, first, back, hsplit, hfront, hip⟩ := exists_first_line hline
    have hfirst : first ∈ topologyLines conf.pairs := by
      rw [hsplit]
      simp
    obtain ⟨h', hh', hfirst⟩ := List.mem_flatMap.mp hfirst
    obtain ⟨l', hl', rfl⟩ := List.mem_map.mp hfirst
    obtain ⟨hlt, -⟩ := num_lt hnums hl
    obtain ⟨hlt', hsw'⟩ := num_lt hnums hl'
    have hnumEq : h'.num = h.num := by
      have haddr : hostAddr h' = hostAddr h := inetNtoa_injective hip
      have hbyte := congrArg (fun a => a.b3.toNat) haddr
      simp only [hostAddr, toNat_ofNat_num hlt, toNat_ofNat_num hlt'] at hbyte
      exact hbyte
    have hcall : (hostLinkArgs (latencyTable format conf) (bandwidthTable conf) h' (other h' l')).2 ∈
        (hostArgs conf.pairs (latencyTable format conf) (bandwidthTable conf)).map Prod.snd :=
      List.mem_map_of_mem (mem_hostArgs.mpr ⟨h', hh', l', hl', rfl⟩)
    refine ⟨(addrLine (hostAddr h') (linkOctets (other h' l') h')).entry,
      linkOctets (other h' l') h', ?_, fun _ => rfl, _, List.mem_append_left _ hcall, hnumEq, ?_⟩
    · rw [hsplit, List.map_append, List.map_cons]
      refine getArpEntry_first ?_ hip
      intro e he
      obtain ⟨m, hm, rfl⟩ := List.mem_map.mp he
      exact hfront m hm
    · exact congrArg some (linkMac_eq hsw' hlt')
  · obtain ⟨l, -, hc⟩ := List.mem_filterMap.mp hc
    unfold switchLink at hc
    split at hc
    · cases hc
    · rename_i hboth
      rw [not_or, not_not, not_not] at hboth
      cases hc
      rw [hboth.1] at hhost
      cases hhost

/-- The host of `threeLinks` is in the table. -/
theorem topology_arp_table_threeLinks :
    ∃ file calls arpList, buildTopo id threeLinks = .ok (file, calls) ∧
      populateArpList (fun _ => []) (fun _ _ => 7) file = .ok arpList ∧
      ∀ c ∈ addedLinks calls, c.node1.kind = .host →
        ∃ e, getArpEntry (inetNtoa (hostAddr c.node1)) arpList = some e := by
  have hshort : ∀ line ∈ getlines (arpFile (topologyLines threeLinks.pairs) true),
      line.length ≤ 100 := by
    decide +kernel
  obtain ⟨file, calls, arpList, hbuild, hread, hfound⟩ := topology_arp_table id threeLinks
    (by decide +kernel) (by decide +kernel) (fun _ => []) (fun _ _ => 7) (by
      intro k line hk
      have hlen := hshort line (List.mem_of_getElem? hk)
      simp only [List.length_append, List.length_cons, List.length_nil, UdpClient.bufSize]
      omega)
  refine ⟨file, calls, arpList, hbuild, hread, fun c hc hhost => ?_⟩
  obtain ⟨e, -, hentry, -⟩ := hfound c hc hhost
  exact ⟨e, hentry⟩

end VtRouter.Analysis
