import VtRouter.Interface.ArpText

/-!
# The ARP table, written and read back

`populate_arp_list` turns an ARP file into the entries of its lines
(`populateArpList_arpFile`), and the walk of `get_arp_entry` stops at the first that matches.
`arp_table_round_trip` puts the two together: neither the capacity of the line buffer, nor what
an earlier line left in it, nor what `malloc` left in a fresh entry shows in the table.
-/

set_option autoImplicit false

namespace VtRouter.Analysis

open Library VtRouter.Model UdpClient VtRouter.Interface

/-! ## From the file to the table -/

/-- INTERNAL: the loop over the lines of an ARP file appends their entries in order.
SOURCE: test/udp_client_n.c:163-212 -/
theorem populateArpLoop_arpLines (tails : ℕ → List UInt8) (junk : ℕ → MacInts)
    {ws : List (List UInt8)} {lines : List ArpLine}
    (hlines : List.Forall₂ (fun w l => IsLineOf w l.text) ws lines) (k : ℕ)
    (arpList : List ArpEntry)
    (hcap : ∀ j line, ws[j]? = some line →
      (line ++ 0 :: tails (k + j)).length ≤ UdpClient.bufSize) :
    populateArpLoop tails junk ws k arpList = .ok (arpList ++ lines.map ArpLine.entry) := by
  induction hlines generalizing k arpList with
  | nil =>
      rw [populateArpLoop]
      simp
  | @cons w l ws lines hw hlines ih =>
      obtain ⟨e, rfl, he⟩ := hw
      have hparse := parseArpLine_arpLine l he (tails k) (junk k) (hcap 0 _ rfl)
      have hrest := forall_lines_tail (P := fun i line =>
        (line ++ 0 :: tails i).length ≤ UdpClient.bufSize) hcap
      rw [populateArpLoop, hparse, ok_bind, ih (k + 1) _ hrest]
      simp

/-- **The table of an ARP file** is the list of its entries.
SOURCE: test/udp_client_n.c:145-221 -/
theorem populateArpList_arpFile (tails : ℕ → List UInt8) (junk : ℕ → MacInts)
    (lines : List ArpLine) (finalNewline : Bool)
    (hcap : ∀ k line, (getlines (arpFile lines finalNewline))[k]? = some line →
      (line ++ 0 :: tails k).length ≤ UdpClient.bufSize) :
    populateArpList tails junk (arpFile lines finalNewline) = .ok (lines.map ArpLine.entry) := by
  have htexts : ∀ t ∈ lines.map ArpLine.text, t ≠ [] ∧ ch '\n' ∉ t := by
    intro t ht
    obtain ⟨l, -, rfl⟩ := List.mem_map.mp ht
    exact ⟨l.text_ne_nil, l.noNewline_text⟩
  have hlines := getlines_textFile finalNewline htexts
  rw [List.forall₂_map_right_iff] at hlines
  have h := populateArpLoop_arpLines tails junk hlines 0 [] (by simpa [arpFile] using hcap)
  simpa [populateArpList, arpFile] using h

/-! ## The round trip -/

/-- **The round trip of the ARP table.**  Whatever stands behind the lines in the line buffer
and in the entries before they are filled, an ARP file is read as its lines, in order and with
all six octets; the lookup answers with the octets of the first line for an address, and with
nothing for an address that has no line.
SOURCE: test/udp_client_n.c:114-129, 145-221 -/
theorem arp_table_round_trip (lines : List ArpLine) (finalNewline : Bool)
    (tails : ℕ → List UInt8) (junk : ℕ → MacInts)
    (hcap : ∀ k line, (getlines (arpFile lines finalNewline))[k]? = some line →
      (line ++ 0 :: tails k).length ≤ UdpClient.bufSize) :
    ∃ arpList, populateArpList tails junk (arpFile lines finalNewline) = .ok arpList ∧
      arpList.map (fun e => (e.ipAddress, e.mac)) =
        lines.map (fun l => (l.ip, fun k => ((l.mac k).toNat : ℤ))) ∧
      (∀ front l back, lines = front ++ l :: back → (∀ m ∈ front, m.ip ≠ l.ip) →
        ∃ e, getArpEntry l.ip arpList = some e ∧ ∀ k, e.mac k = (l.mac k).toNat) ∧
      ∀ ip, (∀ l ∈ lines, l.ip ≠ ip) → getArpEntry ip arpList = none := by
  refine ⟨lines.map ArpLine.entry,
    populateArpList_arpFile tails junk lines finalNewline hcap, ?_, ?_, ?_⟩
  · rw [List.map_map]
    rfl
  · rintro front l back rfl hfront
    refine ⟨l.entry, ?_, fun _ => rfl⟩
    rw [List.map_append, List.map_cons]
    apply getArpEntry_first
    · intro e he
      obtain ⟨m, hm, rfl⟩ := List.mem_map.mp he
      exact hfront m hm
    · rfl
  · intro ip hnone
    apply getArpEntry_none
    intro e he
    obtain ⟨l, hl, rfl⟩ := List.mem_map.mp he
    exact hnone l hl

/-- The line for an address as the topology writes it.
SOURCE: mininet/apptopo.py:46 -/
def addrLine (a : InAddr) (mac : Fin 6 → UInt8) : ArpLine where
  ip := inetNtoa a
  gap₁ := bytes "    "
  gap₂ := bytes "  "
  mac := mac
  upper := false
  ip_solid := (addrText_fits a).2
  ip_fits := lt_trans (addrText_fits a).1 (by decide)
  gap₁_blank := by decide +kernel
  gap₂_blank := by decide +kernel

/-- The table of three hosts of which two share an address, with the bytes of a longer line
behind each line. -/
theorem arp_table_round_trip_hosts :
    ∃ arpList, populateArpList (fun _ => List.replicate 90 (ch 'x')) (fun _ _ => -1)
        (arpFile [addrLine ⟨10, 0, 0, 1⟩ ![0, 0, 0, 0, 1, 1],
          addrLine ⟨10, 0, 0, 12⟩ ![0, 0, 0, 0, 2, 0xab],
          addrLine ⟨10, 0, 0, 1⟩ ![0, 0, 0, 0, 3, 1]] false) = .ok arpList ∧
      (∃ e, getArpEntry (inetNtoa ⟨10, 0, 0, 12⟩) arpList = some e ∧
        ∀ k, e.mac k = ((![0, 0, 0, 0, 2, 0xab] : Fin 6 → UInt8) k).toNat) ∧
      getArpEntry (inetNtoa ⟨10, 0, 0, 2⟩) arpList = none := by
  obtain ⟨arpList, hlist, -, hfirst, hnone⟩ := arp_table_round_trip
    [addrLine ⟨10, 0, 0, 1⟩ ![0, 0, 0, 0, 1, 1],
      addrLine ⟨10, 0, 0, 12⟩ ![0, 0, 0, 0, 2, 0xab],
      addrLine ⟨10, 0, 0, 1⟩ ![0, 0, 0, 0, 3, 1]] false
    (fun _ => List.replicate 90 (ch 'x')) (fun _ _ => -1) (by
      intro k line hk
      have hshort : ∀ l ∈ getlines (arpFile [addrLine ⟨10, 0, 0, 1⟩ ![0, 0, 0, 0, 1, 1],
          addrLine ⟨10, 0, 0, 12⟩ ![0, 0, 0, 0, 2, 0xab],
          addrLine ⟨10, 0, 0, 1⟩ ![0, 0, 0, 0, 3, 1]] false), l.length ≤ 100 := by
        decide +kernel
      have hlen := hshort line (List.mem_of_getElem? hk)
      simp only [List.length_append, List.length_cons, List.length_replicate, UdpClient.bufSize]
      omega)
  refine ⟨arpList, hlist, ?_, hnone _ (by decide +kernel)⟩
  exact hfirst [addrLine ⟨10, 0, 0, 1⟩ ![0, 0, 0, 0, 1, 1]] _ _ rfl (by decide +kernel)

end VtRouter.Analysis
