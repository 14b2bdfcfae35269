import Mathlib.Data.List.Induction
import VtRouter.Interface.RouteText

/-!
# What the lookup in a route file returns

A route file is turned into its entries line by line (`populateRoutingList_routeFile`), and
the walk of `getDstSockIdx` keeps the last entry that matches (`dstIntf_eq`).  Since two
addresses never print alike (`inetNtoa_injective`), comparing texts is comparing addresses.
`route_file_lookup` puts the three together.

`getDstSockIdx` has a third outcome besides the index and `-1`: a match whose interface is
not among the names falls through to `0`.  `getDstSockIdx_respects_iff` says exactly when
this does harm.
-/

set_option autoImplicit false

namespace VtRouter.Analysis

open Library VtRouter.Model VtRouter.Interface

/-! ## From the file to the routing list -/

/-- INTERNAL: the loop over the lines of a route file appends their entries in order.
SOURCE: utils.c:312-344 -/
theorem populateLoop_routeLines (tails : ℕ → List UInt8) {ws : List (List UInt8)}
    {lines : List RouteLine} (hlines : List.Forall₂ (fun w l => IsLineOf w l.text) ws lines)
    (k : ℕ) (routes : List RoutingEntry)
    (hcap : ∀ j line, ws[j]? = some line → (line ++ 0 :: tails (k + j)).length ≤ bufSize) :
    populateLoop tails ws k routes = .ok (routes ++ lines.map RouteLine.entry) := by
  induction hlines generalizing k routes with
  | nil =>
      rw [populateLoop]
      simp
  | @cons w l ws lines hw hlines ih =>
      obtain ⟨e, rfl, he⟩ := hw
      have hparse := parseLine_routeLine l he (tails k) (hcap 0 _ rfl)
      have hrest := forall_lines_tail (P := fun i line =>
        (line ++ 0 :: tails i).length ≤ bufSize) hcap
      rw [populateLoop, hparse, ok_bind, ih (k + 1) _ hrest]
      simp

/-- **The routing list of a route file** is the list of its entries.
SOURCE: utils.c:294-352 -/
theorem populateRoutingList_routeFile (tails : ℕ → List UInt8) (lines : List RouteLine)
    (finalNewline : Bool)
    (hcap : ∀ k line, (getlines (routeFile lines finalNewline))[k]? = some line →
      (line ++ 0 :: tails k).length ≤ bufSize) :
    populateRoutingList tails (routeFile lines finalNewline) =
      .ok (lines.map RouteLine.entry) := by
  have htexts : ∀ t ∈ lines.map RouteLine.text, t ≠ [] ∧ ch '\n' ∉ t := by
    intro t ht
    obtain ⟨l, -, rfl⟩ := List.mem_map.mp ht
    exact ⟨l.text_ne_nil, l.noNewline_text⟩
  have hlines := getlines_textFile finalNewline htexts
  rw [← routeFile_eq, List.forall₂_map_right_iff] at hlines
  have h := populateLoop_routeLines tails hlines 0 [] (by simpa using hcap)
  simpa [populateRoutingList] using h

/-! ## The walk along the routing list -/

/-- **Two addresses never print alike.** -/
theorem inetNtoa_injective {a b : InAddr} (h : inetNtoa a = inetNtoa b) : a = b := by
  have htext : a.text = b.text := congrArg CString.toList h
  have hdot : ∀ t, NoDigitHead (ch '.' :: t) := noDigitHead_cons (by decide)
  unfold InAddr.text at htext
  obtain ⟨h0, hrest⟩ := decimal_append_inj (hdot _) (hdot _) htext
  obtain ⟨h1, hrest⟩ :=
    decimal_append_inj (hdot _) (hdot _) (List.cons.inj hrest).2
  obtain ⟨h2, hrest⟩ :=
    decimal_append_inj (hdot _) (hdot _) (List.cons.inj hrest).2
  have h3 := decimal_injective (List.cons.inj hrest).2
  obtain ⟨a0, a1, a2, a3⟩ := a
  obtain ⟨b0, b1, b2, b3⟩ := b
  simp only [UInt8.toNat_inj] at h0 h1 h2 h3
  rw [h0, h1, h2, h3]

/-- The entries for an address, in the order of the list. -/
def matching (dstIP : CString) (routes : List RoutingEntry) : List RoutingEntry :=
  routes.filter fun e => decide (e.ipAddress = dstIP)

/-- INTERNAL: the walk keeps the last matching entry.
SOURCE: utils.c:412-421 -/
theorem dstIntf_eq (dstIP : CString) (routes : List RoutingEntry) :
    dstIntf dstIP routes = (matching dstIP routes).getLast?.map RoutingEntry.outputIf := by
  unfold dstIntf matching
  induction routes using List.reverseRecOn with
  | nil => rfl
  | append_singleton routes e ih =>
      rw [List.foldl_append, List.foldl_cons, List.foldl_nil, List.filter_append, ih]
      by_cases he : e.ipAddress = dstIP
      · rw [if_pos he, List.filter_cons_of_pos (by simpa using he)]
        simp
      · rw [if_neg he, List.filter_cons_of_neg (by simpa using he)]
        simp

/-- INTERNAL: the three outcomes of the lookup.
SOURCE: utils.c:424-436 -/
theorem getDstSockIdx_cases (pkt : List UInt8) (names : List CString)
    (routes : List RoutingEntry) :
    (matching (inetNtoa (daddr pkt)) routes = [] ∧ getDstSockIdx pkt names routes = -1) ∨
    (∃ e i, (matching (inetNtoa (daddr pkt)) routes).getLast? = some e ∧
      names[i]? = some e.outputIf ∧ getDstSockIdx pkt names routes = (i : ℕ)) ∨
    (∃ e, (matching (inetNtoa (daddr pkt)) routes).getLast? = some e ∧
      e.outputIf ∉ names ∧ getDstSockIdx pkt names routes = 0) := by
  unfold getDstSockIdx
  rw [dstIntf_eq]
  cases hlast : (matching (inetNtoa (daddr pkt)) routes).getLast? with
  | none =>
      left
      exact ⟨List.getLast?_eq_none_iff.mp hlast, rfl⟩
  | some e =>
      right
      simp only [Option.map_some]
      cases hidx : names.findIdx? (fun name => decide (e.outputIf = name)) with
      | none =>
          right
          refine ⟨e, rfl, ?_, rfl⟩
          rw [List.findIdx?_eq_none_iff] at hidx
          intro hmem
          simpa using hidx e.outputIf hmem
      | some i =>
          left
          refine ⟨e, i, rfl, ?_, rfl⟩
          obtain ⟨hi, heq, -⟩ := List.findIdx?_eq_some_iff_getElem.mp hidx
          have hname : e.outputIf = names[i] := by simpa using heq
          rw [List.getElem?_eq_getElem hi, hname]

/-- INTERNAL: the entries of a route file for an address are those of its lines for it. -/
theorem matching_entries (a : InAddr) (lines : List RouteLine) :
    matching (inetNtoa a) (lines.map RouteLine.entry) =
      (lines.filter fun l => decide (l.addr = a)).map RouteLine.entry := by
  unfold matching
  rw [List.filter_map]
  congr 1
  apply List.filter_congr
  intro l _
  show decide (inetNtoa l.addr = inetNtoa a) = decide (l.addr = a)
  congr 1
  exact propext ⟨fun h => inetNtoa_injective h, fun h => congrArg inetNtoa h⟩

/-- **Lookup in a route file.**  After a route file whose interfaces are all among `names`,
whatever the tails of the line buffer, the lookup returns an index of the interface named on
the last line for the destination of the frame (with distinct names, the index), and `-1`
exactly when there is no such line.
SOURCE: utils.c:294-352, 381-436 -/
theorem route_file_lookup (lines : List RouteLine) (finalNewline : Bool)
    (names : List CString) (hnames : ∀ l ∈ lines, l.iface ∈ names) (tails : ℕ → List UInt8)
    (hcap : ∀ k line, (getlines (routeFile lines finalNewline))[k]? = some line →
      (line ++ 0 :: tails k).length ≤ bufSize) :
    ∃ routes, populateRoutingList tails (routeFile lines finalNewline) = .ok routes ∧
      ∀ pkt : List UInt8,
        (∀ front l back, lines = front ++ l :: back → l.addr = daddr pkt →
          (∀ m ∈ back, m.addr ≠ daddr pkt) →
          ∃ i : ℕ, names[i]? = some l.iface ∧ getDstSockIdx pkt names routes = i) ∧
        (getDstSockIdx pkt names routes = -1 ↔ ∀ l ∈ lines, l.addr ≠ daddr pkt) := by
  refine ⟨lines.map RouteLine.entry,
    populateRoutingList_routeFile tails lines finalNewline hcap, ?_⟩
  intro pkt
  have hcases := getDstSockIdx_cases pkt names (lines.map RouteLine.entry)
  rw [matching_entries, List.getLast?_map] at hcases
  constructor
  · intro front l back hsplit haddr hlast
    have hfilter : (lines.filter fun l => decide (l.addr = daddr pkt)).getLast? = some l := by
      have hback : back.filter (fun l => decide (l.addr = daddr pkt)) = [] :=
        List.filter_eq_nil_iff.mpr fun m hm => by simpa using hlast m hm
      rw [hsplit, List.filter_append, List.filter_cons_of_pos (by simpa using haddr), hback]
      simp
    rw [hfilter, Option.map_some] at hcases
    rcases hcases with ⟨hnil, -⟩ | ⟨e, i, he, hi, hres⟩ | ⟨e, he, hout, -⟩
    · rw [List.map_eq_nil_iff] at hnil
      rw [hnil] at hfilter
      cases hfilter
    · cases he
      exact ⟨i, hi, hres⟩
    · cases he
      exact absurd (hnames l (by simp [hsplit])) hout
  · rcases hcases with ⟨hnil, hres⟩ | ⟨e, i, he, -, hres⟩ | ⟨e, he, hout, -⟩
    · rw [List.map_eq_nil_iff, List.filter_eq_nil_iff] at hnil
      simpa [hres] using hnil
    · obtain ⟨l, hl, rfl⟩ := Option.map_eq_some_iff.mp he
      have hmem := List.mem_of_getLast? hl
      rw [List.mem_filter, decide_eq_true_eq] at hmem
      constructor
      · intro h
        omega
      · intro h
        exact absurd hmem.2 (h l hmem.1)
    · obtain ⟨l, hl, rfl⟩ := Option.map_eq_some_iff.mp he
      have hmem := List.mem_of_getLast? hl
      exact absurd (hnames l (List.mem_of_mem_filter hmem)) hout

/-- The first two lines of the route file of `s1`, the second without its newline. -/
def s1Routes : List RouteLine :=
  [⟨⟨10, 0, 0, 1⟩, [ch '\t'], [ch '\t'], cstr "s1-eth1", by decide +kernel,
      by decide +kernel, by decide +kernel, by decide⟩,
    ⟨⟨10, 0, 0, 2⟩, [ch '\t'], [ch '\t'], cstr "s1-eth2", by decide +kernel,
      by decide +kernel, by decide +kernel, by decide⟩]

/-- The lookup in the route file of `s1`, with the bytes of a longer line behind each line. -/
theorem route_file_lookup_s1 :
    ∃ routes, populateRoutingList (fun _ => List.replicate 90 (ch 'x')) (routeFile s1Routes false) =
        .ok routes ∧
      ∃ i : ℕ, [cstr "s1-eth2", cstr "s1-eth1"][i]? =
          some (cstr "s1-eth1") ∧
        getDstSockIdx (List.replicate 30 0 ++ [10, 0, 0, 1])
          [cstr "s1-eth2", cstr "s1-eth1"] routes = i := by
  obtain ⟨routes, hroutes, hlookup⟩ := route_file_lookup s1Routes false
    [cstr "s1-eth2", cstr "s1-eth1"] (by decide)
    (fun _ => List.replicate 90 (ch 'x')) (by
      intro k line hk
      have hshort : ∀ l ∈ getlines (routeFile s1Routes false), l.length ≤ 100 := by
        decide +kernel
      have hlen := hshort line (List.mem_of_getElem? hk)
      simp only [List.length_append, List.length_cons, List.length_replicate, bufSize]
      omega)
  refine ⟨routes, hroutes, ?_⟩
  exact (hlookup (List.replicate 30 0 ++ [10, 0, 0, 1])).1 [] _ _ rfl (by decide) (by decide)

/-! ## The fall-through -/

/-- The index of an interface that an entry for the destination of the frame names. -/
def OnRoute (pkt : List UInt8) (names : List CString) (routes : List RoutingEntry) (idx : ℤ) :
    Prop :=
  ∃ i : ℕ, idx = i ∧
    ∃ e ∈ routes, e.ipAddress = inetNtoa (daddr pkt) ∧ names[i]? = some e.outputIf

/-- The result of a lookup is one a route accounts for, or `-1`. -/
def RouteRespected (pkt : List UInt8) (names : List CString) (routes : List RoutingEntry)
    (idx : ℤ) : Prop :=
  idx = -1 ∨ OnRoute pkt names routes idx

/-- If there is an entry for the destination, the last one names one of the interfaces, or
else some entry for it names interface `0`. -/
def RouteNamed (pkt : List UInt8) (names : List CString) (routes : List RoutingEntry) : Prop :=
  ∀ e, (matching (inetNtoa (daddr pkt)) routes).getLast? = some e →
    e.outputIf ∈ names ∨
      ∃ e' ∈ matching (inetNtoa (daddr pkt)) routes, names[0]? = some e'.outputIf

/-- INTERNAL: **when a lookup respects the routes.**  The result falls through to `0` when
the last entry for the destination names none of the interfaces, and then only an entry
that names interface `0` can account for it.
SOURCE: utils.c:424-436 -/
theorem getDstSockIdx_respects_iff (pkt : List UInt8) (names : List CString)
    (routes : List RoutingEntry) :
    RouteRespected pkt names routes (getDstSockIdx pkt names routes) ↔
      RouteNamed pkt names routes := by
  have hmem : ∀ e, e ∈ matching (inetNtoa (daddr pkt)) routes ↔
      e ∈ routes ∧ e.ipAddress = inetNtoa (daddr pkt) := by
    intro e
    rw [matching, List.mem_filter, decide_eq_true_eq]
  rcases getDstSockIdx_cases pkt names routes with
    ⟨hnil, hres⟩ | ⟨e, i, hlast, hi, hres⟩ | ⟨e, hlast, hout, hres⟩
  · constructor
    · intro _ e he
      rw [hnil] at he
      cases he
    · intro _
      exact Or.inl hres
  · constructor
    · intro _ e' he'
      rw [hlast] at he'
      cases he'
      exact Or.inl (List.mem_of_getElem? hi)
    · intro _
      obtain ⟨he, hip⟩ := (hmem e).mp (List.mem_of_getLast? hlast)
      exact Or.inr ⟨i, hres, e, he, hip, hi⟩
  · constructor
    · rintro (h | ⟨i, hi, e', he', hip, hname⟩) e'' he''
      · omega
      · have hi0 : i = 0 := by omega
        subst hi0
        exact Or.inr ⟨e', (hmem e').mpr ⟨he', hip⟩, hname⟩
    · intro h
      rcases h e hlast with hin | ⟨e', he', hname⟩
      · exact absurd hin hout
      · obtain ⟨hmem', hip⟩ := (hmem e').mp he'
        exact Or.inr ⟨0, by simpa using hres, e', hmem', hip, hname⟩

end VtRouter.Analysis
