import Mathlib.Data.Sym.Sym2
import VtRouter.Model.Topology

/-!
# Every link has its own delay

The tables of `latencyTable` and `bandwidthTable` are keyed by two names written one behind the
other.  A name is a letter and digits, so two names can be told apart from what they are written
as (`text_append_inj`), and a sorted pair of names stands for the unordered pair (`key_eq_iff`).
A host sorts before a switch (`key_host`), which is why the three places that write the host
first agree with the two that sort.

`links_configured` says what follows for the calls of `AppTopo`: there is one for every link of
the manifest, and it has the values of its own pair of nodes.
-/

set_option autoImplicit false

namespace VtRouter.Analysis

open Library VtRouter.Model.Topology

/-! ## What a link is configured with -/

/-- The last value that a listed link between the two nodes has. -/
def lastGiven (element : LinkConf → Option Value) (conf : Manifest) (pair : Sym2 NodeName) :
    Option Value :=
  ((conf.links.filter fun l => decide (s(l.a, l.b) = pair)).filterMap element).getLast?

/-- The host among two nodes. -/
def hostOn (a b : NodeName) : Option NodeName :=
  if a.kind = .host then some a else if b.kind = .host then some b else none

/-- The latency of the host on the link, else the last one listed for the pair, else nothing.
A text is put through `format`, which fills in the parameters of the experiment; anything else
is a number of milliseconds. -/
def configuredDelay (format : Text → Text) (conf : Manifest) (a b : NodeName) : Text :=
  match ((hostOn a b).bind conf.hostLatency).or (lastGiven LinkConf.latency conf s(a, b)) with
  | some (.text s) => format s
  | some (.other shown) => shown ++ bytes "ms"
  | none => bytes "0ms"

/-- The arguments of a call of `addLink`. -/
def linkArgs : Call → Option LinkArgs
  | .addLink args => some args
  | _ => none

/-- The arguments of all calls of `addLink`. -/
def addedLinks (calls : List Call) : List LinkArgs := calls.filterMap linkArgs

/-! ## Keys -/

theorem letter_injective {k k' : NodeKind} (h : k.letter = k'.letter) : k = k' := by
  cases k <;> cases k' <;> first | rfl | exact absurd h (by decide)

theorem text_injective {a b : NodeName} (h : a.text = b.text) : a = b := by
  obtain ⟨kind, digits, _, _⟩ := a
  obtain ⟨kind', digits', _, _⟩ := b
  obtain ⟨hletter, hdigits⟩ := List.cons.inj h
  cases letter_injective hletter
  cases hdigits
  rfl

/-- **Two names in a row can be told apart**: the second begins where a letter follows a
digit. -/
theorem text_append_inj {a b c d : NodeName} (h : a.text ++ b.text = c.text ++ d.text) :
    a = c ∧ b = d := by
  have hnext : ∀ n : NodeName, NoDigitHead n.text := by
    intro n
    apply noDigitHead_cons
    cases n.kind <;> decide
  obtain ⟨hletter, hrest⟩ := List.cons.inj h
  obtain ⟨htake, hdrop⟩ := takeWhile_digits_append a.digits_ok (hnext b)
  obtain ⟨htake', hdrop'⟩ := takeWhile_digits_append c.digits_ok (hnext d)
  rw [show a.digits ++ b.text = c.digits ++ d.text from hrest] at htake hdrop
  have hdigits : a.digits = c.digits := htake.symm.trans htake'
  have hac : a.text = c.text := by
    unfold NodeName.text
    rw [hletter, hdigits]
  exact ⟨text_injective hac, text_injective (hdrop.symm.trans hdrop')⟩

theorem join_pair (a b : NodeName) : join [a, b] = a.text ++ b.text := by
  simp [join]

theorem sorted_pair (a b : NodeName) : sorted [a, b] = if a.text ≤ b.text then [a, b] else [b, a] :=
  rfl

/-- INTERNAL: sorting forgets the order of a pair. -/
theorem sorted_swap (a b : NodeName) : sorted [a, b] = sorted [b, a] := by
  rw [sorted_pair, sorted_pair]
  by_cases hab : a.text ≤ b.text
  · by_cases hba : b.text ≤ a.text
    · rw [text_injective (List.le_antisymm hab hba)]
    · rw [if_pos hab, if_neg hba]
  · have hba := (List.le_total a.text b.text).resolve_left hab
    rw [if_neg hab, if_pos hba]

/-- **The key of a sorted pair of names** stands for the unordered pair. -/
theorem key_eq_iff (a b c d : NodeName) :
    join (sorted [a, b]) = join (sorted [c, d]) ↔ s(a, b) = s(c, d) := by
  constructor
  · intro h
    rw [sorted_pair, sorted_pair] at h
    split at h <;> split at h <;>
      · rw [join_pair, join_pair] at h
        obtain ⟨rfl, rfl⟩ := text_append_inj h
        first | rfl | exact Sym2.eq_swap
  · intro h
    rcases Sym2.eq_iff.mp h with ⟨rfl, rfl⟩ | ⟨rfl, rfl⟩
    · rfl
    · rw [sorted_swap]

/-- INTERNAL: a host sorts before a switch. -/
theorem key_host {h sw : NodeName} (hh : h.kind = .host) (hsw : sw.kind = .switch) :
    join (sorted [h, sw]) = h.text ++ sw.text := by
  have hle : h.text ≤ sw.text := by
    unfold NodeName.text
    rw [hh, hsw, List.cons_le_cons_iff]
    left
    decide
  rw [sorted_pair, if_pos hle, join_pair]

/-! ## The tables -/

/-- INTERNAL: a table of the listed links answers with the last value of the pair.
SOURCE: mininet/experiment.py:165-166 -/
theorem get_linkTable (element : LinkConf → Option Value) (conf : Manifest) (a b : NodeName) :
    (linkTable element conf).get (join (sorted [a, b])) = lastGiven element conf s(a, b) := by
  unfold linkTable lastGiven
  rw [Dict.get_ofPairs, Dict.lastUnder_filterMap]
  congr 2
  apply List.filter_congr
  intro l _
  exact decide_eq_decide.mpr (key_eq_iff l.a l.b a b)

/-- What the overrides write, in order. -/
def overrides (conf : Manifest) : List (Text × Value) :=
  (sorted conf.hosts.keys).flatMap fun h => (conf.hostLatency h).toList.flatMap fun latency =>
    (conf.pairs.filter fun l => decide (l.1 = h ∨ l.2 = h)).map fun l =>
      (h.text ++ (other h l).text, latency)

/-- INTERNAL: the inner loop writes a pair for every link of the host.
SOURCE: mininet/experiment.py:171-174 -/
theorem overrideLatency_eq (links : List Link) (h : NodeName) (latency : Value)
    (latencies : Dict Text Value) :
    overrideLatency links h latency latencies =
      latencies.setAll ((links.filter fun l => decide (l.1 = h ∨ l.2 = h)).map fun l =>
        (h.text ++ (other h l).text, latency)) := by
  unfold overrideLatency
  induction links generalizing latencies with
  | nil => rfl
  | cons l links ih =>
      rw [List.foldl_cons, ih]
      by_cases hl : l.1 = h ∨ l.2 = h
      · rw [if_neg (by tauto), List.filter_cons_of_pos (by simpa using hl)]
        rfl
      · rw [if_pos (by tauto), List.filter_cons_of_neg (by simpa using hl)]

/-- INTERNAL: the overrides are written one after the other.
SOURCE: mininet/experiment.py:168-174 -/
theorem overrideLatencies_eq (conf : Manifest) (latencies : Dict Text Value) :
    overrideLatencies conf latencies = latencies.setAll (overrides conf) := by
  unfold overrideLatencies overrides
  induction sorted conf.hosts.keys generalizing latencies with
  | nil => rfl
  | cons h hosts ih =>
      rw [List.foldl_cons, List.flatMap_cons, Dict.setAll_append, ih]
      cases hlatency : conf.hostLatency h with
      | none => rfl
      | some latency =>
          dsimp only
          rw [overrideLatency_eq]
          simp

/-- INTERNAL: an override is for a listed host, on one of its links. -/
theorem mem_overrides {conf : Manifest} {p : Text × Value} :
    p ∈ overrides conf ↔ ∃ h, conf.hostLatency h = some p.2 ∧ ∃ l ∈ conf.pairs,
      (l.1 = h ∨ l.2 = h) ∧ p.1 = h.text ++ (other h l).text := by
  simp only [overrides, List.mem_flatMap, Option.mem_toList, List.mem_map, List.mem_filter,
    decide_eq_true_eq]
  constructor
  · rintro ⟨h, -, latency, hlatency, l, ⟨hl, hon⟩, rfl⟩
    exact ⟨h, hlatency, l, hl, hon, rfl⟩
  · rintro ⟨h, hlatency, l, hl, hon, hp⟩
    obtain ⟨host, hhost, -⟩ := Option.bind_eq_some_iff.mp hlatency
    refine ⟨h, ?_, p.2, hlatency, l, ⟨hl, hon⟩, ?_⟩
    · exact (List.mem_insertionSort _).mpr (Dict.mem_keys_of_get hhost)
    · rw [← hp]

/-- INTERNAL: the node at the other end. -/
theorem other_of_pair {h sw : NodeName} (hne : h ≠ sw) {l : Link} (hl : s(l.1, l.2) = s(h, sw)) :
    (l.1 = h ∨ l.2 = h) ∧ other h l = sw := by
  obtain ⟨x, y⟩ := l
  unfold other
  rcases Sym2.eq_iff.mp hl with ⟨rfl, rfl⟩ | ⟨rfl, rfl⟩
  · exact ⟨Or.inl rfl, if_neg (not_not.mpr rfl)⟩
  · exact ⟨Or.inr rfl, if_pos (Ne.symm hne)⟩

/-- INTERNAL: what is written under the names of a host and a switch on a listed link is the
latency of the host. -/
theorem lastUnder_overrides_host {conf : Manifest} {h sw : NodeName} (hh : h.kind = .host)
    (hsw : sw.kind = .switch) {l : Link} (hl : l ∈ conf.pairs) (hpair : s(l.1, l.2) = s(h, sw)) :
    Dict.lastUnder (h.text ++ sw.text) (overrides conf) = conf.hostLatency h := by
  have hne : h ≠ sw := by
    rintro rfl
    rw [hh] at hsw
    cases hsw
  obtain ⟨hon, hother⟩ := other_of_pair hne hpair
  have hall : ∀ p ∈ overrides conf, p.1 = h.text ++ sw.text → conf.hostLatency h = some p.2 := by
    intro p hp hkey
    obtain ⟨h', hlatency, l', -, -, hp'⟩ := mem_overrides.mp hp
    obtain ⟨rfl, -⟩ := text_append_inj (hp'.symm.trans hkey)
    exact hlatency
  cases hlatency : conf.hostLatency h with
  | none =>
      apply Dict.lastUnder_eq_none
      intro p hp hkey
      rw [hall p hp hkey] at hlatency
      cases hlatency
  | some latency =>
      apply Dict.lastUnder_eq_some
      · exact mem_overrides.mpr ⟨h, hlatency, l, hl, hon, by rw [hother]⟩
      · intro p hp hkey
        rw [hall p hp hkey] at hlatency
        exact Option.some.inj hlatency

/-- INTERNAL: nothing is written under the names of two switches. -/
theorem lastUnder_overrides_switch (conf : Manifest) {a b : NodeName} (ha : a.kind = .switch)
    (hb : b.kind = .switch) :
    Dict.lastUnder (join (sorted [a, b])) (overrides conf) = none := by
  have hhost : ∀ {h : NodeName} {latency : Value}, conf.hostLatency h = some latency →
      h.kind = .host := by
    intro h latency hlatency
    obtain ⟨host, hget, -⟩ := Option.bind_eq_some_iff.mp hlatency
    exact conf.hosts_host h (Dict.mem_keys_of_get hget)
  apply Dict.lastUnder_eq_none
  intro p hp hkey
  obtain ⟨h, hlatency, l, -, -, hp'⟩ := mem_overrides.mp hp
  have hkind := hhost hlatency
  rw [hp', sorted_pair] at hkey
  split at hkey
  · rw [join_pair] at hkey
    rw [(text_append_inj hkey).1, ha] at hkind
    cases hkind
  · rw [join_pair] at hkey
    rw [(text_append_inj hkey).1, hb] at hkind
    cases hkind

/-- INTERNAL: the delay read from the table.
SOURCE: mininet/experiment.py:176-180 -/
theorem get_latencyTable (format : Text → Text) (conf : Manifest) (key : Text) :
    ((latencyTable format conf).get key).getD (bytes "0ms") =
      match (Dict.lastUnder key (overrides conf)).or
        ((linkTable LinkConf.latency conf).get key) with
      | some (.text s) => format s
      | some (.other shown) => shown ++ bytes "ms"
      | none => bytes "0ms" := by
  unfold latencyTable
  rw [Dict.get_mapValues, overrideLatencies_eq, Dict.get_setAll]
  rcases (Dict.lastUnder key (overrides conf)).or
    ((linkTable LinkConf.latency conf).get key) with _ | (s | shown)
  · rfl
  · rfl
  · rfl

/-- INTERNAL: the delay of a listed link between a host and a switch.
SOURCE: mininet/apptopo.py:48-49 -/
theorem delay_hostLink (format : Text → Text) {conf : Manifest} {h sw : NodeName}
    (hh : h.kind = .host) (hsw : sw.kind = .switch) {l : Link} (hl : l ∈ conf.pairs)
    (hpair : s(l.1, l.2) = s(h, sw)) :
    ((latencyTable format conf).get (join [h, sw])).getD (bytes "0ms") =
      configuredDelay format conf h sw := by
  have hon : hostOn h sw = some h := if_pos hh
  unfold configuredDelay
  rw [get_latencyTable, hon, join_pair, lastUnder_overrides_host hh hsw hl hpair,
    ← key_host hh hsw, get_linkTable]
  rfl

/-- INTERNAL: the delay of a link between switches.
SOURCE: mininet/apptopo.py:68-69 -/
theorem delay_switchLink (format : Text → Text) (conf : Manifest) {a b : NodeName}
    (ha : a.kind = .switch) (hb : b.kind = .switch) :
    ((latencyTable format conf).get (join (sorted [a, b]))).getD (bytes "0ms") =
      configuredDelay format conf a b := by
  have hon : hostOn a b = none := by
    unfold hostOn
    rw [if_neg (by simp [ha]), if_neg (by simp [hb])]
  unfold configuredDelay
  rw [get_latencyTable, hon, lastUnder_overrides_switch conf ha hb, get_linkTable]
  rfl

/-! ## The calls -/

/-- INTERNAL: what holds of the ends of every link of a manifest. -/
theorem forall_pairs {conf : Manifest} {P : NodeName → NodeName → Prop}
    (h : ∀ l ∈ conf.links, P l.a l.b) : ∀ l ∈ conf.pairs, P l.1 l.2 := by
  intro l hl
  obtain ⟨l, hmem, rfl⟩ := List.mem_map.mp hl
  exact h l hmem

/-- INTERNAL: a loop none of whose steps fails. -/
theorem mapM_ok {α β ε : Type} {f : α → Except ε β} {g : α → β} {l : List α}
    (h : ∀ x ∈ l, f x = .ok (g x)) : l.mapM f = .ok (l.map g) := by
  induction l with
  | nil => rfl
  | cons x l ih =>
      have hrest := ih fun y hy => h y (List.mem_cons_of_mem x hy)
      rw [List.mapM_cons, h x List.mem_cons_self, hrest]
      rfl

/-- The links of a host. -/
def linksOf (links : List Link) (h : NodeName) : List Link :=
  links.filter fun l => decide (l.1 = h ∨ l.2 = h)

theorem other_pair {links : List Link} {h : NodeName} {l : Link} (hl : l ∈ linksOf links h) :
    s(h, other h l) = s(l.1, l.2) := by
  have hon := of_decide_eq_true (List.mem_filter.mp hl).2
  unfold other
  by_cases hfirst : l.1 = h
  · rw [if_neg (not_not.mpr hfirst), hfirst]
  · rw [if_pos hfirst, hon.resolve_left hfirst, Sym2.eq_swap]

/-- The lines of the ARP file and the arguments of `addLink` for all links of hosts, in order. -/
def hostArgs (links : List Link) (latencies : Dict Text Text) (bws : Dict Text Value) :
    List (Text × LinkArgs) :=
  (hostNames links).flatMap fun h => (linksOf links h).map fun l =>
    hostLinkArgs latencies bws h (other h l)

theorem mem_hostArgs {links : List Link} {latencies : Dict Text Text} {bws : Dict Text Value}
    {p : Text × LinkArgs} : p ∈ hostArgs links latencies bws ↔
      ∃ h ∈ hostNames links, ∃ l ∈ linksOf links h,
        hostLinkArgs latencies bws h (other h l) = p := by
  simp only [hostArgs, List.mem_flatMap, List.mem_map]

/-- What is done for a host whose links all lead to switches. -/
def hostCalls (links : List Link) (latencies : Dict Text Text) (bws : Dict Text Value)
    (h : NodeName) : Text × List Call :=
  let hostLinks := (linksOf links h).map fun l => hostLinkArgs latencies bws h (other h l)
  (hostLinks.flatMap Prod.fst, .addHost h :: hostLinks.map fun l => .addLink l.2)

/-- INTERNAL: no assertion fails for such a host.
SOURCE: mininet/apptopo.py:27-63 -/
theorem addHost_ok (links : List Link) (latencies : Dict Text Text) (bws : Dict Text Value)
    {h : NodeName} (hsw : ∀ l ∈ linksOf links h, (other h l).kind = .switch) :
    addHost links latencies bws h = .ok (hostCalls links latencies bws h) := by
  have hlink : ∀ l ∈ linksOf links h, hostLink latencies bws h l =
      .ok (hostLinkArgs latencies bws h (other h l)) := by
    intro l hl
    unfold hostLink
    simp only [hsw l hl, ne_eq, not_true_eq_false, if_false]
    rfl
  have hloop := mapM_ok hlink
  unfold linksOf at hloop
  unfold addHost
  rw [hloop]
  rfl

theorem addedLinks_map (links : List LinkArgs) : addedLinks (links.map Call.addLink) = links := by
  unfold addedLinks
  rw [List.filterMap_map]
  exact List.filterMap_some

theorem addedLinks_hostCalls (links : List Link) (latencies : Dict Text Text)
    (bws : Dict Text Value) (h : NodeName) :
    addedLinks (hostCalls links latencies bws h).2 =
      (linksOf links h).map fun l => (hostLinkArgs latencies bws h (other h l)).2 := by
  have hlinks := addedLinks_map
    ((linksOf links h).map fun l => (hostLinkArgs latencies bws h (other h l)).2)
  rw [List.map_map] at hlinks
  unfold hostCalls
  dsimp only
  rw [List.map_map]
  exact hlinks

theorem kind_of_mem_hostNames {links : List Link} {h : NodeName} (hh : h ∈ hostNames links) :
    h.kind = .host := by
  have hmem := List.mem_dedup.mp ((List.mem_insertionSort _).mp hh)
  exact of_decide_eq_true (List.mem_filter.mp hmem).2

/-- INTERNAL: where no link joins two hosts, the links of a host lead to switches. -/
theorem other_kind {links : List Link} (hlinks : ∀ l ∈ links, l.1.kind = .switch ∨ l.2.kind = .switch)
    {h : NodeName} (hh : h.kind = .host) {l : Link} (hl : l ∈ linksOf links h) :
    (other h l).kind = .switch := by
  obtain ⟨hmem, hon⟩ := List.mem_filter.mp hl
  have hnot : h.kind ≠ .switch := by simp [hh]
  unfold other
  by_cases hfirst : l.1 = h
  · rw [if_neg (not_not.mpr hfirst)]
    exact (hlinks l hmem).resolve_left (hfirst ▸ hnot)
  · have hsecond : l.2 = h := (of_decide_eq_true hon).resolve_left hfirst
    rw [if_pos hfirst]
    exact (hlinks l hmem).resolve_right (hsecond ▸ hnot)

/-- INTERNAL: the calls of `addLink`, when no link joins two hosts: first those of the hosts, then
those between switches.
SOURCE: mininet/apptopo.py:6-82 -/
theorem appTopo_ok {links : List Link} (hlinks : ∀ l ∈ links, l.1.kind = .switch ∨ l.2.kind = .switch)
    (latencies : Dict Text Text) (bws : Dict Text Value) (logDir : Text) :
    ∃ calls, appTopo links latencies bws logDir =
        .ok ((hostArgs links latencies bws).flatMap Prod.fst, calls) ∧
      addedLinks calls = (hostArgs links latencies bws).map Prod.snd ++
        links.filterMap (switchLink latencies bws) := by
  have hhosts : ∀ h ∈ hostNames links, addHost links latencies bws h =
      .ok (hostCalls links latencies bws h) := fun h hh =>
    addHost_ok links latencies bws fun l hl => other_kind hlinks (kind_of_mem_hostNames hh) hl
  have hrun : appTopo links latencies bws logDir = .ok
      (((hostNames links).map (hostCalls links latencies bws)).flatMap Prod.fst,
        ((swNames links).map fun sw =>
          Call.addSwitch sw (logDir ++ ch '/' :: sw.text ++ bytes ".log")) ++
        ((hostNames links).map (hostCalls links latencies bws)).flatMap Prod.snd ++
        (links.filterMap (switchLink latencies bws)).map .addLink) := by
    unfold appTopo
    rw [mapM_ok hhosts]
    rfl
  have hfile : ((hostNames links).map (hostCalls links latencies bws)).flatMap Prod.fst =
      (hostArgs links latencies bws).flatMap Prod.fst := by
    rw [List.flatMap_map, hostArgs, List.flatMap_assoc]
    rfl
  rw [hfile] at hrun
  refine ⟨_, hrun, ?_⟩
  have hswitches : ∀ names : List NodeName, addedLinks (names.map fun sw =>
      Call.addSwitch sw (logDir ++ ch '/' :: sw.text ++ bytes ".log")) = [] := by
    intro names
    simp [addedLinks, linkArgs, List.filterMap_map]
  have happend : ∀ calls calls', addedLinks (calls ++ calls') = addedLinks calls ++ addedLinks calls' :=
    fun calls calls' => List.filterMap_append
  rw [happend, happend, hswitches, List.nil_append, addedLinks_map, List.flatMap_map]
  congr 1
  unfold addedLinks hostArgs
  rw [List.filterMap_flatMap, List.map_flatMap]
  apply List.flatMap_congr
  intro h _
  rw [List.map_map]
  exact addedLinks_hostCalls links latencies bws h

/-! ## Every link gets its own values -/

/-- The host of a link. -/
def hostOf (l : Link) : Option NodeName := hostOn l.1 l.2

/-- INTERNAL: the elements with one key after those with another are the elements with any of the
keys. -/
theorem flatMap_filter_perm {α κ : Type} [DecidableEq κ] (f : α → Option κ) (l : List α)
    {ks : List κ} (hks : ks.Nodup) :
    (ks.flatMap fun k => l.filter fun x => decide (f x = some k)).Perm
      (l.filter fun x => decide (∃ k ∈ ks, f x = some k)) := by
  induction ks with
  | nil => simp
  | cons k ks ih =>
      obtain ⟨hk, hks⟩ := List.nodup_cons.mp hks
      have hsplit := List.filter_append_perm (fun x => decide (f x = some k))
        (l.filter fun x => decide (∃ k' ∈ k :: ks, f x = some k'))
      have hfirst : ∀ x, (decide (f x = some k) && decide (∃ k' ∈ k :: ks, f x = some k')) =
          decide (f x = some k) := by
        intro x
        by_cases hx : f x = some k <;> simp [hx]
      have hrest : ∀ x, ((!decide (f x = some k)) && decide (∃ k' ∈ k :: ks, f x = some k')) =
          decide (∃ k' ∈ ks, f x = some k') := by
        intro x
        by_cases hx : f x = some k
        · simp [hx, hk]
        · simp [hx]
      simp only [List.filter_filter, hfirst, hrest] at hsplit
      exact (List.Perm.append_left _ (ih hks)).trans hsplit

theorem hostOn_eq_none {a b : NodeName} :
    hostOn a b = none ↔ a.kind = .switch ∧ b.kind = .switch := by
  unfold hostOn
  cases a.kind <;> cases b.kind <;> simp

theorem hostOn_eq_some {a b h : NodeName} (hon : hostOn a b = some h) :
    h.kind = .host ∧ (a = h ∨ b = h) := by
  unfold hostOn at hon
  split at hon
  · rename_i ha
    cases hon
    exact ⟨ha, Or.inl rfl⟩
  · split at hon
    · rename_i hb
      cases hon
      exact ⟨hb, Or.inr rfl⟩
    · cases hon

/-- INTERNAL: where no link joins two hosts, the links of a host are those that have it. -/
theorem linksOf_eq {links : List Link} (hlinks : ∀ l ∈ links, l.1.kind = .switch ∨ l.2.kind = .switch)
    {h : NodeName} (hh : h.kind = .host) :
    linksOf links h = links.filter fun l => decide (hostOf l = some h) := by
  apply List.filter_congr
  intro l hl
  apply decide_eq_decide.mpr
  have hnot : h.kind ≠ .switch := by simp [hh]
  constructor
  · unfold hostOf hostOn
    rintro (rfl | rfl)
    · rw [if_pos hh]
    · have hfirst := (hlinks l hl).resolve_right hnot
      rw [if_neg (by simp [hfirst]), if_pos hh]
  · intro hhost
    exact (hostOn_eq_some hhost).2

/-- INTERNAL: the host of a link is one of the names. -/
theorem hostOf_mem_hostNames {links : List Link} {l : Link} (hl : l ∈ links) :
    (∃ h ∈ hostNames links, hostOf l = some h) ↔ (hostOf l).isSome = true := by
  constructor
  · rintro ⟨h, -, hhost⟩
    rw [hhost]
    rfl
  · intro hsome
    obtain ⟨h, hhost⟩ := Option.isSome_iff_exists.mp hsome
    obtain ⟨hkind, hend⟩ := hostOn_eq_some hhost
    have hnode : h ∈ links.map Prod.fst ++ links.map Prod.snd := by
      rcases hend with rfl | rfl
      · exact List.mem_append_left _ (List.mem_map_of_mem hl)
      · exact List.mem_append_right _ (List.mem_map_of_mem hl)
    refine ⟨h, ?_, hhost⟩
    rw [hostNames, sorted, List.mem_insertionSort, List.mem_dedup, List.mem_filter]
    exact ⟨hnode, decide_eq_true hkind⟩

/-- INTERNAL: the links between switches are those without a host. -/
theorem pairs_switchLinks (links : List Link) (latencies : Dict Text Text) (bws : Dict Text Value) :
    ((links.filterMap (switchLink latencies bws)).map fun c => s(c.node1, c.node2)) =
      (links.filter fun l => !(hostOf l).isSome).map fun l => s(l.1, l.2) := by
  induction links with
  | nil => rfl
  | cons l links ih =>
      cases hhost : hostOf l with
      | none =>
          obtain ⟨hfirst, hsecond⟩ := hostOn_eq_none.mp hhost
          have hsome : switchLink latencies bws l = some _ := if_neg (by simp [hfirst, hsecond])
          rw [List.filterMap_cons_some hsome, List.filter_cons_of_pos (by simp [hhost]),
            List.map_cons, List.map_cons, ih]
      | some h =>
          have hnone : switchLink latencies bws l = none := by
            apply if_pos
            by_contra hboth
            rw [not_or, not_not, not_not, ← hostOn_eq_none] at hboth
            exact absurd (hhost.symm.trans hboth) (Option.some_ne_none h)
          rw [List.filterMap_cons_none hnone, List.filter_cons_of_neg (by simp [hhost]), ih]

/-- INTERNAL: **the calls are for the listed links**, one for each.
SOURCE: mininet/apptopo.py:27-73 -/
theorem pairs_perm {links : List Link} (hlinks : ∀ l ∈ links, l.1.kind = .switch ∨ l.2.kind = .switch)
    (latencies : Dict Text Text) (bws : Dict Text Value) :
    (((hostArgs links latencies bws).map Prod.snd ++
        links.filterMap (switchLink latencies bws)).map fun c => s(c.node1, c.node2)).Perm
      (links.map fun l => s(l.1, l.2)) := by
  have hhosts : (((hostArgs links latencies bws).map Prod.snd).map fun c => s(c.node1, c.node2)) =
      (((hostNames links).flatMap fun h => links.filter fun l => decide (hostOf l = some h)).map
        fun l => s(l.1, l.2)) := by
    rw [List.map_map, hostArgs, List.map_flatMap, List.map_flatMap]
    apply List.flatMap_congr
    intro h hh
    rw [List.map_map, ← linksOf_eq hlinks (kind_of_mem_hostNames hh)]
    exact List.map_congr_left fun l hl => other_pair hl
  have hnodup : (hostNames links).Nodup :=
    (List.perm_insertionSort _ _).nodup_iff.mpr (List.nodup_dedup _)
  have hany : (links.filter fun l => decide (∃ h ∈ hostNames links, hostOf l = some h)) =
      links.filter fun l => (hostOf l).isSome := by
    apply List.filter_congr
    intro l hl
    rw [Bool.eq_iff_iff, decide_eq_true_iff]
    exact hostOf_mem_hostNames hl
  have hperm := flatMap_filter_perm hostOf links hnodup
  rw [hany] at hperm
  rw [List.map_append, hhosts, pairs_switchLinks, ← List.map_append]
  exact ((hperm.append_right _).trans (List.filter_append_perm _ links)).map _

/-- **Every link of the manifest gets its own delay and bandwidth.**  `AppTopo` calls `addLink`
once for every listed link, with the formatted latency of the host on the link, or else the last
one listed for this pair of nodes, or else `0ms`, and with the last bandwidth listed for the pair.
SOURCE: mininet/experiment.py:158-183, mininet/apptopo.py:6-82 -/
theorem links_configured (format : Text → Text) (conf : Manifest)
    (hlinks : ∀ l ∈ conf.links, l.a.kind = .switch ∨ l.b.kind = .switch) :
    ∃ arpFile calls, buildTopo format conf = .ok (arpFile, calls) ∧
      ((addedLinks calls).map fun c => s(c.node1, c.node2)).Perm
        (conf.links.map fun l => s(l.a, l.b)) ∧
      ∀ c ∈ addedLinks calls, c.delay = configuredDelay format conf c.node1 c.node2 ∧
        c.bw = lastGiven LinkConf.bandwidth conf s(c.node1, c.node2) := by
  have hpairs := forall_pairs (P := fun a b => a.kind = .switch ∨ b.kind = .switch) hlinks
  obtain ⟨calls, hrun, hadded⟩ := appTopo_ok hpairs (latencyTable format conf)
    (bandwidthTable conf) (bytes "/tmp")
  refine ⟨_, calls, hrun, ?_, ?_⟩
  · have hperm := pairs_perm hpairs (latencyTable format conf) (bandwidthTable conf)
    rw [← hadded, Manifest.pairs, List.map_map] at hperm
    exact hperm
  · intro c hc
    rw [hadded] at hc
    rcases List.mem_append.mp hc with hc | hc
    · obtain ⟨p, hp, rfl⟩ := List.mem_map.mp hc
      obtain ⟨h, hh, l, hl, rfl⟩ := mem_hostArgs.mp hp
      have hkind := kind_of_mem_hostNames hh
      have hsw := other_kind hpairs hkind hl
      refine ⟨delay_hostLink format hkind hsw (List.mem_of_mem_filter hl) (other_pair hl).symm, ?_⟩
      show (bandwidthTable conf).get (join [h, other h l]) = _
      rw [join_pair, ← key_host hkind hsw]
      exact get_linkTable LinkConf.bandwidth conf h (other h l)
    · obtain ⟨l, -, hc⟩ := List.mem_filterMap.mp hc
      unfold switchLink at hc
      split at hc
      · cases hc
      · rename_i hboth
        rw [not_or, not_not, not_not] at hboth
        cases hc
        exact ⟨delay_switchLink format conf hboth.1 hboth.2,
          get_linkTable LinkConf.bandwidth conf l.1 l.2⟩

/-- The switch of a number. -/
def switchNamed (n : ℕ) : NodeName := ⟨.switch, decimal n, decimal_ne_nil n, fun _ => isDigit_of_mem_decimal⟩

/-- The host of a number. -/
def hostNamed (n : ℕ) : NodeName := ⟨.host, decimal n, decimal_ne_nil n, fun _ => isDigit_of_mem_decimal⟩

/-- Two links between switches whose names differ only in where one ends, and a host with a latency
of its own on a link that lists another. -/
def threeLinks : Manifest where
  links := [⟨switchNamed 1, switchNamed 12, [.text (bytes "5ms"), .other (bytes "10")]⟩,
    ⟨switchNamed 11, switchNamed 2, [.text (bytes "7ms")]⟩,
    ⟨switchNamed 2, hostNamed 1, [.text (bytes "9ms")]⟩]
  hosts := Dict.ofPairs [(hostNamed 1, ⟨some (.other (bytes "3"))⟩)]
  hosts_host := by decide +kernel

/-- The three links of `threeLinks`, each with its own values. -/
theorem links_configured_threeLinks :
    ∃ arpFile calls, buildTopo id threeLinks = .ok (arpFile, calls) ∧
      ∀ c ∈ addedLinks calls,
        (c.node1 = hostNamed 1 → c.node2 = switchNamed 2 → c.delay = bytes "3ms" ∧ c.bw = none) ∧
        (c.node1 = switchNamed 1 → c.node2 = switchNamed 12 →
          c.delay = bytes "5ms" ∧ c.bw = some (.other (bytes "10"))) ∧
        (c.node1 = switchNamed 11 → c.node2 = switchNamed 2 →
          c.delay = bytes "7ms" ∧ c.bw = none) := by
  obtain ⟨arpFile, calls, hrun, -, hvalues⟩ := links_configured id threeLinks (by decide +kernel)
  refine ⟨arpFile, calls, hrun, fun c hc => ?_⟩
  obtain ⟨hdelay, hbw⟩ := hvalues c hc
  rw [hdelay, hbw]
  refine ⟨?_, ?_, ?_⟩
  · intro h1 h2
    rw [h1, h2]
    decide +kernel
  · intro h1 h2
    rw [h1, h2]
    decide +kernel
  · intro h1 h2
    rw [h1, h2]
    decide +kernel

end VtRouter.Analysis
