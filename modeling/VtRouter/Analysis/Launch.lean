import VtRouter.Model.Launch
import VtRouter.Model.System

/-!
# The interfaces a router opens

The names of the interfaces are made twice, by mininet and by the router, and the router is told
no more than the name of its switch and their number.  `launch_iff` says when the two agree: as
long as the name fits in a name of an interface, the path of the route file in its buffer, and
the interfaces in their array.
-/

set_option autoImplicit false

namespace VtRouter.Analysis

open Library VtRouter.Model Topology Launch

/-! ## The arguments -/

/-- A text that the shell leaves alone. -/
def Plain (s : Text) : Prop := ∀ c ∈ s, isPlain c = true

instance (s : Text) : Decidable (Plain s) := inferInstanceAs (Decidable (∀ c ∈ s, _))

theorem Plain.append {s t : Text} (hs : Plain s) (ht : Plain t) : Plain (s ++ t) :=
  List.forall_mem_append.mpr ⟨hs, ht⟩

/-- INTERNAL: such a text is one word. -/
theorem Plain.noBlank {s : Text} (hs : Plain s) : ch ' ' ∉ s := by
  intro h
  exact absurd (hs _ h) (by decide)

theorem Plain.noNul {s : Text} (hs : Plain s) : 0 ∉ s := by
  intro h
  exact absurd (hs _ h) (by decide)

theorem isPlain_of_isDigit {c : UInt8} (h : isDigit c = true) : isPlain c = true := by
  simp [isPlain, h]

theorem plain_decimal (n : ℕ) : Plain (decimal n) :=
  fun _ hc => isPlain_of_isDigit (isDigit_of_mem_decimal hc)

/-- The name of a node is a word. -/
theorem plain_text (sw : NodeName) : Plain sw.text := by
  intro c hc
  rcases List.mem_cons.mp hc with rfl | hc
  · cases sw.kind <;> decide
  · exact isPlain_of_isDigit (sw.digits_ok c hc)

/-- INTERNAL: a word in front of a blank is cut off. -/
theorem shellWords_cons {w : Text} (hw : Plain w) (hne : w ≠ []) (rest : Text) :
    words (fun c => decide (c = ch ' ')) (w ++ ch ' ' :: rest) =
      w :: words (fun c => decide (c = ch ' ')) rest := by
  rw [words_append_cons w rest (by simp), words_of_noSep hne]
  · rfl
  · intro c hc
    simp only [decide_eq_false_iff_not]
    rintro rfl
    exact hw.noBlank hc

theorem shellWords_single {w : Text} (hw : Plain w) (hne : w ≠ []) :
    words (fun c => decide (c = ch ' ')) w = [w] := by
  apply words_of_noSep hne
  intro c hc
  simp only [decide_eq_false_iff_not]
  rintro rfl
  exact hw.noBlank hc

theorem plain_routesFilePath {vtMechDir : Text} (hdir : Plain vtMechDir) (sw : NodeName) :
    Plain (routesFilePath vtMechDir sw.text) := by
  refine ((hdir.append ?_).append (plain_text sw)).append ?_
  · decide +kernel
  · decide +kernel

/-- INTERNAL: the program stands in front, as a word of its own.
SOURCE: mininet/VT_mininet.py:79-84 -/
theorem execPath_eq {vtMechDir : Text} (hdir : Plain vtMechDir) (appVt : Bool) :
    ∃ prog, Plain prog ∧ prog ≠ [] ∧ execPath vtMechDir appVt = prog ++ [ch ' '] := by
  cases appVt with
  | true =>
      refine ⟨vtMechDir ++ bytes "src/routing/router_app_vt", hdir.append (by decide +kernel),
        by simp [bytes], ?_⟩
      have hprog : bytes "src/routing/router_app_vt " =
          bytes "src/routing/router_app_vt" ++ [ch ' '] := by decide +kernel
      simp [execPath, hprog]
  | false =>
      refine ⟨vtMechDir ++ bytes "src/routing/router_n", hdir.append (by decide +kernel),
        by simp [bytes], ?_⟩
      have hprog : bytes "src/routing/router_n " =
          bytes "src/routing/router_n" ++ [ch ' '] := by decide +kernel
      simp [execPath, hprog]

/-- INTERNAL: the shell cuts a plain text in front of a blank off, and goes on behind it. -/
theorem shellArgs_words {prog : Text} (hprog : Plain prog) (hne : prog ≠ []) {args : List Text}
    (hargs : ∀ arg ∈ args, Plain arg ∧ arg ≠ []) :
    shellArgs (prog ++ args.flatMap fun arg => ch ' ' :: arg) = some args := by
  have hall : (prog ++ args.flatMap fun arg => ch ' ' :: arg).all
      (fun c => decide (c = ch ' ') || isPlain c) = true := by
    rw [List.all_eq_true]
    intro c hc
    rw [Bool.or_eq_true, decide_eq_true_eq]
    rcases List.mem_append.mp hc with hc | hc
    · exact Or.inr (hprog c hc)
    · obtain ⟨arg, harg, hc⟩ := List.mem_flatMap.mp hc
      exact (List.mem_cons.mp hc).imp_right ((hargs arg harg).1 c)
  have hwords : ∀ (w : Text) (args : List Text), Plain w → w ≠ [] →
      (∀ arg ∈ args, Plain arg ∧ arg ≠ []) →
      words (fun c => decide (c = ch ' ')) (w ++ args.flatMap fun arg => ch ' ' :: arg) =
        w :: args := by
    intro w args hw hwne hargs
    induction args generalizing w with
    | nil => rw [List.flatMap_nil, List.append_nil, shellWords_single hw hwne]
    | cons arg args ih =>
        obtain ⟨⟨harg, hargne⟩, hrest⟩ := List.forall_mem_cons.mp hargs
        rw [List.flatMap_cons, List.cons_append, shellWords_cons hw hwne,
          ih arg harg hargne hrest]
  rw [shellArgs, if_pos hall, hwords prog args hprog hne hargs]
  rfl

/-- INTERNAL: **the shell gives the router what the switch has written.**
SOURCE: mininet/VT_mininet.py:104-123 -/
theorem shellArgs_startCommand {vtMechDir : Text} (hdir : Plain vtMechDir) (appVt : Bool)
    (sw : NodeName) (intfs : List Intf) :
    shellArgs (startCommand vtMechDir appVt sw.text intfs) =
      some [bytes "-i", sw.text, bytes "-n", decimal (dataIntfs intfs), bytes "-f",
        routesFilePath vtMechDir sw.text] := by
  obtain ⟨prog, hprog, hprogne, hexec⟩ := execPath_eq hdir appVt
  have hi : bytes "-i " = bytes "-i" ++ [ch ' '] := by decide +kernel
  have hn : bytes " -n " = ch ' ' :: (bytes "-n" ++ [ch ' ']) := by decide +kernel
  have hf : bytes " -f " = ch ' ' :: (bytes "-f" ++ [ch ' ']) := by decide +kernel
  have hcommand : startCommand vtMechDir appVt sw.text intfs =
      prog ++ [bytes "-i", sw.text, bytes "-n", decimal (dataIntfs intfs), bytes "-f",
        routesFilePath vtMechDir sw.text].flatMap fun arg => ch ' ' :: arg := by
    simp [startCommand, hexec, hi, hn, hf]
  rw [hcommand]
  apply shellArgs_words hprog hprogne
  simp only [List.forall_mem_cons, List.not_mem_nil, false_implies, implies_true, and_true]
  refine ⟨⟨by decide +kernel, by decide +kernel⟩, ⟨plain_text sw, by simp [NodeName.text]⟩,
    ⟨by decide +kernel, by decide +kernel⟩, ⟨plain_decimal _, decimal_ne_nil _⟩,
    ⟨by decide +kernel, by decide +kernel⟩, plain_routesFilePath hdir sw, ?_⟩
  simp [routesFilePath, bytes]

/-! ## The program -/

/-- INTERNAL: the buffers behind the options.
SOURCE: router_n.c:52-79, router_app_vt.c:279-308 -/
theorem optionLoop_args {name path : Text} (hname : Plain name) (hpath : Plain path) (n : ℕ) :
    optionLoop [bytes "-i", name, bytes "-n", decimal n, bytes "-f", path] .init [] =
      .ok (⟨name.take 15 ++ List.replicate (16 - (name.take 15).length) 0, n,
        some (path.take pathSize ++ List.replicate (pathSize - (path.take pathSize).length) 0)⟩,
          []) := by
  have hbefore : ∀ {s : Text} {k : ℕ}, Plain s → ((s ++ [0]).take k).takeWhile (· ≠ 0) = s.take k := by
    intro s k hs
    rcases Nat.lt_or_ge s.length k with hk | hk
    · have hall : (s ++ [0]).take k = s ++ [0] := List.take_of_length_le (by simp; omega)
      rw [hall, List.take_of_length_le (by omega)]
      exact congrArg CString.toList (CString.ofBytes_append ⟨s, hs.noNul⟩ [])
    · rw [List.take_append_of_le_length hk]
      apply List.takeWhile_eq_self_iff.mpr
      intro c hc
      simp only [decide_eq_true_eq]
      rintro rfl
      exact hs.noNul (List.mem_of_mem_take hc)
  have hi : bytes "-i" = [ch '-', ch 'i'] := by decide +kernel
  have hn : bytes "-n" = [ch '-', ch 'n'] := by decide +kernel
  have hf : bytes "-f" = [ch '-', ch 'f'] := by decide +kernel
  have hcopyName : copyArg (List.replicate ifNamSiz 0) (ifNamSiz - 1) name =
      .ok (name.take 15 ++ List.replicate (16 - (name.take 15).length) 0) := by
    have hlen : (name.take 15).length ≤ 15 := by simp
    have hlast : (List.replicate 16 (0 : UInt8)).drop 15 = [0] := rfl
    simp only [copyArg, strncpy, ifNamSiz, List.length_replicate, hbefore hname, hlast]
    have hpad : List.replicate (15 - (name.take 15).length) (0 : UInt8) ++ [0] =
        List.replicate (16 - (name.take 15).length) 0 := by
      rw [← List.replicate_succ', show 15 - (name.take 15).length + 1 =
        16 - (name.take 15).length by omega]
    rw [if_pos (by omega), List.append_assoc, hpad]
    rfl
  have hcopyPath : copyArg (List.replicate pathSize 0) pathSize path =
      .ok (path.take pathSize ++ List.replicate (pathSize - (path.take pathSize).length) 0) := by
    simp only [copyArg, strncpy, List.length_replicate, hbefore hpath, le_refl, if_true,
      List.drop_replicate, Nat.sub_self, List.replicate_zero, List.append_nil]
    rfl
  have hdash : ∀ c, c = ch 'i' ∨ c = ch 'n' ∨ c = ch 'f' → c ≠ ch '-' := by
    rintro c (rfl | rfl | rfl) <;> decide
  have hni : ch 'n' ≠ ch 'i' := by decide
  have hfi : ch 'f' ≠ ch 'i' := by decide
  have hfn : ch 'f' ≠ ch 'n' := by decide
  rw [hi, hn, hf]
  simp only [optionLoop, ne_eq, not_true_eq_false, if_false, and_true, setOption, if_true, hni,
    hfi, hfn, hdash _ (Or.inl rfl), hdash _ (Or.inr (Or.inl rfl)), hdash _ (Or.inr (Or.inr rfl)),
    Options.init, hcopyName, hcopyPath, atoi_decimal]
  rfl

/-- INTERNAL: a string in a buffer that is filled up with NUL bytes. -/
theorem bufferText_padded {s : Text} (hs : 0 ∉ s) (k : ℕ) :
    bufferText (s ++ List.replicate k 0) = if k = 0 then .error .outOfBounds else .ok s := by
  cases k with
  | zero => simp [bufferText, hs]
  | succ k =>
      have hzero : 0 ∈ s ++ List.replicate (k + 1) 0 := by simp
      rw [bufferText, if_pos hzero, if_neg (Nat.succ_ne_zero k), List.replicate_succ]
      exact congrArg Except.ok (congrArg CString.toList (CString.ofBytes_append ⟨s, hs⟩ _))

/-- INTERNAL: one round of the loop that names the interfaces.
SOURCE: router_n.c:103-113, router_app_vt.c:332-341 -/
theorem nameLoop_succ {name : Text} (hname : 0 ∉ name) (hlen : name.length ≤ 15) {n i start : ℕ}
    (hstart : start ≤ 101) (hi : i < nMaxTaps) (acc : List CString) :
    ∃ s : CString, s.toList = intfName name start ∧
      nameLoop name (n + 1) i start acc = nameLoop name n (i + 1) (start + 1) (acc ++ [s]) := by
  have hnul : 0 ∉ intfName name start := by
    have heth : 0 ∉ bytes "-eth" := by decide +kernel
    simp [intfName, hname, heth, noNul_decimal]
  have hdecimal : (decimal start).length ≤ 3 := by
    rw [decimal, List.length_map, Nat.length_toDigits_le_iff (by norm_num) (by norm_num)]
    omega
  have hfits : (intfName name start).length < ifNameSize := by
    have heth : (bytes "-eth").length = 4 := by decide +kernel
    simp only [intfName, List.length_append, heth, ifNameSize]
    omega
  have hcopy := strcpy_eq ⟨intfName name start, hnul⟩ hfits []
  refine ⟨⟨intfName name start, hnul⟩, rfl, ?_⟩
  simp only [nameLoop, if_neg (Nat.not_le.mpr hi), hcopy]
  rfl

/-- INTERNAL: **the loop names all interfaces** as long as they fit in the array. -/
theorem nameLoop_fits {name : Text} (hname : 0 ∉ name) (hlen : name.length ≤ 15) (n : ℕ)
    {i start : ℕ} (hstart : start ≤ i + 1) (hfits : i + n ≤ nMaxTaps) (acc : List CString) :
    ∃ names, nameLoop name n i start acc = .ok (acc ++ names) ∧
      names.map CString.toList = (List.range n).map fun k => intfName name (start + k) := by
  induction n generalizing i start acc with
  | zero => exact ⟨[], by simp [nameLoop], rfl⟩
  | succ n ih =>
      have hi : i < nMaxTaps := by omega
      obtain ⟨s, hs, hstep⟩ := nameLoop_succ (n := n) hname hlen
        (show start ≤ 101 by unfold nMaxTaps at hi; omega) hi acc
      have hstart' : start + 1 ≤ i + 1 + 1 := by omega
      obtain ⟨names, hnames, htexts⟩ := ih hstart' (by omega) (acc ++ [s])
      refine ⟨s :: names, by simpa [hstep] using hnames, ?_⟩
      rw [List.map_cons, htexts, hs, List.range_succ_eq_map, List.map_cons, List.map_map]
      simp [Function.comp_def, Nat.add_assoc, Nat.add_comm 1]

/-- INTERNAL: it runs past the end of the array if they do not.
SOURCE: router_n.c:103-113, router_app_vt.c:332-341 -/
theorem nameLoop_overruns {name : Text} (hname : 0 ∉ name) (hlen : name.length ≤ 15) (n : ℕ)
    {i start : ℕ} (hstart : start ≤ i + 1) (hi : i ≤ nMaxTaps) (hover : nMaxTaps < i + n)
    (acc : List CString) : nameLoop name n i start acc = .error .outOfBounds := by
  induction n generalizing i start acc with
  | zero => omega
  | succ n ih =>
      rcases Nat.lt_or_ge i nMaxTaps with hlt | hge
      · obtain ⟨s, -, hstep⟩ := nameLoop_succ (n := n) hname hlen
          (show start ≤ 101 by unfold nMaxTaps at hlt; omega) hlt acc
        rw [hstep]
        exact ih (by omega) (by omega) (by omega) _
      · simp only [nameLoop, if_pos hge]
        rfl

/-- INTERNAL: `main` behind the options.
SOURCE: router_n.c:78-124, router_app_vt.c:307-353 -/
theorem routerMain_args {sw : NodeName} (hsw : sw.kind = .switch) {path : Text}
    (hpath : Plain path) (n : ℕ) :
    routerMain [bytes "-i", sw.text, bytes "-n", decimal n, bytes "-f", path] =
      if n = 0 then .error (.usage .noInterfaces)
      else match nameLoop (sw.text.take 15) n 0 1 [] with
        | .error e => .error (.fault e)
        | .ok names =>
            if path.length < pathSize then .ok (names, path) else .error (.fault .outOfBounds) := by
  have hnul : 0 ∉ sw.text.take 15 := fun h => (plain_text sw).noNul (List.mem_of_mem_take h)
  have hname : bufferText (sw.text.take 15 ++
      List.replicate (16 - (sw.text.take 15).length) 0) = .ok (sw.text.take 15) := by
    rw [bufferText_padded hnul, if_neg (by simp; omega)]
  have hne : sw.text.take 15 ≠ [] := by simp [NodeName.text]
  have hhead : (sw.text.take 15).head? ≠ some (ch 'h') := by
    simp only [NodeName.text, List.take_succ_cons, List.head?_cons, hsw]
    decide
  have hpathText : bufferText (path.take pathSize ++
      List.replicate (pathSize - (path.take pathSize).length) 0) =
        if path.length < pathSize then .ok path else .error .outOfBounds := by
    have hlen : (path.take pathSize).length = min pathSize path.length := List.length_take
    rw [bufferText_padded fun h => hpath.noNul (List.mem_of_mem_take h), hlen]
    rcases Nat.lt_or_ge path.length pathSize with hlt | hge
    · rw [if_pos hlt, if_neg (by omega), List.take_of_length_le (by omega)]
    · rw [if_neg (Nat.not_lt.mpr hge), if_pos (by omega)]
  have hn : ((n : ℤ) ≤ 0) = (n = 0) := propext (by omega)
  unfold routerMain
  rw [optionLoop_args (plain_text sw) hpath n]
  simp only [bind, Except.bind, hname, hpathText, hne, hhead, hn, Int.toNat_natCast,
    Except.mapError, ne_eq, not_true_eq_false, if_false, Option.getD_some]
  by_cases hzero : n = 0
  · simp only [hzero, if_true]
    rfl
  · simp only [hzero, if_false]
    cases nameLoop (sw.text.take 15) n 0 1 [] with
    | error e => rfl
    | ok names =>
        by_cases hlt : path.length < pathSize
        · simp only [hlt, if_true]
          rfl
        · simp only [hlt, if_false]

/-! ## Both together -/

/-- The interfaces of the links of a switch: those without an address. -/
def linkIntfs (intfs : List Intf) : List Intf := intfs.filter fun intf => intf.ip.isNone

/-- How mininet names the interfaces of a switch, in the order of its links: with the name of
the switch, and numbered from `1` on. -/
def NamedInOrder (sw : NodeName) (intfs : List Intf) : Prop :=
  (linkIntfs intfs).map Intf.name =
    (List.range (linkIntfs intfs).length).map fun k => sw.text ++ bytes "-eth" ++ decimal (k + 1)

/-- **A router opens exactly the interfaces of its switch, in the order of its links, and reads
exactly its route file** when the switch has at most `N_MAX_TAPS` links and at least one, its name
fits in the name of an interface, and the path in its buffer.  In every other case it does not.
The directory is one whose characters the shell leaves alone, and `hnames` is what mininet
promises of the names.
SOURCE: mininet/VT_mininet.py:104-123, router_n.c:52-124, router_app_vt.c:279-353 -/
theorem launch_iff (vtMechDir : Text) (hdir : Plain vtMechDir) (appVt : Bool) (sw : NodeName)
    (hsw : sw.kind = .switch) (intfs : List Intf) (hnames : NamedInOrder sw intfs) :
    (∃ args names, shellArgs (startCommand vtMechDir appVt sw.text intfs) = some args ∧
      routerMain args = .ok (names, routesFilePath vtMechDir sw.text) ∧
      names.map CString.toList = (linkIntfs intfs).map Intf.name) ↔
    1 ≤ (linkIntfs intfs).length ∧ (linkIntfs intfs).length ≤ nMaxTaps ∧
      sw.text.length < ifNamSiz ∧ (routesFilePath vtMechDir sw.text).length < pathSize := by
  have hcount : dataIntfs intfs = (linkIntfs intfs).length := List.countP_eq_length_filter
  unfold NamedInOrder at hnames
  rw [shellArgs_startCommand hdir, hnames, hcount]
  generalize (linkIntfs intfs).length = n
  simp only [Option.some.injEq, exists_and_left, exists_eq_left',
    routerMain_args hsw (plain_routesFilePath hdir sw)]
  have hnul : 0 ∉ sw.text.take 15 := fun h => (plain_text sw).noNul (List.mem_of_mem_take h)
  have hlen : (sw.text.take 15).length ≤ 15 := by simp
  by_cases hzero : n = 0
  · simp [hzero]
  rw [if_neg hzero]
  rcases Nat.lt_or_ge nMaxTaps n with hover | hfits
  · rw [nameLoop_overruns hnul hlen n (by omega) (by omega) (by omega)]
    constructor
    · rintro ⟨names, h, -⟩
      cases h
    · omega
  obtain ⟨names, hrun, htexts⟩ := nameLoop_fits hnul hlen n (Nat.le_refl 1)
    (by omega) []
  rw [hrun, List.nil_append]
  by_cases hlt : (routesFilePath vtMechDir sw.text).length < pathSize
  · simp only [hlt, if_true]
    constructor
    · rintro ⟨names', h, htexts'⟩
      cases h
      refine ⟨by omega, hfits, ?_, trivial⟩
      -- The first name would otherwise be shorter than the one mininet has given.
      rw [htexts] at htexts'
      have hfirst := congrArg List.head? htexts'
      obtain ⟨m, rfl⟩ : ∃ m, n = m + 1 := ⟨n - 1, by omega⟩
      simp only [List.range_succ_eq_map, List.map_cons, List.head?_cons, Option.some.injEq,
        intfName, List.append_cancel_right_eq] at hfirst
      have hlength := congrArg List.length hfirst
      simp only [List.length_take] at hlength
      unfold ifNamSiz
      omega
    · rintro ⟨-, -, hname, -⟩
      refine ⟨names, rfl, ?_⟩
      rw [htexts, List.take_of_length_le (by unfold ifNamSiz at hname; omega)]
      apply List.map_congr_left
      intro k _
      rw [intfName, Nat.add_comm]
  · constructor
    · rintro ⟨names', h, -⟩
      simp only [hlt, if_false] at h
      cases h
    · rintro ⟨-, -, -, h⟩
      exact absurd h hlt

/-- A node with a one-digit number. -/
def node (kind : NodeKind) (digit : Fin 10) : NodeName where
  kind := kind
  digits := decimal digit
  digits_ne := decimal_ne_nil _
  digits_ok := fun _ => isDigit_of_mem_decimal

/-- The interfaces of the first switch with two links, behind the loopback interface. -/
def s1Intfs : List Intf :=
  [⟨bytes "lo", some (bytes "127.0.0.1")⟩, ⟨bytes "s1-eth1", none⟩, ⟨bytes "s1-eth2", none⟩]

/-- They are opened, in a directory of its own. -/
theorem launch_iff_s1 :
    ∃ args names, shellArgs (startCommand (bytes "/vt/") true (node .switch 1).text s1Intfs) =
        some args ∧
      routerMain args = .ok (names, routesFilePath (bytes "/vt/") (node .switch 1).text) ∧
      names.map CString.toList = [bytes "s1-eth1", bytes "s1-eth2"] :=
  (launch_iff (bytes "/vt/") (by decide +kernel) true (node .switch 1) rfl s1Intfs
    (by unfold NamedInOrder; decide +kernel)).mpr (by decide +kernel)

end VtRouter.Analysis
