import VtRouter.Library.CText

/-!
# The routing table

`populateRoutingList` reads a route file line by line, cuts each line into its first and
its last column in a buffer of `BUFSIZE` bytes, and appends an entry to the routing list;
`getDstSockIdx` looks the destination of a frame up in it.  The two forwarding loops, of the
router and of its virtual-time variant, are started with the list.

Accesses to the buffer and copies into the two arrays of an entry are checked.  What
`getline` leaves in its line buffer behind the terminating NUL (the tail of an earlier,
longer line, or bytes of a fresh allocation) is a parameter: `tails k` are the bytes behind
the `k`-th line, so the capacity `getline` reports there is the length of all of it.
-/

set_option autoImplicit false

namespace VtRouter.Model

open Library

/-- SOURCE: includes.h:27 -/
def bufSize : ℕ := 2000

/-- SOURCE: includes.h:36 -/
def ipAddrSize : ℕ := 20

/-- SOURCE: includes.h:34 -/
def ifNameSize : ℕ := 100

/-- An entry of the routing list; both texts fit in their arrays.
SOURCE: includes.h:53-57 -/
structure RoutingEntry where
  ipAddress : CString
  outputIf : CString
  ipFits : ipAddress.toList.length < ipAddrSize
  ifFits : outputIf.toList.length < ifNameSize
  deriving DecidableEq

/-- The lines of a file as `getline` delivers them, each with its newline. -/
def getlines : List UInt8 → List (List UInt8)
  | [] => []
  | c :: s =>
      if c = ch '\n' then [c] :: getlines s
      else match getlines s with
        | [] => [[c]]
        | l :: ls => (c :: l) :: ls

/-- A space or a tab. -/
def isBlank (c : UInt8) : Bool := c = ch ' ' || c = ch '\t'

/-- The loop that overwrites separators in `tmp` and remembers the position behind the last
blank: `n` iterations from index `i` on.
SOURCE: utils.c:326-336 -/
def splitLoop : ℕ → ℕ → List UInt8 → ℕ → Except Fault (List UInt8 × ℕ)
  | 0, _, tmp, ifIdx => .ok (tmp, ifIdx)
  | n + 1, i, tmp, ifIdx => do
      let c ← deref (tmp.drop i)
      if isBlank c ∨ c = ch '\n' then
        splitLoop n (i + 1) (tmp.set i 0) (if c ≠ ch '\n' then i + 1 else ifIdx)
      else splitLoop n (i + 1) tmp ifIdx

/-- The loop body for one line; `line` is the whole buffer of `getline`, so its length is
the capacity `len` the loop uses.
SOURCE: utils.c:314-343 -/
def parseLine (line : List UInt8) : Except Fault (Option RoutingEntry) := do
  let len := line.length
  if 1 < len then
    let tmp ← strncpy (List.replicate bufSize 0) line len
    let (tmp, ifIdx) ← splitLoop len 0 tmp 0
    let ipAddress ← strcpy ipAddrSize tmp
    let outputIf ← strcpy ifNameSize (tmp.drop ifIdx)
    return some ⟨ipAddress.1, outputIf.1, ipAddress.2, outputIf.2⟩
  else return none

/-- The loop over the lines, from the `k`-th on, with the list built so far.
SOURCE: utils.c:312-344 -/
def populateLoop (tails : ℕ → List UInt8) :
    List (List UInt8) → ℕ → List RoutingEntry → Except Fault (List RoutingEntry)
  | [], _, routes => .ok routes
  | line :: lines, k, routes => do
      let entry ← parseLine (line ++ 0 :: tails k)
      populateLoop tails lines (k + 1) (routes ++ entry.toList)

/-- The routing list after `populate_routing_list` on a file.
SOURCE: utils.c:294-352 -/
def populateRoutingList (tails : ℕ → List UInt8) (file : List UInt8) :
    Except Fault (List RoutingEntry) :=
  populateLoop tails (getlines file) 0 []

/-- An IPv4 address as the four bytes in the frame. -/
structure InAddr where
  b0 : UInt8
  b1 : UInt8
  b2 : UInt8
  b3 : UInt8
  deriving DecidableEq, Repr

/-- The bytes `inet_ntoa` prints. -/
def InAddr.text (a : InAddr) : List UInt8 :=
  decimal a.b0.toNat ++ ch '.' :: (decimal a.b1.toNat ++ ch '.' ::
    (decimal a.b2.toNat ++ ch '.' :: decimal a.b3.toNat))

theorem InAddr.noNul_text (a : InAddr) : 0 ∉ a.text := by
  have hdot : (0 : UInt8) ≠ ch '.' := by decide
  simp [InAddr.text, noNul_decimal, hdot]

/-- `inet_ntoa`. -/
def inetNtoa (a : InAddr) : CString := ⟨a.text, a.noNul_text⟩

/-- The destination address in the IP header behind the Ethernet header.
SOURCE: utils.c:394-402 -/
def daddr (pkt : List UInt8) : InAddr :=
  ⟨pkt.getD 30 0, pkt.getD 31 0, pkt.getD 32 0, pkt.getD 33 0⟩

/-- The walk along the routing list, which keeps the last match.
SOURCE: utils.c:412-421 -/
def dstIntf (dstIP : CString) (routes : List RoutingEntry) : Option CString :=
  routes.foldl (fun dst e => if e.ipAddress = dstIP then some e.outputIf else dst) none

/-- The index of the interface a frame leaves on, `-1` to drop it.
SOURCE: utils.c:381-436 -/
def getDstSockIdx (pkt : List UInt8) (intfNames : List CString) (routes : List RoutingEntry) :
    ℤ :=
  match dstIntf (inetNtoa (daddr pkt)) routes with
  | none => -1
  | some dst =>
      match intfNames.findIdx? (fun name => decide (dst = name)) with
      | some i => i
      | none => 0

/-! ## What a forwarding loop works with -/

abbrev Frame := List UInt8

/-- What a forwarding loop is started with: the names of its interfaces and the routing
list. -/
structure Config where
  intfNames : List CString
  routingList : List RoutingEntry

/-- `n_intfs`. -/
def Config.nIntfs (cfg : Config) : ℕ := cfg.intfNames.length

/-- What `poll` returns: for each interface whether `POLLIN` is set, or `-1` with `EINTR`, or
`-1` with another error. -/
inductive PollOutcome
  | ready (revents : List Bool)
  | interrupted
  | failed
  deriving DecidableEq

end VtRouter.Model
