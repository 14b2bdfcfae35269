import VtRouter.Model.Launch

/-!
# Where the links are plugged in

Mininet numbers the ports of a switch in the order of the calls of `addLink`, and the router of
the switch its interfaces in the order of their names, which carry these numbers.  So interface
`i` of a router, counted from `0`, is on the `i`-th link of its switch.

The ends of the links are counted through, two to a link: the ends of link `k` are `2 * k` and
`2 * k + 1`.
-/

set_option autoImplicit false

namespace VtRouter.Model.Topology

open Library

/-- The nodes at the ends of the links. -/
def ends (links : List LinkArgs) : List NodeName := links.flatMap fun l => [l.node1, l.node2]

/-- The ends at a node, in the order of its interfaces. -/
def endsOf (links : List LinkArgs) (n : NodeName) : List ℕ :=
  (List.range (ends links).length).filter fun e => (ends links)[e]? = some n

/-- The other end of the link. -/
def farEnd (e : ℕ) : ℕ := if e % 2 = 0 then e + 1 else e - 1

/-- The interface of another router at the other end of the link at an interface; `none` where a
host is. -/
def peerOf (links : List LinkArgs) (p : NodeName × ℕ) : Option (NodeName × ℕ) := do
  let e ← (endsOf links p.1)[p.2]?
  let n ← (ends links)[farEnd e]?
  if n.kind = .switch then some (n, (endsOf links n).idxOf (farEnd e)) else none

/-- What the router of a switch is started with, for the lists read from the route files.
SOURCE: router_n.c:103-124, router_app_vt.c:332-353 -/
def routerConfig (links : List LinkArgs) (routes : NodeName → List RoutingEntry) (sw : NodeName) :
    Config where
  intfNames := (List.range (endsOf links sw).length).map fun k =>
    CString.ofBytes (Launch.intfName sw.text (k + 1))
  routingList := routes sw

end VtRouter.Model.Topology
