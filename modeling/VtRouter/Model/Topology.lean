import Mathlib.Data.List.Dedup
import Mathlib.Data.List.Sort
import VtRouter.Library.Dictionary
import VtRouter.Library.HexText

/-!
# The topology of an experiment

`experiment.py` collects the delays and bandwidths of a manifest in two tables, and `apptopo.py`
reads them when it makes the calls that build the network.  A table is keyed by the names of two
nodes, one written behind the other: the writer sorts them (`linkTable`), a host's own latency
is stored under the host's name first (`overrideLatency`), the reader of host links writes the
host first too (`hostLink`), and the reader of links between switches sorts (`switchLink`).

`format` stands for `formatParams`, which replaces the parameters of the manifest in a text; what
is said here holds for any function of the text.  A value of the manifest is a text, or else what
`str` prints for it.
-/

set_option autoImplicit false

namespace VtRouter.Model.Topology

open Library

abbrev Text := List UInt8

/-! ## Manifests -/

inductive NodeKind
  | host
  | switch
  deriving DecidableEq

/-- The first letter of a name. -/
def NodeKind.letter : NodeKind → UInt8
  | host => ch 'h'
  | switch => ch 's'

/-- A name: `h` or `s`, and digits. -/
structure NodeName where
  kind : NodeKind
  digits : Text
  digits_ne : digits ≠ []
  digits_ok : ∀ c ∈ digits, isDigit c = true
  deriving DecidableEq

def NodeName.text (n : NodeName) : Text := n.kind.letter :: n.digits

/-- `int(name[1:])`. -/
def NodeName.num (n : NodeName) : ℕ := numeral n.digits 0

inductive Value
  | text (s : Text)
  | other (shown : Text)
  deriving DecidableEq

/-- An element of `conf['links']`: two names, and what is listed behind them. -/
structure LinkConf where
  a : NodeName
  b : NodeName
  rest : List Value

/-- `l[2]`, if there is one. -/
def LinkConf.latency (l : LinkConf) : Option Value := l.rest[0]?

/-- `l[3]`, if there is one. -/
def LinkConf.bandwidth (l : LinkConf) : Option Value := l.rest[1]?

/-- A value of `conf['hosts']`. -/
structure HostConf where
  latency : Option Value

/-- `manifest['targets']['multiswitch']`; the keys of `conf['hosts']` are hosts. -/
structure Manifest where
  links : List LinkConf
  hosts : Dict NodeName HostConf
  hosts_host : ∀ n ∈ hosts.keys, n.kind = .host

abbrev Link := NodeName × NodeName

/-- The `latency` entry of a host, if the host is listed and has one. -/
def Manifest.hostLatency (conf : Manifest) (hostName : NodeName) : Option Value :=
  (conf.hosts.get hostName).bind HostConf.latency

/-- SOURCE: mininet/experiment.py:164 -/
def Manifest.pairs (conf : Manifest) : List Link := conf.links.map fun l => (l.a, l.b)

/-! ## The tables -/

/-- `sorted`. -/
def sorted (names : List NodeName) : List NodeName := names.insertionSort fun a b => a.text ≤ b.text

/-- `''.join`. -/
def join (names : List NodeName) : Text := names.flatMap NodeName.text

/-- The dictionary of an element of the links that have it.
SOURCE: mininet/experiment.py:165-166 -/
def linkTable (element : LinkConf → Option Value) (conf : Manifest) : Dict Text Value :=
  Dict.ofPairs (conf.links.filterMap fun l => (element l).map fun v => (join (sorted [l.a, l.b]), v))

/-- The node at the other end. -/
def other (name : NodeName) (link : Link) : NodeName := if link.1 ≠ name then link.1 else link.2

/-- SOURCE: mininet/experiment.py:171-174 -/
def overrideLatency (links : List Link) (hostName : NodeName) (latency : Value)
    (latencies : Dict Text Value) : Dict Text Value :=
  links.foldl (fun latencies link =>
    if link.1 ≠ hostName ∧ link.2 ≠ hostName then latencies
    else latencies.set (hostName.text ++ (other hostName link).text) latency) latencies

/-- SOURCE: mininet/experiment.py:168-174 -/
def overrideLatencies (conf : Manifest) (latencies : Dict Text Value) : Dict Text Value :=
  (sorted conf.hosts.keys).foldl (fun latencies hostName =>
    match conf.hostLatency hostName with
    | none => latencies
    | some latency => overrideLatency conf.pairs hostName latency latencies) latencies

/-- SOURCE: mininet/experiment.py:176-180 -/
def formatLatency (format : Text → Text) : Value → Text
  | .text s => format s
  | .other shown => shown ++ bytes "ms"

/-- SOURCE: mininet/experiment.py:165-180 -/
def latencyTable (format : Text → Text) (conf : Manifest) : Dict Text Text :=
  (overrideLatencies conf (linkTable LinkConf.latency conf)).mapValues (formatLatency format)

/-- SOURCE: mininet/experiment.py:166 -/
def bandwidthTable (conf : Manifest) : Dict Text Value := linkTable LinkConf.bandwidth conf

/-! ## The calls -/

/-- `assert` fails. -/
inductive PyError
  | assertionError
  deriving DecidableEq

/-- The arguments of `addLink`. -/
structure LinkArgs where
  node1 : NodeName
  node2 : NodeName
  delay : Text
  bw : Option Value
  addr1 : Option Text
  addr2 : Option Text
  deriving DecidableEq

inductive Call
  | addSwitch (name : NodeName) (logFile : Text)
  | addHost (name : NodeName)
  | addLink (args : LinkArgs)
  deriving DecidableEq

/-- `"00:00:00:00:%02x:%02x"`. -/
def linkMac (swNum hostNum : ℕ) : Text :=
  bytes "00:00:00:00:" ++ hexText false swNum ++ ch ':' :: hexText false hostNum

/-- `"10.0.0.%d"`. -/
def hostIp (hostNum : ℕ) : Text := bytes "10.0.0." ++ decimal hostNum

/-- The line a link of a host adds to the ARP file, and the arguments of its call.
SOURCE: mininet/apptopo.py:43-62 -/
def hostLinkArgs (latencies : Dict Text Text) (bws : Dict Text Value) (hostName sw : NodeName) :
    Text × LinkArgs :=
  let hostMac := linkMac sw.num hostName.num
  let arpLine := hostIp hostName.num ++ bytes "    =>  " ++ hostMac ++ [ch '\n']
  let delayKey := join [hostName, sw]
  let delay := (latencies.get delayKey).getD (bytes "0ms")
  let bw := bws.get delayKey
  (arpLine, ⟨hostName, sw, delay, bw, some hostMac, some (linkMac sw.num hostName.num)⟩)

/-- SOURCE: mininet/apptopo.py:37-62 -/
def hostLink (latencies : Dict Text Text) (bws : Dict Text Value) (hostName : NodeName)
    (link : Link) : Except PyError (Text × LinkArgs) := do
  let sw := other hostName link
  if sw.kind ≠ .switch then throw .assertionError
  return hostLinkArgs latencies bws hostName sw

/-- A link between switches; the others are skipped.
SOURCE: mininet/apptopo.py:64-73 -/
def switchLink (latencies : Dict Text Text) (bws : Dict Text Value) (link : Link) :
    Option LinkArgs :=
  if link.1.kind ≠ .switch ∨ link.2.kind ≠ .switch then none
  else
    let delayKey := join (sorted [link.1, link.2])
    let delay := (latencies.get delayKey).getD (bytes "0ms")
    let bw := bws.get delayKey
    some ⟨link.1, link.2, delay, bw, none, none⟩

/-- `self.addHost` for a host, and its links.
SOURCE: mininet/apptopo.py:27-63 -/
def addHost (links : List Link) (latencies : Dict Text Text) (bws : Dict Text Value)
    (hostName : NodeName) : Except PyError (Text × List Call) := do
  let hostLinks ← (links.filter fun l => decide (l.1 = hostName ∨ l.2 = hostName)).mapM
    (hostLink latencies bws hostName)
  return (hostLinks.flatMap Prod.fst, .addHost hostName :: hostLinks.map fun l => .addLink l.2)

/-- SOURCE: mininet/apptopo.py:17-18 -/
def hostNames (links : List Link) : List NodeName :=
  let nodes := links.map Prod.fst ++ links.map Prod.snd
  sorted (nodes.filter fun n => decide (n.kind = .host)).dedup

/-- SOURCE: mininet/apptopo.py:17-19 -/
def swNames (links : List Link) : List NodeName :=
  let nodes := links.map Prod.fst ++ links.map Prod.snd
  sorted (nodes.filter fun n => decide (n.kind = .switch)).dedup

/-- What `AppTopo.__init__` does: the ARP file it writes, and its calls in order.
SOURCE: mininet/apptopo.py:6-82 -/
def appTopo (links : List Link) (latencies : Dict Text Text) (bws : Dict Text Value)
    (logDir : Text) : Except PyError (Text × List Call) := do
  let switches := (swNames links).map fun sw =>
    .addSwitch sw (logDir ++ ch '/' :: sw.text ++ bytes ".log")
  let hosts ← (hostNames links).mapM (addHost links latencies bws)
  let switchLinks := (links.filterMap (switchLink latencies bws)).map .addLink
  return (hosts.flatMap Prod.fst, switches ++ hosts.flatMap Prod.snd ++ switchLinks)

/-- The network of a manifest.
SOURCE: mininet/experiment.py:158-183 -/
def buildTopo (format : Text → Text) (conf : Manifest) : Except PyError (Text × List Call) :=
  appTopo conf.pairs (latencyTable format conf) (bandwidthTable conf) (bytes "/tmp")

end VtRouter.Model.Topology
