import VtRouter.Library.Words
import VtRouter.Model.Routing
import VtRouter.Model.Topology

/-!
# How a router is started

`VTSwitch.start` writes a command line with the name of the switch, the number of its interfaces
without an address, and the path of its route file; the shell cuts it into arguments; and `main`
of either router makes the names of the interfaces from the name and the number again.  The two
mains agree up to where they open what they have named.  The mode `INS_VT`, in which a tracer
starts the router, is left out.

The shell is not part of the repository.  Nothing is said of what it does to a command with
characters that it may interpret; any other command it cuts at its blanks.  Arrays are checked:
the name and the path are copied into buffers of fixed sizes, and there is room for
`N_MAX_TAPS` interface names.
-/

set_option autoImplicit false

namespace VtRouter.Model.Launch

open Library VtRouter.Model.Topology

/-! ## The command -/

/-- An interface of a switch in mininet. -/
structure Intf where
  name : Text
  ip : Option Text

/-- SOURCE: mininet/VT_mininet.py:122 -/
def routesFilePath (vtMechDir name : Text) : Text :=
  vtMechDir ++ bytes "src/routing/routes/" ++ name ++ bytes "_routes.txt"

/-- In the mode `APP_VT`, and in those that are neither it nor `INS_VT`.
SOURCE: mininet/VT_mininet.py:79-84 -/
def execPath (vtMechDir : Text) (appVt : Bool) : Text :=
  vtMechDir ++ bytes (if appVt then "src/routing/router_app_vt " else "src/routing/router_n ")

/-- The interfaces that are counted.
SOURCE: mininet/VT_mininet.py:105-108 -/
def dataIntfs (intfs : List Intf) : ℕ := intfs.countP fun intf => intf.ip.isNone

/-- The command line of a switch, up to where its output goes.
SOURCE: mininet/VT_mininet.py:104-123 -/
def startCommand (vtMechDir : Text) (appVt : Bool) (name : Text) (intfs : List Intf) : Text :=
  execPath vtMechDir appVt ++ bytes "-i " ++ name ++ bytes " -n " ++ decimal (dataIntfs intfs) ++
    bytes " -f " ++ routesFilePath vtMechDir name

/-- The characters that the shell takes for nothing but themselves, wherever they stand. -/
def isPlain (c : UInt8) : Bool :=
  isDigit c || (ch 'a' ≤ c && c ≤ ch 'z') || (ch 'A' ≤ c && c ≤ ch 'Z') ||
    c ∈ [ch '/', ch '.', ch '_', ch '-']

/-- The arguments behind the name of the program, in a command of such characters and blanks. -/
def shellArgs (command : Text) : Option (List Text) :=
  if command.all fun c => decide (c = ch ' ') || isPlain c then
    some (words (fun c => decide (c = ch ' ')) command).tail
  else none

/-! ## The program -/

/-- `IFNAMSIZ`. -/
def ifNamSiz : ℕ := 16

/-- SOURCE: router_n.c:38, router_app_vt.c:270 -/
def pathSize : ℕ := 100

/-- SOURCE: includes.h:35 -/
def nMaxTaps : ℕ := 100

/-- What `main` prints before `usage` exits. -/
inductive UsageError
  | unknownOption
  | tooManyOptions
  | noSwitchName
  | noInterfaces
  deriving DecidableEq

inductive LaunchError
  | usage (e : UsageError)
  | fault (e : Fault)
  deriving DecidableEq

/-- What the options set.  Before `-f` the path is uninitialised, and not to be read. -/
structure Options where
  switchName : List UInt8
  nIntfs : ℤ
  routingFilePath : Option (List UInt8)

/-- SOURCE: router_n.c:27-38, 52 -/
def Options.init : Options := ⟨List.replicate ifNamSiz 0, 0, none⟩

/-- `flush_buffer` and `strncpy` into a buffer, for an argument without NUL bytes. -/
def copyArg (dst : List UInt8) (n : ℕ) (optarg : Text) : Except LaunchError (List UInt8) :=
  (strncpy dst (optarg ++ [0]) n).mapError .fault

/-- An option with its argument.
SOURCE: router_n.c:58-75, router_app_vt.c:287-304 -/
def setOption (opts : Options) (option : UInt8) (optarg : Text) : Except LaunchError Options := do
  if option = ch 'i' then
    return { opts with switchName := ← copyArg opts.switchName (ifNamSiz - 1) optarg }
  else if option = ch 'n' then return { opts with nIntfs := atoi optarg }
  else if option = ch 'f' then
    return { opts with
      routingFilePath := some (← copyArg (List.replicate pathSize 0) pathSize optarg) }
  else throw (.usage .unknownOption)

/-- `getopt` with the options `"i:n:f:"`, and the loop over it; arguments that are no options are
collected.  An option takes the rest of its argument, or the next one.
SOURCE: router_n.c:57-79, router_app_vt.c:286-308 -/
def optionLoop : List Text → Options → List Text → Except LaunchError (Options × List Text)
  | [], opts, others => .ok (opts, others)
  | arg :: args, opts, others =>
      match arg with
      | dash :: option :: optarg =>
          if dash ≠ ch '-' then optionLoop args opts (others ++ [arg])
          else if option = ch '-' ∧ optarg = [] then .ok (opts, others ++ args)
          else if optarg ≠ [] then do optionLoop args (← setOption opts option optarg) others
          else match args with
            | [] => .error (.usage .unknownOption)
            | next :: args => do optionLoop args (← setOption opts option next) others
      | _ => optionLoop args opts (others ++ [arg])

/-- The name of an interface.
SOURCE: router_n.c:110, router_app_vt.c:339 -/
def intfName (switchName : Text) (start : ℕ) : Text :=
  switchName ++ bytes "-eth" ++ decimal start

/-- The loop that names `n` interfaces from index `i` on.
SOURCE: router_n.c:103-113, router_app_vt.c:332-341 -/
def nameLoop (switchName : Text) : ℕ → ℕ → ℕ → List CString → Except Fault (List CString)
  | 0, _, _, intfNames => .ok intfNames
  | n + 1, i, start, intfNames => do
      if nMaxTaps ≤ i then throw .outOfBounds
      let name ← strcpy ifNameSize (intfName switchName start ++ [0])
      nameLoop switchName n (i + 1) (start + 1) (intfNames ++ [name.1])

/-- The string in a buffer, which has to be terminated. -/
def bufferText (buf : List UInt8) : Except Fault Text :=
  if 0 ∈ buf then .ok (CString.ofBytes buf).toList else .error .outOfBounds

/-- `main` up to the sockets: the names of the interfaces, and the file `populate_routing_list`
opens.
SOURCE: router_n.c:52-124, router_app_vt.c:279-353 -/
def routerMain (args : List Text) : Except LaunchError (List CString × Text) := do
  let (opts, others) ← optionLoop args .init []
  let switchName ← (bufferText opts.switchName).mapError .fault
  if others ≠ [] then throw (.usage .tooManyOptions)
  else if switchName = [] then throw (.usage .noSwitchName)
  else if opts.nIntfs ≤ 0 then throw (.usage .noInterfaces)
  else do
    let start := if switchName.head? = some (ch 'h') then 0 else 1
    let intfNames ← (nameLoop switchName opts.nIntfs.toNat 0 start []).mapError .fault
    let path ← (bufferText (opts.routingFilePath.getD [])).mapError .fault
    return (intfNames, path)

end VtRouter.Model.Launch
