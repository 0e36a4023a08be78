import ZynqRtlFlow.Text.Strings

/-!
# `provision-board-net.sh`

The script that brings up, or tears down, the segment between the build host and the board.
All it observes and all it changes goes through `ip`.  It changes an interface only when the
addresses on it say that it is the board link.
-/

namespace BoardNet

open Text

/-- The environment the script is called in. -/
structure Env where
  nicVar : Option Str
  hostAddrVar : Option Str
  boardAddrVar : Option Str

/-- `${var:-default}`. -/
def orDefault (default : Str) (var : Option Str) : Str :=
  if var.getD [] = [] then default else var.getD []

namespace Env

/-- `NIC`. -/
def nic (env : Env) : Str :=
  orDefault [] env.nicVar

/-- `HOST_ADDR`. -/
def hostAddr (env : Env) : Str :=
  orDefault "192.168.100.1/24".toList env.hostAddrVar

/-- `BOARD_ADDR`. -/
def boardAddr (env : Env) : Str :=
  orDefault "192.168.100.2".toList env.boardAddrVar

/-- `${HOST_ADDR%%/*}`. -/
def hostIp (env : Env) : Str :=
  env.hostAddr.takeWhile (· != '/')

end Env

/-- The calls of `ip` that change something. -/
inductive Command where
  | addrFlush (dev : Str)
  | linkDown (dev : Str)
  | linkUp (dev : Str)
  | addrReplace (addr dev : Str)
  deriving DecidableEq, Repr

/-- The interface a change is about. -/
def Command.device : Command → Str
  | addrFlush dev => dev
  | linkDown dev => dev
  | linkUp dev => dev
  | addrReplace _ dev => dev

/-- The programs the script calls: the lines `ip -4 -br addr show` prints for an interface or
for all, unless it fails; whether `ip link show` succeeds; what `awk` makes of the value of
`-v`, and whether it says that a field equals a variable; whether `grep -qxF` finds a pattern
among lines, and whether what writes them comes to its end although `grep -q` stops reading
at the first it finds; the status of a change; and whether the board answers a `ping`. -/
structure Tools where
  addrShow : Option Str → Option (List Str)
  linkShow : Str → Bool
  assign : Str → Str
  same : Str → Str → Bool
  grep : Str → List Str → Bool
  drained : Str → List Str → Bool
  change : Command → ℕ
  ping : Str → Bool

/-- What the script prints and what it calls. -/
inductive Effect where
  | out (text : Str)
  | err (text : Str)
  | command (c : Command)
  deriving DecidableEq, Repr

/-- A run of the script: its effects in their order, and its exit status. -/
structure Run where
  effects : List Effect
  exit : ℕ
  deriving DecidableEq, Repr

/-! ### `awk` -/

/-- The fields of a line. -/
def fields (line : Str) : List Str :=
  (line.splitOnP fun c => c == ' ' || c == '\t').filter (· ≠ [])

/-- `split($i, a, "/")` and `a[1]`. -/
def beforeSlash (field : Str) : Str :=
  field.takeWhile (· != '/')

/-- How an address begins that the kernel gives by itself. -/
abbrev linkLocal : Str := "169.254.".toList

/-! ### Guards -/

variable (tools : Tools) (env : Env)

/-- The addresses on an interface that are neither `HOST_IP` nor the kernel's own. -/
def foreignAddrs (nic : Str) : Option (List Str) := do
  let lines ← tools.addrShow (some nic)
  return lines.flatMap fun line =>
    ((fields line).drop 2).filter fun field =>
      tools.same (beforeSlash field) (tools.assign env.hostIp) = false
        ∧ ¬ linkLocal <+: beforeSlash field

/-- The interfaces `HOST_IP` is on, without what follows an `@`. -/
def nicsCarryingHostAddr : Option (List Str) := do
  let lines ← tools.addrShow none
  return lines.filterMap fun line =>
    if ((fields line).drop 2).any fun field =>
        tools.same (beforeSlash field) (tools.assign env.hostIp) then
      some (((fields line).headD []).takeWhile (· != '@'))
    else none

/-- How the script stops at an interface that is not the board link, if it does. -/
def assertNotShared (nic refusal : Str) : Option Run :=
  match foreignAddrs tools env nic with
  | none =>
      some ⟨[.err ("provision-board-net: cannot read the addresses on ".toList ++ nic
        ++ " — ".toList ++ refusal ++ ".".toList)], 1⟩
  | some found =>
      let foreign := join ['\n'] found
      if foreign = [] then none
      else
        some ⟨[.err ("provision-board-net: ".toList ++ nic ++ " carries ".toList
            ++ replaceAll ['\n'] ", ".toList foreign ++ " — ".toList ++ refusal ++ ".".toList),
          .err "                     That is not the board link. Set NIC= to the interface".toList,
          .err "                     the board is cabled to ('ip -4 -br addr' lists them).".toList], 1⟩

/-! ### The script -/

/-- Commands one after the other, up to the first to fail, and then the rest of a run. -/
def inTurn : List Command → Run → Run
  | [], next => next
  | c :: cs, next =>
      if tools.change c = 0 then
        ⟨.command c :: (inTurn cs next).effects, (inTurn cs next).exit⟩
      else ⟨[.command c], tools.change c⟩

/-- `tear_down`. -/
def tearDown (nic : Str) : Run :=
  match assertNotShared tools env nic "refusing to tear it down".toList with
  | some stopped => stopped
  | none =>
      inTurn tools [.addrFlush nic, .linkDown nic]
        ⟨[.out (">> ".toList ++ nic ++ " down, addresses flushed".toList)], 0⟩

/-- Whether the pipe from `nics_carrying_host_addr` to `grep -q` succeeds: under `pipefail`
both have to. -/
def carriesHostAddr (nic : Str) : Bool :=
  (nicsCarryingHostAddr tools env).any fun names => tools.grep nic names && tools.drained nic names

/-- The branch of `--down`. -/
def down : Run :=
  if env.nic = [] then
    match (nicsCarryingHostAddr tools env).getD [] with
    | [] =>
        ⟨[.out (">> no interface carries ".toList ++ env.hostIp
          ++ " — the board link is already down.".toList)], 0⟩
    | [nic] => tearDown tools env nic
    | found =>
        ⟨[.err ("provision-board-net: ".toList ++ join [' '] found ++ " all carry ".toList
            ++ env.hostIp ++ " — refusing to guess.".toList),
          .err "                     Set NIC= to the one the board is cabled to.".toList], 1⟩
  else if carriesHostAddr tools env env.nic then
    tearDown tools env env.nic
  else
    ⟨[.err ("provision-board-net: ".toList ++ env.nic ++ " does not carry ".toList ++ env.hostIp
        ++ " — refusing to tear it down.".toList),
      .err "                     Only the board link is this script's to flush.".toList], 1⟩

/-- Whether the board is there yet. -/
def expectBoard : List Effect :=
  .out (">> expecting the board at ".toList ++ env.boardAddr)
    :: if tools.ping env.boardAddr then [.out ">> board responds.".toList]
      else
        [.out ">> board does not respond yet. That is expected until it is cabled and booted.".toList,
          .out "   The board has no DHCP server on this segment, so it needs a static address —".toList,
          .out ("   set it to ".toList ++ env.boardAddr
            ++ "/24 with no default route (this link has no route to".toList),
          .out "   anywhere else; see docs/adr/0003-...).".toList]

/-- The branch that brings the link up. -/
def up : Run :=
  if env.nic = [] then
    ⟨[.err "provision-board-net: set NIC= to the interface the board is cabled to.".toList,
      .err "                     There is no default: the wrong name here reconfigures".toList,
      .err "                     a live link ('ip -4 -br addr' lists them).".toList], 2⟩
  else if ¬ tools.linkShow env.nic then
    ⟨[.err ("provision-board-net: no interface '".toList ++ env.nic ++ "' on this host".toList)], 2⟩
  else
    match assertNotShared tools env env.nic "refusing to reconfigure it".toList with
    | some stopped => stopped
    | none =>
        inTurn tools [.linkUp env.nic, .addrReplace env.hostAddr env.nic]
          ⟨.out (">> ".toList ++ env.nic ++ " up with ".toList ++ env.hostAddr)
            :: expectBoard tools env, 0⟩

/-- What `usage` prints. -/
def usage : List Str :=
  ["provision-board-net.sh [--down]".toList,
    [],
    "  (no args)  bring the board link up: put HOST_ADDR on NIC, then look for the board".toList,
    "  --down     flush and down the board link — the interface carrying HOST_ADDR".toList,
    [],
    "Environment:".toList,
    "  NIC          the interface the board is cabled to. Required to bring the link".toList,
    "               up. For --down it is discovered from HOST_ADDR; set it there only".toList,
    "               to be explicit, and it is still checked before anything is touched.".toList,
    "  HOST_ADDR    this host's address on the link  (default 192.168.100.1/24)".toList,
    "  BOARD_ADDR   the board's address on the link  (default 192.168.100.2)".toList]

/-- The two modes of the script. -/
inductive Mode where
  | up
  | down
  deriving DecidableEq, Repr

/-- The mode the argument asks for, or how the script stops. -/
def parseArg (arg : Option Str) : Except Run Mode :=
  if arg.getD [] = "--down".toList then .ok .down
  else if arg.getD [] = "-h".toList ∨ arg.getD [] = "--help".toList then
    .error ⟨usage.map Effect.out, 0⟩
  else if arg.getD [] = [] then .ok .up
  else
    .error ⟨.err ("provision-board-net: unknown argument '".toList ++ arg.getD [] ++ "'".toList)
      :: usage.map Effect.err, 2⟩

/-- The script. -/
def provisionBoardNet (arg : Option Str) : Run :=
  match parseArg arg with
  | .error stopped => stopped
  | .ok .down => down tools env
  | .ok .up => up tools env

end BoardNet
