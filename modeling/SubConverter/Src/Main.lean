/-
`main.c`, and of `server.c` the start of the daemon. The HTTP library and what the C standard leaves open about `atoi`
are parameters; the run goes up to the signal that ends it.
-/
import SubConverter.C.Str

namespace SubConverter

open CMem

/-! ## libmicrohttpd -/

inductive MhdFlag
  | useInternalPollingThread | usePoll
  deriving DecidableEq, Repr

/-- What `MHD_start_daemon` is given, less the callbacks; `sockAddr` is that of `MHD_OPTION_SOCK_ADDR`. -/
structure DaemonOptions where
  flags : List MhdFlag
  port : UInt16
  sockAddr : Option CStr
  connectionTimeout : Nat
  deriving DecidableEq

/-- A daemon, with the port `MHD_get_daemon_info` knows of. -/
structure Daemon where
  bindPort : Option Nat
  deriving DecidableEq

structure Platform where
  atoiOverflow : CStr → Int
  /-- Whether `calloc` has room for a `server`. -/
  callocOk : Bool
  startDaemon : DaemonOptions → Option Daemon

/-- `atoi`: `strtol` where its value is an `int`, undefined otherwise. -/
def atoi (p : Platform) (s : CStr) : Int :=
  let v := (strtol s.bytes).1
  if -2 ^ 31 ≤ v ∧ v < 2 ^ 31 then v else p.atoiOverflow s

/-! ## server.c -/

structure ServerConfig where
  listenHost : Option CStr
  port : Int

structure Server where
  host : CStr
  port : Int
  daemon : Option Daemon

def serverCreate (p : Platform) (cfg : Option ServerConfig) : Option Server :=
  if p.callocOk then
    some ⟨(cfg.bind ServerConfig.listenHost).getD (.lit "0.0.0.0"), (cfg.map ServerConfig.port).getD 0, none⟩
  else none

/-- `server_start`: the calls of `MHD_start_daemon`, the return code and the server. -/
def serverStart (p : Platform) (s : Option Server) : List DaemonOptions × Int × Option Server :=
  match s with
  | none => ([], -1, none)
  | some s =>
    let options : DaemonOptions := ⟨[.useInternalPollingThread, .usePoll], UInt16.ofInt s.port, none, 30⟩
    let daemon := p.startDaemon options
    ([options], if daemon.isSome then 0 else -1, some { s with daemon := daemon })

def serverGetPort (s : Option Server) : Int :=
  match s.bind Server.daemon with
  | none => -1
  | some daemon =>
    match daemon.bindPort with
    | none => -1
    | some port => port

/-! ## main.c -/

def subconvVersion : CStr := .lit "0.1.0"

def usage (prog : CStr) : Bytes := str "usage: " ++ prog.bytes ++ str " [--host H] [--port N]\n"

/-- The locals `host` and `port` of `main`. -/
structure Listen where
  host : CStr
  port : Int
  deriving DecidableEq

/-- The loop over `argv`, `none` where it shows the usage. -/
def parseArgs (p : Platform) : List CStr → Listen → Option Listen
  | [], l => some l
  -- no option goes without a value
  | [_], _ => none
  | arg :: value :: args, l =>
    if arg.is "--host" then parseArgs p args { l with host := value }
    else if arg.is "--port" then
      let port := atoi p value
      if port ≤ 0 then none else parseArgs p args { l with port := port }
    else none

/-- The calls of `MHD_start_daemon`, what is written to `stdout` and `stderr`, and the exit status. -/
structure MainRun where
  started : List DaemonOptions
  out : Bytes
  err : Bytes
  status : Nat

def startFailed : Bytes := str "subconvd: failed to start server\n"

/-- What `main` prints when the server listens. -/
def listening (host : CStr) (s : Option Server) : Bytes :=
  str "sub-converter " ++ subconvVersion.bytes ++ str " listening on " ++ host.bytes ++ str ":" ++
    decimalInt (serverGetPort s) ++ str "\n"

/-- `main` with `argv[0]` and the other arguments. -/
def main (p : Platform) (prog : CStr) (args : List CStr) : MainRun :=
  match parseArgs p args ⟨.lit "0.0.0.0", 9099⟩ with
  | none => ⟨[], [], usage prog, 1⟩
  | some l =>
    match serverCreate p (some ⟨some l.host, l.port⟩) with
    | none => ⟨[], [], startFailed, 1⟩
    | some s =>
      let (started, rc, s) := serverStart p (some s)
      if rc < 0 then ⟨started, [], startFailed, 1⟩ else ⟨started, listening l.host s, [], 0⟩

end SubConverter
