import WingPhp.Basic
import WingPhp.Lib.Ascii
import WingPhp.Lib.Machine
import WingPhp.Process.Matches

/-!
# The control scripts of the services

`crontab/crontab.php` and `http/wing.php` start and stop a service that runs in a process of its own.  What ties the
commands together is a file with the id of that process.  Any number of these scripts run, in any order; each call of
the extension and of the file functions is a step.  Other programs come and go, the service may end by itself, and a
script may come to its end at any point.

Ghosts: every process has a serial number, `worker` tells which ones the scripts have created, and `killed` is what
`TerminateProcess` has ended.
-/

namespace WingPhp.ServiceControl

open Process Transition Ascii

/-- What `wing_query_process` takes from the engine and from released memory. -/
structure Engine where
  stale : StringField → List UInt8
  isNumericString : List UInt8 → Bool
  zendAtoi : List UInt8 → Int32

/-- A service: `PHP_PATH`, the script it runs, and what its process is searched by. -/
structure Site (engine : Engine) where
  phpPath : List UInt8
  workerFile : List UInt8
  keyword : List UInt8
  restarts : Bool
  phpPath_text : 0 ∉ phpPath
  workerFile_text : 0 ∉ workerFile
  keyword_ne_nil : keyword ≠ []
  keyword_infix : keyword <:+: workerFile
  keyword_text : engine.isNumericString keyword = false

theorem text_append {dir name : List UInt8} (hdir : 0 ∉ dir) (hname : 0 ∉ name) : 0 ∉ dir ++ name := by
  rw [List.mem_append, not_or]
  exact ⟨hdir, hname⟩

theorem crontab_infix (dir : List UInt8) :
    ascii "wing_crontab.php" <:+: dir ++ ascii "/wing_crontab.php" :=
  ⟨dir ++ [0x2F], [], by simp [ascii]⟩

/-- `crontab.php` -/
def crontab (engine : Engine) (phpPath dir : List UInt8) (hphp : 0 ∉ phpPath) (hdir : 0 ∉ dir)
    (hkeyword : engine.isNumericString (ascii "wing_crontab.php") = false) : Site engine where
  phpPath := phpPath
  workerFile := dir ++ ascii "/wing_crontab.php"
  keyword := ascii "wing_crontab.php"
  restarts := false
  phpPath_text := hphp
  workerFile_text := text_append hdir (by decide)
  keyword_ne_nil := by decide
  keyword_infix := crontab_infix dir
  keyword_text := hkeyword

theorem service_ne_nil (dir : List UInt8) : dir ++ ascii "/service.php" ≠ [] := by
  intro h
  exact absurd (List.append_eq_nil_iff.mp h).2 (by decide)

/-- `http/wing.php` -/
def http (engine : Engine) (phpPath dir : List UInt8) (hphp : 0 ∉ phpPath) (hdir : 0 ∉ dir)
    (hkeyword : engine.isNumericString (dir ++ ascii "/service.php") = false) : Site engine where
  phpPath := phpPath
  workerFile := dir ++ ascii "/service.php"
  keyword := dir ++ ascii "/service.php"
  restarts := true
  phpPath_text := hphp
  workerFile_text := text_append hdir (by decide)
  keyword_ne_nil := service_ne_nil dir
  keyword_infix := List.infix_rfl
  keyword_text := hkeyword

/-- A process, as `wing_query_process` would find it. -/
structure Running where
  info : ProcessInfo
  serial : Nat
  worker : Bool
  deriving DecidableEq

abbrev Running.processId (p : Running) : Int32 := p.info.processId

inductive Command where
  | stop
  | start
  | restart
  deriving DecidableEq, Repr

/-- What is echoed: `"... was stop"`, `"... stop fail"`, `"... is running"`, `"... start fail"`. -/
inductive Message where
  | stopped
  | stopFail
  | running
  | startFail
  deriving DecidableEq, Repr

/-- Where a script is; `restart` goes on with the start after the stop. -/
inductive Pc where
  | getPid (restart : Bool)
  | kill (restart : Bool) (pid : Int32)
  | askStopped (restart : Bool)
  | unlink (restart : Bool)
  | create
  | putPid (pid : Int32)
  | askRunning
  deriving DecidableEq, Repr

structure State where
  processes : List Running
  pidFile : Option Int32
  scripts : List Pc
  printed : List Message
  killed : List Running
  nextSerial : Nat

/-! ## The calls -/

def State.add (s : State) (info : ProcessInfo) (worker : Bool) : State :=
  { s with processes := s.processes ++ [⟨info, s.nextSerial, worker⟩], nextSerial := s.nextSerial + 1 }

/-- A new process gets an id that no other one has. -/
def State.New (s : State) (info : ProcessInfo) : Prop :=
  0 < info.processId ∧ ∀ p ∈ s.processes, p.processId ≠ info.processId

instance (s : State) (info : ProcessInfo) : Decidable (s.New info) := inferInstanceAs (Decidable (_ ∧ _))

def State.launch (s : State) (info : ProcessInfo) (worker : Bool) : Option State :=
  if s.New info then some (s.add info worker) else none

/-- `TerminateProcess` -/
def State.terminate (s : State) (pid : Int32) : State :=
  { s with
    processes := s.processes.filter fun p => p.processId != pid
    killed := s.killed ++ s.processes.filter fun p => p.processId == pid }

/-- The script goes on there, or is at its end. -/
def State.goto (s : State) (i : Nat) : Option Pc → State
  | some pc => { s with scripts := s.scripts.set i pc }
  | none => { s with scripts := s.scripts.eraseIdx i }

def State.echo (s : State) (message : Message) : State := { s with printed := s.printed ++ [message] }

/-- `wing_process_kill`, whose answer the scripts do not look at; `terminated` tells whether `OpenProcess` and
`TerminateProcess` succeed. -/
def State.kill (s : State) (pid : Int32) (terminated : Bool) : Option State :=
  if terminated then
    if s.processes.any fun p => p.processId == pid then some (s.terminate pid) else none
  else some s

/-- `file_get_contents`, of which `wing_process_kill` takes a `false` for 0. -/
def State.fileGetContents (s : State) (read : Bool) : Int32 := if read then s.pidFile.getD 0 else 0

/-- `file_put_contents`; where it fails the file is as it was, or empty, which `wing_process_kill` takes for no id. -/
inductive Written where
  | ok
  | notOpened
  | truncated
  deriving DecidableEq, Repr

def Written.pidFile (pid : Int32) (before : Option Int32) : Written → Option Int32
  | .ok => some pid
  | .notOpened => before
  | .truncated => some 0

variable {engine : Engine}

/-- The command line of the service: `"%s %s"`. -/
def Site.command (site : Site engine) : List UInt8 := site.phpPath ++ [0x20] ++ site.workerFile

/-- `wing_query_process( keyword )` over this table. -/
def Site.queryProcess (site : Site engine) (table : List ProcessInfo) : Option SearchResult :=
  searchTable engine.stale engine.isNumericString engine.zendAtoi (.string site.keyword) 0 table

/-! ## Steps -/

/-- What the outside answers to a call. -/
inductive Answer where
  | read (read : Bool)
  | terminated (terminated : Bool)
  | table (table : List ProcessInfo)
  | unlinked (unlinked : Bool)
  | created (info : Option ProcessInfo)
  | written (written : Written)

/-- Where a command begins. -/
def Command.pc : Command → Pc
  | .stop => .getPid false
  | .start => .create
  | .restart => .getPid true

/-- `command_support` -/
def commandSupport (site : Site engine) (s : State) (command : Command) : Option State :=
  if command = .restart ∧ site.restarts = false then none
  else some { s with scripts := s.scripts ++ [command.pc] }

/-- After the stop. -/
def afterStop (restart : Bool) : Option Pc := if restart then some .create else none

/-- `wing_create_process_ex( $worker_file )` -/
def wingCreateProcessEx (site : Site engine) (s : State) : Option ProcessInfo → Option (State × Int32)
  | none => some (s, Int32.ofInt wingErrorFailed)
  | some info =>
    if info.commandLine = some site.command then (s.launch info true).map fun s' => (s', info.processId) else none

/-- A crash in `wing_query_process` ends the script. -/
def goOn (site : Site engine) (s : State) (i : Nat) : Pc → Answer → Option State
  | .getPid restart, .read read => some (s.goto i (some (.kill restart (s.fileGetContents read))))
  | .kill restart pid, .terminated terminated =>
    (s.kill pid terminated).map fun s' => s'.goto i (some (.askStopped restart))
  | .askStopped restart, .table table =>
    match site.queryProcess table with
    | none => some (s.goto i none)
    | some r =>
      if r.items = [] then some ((s.echo .stopped).goto i (some (.unlink restart)))
      else some ((s.echo .stopFail).goto i (afterStop restart))
  | .unlink restart, .unlinked unlinked =>
    some ({ s with pidFile := if unlinked then none else s.pidFile }.goto i (afterStop restart))
  | .create, .created info => (wingCreateProcessEx site s info).map fun r => r.1.goto i (some (.putPid r.2))
  | .putPid pid, .written written =>
    some ({ s with pidFile := written.pidFile pid s.pidFile }.goto i (some .askRunning))
  | .askRunning, .table table =>
    match site.queryProcess table with
    | none => some (s.goto i none)
    | some r => some ((s.echo (if r.items = [] then .startFail else .running)).goto i none)
  | _, _ => none

inductive Act where
  | launch (info : ProcessInfo)
  | exit (k : Nat)
  | begin (command : Command)
  | abort (i : Nat)
  | goOn (i : Nat) (answer : Answer)

def step (site : Site engine) (s : State) : Act → Option State
  | .launch info => s.launch info false
  | .exit k => some { s with processes := s.processes.eraseIdx k }
  | .begin command => commandSupport site s command
  | .abort i => some (s.goto i none)
  | .goOn i answer => s.scripts[i]?.bind fun pc => goOn site s i pc answer

def start : State := ⟨[], none, [], [], [], 0⟩

def services (site : Site engine) : Machine State Act := ⟨start, step site⟩

end WingPhp.ServiceControl
