import WingPhp.Basic
import WingPhp.Lib.HandleTable
import WingPhp.Lib.Machine
import WingPhp.Lib.Position
import WingPhp.Process.Query

/-!
# Processes, their handles, and the mutexes of the scripts

`wing_process.c`: any number of PHP processes call these functions, in any order.  A call is cut where
it waits or where another process can see what it has done so far; every handle it opens is in the table of its process
until it is closed there.  A child gets a copy of the handles that can be inherited, under the same values; those of
`wing_create_mutex` can.  A process can come to its end at any point, also in a call.  Which handle values and process
ids Windows gives, what its process lists show, and what fails, are parts of the actions.

`wing_query_process` opens processes in both loops of its second `WingQueryProcess` and closes none of these handles.
Writes past the end of `all_process` are taken to change no handle; the module snapshots are closed where they are
opened.
-/

namespace WingPhp.Process

open HandleTable Transition

/-- A mutex is known by its name; the processes are of one session.  Those made without a name are told apart by a
number. -/
inductive Mutex where
  | named (name : List UInt8)
  | unnamed (number : Nat)
  deriving DecidableEq, Repr

/-- `CreateMutex` reads a name up to its first NUL and makes a mutex without a name when nothing stands there. -/
def Mutex.ofName (mutexName : List UInt8) (number : Nat) : Mutex :=
  match upToNul mutexName with
  | [] => .unnamed number
  | name => .named name

/-- The objects of the kernel. -/
inductive Object where
  | mutex (mutex : Mutex)
  | file
  | snapshot
  | process (pid : Nat)
  | thread (pid : Nat)
  deriving DecidableEq, Repr

/-- Where a process is: in its script, or in a call. -/
inductive Pc where
  | script
  | mutexCreated (mutex : Handle Object) (existed : Bool)
  | waiting (process : Option (Handle Object)) (processId : Nat)
  | killing (process : Handle Object) (processId : Nat)
  | measuring (process : Option (Handle Object))
  | redirected (output : Option (Handle Object))
  | processCreated (output : Option (Handle Object)) (process thread : Handle Object) (processId : Nat)
  | counting (hProcessSnap : Option (Handle Object)) (count : Nat)
  | filling (chain : List Nat) (entries : Option (List Nat)) (count : Nat)
  | adding (hProcessSnap : Handle Object) (entries : List Nat) (count : Nat)
  deriving DecidableEq, Repr

/-- A PHP process.  `ret` is what its last call returned, of `wing_query_process` the number of processes it went
through.  `mutexes`, `inherited` and `queried` are ghosts: the handles the script got from `wing_create_mutex`, those it
started with and those `WingQueryProcess` opened, less those the script has closed. -/
structure Proc where
  pid : Nat
  handles : List (Handle Object)
  pc : Pc
  ret : Int
  mutexes : List (Handle Object)
  inherited : List (Handle Object)
  queried : List (Handle Object)
  deriving DecidableEq, Repr

abbrev Kernel := List Proc

def Proc.new (pid : Nat) (inherited : List (Handle Object)) : Proc := ⟨pid, inherited, .script, 0, [], inherited, []⟩

def wingErrorParameterError : Int := -1

def wingErrorProcessNotExists : Int := -5

/-- `ERROR_ALREADY_EXISTS` -/
def errorAlreadyExists : Int := 183

/-- `WAIT_TIMEOUT` -/
def waitTimeout : Int := 258

/-- `WAIT_FAILED`, as a `long`. -/
def waitFailed : Int := -1

/-- A value that Windows may give to a new handle: a multiple of four that is not in use. -/
def Proc.free (p : Proc) (v : Nat) : Bool := v != 0 && v % 4 == 0 && v < 0x80000000 && !(values p.handles).contains v

def Proc.get (p : Proc) (h : Handle Object) : Proc := { p with handles := h :: p.handles }

def Proc.drop (p : Proc) (h : Handle Object) : Proc := { p with handles := close p.handles h.value }

/-- `CloseHandle`, also on what is no handle. -/
def Proc.drop? (p : Proc) (h : Option (Handle Object)) : Proc := h.elim p p.drop

def Proc.back (p : Proc) (ret : Int) : Proc := { p with pc := .script, ret := ret }

namespace Kernel

/-- All handles that are open. -/
def handles (s : Kernel) : List (Handle Object) := s.flatMap Proc.handles

def running (s : Kernel) (pid : Nat) : Bool := s.any fun p => p.pid == pid

/-- The process is running, or a handle keeps its object. -/
def known (s : Kernel) (pid : Nat) : Bool :=
  s.running pid || 0 < refs s.handles (.process pid) || 0 < refs s.handles (.thread pid)

end Kernel

/-! ## The functions, up to where they wait -/

/-- Nothing of the kernel has this number as a mutex without a name. -/
def Kernel.unused (s : Kernel) : Mutex → Bool
  | .named _ => true
  | .unnamed number => refs s.handles (.mutex (.unnamed number)) == 0

/-- `wing_create_mutex`; `createMutex` is what `CreateMutex` answers. -/
def wingCreateMutex (s : Kernel) (p : Proc) (mutexName : List UInt8) (createMutex : Option Nat) (number : Nat) :
    Option Proc :=
  if mutexName.length = 0 then some (p.back wingErrorParameterError)
  else
    match createMutex with
    | none => some (p.back wingErrorFailed)
    | some v =>
      let mutex := Mutex.ofName mutexName number
      if p.free v && s.unused mutex then
        let m_hMutex : Handle Object := ⟨v, .mutex mutex, true⟩
        some { p.get m_hMutex with pc := .mutexCreated m_hMutex (0 < refs s.handles (.mutex mutex)) }
      else none

/-- `GetLastError() == ERROR_ALREADY_EXISTS` or not. -/
def wingCreateMutexReturn (p : Proc) (mutex : Handle Object) (existed : Bool) : Proc :=
  if existed then (p.drop mutex).back errorAlreadyExists
  else { p.back mutex.value with mutexes := mutex :: p.mutexes }

/-- Windows does not look at the last two bits of a handle. -/
def slot (handle : Int) : Nat := handle.toNat / 4 * 4

def wingCloseMutex (p : Proc) (mutexHandle : Int) : Proc :=
  if mutexHandle ≤ 0 then p.back wingErrorParameterError
  else if (lookup p.handles (slot mutexHandle)).isSome then
    { p.back wingErrorSuccess with
      handles := close p.handles (slot mutexHandle)
      mutexes := close p.mutexes (slot mutexHandle)
      inherited := close p.inherited (slot mutexHandle)
      queried := close p.queried (slot mutexHandle) }
  else p.back wingErrorFailed

/-- `WingQueryObject` -/
def wingQueryObject (s : Kernel) (p : Proc) (handle : Int) : Proc :=
  if handle = -1 ∨ handle = 0 then p.back (-1)
  else
    match lookup p.handles (slot handle) with
    | none => p.back 0
    | some h => p.back (refs s.handles h.object)

/-- `OpenProcess`, which gives a handle that is not inherited. -/
def openProcess (s : Kernel) (p : Proc) (processId v : Nat) : Option (Handle Object) :=
  if p.free v && s.known processId then some ⟨v, .process processId, false⟩ else none

def wingProcessWait (s : Kernel) (p : Proc) (processId : Int) (answer : Option Nat) : Option Proc :=
  if processId ≤ 0 then some (p.back wingErrorFailed)
  else
    match answer with
    | none => some { p with pc := .waiting none processId.toNat }
    | some v =>
      (openProcess s p processId.toNat v).map fun h => { p.get h with pc := .waiting (some h) processId.toNat }

/-- What `WaitForSingleObject` and `GetExitCodeProcess` answer. -/
inductive Waited where
  | object0 (exitCode : Option Int)
  | timeout
  | failed
  deriving DecidableEq, Repr

/-- Nothing is waited for without a handle, and a process ends no wait as long as it is running. -/
def wingProcessWaitReturn (s : Kernel) (p : Proc) (process : Option (Handle Object)) (processId : Nat)
    (waited : Waited) : Option Proc :=
  match waited with
  | .object0 exitCode =>
    if process.isSome && !s.running processId then some ((p.drop? process).back (exitCode.getD wingErrorFailed))
    else none
  | .timeout => if process.isSome then some ((p.drop? process).back waitTimeout) else none
  | .failed => some ((p.drop? process).back waitFailed)

def wingProcessKill (s : Kernel) (p : Proc) (processId : Nat) (answer : Option Nat) : Option Proc :=
  match answer with
  | none => some (p.back wingErrorProcessNotExists)
  | some v => (openProcess s p processId v).map fun h => { p.get h with pc := .killing h processId }

/-- `TerminateProcess`, after which the process and its handles are gone. -/
def wingProcessKillReturn (s : Kernel) (i : Nat) (p : Proc) (process : Handle Object) (processId : Nat)
    (terminated : Bool) : Option Kernel :=
  if terminated then
    if s.running processId then
      some ((s.set i ((p.drop process).back wingErrorSuccess)).filter fun q => q.pid != processId)
    else none
  else some (s.set i ((p.drop process).back wingErrorFailed))

/-- `GetCurrentProcess` gives no handle that is in the table. -/
def wingGetMemoryUsed (s : Kernel) (p : Proc) (processId : Int) (answer : Option Nat) : Option Proc :=
  if processId ≤ 0 then some { p with pc := .measuring none }
  else
    match answer with
    | none => some { p with pc := .measuring none }
    | some v => (openProcess s p processId.toNat v).map fun h => { p.get h with pc := .measuring (some h) }

def wingGetMemoryUsedReturn (p : Proc) (process : Option (Handle Object)) (workingSetSize : Nat) : Proc :=
  (p.drop? process).back workingSetSize

/-- `wing_create_process` and `wing_create_process_ex`: the file the output goes to can be inherited on Windows NT. -/
def wingCreateProcess (p : Proc) (nt : Bool) (createFile : Option Nat) : Option Proc :=
  match createFile with
  | none => some { p with pc := .redirected none }
  | some v =>
    if p.free v then
      let output : Handle Object := ⟨v, .file, nt⟩
      some { p.get output with pc := .redirected (some output) }
    else none

/-- What `CreateProcess` gives. -/
structure ProcessInformation where
  processId : Nat
  hProcess : Nat
  hThread : Nat
  deriving DecidableEq, Repr

/-- `CreateProcess`, with the handles that can be inherited. -/
def wingCreateProcessStart (s : Kernel) (i : Nat) (p : Proc) (output : Option (Handle Object))
    (answer : Option ProcessInformation) : Option Kernel :=
  match answer with
  | none => some (s.set i ((p.drop? output).back wingErrorFailed))
  | some pi =>
    if !s.known pi.processId && p.free pi.hProcess && p.free pi.hThread && pi.hProcess != pi.hThread then
      let process : Handle Object := ⟨pi.hProcess, .process pi.processId, false⟩
      let thread : Handle Object := ⟨pi.hThread, .thread pi.processId, false⟩
      some (s.set i { (p.get thread).get process with pc := .processCreated output process thread pi.processId } ++
        [.new pi.processId (inheritable p.handles)])
    else none

def wingCreateProcessReturn (p : Proc) (output : Option (Handle Object)) (process thread : Handle Object)
    (processId : Nat) : Proc :=
  (((p.drop? output).drop process).drop thread).back processId

def wingGetCurrentProcessId (p : Proc) : Proc := p.back p.pid

/-- The first `WingQueryProcess` of `wing_query_process`, which only counts; `s₁` is what it sees. -/
def wingQueryProcessCount (p : Proc) (s₁ : Snapshot) (v : Nat) : Option Proc :=
  let count := queryCount (UInt32.ofNat p.pid) s₁
  if s₁.chain.isSome && s₁.toolhelp.isSome then
    if p.free v then
      let hProcessSnap : Handle Object := ⟨v, .snapshot, false⟩
      some { p.get hProcessSnap with pc := .counting (some hProcessSnap) count }
    else none
  else some { p with pc := .counting none count }

/-- The processes of the cells an array was filled with. -/
def processIds (written : List (Nat × ProcessInfo)) : List Nat :=
  written.map fun cell => cell.2.processId.toUInt32.toNat

/-- The second `WingQueryProcess`, which sees `s₂`: it opens each process of the chain it lists, and, where there is a
Toolhelp snapshot, each one it adds from it but the caller. -/
def wingQueryProcessFill (p : Proc) (hProcessSnap : Option (Handle Object)) (count : Nat) (s₂ : Snapshot) : Proc :=
  let caller := UInt32.ofNat p.pid
  let total := (wingQueryProcess caller s₂ true count).1
  match s₂.chain with
  | none => { p.drop? hProcessSnap with pc := .filling [] none total }
  | some chain =>
    let nt := ntLoop caller true count chain ⟨0, false, []⟩
    let own := wingGetCurrentProcessInfo caller s₂ true nt.total ((count : Int) - nt.total) nt.hasCurrent
    let entries := s₂.toolhelp.map fun _ => (processIds own.2).filter fun pid => pid != caller.toNat
    { p.drop? hProcessSnap with pc := .filling (processIds nt.written) entries total }

/-- `WingOpenProcess` in one of the loops, which goes on with `pc`: nothing closes `hProcess`. -/
def wingOpenProcess (s : Kernel) (p : Proc) (processId : Nat) (pc : Pc) (answer : Option Nat) : Option Proc :=
  match answer with
  | none => some { p with pc := pc }
  | some v =>
    (openProcess s p processId v).map fun hProcess => { p.get hProcess with pc := pc, queried := hProcess :: p.queried }

/-- `WingGetCurrentProcessInfo` gets its snapshot. -/
def wingQueryProcessAdd (p : Proc) (entries : List Nat) (count v : Nat) : Option Proc :=
  if p.free v then
    let hProcessSnap : Handle Object := ⟨v, .snapshot, false⟩
    some { p.get hProcessSnap with pc := .adding hProcessSnap entries count }
  else none

def wingQueryProcessReturn (p : Proc) (hProcessSnap : Option (Handle Object)) (count : Nat) : Proc :=
  (p.drop? hProcessSnap).back count

/-! ## Steps -/

/-- A call of the script. -/
inductive Call where
  | createMutex (mutexName : List UInt8) (answer : Option Nat) (number : Nat)
  | closeMutex (mutexHandle : Int)
  | queryObject (handle : Int)
  | processWait (processId : Int) (answer : Option Nat)
  | processKill (processId : Nat) (answer : Option Nat)
  | memoryUsed (processId : Int) (answer : Option Nat)
  | createProcess (nt : Bool) (createFile : Option Nat)
  | getCurrentProcessId
  | queryProcess (s₁ : Snapshot) (hProcessSnap : Nat)

def call (s : Kernel) (p : Proc) : Call → Option Proc
  | .createMutex mutexName answer number => wingCreateMutex s p mutexName answer number
  | .closeMutex mutexHandle => some (wingCloseMutex p mutexHandle)
  | .queryObject handle => some (wingQueryObject s p handle)
  | .processWait processId answer => wingProcessWait s p processId answer
  | .processKill processId answer => wingProcessKill s p processId answer
  | .memoryUsed processId answer => wingGetMemoryUsed s p processId answer
  | .createProcess nt createFile => wingCreateProcess p nt createFile
  | .getCurrentProcessId => some (wingGetCurrentProcessId p)
  | .queryProcess s₁ hProcessSnap => wingQueryProcessCount p s₁ hProcessSnap

/-- What a call that goes on is told. -/
inductive Answer where
  | none
  | waited (waited : Waited)
  | terminated (terminated : Bool)
  | workingSetSize (size : Nat)
  | created (answer : Option ProcessInformation)
  | listed (s₂ : Snapshot)
  | opened (hProcess : Option Nat)
  | snapshot (hProcessSnap : Nat)

def goOn (s : Kernel) (i : Nat) (p : Proc) (answer : Answer) : Option Kernel :=
  match p.pc, answer with
  | .mutexCreated mutex existed, .none => some (s.set i (wingCreateMutexReturn p mutex existed))
  | .waiting process processId, .waited waited =>
    (wingProcessWaitReturn s p process processId waited).map (s.set i)
  | .killing process processId, .terminated terminated => wingProcessKillReturn s i p process processId terminated
  | .measuring process, .workingSetSize size => some (s.set i (wingGetMemoryUsedReturn p process size))
  | .redirected output, .created answer => wingCreateProcessStart s i p output answer
  | .processCreated output process thread processId, .none =>
    some (s.set i (wingCreateProcessReturn p output process thread processId))
  | .counting hProcessSnap count, .listed s₂ => some (s.set i (wingQueryProcessFill p hProcessSnap count s₂))
  | .filling (processId :: chain) entries count, .opened hProcess =>
    (wingOpenProcess s p processId (.filling chain entries count) hProcess).map (s.set i)
  | .filling [] (some entries) count, .snapshot v => (wingQueryProcessAdd p entries count v).map (s.set i)
  | .filling [] none count, .none => some (s.set i (wingQueryProcessReturn p none count))
  | .adding hProcessSnap (processId :: entries) count, .opened hProcess =>
    (wingOpenProcess s p processId (.adding hProcessSnap entries count) hProcess).map (s.set i)
  | .adding hProcessSnap [] count, .none => some (s.set i (wingQueryProcessReturn p (some hProcessSnap) count))
  | _, _ => none

inductive Act where
  | start (pid : Nat)
  | exit (i : Nat)
  | call (i : Nat) (c : Call)
  | goOn (i : Nat) (answer : Answer)

def step (s : Kernel) : Act → Option Kernel
  | .start pid => if s.known pid then none else some (s ++ [.new pid []])
  | .exit i => if i < s.length then some (s.eraseIdx i) else none
  | .call i c => (s[i]?.filter fun p => p.pc = .script).bind fun p => (call s p c).map (s.set i)
  | .goOn i answer => s[i]?.bind fun p => goOn s i p answer

def kernel : Machine Kernel Act := ⟨[], step⟩

end WingPhp.Process
