import WingPhp.Lib.CString
import WingPhp.Lib.LateTest

/-!
# The process list (`ntdll.c`)

`WingQueryProcess` walks the chain of `NtQuerySystemInformation` up to its last entry,
which has `NextEntryDelta` 0, and lets `WingGetCurrentProcessInfo` add the calling process
and its children from a Toolhelp snapshot.  Called with NULL it only counts.  What
the two system calls see is a `Snapshot`; what is written to `all_process` is kept as the list
of the cells written.
-/

namespace WingPhp.Process

/-- `PROCESSINFO`; a string is `none` where the pointer is NULL. -/
structure ProcessInfo where
  processName : Option (List UInt8)
  commandLine : Option (List UInt8)
  fileName : Option (List UInt8)
  filePath : Option (List UInt8)
  processId : Int32
  parentProcessId : Int32
  workingSetSize : Nat
  basePriority : Nat
  threadCount : Nat
  handleCount : Nat
  cpuTime : Nat
  deriving DecidableEq

/-- What `WingQueryProcessVariableSize` and the conversion after it gave: `none` when the query
failed, `some none` when the conversion gave NULL. -/
abbrev VariableString := Option (Option (List UInt8))

/-- `SYSTEM_PROCESSES`, and what opening that process gives. -/
structure SystemProcess where
  processId : UInt32
  inheritedFromProcessId : UInt32
  /-- `ProcessName`, converted. -/
  processName : Option (List UInt8)
  opened : Bool
  commandLine : VariableString
  imageFileName : VariableString
  imageFileNameWin32 : VariableString
  workingSetSize : Nat
  basePriority : Nat
  threadCount : Nat
  handleCount : Nat
  kernelTime : Nat
  userTime : Nat

/-- `PROCESSENTRY32`, and what the calls about that process give. -/
structure ProcessEntry where
  th32ProcessID : UInt32
  th32ParentProcessID : UInt32
  szExeFile : List UInt8
  /-- `szExePath` of its first module. -/
  szExePath : List UInt8
  opened : Bool
  commandLine : VariableString
  workingSetSize : Nat
  handleCount : Nat
  priorityClass : Nat

/-- What one call of `WingQueryProcess` sees; a system call that fails gives `none`. -/
structure Snapshot where
  /-- The chain of `NtQuerySystemInformation`. -/
  chain : Option (List SystemProcess)
  toolhelp : Option (List ProcessEntry)
  /-- `GetCommandLineA()`. -/
  commandLine : List UInt8

/-! ## One process -/

/-- `"System Idle Process"`, the name given to process 0. -/
def sysProcessName : List UInt8 := "System Idle Process".toList.map fun c => UInt8.ofNat c.toNat

/-- A string of an opened process; four zero bytes where it cannot be had. -/
def variableString (opened : Bool) (s : VariableString) : Option (List UInt8) :=
  match opened, s with
  | true, some text => text
  | _, _ => some []

def systemProcessInfo (p : SystemProcess) : ProcessInfo where
  processName := if p.processId = 0 then some sysProcessName else p.processName
  commandLine := variableString p.opened p.commandLine
  fileName := variableString p.opened p.imageFileName
  filePath := variableString p.opened p.imageFileNameWin32
  processId := p.processId.toInt32
  parentProcessId := p.inheritedFromProcessId.toInt32
  workingSetSize := p.workingSetSize
  basePriority := p.basePriority
  threadCount := p.threadCount
  handleCount := p.handleCount
  cpuTime := (p.kernelTime + p.userTime) / 10000 / 1000 % 0x100000000

def entryProcessInfo (caller : UInt32) (commandLine : List UInt8) (e : ProcessEntry) :
    ProcessInfo where
  processName := some (upToNul e.szExeFile)
  commandLine :=
    if e.th32ProcessID = caller then some (upToNul commandLine)
    else variableString e.opened e.commandLine
  fileName := some (upToNul e.szExeFile)
  filePath := some (upToNul e.szExePath)
  processId := e.th32ProcessID.toInt32
  parentProcessId := e.th32ParentProcessID.toInt32
  workingSetSize := e.workingSetSize
  basePriority := e.priorityClass
  threadCount := 0
  handleCount := e.handleCount
  cpuTime := 0

/-! ## The two loops -/

/-- The locals of a loop: `dwTotalProcess`, `has_current_process`, and the cells written. -/
structure Filled where
  total : Nat
  hasCurrent : Bool
  written : List (Nat × ProcessInfo)

/-- `while( NextEntryDelta != 0 )`: the last entry of the chain is not looked at. -/
def ntLoop (caller : UInt32) (allProcess : Bool) (maxCount : Nat) :
    List SystemProcess → Filled → Filled
  | p :: p' :: chain, s =>
    if !allProcess then ntLoop caller allProcess maxCount (p' :: chain) { s with total := s.total + 1 }
    else
      let s' : Filled := ⟨s.total + 1, s.hasCurrent || decide (p.processId = caller),
        s.written ++ [(s.total, systemProcessInfo p)]⟩
      if maxCount < s'.total then s' else ntLoop caller allProcess maxCount (p' :: chain) s'
  | _, s => s

/-- The loop of `WingGetCurrentProcessInfo` from `dwTotalProcess = t` on. -/
def toolhelpLoop (caller : UInt32) (commandLine : List UInt8) (allProcess : Bool) (start : Nat)
    (maxCount : Int) (hasCurrent : Bool) :
    List ProcessEntry → Nat → List (Nat × ProcessInfo) → Nat × List (Nat × ProcessInfo)
  | [], t, written => (t, written)
  | e :: entries, t, written =>
    if hasCurrent && decide (e.th32ProcessID = caller) then
      toolhelpLoop caller commandLine allProcess start maxCount hasCurrent entries t written
    else if e.th32ProcessID ≠ caller ∧ e.th32ParentProcessID ≠ caller then
      toolhelpLoop caller commandLine allProcess start maxCount hasCurrent entries t written
    else if !allProcess then
      toolhelpLoop caller commandLine allProcess start maxCount hasCurrent entries (t + 1) written
    else
      let written' := written ++ [(start + t, entryProcessInfo caller commandLine e)]
      if maxCount < (t + 1 : Nat) then (t + 1, written')
      else toolhelpLoop caller commandLine allProcess start maxCount hasCurrent entries (t + 1) written'

/-- `WingGetCurrentProcessInfo`; `start` is its parameter `from`. -/
def wingGetCurrentProcessInfo (caller : UInt32) (s : Snapshot) (allProcess : Bool) (start : Nat)
    (maxCount : Int) (hasCurrent : Bool) : Nat × List (Nat × ProcessInfo) :=
  match s.toolhelp with
  | none => (0, [])
  | some entries =>
    toolhelpLoop caller s.commandLine allProcess start maxCount hasCurrent entries 0 []

/-- `WingQueryProcess`: the count returned, and the cells of `all_process` written. -/
def wingQueryProcess (caller : UInt32) (s : Snapshot) (allProcess : Bool) (maxCount : Nat) :
    Nat × List (Nat × ProcessInfo) :=
  match s.chain with
  | none => (0, [])
  | some chain =>
    let nt := ntLoop caller allProcess maxCount chain ⟨0, false, []⟩
    let own := wingGetCurrentProcessInfo caller s allProcess nt.total ((maxCount : Int) - nt.total)
      nt.hasCurrent
    (nt.total + own.1, nt.written ++ own.2)

/-- The two calls of `wing_query_process`: the second fills an array of as many cells as the
first counted.  `s₁` and `s₂` are what the two calls see. -/
def queryCount (caller : UInt32) (s₁ : Snapshot) : Nat := (wingQueryProcess caller s₁ false 0).1

def queryFill (caller : UInt32) (s₁ s₂ : Snapshot) : Nat × List (Nat × ProcessInfo) :=
  wingQueryProcess caller s₂ true (queryCount caller s₁)

end WingPhp.Process
