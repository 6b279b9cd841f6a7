import Mathlib.Data.List.Infix
import WingPhp.Process.Query

/-!
# Searching the process list (`wing_process.c`)

`wing_query_process` walks the table and emits the processes that match the
keyword.  Emitting a process (`wing_query_process_item`) copies its four strings into the
result and deletes them.  A numeric string keyword goes through the numeric branch and
then through the text branch as well, which reads the strings again.  What is read
and released is kept as a list for each process; `stale` is what a string holds after
its release, and `none` a crash on a NULL string.
-/

namespace WingPhp.Process

/-- The four strings of a `PROCESSINFO`. -/
inductive StringField where
  | processName
  | commandLine
  | fileName
  | filePath
  deriving DecidableEq, Repr

def ProcessInfo.string (p : ProcessInfo) : StringField → Option (List UInt8)
  | .processName => p.processName
  | .commandLine => p.commandLine
  | .fileName => p.fileName
  | .filePath => p.filePath

inductive StringUse where
  | read (f : StringField)
  | release (f : StringField)
  deriving DecidableEq, Repr

/-- The keyword argument.  `Z_STRLEN_P` of a number reads what the union holds there. -/
inductive Keyword where
  | null
  | long (value : Int32) (strlen : Nat)
  | string (bytes : List UInt8)

def Keyword.strlen : Keyword → Nat
  | .null => 0
  | .long _ n => n
  | .string bytes => bytes.length

def wingSearchByProcessName : Int := 1
def wingSearchByProcessId : Int := 2
def wingSearchByParentProcessId : Int := 3
def wingSearchByCommandLine : Int := 4
def wingSearchByProcessFilePath : Int := 5

/-- One element of the returned array. -/
structure Item where
  processName : List UInt8
  commandLine : List UInt8
  fileName : List UInt8
  filePath : List UInt8
  processId : Int32
  parentProcessId : Int32
  workingSetSize : Nat
  basePriority : Nat
  threadCount : Nat
  handleCount : Nat
  cpuTime : Nat
  deriving DecidableEq

section

-- what a released string reads as, and two functions of the engine
variable (stale : StringField → List UInt8) (isNumericString : List UInt8 → Bool)
  (zendAtoi : List UInt8 → Int32)

/-- The C string behind a pointer; `released` when its process was emitted before. -/
def readString (released : Bool) (p : ProcessInfo) (f : StringField) : Option (List UInt8) :=
  (p.string f).map fun bytes => if released then stale f else upToNul bytes

/-- `wing_query_process_item`. -/
def wingQueryProcessItem (released : Bool) (p : ProcessInfo) : Option (Item × List StringUse) :=
  match readString stale released p .processName, readString stale released p .commandLine,
    readString stale released p .fileName, readString stale released p .filePath with
  | some processName, some commandLine, some fileName, some filePath =>
    some (⟨processName, commandLine, fileName, filePath, p.processId, p.parentProcessId,
        p.workingSetSize, p.basePriority, p.threadCount, p.handleCount, p.cpuTime⟩,
      [.read .processName, .release .processName, .read .commandLine, .release .commandLine,
        .read .fileName, .release .fileName, .read .filePath, .release .filePath])
  | _, _, _, _ => none

/-- The comparisons of the numeric branch. -/
def numberHit (searchBy : Int) (keyword : Int32) (p : ProcessInfo) : Bool :=
  if searchBy ≤ 0 then keyword == p.processId || keyword == p.parentProcessId
  else if searchBy = wingSearchByProcessId then keyword == p.processId
  else if searchBy = wingSearchByParentProcessId then keyword == p.parentProcessId
  else false

/-- The strings the text branch looks at, in order. -/
def textFields (searchBy : Int) : List StringField :=
  if searchBy ≤ 0 then [.processName, .commandLine, .filePath]
  else if searchBy = wingSearchByProcessName then [.processName]
  else if searchBy = wingSearchByCommandLine then [.commandLine]
  else if searchBy = wingSearchByProcessFilePath then [.filePath]
  else []

/-- `s != NULL && strlen(s) > 0 && strstr(s,keyword) != NULL`, one string after the other until
one matches; and the strings read. -/
def textHit (released : Bool) (keyword : List UInt8) (p : ProcessInfo) :
    List StringField → Bool × List StringUse
  | [] => (false, [])
  | f :: fields =>
    match readString stale released p f with
    | none => textHit released keyword p fields
    | some text =>
      if 0 < text.length ∧ upToNul keyword <:+: text then (true, [.read f])
      else
        let (hit, uses) := textHit released keyword p fields
        (hit, .read f :: uses)

/-- The value a keyword has in the numeric branch, if it goes there. -/
def keywordNumber : Keyword → Option Int32
  | .null => none
  | .long value _ => some value
  | .string bytes => if isNumericString bytes then some (zendAtoi bytes) else none

/-- The numeric branch: what is emitted, and the strings used. -/
def numericBranch (keyword : Keyword) (searchBy : Int) (p : ProcessInfo) :
    Option (List Item × List StringUse) :=
  match keywordNumber isNumericString zendAtoi keyword with
  | none => some ([], [])
  | some number =>
    if numberHit searchBy number p then
      (wingQueryProcessItem stale false p).map fun r => ([r.1], r.2)
    else some ([], [])

/-- The text branch, for a process whose strings are gone if it was emitted before. -/
def textBranch (released : Bool) (keyword : Keyword) (searchBy : Int) (p : ProcessInfo) :
    Option (List Item × List StringUse) :=
  match keyword with
  | .string bytes =>
    if 0 < bytes.length then
      let (hit, uses) := textHit stale released bytes p (textFields searchBy)
      if hit then (wingQueryProcessItem stale released p).map fun r => ([r.1], uses ++ r.2)
      else some ([], uses)
    else some ([], [])
  | _ => some ([], [])

/-- One turn of the loop. -/
def searchOne (keyword : Keyword) (searchBy : Int) (p : ProcessInfo) :
    Option (List Item × List StringUse) :=
  if keyword.strlen = 0 then (wingQueryProcessItem stale false p).map fun r => ([r.1], r.2)
  else
    (numericBranch stale isNumericString zendAtoi keyword searchBy p).bind fun r₁ =>
      (textBranch stale (decide (r₁.1 ≠ [])) keyword searchBy p).map fun r₂ =>
        (r₁.1 ++ r₂.1, r₁.2 ++ r₂.2)

/-- The array returned, and what was done to the strings of each process. -/
structure SearchResult where
  items : List Item
  uses : List (List StringUse)
  deriving DecidableEq

/-- The loop of `wing_query_process` over the table. -/
def searchTable (keyword : Keyword) (searchBy : Int) : List ProcessInfo → Option SearchResult
  | [] => some ⟨[], []⟩
  | p :: table =>
    (searchOne stale isNumericString zendAtoi keyword searchBy p).bind fun r =>
      (searchTable keyword searchBy table).map fun rest => ⟨r.1 ++ rest.items, r.2 :: rest.uses⟩

end

/-- `wing_query_process`: the loop over the table the two calls of `WingQueryProcess` filled. -/
def zendWingQueryProcess (stale : StringField → List UInt8) (isNumericString : List UInt8 → Bool)
    (zendAtoi : List UInt8 → Int32) (caller : UInt32) (s₁ s₂ : Snapshot) (keyword : Keyword)
    (searchBy : Int) : Option SearchResult :=
  searchTable stale isNumericString zendAtoi keyword searchBy
    ((queryFill caller s₁ s₂).2.map Prod.snd)

end WingPhp.Process
