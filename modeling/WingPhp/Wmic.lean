import WingPhp.Lib.Machine
import WingPhp.WingString.Append

/-!
# `WingWmic`

An object of `helper/WingWmic.class.c`: an error flag and the interface pointers, of which it only
matters whether they are `NULL`.  What COM answers is part of each call: an `HRESULT`, and what the
call leaves in its out pointer.  A method called through `NULL` is a `Fault`.

`next` does not look at the flag, and `get` looks at nothing else.  `Phase` is what a caller has to
keep in mind instead, and `wingWmic_safe_iff` says that this is enough and needed.

The hardware ids of `helper/hardware_info.c` are read in one loop (`readIds`).
-/

namespace WingPhp.Wmic

open Transition Memory Strings

/-- An `HRESULT`; negative ones are failures. -/
abbrev Hresult := Int

/-- `FAILED( hr )`. -/
abbrev Failed (hr : Hresult) : Prop := hr < 0

structure WingWmic where
  hasError : Bool
  pLoc : Bool
  pSvc : Bool
  pEnumerator : Bool
  pclsObj : Bool
  deriving DecidableEq, Repr

/-- What the calls in the constructor answer. -/
structure Setup where
  coInitializeEx : Hresult
  coInitializeSecurity : Hresult
  coCreateInstance : Hresult
  connectServer : Hresult
  coSetProxyBlanket : Hresult

/-- `WingWmic::WingWmic`. -/
def WingWmic.new (com : Setup) : WingWmic :=
  let w : WingWmic := ⟨false, false, false, false, false⟩
  if Failed com.coInitializeEx then { w with hasError := true }
  else if Failed com.coInitializeSecurity then { w with hasError := true }
  else if Failed com.coCreateInstance then { w with hasError := true }
  else
    let w := { w with pLoc := true }
    if Failed com.connectServer then { w with hasError := true }
    else
      let w := { w with pSvc := true }
      if Failed com.coSetProxyBlanket then { w with hasError := true } else w

/-- A method of the object behind a pointer. -/
def through (pointer : Bool) : Except Fault Unit := if pointer then .ok () else .error .null

/-- `WingWmic::query`.  A failing `ExecQuery` leaves its out pointer alone, or clears it. -/
def WingWmic.query (w : WingWmic) (hres : Hresult) (cleared : Bool) : Except Fault WingWmic :=
  if w.hasError then .ok w
  else do
    through w.pSvc
    if Failed hres then .ok { w with hasError := true, pEnumerator := w.pEnumerator && !cleared }
    else .ok { w with pEnumerator := true }

/-- `WingWmic::next`; `row` is `uReturn`, whether `Next` has put a row into `pclsObj`, and is all it answers: the
`HRESULT` of `Next` is not looked at, and is not represented here. -/
def WingWmic.next (w : WingWmic) (row : Bool) : Except Fault (WingWmic × Bool) := do
  let w := if w.pclsObj then { w with pclsObj := false } else w
  through w.pEnumerator
  .ok ({ w with pclsObj := row }, row)

/-- `WingWmic::get`, with what the row's `Get` answers and the text made of the value, if any. -/
def WingWmic.get (w : WingWmic) (hr : Hresult) (value : Option (List UInt8)) :
    Except Fault (WingWmic × Option (List UInt8)) :=
  if w.hasError then do
    through w.pEnumerator
    .ok ({ w with pEnumerator := false }, none)
  else do
    through w.pclsObj
    .ok (w, if Failed hr then none else value)

/-! ## The hardware ids -/

/-- What `Get` answers for a key. -/
abbrev Row := String → Hresult × Option (List UInt8)

/-- COM, as a query of a fresh object finds it. -/
structure Wmi where
  setup : Setup
  execQuery : String → Hresult × Bool × List Row

/-- `while( mic.next() )`, with `put` for what is done with a value that is not `NULL`. -/
def readItems {γ : Type} (put : γ → List UInt8 → Except Fault γ) (key : String) :
    WingWmic → γ → List Row → Except Fault γ
  | mic, items, [] => do
    let _ ← mic.next false
    .ok items
  | mic, items, row :: rows => do
    let (mic, _) ← mic.next true
    let (mic, item) ← mic.get (row key).1 (row key).2
    match item with
    | some t => do
      let items ← put items t
      readItems put key mic items rows
    | none => readItems put key mic items rows

/-- The object, the query and the loop. -/
def hardwareItems {γ : Type} (put : γ → List UInt8 → Except Fault γ) (items : γ) (wmi : Wmi)
    (sql key : String) : Except Fault γ := do
  let mic := WingWmic.new wmi.setup
  let (hres, cleared, rows) := wmi.execQuery sql
  let mic ← mic.query hres cleared
  readItems put key mic items rows

/-- `ws.append( item )`. -/
def appendItem (cp : CodePages) (ws : WingString) (item : List UInt8) : Except Fault WingString :=
  ws.appendChar cp (some (item ++ [0])) 0

/-- `get_cpu_id`. -/
def getCpuId (cp : CodePages) (wmi : Wmi) : Except Fault (Ptr UInt8) := do
  let ws ← hardwareItems (appendItem cp) .new wmi "SELECT * FROM Win32_Processor" "ProcessorId"
  ws.cStr cp

/-- `get_serial_number`. -/
def getSerialNumber (cp : CodePages) (wmi : Wmi) : Except Fault (Ptr UInt8) := do
  let ws ← hardwareItems (appendItem cp) .new wmi "SELECT * FROM Win32_PhysicalMedia" "SerialNumber"
  ws.cStr cp

/-- An array of `wing_hardware_info.c`: its items have one entry each. -/
abbrev ItemArray := List (String × List UInt8)

def addItem (field : String) (items : ItemArray) (item : List UInt8) : Except Fault ItemArray :=
  .ok (items ++ [(field, item)])

/-- `wing_get_cpu_id`. -/
def wingGetCpuId (wmi : Wmi) : Except Fault ItemArray :=
  hardwareItems (addItem "processor_id") [] wmi "SELECT * FROM Win32_Processor" "ProcessorId"

/-- `wing_get_serial_number`. -/
def wingGetSerialNumber (wmi : Wmi) : Except Fault ItemArray :=
  hardwareItems (addItem "serial_number") [] wmi "SELECT * FROM Win32_PhysicalMedia" "SerialNumber"

/-! ## Sequences of calls -/

inductive WmicCall where
  | query (hres : Hresult) (cleared : Bool)
  | next (row : Bool)
  | get (hr : Hresult) (value : Option (List UInt8))

inductive Answer where
  | done
  | row (more : Bool)
  | value (t : Option (List UInt8))
  deriving DecidableEq, Repr

def WingWmic.call (w : WingWmic) : WmicCall → Except Fault (WingWmic × Answer)
  | .query hres cleared => do
    let w ← w.query hres cleared
    .ok (w, .done)
  | .next row => do
    let (w, more) ← w.next row
    .ok (w, .row more)
  | .get hr value => do
    let (w, t) ← w.get hr value
    .ok (w, .value t)

def wmicCalls (com : Setup) : Machine WingWmic WmicCall where
  init := .new com
  step w a :=
    match w.call a with
    | .ok (w', _) => some w'
    | .error _ => none

/-- No row and no value. -/
def Answer.Nothing : Answer → Prop
  | .done => True
  | .row more => more = false
  | .value t => t = none

/-- The call goes through no `NULL`, and after a failure it answers nothing. -/
def Sound (w : WingWmic) (a : WmicCall) : Prop :=
  ∃ w' answer, w.call a = .ok (w', answer) ∧ (w.hasError = true → answer.Nothing)

/-! ## What a caller keeps in mind -/

/-- `ready`: nothing queried yet.  `rows`: a query went well, and there is a current row or not.
`failed`: something went wrong, and the enumerator of an earlier query is still held or not. -/
inductive Phase where
  | ready
  | rows (current : Bool)
  | failed (held : Bool)
  deriving DecidableEq, Repr

def Phase.start (com : Setup) : Phase :=
  if Failed com.coInitializeEx ∨ Failed com.coInitializeSecurity ∨ Failed com.coCreateInstance ∨
      Failed com.connectServer ∨ Failed com.coSetProxyBlanket then
    .failed false
  else .ready

/-- `next` wants a query that went well, and after a failure no row left; `get` wants a current row,
or an enumerator to let go of after a failure. -/
def Phase.Allows : Phase → WmicCall → Prop
  | _, .query .. => True
  | .ready, _ => False
  | .rows _, .next _ => True
  | .rows current, .get .. => current = true
  | .failed held, .next row => held = true ∧ row = false
  | .failed held, .get .. => held = true

def Phase.after : Phase → WmicCall → Phase
  | .ready, .query hres _ => if Failed hres then .failed false else .rows false
  | .rows current, .query hres cleared => if Failed hres then .failed (!cleared) else .rows current
  | .failed held, .query .. => .failed held
  | .rows _, .next row => .rows row
  | .failed _, .get .. => .failed false
  | phase, _ => phase

/-- The phases of a caller, for themselves. -/
def phases (com : Setup) : Machine Phase WmicCall where
  init := .start com
  step phase a := some (phase.after a)

/-- What the object is in a phase. -/
def InPhase (w : WingWmic) : Phase → Prop
  | .ready => w.hasError = false ∧ w.pSvc = true ∧ w.pEnumerator = false ∧ w.pclsObj = false
  | .rows current => w.hasError = false ∧ w.pSvc = true ∧ w.pEnumerator = true ∧ w.pclsObj = current
  | .failed held => w.hasError = true ∧ w.pEnumerator = held

theorem inPhase_new (com : Setup) : InPhase (.new com) (.start com) := by
  unfold WingWmic.new Phase.start
  by_cases h₁ : Failed com.coInitializeEx
  · simp [h₁, InPhase]
  · by_cases h₂ : Failed com.coInitializeSecurity
    · simp [h₁, h₂, InPhase]
    · by_cases h₃ : Failed com.coCreateInstance
      · simp [h₁, h₂, h₃, InPhase]
      · by_cases h₄ : Failed com.connectServer
        · simp [h₁, h₂, h₃, h₄, InPhase]
        · by_cases h₅ : Failed com.coSetProxyBlanket
          · simp [h₁, h₂, h₃, h₄, h₅, InPhase]
          · simp [h₁, h₂, h₃, h₄, h₅, InPhase]

variable {w : WingWmic} {phase : Phase}

/-! ## The methods -/

theorem query_healthy (herr : w.hasError = false) (hsvc : w.pSvc = true) (hres : Hresult) (cleared : Bool) :
    w.query hres cleared =
      .ok (if Failed hres then { w with hasError := true, pEnumerator := w.pEnumerator && !cleared }
        else { w with pEnumerator := true }) := by
  by_cases hf : Failed hres <;> simp [WingWmic.query, through, herr, hsvc, hf]

theorem next_eq (w : WingWmic) (row : Bool) :
    w.next row = if w.pEnumerator then .ok ({ w with pclsObj := row }, row) else .error .null := by
  cases henum : w.pEnumerator <;> cases hobj : w.pclsObj <;> simp [WingWmic.next, through, henum, hobj]

theorem get_healthy (herr : w.hasError = false) (hr : Hresult) (value : Option (List UInt8)) :
    w.get hr value = if w.pclsObj then .ok (w, if Failed hr then none else value) else .error .null := by
  cases hobj : w.pclsObj <;> simp [WingWmic.get, through, herr, hobj]

theorem get_failed (herr : w.hasError = true) (hr : Hresult) (value : Option (List UInt8)) :
    w.get hr value =
      if w.pEnumerator then .ok ({ w with pEnumerator := false }, none) else .error .null := by
  cases henum : w.pEnumerator <;> simp [WingWmic.get, through, herr, henum]

/-! ## A call in a phase -/

/-- **What is allowed goes well**, and leads to the next phase. -/
theorem call_of_allows (h : InPhase w phase) {a : WmicCall} (ha : phase.Allows a) :
    ∃ w' answer, w.call a = .ok (w', answer) ∧ (w.hasError = true → answer.Nothing) ∧
      InPhase w' (phase.after a) := by
  cases a with
  | query hres cleared =>
    cases phase with
    | ready =>
      obtain ⟨herr, hsvc, henum, hrow⟩ := h
      refine ⟨_, .done, by rw [WingWmic.call, query_healthy herr hsvc]; rfl, fun _ => trivial, ?_⟩
      by_cases hf : Failed hres <;> simp [Phase.after, hf, InPhase, herr, hsvc, henum, hrow]
    | rows current =>
      obtain ⟨herr, hsvc, henum, hrow⟩ := h
      refine ⟨_, .done, by rw [WingWmic.call, query_healthy herr hsvc]; rfl, fun _ => trivial, ?_⟩
      by_cases hf : Failed hres <;> simp [Phase.after, hf, InPhase, herr, hsvc, henum, hrow]
    | failed held =>
      exact ⟨w, .done, by simp [WingWmic.call, WingWmic.query, h.1], fun _ => trivial, h⟩
  | next row =>
    have hcall : w.pEnumerator = true →
        w.call (.next row) = .ok ({ w with pclsObj := row }, .row row) := by
      intro henum
      rw [WingWmic.call, next_eq, if_pos henum]
      rfl
    cases phase with
    | ready => cases ha
    | rows current =>
      obtain ⟨herr, hsvc, henum, -⟩ := h
      exact ⟨_, _, hcall henum, by simp [herr], herr, hsvc, henum, rfl⟩
    | failed held =>
      obtain ⟨herr, henum⟩ := h
      obtain ⟨rfl, rfl⟩ := ha
      exact ⟨_, _, hcall henum, fun _ => rfl, herr, henum⟩
  | get hr value =>
    cases phase with
    | ready => cases ha
    | rows current =>
      obtain ⟨herr, hsvc, henum, hrow⟩ := h
      obtain rfl : current = true := ha
      refine ⟨w, .value (if Failed hr then none else value), ?_, by simp [herr], herr, hsvc, henum, hrow⟩
      rw [WingWmic.call, get_healthy herr, if_pos hrow]
      rfl
    | failed held =>
      obtain ⟨herr, henum⟩ := h
      obtain rfl : held = true := ha
      refine ⟨{ w with pEnumerator := false }, .value none, ?_, fun _ => rfl, herr, rfl⟩
      rw [WingWmic.call, get_failed herr, if_pos henum]
      rfl

/-- Nothing else does. -/
theorem allows_of_sound (h : InPhase w phase) {a : WmicCall} (hs : Sound w a) : phase.Allows a := by
  obtain ⟨w', answer, hcall, hnothing⟩ := hs
  cases a with
  | query => cases phase <;> exact trivial
  | next row =>
    obtain ⟨next, hnext, heq⟩ := bind_eq_ok.mp hcall
    rw [next_eq] at hnext
    have henum : w.pEnumerator = true := by
      by_contra hne
      rw [if_neg hne] at hnext
      cases hnext
    rw [if_pos henum] at hnext
    cases hnext
    cases heq
    cases phase with
    | ready =>
      rw [h.2.2.1] at henum
      cases henum
    | rows => trivial
    | failed held => exact ⟨h.2.symm.trans henum, hnothing h.1⟩
  | get hr value =>
    obtain ⟨got, hget, -⟩ := bind_eq_ok.mp hcall
    cases phase with
    | ready =>
      rw [get_healthy h.1, h.2.2.2] at hget
      cases hget
    | rows current =>
      rw [get_healthy h.1, h.2.2.2] at hget
      cases current with
      | true => exact rfl
      | false => cases hget
    | failed held =>
      rw [get_failed h.1, h.2] at hget
      cases held with
      | true => exact rfl
      | false => cases hget

/-- **No method goes through `NULL`, and after a failure nothing is answered**, in all of a sequence
of calls, exactly if each is allowed in the phase it is made in. -/
theorem wingWmic_safe_iff (com : Setup) (calls : List WmicCall) :
    (wmicCalls com).Along Sound (.new com) calls ↔ (phases com).Along Phase.Allows (.start com) calls := by
  refine Machine.along_sim (R := InPhase) (fun w phase a h => ?_) (fun w phase a h hs => ?_)
    (inPhase_new com) calls
  · constructor
    · exact allows_of_sound h
    · intro ha
      obtain ⟨w', answer, hcall, hnothing, -⟩ := call_of_allows h ha
      exact ⟨w', answer, hcall, hnothing⟩
  · obtain ⟨w', answer, hcall, -, hphase⟩ := call_of_allows h (allows_of_sound h hs)
    show Option.Rel InPhase (match w.call a with | .ok (w', _) => some w' | .error _ => none) _
    rw [hcall]
    exact .some hphase

/-- COM does not start, the query is made all the same, and the loop asks for its first row. -/
theorem wingWmic_unchecked :
    ¬ ∀ (com : Setup) (calls : List WmicCall), (wmicCalls com).Along Sound (.new com) calls := by
  intro h
  obtain ⟨-, hnext, -⟩ := h ⟨-1, 0, 0, 0, 0⟩ [.query 0 false, .next false]
  obtain ⟨w', answer, hcall, -⟩ := hnext
  cases hcall

/-! ## The hardware ids again -/

/-- The values of a key, in the order of the rows. -/
def valuesOf (key : String) (rows : List Row) : List (List UInt8) :=
  rows.filterMap fun row => if Failed (row key).1 then none else (row key).2

variable {γ : Type} {put : γ → List UInt8 → Except Fault γ}

theorem readItems_eq (key : String) {rows : List Row} {mic : WingWmic} (herr : mic.hasError = false)
    (henum : mic.pEnumerator = true) (items : γ) :
    readItems put key mic items rows = (valuesOf key rows).foldlM put items := by
  induction rows generalizing mic items with
  | nil =>
    rw [readItems, next_eq, if_pos henum]
    rfl
  | cons row rows ih =>
    have hnext : mic.next true = .ok ({ mic with pclsObj := true }, true) := by
      rw [next_eq, if_pos henum]
    have hget := @get_healthy { mic with pclsObj := true } herr (row key).1 (row key).2
    rw [if_pos rfl] at hget
    simp only [readItems, hnext, ok_bind, hget]
    by_cases hf : Failed (row key).1
    · have hvalues : valuesOf key (row :: rows) = valuesOf key rows := List.filterMap_cons_none (if_pos hf)
      rw [if_pos hf, hvalues]
      exact @ih { mic with pclsObj := true } herr henum items
    · cases hv : (row key).2 with
      | none =>
        have hvalues : valuesOf key (row :: rows) = valuesOf key rows :=
          List.filterMap_cons_none ((if_neg hf).trans hv)
        rw [if_neg hf, hvalues]
        exact @ih { mic with pclsObj := true } herr henum items
      | some t =>
        have hvalues : valuesOf key (row :: rows) = t :: valuesOf key rows :=
          List.filterMap_cons_some ((if_neg hf).trans hv)
        rw [if_neg hf, hvalues, List.foldlM_cons]
        show (put items t >>= fun items => readItems put key { mic with pclsObj := true } items rows) = _
        congr 1
        funext items
        exact @ih { mic with pclsObj := true } herr henum items

/-- The setup and the query go well. -/
def Wmi.Answers (wmi : Wmi) (sql : String) : Prop :=
  Phase.start wmi.setup = .ready ∧ ¬ Failed (wmi.execQuery sql).1

instance (wmi : Wmi) (sql : String) : Decidable (wmi.Answers sql) := inferInstanceAs (Decidable (_ ∧ _))

/-- **The ids are read when COM is set up and the query goes well**, and otherwise the first `next`
goes through `NULL`. -/
theorem hardwareItems_eq (items : γ) (wmi : Wmi) (sql key : String) :
    hardwareItems put items wmi sql key =
      if wmi.Answers sql then (valuesOf key (wmi.execQuery sql).2.2).foldlM put items
      else .error .null := by
  have hnull : ∀ (mic : WingWmic) (rows : List Row), mic.pEnumerator = false →
      readItems put key mic items rows = .error .null := by
    intro mic rows henum
    cases rows <;> simp [readItems, next_eq, henum]
  have hphase := inPhase_new wmi.setup
  by_cases hready : Phase.start wmi.setup = .ready
  · rw [hready] at hphase
    obtain ⟨herr, hsvc, henum, -⟩ := hphase
    simp only [hardwareItems, query_healthy herr hsvc, ok_bind]
    by_cases hf : Failed (wmi.execQuery sql).1
    · rw [if_pos hf, if_neg (fun h => h.2 hf)]
      exact hnull _ _ (by simp [henum])
    · rw [if_neg hf, if_pos ⟨hready, hf⟩]
      refine readItems_eq key ?_ rfl items
      exact herr
  · have hfailed : Phase.start wmi.setup = .failed false := by
      unfold Phase.start at hready ⊢
      split
      · rfl
      · next hn => rw [if_neg hn] at hready; exact absurd rfl hready
    rw [hfailed] at hphase
    rw [if_neg fun h => hready h.1]
    simp only [hardwareItems, WingWmic.query, hphase.1, if_true, ok_bind]
    exact hnull _ _ hphase.2

theorem foldlM_addItem (field : String) (vs : List (List UInt8)) (items : ItemArray) :
    vs.foldlM (addItem field) items = .ok (items ++ vs.map fun v => (field, v)) := by
  induction vs generalizing items with
  | nil => rw [List.map_nil, List.append_nil]; rfl
  | cons v vs ih =>
    rw [List.foldlM_cons]
    show vs.foldlM (addItem field) (items ++ [(field, v)]) = _
    rw [ih, List.append_assoc]
    rfl

/-- The values a query finds; without COM it faults. -/
def Wmi.found (wmi : Wmi) (sql key : String) : Except Fault (List (List UInt8)) :=
  if wmi.Answers sql then .ok (valuesOf key (wmi.execQuery sql).2.2) else .error .null

/-- One item to a value. -/
theorem hardwareItems_addItem (wmi : Wmi) (field sql key : String) :
    hardwareItems (addItem field) [] wmi sql key = (wmi.found sql key).map fun vs => vs.map fun v => (field, v) := by
  rw [hardwareItems_eq, foldlM_addItem, Wmi.found]
  split_ifs
  · rfl
  · rfl

/-- The values one behind the other; `NULL` when there are none. -/
def joined : List (List UInt8) → Ptr UInt8
  | [] => none
  | v :: vs => some (v ++ vs.flatten ++ [0])

theorem foldlM_appendItem {cp : CodePages} (hcp : cp.Total) {vs : List (List UInt8)} (hfree : ∀ v ∈ vs, 0 ∉ v)
    {ws : WingString} {t : List UInt8} (hws : ws.Holds (.char t)) :
    ∃ ws', vs.foldlM (appendItem cp) ws = .ok ws' ∧ ws'.Holds (.char (t ++ vs.flatten)) := by
  induction vs generalizing ws t with
  | nil => exact ⟨ws, rfl, by rwa [List.flatten_nil, List.append_nil]⟩
  | cons v vs ih =>
    obtain ⟨hv, hvs⟩ := List.forall_mem_cons.mp hfree
    obtain ⟨y, hy, ws₁, hcall, -, hiff⟩ := WingString.appendChar_joins hcp hws hv [] (.inl (Int.le_refl 0))
    cases hy
    have hws₁ : ws₁.Holds (.char (t ++ v)) := hiff.mpr fun h => nomatch h
    obtain ⟨ws', hfold, hws'⟩ := ih hvs hws₁
    refine ⟨ws', ?_, ?_⟩
    · rw [List.append_nil] at hcall
      rw [List.foldlM_cons, show appendItem cp ws v = .ok ws₁ from hcall]
      exact hfold
    · rwa [List.flatten_cons, ← List.append_assoc]

/-- **The text handed out is all the values of the key**, or the loop has gone through `NULL`. -/
theorem hardwareItems_appendItem {cp : CodePages} (hcp : cp.Total) (wmi : Wmi) (sql key : String)
    (hfree : ∀ v ∈ valuesOf key (wmi.execQuery sql).2.2, 0 ∉ v) :
    (hardwareItems (appendItem cp) .new wmi sql key >>= fun ws => ws.cStr cp) = (wmi.found sql key).map joined := by
  rw [hardwareItems_eq, Wmi.found]
  by_cases hok : wmi.Answers sql
  · rw [if_pos hok, if_pos hok]
    generalize valuesOf key (wmi.execQuery sql).2.2 = vs at hfree
    cases vs with
    | nil => rfl
    | cons v vs =>
      obtain ⟨hv, hvs⟩ := List.forall_mem_cons.mp hfree
      have hnew : WingString.new.Holds .unknown := ⟨rfl, rfl, trivial, fun h => absurd rfl h⟩
      obtain ⟨y, hy, ws₁, hcall, -, hiff⟩ := WingString.appendChar_joins hcp hnew hv [] (.inl (Int.le_refl 0))
      cases hy
      have hws₁ : ws₁.Holds (.char v) := hiff.mpr fun h => nomatch h
      obtain ⟨ws, hfold, hws⟩ := foldlM_appendItem hcp hvs hws₁
      rw [List.append_nil] at hcall
      rw [List.foldlM_cons, show appendItem cp .new v = .ok ws₁ from hcall, ok_bind, hfold, ok_bind]
      obtain ⟨rest, hstr⟩ := hws.block (by simp)
      have hsize := hws.size
      have hne : ¬ (ws.str = none ∨ ws.strSize ≤ 0) := by
        rw [hstr, hsize]
        simp [Content.bytes]
      rw [WingString.cStr, hws.type]
      show ws.copy = _
      rw [WingString.copy, if_neg hne, hstr, hsize, memcpy_malloc _ _ (Nat.le_refl _), Nat.sub_self]
      show Except.ok (some (_ ++ [])) = _
      rw [List.append_nil]
      rfl
  · rw [if_neg hok, if_neg hok]
    rfl

/-- Three rows, of which the second has no value. -/
def exampleWmi : Wmi where
  setup := ⟨0, 0, 0, 0, 0⟩
  execQuery _ := (0, false, [fun _ => (0, some [65]), fun _ => (-1, none), fun _ => (0, some [66])])

end WingPhp.Wmic
