import WingPhp.Lib.Machine
import WingPhp.Lib.Memory

/-!
# `wing_get_env` and `wing_set_env`

The environment of the process and the last error of the thread.  `canon` is what Win32 takes two
names for the same by (it does not see the case of letters); names and values come from PHP with a
length, and Win32 reads them up to their NUL.

`wing_get_env` asks for the size of the value first, and gives up when the last error is
`ERROR_ENVVAR_NOT_FOUND`, also if the size is there: `wingGetEnv_right_iff`.
-/

namespace WingPhp.Base

open Transition Memory

/-- `ERROR_ENVVAR_NOT_FOUND`. -/
def errorEnvvarNotFound : Nat := 203

/-- `WING_ERROR_SUCCESS` and `WING_ERROR_FAILED`. -/
def wingErrorSuccess : Int := 1
def wingErrorFailed : Int := -2

/-- A PHP string. -/
abbrev Str := List UInt8

structure Process where
  env : Str → Option Str
  lastError : Nat

/-- `GetEnvironmentVariable( name, buffer, size )`: its answer, what it writes into the buffer (the
NUL left out), and the process afterwards. -/
def getEnvironmentVariable (p : Process) (key : Str) (size : Nat) : Nat × Str × Process :=
  match p.env key with
  | none => (0, [], { p with lastError := errorEnvvarNotFound })
  | some value => if size ≤ value.length then (value.length + 1, [], p) else (value.length, value, p)

/-- `wing_get_env`. -/
def wingGetEnv (canon : Str → Str) (p : Process) (name : Str) : Process × Str :=
  let key := canon (text name)
  let (size, _, p) := getEnvironmentVariable p key 0
  if size ≤ 0 ∨ p.lastError = errorEnvvarNotFound then (p, [])
  else
    let (size, var, p) := getEnvironmentVariable p key size
    if size = 0 then (p, []) else (p, var.take size)

/-- `wing_set_env`, with the answer of `SetEnvironmentVariableA` and the last error it leaves. -/
def wingSetEnv (canon : Str → Str) (p : Process) (name value : Str) (done : Bool) (lastError : Nat) :
    Process × Int :=
  if done then
    ({ env := Function.update p.env (canon (text name)) (some (text value)), lastError }, wingErrorSuccess)
  else ({ p with lastError }, wingErrorFailed)

/-! ## Histories -/

inductive EnvCall where
  | get (name : Str)
  | set (name value : Str) (done : Bool) (lastError : Nat)
  /-- Whatever else the script does, with the last error it leaves. -/
  | other (lastError : Nat)

/-- The process, with the environment it inherits. -/
def envCalls (canon : Str → Str) (inherited : Str → Option Str) (lastError : Nat) : Machine Process EnvCall where
  init := { env := fun key => (inherited key).map text, lastError }
  step p a :=
    match a with
    | .get name => some (wingGetEnv canon p name).1
    | .set name value done lastError => some (wingSetEnv canon p name value done lastError).1
    | .other lastError => some { p with lastError }

/-- What each variable was last set to. -/
abbrev LastSet := Str → Option Str

/-- Who watches a history writes down what was successfully set. -/
def noteSet (canon : Str → Str) (_p : Process) (a : EnvCall) (last : LastSet) : LastSet :=
  match a with
  | .set name value true _ => Function.update last (canon (text name)) (some value)
  | _ => last

abbrev watchedEnv (canon : Str → Str) (inherited : Str → Option Str) (lastError : Nat) :
    Machine (Watched Process LastSet) EnvCall :=
  (envCalls canon inherited lastError).watch (fun key => (inherited key).map text) (noteSet canon)

/-- What a variable is expected to be: empty if it is not set. -/
def LastSet.value (last : LastSet) (canon : Str → Str) (name : Str) : Str :=
  (last (canon (text name))).getD []

/-- A lookup answers what was last set. -/
def Answered (canon : Str → Str) (w : Watched Process LastSet) : EnvCall → Prop
  | .get name => (wingGetEnv canon w.state name).2 = w.notes.value canon name
  | _ => True

/-- A lookup of a value that is not empty finds no `ERROR_ENVVAR_NOT_FOUND` left behind on the
thread, and the value has no NUL in it. -/
def Undisturbed (canon : Str → Str) (w : Watched Process LastSet) : EnvCall → Prop
  | .get name =>
    w.notes.value canon name = [] ∨
      (w.state.lastError ≠ errorEnvvarNotFound ∧ 0 ∉ w.notes.value canon name)
  | _ => True

instance (canon : Str → Str) (w : Watched Process LastSet) : ∀ a, Decidable (Answered canon w a)
  | .get _ => inferInstanceAs (Decidable (_ = _))
  | .set .. => isTrue trivial
  | .other _ => isTrue trivial

instance (canon : Str → Str) (w : Watched Process LastSet) : ∀ a, Decidable (Undisturbed canon w a)
  | .get _ => inferInstanceAs (Decidable (_ ∨ _))
  | .set .. => isTrue trivial
  | .other _ => isTrue trivial

/-! ## One lookup -/

/-- The environment holds what was set, up to the NUL. -/
def EnvKept (w : Watched Process LastSet) : Prop := ∀ key, w.state.env key = (w.notes key).map text

theorem text_eq_self_iff {v : Str} : text v = v ↔ 0 ∉ v := by
  constructor
  · intro h
    rw [← h]
    exact zero_not_mem_text v
  · intro h
    have happend := text_of_not_mem h []
    rwa [List.append_nil, show text ([] : Str) = [] from rfl, List.append_nil] at happend

variable {canon : Str → Str}

/-- Nothing is set. -/
theorem wingGetEnv_none {p : Process} {name : Str} (h : p.env (canon (text name)) = none) :
    wingGetEnv canon p name = ({ p with lastError := errorEnvvarNotFound }, []) := by
  simp [wingGetEnv, getEnvironmentVariable, h]

theorem wingGetEnv_some {p : Process} {name v : Str} (h : p.env (canon (text name)) = some v) :
    wingGetEnv canon p name = (p, if p.lastError = errorEnvvarNotFound then [] else v) := by
  by_cases herr : p.lastError = errorEnvvarNotFound
  · simp [wingGetEnv, getEnvironmentVariable, h, herr]
  · by_cases hv : v = []
    · subst hv
      simp [wingGetEnv, getEnvironmentVariable, h, herr]
    · have hsize : ¬ v.length + 1 ≤ v.length := Nat.not_succ_le_self _
      simp [wingGetEnv, getEnvironmentVariable, h, herr, hv, hsize]

/-- **A lookup that fails spoils the ones after it.** -/
theorem wingGetEnv_after_miss {p : Process} {missing : Str} (h : p.env (canon (text missing)) = none)
    (name : Str) : (wingGetEnv canon (wingGetEnv canon p missing).1 name).2 = [] := by
  rw [wingGetEnv_none h]
  cases hname : p.env (canon (text name)) with
  | none => rw [wingGetEnv_none (p := { p with lastError := errorEnvvarNotFound }) hname]
  | some v =>
    rw [wingGetEnv_some (p := { p with lastError := errorEnvvarNotFound }) hname]
    rfl

theorem answered_iff {w : Watched Process LastSet} (hw : EnvKept w) (a : EnvCall) :
    Answered canon w a ↔ Undisturbed canon w a := by
  cases a with
  | set => exact Iff.rfl
  | other => exact Iff.rfl
  | get name =>
    have hkept := hw (canon (text name))
    show (wingGetEnv canon w.state name).2 = w.notes.value canon name ↔ _ ∨ _
    unfold LastSet.value
    cases hlast : w.notes (canon (text name)) with
    | none =>
      rw [hlast] at hkept
      rw [wingGetEnv_none hkept]
      simp
    | some v =>
      rw [hlast] at hkept
      rw [wingGetEnv_some hkept]
      show (if w.state.lastError = errorEnvvarNotFound then [] else text v) = v ↔ v = [] ∨ _ ∧ 0 ∉ v
      by_cases hv : v = []
      · subst hv
        simp [text]
      · by_cases herr : w.state.lastError = errorEnvvarNotFound
        · rw [if_pos herr]
          simp [hv, herr, eq_comm]
        · rw [if_neg herr, text_eq_self_iff]
          simp [hv, herr]

/-! ## A history of them -/

section
variable (canon : Str → Str) (inherited : Str → Option Str) (lastError : Nat)

theorem envKept_init : EnvKept (watchedEnv canon inherited lastError).init := by
  intro key
  show (inherited key).map text = ((inherited key).map text).map text
  rw [Option.map_map]
  congr 1
  funext v
  exact (text_eq_self_iff.mpr (zero_not_mem_text v)).symm

theorem wingGetEnv_env (p : Process) (name : Str) : (wingGetEnv canon p name).1.env = p.env := by
  cases h : p.env (canon (text name)) with
  | none => rw [wingGetEnv_none h]
  | some v => rw [wingGetEnv_some h]

theorem envKept_step {w w' : Watched Process LastSet} {a : EnvCall} (hw : EnvKept w)
    (h : (watchedEnv canon inherited lastError).step w a = some w') : EnvKept w' := by
  obtain ⟨hstep, hnotes⟩ := Machine.watch_step h
  intro key
  have hkey := hw key
  rw [hnotes]
  cases a with
  | get name =>
    have hp := Option.some.inj hstep
    rw [← hp, wingGetEnv_env]
    exact hkey
  | other err =>
    have hp := Option.some.inj hstep
    rw [← hp]
    exact hkey
  | set name value done err =>
    have hp := Option.some.inj hstep
    rw [← hp]
    cases done with
    | false => exact hkey
    | true =>
      show Function.update w.state.env (canon (text name)) (some (text value)) key =
        (Function.update w.notes (canon (text name)) (some value) key).map text
      by_cases hk : key = canon (text name)
      · subst hk
        rw [Function.update_self, Function.update_self]
        rfl
      · rw [Function.update_of_ne hk, Function.update_of_ne hk]
        exact hkey

/-- **`wing_get_env` answers the value last set** in all of a history exactly if no lookup of a value
comes upon `ERROR_ENVVAR_NOT_FOUND`, which an earlier lookup of another name has left on the thread. -/
theorem wingGetEnv_right_iff (as : List EnvCall) :
    (watchedEnv canon inherited lastError).Along (Answered canon)
        (watchedEnv canon inherited lastError).init as ↔
      (watchedEnv canon inherited lastError).Along (Undisturbed canon)
        (watchedEnv canon inherited lastError).init as :=
  Machine.along_congr (I := EnvKept) (fun _ _ _ hw h => envKept_step canon inherited lastError hw h)
    (fun _ a hw => answered_iff hw a) (envKept_init canon inherited lastError) as

end

/-- `A` is set to `1`, `B` is looked up and not there, and `A` is empty. -/
theorem wingGetEnv_spoiled :
    ¬ ∀ (canon : Str → Str) (inherited : Str → Option Str) (lastError : Nat) (as : List EnvCall),
      (watchedEnv canon inherited lastError).Along (Answered canon)
        (watchedEnv canon inherited lastError).init as := by
  intro h
  have hrun := h id (fun _ => none) 0 [.set [65] [49] true 0, .get [66], .get [65]]
  revert hrun
  decide

end WingPhp.Base
