import WingPhp.Lib.Ascii
import WingPhp.Lib.NameTable
import WingPhp.Lib.Memory

/-!
# `wing_override_function`

The function table of PHP is keyed by lower-cased names; a call by name looks up `zendStrTolower` of it.
The engine is a parameter (`Zend`): the functions that an evaluated text declares, in order, and whether
all of it compiles.  A declaration of a name that is taken ends the script.

The function is taken out of the table, perhaps put back under the other name, and then the new one is
evaluated; nothing is undone.  `wingOverrideFunction_right_iff` says when that does not matter.
-/

namespace WingPhp.Base

open NameTable Memory Ascii

/-- `ZEND_USER_FUNCTION`, `ZEND_INTERNAL_FUNCTION`, and the others. -/
inductive ZendType where
  | user
  | internal
  | other
  deriving DecidableEq, Repr

structure ZendFunction (β : Type) where
  type : ZendType
  functionName : List UInt8
  body : β
  deriving DecidableEq, Repr

abbrev FunctionTable (β : Type) := Table (List UInt8) (ZendFunction β)

structure Zend (β : Type) where
  declares : List UInt8 → List (List UInt8 × ZendFunction β)
  compiles : List UInt8 → Bool

/-- `zend_str_tolower`. -/
def zendStrTolower (name : List UInt8) : List UInt8 := name.map tolower

/-- `zend_str_tolower( fname, strlen( fname ) )`. -/
def lowerText (fname : List UInt8) : List UInt8 :=
  zendStrTolower (text fname) ++ fname.drop (text fname).length

section
variable {β : Type}

/-- `override_fetch_function`, of the lower-cased name. -/
def overrideFetchFunction (table : FunctionTable β) (fname : List UInt8) : Option (ZendFunction β) :=
  match table fname with
  | none => none
  | some fe => if fe.type ≠ .user ∧ fe.type ≠ .internal then none else some fe

/-- `"function %s(%s){%s}"`. -/
def definition (fname fargs fcode : List UInt8) : List UInt8 :=
  ascii "function " ++ text fname ++ ascii "(" ++ text fargs ++ ascii ")\x7b" ++ text fcode ++ ascii "\x7d"

/-- `zend_eval_string`; `none` when the script ends in it. -/
def zendEvalString (zend : Zend β) (table : FunctionTable β) (evalCode : List UInt8) :
    Option (FunctionTable β × Bool) :=
  (declareAll table (zend.declares evalCode)).map fun table => (table, zend.compiles evalCode)

/-- The function under its other name. -/
def renamed (func : ZendFunction β) (forigin : List UInt8) : ZendFunction β :=
  if func.type = .user then { func with functionName := forigin } else func

/-- `wing_override_function`: the table afterwards and the answer. -/
def wingOverrideFunction (zend : Zend β) (table : FunctionTable β) (fname fargs fcode : List UInt8)
    (forigin : Option (List UInt8)) : Option (FunctionTable β × Bool) :=
  let forigin := forigin.filter fun o => o ≠ []
  let fname := lowerText fname
  match overrideFetchFunction table fname with
  | none => some (table, false)
  | some func =>
    let table := erase table fname
    match forigin with
    | none => zendEvalString zend table (definition fname fargs fcode)
    | some o =>
      match table o with
      | some _ => some (table, false)
      | none => zendEvalString zend (insert table o (renamed func o)) (definition fname fargs fcode)

/-! ## What it is for -/

/-- One implementation, perhaps under another name. -/
def SameImplementation (f g : ZendFunction β) : Prop := f.type = g.type ∧ f.body = g.body

/-- The name has a function that the definition declares, a call by the other name reaches the original,
and every other name is as it was. -/
def Overridden (zend : Zend β) (table table' : FunctionTable β) (key code : List UInt8)
    (func : ZendFunction β) (forigin : Option (List UInt8)) : Prop :=
  (∃ fn, (key, fn) ∈ zend.declares code ∧ table' key = some fn) ∧
  (∀ o, forigin = some o → ∃ g, table' (zendStrTolower o) = some g ∧ SameImplementation g func) ∧
  ∀ k, k ≠ key → (∀ o, forigin = some o → k ≠ zendStrTolower o) → table' k = table k

/-- `FALSE` leaves the table as it was, and `TRUE` has overridden the function. -/
def OverrideRight (zend : Zend β) (table : FunctionTable β) (fname fargs fcode : List UInt8)
    (forigin : Option (List UInt8)) : Prop :=
  ∀ table' answer, wingOverrideFunction zend table fname fargs fcode forigin = some (table', answer) →
    (answer = false → table' = table) ∧
    (answer = true → ∃ func, overrideFetchFunction table (lowerText fname) = some func ∧
      Overridden zend table table' (lowerText fname) (definition (lowerText fname) fargs fcode) func
        (forigin.filter fun o => o ≠ []))

/-- Without another name: the text declares just the function, and compiles; or it fails and has declared
the very function that was taken out. -/
def PlainSafe (zend : Zend β) (table : FunctionTable β) (key code : List UInt8) (func : ZendFunction β) : Prop :=
  declareAll (erase table key) (zend.declares code) = none ∨
    if zend.compiles code then ∃ fn, zend.declares code = [(key, fn)] else zend.declares code = [(key, func)]

/-- With another name: it is free and in lower case, and the text declares just the function, and
compiles; or it fails and declares nothing, and the other name is the same one. -/
def RenameSafe (zend : Zend β) (table : FunctionTable β) (key code : List UInt8) (func : ZendFunction β)
    (o : List UInt8) : Prop :=
  erase table key o = none ∧
    (declareAll (insert (erase table key) o (renamed func o)) (zend.declares code) = none ∨
      if zend.compiles code then zendStrTolower o = o ∧ ∃ fn, zend.declares code = [(key, fn)]
      else o = key ∧ renamed func o = func ∧ zend.declares code = [])

/-- There is no such function, or one of the two. -/
def OverrideSafe (zend : Zend β) (table : FunctionTable β) (fname fargs fcode : List UInt8)
    (forigin : Option (List UInt8)) : Prop :=
  ∀ func, overrideFetchFunction table (lowerText fname) = some func →
    match forigin.filter fun o => o ≠ [] with
    | none => PlainSafe zend table (lowerText fname) (definition (lowerText fname) fargs fcode) func
    | some o => RenameSafe zend table (lowerText fname) (definition (lowerText fname) fargs fcode) func o

/-! ## The definition evaluated -/

variable {zend : Zend β} {table table' : FunctionTable β} {key code : List UInt8} {func : ZendFunction β}

theorem overrideFetchFunction_some (h : overrideFetchFunction table key = some func) : table key = some func := by
  unfold overrideFetchFunction at h
  cases hk : table key with
  | none =>
    rw [hk] at h
    cases h
  | some fe =>
    rw [hk] at h
    simp only at h
    split at h
    · cases h
    · exact h

theorem renamed_sameImplementation (func : ZendFunction β) (o : List UInt8) :
    SameImplementation (renamed func o) func := by
  unfold renamed
  split <;> exact ⟨rfl, rfl⟩

/-- Nothing but the function is declared, when the other names are as they were. -/
theorem declares_singleton {t : FunctionTable β} {fn : ZendFunction β}
    (hdecl : declareAll t (zend.declares code) = some table') (hfn : (key, fn) ∈ zend.declares code)
    (hsame : ∀ k, k ≠ key → t k = none → table' k = none) : zend.declares code = [(key, fn)] := by
  refine declareAll_singleton hdecl hfn ?_
  rintro ⟨k, g⟩ hd
  by_contra hne
  obtain ⟨hfree, hset⟩ := declareAll_mem hdecl hd
  have hnone := hsame k hne hfree
  rw [hset] at hnone
  cases hnone

theorem plain_failed_iff (hfunc : table key = some func)
    (hdecl : declareAll (erase table key) (zend.declares code) = some table') :
    table' = table ↔ zend.declares code = [(key, func)] := by
  constructor
  · rintro rfl
    have hmem : (key, func) ∈ zend.declares code := by
      by_contra hnot
      have hother : ∀ v, (key, v) ∉ zend.declares code := by
        intro v hv
        have hset := (declareAll_mem hdecl hv).2
        rw [hfunc] at hset
        cases hset
        exact hnot hv
      have hgone := declareAll_other hdecl hother
      rw [hfunc, erase_self] at hgone
      cases hgone
    refine declares_singleton hdecl hmem fun k hk hnone => ?_
    rwa [erase_of_ne _ hk] at hnone
  · intro hds
    rw [hds, declareAll, erase_self] at hdecl
    rw [← insert_erase hfunc]
    exact (Option.some.inj hdecl).symm

theorem plain_overridden_iff (hdecl : declareAll (erase table key) (zend.declares code) = some table') :
    Overridden zend table table' key code func none ↔ ∃ fn, zend.declares code = [(key, fn)] := by
  constructor
  · rintro ⟨⟨fn, hfn, -⟩, -, hsame⟩
    refine ⟨fn, declares_singleton hdecl hfn fun k hk hnone => ?_⟩
    rw [hsame k hk fun _ h => nomatch h]
    rwa [erase_of_ne _ hk] at hnone
  · rintro ⟨fn, hds⟩
    have hfn : (key, fn) ∈ zend.declares code := by rw [hds]; exact List.mem_singleton_self _
    refine ⟨⟨fn, hfn, (declareAll_mem hdecl hfn).2⟩, fun _ h => (nomatch h), fun k hk _ => ?_⟩
    have hother : ∀ v, (k, v) ∉ zend.declares code := by
      intro v hv
      rw [hds, List.mem_singleton] at hv
      exact hk (congrArg Prod.fst hv)
    rw [declareAll_other hdecl hother, erase_of_ne _ hk]

theorem rename_failed_iff {o : List UInt8} (hfunc : table key = some func) (hfree : erase table key o = none)
    (hdecl : declareAll (insert (erase table key) o (renamed func o)) (zend.declares code) = some table') :
    table' = table ↔ o = key ∧ renamed func o = func ∧ zend.declares code = [] := by
  constructor
  · rintro rfl
    have hset := declareAll_kept hdecl (insert_self _ o (renamed func o))
    have ho : o = key := by
      by_contra hne
      rw [erase_of_ne _ hne] at hfree
      rw [hfree] at hset
      cases hset
    subst ho
    rw [hfunc] at hset
    refine ⟨rfl, (Option.some.inj hset).symm, ?_⟩
    apply List.eq_nil_iff_forall_not_mem.mpr
    rintro ⟨k, g⟩ hd
    obtain ⟨hnone, hg⟩ := declareAll_mem hdecl hd
    have hk : k ≠ o := by
      rintro rfl
      rw [insert_self] at hnone
      cases hnone
    rw [insert_of_ne _ hk, erase_of_ne _ hk, hg] at hnone
    cases hnone
  · rintro ⟨rfl, hname, hds⟩
    rw [hds, hname, insert_erase hfunc] at hdecl
    exact (Option.some.inj hdecl).symm

theorem rename_overridden_iff {o : List UInt8} (hfree : erase table key o = none)
    (hdecl : declareAll (insert (erase table key) o (renamed func o)) (zend.declares code) = some table') :
    Overridden zend table table' key code func (some o) ↔
      zendStrTolower o = o ∧ ∃ fn, zend.declares code = [(key, fn)] := by
  have hset := declareAll_kept hdecl (insert_self _ o (renamed func o))
  constructor
  · rintro ⟨⟨fn, hfn, -⟩, -, hsame⟩
    have hne : o ≠ key := by
      rintro rfl
      have hnone := (declareAll_mem hdecl hfn).1
      rw [insert_self] at hnone
      cases hnone
    have hlower : zendStrTolower o = o := by
      -- under its raw spelling the original is one change too many
      by_contra hraw
      have hkept := hsame o hne fun o' ho' => by
        cases ho'
        exact fun h => hraw h.symm
      rw [erase_of_ne _ hne] at hfree
      rw [hset, hfree] at hkept
      cases hkept
    refine ⟨hlower, fn, declares_singleton hdecl hfn fun k hk hnone => ?_⟩
    have hko : k ≠ o := by
      rintro rfl
      rw [insert_self] at hnone
      cases hnone
    rw [insert_of_ne _ hko, erase_of_ne _ hk] at hnone
    rw [hsame k hk fun o' ho' => by cases ho'; rwa [hlower], hnone]
  · rintro ⟨hlower, fn, hds⟩
    have hfn : (key, fn) ∈ zend.declares code := by rw [hds]; exact List.mem_singleton_self _
    refine ⟨⟨fn, hfn, (declareAll_mem hdecl hfn).2⟩, ?_, ?_⟩
    · intro o' ho'
      cases ho'
      exact ⟨_, by rw [hlower]; exact hset, renamed_sameImplementation func o⟩
    · intro k hk hko
      have hother : ∀ v, (k, v) ∉ zend.declares code := by
        intro v hv
        rw [hds, List.mem_singleton] at hv
        exact hk (congrArg Prod.fst hv)
      have hne : k ≠ o := by
        have h := hko o rfl
        rwa [hlower] at h
      rw [declareAll_other hdecl hother, insert_of_ne _ hne, erase_of_ne _ hk]

/-- What an evaluation on a table comes to, told apart by its answer. -/
theorem zendEvalString_right_iff {t : FunctionTable β} {failed done : FunctionTable β → Prop} {f d : Prop}
    (hf : ∀ t', declareAll t (zend.declares code) = some t' → (failed t' ↔ f))
    (hd : ∀ t', declareAll t (zend.declares code) = some t' → (done t' ↔ d)) :
    (∀ t' answer, zendEvalString zend t code = some (t', answer) →
      (answer = false → failed t') ∧ (answer = true → done t')) ↔
      declareAll t (zend.declares code) = none ∨ if zend.compiles code then d else f := by
  cases hdecl : declareAll t (zend.declares code) with
  | none => simp [zendEvalString, hdecl]
  | some t' =>
    have heval : zendEvalString zend t code = some (t', zend.compiles code) := by
      simp [zendEvalString, hdecl]
    rw [heval]
    cases hc : zend.compiles code with
    | true => simp [hd t' hdecl]
    | false => simp [hf t' hdecl]

/-- **Nothing is lost and nothing else changes** exactly if the function is not there, or the definition
is just the one function, compiles, and the other name is free and in lower case.  (A definition that
fails leaves the table alone only when it declares the very function that is missing.) -/
theorem wingOverrideFunction_right_iff (zend : Zend β) (table : FunctionTable β)
    (fname fargs fcode : List UInt8) (forigin : Option (List UInt8)) :
    OverrideRight zend table fname fargs fcode forigin ↔
      OverrideSafe zend table fname fargs fcode forigin := by
  unfold OverrideRight OverrideSafe
  cases hfetch : overrideFetchFunction table (lowerText fname) with
  | none =>
    simp only [wingOverrideFunction, hfetch]
    simp
  | some func =>
    have hfunc := overrideFetchFunction_some hfetch
    simp only [Option.some.injEq, exists_eq_left', forall_eq']
    cases hother : forigin.filter fun o => o ≠ [] with
    | none =>
      simp only [wingOverrideFunction, hfetch, hother]
      exact zendEvalString_right_iff (fun t' h => plain_failed_iff hfunc h)
        (fun t' h => plain_overridden_iff h)
    | some o =>
      simp only [wingOverrideFunction, hfetch, hother, RenameSafe]
      cases hfree : erase table (lowerText fname) o with
      | some g =>
        -- the function is gone, and `FALSE` is answered
        simp only [reduceCtorEq, false_and, iff_false]
        intro h
        have hgone := congrFun ((h _ _ rfl).1 rfl) (lowerText fname)
        rw [erase_self, hfunc] at hgone
        cases hgone
      | none =>
        rw [eq_self, true_and]
        exact zendEvalString_right_iff (fun t' h => rename_failed_iff hfunc hfree h)
          (fun t' h => rename_overridden_iff hfree h)

end

/-- A user function `f`, and code that does not compile. -/
theorem wingOverrideFunction_lost :
    ¬ ∀ (zend : Zend Nat) (table : FunctionTable Nat) (fname fargs fcode : List UInt8)
      (forigin : Option (List UInt8)), OverrideRight zend table fname fargs fcode forigin := by
  intro h
  have hrun := (h ⟨fun _ => [], fun _ => false⟩ (fun k => if k = [102] then some ⟨.user, [102], 0⟩ else none)
    [102] [] [59] none _ _ rfl).1 rfl
  have hgone := congrFun hrun [102]
  revert hgone
  decide

end WingPhp.Base
