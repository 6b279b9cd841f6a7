import Mathlib.Data.List.Basic
import Mathlib.Logic.Function.Basic

/-!
# Tables of names

A table gives some names a value.  `declareAll` adds one declaration after the other, and stops where a
name is taken already; what it comes to is told name by name (`declareAll_mem`, `declareAll_other`).
-/

namespace NameTable

variable {κ ν : Type} [DecidableEq κ]

abbrev Table (κ ν : Type) := κ → Option ν

def erase (t : Table κ ν) (k : κ) : Table κ ν := Function.update t k none

def insert (t : Table κ ν) (k : κ) (v : ν) : Table κ ν := Function.update t k (some v)

@[simp] theorem erase_self (t : Table κ ν) (k : κ) : erase t k k = none := Function.update_self ..

theorem erase_of_ne (t : Table κ ν) {k k' : κ} (h : k' ≠ k) : erase t k k' = t k' :=
  Function.update_of_ne h ..

@[simp] theorem insert_self (t : Table κ ν) (k : κ) (v : ν) : insert t k v k = some v :=
  Function.update_self ..

theorem insert_of_ne (t : Table κ ν) {k k' : κ} (h : k' ≠ k) (v : ν) : insert t k v k' = t k' :=
  Function.update_of_ne h ..

/-- What was erased is put back. -/
theorem insert_erase {t : Table κ ν} {k : κ} {v : ν} (h : t k = some v) : insert (erase t k) k v = t := by
  funext k'
  by_cases hk : k' = k
  · rw [hk, insert_self, h]
  · rw [insert_of_ne _ hk, erase_of_ne _ hk]

/-- `none` if a name is declared that has a value. -/
def declareAll : Table κ ν → List (κ × ν) → Option (Table κ ν)
  | t, [] => some t
  | t, (k, v) :: ds =>
    match t k with
    | some _ => none
    | none => declareAll (insert t k v) ds

variable {t t' : Table κ ν}

theorem declareAll_cons {k : κ} {v : ν} {ds : List (κ × ν)} (h : declareAll t ((k, v) :: ds) = some t') :
    t k = none ∧ declareAll (insert t k v) ds = some t' := by
  unfold declareAll at h
  cases hk : t k with
  | some w =>
    rw [hk] at h
    cases h
  | none =>
    rw [hk] at h
    exact ⟨rfl, h⟩

theorem declareAll_kept {ds : List (κ × ν)} (h : declareAll t ds = some t') {k : κ} {v : ν}
    (hk : t k = some v) : t' k = some v := by
  induction ds generalizing t with
  | nil =>
    cases h
    exact hk
  | cons d ds ih =>
    obtain ⟨hfree, hrest⟩ := declareAll_cons h
    refine ih hrest ?_
    have hne : k ≠ d.1 := by
      rintro rfl
      rw [hfree] at hk
      cases hk
    rw [insert_of_ne _ hne, hk]

/-- A name that is declared was free. -/
theorem declareAll_mem {ds : List (κ × ν)} (h : declareAll t ds = some t') {k : κ} {v : ν}
    (hm : (k, v) ∈ ds) : t k = none ∧ t' k = some v := by
  induction ds generalizing t with
  | nil => cases hm
  | cons d ds ih =>
    obtain ⟨hfree, hrest⟩ := declareAll_cons h
    rcases List.mem_cons.mp hm with rfl | hm'
    · exact ⟨hfree, declareAll_kept hrest (insert_self t k v)⟩
    · obtain ⟨hk, hv⟩ := ih hrest hm'
      have hne : k ≠ d.1 := by
        rintro rfl
        rw [insert_self] at hk
        cases hk
      rw [insert_of_ne _ hne] at hk
      exact ⟨hk, hv⟩

theorem declareAll_other {ds : List (κ × ν)} (h : declareAll t ds = some t') {k : κ}
    (hk : ∀ v, (k, v) ∉ ds) : t' k = t k := by
  induction ds generalizing t with
  | nil =>
    cases h
    rfl
  | cons d ds ih =>
    obtain ⟨-, hrest⟩ := declareAll_cons h
    have hne : k ≠ d.1 := by
      rintro rfl
      exact hk d.2 List.mem_cons_self
    rw [ih hrest fun v hv => hk v (List.mem_cons_of_mem _ hv), insert_of_ne _ hne]

/-- No name is declared twice. -/
theorem declareAll_singleton {ds : List (κ × ν)} (h : declareAll t ds = some t') {k : κ} {v : ν}
    (hm : (k, v) ∈ ds) (honly : ∀ d ∈ ds, d.1 = k) : ds = [(k, v)] := by
  cases ds with
  | nil => cases hm
  | cons d ds =>
    obtain ⟨-, hrest⟩ := declareAll_cons h
    have hnil : ds = [] := by
      apply List.eq_nil_iff_forall_not_mem.mpr
      rintro ⟨k', v'⟩ hd
      have hk' : k' = d.1 := (honly _ (List.mem_cons_of_mem _ hd)).trans (honly d List.mem_cons_self).symm
      have htaken := (declareAll_mem hrest hd).1
      rw [hk', insert_self] at htaken
      cases htaken
    subst hnil
    rw [List.mem_singleton.mp hm]

end NameTable
