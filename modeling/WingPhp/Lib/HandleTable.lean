import Mathlib.Data.List.Nodup
import Mathlib.Data.List.Perm.Basic

/-!
# Handle tables

A process reaches the objects of a kernel by the values of its handles.  A table is the list of them; several tables,
and several handles of one table, can lead to one object, which exists as long as one of them does.
-/

namespace HandleTable

variable {ο : Type}

structure Handle (ο : Type) where
  value : Nat
  object : ο
  inherit : Bool
  deriving DecidableEq, Repr

def values (t : List (Handle ο)) : List Nat := t.map Handle.value

def lookup (t : List (Handle ο)) (v : Nat) : Option (Handle ο) := t.find? fun h => h.value == v

def close (t : List (Handle ο)) (v : Nat) : List (Handle ο) := t.filter fun h => h.value != v

/-- What a child of the process gets. -/
def inheritable (t : List (Handle ο)) : List (Handle ο) := t.filter Handle.inherit

theorem close_sublist (t : List (Handle ο)) (v : Nat) : (close t v).Sublist t := List.filter_sublist

theorem inheritable_sublist (t : List (Handle ο)) : (inheritable t).Sublist t := List.filter_sublist

/-- No two handles have one value. -/
def Distinct (t : List (Handle ο)) : Prop := (values t).Nodup

theorem Distinct.sublist {t t' : List (Handle ο)} (h : Distinct t) (hs : t'.Sublist t) : Distinct t' :=
  List.Nodup.sublist (hs.map Handle.value) h

theorem Distinct.perm {t t' : List (Handle ο)} (h : Distinct t) (hp : t.Perm t') : Distinct t' :=
  (hp.map _).nodup_iff.mp h

theorem Distinct.cons {t : List (Handle ο)} (h : Distinct t) {x : Handle ο} (hx : x.value ∉ values t) :
    Distinct (x :: t) :=
  List.nodup_cons.mpr ⟨hx, h⟩

/-- A handle that is opened and closed again leaves what was there. -/
theorem close_perm {t rest : List (Handle ο)} {x : Handle ο} (h : Distinct t) (hp : t.Perm (x :: rest)) :
    (close t x.value).Perm rest := by
  have hnodup : x.value ∉ values rest := (List.nodup_cons.mp (h.perm hp)).1
  have hrest : close rest x.value = rest := by
    refine List.filter_eq_self.mpr fun y hy => ?_
    have hne : y.value ≠ x.value := by
      intro heq
      exact hnodup (heq ▸ List.mem_map_of_mem hy)
    simpa using hne
  have hcons : close (x :: rest) x.value = rest := by
    rw [close, List.filter_cons_of_neg (by simp)]
    exact hrest
  rw [← hcons]
  exact hp.filter _

/-! ## How many lead to an object -/

variable [DecidableEq ο]

/-- The handles that lead to it. -/
def refs (t : List (Handle ο)) (o : ο) : Nat := t.countP fun h => h.object == o

@[simp] theorem refs_append (t t' : List (Handle ο)) (o : ο) : refs (t ++ t') o = refs t o + refs t' o :=
  List.countP_append

theorem refs_cons (x : Handle ο) (t : List (Handle ο)) (o : ο) :
    refs (x :: t) o = refs t o + if x.object = o then 1 else 0 := by
  rw [refs, List.countP_cons]
  simp [refs]

theorem refs_perm {t t' : List (Handle ο)} (h : t.Perm t') (o : ο) : refs t o = refs t' o := h.countP_eq _

theorem refs_sublist {t t' : List (Handle ο)} (h : t.Sublist t') (o : ο) : refs t o ≤ refs t' o := h.countP_le

theorem refs_pos_iff {t : List (Handle ο)} {o : ο} : 0 < refs t o ↔ ∃ x ∈ t, x.object = o := by
  rw [refs, List.countP_pos_iff]
  simp

/-- Where all handles to an object have one value, a table has at most one of them. -/
theorem refs_le_one {t : List (Handle ο)} (h : Distinct t) {o : ο} {v : Nat}
    (hv : ∀ x ∈ t, x.object = o → x.value = v) : refs t o ≤ 1 := by
  have hle : refs t o ≤ (values t).count v := by
    rw [refs, values, List.count_eq_countP, List.countP_map]
    refine List.countP_mono_left fun x hx hxo => ?_
    have := hv x hx (by simpa using hxo)
    simpa using this
  have := List.nodup_iff_count_le_one.mp h v
  omega

/-! ## Several tables -/

variable {α : Type}

theorem refs_flatMap_perm {s : List α} {f g : α → List (Handle ο)} (h : ∀ p ∈ s, (f p).Perm (g p)) (o : ο) :
    refs (s.flatMap f) o = refs (s.flatMap g) o :=
  refs_perm (List.Perm.flatMap_left s h) o

theorem refs_flatMap_append (s : List α) (f g : α → List (Handle ο)) (o : ο) :
    refs (s.flatMap fun p => f p ++ g p) o = refs (s.flatMap f) o + refs (s.flatMap g) o := by
  induction s with
  | nil => rfl
  | cons p s ih =>
    simp only [List.flatMap_cons, refs_append, ih]
    omega

/-- Tables that have at most one handle each. -/
theorem refs_flatMap_eq_countP {s : List α} {f : α → List (Handle ο)} {o : ο} (h : ∀ p ∈ s, refs (f p) o ≤ 1) :
    refs (s.flatMap f) o = s.countP fun p => 0 < refs (f p) o := by
  induction s with
  | nil => rfl
  | cons p s ih =>
    obtain ⟨hp, hs⟩ := List.forall_mem_cons.mp h
    rw [List.flatMap_cons, refs_append, ih hs, List.countP_cons]
    by_cases hpos : 0 < refs (f p) o
    · simp only [hpos, decide_true, if_true]
      omega
    · simp only [hpos, decide_false, Bool.false_eq_true, if_false]
      omega

end HandleTable
