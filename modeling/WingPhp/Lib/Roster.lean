import Mathlib.Data.List.NodupEquivFin

/-!
# Who is present

Members join in some order and leave one by one; `present joined left` are the
joined members that have not left, in joining order.  A member is told from the
others by its key.  Joining appends to the list of those present
(`present_join`); when keys are never used twice, the leaving of the `i`-th of
those present deletes exactly that entry (`present_leave`), and who stands in front
has joined before (`present_order`).
-/

namespace Roster

variable {κ ι : Type} [DecidableEq ι] (key : κ → ι)

def present (joined : List κ) (left : List ι) : List κ :=
  joined.filter fun k => key k ∉ left

theorem mem_present {joined : List κ} {left : List ι} {k : κ} :
    k ∈ present key joined left ↔ k ∈ joined ∧ key k ∉ left := by
  simp [present]

theorem nodup_present {joined : List κ} {left : List ι} (h : (joined.map key).Nodup) :
    ((present key joined left).map key).Nodup :=
  h.sublist (List.filter_sublist.map key)

theorem present_join {joined : List κ} {left : List ι} {k : κ} (h : key k ∉ left) :
    present key (joined ++ [k]) left = present key joined left ++ [k] := by
  simp [present, List.filter_append, h]

/-- Filtering out one key of a list without repeated keys deletes one entry. -/
theorem filter_key_ne {l : List κ} (hnd : (l.map key).Nodup) {i : Nat} {k : κ}
    (hk : l[i]? = some k) : l.filter (fun x => key x ≠ key k) = l.eraseIdx i := by
  induction l generalizing i with
  | nil => simp at hk
  | cons a l ih =>
    rw [List.map_cons, List.nodup_cons] at hnd
    cases i with
    | zero =>
      obtain rfl : a = k := by simpa using hk
      rw [List.filter_cons_of_neg (by simp), List.eraseIdx_cons_zero, List.filter_eq_self]
      intro x hx
      have hne : key x ≠ key a := fun e => hnd.1 (e ▸ List.mem_map_of_mem hx)
      simpa using hne
    | succ i =>
      rw [List.getElem?_cons_succ] at hk
      have hkl : k ∈ l := List.mem_of_getElem? hk
      have hne : key a ≠ key k := fun e => hnd.1 (e ▸ List.mem_map_of_mem hkl)
      rw [List.filter_cons_of_pos (by simpa using hne), List.eraseIdx_cons_succ, ih hnd.2 hk]

theorem present_leave {joined : List κ} {left : List ι} (h : (joined.map key).Nodup) {i : Nat}
    {k : κ} (hk : (present key joined left)[i]? = some k) :
    present key joined (left ++ [key k]) = (present key joined left).eraseIdx i := by
  rw [← filter_key_ne key (nodup_present key h) hk]
  simp only [present, List.filter_filter]
  apply List.filter_congr
  intro x _
  simp [and_comm]

theorem present_order {joined : List κ} {left : List ι} (h : (joined.map key).Nodup) {i p m : Nat} {a b : κ}
    (hi : (present key joined left)[i]? = some a) (hp : (present key joined left)[p]? = some b)
    (hm : joined[m]? = some b) (hle : i ≤ p) : ∃ e ≤ m, joined[e]? = some a := by
  obtain ⟨f, hf⟩ := List.sublist_iff_exists_orderEmbedding_getElem?_eq.mp
    (List.filter_sublist (p := fun k => key k ∉ left) (l := joined))
  have hget : ∀ ix, (present key joined left)[ix]? = joined[f ix]? := hf
  obtain ⟨hlt, -⟩ := List.getElem?_eq_some_iff.mp hm
  rw [hget] at hi hp
  have hmp : m = f p := (List.getElem?_inj hlt h.of_map).mp (hm.trans hp.symm)
  exact ⟨f i, hmp ▸ f.monotone hle, hi⟩

end Roster
