import Mathlib.Data.List.Basic

/-!
# Search paths

A path is a list of components with a separator between them; a separator at the very end ends the
last component and begins no other (`components`).  Programs walk over a path with `strchr`, one
separator at a time: `components_of_strchr` is what one turn of such a loop sees.

`upTo p` is what a search that stops at the first hit looks at.
-/

namespace SearchPath

/-! ## Splitting -/

section Split

variable {α : Type} [DecidableEq α]

/-- `strchr`: what stands before the first `c`, and what behind it. -/
def strchr (c : α) : List α → Option (List α × List α)
  | [] => none
  | b :: bs => if b = c then some ([], bs) else (strchr c bs).map fun r => (b :: r.1, r.2)

theorem strchr_eq_some {c : α} {l a r : List α} (h : strchr c l = some (a, r)) :
    l = a ++ c :: r ∧ c ∉ a := by
  induction l generalizing a with
  | nil => cases h
  | cons b bs ih =>
    by_cases hb : b = c
    · rw [strchr, if_pos hb] at h
      cases h
      exact ⟨by rw [hb]; rfl, by simp⟩
    · rw [strchr, if_neg hb] at h
      obtain ⟨⟨a', r'⟩, hr, heq⟩ := Option.map_eq_some_iff.mp h
      cases heq
      obtain ⟨hl, hc⟩ := ih hr
      refine ⟨by rw [hl]; rfl, ?_⟩
      rw [List.mem_cons, not_or]
      exact ⟨fun e => hb e.symm, hc⟩

theorem strchr_eq_none {c : α} {l : List α} (h : strchr c l = none) : c ∉ l := by
  induction l with
  | nil => simp
  | cons b bs ih =>
    by_cases hb : b = c
    · rw [strchr, if_pos hb] at h
      cases h
    · rw [strchr, if_neg hb, Option.map_eq_none_iff] at h
      rw [List.mem_cons, not_or]
      exact ⟨fun e => hb e.symm, ih h⟩

/-- The pieces that a separator ends. -/
def terminated (sep : α) (path : List α) : List (List α) := (path.splitOn sep).dropLast

/-- The piece behind the last separator. -/
def final (sep : α) (path : List α) : List α := (path.splitOn sep).getLast (List.splitOn_ne_nil sep path)

def components (sep : α) (path : List α) : List (List α) :=
  terminated sep path ++ if final sep path = [] then [] else [final sep path]

/-- Every piece, also an empty one at the end. -/
theorem splitOn_eq (sep : α) (path : List α) :
    path.splitOn sep = terminated sep path ++ [final sep path] :=
  (List.dropLast_concat_getLast _).symm

theorem split_of_strchr {sep : α} {path a r : List α} (h : strchr sep path = some (a, r)) :
    path.splitOn sep = a :: r.splitOn sep := by
  obtain ⟨rfl, ha⟩ := strchr_eq_some h
  exact List.splitOn_append_cons_self_of_not_mem ha r

theorem terminated_of_strchr {sep : α} {path a r : List α} (h : strchr sep path = some (a, r)) :
    terminated sep path = a :: terminated sep r := by
  rw [terminated, split_of_strchr h, List.dropLast_cons_of_ne_nil (List.splitOn_ne_nil sep r)]
  rfl

theorem final_of_strchr {sep : α} {path a r : List α} (h : strchr sep path = some (a, r)) :
    final sep path = final sep r := by
  simp only [final, split_of_strchr h, List.getLast_cons (List.splitOn_ne_nil sep r)]

theorem split_of_none {sep : α} {path : List α} (h : strchr sep path = none) :
    terminated sep path = [] ∧ final sep path = path := by
  have hone := List.splitOn_eq_singleton (strchr_eq_none h)
  constructor
  · rw [terminated, hone]
    rfl
  · simp only [final, hone, List.getLast_singleton]

theorem components_of_strchr {sep : α} {path a r : List α} (h : strchr sep path = some (a, r)) :
    components sep path = a :: components sep r := by
  rw [components, terminated_of_strchr h, final_of_strchr h]
  rfl

theorem components_of_none {sep : α} {path : List α} (h : strchr sep path = none) :
    components sep path = if path = [] then [] else [path] := by
  obtain ⟨hterm, hfin⟩ := split_of_none h
  rw [components, hterm, hfin]
  rfl

theorem length_of_strchr {c : α} {l a r : List α} (h : strchr c l = some (a, r)) :
    r.length < l.length := by
  rw [(strchr_eq_some h).1]
  simp
  omega

end Split

/-! ## Searching -/

section Search

variable {β : Type} (p : β → Bool)

/-- Up to the first hit, and the hit. -/
def upTo : List β → List β
  | [] => []
  | b :: bs => if p b then [b] else b :: upTo bs

variable {p}

theorem upTo_cons_of_hit {b : β} (bs : List β) (h : p b = true) : upTo p (b :: bs) = [b] := if_pos h

theorem upTo_cons_of_miss {b : β} (bs : List β) (h : p b = false) : upTo p (b :: bs) = b :: upTo p bs :=
  if_neg (by simp [h])

end Search

end SearchPath
