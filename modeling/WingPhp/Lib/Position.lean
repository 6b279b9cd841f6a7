import Mathlib.Data.List.NodupEquivFin

/-!
# Positions in lists

A list split at a position, with what storing or deleting there makes of it
(`split_at`), of its elements (`getElem?_stored`) and of what is counted in it; and a list whose elements
say where they stand in another list: when the positions increase it is a sublist
(`sublist_of_increasing`).
-/

namespace Position

variable {α : Type}

theorem split_at {l : List α} {i : Nat} {x : α} (h : l[i]? = some x) :
    ∃ pre post, l = pre ++ x :: post ∧ pre.length = i ∧ (∀ y, l.set i y = pre ++ y :: post) ∧
      l.eraseIdx i = pre ++ post := by
  induction l generalizing i with
  | nil => simp at h
  | cons a l ih =>
    cases i with
    | zero =>
      obtain rfl : a = x := by simpa using h
      exact ⟨[], l, rfl, rfl, fun _ => rfl, rfl⟩
    | succ i =>
      rw [List.getElem?_cons_succ] at h
      obtain ⟨pre, post, rfl, hlen, hset, herase⟩ := ih h
      refine ⟨a :: pre, post, rfl, by simp [hlen], fun y => ?_, ?_⟩
      · rw [List.set_cons_succ, hset y, List.cons_append]
      · rw [List.eraseIdx_cons_succ, herase, List.cons_append]

/-- What is left and right of an element is in the list. -/
theorem mem_of_others {l pre post : List α} {x y : α} (h : l = pre ++ x :: post)
    (hy : y ∈ pre ++ post) : y ∈ l := by
  rw [h]
  rcases List.mem_append.mp hy with hy | hy
  · exact List.mem_append_left _ hy
  · exact List.mem_append_right _ (List.mem_cons_of_mem x hy)

/-- What is in a list whose middle was replaced. -/
theorem mem_replaced {pre post : List α} {o : Option α} {y : α}
    (hy : y ∈ pre ++ o.toList ++ post) : y ∈ pre ++ post ∨ o = some y := by
  rw [List.append_assoc, List.mem_append, List.mem_append, Option.mem_toList] at hy
  rcases hy with hy | hy | hy
  · exact .inl (List.mem_append_left _ hy)
  · exact .inr hy
  · exact .inl (List.mem_append_right _ hy)

/-- What is counted in a list, after a store. -/
theorem countP_set {l : List α} {i : Nat} {x : α} (h : l[i]? = some x) (p : α → Bool) (y : α) :
    (l.set i y).countP p + (if p x then 1 else 0) = l.countP p + if p y then 1 else 0 := by
  obtain ⟨pre, post, rfl, -, hset, -⟩ := split_at h
  rw [hset]
  simp only [List.countP_append, List.countP_cons]
  omega

/-- What is counted in lists that the elements have, after a store. -/
theorem countP_flatMap_set {β : Type} {l : List α} {i : Nat} {x : α} (h : l[i]? = some x)
    (f : α → List β) (p : β → Bool) (y : α) :
    ((l.set i y).flatMap f).countP p + (f x).countP p =
      (l.flatMap f).countP p + (f y).countP p := by
  obtain ⟨pre, post, rfl, -, hset, -⟩ := split_at h
  rw [hset]
  simp only [List.flatMap_append, List.flatMap_cons, List.countP_append]
  omega

/-- What stands where after a store. -/
theorem getElem?_stored {l : List α} {i j : Nat} {x y : α} (h : (l.set i y)[j]? = some x) :
    (j = i ∧ x = y) ∨ (j ≠ i ∧ l[j]? = some x) := by
  by_cases hj : j = i
  · rw [hj, List.getElem?_set] at h
    split at h
    · split at h
      · exact .inl ⟨hj, (Option.some.inj h).symm⟩
      · cases h
    · next hne => exact absurd rfl hne
  · rw [List.getElem?_set_ne (Ne.symm hj)] at h
    exact .inr ⟨hj, h⟩

/-- What stands where after an element was put at the end. -/
theorem getElem?_appended {l : List α} {j : Nat} {x y : α} (h : (l ++ [y])[j]? = some x) :
    (j = l.length ∧ x = y) ∨ (j < l.length ∧ l[j]? = some x) := by
  by_cases hj : j < l.length
  · rw [List.getElem?_append_left hj] at h
    exact .inr ⟨hj, h⟩
  · have hlt := (List.getElem?_eq_some_iff.mp h).1
    rw [List.length_append, List.length_singleton] at hlt
    obtain rfl : j = l.length := by omega
    rw [List.getElem?_concat_length] at h
    exact .inl ⟨rfl, (Option.some.inj h).symm⟩

theorem sublist_of_increasing {l l' : List α} (pos : α → Nat) (hpos : ∀ x ∈ l, l'[pos x]? = some x)
    (hinc : l.Pairwise fun x y => pos x < pos y) : l.Sublist l' := by
  rw [List.sublist_iff_exists_fin_orderEmbedding_get_eq]
  have hget : ∀ i : Fin l.length, l'[pos (l.get i)]? = some (l.get i) := fun i =>
    hpos _ (l.get_mem i)
  have hlt : ∀ i : Fin l.length, pos (l.get i) < l'.length := fun i =>
    (List.getElem?_eq_some_iff.mp (hget i)).1
  let f : Fin l.length → Fin l'.length := fun i => ⟨pos (l.get i), hlt i⟩
  have hmono : StrictMono f := by
    intro i j hij
    exact List.pairwise_iff_get.mp hinc i j hij
  refine ⟨OrderEmbedding.ofStrictMono f hmono, fun i => ?_⟩
  exact (List.getElem?_eq_some_iff.mp (hget i)).2.symm

end Position
