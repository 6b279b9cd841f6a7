import Mathlib.Data.List.Count
import Mathlib.Data.List.Nodup

/-!
# Objects that travel through a queue

A producer makes an object, may send any number of messages about it, and then
sends one last message, with which it lets go of the object; the consumer takes
the messages in order and releases the object when it is done with the last one.
An object nobody has been told about may also be released by its maker.

`Custody` counts, for every object, where its one release is to come from: from
whoever holds it, from a last message in the line, or it has happened.  As no
message about an object stands behind its last one, nobody gets to see a
released object (`held_live`, `line_live`), and when the line is empty and the
object let go of, it has been released once (`released_once`).
-/

/-- `made` are all objects, `held` those their makers still hold, `unsaid` those of them
no message is about, `line` the messages not yet dealt with, where `true` marks a last
message, and `freed` what has been released. -/
structure Custody {ι : Type} [DecidableEq ι] (made held unsaid : List ι) (line : List (ι × Bool))
    (freed : List ι) : Prop where
  nodup : made.Nodup
  tickets : ∀ p, held.count p + line.count (p, true) + freed.count p = made.count p
  after : line.Pairwise fun m m' => m.2 = true → m'.1 ≠ m.1
  live : ∀ m ∈ line, m.1 ∈ made ∧ m.1 ∉ freed
  silent : ∀ p ∈ unsaid, ∀ m ∈ line, m.1 ≠ p

namespace Custody

variable {ι : Type} [DecidableEq ι] {made held held' unsaid unsaid' freed : List ι}
  {line : List (ι × Bool)} {p : ι}

/-- `held'` has `p` more than `held`. -/
def Takes (held held' : List ι) (p : ι) : Prop :=
  ∀ q, held'.count q = held.count q + if p = q then 1 else 0

theorem empty : Custody ([] : List ι) [] [] [] [] where
  nodup := List.nodup_nil
  tickets _ := rfl
  after := List.Pairwise.nil
  live := by simp
  silent := by simp

theorem made_le_one (h : Custody made held unsaid line freed) (p : ι) : made.count p ≤ 1 :=
  List.nodup_iff_count_le_one.mp h.nodup p

theorem held_nodup (h : Custody made held unsaid line freed) : held.Nodup := by
  rw [List.nodup_iff_count_le_one]
  intro p
  have := h.tickets p
  have := h.made_le_one p
  omega

/-- What is held is not released, and its last message is not sent. -/
theorem held_live (h : Custody made held unsaid line freed) (hp : p ∈ held) :
    p ∈ made ∧ p ∉ freed ∧ (p, true) ∉ line := by
  have hpos := List.count_pos_iff.mpr hp
  have htickets := h.tickets p
  have hone := h.made_le_one p
  refine ⟨List.count_pos_iff.mp (by omega), fun hf => ?_, fun hl => ?_⟩
  · have := List.count_pos_iff.mpr hf
    omega
  · have := List.count_pos_iff.mpr hl
    omega

/-- What a message is about is not released. -/
theorem line_live (h : Custody made held unsaid line freed) {m : ι × Bool} (hm : m ∈ line) :
    m.1 ∉ freed :=
  (h.live m hm).2

/-- **Everything is released once** that nobody holds and that no message waits for. -/
theorem released_once (h : Custody made held unsaid [] freed) (hm : p ∈ made) (hp : p ∉ held) :
    freed.count p = 1 := by
  have htickets := h.tickets p
  rw [List.count_eq_zero_of_not_mem hp, List.count_nil, List.count_eq_one_of_mem h.nodup hm] at htickets
  omega

theorem never_made (h : Custody made held unsaid line freed) (hm : p ∉ made) : freed.count p = 0 := by
  have := h.tickets p
  rw [List.count_eq_zero_of_not_mem hm] at this
  omega

/-! ## The operations -/

/-- Nothing changes but what is said to be unsaid. -/
theorem congr (h : Custody made held unsaid line freed) (hheld : ∀ q, held'.count q = held.count q)
    (hun : unsaid' ⊆ unsaid) : Custody made held' unsaid' line freed where
  nodup := h.nodup
  tickets q := by
    rw [hheld q]
    exact h.tickets q
  after := h.after
  live := h.live
  silent q hq := h.silent q (hun hq)

theorem make (h : Custody made held unsaid line freed) (hp : p ∉ made) (ht : Takes held held' p)
    (hun : unsaid' ⊆ p :: unsaid) : Custody (made ++ [p]) held' unsaid' line freed where
  nodup := by
    rw [List.nodup_append]
    refine ⟨h.nodup, List.nodup_singleton p, ?_⟩
    rintro q hq q' hq' rfl
    exact hp (List.mem_singleton.mp hq' ▸ hq)
  tickets q := by
    have := h.tickets q
    rw [ht q, List.count_append, List.count_singleton]
    by_cases hpq : p = q <;> simp [hpq] <;> omega
  after := h.after
  live m hm := ⟨List.mem_append_left _ (h.live m hm).1, (h.live m hm).2⟩
  silent q hq m hm := by
    rcases List.mem_cons.mp (hun hq) with rfl | hq
    · rintro rfl
      exact hp (h.live m hm).1
    · exact h.silent q hq m hm

theorem after_append (h : Custody made held unsaid line freed) (hp : p ∈ held) (last : Bool) :
    (line ++ [(p, last)]).Pairwise fun m m' => m.2 = true → m'.1 ≠ m.1 := by
  rw [List.pairwise_append]
  refine ⟨h.after, List.pairwise_singleton _ _, ?_⟩
  rintro ⟨q, b⟩ hm m' hm' (rfl : b = true) rfl
  obtain rfl := List.mem_singleton.mp hm'
  exact (h.held_live hp).2.2 hm

theorem live_append (h : Custody made held unsaid line freed) (hp : p ∈ held) (last : Bool) :
    ∀ m ∈ line ++ [(p, last)], m.1 ∈ made ∧ m.1 ∉ freed := by
  intro m hm
  rcases List.mem_append.mp hm with hm | hm
  · exact h.live m hm
  · obtain rfl := List.mem_singleton.mp hm
    exact ⟨(h.held_live hp).1, (h.held_live hp).2.1⟩

theorem silent_append (h : Custody made held unsaid line freed) (last : Bool)
    (hun : ∀ q ∈ unsaid', q ∈ unsaid ∧ q ≠ p) :
    ∀ q ∈ unsaid', ∀ m ∈ line ++ [(p, last)], m.1 ≠ q := by
  intro q hq m hm
  rcases List.mem_append.mp hm with hm | hm
  · exact h.silent q (hun q hq).1 m hm
  · obtain rfl := List.mem_singleton.mp hm
    exact (hun q hq).2.symm

/-- A message about an object one holds. -/
theorem mention (h : Custody made held unsaid line freed) (hp : p ∈ held)
    (hheld : ∀ q, held'.count q = held.count q) (hun : ∀ q ∈ unsaid', q ∈ unsaid ∧ q ≠ p) :
    Custody made held' unsaid' (line ++ [(p, false)]) freed where
  nodup := h.nodup
  tickets q := by
    rw [hheld q, List.count_append, List.count_singleton, if_neg (by simp), Nat.add_zero]
    exact h.tickets q
  after := h.after_append hp false
  live := h.live_append hp false
  silent := h.silent_append false hun

/-- The last message about it. -/
theorem handOver (h : Custody made held unsaid line freed) (ht : Takes held' held p)
    (hun : ∀ q ∈ unsaid', q ∈ unsaid ∧ q ≠ p) :
    Custody made held' unsaid' (line ++ [(p, true)]) freed := by
  have hp : p ∈ held := by
    rw [← List.count_pos_iff, ht p, if_pos rfl]
    omega
  constructor
  · exact h.nodup
  · intro q
    have := h.tickets q
    rw [ht q] at this
    rw [List.count_append, List.count_singleton]
    by_cases hpq : p = q <;> simp [hpq] at this ⊢ <;> omega
  · exact h.after_append hp true
  · exact h.live_append hp true
  · exact h.silent_append true hun

/-- Its maker releases an object no message is about. -/
theorem discard (h : Custody made held unsaid line freed) (ht : Takes held' held p) (hp : p ∈ unsaid)
    (hun : unsaid' ⊆ unsaid) : Custody made held' unsaid' line (freed ++ [p]) where
  nodup := h.nodup
  tickets q := by
    have := h.tickets q
    rw [ht q] at this
    rw [List.count_append, List.count_singleton]
    by_cases hpq : p = q <;> simp [hpq] at this ⊢ <;> omega
  after := h.after
  live m hm := by
    refine ⟨(h.live m hm).1, fun hf => ?_⟩
    rcases List.mem_append.mp hf with hf | hf
    · exact (h.live m hm).2 hf
    · exact h.silent p hp m hm (List.mem_singleton.mp hf)
  silent q hq := h.silent q (hun hq)

/-- The consumer is done with the first message. -/
theorem finish {last : Bool} (h : Custody made held unsaid ((p, last) :: line) freed) :
    Custody made held unsaid line (freed ++ if last then [p] else []) where
  nodup := h.nodup
  tickets q := by
    have := h.tickets q
    rw [List.count_cons] at this
    rw [List.count_append]
    cases last with
    | false => simpa using this
    | true =>
      by_cases hpq : p = q <;> simp [hpq] at this ⊢ <;> omega
  after := (List.pairwise_cons.mp h.after).2
  live m hm := by
    obtain ⟨hmade, hlive⟩ := h.live m (List.mem_cons_of_mem _ hm)
    refine ⟨hmade, fun hf => ?_⟩
    rcases List.mem_append.mp hf with hf | hf
    · exact hlive hf
    · cases last with
      | false => simp at hf
      | true => exact (List.pairwise_cons.mp h.after).1 m hm rfl (List.mem_singleton.mp hf)
  silent q hq m hm := h.silent q hq m (List.mem_cons_of_mem _ hm)

end Custody
