import Mathlib.Data.List.Basic
import Mathlib.Data.List.Nodup
import Mathlib.Logic.Relation

/-!
# Singly linked queues in memory

A queue is a pair of pointers, `head` and `tail`, into memory cells that hold
nodes; address `0` is the null pointer.  `push` and `pop` do the pointer
updates of the textbook queue, with the empty and the last-node cases apart;
`none` stands for an access to a cell that holds no node.

`IsQueue q l` says that the memory holds the list `l` of addresses and data:
the nodes from `head` on are those of `l` in order, `tail` is the address of
the last one, and no other node is in memory.  Under it both operations succeed
and are append (`push_isQueue`) and removal of the first (`pop_isQueue`).
-/

namespace LinkedQueue

variable {δ : Type}

def null : Nat := 0

structure Node (δ : Type) where
  data : δ
  next : Nat
  deriving DecidableEq, Repr

structure Queue (δ : Type) where
  head : Nat
  tail : Nat
  cells : Nat → Option (Node δ)

def Queue.empty : Queue δ := ⟨null, null, fun _ => none⟩

/-- Append `x`, in a node at the new address `a`. -/
def push (q : Queue δ) (a : Nat) (x : δ) : Option (Queue δ) :=
  let cells := Function.update q.cells a (some ⟨x, null⟩)
  if q.head = null then some ⟨a, a, cells⟩
  else
    match cells q.tail with
    | some last => some ⟨q.head, a, Function.update cells q.tail (some ⟨last.data, a⟩)⟩
    | none => none

/-- Take the first node out and delete it. -/
def pop (q : Queue δ) : Option (Option δ × Queue δ) :=
  if q.head = null then some (none, q)
  else
    match q.cells q.head with
    | some first =>
      let tail := if first.next = null then null else q.tail
      some (some first.data, ⟨first.next, tail, Function.update q.cells q.head none⟩)
    | none => none

/-! ## Lists in memory -/

/-- From address `a` the nodes of `l` are met in order; the last one points to `b`. -/
def Segment (cells : Nat → Option (Node δ)) : Nat → List (Nat × δ) → Nat → Prop
  | a, [], b => a = b
  | a, (p, x) :: l, b => a = p ∧ p ≠ null ∧ ∃ n, cells p = some ⟨x, n⟩ ∧ Segment cells n l b

theorem segment_append {cells : Nat → Option (Node δ)} {a b : Nat} {l l' : List (Nat × δ)} :
    Segment cells a (l ++ l') b ↔ ∃ c, Segment cells a l c ∧ Segment cells c l' b := by
  induction l generalizing a with
  | nil => simp [Segment]
  | cons c l ih =>
    simp only [List.cons_append, Segment, ih]
    constructor
    · rintro ⟨ha, hp, n, hn, c, hl, hl'⟩
      exact ⟨c, ⟨ha, hp, n, hn, hl⟩, hl'⟩
    · rintro ⟨c, ⟨ha, hp, n, hn, hl⟩, hl'⟩
      exact ⟨ha, hp, n, hn, c, hl, hl'⟩

/-- A segment is about its own cells only. -/
theorem Segment.congr {cells cells' : Nat → Option (Node δ)} {a b : Nat} {l : List (Nat × δ)}
    (h : Segment cells a l b) (hc : ∀ p ∈ l.map Prod.fst, cells' p = cells p) :
    Segment cells' a l b := by
  induction l generalizing a with
  | nil => exact h
  | cons c l ih =>
    obtain ⟨ha, hp, n, hn, hl⟩ := h
    refine ⟨ha, hp, n, ?_, ih hl fun p hp => hc p (List.mem_cons_of_mem _ hp)⟩
    rw [hc _ (List.mem_cons_self ..)]
    exact hn

/-- The address of the last node, or the null pointer. -/
def lastAddress (l : List (Nat × δ)) : Nat := (l.map Prod.fst).getLast?.getD null

structure IsQueue (q : Queue δ) (l : List (Nat × δ)) : Prop where
  chain : Segment q.cells q.head l null
  tail : q.tail = lastAddress l
  nodup : (l.map Prod.fst).Nodup
  present : ∀ a, a ∈ l.map Prod.fst ↔ q.cells a ≠ none

theorem isQueue_empty : IsQueue (Queue.empty : Queue δ) [] where
  chain := rfl
  tail := rfl
  nodup := List.nodup_nil
  present _ := by simp [Queue.empty]

namespace IsQueue

variable {q : Queue δ} {l : List (Nat × δ)}

theorem head_eq_null_iff (h : IsQueue q l) : q.head = null ↔ l = [] := by
  cases l with
  | nil => exact iff_of_true h.chain rfl
  | cons c l =>
    obtain ⟨ha, hp, -⟩ := h.chain
    simp [ha, hp]

theorem address_ne_null (h : IsQueue q l) {a : Nat} (ha : a ∈ l.map Prod.fst) : a ≠ null := by
  have hchain := h.chain
  generalize q.head = b at hchain
  clear h
  induction l generalizing b with
  | nil => simp at ha
  | cons c l ih =>
    obtain ⟨-, hp, n, -, hl⟩ := hchain
    rcases List.mem_cons.mp ha with rfl | ha
    · exact hp
    · exact ih ha n hl

theorem tail_eq_null_iff (h : IsQueue q l) : q.tail = null ↔ l = [] := by
  rcases List.eq_nil_or_concat l with rfl | ⟨l', c, rfl⟩
  · simp [h.tail, lastAddress]
  · have hne : c.1 ≠ null := h.address_ne_null (by simp)
    simp [h.tail, lastAddress, hne]

/-- `head` and `tail` are null together. -/
theorem head_null_iff_tail_null (h : IsQueue q l) : q.head = null ↔ q.tail = null := by
  rw [h.head_eq_null_iff, h.tail_eq_null_iff]

end IsQueue

/-- One node points to the next. -/
def PointsTo (cells : Nat → Option (Node δ)) (a b : Nat) : Prop :=
  ∃ node, cells a = some node ∧ node.next = b

theorem Segment.reaches {cells : Nat → Option (Node δ)} {a b : Nat} {l : List (Nat × δ)}
    (h : Segment cells a l b) : Relation.ReflTransGen (PointsTo cells) a b := by
  induction l generalizing a with
  | nil =>
    obtain rfl : a = b := h
    exact .refl
  | cons c l ih =>
    obtain ⟨rfl, -, n, hn, hl⟩ := h
    exact .head ⟨_, hn, rfl⟩ (ih hl)

/-- `tail` is reached from `head` and is where the list ends. -/
theorem IsQueue.tail_last {q : Queue δ} {l : List (Nat × δ)} (h : IsQueue q l)
    (hne : q.head ≠ null) :
    Relation.ReflTransGen (PointsTo q.cells) q.head q.tail ∧ PointsTo q.cells q.tail null := by
  rcases List.eq_nil_or_concat l with rfl | ⟨l', c, rfl⟩
  · exact absurd (h.head_eq_null_iff.mpr rfl) hne
  · obtain ⟨b, hl', hb, -, n, hn, hnull⟩ := segment_append.mp (List.concat_eq_append ▸ h.chain)
    have htail : q.tail = b := by rw [h.tail, hb]; simp [lastAddress]
    rw [htail, hb]
    exact ⟨hb ▸ hl'.reaches, _, hn, hnull⟩

/-! ## The operations -/

/-- **Push appends.** -/
theorem push_isQueue {q : Queue δ} {l : List (Nat × δ)} (h : IsQueue q l) {a : Nat} (x : δ)
    (ha : a ≠ null) (hfree : q.cells a = none) :
    ∃ q', push q a x = some q' ∧ IsQueue q' (l ++ [(a, x)]) := by
  have hnew : a ∉ l.map Prod.fst := fun hm => (h.present a).mp hm hfree
  have hnodup : ((l ++ [(a, x)]).map Prod.fst).Nodup := by
    rw [List.map_append, List.nodup_append]
    exact ⟨h.nodup, List.nodup_singleton _, fun p hp p' hp' e => by simp_all⟩
  unfold push
  dsimp only
  rcases List.eq_nil_or_concat l with rfl | ⟨l', ⟨t, y⟩, rfl⟩
  · -- the first node
    rw [if_pos (h.head_eq_null_iff.mpr rfl)]
    refine ⟨_, rfl, ⟨rfl, ha, null, by simp, rfl⟩, rfl, hnodup, fun b => ?_⟩
    have hb := h.present b
    show _ ↔ Function.update q.cells a (some ⟨x, null⟩) b ≠ none
    by_cases hba : b = a
    · simp [hba]
    · rw [Function.update_of_ne hba, ← hb]
      simp [hba]
  · -- the last node gets a successor
    rw [List.concat_eq_append] at *
    obtain ⟨c, hl', rfl, hc, n, hn, rfl⟩ := segment_append.mp h.chain
    have htail : q.tail = c := by rw [h.tail]; simp [lastAddress]
    have hac : c ≠ a := fun e => hnew (by simp [e])
    have hcl' : c ∉ l'.map Prod.fst := by
      have := h.nodup
      rw [List.map_append, List.nodup_append] at this
      exact fun hm => this.2.2 c hm c (by simp) rfl
    rw [if_neg (by simp [h.head_eq_null_iff]), htail, Function.update_of_ne hac, hn]
    refine ⟨_, rfl, ?_, by simp [lastAddress], hnodup, fun b => ?_⟩
    · rw [List.append_assoc, segment_append]
      refine ⟨c, hl'.congr fun p hp => ?_, rfl, hc, a, by simp, rfl, ha, null, ?_, rfl⟩
      · have hpa : p ≠ a := fun e => hnew (by simp [← e, hp])
        have hpc : p ≠ c := fun e => hcl' (e ▸ hp)
        dsimp only
        rw [Function.update_of_ne hpc, Function.update_of_ne hpa]
      · dsimp only
        rw [Function.update_of_ne (Ne.symm hac), Function.update_self]
    · have hb := h.present b
      dsimp only
      by_cases hbc : b = c
      · simp [hbc]
      · by_cases hba : b = a
        · simp [hba, Ne.symm hac]
        · rw [Function.update_of_ne hbc, Function.update_of_ne hba, ← hb]
          simp [hba]

/-- **Pop takes the first.** -/
theorem pop_isQueue {q : Queue δ} {p : Nat} {x : δ} {l : List (Nat × δ)}
    (h : IsQueue q ((p, x) :: l)) :
    ∃ q', pop q = some (some x, q') ∧ IsQueue q' l := by
  obtain ⟨hhead, hp, n, hn, hl⟩ := h.chain
  have hnodup := h.nodup
  rw [List.map_cons, List.nodup_cons] at hnodup
  unfold pop
  rw [if_neg (by simp [hhead, hp]), hhead, hn]
  refine ⟨_, rfl, ?_, ?_, hnodup.2, fun b => ?_⟩
  · refine hl.congr fun b hb => Function.update_of_ne ?_ _ _
    exact fun e => hnodup.1 (e ▸ hb)
  · -- with the last node the tail goes too
    show (if n = null then null else q.tail) = _
    rw [h.tail]
    cases l with
    | nil =>
      obtain rfl : n = null := hl
      simp [lastAddress]
    | cons c l =>
      obtain ⟨rfl, hc, -⟩ := hl
      rw [if_neg hc]
      simp [lastAddress]
  · have hb := h.present b
    dsimp only
    by_cases hbp : b = p
    · rw [hbp]
      simpa using hnodup.1
    · rw [Function.update_of_ne hbp, ← hb]
      simp [hbp]

/-- The data in the cells. -/
theorem Segment.data {cells : Nat → Option (Node δ)} {a b : Nat} {l : List (Nat × δ)} (h : Segment cells a l b) :
    (l.map Prod.fst).map (fun p => (cells p).map Node.data) = (l.map Prod.snd).map some := by
  induction l generalizing a with
  | nil => rfl
  | cons c l ih =>
    obtain ⟨-, -, n, hn, hl⟩ := h
    simp only [List.map_cons, hn, Option.map_some, ih hl]

/-! ## Deleting all nodes -/

/-- Deletes the nodes from `head` on, at most `fuel - 1` of them; the addresses in the order in which they are
deleted.  `none` stands for an access to a cell that holds no node, and for more nodes than that. -/
def clear : Nat → Queue δ → Option (List Nat × Queue δ)
  | 0, _ => none
  | fuel + 1, q =>
    if q.head = null then some ([], { q with tail := null })
    else
      match q.cells q.head with
      | none => none
      | some first =>
        (clear fuel ⟨first.next, q.tail, Function.update q.cells q.head none⟩).map fun r => (q.head :: r.1, r.2)

/-- A walk along a segment that ends deletes its nodes and no other cell. -/
theorem clear_segment {fuel : Nat} {q : Queue δ} {l : List (Nat × δ)} (hchain : Segment q.cells q.head l null)
    (hnodup : (l.map Prod.fst).Nodup) (hfuel : l.length < fuel) :
    clear fuel q = some (l.map Prod.fst, ⟨null, null, fun a => if a ∈ l.map Prod.fst then none else q.cells a⟩) := by
  induction l generalizing fuel q with
  | nil =>
    obtain ⟨fuel, rfl⟩ := Nat.exists_eq_add_one_of_ne_zero (Nat.ne_of_gt hfuel)
    have hnull : q.head = null := hchain
    rw [clear, if_pos hnull, hnull]
    simp
  | cons c l ih =>
    obtain ⟨fuel, rfl⟩ := Nat.exists_eq_add_one_of_ne_zero (Nat.ne_of_gt (Nat.zero_lt_of_lt hfuel))
    obtain ⟨hhead, hc, n, hn, hl⟩ := hchain
    rw [List.map_cons, List.nodup_cons] at hnodup
    -- the cell that is deleted is not met again
    have hrest : Segment (Function.update q.cells c.1 none) n l null := by
      refine hl.congr fun p hp => Function.update_of_ne ?_ _ _
      rintro rfl
      exact hnodup.1 hp
    have hcells : (fun a => if a ∈ l.map Prod.fst then none else Function.update q.cells c.1 none a) =
        fun a => if a ∈ (c :: l).map Prod.fst then none else q.cells a := by
      funext a
      by_cases ha : a = c.1
      · simp [ha]
      · have hmem : a ∈ (c :: l).map Prod.fst ↔ a ∈ l.map Prod.fst := by
          rw [List.map_cons, List.mem_cons]
          exact or_iff_right ha
        simp only [hmem, Function.update_of_ne ha]
    rw [List.length_cons] at hfuel
    rw [clear, hhead, if_neg hc, hn]
    dsimp only
    rw [ih hrest hnodup.2 (by omega), Option.map_some, ← hcells]
    rfl

/-- **Every node is deleted once**, and none is left. -/
theorem clear_isQueue {fuel : Nat} {q : Queue δ} {l : List (Nat × δ)} (h : IsQueue q l) (hfuel : l.length < fuel) :
    clear fuel q = some (l.map Prod.fst, .empty) := by
  rw [clear_segment h.chain h.nodup hfuel]
  congr 3
  funext a
  split_ifs with ha
  · rfl
  · have hpresent := h.present a
    by_contra hne
    exact ha (hpresent.mpr hne)

end LinkedQueue
