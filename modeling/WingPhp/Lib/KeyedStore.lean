import Mathlib.Data.List.Basic

/-!
# A store used under keys

A service answers requests one after the other.  A request looks at the store under some keys (`sees`), puts
at most one value in, under a key of its own (`owner`), and what it puts and answers depends on what it sees
alone.

* `stored_eq`: under a key lies what the last request put there that put anything;
* `answers_purge`: requests that keep to a set of keys get the answers they would get if the requests of
  other keys had never been made.
-/

/-- A service over a store; what it puts and answers is the same for stores that look the same. -/
structure KeyedStore (κ σ ι ο : Type) where
  sees : ι → List κ
  owner : ι → κ
  put : (κ → Option σ) → ι → Option σ
  answer : (κ → Option σ) → ι → ο
  put_congr : ∀ {s s' : κ → Option σ} {i : ι}, (∀ k ∈ sees i, s k = s' k) → put s i = put s' i
  answer_congr : ∀ {s s' : κ → Option σ} {i : ι}, (∀ k ∈ sees i, s k = s' k) → answer s i = answer s' i

namespace KeyedStore

variable {κ σ ι ο : Type} [DecidableEq κ] (S : KeyedStore κ σ ι ο)

/-- One request. -/
def next (s : κ → Option σ) (i : ι) : κ → Option σ := fun k =>
  if k = S.owner i then (S.put s i).or (s k) else s k

def run : (κ → Option σ) → List ι → κ → Option σ
  | s, [] => s
  | s, i :: is => run (S.next s i) is

/-- The requests with their answers. -/
def answers : (κ → Option σ) → List ι → List (ι × ο)
  | _, [] => []
  | s, i :: is => (i, S.answer s i) :: answers (S.next s i) is

/-- What the requests put in, with its key. -/
def puts : (κ → Option σ) → List ι → List (κ × σ)
  | _, [] => []
  | s, i :: is => ((S.put s i).map (S.owner i, ·)).toList ++ puts (S.next s i) is

variable {S} {s s' : κ → Option σ} {i : ι} {is : List ι} {k : κ}

theorem next_of_ne (h : k ≠ S.owner i) : S.next s i k = s k := if_neg h

theorem next_owner : S.next s i (S.owner i) = (S.put s i).or (s (S.owner i)) := if_pos rfl

/-- **The last value put under a key is what it holds.** -/
theorem stored_eq : S.run s is k = (((S.puts s is).filter (·.1 = k)).getLast?.map Prod.snd).or (s k) := by
  induction is generalizing s with
  | nil => rfl
  | cons i is ih =>
    rw [run, puts, ih, List.filter_append, List.getLast?_append]
    cases ((S.puts (S.next s i) is).filter (·.1 = k)).getLast? with
    | some p => rfl
    | none =>
      rw [Option.map_none, Option.none_or, Option.none_or]
      by_cases hk : k = S.owner i
      · subst hk
        rw [next_owner]
        cases S.put s i <;> simp
      · rw [next_of_ne hk]
        cases S.put s i <;> simp [Ne.symm hk]

/-! ## Requests that keep to some keys -/

/-- A request of the keys `K`. -/
def Of (S : KeyedStore κ σ ι ο) (K : κ → Prop) (i : ι) : Prop := K (S.owner i)

variable {K : κ → Prop} [DecidablePred K]

instance : DecidablePred (S.Of K) := fun i => inferInstanceAs (Decidable (K (S.owner i)))

/-- **Requests of other keys change nothing for those that keep to `K`.** -/
theorem answers_purge (hs : ∀ k, K k → s k = s' k) (hkeep : ∀ i ∈ is, S.Of K i → ∀ k ∈ S.sees i, K k) :
    (S.answers s is).filter (fun p => S.Of K p.1) = S.answers s' (is.filter fun i => S.Of K i) := by
  induction is generalizing s s' with
  | nil => rfl
  | cons i is ih =>
    have hrest : ∀ j ∈ is, S.Of K j → ∀ k ∈ S.sees j, K k := fun j hj => hkeep j (List.mem_cons_of_mem _ hj)
    by_cases hi : S.Of K i
    · have hsees : ∀ k ∈ S.sees i, s k = s' k := fun k hk => hs k (hkeep i List.mem_cons_self hi k hk)
      rw [answers, List.filter_cons_of_pos (by simpa using hi), List.filter_cons_of_pos (by simpa using hi), answers,
        S.answer_congr hsees]
      refine congrArg _ (ih (fun k hk => ?_) hrest)
      by_cases hk' : k = S.owner i
      · subst hk'
        rw [next_owner, next_owner, S.put_congr hsees, hs _ hk]
      · rw [next_of_ne hk', next_of_ne hk', hs k hk]
    · rw [answers, List.filter_cons_of_neg (by simpa using hi), List.filter_cons_of_neg (by simpa using hi)]
      refine ih (fun k hk => ?_) hrest
      have hne : k ≠ S.owner i := by
        rintro rfl
        exact hi hk
      rw [next_of_ne hne, hs k hk]

end KeyedStore
