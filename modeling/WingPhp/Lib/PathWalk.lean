import Mathlib.Data.List.Basic

/-!
# Paths that go up and down

A directory is the list of the names that lead to it from the top.  `walk` follows the segments of a path
from one; `up` from the top stays there.  `climb` looks at the path alone: how many levels it leaves on the
whole, and the names it then goes down by.  `walk_eq` ties the two, and `prefix_walk_iff` says when a path
ends inside the directory it starts from.
-/

namespace PathWalk

variable {ν : Type}

inductive Seg (ν : Type) where
  | stay
  | up
  | down (n : ν)
  deriving DecidableEq, Repr

def step (dir : List ν) : Seg ν → List ν
  | .stay => dir
  | .up => dir.dropLast
  | .down n => dir ++ [n]

def walk (dir : List ν) (path : List (Seg ν)) : List ν := path.foldl step dir

/-- Levels left, and names gone down by. -/
structure Climb (ν : Type) where
  levels : Nat
  names : List ν
  deriving DecidableEq, Repr

def Climb.step (c : Climb ν) : Seg ν → Climb ν
  | .stay => c
  | .up => if c.names = [] then ⟨c.levels + 1, []⟩ else ⟨c.levels, c.names.dropLast⟩
  | .down n => ⟨c.levels, c.names ++ [n]⟩

def climb (path : List (Seg ν)) : Climb ν := path.foldl Climb.step ⟨0, []⟩

/-- Where it leads. -/
def Climb.place (c : Climb ν) (dir : List ν) : List ν := dir.take (dir.length - c.levels) ++ c.names

theorem walk_append (dir : List ν) (path path' : List (Seg ν)) :
    walk dir (path ++ path') = walk (walk dir path) path' := List.foldl_append

theorem step_place (c : Climb ν) (dir : List ν) (s : Seg ν) : step (c.place dir) s = (c.step s).place dir := by
  cases s with
  | stay => rfl
  | down n => exact List.append_assoc _ _ _
  | up =>
    by_cases h : c.names = []
    · rw [Climb.step, if_pos h, Climb.place, h, Climb.place, List.append_nil, List.append_nil, step,
        List.dropLast_eq_take, List.length_take, List.take_take]
      have hlen : min (min (dir.length - c.levels) dir.length - 1) (dir.length - c.levels)
          = dir.length - (c.levels + 1) := by omega
      rw [hlen]
    · rw [Climb.step, if_neg h, step, Climb.place, List.dropLast_append_of_ne_nil h]
      rfl

theorem walk_place (c : Climb ν) (dir : List ν) (path : List (Seg ν)) :
    walk (c.place dir) path = (path.foldl Climb.step c).place dir := by
  induction path generalizing c with
  | nil => rfl
  | cons s path ih =>
    rw [walk, List.foldl_cons, step_place]
    exact ih (c.step s)

/-- **A walk is a climb.** -/
theorem walk_eq (dir : List ν) (path : List (Seg ν)) : walk dir path = (climb path).place dir := by
  have h := walk_place ⟨0, []⟩ dir path
  rw [Climb.place, Nat.sub_zero, List.take_length, List.append_nil] at h
  exact h

/-- **It ends inside** when the names it goes down by start with the directories it has left. -/
theorem prefix_walk_iff (dir : List ν) (path : List (Seg ν)) :
    dir <+: walk dir path ↔ dir.drop (dir.length - (climb path).levels) <+: (climb path).names := by
  have hsplit := List.take_append_drop (dir.length - (climb path).levels) dir
  rw [walk_eq, Climb.place]
  constructor
  · intro h
    nth_rewrite 1 [← hsplit] at h
    exact (List.prefix_append_right_inj _).mp h
  · intro h
    nth_rewrite 1 [← hsplit]
    exact (List.prefix_append_right_inj _).mpr h

/-- A path that leaves no level does. -/
theorem prefix_walk_of_levels {dir : List ν} {path : List (Seg ν)} (h : (climb path).levels = 0) :
    dir <+: walk dir path := by
  rw [prefix_walk_iff, h, Nat.sub_zero, List.drop_length]
  exact List.nil_prefix

end PathWalk
