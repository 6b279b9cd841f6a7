import Mathlib.Data.List.Basic

/-!
# FIFO channels with their history

A channel holds what is waiting and, as history, what was taken out.
`posted = taken ++ waiting` only grows at its end (`posted_post`) and taking a
message does not change it (`posted_pop`), so a property of the order in which
messages were posted carries over to the order in which they are taken.
-/

structure Channel (μ : Type) where
  taken : List μ
  waiting : List μ
  deriving DecidableEq, Repr

namespace Channel

variable {μ : Type}

def empty : Channel μ := ⟨[], []⟩

def post (c : Channel μ) (m : μ) : Channel μ := { c with waiting := c.waiting ++ [m] }

/-- Post when there is something to post. -/
def postOption (c : Channel μ) : Option μ → Channel μ
  | some m => c.post m
  | none => c

def postAll (c : Channel μ) (ms : List μ) : Channel μ := { c with waiting := c.waiting ++ ms }

def pop (c : Channel μ) : Option (μ × Channel μ) :=
  match c.waiting with
  | [] => none
  | m :: ms => some (m, ⟨c.taken ++ [m], ms⟩)

/-- Every message posted so far, in posting order. -/
def posted (c : Channel μ) : List μ := c.taken ++ c.waiting

@[simp] theorem posted_post (c : Channel μ) (m : μ) : (c.post m).posted = c.posted ++ [m] := by
  simp [post, posted]

@[simp] theorem posted_postOption (c : Channel μ) (m : Option μ) :
    (c.postOption m).posted = c.posted ++ m.toList := by
  cases m <;> simp [postOption]

@[simp] theorem posted_postAll (c : Channel μ) (ms : List μ) :
    (c.postAll ms).posted = c.posted ++ ms := by
  simp [postAll, posted]

theorem posted_pop {c c' : Channel μ} {m : μ} (h : c.pop = some (m, c')) : c'.posted = c.posted := by
  unfold pop at h
  split at h
  · cases h
  · next hw =>
    obtain ⟨rfl, rfl⟩ := h
    simp [posted, hw]

theorem taken_prefix_posted (c : Channel μ) : c.taken <+: c.posted := ⟨c.waiting, rfl⟩

end Channel
