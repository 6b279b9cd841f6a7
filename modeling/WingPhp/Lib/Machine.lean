import Mathlib.Logic.Basic

/-!
# Machines and their runs

A machine is a start state and an executable step: `step s a = some s'` when
action `a` can be taken in `s`.  An action carries both who moves and what the
outside world answers, so the set of all action lists is the set of all
interleavings with all environments.

`M.Reach ok` are the states of the runs all of whose steps meet `ok`; with no
condition this is `M.Reachable`.  The two rules used on them:

* `Reach.invariant`: what holds at the start and is kept by every step meeting
  `ok` holds in every state of such a run;
* `Reach.exec`: a list of actions that `M.guarded ok` executes is such a run,
  which is how concrete runs are shown to exist.

`M.CanDo bad s` says that some run from `s` takes a step of the kind `bad`.

`M.watch` is `M` with an observer who keeps notes of the run, for statements
about what happened on the way (`Reach.watch_invariant`).
-/

namespace Transition

structure Machine (σ α : Type) where
  init : σ
  step : σ → α → Option σ

namespace Machine

variable {σ α : Type}

/-- States of the runs all of whose steps meet `ok`. -/
inductive Reach (M : Machine σ α) (ok : σ → α → Prop) : σ → Prop
  | init : Reach M ok M.init
  | step {s s' : σ} {a : α} : Reach M ok s → ok s a → M.step s a = some s' → Reach M ok s'

/-- The condition every step meets. -/
def anyStep : σ → α → Prop := fun _ _ => True

abbrev Reachable (M : Machine σ α) : σ → Prop := M.Reach anyStep

variable {M : Machine σ α} {ok : σ → α → Prop}

theorem Reach.mono {ok' : σ → α → Prop} (himp : ∀ s a, ok s a → ok' s a) {s : σ}
    (h : M.Reach ok s) : M.Reach ok' s := by
  induction h with
  | init => exact .init
  | step _ ha hs ih => exact .step ih (himp _ _ ha) hs

theorem Reach.reachable {s : σ} (h : M.Reach ok s) : M.Reachable s :=
  h.mono fun _ _ _ => trivial

/-- **Run rule.**  A step may use that its source state is itself reached. -/
theorem Reach.invariant {I : σ → Prop} (hinit : I M.init)
    (hstep : ∀ s a s', M.Reach ok s → I s → ok s a → M.step s a = some s' → I s') {s : σ}
    (h : M.Reach ok s) : I s := by
  induction h with
  | init => exact hinit
  | step hr ha hs ih => exact hstep _ _ _ hr ih ha hs

/-! ## Concrete runs -/

/-- Take the actions one after the other; `none` when one cannot be taken. -/
def exec (M : Machine σ α) : σ → List α → Option σ
  | s, [] => some s
  | s, a :: as =>
    match M.step s a with
    | some s' => M.exec s' as
    | none => none

theorem exec_cons {s s' : σ} {a : α} (as : List α) (h : M.step s a = some s') :
    M.exec s (a :: as) = M.exec s' as := by
  simp only [exec, h]

/-- The machine that only takes the steps meeting `ok`. -/
def guarded (M : Machine σ α) (ok : σ → α → Prop) [∀ s a, Decidable (ok s a)] : Machine σ α where
  init := M.init
  step s a := if ok s a then M.step s a else none

theorem Reach.exec [∀ s a, Decidable (ok s a)] {s s' : σ} {as : List α} (hr : M.Reach ok s)
    (h : (M.guarded ok).exec s as = some s') : M.Reach ok s' := by
  induction as generalizing s with
  | nil =>
    obtain rfl : s = s' := by simpa [Machine.exec] using h
    exact hr
  | cons a as ih =>
    simp only [Machine.exec, guarded] at h
    split at h
    · next t hst =>
      split at hst
      · next hok => exact ih (.step hr hok hst) h
      · cases hst
    · cases h

theorem Reachable.exec {s s' : σ} {as : List α} (hr : M.Reachable s)
    (h : M.exec s as = some s') : M.Reachable s' := by
  induction as generalizing s with
  | nil =>
    obtain rfl : s = s' := by simpa [Machine.exec] using h
    exact hr
  | cons a as ih =>
    simp only [Machine.exec] at h
    split at h
    · next t hst => exact ih (.step hr trivial hst) h
    · cases h

/-- A run the machine executes, given by its actions, with a fact about the state
it ends in. -/
theorem exists_reachable {p : σ → Prop} [DecidablePred p] (as : List α)
    (h : (M.exec M.init as).any (fun s => p s) = true) : ∃ s, M.Reachable s ∧ p s := by
  obtain ⟨s, hs, hp⟩ := Option.any_eq_true .. |>.mp h
  exact ⟨s, Reachable.exec .init hs, of_decide_eq_true hp⟩

theorem exists_reach (ok : σ → α → Prop) [∀ s a, Decidable (ok s a)] {p : σ → Prop} [DecidablePred p] (as : List α)
    (h : ((M.guarded ok).exec M.init as).any (fun s => p s) = true) :
    ∃ s, M.Reach ok s ∧ p s := by
  obtain ⟨s, hs, hp⟩ := Option.any_eq_true .. |>.mp h
  exact ⟨s, Reach.exec .init hs, of_decide_eq_true hp⟩

/-! ## What can still happen -/

/-- The machine, started in another state. -/
def startingAt (M : Machine σ α) (s : σ) : Machine σ α := { M with init := s }

/-- Some run from this state takes a step of this kind. -/
inductive CanDo (M : Machine σ α) (bad : σ → α → Prop) : σ → Prop
  | now {s s' : σ} {a : α} : M.step s a = some s' → bad s a → CanDo M bad s
  | later {s s' : σ} {a : α} : M.step s a = some s' → CanDo M bad s' → CanDo M bad s

variable {bad : σ → α → Prop}

/-- A run goes on from a step. -/
theorem Reach.of_step {s s' t : σ} {a : α} (h : M.step s a = some s') (ha : ok s a)
    (ht : (M.startingAt s').Reach ok t) : (M.startingAt s).Reach ok t := by
  induction ht with
  | init => exact Reach.step (M := M.startingAt s) .init ha h
  | step _ hok hs ih => exact Reach.step (M := M.startingAt s) ih hok hs

theorem Reachable.of_step {s s' t : σ} {a : α} (h : M.step s a = some s')
    (ht : (M.startingAt s').Reachable t) : (M.startingAt s).Reachable t :=
  Reach.of_step h trivial ht

theorem CanDo.of_reachable {s t : σ} (ht : (M.startingAt s).Reachable t) (h : M.CanDo bad t) :
    M.CanDo bad s := by
  induction ht with
  | init => exact h
  | step _ _ hs ih => exact ih (.later hs h)

theorem canDo_iff {s : σ} :
    M.CanDo bad s ↔ ∃ t a t', (M.startingAt s).Reachable t ∧ M.step t a = some t' ∧ bad t a := by
  constructor
  · intro h
    induction h with
    | now hs hbad => exact ⟨_, _, _, .init, hs, hbad⟩
    | later hs _ ih =>
      obtain ⟨t, a, t', ht, hstep, hbad⟩ := ih
      exact ⟨t, a, t', ht.of_step hs, hstep, hbad⟩
  · rintro ⟨t, a, t', ht, hstep, hbad⟩
    exact .of_reachable ht (.now hstep hbad)

/-- What is kept by every step and rules the kind of step out rules it out for good. -/
theorem not_canDo {I : σ → Prop} (hstep : ∀ s a s', I s → M.step s a = some s' → ¬ bad s a ∧ I s')
    {s : σ} (hi : I s) : ¬ M.CanDo bad s := by
  intro h
  induction h with
  | now hs hbad => exact (hstep _ _ _ hi hs).1 hbad
  | later hs _ ih => exact ih (hstep _ _ _ hi hs).2

/-! ## What is said of every step -/

/-- Each of these actions, taken one after the other, meets `p` in the state it is taken in. -/
def Along (M : Machine σ α) (p : σ → α → Prop) : σ → List α → Prop
  | _, [] => True
  | s, a :: as =>
    p s a ∧
      match M.step s a with
      | some s' => M.Along p s' as
      | none => True

instance {p : σ → α → Prop} [∀ s a, Decidable (p s a)] : ∀ (as : List α) (s : σ), Decidable (M.Along p s as)
  | [], _ => isTrue trivial
  | a :: as, s =>
    match h : M.step s a with
    | some s' =>
      have := instDecidableAlong (p := p) as s'
      decidable_of_iff (p s a ∧ M.Along p s' as) (by simp [Along, h])
    | none => decidable_of_iff (p s a) (by simp [Along, h])

/-- **Simulation rule.**  Related states meet `p` and `q` alike, and as long as they do the steps
lead to related states. -/
theorem along_sim {τ : Type} {N : Machine τ α} {R : σ → τ → Prop} {p : σ → α → Prop} {q : τ → α → Prop}
    (hpq : ∀ s t a, R s t → (p s a ↔ q t a))
    (hstep : ∀ s t a, R s t → p s a → Option.Rel R (M.step s a) (N.step t a)) {s : σ} {t : τ}
    (hr : R s t) (as : List α) : M.Along p s as ↔ N.Along q t as := by
  induction as generalizing s t with
  | nil => exact Iff.rfl
  | cons a as ih =>
    unfold Along
    rw [← hpq s t a hr]
    apply and_congr_right
    intro hp
    have hrel := hstep s t a hr hp
    generalize M.step s a = ms at hrel
    generalize N.step t a = nt at hrel
    cases hrel with
    | none => exact Iff.rfl
    | some hr' => exact ih hr'

/-- Two statements about single steps that come to the same under an invariant. -/
theorem along_congr {I : σ → Prop} {p q : σ → α → Prop}
    (hstep : ∀ s a s', I s → M.step s a = some s' → I s') (hpq : ∀ s a, I s → (p s a ↔ q s a)) {s : σ}
    (hi : I s) (as : List α) : M.Along p s as ↔ M.Along q s as := by
  refine along_sim (R := fun s t => s = t ∧ I s) (fun s t a h => ?_) (fun s t a h _ => ?_) ⟨rfl, hi⟩ as
  · obtain ⟨rfl, hi⟩ := h
    exact hpq s a hi
  · obtain ⟨rfl, hi⟩ := h
    cases hs : M.step s a with
    | none => exact .none
    | some s' => exact .some ⟨rfl, hstep s a s' hi hs⟩

end Machine

/-! ## Watched runs -/

/-- A state, and what an observer has written down on the way to it. -/
structure Watched (σ η : Type) where
  state : σ
  notes : η

namespace Machine

/-- `M` under observation.  At a step from `s` by `a` the observer brings the notes
up to date with `note s a`; the machine does not see them. -/
def watch {σ α η : Type} (M : Machine σ α) (start : η) (note : σ → α → η → η) :
    Machine (Watched σ η) α where
  init := ⟨M.init, start⟩
  step w a := (M.step w.state a).map fun s' => ⟨s', note w.state a w.notes⟩

section Watch

variable {σ α η : Type} {M : Machine σ α} {start : η} {note : σ → α → η → η}

theorem watch_step {w w' : Watched σ η} {a : α} (h : (M.watch start note).step w a = some w') :
    M.step w.state a = some w'.state ∧ w'.notes = note w.state a w.notes := by
  obtain ⟨s', hs, rfl⟩ := Option.map_eq_some_iff.mp h
  exact ⟨hs, rfl⟩

/-- A watched run is a run. -/
theorem Reach.unwatched {ok : σ → α → Prop} {w : Watched σ η}
    (h : (M.watch start note).Reach (fun w a => ok w.state a) w) : M.Reach ok w.state := by
  induction h with
  | init => exact .init
  | step _ ha hs ih => exact .step ih ha (watch_step hs).1

/-- Every run can be watched. -/
theorem Reach.watched (start : η) (note : σ → α → η → η) {ok : σ → α → Prop} {s : σ}
    (h : M.Reach ok s) :
    ∃ n, (M.watch start note).Reach (fun w a => ok w.state a) ⟨s, n⟩ := by
  induction h with
  | init => exact ⟨start, .init⟩
  | @step s s' a _ ha hs ih =>
    obtain ⟨n, hn⟩ := ih
    exact ⟨note s a n, .step hn ha (by simp [watch, hs])⟩

/-- **Run rule for watched runs.** -/
theorem Reach.watch_invariant {ok : σ → α → Prop} {I : σ → η → Prop} (hinit : I M.init start)
    (hstep : ∀ s a s' n, M.Reach ok s → I s n → ok s a → M.step s a = some s' → I s' (note s a n))
    {w : Watched σ η} (h : (M.watch start note).Reach (fun w a => ok w.state a) w) :
    I w.state w.notes := by
  induction h with
  | init => exact hinit
  | step hr ha hs ih =>
    obtain ⟨hs', hn⟩ := watch_step hs
    rw [hn]
    exact hstep _ _ _ _ hr.unwatched ih ha hs'

theorem Reachable.watch_invariant {I : σ → η → Prop} (hinit : I M.init start)
    (hstep : ∀ s a s' n, M.Reachable s → I s n → M.step s a = some s' → I s' (note s a n))
    {w : Watched σ η} (h : (M.watch start note).Reachable w) : I w.state w.notes := by
  change (M.watch start note).Reach (fun w a => anyStep w.state a) w at h
  exact h.watch_invariant hinit fun s a s' n hr hi _ hs => hstep s a s' n hr hi hs

end Watch

end Machine

end Transition
