import Mathlib.Data.List.DropRight

/-!
# Both ends of a list stripped

`strip p` is a list without its longest runs of `p` in front and at the end.  `strip_spec` gives the two
runs; `strip_eq` recognizes what is between two runs, when it neither starts nor ends with `p`.
-/

namespace List

variable {α : Type} {p : α → Bool}

def strip (p : α → Bool) (l : List α) : List α := (l.dropWhile p).rdropWhile p

/-- Neither end is in `p`. -/
def BareEnds (p : α → Bool) (l : List α) : Prop :=
  (∀ a, l.head? = some a → p a = false) ∧ ∀ a, l.getLast? = some a → p a = false

theorem BareEnds.nil : BareEnds p ([] : List α) := ⟨fun _ h => (nomatch h), fun _ h => (nomatch h)⟩

theorem rdropWhile_append_of_all {trail : List α} (h : ∀ a ∈ trail, p a) (l : List α) :
    (l ++ trail).rdropWhile p = l.rdropWhile p := by
  rw [rdropWhile, reverse_append, dropWhile_append_of_pos (by simpa using h)]
  rfl

theorem dropWhile_of_head {l : List α} (h : ∀ a, l.head? = some a → p a = false) : l.dropWhile p = l := by
  cases l with
  | nil => rfl
  | cons a l => exact dropWhile_cons_of_neg (by simp [h a rfl])

theorem rdropWhile_of_getLast {l : List α} (h : ∀ a, l.getLast? = some a → p a = false) :
    l.rdropWhile p = l := by
  rw [rdropWhile_eq_self_iff]
  intro hne hp
  rw [h _ (getLast?_eq_some_getLast hne)] at hp
  cases hp

theorem strip_eq {lead core trail : List α} (hlead : ∀ a ∈ lead, p a) (htrail : ∀ a ∈ trail, p a)
    (hcore : BareEnds p core) : strip p (lead ++ core ++ trail) = core := by
  rw [strip, append_assoc, dropWhile_append_of_pos hlead]
  cases core with
  | nil =>
    rw [nil_append, show trail.dropWhile p = [] from dropWhile_eq_nil_iff.mpr htrail]
    rfl
  | cons a core =>
    rw [dropWhile_of_head (l := (a :: core) ++ trail) hcore.1, rdropWhile_append_of_all htrail,
      rdropWhile_of_getLast hcore.2]

theorem strip_spec (p : α → Bool) (l : List α) :
    ∃ lead trail, l = lead ++ strip p l ++ trail ∧ (∀ a ∈ lead, p a) ∧ (∀ a ∈ trail, p a) ∧
      BareEnds p (strip p l) := by
  refine ⟨l.takeWhile p, (l.dropWhile p).rtakeWhile p, ?_, fun a ha => mem_takeWhile_imp ha,
    fun a ha => mem_rtakeWhile_imp ha, ?_, ?_⟩
  · rw [append_assoc, strip, rdropWhile_append_rtakeWhile, takeWhile_append_dropWhile]
  · intro a ha
    have hpre : (l.dropWhile p).rdropWhile p <+: l.dropWhile p := rdropWhile_prefix p _
    obtain ⟨rest, hrest⟩ := hpre
    have hhead : (l.dropWhile p).head? = some a := by
      rw [← hrest, head?_append, show ((l.dropWhile p).rdropWhile p).head? = some a from ha]
      rfl
    have hnot := head?_dropWhile_not p l
    rw [hhead] at hnot
    exact hnot
  · intro a ha
    have hne : (l.dropWhile p).rdropWhile p ≠ [] := by
      intro hnil
      rw [strip, hnil] at ha
      cases ha
    have hlast := rdropWhile_last_not p (l.dropWhile p) hne
    rw [strip, getLast?_eq_some_getLast hne] at ha
    rw [← Option.some.inj ha]
    simpa using hlast

theorem strip_strip (p : α → Bool) (l : List α) : strip p (strip p l) = strip p l := by
  obtain ⟨-, -, -, -, -, hends⟩ := strip_spec p l
  have h := @strip_eq _ p [] (strip p l) [] (fun _ h => (nomatch h)) (fun _ h => (nomatch h)) hends
  rwa [nil_append, append_nil] at h

end List
