import Mathlib.Data.List.Chain

/-!
# A scan that deletes at its index and then goes on

`for (i = 0; i < count; i++) if (p(a[i])) delete a[i]` over an array that closes the gap
looks at an entry, and when it deletes it goes past the one that took its place.
`dropped` and `kept` are the entries such a scan deletes and leaves.  `scan_exact_iff` says for
which lists it deletes just the entries with a property `w`.
-/

namespace SkipScan

variable {α : Type} (p : α → Bool)

/-- The entries deleted, in order. -/
def dropped : List α → List α
  | [] => []
  | [a] => if p a then [a] else []
  | a :: b :: l => if p a then a :: dropped l else dropped (b :: l)

/-- The entries left, in order. -/
def kept : List α → List α
  | [] => []
  | [a] => if p a then [] else [a]
  | a :: b :: l => if p a then b :: kept l else a :: kept (b :: l)

/-- No entry to go follows another; an entry that tests true without being one to go follows
one; and every entry to go tests true. -/
structure Spaced (w : α → Bool) (l : List α) : Prop where
  first : ∀ a ∈ l.head?, p a = true → w a = true
  next : l.IsChain fun a b => (w a = true → w b = false) ∧ (p b = true → w b = true ∨ w a = true)
  tested : ∀ a ∈ l, w a = true → p a = true

theorem spaced_cons_of_not {w : α → Bool} {a b : α} {l : List α} (hp : p a = false) :
    Spaced p w (a :: b :: l) ↔ w a = false ∧ Spaced p w (b :: l) := by
  constructor
  · intro h
    have hw : w a = false := by
      apply Bool.eq_false_iff.mpr
      intro hw
      rw [h.tested a List.mem_cons_self hw] at hp
      cases hp
    obtain ⟨hab, hl⟩ := List.isChain_cons_cons.mp h.next
    refine ⟨hw, ?_, hl, fun c hc => h.tested c (List.mem_cons_of_mem _ hc)⟩
    intro c hc hpc
    cases hc
    rcases hab.2 hpc with hwb | hwa
    · exact hwb
    · rw [hw] at hwa
      cases hwa
  · rintro ⟨hw, h⟩
    refine ⟨?_, List.isChain_cons_cons.mpr ⟨⟨?_, ?_⟩, h.next⟩, ?_⟩
    · intro c hc hpc
      cases hc
      rw [hp] at hpc
      cases hpc
    · intro hwa
      rw [hw] at hwa
      cases hwa
    · intro hpb
      exact .inl (h.first b rfl hpb)
    · intro c hc hwc
      rcases List.mem_cons.mp hc with rfl | hc
      · rw [hw] at hwc
        cases hwc
      · exact h.tested c hc hwc

theorem spaced_cons_of_pos {w : α → Bool} {a b : α} {l : List α} (hp : p a = true) :
    Spaced p w (a :: b :: l) ↔ w a = true ∧ w b = false ∧ Spaced p w l := by
  constructor
  · intro h
    have hwa := h.first a rfl hp
    obtain ⟨hab, hl⟩ := List.isChain_cons_cons.mp h.next
    have hwb := hab.1 hwa
    refine ⟨hwa, hwb, ?_, (List.isChain_cons.mp hl).2, fun c hc =>
      h.tested c (List.mem_cons_of_mem _ (List.mem_cons_of_mem _ hc))⟩
    intro c hc hpc
    rcases ((List.isChain_cons.mp hl).1 c hc).2 hpc with hwc | hwb'
    · exact hwc
    · rw [hwb] at hwb'
      cases hwb'
  · rintro ⟨hwa, hwb, h⟩
    refine ⟨?_, List.isChain_cons_cons.mpr ⟨⟨fun _ => hwb, fun _ => .inr hwa⟩, ?_⟩, ?_⟩
    · intro c hc _
      cases hc
      exact hwa
    · refine List.isChain_cons.mpr ⟨fun c hc => ⟨fun hb => ?_, fun hpc => .inl (h.first c hc hpc)⟩,
        h.next⟩
      rw [hwb] at hb
      cases hb
    · intro c hc hwc
      rcases List.mem_cons.mp hc with rfl | hc
      · exact hp
      · rcases List.mem_cons.mp hc with rfl | hc
        · rw [hwb] at hwc
          cases hwc
        · exact h.tested c hc hwc

theorem spaced_singleton {w : α → Bool} {a : α} : Spaced p w [a] ↔ w a = p a := by
  constructor
  · intro h
    by_cases hp : p a = true
    · rw [hp]
      exact h.first a rfl hp
    · have hw : ¬ w a = true := fun hw => hp (h.tested a List.mem_cons_self hw)
      rw [Bool.eq_false_iff.mpr hw, Bool.eq_false_iff.mpr hp]
  · intro hwp
    refine ⟨fun c hc hpc => ?_, List.isChain_singleton a, fun c hc hwc => ?_⟩
    · cases hc
      rwa [hwp]
    · rw [List.mem_singleton.mp hc] at hwc ⊢
      rwa [← hwp]

/-- **A scan deletes just the entries with `w`** exactly when they are spaced out. -/
theorem scan_exact_iff (w : α → Bool) (l : List α) :
    (dropped p l = l.filter w ∧ kept p l = l.filter fun a => !w a) ↔ Spaced p w l := by
  fun_induction dropped p l with
  | case1 =>
    refine ⟨fun _ => ⟨fun a ha => ?_, .nil, fun a ha => ?_⟩, fun _ => ⟨rfl, rfl⟩⟩ <;> cases ha
  | case2 a hp =>
    rw [spaced_singleton, hp]
    cases hw : w a <;> simp [kept, hp, hw]
  | case3 a hp =>
    rw [spaced_singleton, Bool.eq_false_iff.mpr hp]
    cases hw : w a <;> simp [kept, hp, hw]
  | case4 a b l hp ih =>
    rw [spaced_cons_of_pos p hp, ← ih]
    cases hwa : w a with
    | false =>
      -- the entry deleted is not one to go
      refine ⟨fun h => ?_, fun h => by cases h.1⟩
      have ha : a ∈ (a :: b :: l).filter w := h.1 ▸ List.mem_cons_self
      rw [List.mem_filter, hwa] at ha
      cases ha.2
    | true =>
      cases hwb : w b with
      | true =>
        -- the entry gone past is one to go
        refine ⟨fun h => ?_, fun h => by cases h.2.1⟩
        have hb : b ∈ (a :: b :: l).filter fun c => !w c := by
          rw [← h.2, kept, if_pos hp]
          exact List.mem_cons_self
        rw [List.mem_filter, hwb] at hb
        cases hb.2
      | false => simp [kept, hp, hwa, hwb]
  | case5 a b l hp ih =>
    have hp' : p a = false := Bool.eq_false_iff.mpr hp
    rw [spaced_cons_of_not p hp', ← ih]
    cases hwa : w a with
    | false => simp [kept, hp', hwa]
    | true =>
      -- the entry left is one to go
      refine ⟨fun h => ?_, fun h => by cases h.1⟩
      have ha : a ∈ (a :: b :: l).filter fun c => !w c := by
        rw [← h.2, kept, if_neg hp]
        exact List.mem_cons_self
      rw [List.mem_filter, hwa] at ha
      cases ha.2

end SkipScan
