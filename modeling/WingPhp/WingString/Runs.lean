import WingPhp.Lib.Machine
import WingPhp.WingString.Readers

/-!
# All strings of a program

The machine `wingStrings` has every `WingString` of a program, and its steps are the constructors
and the calls that change an object, with any other object as the argument (also the object
itself).  A call that faults has no step.  The notes say which objects `toUTF8` or `trim` has
edited since they got their block; on the others `str_size` is the size of the block.
-/

namespace WingPhp.Strings

open Memory Transition

abbrev Objects := Nat → Option WingString

inductive Constructor where
  | char (str : Ptr UInt8) (size : Int)
  | wchar (str : Ptr UInt8) (size : Int)
  | empty

/-- The calls that change their object; an argument is named by its place. -/
inductive Call where
  | appendChar (str : Ptr UInt8) (size : Int)
  | appendWchar (str : Ptr UInt8) (size : Int)
  | appendStr (j : Nat)
  | assignChar (str : Ptr UInt8)
  | assignWchar (str : Ptr UInt8)
  | assignStr (j : Nat)
  | addChar (str : Ptr UInt8)
  | addWchar (str : Ptr UInt8)
  | addStr (j : Nat)
  | addAssignChar (str : Ptr UInt8)
  | addAssignWchar (str : Ptr UInt8)
  | addAssignStr (j : Nat)
  | toUTF8
  | trim (before : Option UInt8)

inductive Action where
  | make (k : Nat) (c : Constructor)
  | call (k : Nat) (c : Call)

def Constructor.run : Constructor → Except Fault WingString
  | char str size => WingString.ofChar str size
  | wchar str size => WingString.ofWchar str size
  | empty => .ok WingString.new

section

variable (cp : CodePages) (isspace : Int → Bool)

/-- A call on `s`; `none` when there is no such argument. -/
def Call.run (objs : Objects) (s : WingString) : Call → Option (Except Fault WingString)
  | appendChar str size => some (s.appendChar cp str size)
  | appendWchar str size => some (s.appendWchar cp str size)
  | appendStr j => (objs j).map fun t => s.appendStr cp t
  | assignChar str => some (s.assignChar cp str)
  | assignWchar str => some (s.assignWchar cp str)
  | assignStr j => (objs j).map fun t => s.assignStr t
  | addChar str => some (s.addChar cp str)
  | addWchar str => some (s.addWchar cp str)
  | addStr j => (objs j).map fun t => s.addStr cp t
  | addAssignChar str => some (s.addAssignChar cp str)
  | addAssignWchar str => some (s.addAssignWchar cp str)
  | addAssignStr j => (objs j).map fun t => s.addAssignStr cp t
  | toUTF8 => some ((s.toUTF8 cp).map Prod.fst)
  | trim before => some (s.trim isspace before)

/-- An action that does not fault. -/
def stringStep (objs : Objects) : Action → Option Objects
  | .make k c =>
    match c.run with
    | .ok s => some (Function.update objs k (some s))
    | .error _ => none
  | .call k c =>
    match (objs k).bind fun s => c.run cp isspace objs s with
    | some (.ok s) => some (Function.update objs k (some s))
    | some (.error _) | none => none

def wingStrings : Machine Objects Action := ⟨fun _ => none, stringStep cp isspace⟩

/-- The calls that edit the text where it is, or leave a byte over behind it. -/
def Call.edits : Call → Bool
  | toUTF8 | trim _ => true
  | _ => false

/-- Which objects have been edited since they got their block. -/
def noteEdited (objs : Objects) (a : Action) (edited : Nat → Bool) (k : Nat) : Bool :=
  match a with
  | .make j _ => if k = j then false else edited k
  | .call j c =>
    if k = j then
      c.edits ||
        decide ((stringStep cp isspace objs a).bind (fun objs' => objs' k) = objs k) && edited k
    else edited k

def wingStringsWatched : Machine (Watched Objects (Nat → Bool)) Action :=
  (wingStrings cp isspace).watch (fun _ => false) (noteEdited cp isspace)

end

/-- The sizes count the terminator. -/
def CountsTerminator : Action → Prop
  | .make _ (.char str size) => CountsNul str size
  | .make _ (.wchar str size) => CountsWideNul str size
  | .call _ (.appendChar str size) => str = none ∨ CountsNul str size
  | .call _ (.appendWchar str size) => str = none ∨ CountsWideNul str size
  | _ => True

instance (a : Action) : Decidable (CountsTerminator a) :=
  match a with
  | .make _ (.char _ _) => inferInstanceAs (Decidable (CountsNul _ _))
  | .make _ (.wchar _ _) => inferInstanceAs (Decidable (CountsWideNul _ _))
  | .make _ .empty => .isTrue trivial
  | .call _ c =>
    match c with
    | .appendChar _ _ => inferInstanceAs (Decidable (_ = none ∨ CountsNul _ _))
    | .appendWchar _ _ => inferInstanceAs (Decidable (_ = none ∨ CountsWideNul _ _))
    | .appendStr _ | .assignChar _ | .assignWchar _ | .assignStr _ | .addChar _ | .addWchar _
    | .addStr _ | .addAssignChar _ | .addAssignWchar _ | .addAssignStr _ | .toUTF8 | .trim _ =>
      .isTrue trivial

/-! ## One step -/

variable {cp : CodePages} {isspace : Int → Bool} {objs : Objects}

theorem make_fresh {k : Nat} {c : Constructor} {s : WingString} (hc : CountsTerminator (.make k c))
    (h : c.run = .ok s) : s.Fresh := by
  cases c with
  | char str size => exact WingString.ofChar_fresh hc h
  | wchar str size => exact WingString.ofWchar_fresh hc h
  | empty =>
    cases h
    refine ⟨rfl, ?_⟩
    rintro _ ⟨⟩

/-- **Step lemma.**  A call keeps the invariant; unless it edits, it leaves its object alone or
gives it a new block. -/
theorem call_spec {k : Nat} {c : Call} {s s' : WingString} (hobjs : ∀ j t, objs j = some t → t.Inv)
    (hs : s.Inv) (hc : CountsTerminator (.call k c))
    (h : c.run cp isspace objs s = some (.ok s')) :
    s'.Inv ∧ (c.edits = false → s' = s ∨ s'.Fresh) := by
  have hnew : s' = s ∨ s'.Fresh → s'.Inv ∧ (c.edits = false → s' = s ∨ s'.Fresh) := by
    intro hor
    refine ⟨?_, fun _ => hor⟩
    rcases hor with rfl | hfresh
    · exact hs
    · exact hfresh.1
  have harg : ∀ {j : Nat} {f : WingString → Except Fault WingString},
      (objs j).map f = some (.ok s') → ∃ t, t.Inv ∧ f t = .ok s' := by
    intro j f hf
    obtain ⟨t, ht, hrun⟩ := Option.map_eq_some_iff.mp hf
    exact ⟨t, hobjs j t ht, hrun⟩
  cases c with
  | appendChar str size => exact hnew (WingString.appendChar_fresh hs hc (Option.some.inj h))
  | appendWchar str size => exact hnew (WingString.appendWchar_fresh hs hc (Option.some.inj h))
  | appendStr j =>
    obtain ⟨t, ht, hrun⟩ := harg h
    exact hnew (WingString.appendStr_fresh hs ht hrun)
  | assignChar str | addChar str | addAssignChar str =>
    exact hnew (WingString.assignChar_fresh hs (Option.some.inj h))
  | assignWchar str | addWchar str | addAssignWchar str =>
    exact hnew (WingString.assignWchar_fresh hs (Option.some.inj h))
  | assignStr j =>
    obtain ⟨t, ht, hrun⟩ := harg h
    exact hnew (.inr (WingString.assignStr_fresh ht hrun))
  | addStr j | addAssignStr j =>
    obtain ⟨t, ht, hrun⟩ := harg h
    exact hnew (WingString.addStr_fresh hs ht hrun)
  | toUTF8 =>
    have hutf8 := Option.some.inj h
    cases hrun : s.toUTF8 cp with
    | error e =>
      rw [hrun] at hutf8
      cases hutf8
    | ok r =>
      rw [hrun] at hutf8
      cases hutf8
      exact ⟨WingString.toUTF8_inv hs hrun, nofun⟩
  | trim before => exact ⟨WingString.trim_inv hs (Option.some.inj h), nofun⟩

theorem stringStep_make {objs' : Objects} {k : Nat} {c : Constructor}
    (h : stringStep cp isspace objs (.make k c) = some objs') :
    ∃ s, c.run = .ok s ∧ objs' = Function.update objs k (some s) := by
  unfold stringStep at h
  cases hrun : c.run with
  | error e =>
    simp only [hrun] at h
    cases h
  | ok s =>
    simp only [hrun] at h
    exact ⟨s, rfl, (Option.some.inj h).symm⟩

theorem stringStep_call {objs' : Objects} {k : Nat} {c : Call}
    (h : stringStep cp isspace objs (.call k c) = some objs') :
    ∃ s s', objs k = some s ∧ c.run cp isspace objs s = some (.ok s') ∧
      objs' = Function.update objs k (some s') := by
  simp only [stringStep] at h
  split at h
  · next s' hrun =>
    obtain ⟨s, hs, hcall⟩ := Option.bind_eq_some_iff.mp hrun
    exact ⟨s, s', hs, hcall, (Option.some.inj h).symm⟩
  · cases h
  · cases h

/-! ## Every run -/

/-- The invariant of every object, and the exact size of those not edited. -/
def ObjectsInv (objs : Objects) (edited : Nat → Bool) : Prop :=
  ∀ k s, objs k = some s → s.Inv ∧ (edited k = false → s.Exact)

theorem objectsInv_step {objs' : Objects} {a : Action} {edited : Nat → Bool}
    (hi : ObjectsInv objs edited) (ha : CountsTerminator a)
    (h : stringStep cp isspace objs a = some objs') :
    ObjectsInv objs' (noteEdited cp isspace objs a edited) := by
  intro k s hk
  cases a with
  | make j c =>
    obtain ⟨new, hnew, rfl⟩ := stringStep_make h
    by_cases hkj : k = j
    · subst hkj
      rw [Function.update_self] at hk
      cases hk
      have hfresh := make_fresh ha hnew
      exact ⟨hfresh.1, fun _ => hfresh.2⟩
    · rw [Function.update_of_ne hkj] at hk
      simp only [noteEdited, if_neg hkj]
      exact hi k s hk
  | call j c =>
    obtain ⟨old, new, hold, hnew, rfl⟩ := stringStep_call h
    by_cases hkj : k = j
    · subst hkj
      rw [Function.update_self] at hk
      cases hk
      obtain ⟨hinv, hkind⟩ := call_spec (fun j t ht => (hi j t ht).1) (hi k old hold).1 ha hnew
      refine ⟨hinv, fun hnote => ?_⟩
      simp only [noteEdited, if_true, Bool.or_eq_false_iff] at hnote
      rcases hkind hnote.1 with rfl | hfresh
      · -- left alone: it is as exact as it was
        rw [h] at hnote
        have hedited : edited k = false := by simpa [hold] using hnote.2
        exact (hi k s hold).2 hedited
      · exact hfresh.2
    · rw [Function.update_of_ne hkj] at hk
      simp only [noteEdited, if_neg hkj]
      exact hi k s hk

/-- **Run lemma.** -/
theorem objectsInv_of_reach {w : Watched Objects (Nat → Bool)}
    (h : (wingStringsWatched cp isspace).Reach (fun _ a => CountsTerminator a) w) :
    ObjectsInv w.state w.notes := by
  refine @Machine.Reach.watch_invariant _ _ _ (wingStrings cp isspace) _ _
    (fun _ a => CountsTerminator a) _ ?_ ?_ _ h
  · intro k s hk
    cases hk
  · intro objs a objs' edited _ hi ha hstep
    exact objectsInv_step hi ha hstep

/-- **The representation invariant.**  In every run every string keeps it; its block is of
`str_size` bytes unless `toUTF8` or `trim` has edited it there; and no reader of it, and no
comparison of it with another string of the program, leaves a block. -/
theorem inv_of_reach {w : Watched Objects (Nat → Bool)}
    (h : (wingStringsWatched cp isspace).Reach (fun _ a => CountsTerminator a) w) {k : Nat}
    {s : WingString} (hk : w.state k = some s) :
    s.Inv ∧ (w.notes k = false → s.Exact) ∧ s.Reads cp ∧
      ∀ j t, w.state j = some t → ∀ f ∈ strComparisons, Inside (f cp s t) := by
  have hi := objectsInv_of_reach h
  obtain ⟨hinv, hexact⟩ := hi k s hk
  have hreads : s.Reads cp := hinv.reads
  exact ⟨hinv, hexact, hreads, fun j t ht f hf => hreads.str f hf t (hi j t ht).1⟩

/-- The blanks of the C locale. -/
def cIsspace (c : Int) : Bool := decide (c = 32 ∨ 9 ≤ c ∧ c ≤ 13)

/-- `WingString s( " a" ); s.append( L"b" ); s.trim();` -/
theorem inv_of_append_trim :
    ∃ w, (wingStringsWatched asciiPages cIsspace).Reach (fun _ a => CountsTerminator a) w ∧
      ∃ s, w.state 0 = some s ∧ s.strSize = 3 ∧ s.Inv ∧ s.Reads asciiPages := by
  obtain ⟨w, hr, hstate⟩ := Machine.exists_reach (M := wingStringsWatched asciiPages cIsspace)
    (fun _ a => CountsTerminator a)
    (p := fun w => w.state 0 = some ⟨some [97, 98, 0, 0], 3, .char⟩)
    [.make 0 (.char (some [32, 97, 0]) 0), .call 0 (.appendWchar (some [98, 0, 0, 0]) 4),
      .call 0 (.trim (some 0))] (by decide)
  obtain ⟨hinv, -, hreads, -⟩ := inv_of_reach hr hstate
  exact ⟨w, hr, _, hstate, rfl, hinv, hreads⟩

/-- `WingString s( "a" ); s.toUTF8();` leaves a block of three bytes and a `str_size` of two. -/
theorem utf8_not_exact :
    ∃ w, (wingStringsWatched asciiPages cIsspace).Reach (fun _ a => CountsTerminator a) w ∧
      ∃ s, w.state 0 = some s ∧ s.str = some [97, 0, 0] ∧ s.strSize = 2 ∧ ¬ s.Exact := by
  obtain ⟨w, hr, hstate⟩ := Machine.exists_reach (M := wingStringsWatched asciiPages cIsspace)
    (fun _ a => CountsTerminator a)
    (p := fun w => w.state 0 = some ⟨some [97, 0, 0], 2, .char⟩)
    [.make 0 (.char (some [97, 0]) 0), .call 0 .toUTF8] (by decide)
  refine ⟨w, hr, _, hstate, rfl, rfl, fun hexact => ?_⟩
  exact absurd (hexact [97, 0, 0] rfl) (by decide)

end WingPhp.Strings
