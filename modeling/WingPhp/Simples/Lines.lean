import Mathlib.Data.List.Infix
import WingPhp.Simples.PhpText

/-!
# Texts in lines

A head of a message is lines without a line break, and an empty line ends it: `read_head` and `read_lines`
read both back, whatever follows.
-/

namespace WingPhp.Http

open Ascii PhpText

/-! ## Lines -/

def crlf : Text := [13, 10]

/-- An empty line, with the break before it. -/
def blankLine : Text := [13, 10, 13, 10]

theorem blankLine_eq : blankLine = ascii "\r\n\r\n" := by decide

/-- A line of a head. -/
structure IsLine (l : Text) : Prop where
  ne_nil : l ≠ []
  free : ¬ crlf <:+: l

instance (l : Text) : Decidable (IsLine l) :=
  decidable_of_iff (l ≠ [] ∧ ¬ crlf <:+: l) ⟨fun h => ⟨h.1, h.2⟩, fun h => ⟨h.1, h.2⟩⟩

/-- A line, its break, and what follows. -/
theorem not_crlf_prefix {l : Text} (h : ¬ crlf <:+: l) (t : Text) {front back : Text} (hl : l = front ++ back)
    (hback : back ≠ []) : ¬ crlf <+: back ++ (crlf ++ t) := by
  rintro ⟨rest, hrest⟩
  subst hl
  match back, hback with
  | [c], _ =>
    -- the next character is that of the line break
    simp [crlf] at hrest
  | c :: d :: back, _ =>
    obtain ⟨rfl, rfl, -⟩ : 13 = c ∧ 10 = d ∧ rest = back ++ (crlf ++ t) := by simpa [crlf] using hrest
    exact h ⟨front, back, by simp [crlf]⟩

theorem explode_crlf {l : Text} (h : ¬ crlf <:+: l) (t : Text) :
    explode crlf (l ++ (crlf ++ t)) = l :: explode crlf t :=
  explode_append (List.cons_ne_nil _ _) t fun _ _ hl hback => not_crlf_prefix h t hl hback

/-- Lines with a break between two of them. -/
def joinLines (lines : List Text) : Text := crlf.intercalate lines

theorem joinLines_cons {l : Text} {lines : List Text} (h : lines ≠ []) :
    joinLines (l :: lines) = l ++ (crlf ++ joinLines lines) := by
  rw [joinLines, List.intercalate_cons_of_ne_nil h, List.append_assoc]
  rfl

theorem joinLines_singleton (l : Text) : joinLines [l] = l := by simp [joinLines, List.intercalate]

/-- An empty line between two others. -/
theorem isInfix_blankLine {front back : List Text} (hfront : front ≠ []) (hback : back ≠ []) :
    blankLine <:+: joinLines (front ++ [] :: back) := by
  induction front with
  | nil => exact absurd rfl hfront
  | cons l front ih =>
    rw [List.cons_append, joinLines_cons (by simp)]
    by_cases hnil : front = []
    · subst hnil
      rw [List.nil_append, joinLines_cons hback]
      exact ⟨l, joinLines back, by simp [blankLine, crlf]⟩
    · exact (ih hnil).trans ((List.suffix_append _ _).trans (List.suffix_append _ _)).isInfix

/-- **The lines are read back.** -/
theorem read_lines {lines : List Text} (hne : lines ≠ []) (h : ∀ l ∈ lines, ¬ crlf <:+: l) :
    explode crlf (joinLines lines) = lines := by
  induction lines with
  | nil => exact absurd rfl hne
  | cons l lines ih =>
    cases lines with
    | nil =>
      rw [joinLines_singleton, explode_of_not_isInfix (h l List.mem_cons_self)]
    | cons l' lines =>
      rw [joinLines_cons (List.cons_ne_nil _ _), explode_crlf (h l List.mem_cons_self),
        ih (List.cons_ne_nil _ _) fun m hm => h m (List.mem_cons_of_mem _ hm)]

/-- What follows the head does not start with a break. -/
theorem not_crlf_prefix_joinLines {lines : List Text} (hne : lines ≠ []) (h : ∀ l ∈ lines, IsLine l) (t : Text) :
    ¬ crlf <+: joinLines lines ++ (crlf ++ t) := by
  obtain ⟨l, lines, rfl⟩ := List.exists_cons_of_ne_nil hne
  have hl := h l List.mem_cons_self
  cases lines with
  | nil =>
    rw [joinLines_singleton]
    exact not_crlf_prefix hl.free t (List.nil_append l).symm hl.ne_nil
  | cons l' lines =>
    rw [joinLines_cons (List.cons_ne_nil _ _), List.append_assoc, List.append_assoc]
    exact not_crlf_prefix hl.free _ (List.nil_append l).symm hl.ne_nil

/-- No empty line before the end of the head. -/
theorem not_blankLine_prefix {lines : List Text} (hne : lines ≠ []) (h : ∀ l ∈ lines, IsLine l) (t : Text)
    {front back : Text} (hhead : joinLines lines = front ++ back) (hback : back ≠ []) :
    ¬ blankLine <+: back ++ (blankLine ++ t) := by
  have hcrlf : blankLine ++ t = crlf ++ (crlf ++ t) := rfl
  rw [hcrlf]
  induction lines generalizing front with
  | nil => exact absurd rfl hne
  | cons l lines ih =>
    have hl := h l List.mem_cons_self
    cases lines with
    | nil =>
      rw [joinLines_singleton] at hhead
      intro hp
      exact not_crlf_prefix hl.free _ hhead hback (List.IsPrefix.trans ⟨crlf, rfl⟩ hp)
    | cons l' lines =>
      have hrest : ∀ m ∈ l' :: lines, IsLine m := fun m hm => h m (List.mem_cons_of_mem _ hm)
      rw [joinLines_cons (List.cons_ne_nil _ _)] at hhead
      rcases List.append_eq_append_iff.mp hhead with ⟨mid, hfront, hmid⟩ | ⟨mid, hl', hmid⟩
      · -- behind the first line: in its break, or in the rest
        match mid, hfront, hmid with
        | [], _, hmid =>
          rw [List.nil_append] at hmid
          rw [← hmid, List.append_assoc]
          intro hp
          have hp' : crlf <+: joinLines (l' :: lines) ++ (crlf ++ (crlf ++ t)) := by
            simpa [blankLine, crlf] using hp
          exact not_crlf_prefix_joinLines (List.cons_ne_nil _ _) hrest _ hp'
        | [c], _, hmid =>
          obtain ⟨-, rfl⟩ : 13 = c ∧ 10 :: joinLines (l' :: lines) = back := by simpa [crlf] using hmid
          simp [blankLine]
        | c :: d :: mid, hfront, hmid =>
          obtain ⟨-, -, hmid'⟩ : 13 = c ∧ 10 = d ∧ joinLines (l' :: lines) = mid ++ back := by
            simpa [crlf] using hmid
          exact ih (List.cons_ne_nil _ _) hrest hmid'
      · -- in the first line
        cases mid with
        | nil =>
          rw [List.nil_append] at hmid
          rw [hmid, List.append_assoc]
          intro hp
          have hp' : crlf <+: joinLines (l' :: lines) ++ (crlf ++ (crlf ++ t)) := by
            simpa [blankLine, crlf] using hp
          exact not_crlf_prefix_joinLines (List.cons_ne_nil _ _) hrest _ hp'
        | cons c mid =>
          rw [hmid, List.append_assoc, List.append_assoc]
          intro hp
          exact not_crlf_prefix hl.free _ hl' (List.cons_ne_nil _ _) (List.IsPrefix.trans ⟨crlf, rfl⟩ hp)

/-- **The head ends at the first empty line.** -/
theorem read_head {lines : List Text} (hne : lines ≠ []) (h : ∀ l ∈ lines, IsLine l) (t : Text) :
    explode blankLine (joinLines lines ++ (blankLine ++ t)) = joinLines lines :: explode blankLine t :=
  explode_append (List.cons_ne_nil _ _) t fun _ _ hhead hback => not_blankLine_prefix hne h t hhead hback

end WingPhp.Http
