import Mathlib.Data.List.Chain
import WingPhp.Lib.Ascii
import WingPhp.Lib.Strip

/-!
# Strings of PHP

The functions of PHP on strings that the scripts under `simples` call.

`explode` cuts a text at every place where the separator stands, from the left.  No piece has a separator
in it (`not_infix_of_mem_explode`), and what was written in pieces is read back when the separator does not
stand anywhere earlier (`explode_append`).
-/

namespace WingPhp.PhpText

open Ascii

/-- A string of PHP. -/
abbrev Text := List UInt8

/-- `explode`; `skip` bytes of a separator are still to be passed over. -/
def explodeFrom (separator : Text) : Nat → Text → List Text
  | _, [] => [[]]
  | skip + 1, _ :: t => explodeFrom separator skip t
  | 0, c :: t =>
    if separator.isPrefixOf (c :: t) then [] :: explodeFrom separator (separator.length - 1) t
    else (explodeFrom separator 0 t).modifyHead (c :: ·)

def explode (separator t : Text) : List Text := explodeFrom separator 0 t

def isBlank (c : UInt8) : Bool := [32, 9, 10, 13, 0, 11].contains c

def trim (t : Text) : Text := t.strip isBlank

/-- A text as a condition. -/
def truthy (t : Text) : Bool := t ≠ [] && t ≠ ascii "0"

/-- `str_replace("\\", "/", t)` -/
def replaceSlash (t : Text) : Text := t.map fun c => if c = 92 then 47 else c

def strtoupper (t : Text) : Text := t.map toupper

def strtolower (t : Text) : Text := t.map tolower

def ucfirst (t : Text) : Text := t.modifyHead toupper

/-! ## `explode` -/

theorem explodeFrom_ne_nil (separator : Text) (skip : Nat) (t : Text) : explodeFrom separator skip t ≠ [] := by
  induction t generalizing skip with
  | nil => cases skip <;> exact List.cons_ne_nil _ _
  | cons c t ih =>
    cases skip with
    | succ skip => exact ih skip
    | zero =>
      rw [explodeFrom]
      split
      · exact List.cons_ne_nil _ _
      · rw [ne_eq, List.modifyHead_eq_nil_iff]
        exact ih 0

theorem getLastD_explode_mem (separator t : Text) : (explode separator t).getLastD [] ∈ explode separator t := by
  have hne : explode separator t ≠ [] := explodeFrom_ne_nil separator 0 t
  rw [List.getLastD_eq_getLast?, List.getLast?_eq_some_getLast hne]
  exact List.getLast_mem hne

section
variable (sep : Text)

theorem explodeFrom_skip (n : Nat) (t : Text) : explodeFrom sep n t = explodeFrom sep 0 (t.drop n) := by
  induction t generalizing n with
  | nil =>
    rw [List.drop_nil]
    cases n <;> rfl
  | cons c t ih =>
    cases n with
    | zero => rfl
    | succ n => exact ih n

theorem explode_nil : explode sep [] = [[]] := rfl

theorem explode_here {c : UInt8} {t : Text} (h : sep <+: c :: t) :
    explode sep (c :: t) = [] :: explode sep (t.drop (sep.length - 1)) := by
  rw [explode, explodeFrom, if_pos (List.isPrefixOf_iff_prefix.mpr h), explodeFrom_skip]
  rfl

theorem explode_on {c : UInt8} {t : Text} (h : ¬ sep <+: c :: t) :
    explode sep (c :: t) = (explode sep t).modifyHead (c :: ·) := by
  rw [explode, explodeFrom, if_neg fun hp => h (List.isPrefixOf_iff_prefix.mp hp)]
  rfl

theorem explode_ne_nil (t : Text) : explode sep t ≠ [] := explodeFrom_ne_nil sep 0 t

theorem explode_eq (t : Text) : explode sep t = (explode sep t).headD [] :: (explode sep t).tail := by
  rw [List.headD_eq_head?_getD, List.head?_eq_some_head (explode_ne_nil sep t)]
  exact (List.cons_head_tail (explode_ne_nil sep t)).symm

/-- The text starts with its first piece. -/
theorem headD_explode_prefix (t : Text) : (explode sep t).headD [] <+: t := by
  induction t with
  | nil => exact List.nil_prefix
  | cons c t ih =>
    by_cases h : sep <+: c :: t
    · rw [explode_here sep h]
      exact List.nil_prefix
    · rw [explode_on sep h, explode_eq sep t]
      exact List.cons_prefix_cons.mpr ⟨rfl, ih⟩

variable {sep}

/-- **No piece has the separator in it.** -/
theorem not_infix_of_mem_explode (hsep : sep ≠ []) {t piece : Text} (h : piece ∈ explode sep t) : ¬ sep <:+: piece := by
  induction hn : t.length using Nat.strong_induction_on generalizing t piece with
  | _ n ih =>
    have hnil : ¬ sep <:+: ([] : Text) := fun hi => hsep (List.infix_nil.mp hi)
    cases t with
    | nil =>
      obtain rfl : piece = [] := by simpa [explode_nil] using h
      exact hnil
    | cons c t =>
      rw [List.length_cons] at hn
      by_cases hp : sep <+: c :: t
      · rw [explode_here sep hp] at h
        rcases List.mem_cons.mp h with rfl | h
        · exact hnil
        · exact ih _ (by rw [List.length_drop]; omega) h rfl
      · rw [explode_on sep hp, explode_eq sep t, List.modifyHead_cons] at h
        rcases List.mem_cons.mp h with rfl | h
        · intro hi
          rcases List.infix_cons_iff.mp hi with hi | hi
          · exact hp (hi.trans (List.cons_prefix_cons.mpr ⟨rfl, headD_explode_prefix sep t⟩))
          · refine ih t.length (by omega) ?_ rfl hi
            rw [explode_eq sep t]
            exact List.mem_cons_self
        · refine ih t.length (by omega) ?_ rfl
          rw [explode_eq sep t]
          exact List.mem_cons_of_mem _ h

/-- **The first piece ends at the first separator.** -/
theorem explode_append (hsep : sep ≠ []) {piece : Text} (t : Text)
    (hfirst : ∀ front back, piece = front ++ back → back ≠ [] → ¬ sep <+: back ++ (sep ++ t)) :
    explode sep (piece ++ (sep ++ t)) = piece :: explode sep t := by
  induction piece with
  | nil =>
    obtain ⟨c, sep', rfl⟩ := List.exists_cons_of_ne_nil hsep
    have hhere : c :: sep' <+: c :: (sep' ++ t) := List.prefix_append _ _
    rw [List.nil_append, List.cons_append, explode_here _ hhere, List.length_cons, Nat.add_sub_cancel,
      List.drop_left]
  | cons c piece ih =>
    have hon : ¬ sep <+: c :: (piece ++ (sep ++ t)) := hfirst [] (c :: piece) rfl (List.cons_ne_nil _ _)
    have hpiece := ih fun front back hback => hfirst (c :: front) back (by rw [hback, List.cons_append])
    rw [List.cons_append, explode_on _ hon, hpiece]
    rfl

theorem explode_of_not_isInfix {t : Text} (h : ¬ sep <:+: t) : explode sep t = [t] := by
  induction t with
  | nil => rfl
  | cons c t ih =>
    rw [explode_on _ fun hp => h hp.isInfix, ih fun hi => h (List.infix_cons_iff.mpr (.inr hi))]
    rfl

/-- A piece without the first character of the separator. -/
theorem explode_append_of_not_mem {c : UInt8} {sep' piece : Text} (h : c ∉ piece) (t : Text) :
    explode (c :: sep') (piece ++ (c :: sep' ++ t)) = piece :: explode (c :: sep') t := by
  refine explode_append (List.cons_ne_nil c sep') t ?_
  rintro front back rfl hback hp
  obtain ⟨d, back', rfl⟩ := List.exists_cons_of_ne_nil hback
  obtain rfl : c = d := (List.cons_prefix_cons.mp hp).1
  exact h (by simp)

theorem explode_of_not_mem {c : UInt8} {sep' t : Text} (h : c ∉ t) : explode (c :: sep') t = [t] :=
  explode_of_not_isInfix fun hi => h (hi.subset List.mem_cons_self)

/-- The pieces stand in the text. -/
theorem infix_of_mem_explode {t piece : Text} (h : piece ∈ explode sep t) : piece <:+: t := by
  induction hn : t.length using Nat.strong_induction_on generalizing t piece with
  | _ n ih =>
    cases t with
    | nil =>
      obtain rfl : piece = [] := by simpa [explode_nil] using h
      exact List.infix_rfl
    | cons c t =>
      rw [List.length_cons] at hn
      by_cases hp : sep <+: c :: t
      · rw [explode_here sep hp] at h
        rcases List.mem_cons.mp h with rfl | h
        · exact List.nil_infix
        · have hdrop := ih _ (by rw [List.length_drop]; omega) h rfl
          exact (hdrop.trans (List.drop_suffix _ t).isInfix).trans (List.suffix_cons c t).isInfix
      · have hhead := headD_explode_prefix sep (c :: t)
        rw [explode_on sep hp, explode_eq sep t, List.modifyHead_cons] at h hhead
        rcases List.mem_cons.mp h with rfl | h
        · exact hhead.isInfix
        · have htail := ih t.length (by omega) (by rw [explode_eq sep t]; exact List.mem_cons_of_mem _ h) rfl
          exact htail.trans (List.suffix_cons c t).isInfix

end

/-- **Its pieces, put together again, are the text.** -/
theorem intercalate_explode {sep : Text} (hsep : sep ≠ []) (t : Text) : sep.intercalate (explode sep t) = t := by
  induction hn : t.length using Nat.strong_induction_on generalizing t with
  | _ n ih =>
    cases t with
    | nil => rfl
    | cons c t =>
      rw [List.length_cons] at hn
      by_cases hp : sep <+: c :: t
      · -- the separator, and what follows it
        obtain ⟨rest, hrest⟩ := hp
        obtain ⟨d, sep', rfl⟩ := List.exists_cons_of_ne_nil hsep
        obtain ⟨rfl, rfl⟩ : d = c ∧ sep' ++ rest = t := List.cons.inj hrest
        have hdrop : (sep' ++ rest).drop ((d :: sep').length - 1) = rest := List.drop_left
        have hback := ih rest.length (by rw [← hn, List.length_append]; omega) rest rfl
        rw [explode_here _ ⟨rest, hrest⟩, hdrop, List.intercalate_cons_of_ne_nil (explode_ne_nil _ _), hback]
        rfl
      · have hback := ih t.length (by omega) t rfl
        rw [explode_on _ hp]
        cases htail : explode sep t with
        | nil => exact absurd htail (explode_ne_nil sep t)
        | cons piece pieces =>
          rw [htail] at hback
          rw [List.modifyHead_cons]
          cases pieces with
          | nil =>
            rw [List.intercalate_singleton] at hback ⊢
            rw [hback]
          | cons piece' pieces =>
            rw [List.intercalate_cons_cons] at hback ⊢
            rw [List.cons_append, List.cons_append, hback]

/-- A separator of one character. -/
theorem explode_eq_splitOn (c : UInt8) (t : Text) : explode [c] t = t.splitOn c := by
  induction t with
  | nil => rfl
  | cons d t ih =>
    rw [List.splitOn, List.splitOnP_cons_eq_if_modifyHead]
    change _ = if (d == c) = true then [] :: t.splitOn c else (t.splitOn c).modifyHead (d :: ·)
    rw [← ih]
    by_cases h : d = c
    · rw [if_pos (beq_iff_eq.mpr h), explode_here [c] (List.cons_prefix_cons.mpr ⟨h.symm, List.nil_prefix⟩)]
      rfl
    · rw [if_neg fun hd => h (beq_iff_eq.mp hd), explode_on [c] fun hp => h (List.cons_prefix_cons.mp hp).1.symm]

/-- **Pieces written with a separator between them are read back.** -/
theorem explode_intercalate {c : UInt8} {ls : List Text} (h : ∀ l ∈ ls, c ∉ l) (hne : ls ≠ []) :
    explode [c] ([c].intercalate ls) = ls := by
  rw [explode_eq_splitOn]
  exact List.splitOn_intercalate c h hne

theorem mem_intercalate {sep : Text} {ls : List Text} {c : UInt8} (h : c ∈ sep.intercalate ls) :
    c ∈ sep ∨ ∃ l ∈ ls, c ∈ l := by
  induction ls with
  | nil => cases h
  | cons a ls ih =>
    cases ls with
    | nil => exact .inr ⟨a, List.mem_cons_self, by simpa [List.intercalate] using h⟩
    | cons b ls =>
      rw [List.intercalate_cons_cons, List.append_assoc, List.mem_append, List.mem_append] at h
      rcases h with h | h | h
      · exact .inr ⟨a, List.mem_cons_self, h⟩
      · exact .inl h
      · rcases ih h with h | ⟨l, hl, hc⟩
        · exact .inl h
        · exact .inr ⟨l, List.mem_cons_of_mem _ hl, hc⟩

/-! ## `trim` -/

/-- Nothing at the ends to be taken off. -/
def Trimmed (t : Text) : Prop := t.BareEnds isBlank

/-- What is blank in front and behind is taken off. -/
theorem trim_append {lead t trail : Text} (ht : Trimmed t) (hlead : ∀ c ∈ lead, isBlank c = true)
    (htrail : ∀ c ∈ trail, isBlank c = true) : trim (lead ++ (t ++ trail)) = t := by
  rw [← List.append_assoc]
  exact List.strip_eq hlead htrail ht

theorem trim_of_trimmed {t : Text} (h : Trimmed t) : trim t = t := by
  have htrim := @trim_append [] t [] h (by simp) (by simp)
  rwa [List.nil_append, List.append_nil] at htrim

theorem trim_blank (t : Text) : trim (32 :: t) = trim t := by
  rw [trim, List.strip, List.dropWhile_cons_of_pos (by decide)]
  rfl

theorem isInfix_trim (t : Text) : trim t <:+: t :=
  (List.rdropWhile_prefix _ _).isInfix.trans (List.dropWhile_suffix _).isInfix

/-! ## Two characters in a row -/

/-- Two characters do not follow each other. -/
theorem not_pair_infix_iff {x y : UInt8} {t : Text} :
    ¬ [x, y] <:+: t ↔ t.IsChain fun a b => ¬ (a = x ∧ b = y) := by
  rw [List.isChain_iff_forall_rel_of_append_cons_cons]
  constructor
  · rintro h a b front back rfl ⟨rfl, rfl⟩
    exact h ⟨front, back, by simp⟩
  · rintro h ⟨front, back, rfl⟩
    exact h (show _ = front ++ x :: y :: back by simp) ⟨rfl, rfl⟩

end WingPhp.PhpText
