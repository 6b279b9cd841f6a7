import WingPhp.WingString.Trim
import WingPhp.Lib.Strip

/-!
# What `wing_str_trim` makes of a text

For a NUL-terminated text, a size of 0, `strlen` or `strlen + 1`, and nothing readable in front of the
buffer.  `isspace` may be asked about 0 to 255; the loops ask it about a `char`, which is signed, so a
byte from 128 on that comes up at one of the ends is a question outside (`askedByTrim`).

`wingStrTrim_right_iff` says which texts are stripped, and for which the second call does the same.
-/

namespace WingPhp.Strings

open Memory List

/-! ## What `isspace` is asked -/

section
variable (isspace : Int → Bool) (before : Option UInt8) (mem : List UInt8)

/-- By the first loop, which goes as in `findStart`. -/
def askedByStart : Nat → Nat → List Int
  | 0, start =>
    match byteAt before mem start with
    | .ok c => [charToInt c]
    | .error _ => []
  | left + 1, start =>
    match byteAt before mem start with
    | .ok c => charToInt c :: if !isspace (charToInt c) then [] else askedByStart left (start + 1)
    | .error _ => []

/-- By the second loop, which goes as in `findEnd`. -/
def askedByEnd : Nat → Int → List Int
  | 0, fin =>
    match byteAt before mem fin with
    | .ok c => [charToInt c]
    | .error _ => []
  | left + 1, fin =>
    match byteAt before mem fin with
    | .ok c => charToInt c :: if !isspace (charToInt c) && c ≠ 0 then [] else askedByEnd left (fin - 1)
    | .error _ => []

/-- By both, with `end` at `fin`. -/
def askedBetween (fin : Int) : List Int :=
  askedByStart isspace before mem fin.toNat 0 ++
    match findStart isspace before mem fin.toNat 0 with
    | .ok (some start) => askedByEnd isspace before mem (fin - start).toNat fin
    | _ => []

/-- By `wing_str_trim`. -/
def askedByTrim (size : Int) : List Int :=
  match sizeOr size (strlen (some mem)) with
  | .ok len => askedBetween isspace before mem ((len : Int) - 1)
  | .error _ => []

end

/-! ## What it is for -/

/-- The sizes that callers give: none, `strlen`, `strlen + 1`. -/
inductive SizeArg where
  | default
  | strlen
  | withNul
  deriving DecidableEq, Repr

def SizeArg.size : SizeArg → Nat → Int
  | default, _ => 0
  | strlen, n => n
  | withNul, n => n + 1

section
variable (isspace : Int → Bool)

/-- A white-space character. -/
def blank (c : UInt8) : Bool := isspace c.toNat

/-- One that is the same as a `char`. -/
def plainBlank (c : UInt8) : Bool := c.toNat < 128 && blank isspace c

/-- A call on a text terminated in its buffer: it stays inside, asks `isspace` only what it may be asked,
and leaves the text stripped. -/
def TrimsOnce (t rest : List UInt8) (k : SizeArg) : Prop :=
  (∃ mem', wingStrTrim isspace none (some (t ++ 0 :: rest)) (k.size t.length) = .ok (some mem') ∧
    mem'.length = t.length + 1 + rest.length ∧ loadText (some mem') = .ok (strip (blank isspace) t)) ∧
  ∀ v ∈ askedByTrim isspace none (t ++ 0 :: rest) (k.size t.length), 0 ≤ v ∧ v ≤ 255

/-- A second call, on what the first one leaves, leaves the same text. -/
def TrimsTwice (t rest : List UInt8) (k : SizeArg) : Prop :=
  ∃ mem' t' mem'', wingStrTrim isspace none (some (t ++ 0 :: rest)) (k.size t.length) = .ok (some mem') ∧
    loadText (some mem') = .ok t' ∧
    wingStrTrim isspace none (some mem') (k.size t'.length) = .ok (some mem'') ∧
    loadText (some mem'') = .ok t'

/-- What comes first and last, behind the ASCII blanks, is ASCII. -/
def PlainEnds (t : List UInt8) : Prop :=
  ∀ c, (strip (plainBlank isspace) t).head? = some c ∨ (strip (plainBlank isspace) t).getLast? = some c →
    c.toNat < 128

end

/-! ## The loops -/

section
variable {isspace : Int → Bool} {before : Option UInt8}

theorem byteAt_append (pre post : List UInt8) (c : UInt8) :
    byteAt before (pre ++ c :: post) (pre.length : Int) = .ok c := by
  have hcell : (pre ++ c :: post)[pre.length]? = some c := by
    rw [List.getElem?_append_right (Nat.le_refl _), Nat.sub_self]
    rfl
  show byteAt before _ (.ofNat pre.length) = .ok c
  simp only [byteAt, hcell]

/-- **The first loop** goes over a run of blanks, and asks about what is behind it. -/
theorem asked_behind_run {run : List UInt8} (hrun : ∀ b ∈ run, isspace (charToInt b)) (c : UInt8)
    (post : List UInt8) (pre : List UInt8) {left : Nat} (hleft : run.length ≤ left) :
    charToInt c ∈ askedByStart isspace before (pre ++ run ++ c :: post) left pre.length := by
  induction run generalizing pre left with
  | nil =>
    rw [List.append_nil]
    cases left <;> simp [askedByStart, byteAt_append]
  | cons b run ih =>
    obtain ⟨hb, hrun'⟩ := List.forall_mem_cons.mp hrun
    cases left with
    | zero => simp at hleft
    | succ left =>
      have hrec := ih hrun' (pre ++ [b]) (by simpa using hleft)
      have hmem : pre ++ [b] ++ run ++ c :: post = pre ++ b :: run ++ c :: post := by simp
      rw [hmem, List.length_append, List.length_singleton] at hrec
      have hbyte : byteAt before (pre ++ b :: run ++ c :: post) (pre.length : Int) = .ok b := by
        rw [List.append_assoc]
        exact byteAt_append pre (run ++ c :: post) b
      rw [askedByStart, hbyte]
      simp only [hb]
      exact List.mem_cons_of_mem _ hrec

/-- It stops there if that is no blank. -/
theorem findStart_stop {run : List UInt8} (hrun : ∀ b ∈ run, isspace (charToInt b)) {c : UInt8}
    (hc : isspace (charToInt c) = false) (post : List UInt8) (pre : List UInt8) {left : Nat}
    (hleft : run.length ≤ left) :
    findStart isspace before (pre ++ run ++ c :: post) left pre.length =
        .ok (some (pre.length + run.length)) ∧
      ∀ v ∈ askedByStart isspace before (pre ++ run ++ c :: post) left pre.length,
        ∃ b ∈ run ++ [c], v = charToInt b := by
  induction run generalizing pre left with
  | nil =>
    rw [List.append_nil]
    cases left <;> simp [findStart, askedByStart, byteAt_append, hc]
  | cons b run ih =>
    obtain ⟨hb, hrun'⟩ := List.forall_mem_cons.mp hrun
    cases left with
    | zero => simp at hleft
    | succ left =>
      obtain ⟨hstop, hasked⟩ := ih hrun' (pre ++ [b]) (by simpa using hleft)
      have hmem : pre ++ [b] ++ run ++ c :: post = pre ++ b :: run ++ c :: post := by simp
      rw [hmem, List.length_append, List.length_singleton] at hstop hasked
      have hbyte : byteAt before (pre ++ b :: run ++ c :: post) (pre.length : Int) = .ok b := by
        rw [List.append_assoc]
        exact byteAt_append pre (run ++ c :: post) b
      constructor
      · rw [findStart, hbyte]
        simp only [ok_bind, hb]
        refine hstop.trans ?_
        rw [List.length_cons]
        congr 2
        omega
      · intro v hv
        rw [askedByStart, hbyte] at hv
        simp only [hb] at hv
        rcases List.mem_cons.mp hv with rfl | hv'
        · exact ⟨b, List.mem_cons_self, rfl⟩
        · obtain ⟨b', hb', rfl⟩ := hasked v hv'
          exact ⟨b', List.mem_cons_of_mem _ hb', rfl⟩

/-- With blanks all the way it runs past `end`. -/
theorem findStart_all {run : List UInt8} (hrun : ∀ b ∈ run, isspace (charToInt b)) (post : List UInt8)
    (pre : List UInt8) {left : Nat} (hleft : run.length = left + 1) :
    findStart isspace before (pre ++ run ++ post) left pre.length = .ok none ∧
      ∀ v ∈ askedByStart isspace before (pre ++ run ++ post) left pre.length,
        ∃ b ∈ run, v = charToInt b := by
  induction run generalizing pre left with
  | nil => simp at hleft
  | cons b run ih =>
    obtain ⟨hb, hrun'⟩ := List.forall_mem_cons.mp hrun
    have hbyte : byteAt before (pre ++ b :: run ++ post) (pre.length : Int) = .ok b := by
      rw [List.append_assoc]
      exact byteAt_append pre (run ++ post) b
    cases left with
    | zero =>
      rw [findStart, askedByStart, hbyte]
      simp [hb]
    | succ left =>
      obtain ⟨hnone, hasked⟩ := ih hrun' (pre ++ [b]) (by simpa using hleft)
      have hmem : pre ++ [b] ++ run ++ post = pre ++ b :: run ++ post := by simp
      rw [hmem, List.length_append, List.length_singleton] at hnone hasked
      constructor
      · rw [findStart, hbyte]
        simp only [ok_bind, hb]
        exact hnone
      · intro v hv
        rw [askedByStart, hbyte] at hv
        simp only [hb] at hv
        rcases List.mem_cons.mp hv with rfl | hv'
        · exact ⟨b, List.mem_cons_self, rfl⟩
        · obtain ⟨b', hb', rfl⟩ := hasked v hv'
          exact ⟨b', List.mem_cons_of_mem _ hb', rfl⟩

/-- What the second loop goes over. -/
def Skipped (isspace : Int → Bool) (b : UInt8) : Prop := isspace (charToInt b) = true ∨ b = 0

theorem skipped_test {b : UInt8} (h : Skipped isspace b) :
    (!isspace (charToInt b) && decide (b ≠ 0)) = false := by
  rcases h with h | h <;> simp [h]

theorem byteAt_last (pre post : List UInt8) (run : List UInt8) (c b : UInt8) :
    byteAt before (pre ++ c :: (run ++ [b] ++ post)) ((pre.length + (run ++ [b]).length : Nat) : Int) = .ok b := by
  have h := @byteAt_append before (pre ++ c :: run) post b
  have hmem : pre ++ c :: run ++ b :: post = pre ++ c :: (run ++ [b] ++ post) := by simp
  have hlen : (pre ++ c :: run).length = pre.length + (run ++ [b]).length := by simp
  rwa [hmem, hlen] at h

/-- **The second loop** goes back over a run, and asks about what is in front of it. -/
theorem asked_before_run {run : List UInt8} (hrun : ∀ b ∈ run, Skipped isspace b) (c : UInt8)
    (pre : List UInt8) (post : List UInt8) {left : Nat} (hleft : run.length ≤ left) :
    charToInt c ∈ askedByEnd isspace before (pre ++ c :: (run ++ post)) left
      ((pre.length + run.length : Nat) : Int) := by
  induction run using List.reverseRecOn generalizing post left with
  | nil =>
    rw [List.nil_append, List.length_nil, Nat.add_zero]
    cases left <;> simp [askedByEnd, byteAt_append]
  | append_singleton run b ih =>
    have hb := skipped_test (hrun b (by simp))
    cases left with
    | zero => simp at hleft
    | succ left =>
      have hrec := ih (fun b' hb' => hrun b' (by simp [hb'])) (b :: post) (by simpa using hleft)
      have hmem : run ++ b :: post = run ++ [b] ++ post := by simp
      have hfin : ((pre.length + (run ++ [b]).length : Nat) : Int) - 1 = ((pre.length + run.length : Nat) : Int) := by
        simp
        omega
      rw [hmem] at hrec
      rw [askedByEnd, byteAt_last, hfin]
      simp only [hb]
      exact List.mem_cons_of_mem _ hrec

theorem findEnd_stop {run : List UInt8} (hrun : ∀ b ∈ run, Skipped isspace b) {c : UInt8}
    (hc : isspace (charToInt c) = false) (hc0 : c ≠ 0) (pre : List UInt8) (post : List UInt8) {left : Nat}
    (hleft : run.length ≤ left) :
    findEnd isspace before (pre ++ c :: (run ++ post)) left ((pre.length + run.length : Nat) : Int) =
        .ok (some pre.length) ∧
      ∀ v ∈ askedByEnd isspace before (pre ++ c :: (run ++ post)) left
        ((pre.length + run.length : Nat) : Int), ∃ b ∈ c :: run, v = charToInt b := by
  induction run using List.reverseRecOn generalizing post left with
  | nil =>
    rw [List.nil_append, List.length_nil, Nat.add_zero]
    cases left <;> simp [findEnd, askedByEnd, byteAt_append, hc, hc0]
  | append_singleton run b ih =>
    have hb := skipped_test (hrun b (by simp))
    cases left with
    | zero => simp at hleft
    | succ left =>
      obtain ⟨hstop, hasked⟩ := ih (fun b' hb' => hrun b' (by simp [hb'])) (b :: post) (by simpa using hleft)
      have hmem : run ++ b :: post = run ++ [b] ++ post := by simp
      have hfin : ((pre.length + (run ++ [b]).length : Nat) : Int) - 1 = ((pre.length + run.length : Nat) : Int) := by
        simp
        omega
      rw [hmem] at hstop hasked
      constructor
      · rw [findEnd, byteAt_last, hfin]
        simp only [ok_bind, hb]
        exact hstop
      · intro v hv
        rw [askedByEnd, byteAt_last, hfin] at hv
        simp only [hb] at hv
        rcases List.mem_cons.mp hv with rfl | hv'
        · exact ⟨b, by simp, rfl⟩
        · obtain ⟨b', hb', rfl⟩ := hasked v hv'
          refine ⟨b', ?_, rfl⟩
          rcases List.mem_cons.mp hb' with rfl | hb''
          · exact List.mem_cons_self
          · simp [hb'']

/-! ## One call -/

theorem sizeOr_strlen {t : List UInt8} (ht : 0 ∉ t) (rest : List UInt8) (k : SizeArg) :
    sizeOr (k.size t.length) (strlen (some (t ++ 0 :: rest))) =
      .ok (if k = .withNul then t.length + 1 else t.length) := by
  have hlen : strlen (some (t ++ 0 :: rest)) = .ok t.length := by
    rw [strlen, loadText_terminated ht]
    rfl
  cases k with
  | default => exact hlen
  | strlen =>
    rw [sizeOr, SizeArg.size]
    split
    · exact hlen
    · rfl
  | withNul =>
    rw [sizeOr, SizeArg.size, if_neg (by omega)]
    rfl

/-- Where `end` is at first. -/
def SizeArg.last (k : SizeArg) (n : Nat) : Int := if k = .withNul then n else (n : Int) - 1

theorem SizeArg.last_eq (k : SizeArg) (n : Nat) :
    ((if k = .withNul then n + 1 else n : Nat) : Int) - 1 = k.last n := by
  unfold SizeArg.last
  split <;> omega

theorem wingStrTrim_eq {t : List UInt8} (ht : 0 ∉ t) (rest : List UInt8) (k : SizeArg) :
    wingStrTrim isspace before (some (t ++ 0 :: rest)) (k.size t.length) =
      (trimBetween isspace before (t ++ 0 :: rest) (k.last t.length)).map some := by
  rw [wingStrTrim, sizeOr_strlen ht, ok_bind, SizeArg.last_eq]
  cases trimBetween isspace before (t ++ 0 :: rest) (k.last t.length) <;> rfl

theorem askedByTrim_eq {t : List UInt8} (ht : 0 ∉ t) (rest : List UInt8) (k : SizeArg) :
    askedByTrim isspace before (t ++ 0 :: rest) (k.size t.length) =
      askedBetween isspace before (t ++ 0 :: rest) (k.last t.length) := by
  rw [askedByTrim, sizeOr_strlen ht]
  exact congrArg (askedBetween isspace before (t ++ 0 :: rest)) (SizeArg.last_eq k t.length)

/-- As a `char`, an ASCII byte is what it is as an `unsigned char`, and no other is one. -/
theorem charToInt_domain {c : UInt8} : (0 ≤ charToInt c ∧ charToInt c ≤ 255) ↔ c.toNat < 128 := by
  have hlt := c.toNat_lt
  unfold charToInt
  split <;> omega

theorem isspace_of_plainBlank {c : UInt8} (h : plainBlank isspace c) : isspace (charToInt c) = true := by
  simp only [plainBlank, Bool.and_eq_true, decide_eq_true_eq] at h
  rw [charToInt, if_pos h.1]
  exact h.2

theorem isspace_of_not_plainBlank {c : UInt8} (hc : c.toNat < 128) (h : plainBlank isspace c = false) :
    isspace (charToInt c) = false := by
  rw [charToInt, if_pos hc]
  simpa [plainBlank, hc, blank] using h

/-- What is left of the buffer when the text is gone. -/
theorem store_nothing (t rest : List UInt8) :
    ∃ mem', store (t ++ 0 :: rest) 0 [0] = .ok mem' ∧ mem'.length = t.length + 1 + rest.length ∧
      loadText (some mem') = .ok [] := by
  have hok := @store_ok _ (t ++ 0 :: rest) [0] 0 (by simp; omega)
  refine ⟨_, hok, ?_, rfl⟩
  rw [length_store hok]
  simp
  omega

/-- All blank: the text is gone. -/
theorem trimsOnce_of_blank (hnul : isspace 0 = false) {t : List UInt8} (ht : 0 ∉ t)
    (hblank : ∀ c ∈ t, plainBlank isspace c) (rest : List UInt8) {k : SizeArg}
    (hk : t ≠ [] ∨ k = .withNul) :
    (∃ mem', wingStrTrim isspace before (some (t ++ 0 :: rest)) (k.size t.length) = .ok (some mem') ∧
      mem'.length = t.length + 1 + rest.length ∧ loadText (some mem') = .ok []) ∧
    ∀ v ∈ askedByTrim isspace before (t ++ 0 :: rest) (k.size t.length), 0 ≤ v ∧ v ≤ 255 := by
  obtain ⟨mem', hstore, hlen, htext⟩ := store_nothing t rest
  have hrun : ∀ c ∈ t, isspace (charToInt c) := fun c hc => isspace_of_plainBlank (hblank c hc)
  have hplain : ∀ c ∈ t, 0 ≤ charToInt c ∧ charToInt c ≤ 255 := by
    intro c hc
    have hb := hblank c hc
    simp only [plainBlank, Bool.and_eq_true, decide_eq_true_eq] at hb
    exact charToInt_domain.mpr hb.1
  rw [wingStrTrim_eq ht, askedByTrim_eq ht]
  suffices h : trimBetween isspace before (t ++ 0 :: rest) (k.last t.length) = store (t ++ 0 :: rest) 0 [0] ∧
      ∀ v ∈ askedBetween isspace before (t ++ 0 :: rest) (k.last t.length), 0 ≤ v ∧ v ≤ 255 by
    exact ⟨⟨mem', by rw [h.1, hstore]; rfl, hlen, htext⟩, h.2⟩
  by_cases hnulled : k = .withNul
  · -- the first loop stops on the NUL, and the second goes back from it
    have hlast : k.last t.length = (t.length : Int) := if_pos hnulled
    obtain ⟨hstop, hasked⟩ := @findStart_stop isspace before t hrun 0 hnul rest [] t.length (Nat.le_refl _)
    rw [List.nil_append, List.length_nil, Nat.zero_add] at hstop
    rw [List.nil_append, List.length_nil] at hasked
    have hbyte : byteAt before (t ++ 0 :: rest) (t.length : Int) = .ok 0 := byteAt_append t rest 0
    rw [hlast, trimBetween, askedBetween, Int.toNat_natCast, hstop]
    constructor
    · simp only [ok_bind, Int.sub_self, Int.toNat_zero, findEnd, hbyte]
      simp
    · intro v hv
      simp only [Int.sub_self, Int.toNat_zero, askedByEnd, hbyte, List.mem_append, List.mem_singleton] at hv
      rcases hv with hv | rfl
      · obtain ⟨b, hb, rfl⟩ := hasked v hv
        rcases List.mem_append.mp hb with hb | hb
        · exact hplain b hb
        · rw [List.mem_singleton.mp hb]
          decide
      · decide
  · have hne := hk.resolve_right hnulled
    have hpos : 0 < t.length := List.length_pos_iff.mpr hne
    have hlast : k.last t.length = ((t.length - 1 : Nat) : Int) := by
      rw [SizeArg.last, if_neg hnulled]
      omega
    obtain ⟨hnone, hasked⟩ := @findStart_all isspace before t hrun (0 :: rest) [] (t.length - 1) (by omega)
    rw [List.nil_append, List.length_nil] at hnone hasked
    rw [hlast, trimBetween, askedBetween, Int.toNat_natCast, hnone]
    refine ⟨rfl, fun v hv => ?_⟩
    rw [List.append_nil] at hv
    obtain ⟨b, hb, rfl⟩ := hasked v hv
    exact hplain b hb

/-- The core of a text moved to the front. -/
theorem move_core (lead core behind : List UInt8) :
    (memcpy (lead ++ core ++ behind) 0 (some ((lead ++ core ++ behind).drop lead.length)) core.length >>=
        fun str => store str core.length [0]) = store (lead ++ core ++ behind) 0 (core ++ [0]) := by
  rw [store_append, Nat.zero_add, List.append_assoc, List.drop_left, memcpy, load_append, ok_bind]

theorem plainBlank_domain {c : UInt8} (h : plainBlank isspace c) : 0 ≤ charToInt c ∧ charToInt c ≤ 255 := by
  simp only [plainBlank, Bool.and_eq_true, decide_eq_true_eq] at h
  exact charToInt_domain.mpr h.1

/-- In front of a core the first loop stops. -/
theorem findStart_core {lead core : List UInt8} {a : UInt8} (hlead : ∀ c ∈ lead, plainBlank isspace c)
    (hfirst : core.head? = some a) (ha : a.toNat < 128) (hab : plainBlank isspace a = false)
    (behind : List UInt8) {left : Nat} (hleft : lead.length ≤ left) :
    findStart isspace before (lead ++ core ++ behind) left 0 = .ok (some lead.length) ∧
      ∀ v ∈ askedByStart isspace before (lead ++ core ++ behind) left 0, 0 ≤ v ∧ v ≤ 255 := by
  obtain ⟨more, rfl⟩ : ∃ more, core = a :: more := List.head?_eq_some_iff.mp hfirst
  obtain ⟨hstop, hasked⟩ := @findStart_stop isspace before lead
    (fun c hc => isspace_of_plainBlank (hlead c hc)) a (isspace_of_not_plainBlank ha hab)
    (more ++ behind) [] left hleft
  have hmem : [] ++ lead ++ a :: (more ++ behind) = lead ++ a :: more ++ behind := by simp
  rw [hmem, List.length_nil] at hstop hasked
  rw [Nat.zero_add] at hstop
  refine ⟨hstop, fun v hv => ?_⟩
  obtain ⟨b, hb, rfl⟩ := hasked v hv
  rcases List.mem_append.mp hb with hb | hb
  · exact plainBlank_domain (hlead b hb)
  · rw [List.mem_singleton.mp hb]
    exact charToInt_domain.mpr ha

/-- The run behind a core, as far as `end` is at first. -/
theorem exists_run {trail : List UInt8} (htrail : ∀ c ∈ trail, plainBlank isspace c) (rest : List UInt8)
    (k : SizeArg) :
    ∃ run post, trail ++ 0 :: rest = run ++ post ∧
      (∀ b ∈ run, Skipped isspace b ∧ 0 ≤ charToInt b ∧ charToInt b ≤ 255) ∧
      ∀ n : Nat, k.last (n + trail.length) = ((n + run.length : Nat) : Int) - 1 := by
  have hblank : ∀ b ∈ trail, Skipped isspace b ∧ 0 ≤ charToInt b ∧ charToInt b ≤ 255 := fun b hb =>
    ⟨.inl (isspace_of_plainBlank (htrail b hb)), plainBlank_domain (htrail b hb)⟩
  by_cases hk : k = .withNul
  · refine ⟨trail ++ [0], rest, by simp, fun b hb => ?_, fun n => ?_⟩
    · rcases List.mem_append.mp hb with hb | hb
      · exact hblank b hb
      · rw [List.mem_singleton.mp hb]
        exact ⟨.inr rfl, by decide⟩
    · rw [SizeArg.last, if_pos hk, List.length_append, List.length_singleton]
      omega
  · refine ⟨trail, 0 :: rest, rfl, hblank, fun n => ?_⟩
    rw [SizeArg.last, if_neg hk]

/-- Behind a core the second loop stops. -/
theorem findEnd_core {lead core run post : List UInt8} {z : UInt8}
    (hrun : ∀ b ∈ run, Skipped isspace b ∧ 0 ≤ charToInt b ∧ charToInt b ≤ 255)
    (hlast : core.getLast? = some z) (hz : z.toNat < 128) (hzb : plainBlank isspace z = false) (hz0 : z ≠ 0)
    {left : Nat} (hleft : run.length ≤ left) :
    findEnd isspace before (lead ++ core ++ (run ++ post)) left
        (((lead.length + core.length + run.length : Nat) : Int) - 1) =
      .ok (some ((lead.length + core.length : Nat) - 1 : Int)) ∧
    ∀ v ∈ askedByEnd isspace before (lead ++ core ++ (run ++ post)) left
      (((lead.length + core.length + run.length : Nat) : Int) - 1), 0 ≤ v ∧ v ≤ 255 := by
  obtain ⟨more, rfl⟩ : ∃ more, core = more ++ [z] := List.getLast?_eq_some_iff.mp hlast
  obtain ⟨hstop, hasked⟩ := @findEnd_stop isspace before run (fun b hb => (hrun b hb).1) z
    (isspace_of_not_plainBlank hz hzb) hz0 (lead ++ more) post left hleft
  have hmem : lead ++ more ++ z :: (run ++ post) = lead ++ (more ++ [z]) ++ (run ++ post) := by simp
  have hfin : (((lead ++ more).length + run.length : Nat) : Int) =
      ((lead.length + (more ++ [z]).length + run.length : Nat) : Int) - 1 := by
    simp only [List.length_append, List.length_singleton]
    omega
  rw [hmem, hfin] at hstop hasked
  refine ⟨hstop.trans ?_, fun v hv => ?_⟩
  · simp only [List.length_append, List.length_singleton]
    congr 2
    omega
  · obtain ⟨b, hb, rfl⟩ := hasked v hv
    rcases List.mem_cons.mp hb with rfl | hb
    · exact charToInt_domain.mpr hz
    · exact (hrun b hb).2

/-- What is between two runs of ASCII blanks is moved to the front, with its NUL. -/
theorem trimsOnce_of_core {lead core trail : List UInt8} {a z : UInt8} (ht : 0 ∉ lead ++ core ++ trail)
    (hlead : ∀ c ∈ lead, plainBlank isspace c) (htrail : ∀ c ∈ trail, plainBlank isspace c)
    (hfirst : core.head? = some a) (hlast : core.getLast? = some z) (ha : a.toNat < 128) (hz : z.toNat < 128)
    (hab : plainBlank isspace a = false) (hzb : plainBlank isspace z = false) (rest : List UInt8)
    (k : SizeArg) :
    (∃ mem', wingStrTrim isspace before (some (lead ++ core ++ trail ++ 0 :: rest))
        (k.size (lead ++ core ++ trail).length) = .ok (some mem') ∧
      mem'.length = (lead ++ core ++ trail).length + 1 + rest.length ∧ loadText (some mem') = .ok core) ∧
    ∀ v ∈ askedByTrim isspace before (lead ++ core ++ trail ++ 0 :: rest)
      (k.size (lead ++ core ++ trail).length), 0 ≤ v ∧ v ≤ 255 := by
  have hcore : 0 < core.length := by
    cases core with
    | nil => cases hfirst
    | cons => simp
  have hcore0 : 0 ∉ core := fun h => ht (List.mem_append_left _ (List.mem_append_right _ h))
  have hz0 : z ≠ 0 := by
    rintro rfl
    exact hcore0 (List.mem_of_getLast? hlast)
  obtain ⟨run, post, hbehind, hskip, hrun⟩ := exists_run htrail rest k
  have hfin : k.last (lead ++ core ++ trail).length =
      ((lead.length + core.length + run.length : Nat) : Int) - 1 := by
    rw [List.length_append, List.length_append]
    exact hrun _
  have hmem : lead ++ core ++ trail ++ 0 :: rest = lead ++ core ++ (run ++ post) := by
    rw [List.append_assoc, hbehind]
  have hsize : (lead ++ core ++ trail).length + 1 + rest.length = (lead ++ core ++ (run ++ post)).length := by
    rw [← hmem]
    simp only [List.length_append, List.length_cons]
    omega
  have hroom : core.length + 1 ≤ (lead ++ core ++ (run ++ post)).length := by
    rw [← hsize, List.length_append, List.length_append]
    omega
  rw [wingStrTrim_eq ht, askedByTrim_eq ht, hmem, hfin, hsize]
  obtain ⟨hstop, hasked⟩ := @findStart_core isspace before _ _ _ hlead hfirst ha hab (run ++ post)
    (((lead.length + core.length + run.length : Nat) : Int) - 1).toNat (by omega)
  obtain ⟨hstop', hasked'⟩ := @findEnd_core isspace before lead _ _ post _ hskip hlast hz hzb hz0
    ((((lead.length + core.length + run.length : Nat) : Int) - 1) - lead.length).toNat (by omega)
  have hcount : ((lead.length + core.length : Nat) - 1 - (lead.length : Int) + 1).toNat = core.length := by omega
  have hstored := @store_ok _ (lead ++ core ++ (run ++ post)) (core ++ [0]) 0
    (by rw [List.length_append, Nat.zero_add]; exact hroom)
  rw [trimBetween, askedBetween, hstop]
  constructor
  · simp only [ok_bind, hstop', hcount, move_core, hstored]
    refine ⟨_, rfl, length_store hstored, ?_⟩
    show loadText (some (core ++ [0] ++ _)) = _
    rw [List.append_assoc]
    exact loadText_terminated hcore0 _
  · intro v hv
    rcases List.mem_append.mp hv with hv | hv
    · exact hasked v hv
    · exact hasked' v hv

/-- On an empty text the second loop starts in front of the buffer. -/
theorem trim_empty (hnul : isspace 0 = false) (rest : List UInt8) {k : SizeArg} (hk : k ≠ .withNul) :
    wingStrTrim isspace none (some (0 :: rest)) (k.size 0) = .error .outside := by
  have hcut := @wingStrTrim_eq isspace none [] (by simp) rest k
  have hlast : k.last 0 = -1 := if_neg hk
  rw [List.nil_append, List.length_nil, hlast] at hcut
  have hbyte : byteAt none (0 :: rest) ((0 : Nat) : Int) = .ok 0 := rfl
  have hzero : isspace (charToInt 0) = false := hnul
  have hstart : findStart isspace none (0 :: rest) 0 0 = .ok (some 0) := by
    rw [findStart, hbyte]
    simp [hzero]
  rw [hcut, trimBetween, show (-1 : Int).toNat = 0 from rfl, hstart]
  rfl

/-! ## Both calls -/

/-- With plain ends, what is stripped is the same. -/
theorem strip_of_plainEnds {t : List UInt8} (h : PlainEnds isspace t) :
    strip (blank isspace) t = strip (plainBlank isspace) t := by
  obtain ⟨lead, trail, hsplit, hlead, htrail, hfirst, hlast⟩ := strip_spec (plainBlank isspace) t
  have hblank : ∀ c, plainBlank isspace c → blank isspace c := by
    intro c hc
    simp only [plainBlank, Bool.and_eq_true] at hc
    exact hc.2
  have hbare : ∀ c, c.toNat < 128 → plainBlank isspace c = false → blank isspace c = false := by
    intro c hc hnot
    simpa [plainBlank, hc] using hnot
  have hcore : BareEnds (blank isspace) (strip (plainBlank isspace) t) :=
    ⟨fun c hc => hbare c (h c (.inl hc)) (hfirst c hc), fun c hc => hbare c (h c (.inr hc)) (hlast c hc)⟩
  have heq := strip_eq (fun c hc => hblank c (hlead c hc)) (fun c hc => hblank c (htrail c hc)) hcore
  rw [← hsplit] at heq
  exact heq

theorem trimsOnce_of_plain (hnul : isspace 0 = false) {t : List UInt8} (ht : 0 ∉ t) (rest : List UInt8)
    {k : SizeArg} (hk : t ≠ [] ∨ k = .withNul) (h : PlainEnds isspace t) : TrimsOnce isspace t rest k := by
  unfold TrimsOnce
  rw [strip_of_plainEnds h]
  obtain ⟨lead, trail, hsplit, hlead, htrail, hfirst, hlast⟩ := strip_spec (plainBlank isspace) t
  by_cases hcore : strip (plainBlank isspace) t = []
  · rw [hcore] at hsplit ⊢
    refine trimsOnce_of_blank hnul ht (fun c hc => ?_) rest hk
    rw [hsplit, List.append_nil] at hc
    rcases List.mem_append.mp hc with hc | hc
    · exact hlead c hc
    · exact htrail c hc
  · have hhead := List.head?_eq_some_head hcore
    have hend := List.getLast?_eq_some_getLast hcore
    have hmain := @trimsOnce_of_core isspace none _ _ _ _ _ (hsplit ▸ ht) hlead htrail hhead hend
      (h _ (.inl hhead)) (h _ (.inr hend)) (hfirst _ hhead) (hlast _ hend) rest k
    rw [← hsplit] at hmain
    exact hmain

/-- A byte that is no ASCII, at one of the ends, is asked about. -/
theorem plainEnds_of_asked {t : List UInt8} (ht : 0 ∉ t) {rest : List UInt8} {k : SizeArg}
    (h : ∀ v ∈ askedByTrim isspace before (t ++ 0 :: rest) (k.size t.length), 0 ≤ v ∧ v ≤ 255) :
    PlainEnds isspace t := by
  rw [askedByTrim_eq ht] at h
  unfold PlainEnds
  obtain ⟨lead, trail, hsplit, hlead, htrail, hfirst, -⟩ := strip_spec (plainBlank isspace) t
  generalize strip (plainBlank isspace) t = core at hsplit hfirst ⊢
  obtain ⟨run, post, hbehind, hskip, hrun⟩ := exists_run htrail rest k
  have hfin : k.last t.length = ((lead.length + core.length + run.length : Nat) : Int) - 1 := by
    rw [hsplit, List.length_append, List.length_append]
    exact hrun _
  have hmem : t ++ 0 :: rest = lead ++ core ++ (run ++ post) := by
    rw [hsplit, List.append_assoc, hbehind]
  rw [hmem, hfin, askedBetween] at h
  have hhead : ∀ c, core.head? = some c → c.toNat < 128 := by
    intro c hc
    obtain ⟨more, rfl⟩ : ∃ more, core = c :: more := List.head?_eq_some_iff.mp hc
    have hasked := @asked_behind_run isspace before lead (fun b hb => isspace_of_plainBlank (hlead b hb)) c
      (more ++ (run ++ post)) [] (((lead.length + (c :: more).length + run.length : Nat) : Int) - 1).toNat
      (by simp; omega)
    have hfront : [] ++ lead ++ c :: (more ++ (run ++ post)) = lead ++ c :: more ++ (run ++ post) := by simp
    rw [hfront] at hasked
    exact charToInt_domain.mp (h _ (List.mem_append_left _ hasked))
  rintro c (hc | hc)
  · exact hhead c hc
  · obtain ⟨more, rfl⟩ : ∃ more, core = more ++ [c] := List.getLast?_eq_some_iff.mp hc
    have hsome := List.head?_eq_some_head (l := more ++ [c]) (by simp)
    obtain ⟨hstop, -⟩ := @findStart_core isspace before _ _ _ hlead hsome (hhead _ hsome) (hfirst _ hsome)
      (run ++ post) (((lead.length + (more ++ [c]).length + run.length : Nat) : Int) - 1).toNat (by simp; omega)
    have hasked := @asked_before_run isspace before run (fun b hb => (hskip b hb).1) c (lead ++ more) post
      ((((lead.length + (more ++ [c]).length + run.length : Nat) : Int) - 1) - lead.length).toNat (by simp; omega)
    have hback : lead ++ more ++ c :: (run ++ post) = lead ++ (more ++ [c]) ++ (run ++ post) := by simp
    have hpos : (((lead ++ more).length + run.length : Nat) : Int) =
        ((lead.length + (more ++ [c]).length + run.length : Nat) : Int) - 1 := by
      simp only [List.length_append, List.length_singleton]
      omega
    rw [hback, hpos] at hasked
    rw [hstop] at h
    exact charToInt_domain.mp (h _ (List.mem_append_right _ hasked))

/-- **One call does it** exactly if the text is not empty, or its NUL is counted, and no byte from 128 on
comes up at its ends. -/
theorem trimsOnce_iff (hnul : isspace 0 = false) {t : List UInt8} (ht : 0 ∉ t) (rest : List UInt8)
    (k : SizeArg) : TrimsOnce isspace t rest k ↔ (t ≠ [] ∨ k = .withNul) ∧ PlainEnds isspace t := by
  constructor
  · rintro ⟨⟨mem', hcall, -⟩, hasked⟩
    refine ⟨?_, plainEnds_of_asked ht hasked⟩
    by_contra hnot
    rw [not_or, not_not] at hnot
    obtain ⟨rfl, hk⟩ := hnot
    rw [List.nil_append, List.length_nil, trim_empty hnul rest hk] at hcall
    cases hcall
  · rintro ⟨hk, hends⟩
    exact trimsOnce_of_plain hnul ht rest hk hends

theorem strip_plainEnds {t : List UInt8} (h : PlainEnds isspace t) :
    PlainEnds isspace (strip (blank isspace) t) := by
  unfold PlainEnds
  rw [strip_of_plainEnds h, strip_strip]
  exact h

/-- **`wing_str_trim` strips a text, and a second call changes nothing**, exactly if something is left of
the text, or its NUL is counted, and no byte from 128 on comes up at its ends.  For the first call alone
it is enough that there is a text. -/
theorem wingStrTrim_right_iff (hnul : isspace 0 = false) {t : List UInt8} (ht : 0 ∉ t) (rest : List UInt8)
    (k : SizeArg) :
    (TrimsOnce isspace t rest k ↔ (t ≠ [] ∨ k = .withNul) ∧ PlainEnds isspace t) ∧
    (TrimsOnce isspace t rest k ∧ TrimsTwice isspace t rest k ↔
      (strip (blank isspace) t ≠ [] ∨ k = .withNul) ∧ PlainEnds isspace t) := by
  refine ⟨trimsOnce_iff hnul ht rest k, ?_⟩
  constructor
  · rintro ⟨honce, mem', t', mem'', hfirst, hload, hsecond, -⟩
    have hends := ((trimsOnce_iff hnul ht rest k).mp honce).2
    refine ⟨?_, hends⟩
    by_contra hnot
    rw [not_or, not_not] at hnot
    obtain ⟨hgone, hk⟩ := hnot
    obtain ⟨⟨mem₁, hcall, -, htext⟩, -⟩ := honce
    rw [hcall] at hfirst
    cases hfirst
    rw [htext, hgone] at hload
    cases hload
    obtain ⟨mem₂, hmem₂, hzero, hnil⟩ := loadText_eq_ok htext
    cases hmem₂
    obtain ⟨rest', hrest'⟩ := text_append_zero hzero
    rw [← hnil, hgone, List.nil_append] at hrest'
    rw [← hrest', List.length_nil] at hsecond
    exact absurd ((trim_empty hnul rest' hk).symm.trans hsecond) (by simp)
  · rintro ⟨hk, hends⟩
    have hk' : t ≠ [] ∨ k = .withNul := by
      rcases hk with hk | hk
      · refine .inl ?_
        rintro rfl
        exact hk rfl
      · exact .inr hk
    have honce := trimsOnce_of_plain hnul ht rest hk' hends
    refine ⟨honce, ?_⟩
    obtain ⟨⟨mem', hcall, -, htext⟩, -⟩ := honce
    obtain ⟨mem₁, hmem₁, hzero, htext'⟩ := loadText_eq_ok htext
    cases hmem₁
    obtain ⟨rest', hrest'⟩ := text_append_zero hzero
    rw [← htext', List.append_assoc] at hrest'
    have hfree : 0 ∉ strip (blank isspace) t := htext' ▸ zero_not_mem_text mem'
    obtain ⟨⟨mem'', hcall', -, htext''⟩, -⟩ := trimsOnce_of_plain hnul hfree rest' hk (strip_plainEnds hends)
    rw [strip_strip] at htext''
    refine ⟨mem', _, mem'', hcall, htext, ?_, htext''⟩
    rw [← hrest']
    exact hcall'

end

/-- `" a "`, with its length. -/
theorem wingStrTrim_blanks :
    TrimsOnce (fun c => c = 32) [32, 97, 32] [] .strlen ∧ TrimsTwice (fun c => c = 32) [32, 97, 32] [] .strlen :=
  (@wingStrTrim_right_iff (fun c => c = 32) (by decide) [32, 97, 32] (by decide) [] .strlen).2.mpr (by
    refine ⟨by decide, fun c hc => ?_⟩
    have hstrip : strip (plainBlank fun c => c = 32) [32, 97, 32] = [97] := by decide
    rw [hstrip] at hc
    rcases hc with hc | hc <;> cases hc <;> decide)

/-- The empty text, with the default size. -/
theorem wingStrTrim_empty :
    ¬ ∀ (isspace : Int → Bool) (t rest : List UInt8) (k : SizeArg), isspace 0 = false → 0 ∉ t →
      TrimsOnce isspace t rest k ∧ TrimsTwice isspace t rest k := by
  intro h
  obtain ⟨⟨⟨mem', hcall, -⟩, -⟩, -⟩ := h (fun c => c = 32) [] [] .default (by decide) (by decide)
  cases hcall

end WingPhp.Strings
