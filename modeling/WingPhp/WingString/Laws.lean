import WingPhp.WingString.Readers

/-!
# The laws of the comparisons

The orders convert the receiver to the encoding of what it is compared with, and so does `==` with a
`WingString`; `==` with a literal converts the literal.  `comparisons_lawful_iff` says for which texts
the answers belong together.
-/

namespace WingPhp.Strings

open Memory

/-- What a string is compared with: a literal or a string. -/
inductive Operand where
  | char (str : Ptr UInt8)
  | wchar (str : Ptr UInt8)
  | str (t : WingString)

structure Answers where
  lt : Bool
  le : Bool
  gt : Bool
  ge : Bool
  eq : Bool
  ne : Bool
  deriving DecidableEq, Repr

/-- The six answers, when all comparisons go through. -/
def collect (lt le gt ge eq ne : Except Fault Bool) : Except Fault Answers := do
  let lt ← lt
  let le ← le
  let gt ← gt
  let ge ← ge
  let eq ← eq
  let ne ← ne
  .ok ⟨lt, le, gt, ge, eq, ne⟩

def answers (cp : CodePages) (s : WingString) : Operand → Except Fault Answers
  | .char lit =>
    collect (s.ltChar cp lit) (s.leChar cp lit) (s.gtChar cp lit) (s.geChar cp lit) (s.eqChar cp lit)
      (s.neChar cp lit)
  | .wchar lit =>
    collect (s.ltWchar cp lit) (s.leWchar cp lit) (s.gtWchar cp lit) (s.geWchar cp lit) (s.eqWchar cp lit)
      (s.neWchar cp lit)
  | .str t =>
    collect (s.ltStr cp t) (s.leStr cp t) (s.gtStr cp t) (s.geStr cp t) (s.eqStr cp t) (s.neStr cp t)

namespace Operand

def isLiteral : Operand → Bool
  | .char _ => true
  | .wchar _ => true
  | .str _ => false

/-- A `WingString` built from it. -/
def built : Operand → Except Fault WingString
  | .char lit => WingString.ofChar lit 0
  | .wchar lit => WingString.ofWchar lit 0
  | .str t => .ok t

/-- The text of a literal, or the content of a string. -/
def Denotes : Operand → Content → Prop
  | .char lit, y => ∃ t rest, y = .char t ∧ 0 ∉ t ∧ lit = some (y.bytes ++ rest)
  | .wchar lit, y => ∃ t rest, y = .wchar t ∧ 0 ∉ t ∧ lit = some (y.bytes ++ rest)
  | .str t, y => t.Holds y

end Operand

/-! ## The laws -/

/-- One of `<`, `==` and `>`, and `<=` and `>=` to match. -/
structure Answers.Lawful (r : Answers) : Prop where
  one : (r.lt ∧ !r.eq ∧ !r.gt) ∨ (!r.lt ∧ r.eq ∧ !r.gt) ∨ (!r.lt ∧ !r.eq ∧ r.gt)
  le : r.le = (r.lt || r.eq)
  ge : r.ge = (r.gt || r.eq)

/-- The answers are lawful, they are those on a string built from the operand, and `<` is its `>`. -/
def Lawful (cp : CodePages) (s : WingString) (b : Operand) : Prop :=
  ∃ r t, answers cp s b = .ok r ∧ b.built = .ok t ∧ r.Lawful ∧ answers cp s (.str t) = .ok r ∧
    t.gtStr cp s = .ok r.lt

/-- A text in the OEM page. -/
def CodePages.oem (cp : CodePages) (t : List UInt16) : List UInt8 := (cp.wideToOem t).getD []

/-- A text from the ANSI page. -/
def CodePages.acp (cp : CodePages) (t : List UInt8) : List UInt16 := (cp.acpToWide t).getD []

/-- Texts of two encodings come in the same order in both pages; with a literal, they are equal in both or in
none. -/
def Content.Agree (cp : CodePages) (literal : Bool) : Content → Content → Prop
  | .wchar w, .char c =>
    (cp.oem w < c ↔ w < cp.acp c) ∧ (literal = true → (cp.oem w = c ↔ w = cp.acp c))
  | .char c, .wchar w =>
    (cp.acp c < w ↔ c < cp.oem w) ∧ (literal = true → (cp.acp c = w ↔ c = cp.oem w))
  | _, _ => True

/-! ## The order of texts -/

section TextCmp

variable {α : Type} [LT α] [DecidableLT α]

theorem textCmp_swap [Std.Asymm fun a b : α => a < b] (x y : List α) : textCmp y x = -textCmp x y := by
  induction x generalizing y with
  | nil => cases y <;> rfl
  | cons a x ih =>
    cases y with
    | nil => rfl
    | cons b y =>
      rw [textCmp, textCmp, ih]
      by_cases hab : a < b
      · have hba : ¬ b < a := Std.Asymm.asymm (r := fun a b : α => a < b) a b hab
        simp [hab, hba]
      · by_cases hba : b < a
        · simp [hab, hba]
        · simp [hab, hba]

variable [Std.Trichotomous fun a b : α => a < b]

theorem textCmp_neg_iff (x y : List α) : textCmp x y < 0 ↔ x < y := by
  induction x generalizing y with
  | nil => cases y <;> simp [textCmp]
  | cons a x ih =>
    cases y with
    | nil => simp [textCmp]
    | cons b y =>
      rw [List.cons_lt_cons_iff, textCmp]
      by_cases hab : a < b
      · simp [hab]
      · by_cases hba : b < a
        · have hne : a ≠ b := by
            rintro rfl
            exact hab hba
          simp [hab, hba, hne]
        · obtain rfl := Std.Trichotomous.trichotomous (r := fun a b : α => a < b) a b hab hba
          simp [hab, ih]

variable [Std.Asymm fun a b : α => a < b]

theorem textCmp_pos_iff (x y : List α) : textCmp x y > 0 ↔ y < x := by
  rw [← textCmp_neg_iff, textCmp_swap x y]
  omega

theorem textCmp_eq_zero_iff (x y : List α) : textCmp x y = 0 ↔ x = y := by
  induction x generalizing y with
  | nil => cases y <;> simp [textCmp]
  | cons a x ih =>
    cases y with
    | nil => simp [textCmp]
    | cons b y =>
      rw [List.cons.injEq, textCmp]
      by_cases hab : a < b
      · have hne : a ≠ b := by
          rintro rfl
          exact Std.Asymm.asymm (r := fun a b : α => a < b) a a hab hab
        simp [hab, hne]
      · by_cases hba : b < a
        · have hne : a ≠ b := by
            rintro rfl
            exact hab hba
          simp [hab, hba, hne]
        · obtain rfl := Std.Trichotomous.trichotomous (r := fun a b : α => a < b) a b hab hba
          simp [hab, ih]

end TextCmp

/-! ## What the comparisons answer -/

/-- The comparison of a string with a text or a string: the receiver is converted; no text is the least. -/
def contentCmp (cp : CodePages) : Content → Content → Int
  | .unknown, .unknown => 0
  | .unknown, _ => -1
  | _, .unknown => 1
  | .char x, .char y => textCmp x y
  | .wchar x, .wchar y => textCmp x y
  | .wchar x, .char y => textCmp (cp.oem x) y
  | .char x, .wchar y => textCmp (cp.acp x) y

/-- `==` with a literal, which is converted itself. -/
def literalEq (cp : CodePages) : Content → Content → Bool
  | .wchar x, .char y => decide (x = cp.acp y)
  | .char x, .wchar y => decide (x = cp.oem y)
  | x, y => decide (contentCmp cp x y = 0)

def Answers.of (d : Int) (eq : Bool) : Answers :=
  ⟨decide (d < 0), decide (d ≤ 0), decide (d > 0), decide (d ≥ 0), eq, !eq⟩

theorem collect_ok {lt le gt ge eq ne : Except Fault Bool} {d : Int} {e : Bool} (hlt : lt = .ok (decide (d < 0)))
    (hle : le = .ok (decide (d ≤ 0))) (hgt : gt = .ok (decide (d > 0))) (hge : ge = .ok (decide (d ≥ 0)))
    (heq : eq = .ok e) (hne : ne = .ok (!e)) : collect lt le gt ge eq ne = .ok (.of d e) := by
  rw [hlt, hle, hgt, hge, heq, hne]
  rfl

section
variable {cp : CodePages} {s t : WingString} {x y : Content}

theorem wideToOem_eq (hcp : cp.Total) (t : List UInt16) : cp.wideToOem t = some (cp.oem t) := by
  obtain ⟨u, hu⟩ := hcp.oem t
  rw [CodePages.oem, hu]
  rfl

theorem acpToWide_eq (hcp : cp.Total) (t : List UInt8) : cp.acpToWide t = some (cp.acp t) := by
  obtain ⟨u, hu⟩ := hcp.acp t
  rw [CodePages.acp, hu]
  rfl

theorem strcmp_ok {str1 str2 : Ptr UInt8} {a b : List UInt8} (h1 : loadText str1 = .ok a)
    (h2 : loadText str2 = .ok b) : strcmp str1 str2 = .ok (textCmp a b) := by
  rw [strcmp, h1, ok_bind, h2]
  rfl

theorem wcscmp_ok {str1 str2 : Ptr UInt8} {a b : List UInt16} (h1 : loadWide str1 = .ok a)
    (h2 : loadWide str2 = .ok b) : wcscmp str1 str2 = .ok (textCmp a b) := by
  rw [wcscmp, h1, ok_bind, h2]
  rfl

theorem wcharToChar_block (hcp : cp.Total) {str : Ptr UInt8} {w : List UInt16} (h : loadWide str = .ok w) :
    0 ∉ cp.oem w ∧ wingStrWcharToChar cp str = .ok (some (Content.char (cp.oem w)).bytes) := by
  obtain ⟨units, hunits, -, rfl⟩ := loadText_eq_ok h
  cases str with
  | none => cases hunits
  | some mem =>
    refine ⟨hcp.oem_nulFree _ _ (zero_not_mem_text _) (wideToOem_eq hcp _), ?_⟩
    rw [wingStrWcharToChar, h, ok_bind, wideToOem_eq hcp]
    rfl

theorem charToWchar_block (hcp : cp.Total) {str : Ptr UInt8} {v : List UInt8} (h : loadText str = .ok v) :
    0 ∉ cp.acp v ∧ wingStrCharToWchar cp str = .ok (some (Content.wchar (cp.acp v)).bytes) := by
  obtain ⟨mem, -, -, rfl⟩ := loadText_eq_ok h
  refine ⟨hcp.acp_nulFree _ _ (zero_not_mem_text _) (acpToWide_eq hcp _), ?_⟩
  rw [wingStrCharToWchar, h, ok_bind]
  by_cases hlen : (text mem).length = 0
  · rw [List.eq_nil_of_length_eq_zero hlen, CodePages.acp, hcp.acp_nil]
    rfl
  · rw [if_neg hlen, acpToWide_eq hcp]
    rfl

theorem wcharToChar_load (hcp : cp.Total) {str : Ptr UInt8} {w : List UInt16} (h : loadWide str = .ok w) :
    ∃ p, wingStrWcharToChar cp str = .ok p ∧ loadText p = .ok (cp.oem w) := by
  obtain ⟨hfree, hconv⟩ := wcharToChar_block hcp h
  exact ⟨_, hconv, loadText_terminated hfree []⟩

theorem charToWchar_load (hcp : cp.Total) {str : Ptr UInt8} {v : List UInt8} (h : loadText str = .ok v) :
    ∃ p, wingStrCharToWchar cp str = .ok p ∧ loadWide p = .ok (cp.acp v) := by
  obtain ⟨hfree, hconv⟩ := charToWchar_block hcp h
  refine ⟨_, hconv, ?_⟩
  have hload := loadWide_bytes hfree []
  rwa [List.append_nil] at hload

theorem WingString.Holds.loadText_ok {c : List UInt8} (hs : s.Holds (.char c)) : loadText s.str = .ok c := by
  obtain ⟨rest, hstr⟩ := hs.block (by simp)
  rw [hstr]
  exact loadText_bytes hs.nulFree rest

theorem WingString.Holds.loadWide_ok {w : List UInt16} (hs : s.Holds (.wchar w)) : loadWide s.str = .ok w := by
  obtain ⟨rest, hstr⟩ := hs.block (by simp)
  rw [hstr]
  exact loadWide_bytes hs.nulFree rest

/-- An order on a text of bytes. -/
theorem orderChar_eq (hcp : cp.Total) (hs : s.Holds x) {str : Ptr UInt8} {v : List UInt8}
    (hv : loadText str = .ok v) {unknow : Bool} {test : Int → Bool} (hunknow : unknow = test (-1)) :
    s.orderChar cp str unknow test = .ok (test (contentCmp cp x (.char v))) := by
  rw [WingString.orderChar, hs.type]
  cases x with
  | unknown => exact congrArg Except.ok hunknow
  | char c =>
    show strcmp s.str str >>= _ = _
    rw [strcmp_ok hs.loadText_ok hv]
    rfl
  | wchar w =>
    obtain ⟨p, hp, htext⟩ := wcharToChar_load hcp hs.loadWide_ok
    show wingStrWcharToChar cp s.str >>= _ = _
    rw [hp, ok_bind, strcmp_ok htext hv]
    rfl

theorem orderWchar_eq (hcp : cp.Total) (hs : s.Holds x) {str : Ptr UInt8} {v : List UInt16}
    (hv : loadWide str = .ok v) {unknow : Bool} {test : Int → Bool} (hunknow : unknow = test (-1)) :
    s.orderWchar cp str unknow test = .ok (test (contentCmp cp x (.wchar v))) := by
  rw [WingString.orderWchar, hs.type]
  cases x with
  | unknown => exact congrArg Except.ok hunknow
  | wchar w =>
    show wcscmp s.str str >>= _ = _
    rw [wcscmp_ok hs.loadWide_ok hv]
    rfl
  | char c =>
    obtain ⟨p, hp, htext⟩ := charToWchar_load hcp hs.loadText_ok
    show wingStrCharToWchar cp s.str >>= _ = _
    rw [hp, ok_bind, wcscmp_ok htext hv]
    rfl

/-- An order on a string; `hthis` and `harg` are its answers without a conversion. -/
theorem orderStr_eq (hcp : cp.Total) (hs : s.Holds x) (ht : t.Holds y) {argUnknow thisUnknow : Bool}
    {test : Int → Bool} (hthis : y ≠ .unknown → thisUnknow = test (-1))
    (harg : y = .unknown → argUnknow = test (contentCmp cp x .unknown)) :
    s.orderStr cp t argUnknow thisUnknow test = .ok (test (contentCmp cp x y)) := by
  cases y with
  | unknown =>
    rw [WingString.orderStr, ht.type]
    exact congrArg Except.ok (harg rfl)
  | char c =>
    rw [orderStr_char ht.type]
    exact orderChar_eq hcp hs ht.loadText_ok (hthis (by simp))
  | wchar w =>
    rw [orderStr_wchar ht.type]
    exact orderWchar_eq hcp hs ht.loadWide_ok (hthis (by simp))

theorem decide_textCmp_eq_zero {α : Type} [LT α] [DecidableLT α] [DecidableEq α]
    [Std.Trichotomous fun a b : α => a < b] [Std.Asymm fun a b : α => a < b] (a b : List α) :
    decide (textCmp a b = 0) = decide (a = b) := decide_eq_decide.mpr (textCmp_eq_zero_iff a b)

theorem eqChar_eq (hcp : cp.Total) (hs : s.Holds x) {str : Ptr UInt8} {v : List UInt8}
    (hv : loadText str = .ok v) : s.eqChar cp str = .ok (literalEq cp x (.char v)) := by
  rw [WingString.eqChar, hs.type]
  cases x with
  | unknown =>
    obtain ⟨mem, rfl, -, -⟩ := loadText_eq_ok hv
    rfl
  | char c =>
    show strcmp s.str str >>= _ = _
    rw [strcmp_ok hs.loadText_ok hv]
    rfl
  | wchar w =>
    obtain ⟨p, hp, htext⟩ := charToWchar_load hcp hv
    show wingStrCharToWchar cp str >>= _ = _
    rw [hp, ok_bind, wcscmp_ok hs.loadWide_ok htext, ok_bind, decide_textCmp_eq_zero]
    rfl

theorem eqWchar_eq (hcp : cp.Total) (hs : s.Holds x) {str : Ptr UInt8} {v : List UInt16}
    (hv : loadWide str = .ok v) : s.eqWchar cp str = .ok (literalEq cp x (.wchar v)) := by
  rw [WingString.eqWchar, hs.type]
  cases x with
  | unknown =>
    obtain ⟨units, hunits, -, -⟩ := loadText_eq_ok hv
    obtain ⟨mem, rfl, -⟩ := Option.map_eq_some_iff.mp hunits
    rfl
  | wchar w =>
    show wcscmp s.str str >>= _ = _
    rw [wcscmp_ok hs.loadWide_ok hv]
    rfl
  | char c =>
    obtain ⟨p, hp, htext⟩ := wcharToChar_load hcp hv
    show wingStrWcharToChar cp str >>= _ = _
    rw [hp, ok_bind, strcmp_ok hs.loadText_ok htext, ok_bind, decide_textCmp_eq_zero]
    rfl

/-- The converted receiver comes second here, which is the same. -/
theorem eqStr_eq (hcp : cp.Total) (hs : s.Holds x) (ht : t.Holds y) :
    s.eqStr cp t = .ok (decide (contentCmp cp x y = 0)) := by
  rw [WingString.eqStr, hs.type, ht.type]
  cases y with
  | unknown => cases x <;> rfl
  | char c =>
    cases x with
    | unknown => rfl
    | char c' =>
      show strcmp s.str t.str >>= _ = _
      rw [strcmp_ok hs.loadText_ok ht.loadText_ok]
      rfl
    | wchar w =>
      obtain ⟨p, hp, htext⟩ := wcharToChar_load hcp hs.loadWide_ok
      show wingStrWcharToChar cp s.str >>= _ = _
      rw [hp, ok_bind, strcmp_ok ht.loadText_ok htext, ok_bind, textCmp_swap, contentCmp]
      simp only [Int.neg_eq_zero]
  | wchar w =>
    cases x with
    | unknown => rfl
    | wchar w' =>
      show wcscmp s.str t.str >>= _ = _
      rw [wcscmp_ok hs.loadWide_ok ht.loadWide_ok]
      rfl
    | char c =>
      obtain ⟨p, hp, htext⟩ := charToWchar_load hcp hs.loadText_ok
      show wingStrCharToWchar cp s.str >>= _ = _
      rw [hp, ok_bind, wcscmp_ok ht.loadWide_ok htext, ok_bind, textCmp_swap, contentCmp]
      simp only [Int.neg_eq_zero]

theorem answers_char (hcp : cp.Total) (hs : s.Holds x) {lit : Ptr UInt8} {v : List UInt8}
    (hv : loadText lit = .ok v) :
    answers cp s (.char lit) = .ok (.of (contentCmp cp x (.char v)) (literalEq cp x (.char v))) := by
  have heq := eqChar_eq hcp hs hv
  obtain ⟨mem, rfl, -, -⟩ := loadText_eq_ok hv
  refine collect_ok (orderChar_eq hcp hs hv rfl) (orderChar_eq hcp hs hv rfl) (orderChar_eq hcp hs hv rfl)
    (orderChar_eq hcp hs hv rfl) heq ?_
  rw [WingString.neChar, heq]
  rfl

theorem answers_wchar (hcp : cp.Total) (hs : s.Holds x) {lit : Ptr UInt8} {v : List UInt16}
    (hv : loadWide lit = .ok v) :
    answers cp s (.wchar lit) = .ok (.of (contentCmp cp x (.wchar v)) (literalEq cp x (.wchar v))) := by
  have heq := eqWchar_eq hcp hs hv
  obtain ⟨units, hunits, -, -⟩ := loadText_eq_ok hv
  obtain ⟨mem, rfl, -⟩ := Option.map_eq_some_iff.mp hunits
  refine collect_ok (orderWchar_eq hcp hs hv rfl) (orderWchar_eq hcp hs hv rfl) (orderWchar_eq hcp hs hv rfl)
    (orderWchar_eq hcp hs hv rfl) heq ?_
  rw [WingString.neWchar, heq]
  rfl

theorem gtStr_eq (hcp : cp.Total) (hs : s.Holds x) (ht : t.Holds y) :
    s.gtStr cp t = .ok (decide (contentCmp cp x y > 0)) := by
  refine orderStr_eq hcp hs ht (fun _ => rfl) fun _ => ?_
  rw [hs.type]
  cases x <;> rfl

theorem answers_str (hcp : cp.Total) (hs : s.Holds x) (ht : t.Holds y) :
    answers cp s (.str t) = .ok (.of (contentCmp cp x y) (decide (contentCmp cp x y = 0))) := by
  have heq := eqStr_eq hcp hs ht
  refine collect_ok (orderStr_eq hcp hs ht ?_ fun _ => ?_) (orderStr_eq hcp hs ht (fun _ => rfl) fun _ => ?_)
    (gtStr_eq hcp hs ht) (orderStr_eq hcp hs ht (fun _ => rfl) fun _ => ?_) heq ?_
  · intro hy
    rw [ht.type]
    cases y with
    | unknown => exact absurd rfl hy
    | char c => rfl
    | wchar w => rfl
  · cases x <;> rfl
  · rw [hs.type]
    cases x <;> rfl
  · cases x <;> rfl
  · rw [WingString.neStr, heq]
    rfl

/-- What `==` answers with this operand. -/
def operandEq (cp : CodePages) (b : Operand) (x y : Content) : Bool :=
  if b.isLiteral then literalEq cp x y else decide (contentCmp cp x y = 0)

theorem answers_eq (hcp : cp.Total) (hs : s.Holds x) {b : Operand} (hb : b.Denotes y) :
    answers cp s b = .ok (.of (contentCmp cp x y) (operandEq cp b x y)) := by
  cases b with
  | char lit =>
    obtain ⟨v, rest, rfl, hfree, rfl⟩ := hb
    exact answers_char hcp hs (loadText_bytes hfree rest)
  | wchar lit =>
    obtain ⟨v, rest, rfl, hfree, rfl⟩ := hb
    exact answers_wchar hcp hs (loadWide_bytes hfree rest)
  | str t => exact answers_str hcp hs hb

/-- The string built from a literal holds its text. -/
theorem built_holds {b : Operand} (hb : b.Denotes y) : ∃ t, b.built = .ok t ∧ t.Holds y := by
  cases b with
  | char lit =>
    obtain ⟨v, rest, rfl, hfree, rfl⟩ := hb
    show ∃ t, (sizeOr 0 (wingCharSize _) >>= _) = .ok t ∧ _
    rw [sizeOr, if_pos (Int.le_refl 0), wingCharSize_bytes hfree]
    exact WingString.fill_holds (y := .char v) hfree rest
  | wchar lit =>
    obtain ⟨v, rest, rfl, hfree, rfl⟩ := hb
    show ∃ t, (sizeOr 0 (wingWcharSize _) >>= _) = .ok t ∧ _
    rw [sizeOr, if_pos (Int.le_refl 0), wingWcharSize_bytes hfree]
    exact WingString.fill_holds (y := .wchar v) hfree rest
  | str t => exact ⟨t, rfl, hb⟩

/-! ## When the laws hold -/

/-- The answers from one comparison are lawful. -/
theorem lawful_of (d : Int) : (Answers.of d (decide (d = 0))).Lawful where
  one := by
    simp only [Answers.of, decide_eq_true_eq, Bool.not_eq_true', decide_eq_false_iff_not]
    omega
  le := by
    rw [Bool.eq_iff_iff, Bool.or_eq_true]
    simp only [Answers.of, decide_eq_true_eq]
    omega
  ge := by
    rw [Bool.eq_iff_iff, Bool.or_eq_true]
    simp only [Answers.of, decide_eq_true_eq]
    omega

/-- **The laws, on contents**: `==` is the `==` of strings, and turned around `<` is `>`. -/
theorem lawful_iff (hcp : cp.Total) (hs : s.Holds x) {b : Operand} (hb : b.Denotes y) :
    Lawful cp s b ↔ operandEq cp b x y = decide (contentCmp cp x y = 0) ∧
      (contentCmp cp x y < 0 ↔ contentCmp cp y x > 0) := by
  obtain ⟨t, hbuilt, ht⟩ := built_holds hb
  have hanswers := answers_eq hcp hs hb
  have hstr := answers_str hcp hs ht
  have hgt := gtStr_eq hcp ht hs
  constructor
  · rintro ⟨r, t', hr, ht', -, hsame, hflip⟩
    rw [hanswers] at hr
    cases hr
    rw [hbuilt] at ht'
    cases ht'
    rw [hstr, Except.ok.injEq] at hsame
    rw [hgt, Except.ok.injEq] at hflip
    exact ⟨(congrArg Answers.eq hsame).symm, (decide_eq_decide.mp hflip).symm⟩
  · rintro ⟨heq, hflip⟩
    rw [heq] at hanswers
    refine ⟨_, t, hanswers, hbuilt, lawful_of _, hstr, ?_⟩
    rw [hgt]
    exact congrArg Except.ok (decide_eq_decide.mpr hflip.symm)

/-- Texts of one encoding are compared alike from both sides. -/
theorem contentCmp_swap (h : x.type = y.type ∨ x = .unknown ∨ y = .unknown) :
    contentCmp cp y x = -contentCmp cp x y := by
  cases x with
  | unknown => cases y <;> rfl
  | char c =>
    cases y with
    | unknown => rfl
    | char c' => exact textCmp_swap c c'
    | wchar w => rcases h with h | h | h <;> cases h
  | wchar w =>
    cases y with
    | unknown => rfl
    | char c => rcases h with h | h | h <;> cases h
    | wchar w' => exact textCmp_swap w w'

theorem literalEq_same (h : x.type = y.type ∨ x = .unknown ∨ y = .unknown) :
    literalEq cp x y = decide (contentCmp cp x y = 0) := by
  cases x with
  | unknown => cases y <;> rfl
  | char c =>
    cases y with
    | unknown => rfl
    | char c' => rfl
    | wchar w => rcases h with h | h | h <;> cases h
  | wchar w =>
    cases y with
    | unknown => rfl
    | char c => rcases h with h | h | h <;> cases h
    | wchar w' => rfl

theorem operandEq_iff {b : Operand} :
    operandEq cp b x y = decide (contentCmp cp x y = 0) ↔
      (b.isLiteral = true → literalEq cp x y = decide (contentCmp cp x y = 0)) := by
  unfold operandEq
  cases b.isLiteral <;> simp

/-- **The comparisons keep their laws** exactly if texts of two encodings come in the same order in both code
pages. -/
theorem comparisons_lawful_iff (hcp : cp.Total) (hs : s.Holds x) {b : Operand} (hb : b.Denotes y) :
    Lawful cp s b ↔ Content.Agree cp b.isLiteral x y := by
  rw [lawful_iff hcp hs hb, operandEq_iff]
  have hsame : (x.type = y.type ∨ x = .unknown ∨ y = .unknown) →
      ((b.isLiteral = true → literalEq cp x y = decide (contentCmp cp x y = 0)) ∧
        (contentCmp cp x y < 0 ↔ contentCmp cp y x > 0)) := by
    intro h
    refine ⟨fun _ => literalEq_same h, ?_⟩
    rw [contentCmp_swap h]
    omega
  cases x with
  | unknown => exact iff_of_true (hsame (.inr (.inl rfl))) trivial
  | char c =>
    cases y with
    | unknown => exact iff_of_true (hsame (.inr (.inr rfl))) trivial
    | char c' => exact iff_of_true (hsame (.inl rfl)) trivial
    | wchar w =>
      simp only [contentCmp, literalEq, Content.Agree, textCmp_neg_iff, textCmp_pos_iff, decide_eq_decide,
        textCmp_eq_zero_iff]
      rw [and_comm, iff_comm (a := c = cp.oem w)]
  | wchar w =>
    cases y with
    | unknown => exact iff_of_true (hsame (.inr (.inr rfl))) trivial
    | wchar w' => exact iff_of_true (hsame (.inl rfl)) trivial
    | char c =>
      simp only [contentCmp, literalEq, Content.Agree, textCmp_neg_iff, textCmp_pos_iff, decide_eq_decide,
        textCmp_eq_zero_iff]
      rw [and_comm, iff_comm (a := w = cp.acp c)]

end

/-- `L"ab"` and `"b"`. -/
theorem comparisons_ab_b :
    Lawful asciiPages ⟨some [97, 0, 98, 0, 0, 0], 6, .wchar⟩ (.char (some [98, 0])) :=
  (@comparisons_lawful_iff asciiPages ⟨some [97, 0, 98, 0, 0, 0], 6, .wchar⟩ (.wchar [97, 98]) (.char [98])
    asciiPages_total ⟨rfl, rfl, show 0 ∉ ([97, 98] : List UInt16) by decide, fun _ => ⟨[], rfl⟩⟩
    (.char (some [98, 0])) ⟨[98], [], rfl, by decide, rfl⟩).mpr ⟨by decide, fun _ => by decide⟩

/-- A character that the OEM page does not have, and the literal `"?"`. -/
theorem comparisons_default_char :
    ¬ ∀ (cp : CodePages) (s : WingString) (b : Operand) (x y : Content), cp.Total → s.Holds x → b.Denotes y →
      Lawful cp s b := by
  intro h
  obtain ⟨r, -, hr, -, hlawful, -, -⟩ := h asciiPages ⟨some [0, 172, 0, 0], 4, .wchar⟩ (.char (some [63, 0]))
    (.wchar [44032]) (.char [63]) asciiPages_total
    ⟨rfl, rfl, show 0 ∉ ([44032] : List UInt16) by decide, fun _ => ⟨[], rfl⟩⟩ ⟨[63], [], rfl, by decide, rfl⟩
  have hanswers : answers asciiPages ⟨some [0, 172, 0, 0], 4, .wchar⟩ (.char (some [63, 0])) =
      .ok ⟨false, true, false, true, false, true⟩ := rfl
  rw [hanswers] at hr
  cases hr
  have hone := hlawful.one
  revert hone
  decide

end WingPhp.Strings
