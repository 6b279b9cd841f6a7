import WingPhp.Process.Search

/-!
# Which searches return the processes that match

`Matches` is the search a caller asks for with a string keyword.  `search_right_iff` says when
`wing_query_process` returns just those processes and handles their strings
properly.  A numeric keyword that hits an id without a selected field is what goes wrong: the
process is emitted, and the text branch then reads the strings that were released
(`searchOne_clash`).  Short of that one turn emits a process once or not at all
(`searchOne_clean`).
-/

namespace WingPhp.Process

variable (stale : StringField → List UInt8) (isNumericString : List UInt8 → Bool)
  (zendAtoi : List UInt8 → Int32)

/-! ## The search asked for -/

/-- Nothing selected means every field. -/
def Selects (searchBy field : Int) : Prop := searchBy ≤ 0 ∨ searchBy = field

def Contains (keyword : List UInt8) (s : Option (List UInt8)) : Prop :=
  ∃ bytes, s = some bytes ∧ keyword <:+: upToNul bytes

/-- The process matches a string keyword: every process an empty one, by number a numeric one,
by text any other. -/
def Matches (keyword : List UInt8) (searchBy : Int) (p : ProcessInfo) : Prop :=
  keyword = [] ∨
  (isNumericString keyword = true ∧
    (Selects searchBy wingSearchByProcessId ∧ zendAtoi keyword = p.processId ∨
      Selects searchBy wingSearchByParentProcessId ∧ zendAtoi keyword = p.parentProcessId)) ∨
  Selects searchBy wingSearchByProcessName ∧ Contains keyword p.processName ∨
  Selects searchBy wingSearchByCommandLine ∧ Contains keyword p.commandLine ∨
  Selects searchBy wingSearchByProcessFilePath ∧ Contains keyword p.filePath

instance (searchBy field : Int) : Decidable (Selects searchBy field) :=
  inferInstanceAs (Decidable (_ ∨ _))

instance (keyword : List UInt8) (s : Option (List UInt8)) : Decidable (Contains keyword s) :=
  match s with
  | none => .isFalse (by simp [Contains])
  | some bytes => decidable_of_iff (keyword <:+: upToNul bytes) (by simp [Contains])

instance (keyword : List UInt8) (searchBy : Int) (p : ProcessInfo) :
    Decidable (Matches isNumericString zendAtoi keyword searchBy p) :=
  inferInstanceAs (Decidable (_ ∨ _))

/-- A string is released at most once and not read after that. -/
def UsedRight (uses : List StringUse) : Prop :=
  uses.Pairwise fun u v => ∀ f, u = .release f → v ≠ .read f ∧ v ≠ .release f

/-- A process with no NULL string. -/
def ProcessInfo.Whole (p : ProcessInfo) : Prop := ∀ f, (p.string f).isSome = true

/-- The element of the array for a process, its strings up to their NUL. -/
def itemOf (p : ProcessInfo) : Item where
  processName := upToNul (p.processName.getD [])
  commandLine := upToNul (p.commandLine.getD [])
  fileName := upToNul (p.fileName.getD [])
  filePath := upToNul (p.filePath.getD [])
  processId := p.processId
  parentProcessId := p.parentProcessId
  workingSetSize := p.workingSetSize
  basePriority := p.basePriority
  threadCount := p.threadCount
  handleCount := p.handleCount
  cpuTime := p.cpuTime

/-- **A right search**: the matching processes, once each and in the order of the table, and
every string used properly. -/
def SearchRight (keyword : List UInt8) (searchBy : Int) (table : List ProcessInfo) : Prop :=
  ∃ r, searchTable stale isNumericString zendAtoi (.string keyword) searchBy table = some r ∧
    r.items = (table.filter fun p =>
      decide (Matches isNumericString zendAtoi keyword searchBy p)).map itemOf ∧
    ∀ uses ∈ r.uses, UsedRight uses

/-! ## Emitting one process -/

theorem item_whole {p : ProcessInfo} (h : p.Whole) :
    ∃ uses, wingQueryProcessItem stale false p = some (itemOf p, uses) ∧ UsedRight uses ∧
      StringUse.release .processName ∈ uses := by
  obtain ⟨name, hname⟩ := Option.isSome_iff_exists.mp (h .processName)
  obtain ⟨line, hline⟩ := Option.isSome_iff_exists.mp (h .commandLine)
  obtain ⟨file, hfile⟩ := Option.isSome_iff_exists.mp (h .fileName)
  obtain ⟨path, hpath⟩ := Option.isSome_iff_exists.mp (h .filePath)
  simp only [ProcessInfo.string] at hname hline hfile hpath
  refine ⟨[.read .processName, .release .processName, .read .commandLine, .release .commandLine,
    .read .fileName, .release .fileName, .read .filePath, .release .filePath], ?_, ?_, by simp⟩
  · simp [wingQueryProcessItem, readString, ProcessInfo.string, itemOf, hname, hline, hfile, hpath]
  · simp [UsedRight]

theorem item_null {p : ProcessInfo} (h : ¬ p.Whole) : wingQueryProcessItem stale false p = none := by
  obtain ⟨f, hf⟩ := not_forall.mp h
  have hnull : p.string f = none := by simpa using hf
  have hread : readString stale false p f = none := by rw [readString, hnull, Option.map_none]
  unfold wingQueryProcessItem
  split
  · next h₁ h₂ h₃ h₄ => cases f <;> simp_all
  · rfl

/-! ## The two branches -/

theorem numberHit_iff (searchBy : Int) (number : Int32) (p : ProcessInfo) :
    numberHit searchBy number p = true ↔
      Selects searchBy wingSearchByProcessId ∧ number = p.processId ∨
        Selects searchBy wingSearchByParentProcessId ∧ number = p.parentProcessId := by
  unfold numberHit Selects wingSearchByProcessId wingSearchByParentProcessId
  split
  · simp [*]
  · split
    · simp [*]
    · split
      · simp [*]
      · simp [*]

/-- What the text branch tests: the string is not empty and contains the keyword up to its
first NUL. -/
def CutContains (keyword : List UInt8) (s : Option (List UInt8)) : Prop :=
  ∃ bytes, s = some bytes ∧ 0 < (upToNul bytes).length ∧ upToNul keyword <:+: upToNul bytes

def TextFound (keyword : List UInt8) (searchBy : Int) (p : ProcessInfo) : Prop :=
  ∃ f ∈ textFields searchBy, CutContains keyword (p.string f)

instance (keyword : List UInt8) (s : Option (List UInt8)) : Decidable (CutContains keyword s) :=
  match s with
  | none => .isFalse (by simp [CutContains])
  | some bytes =>
    decidable_of_iff (0 < (upToNul bytes).length ∧ upToNul keyword <:+: upToNul bytes)
      (by simp [CutContains])

instance (keyword : List UInt8) (searchBy : Int) (p : ProcessInfo) :
    Decidable (TextFound keyword searchBy p) :=
  inferInstanceAs (Decidable (∃ f ∈ textFields searchBy, CutContains keyword (p.string f)))

theorem contains_cut {keyword : List UInt8} (hne : keyword ≠ []) {s : Option (List UInt8)}
    (h : Contains keyword s) : CutContains keyword s := by
  obtain ⟨bytes, hs, hin⟩ := h
  have hnul : 0 ∉ keyword := fun hk => zero_not_mem_upToNul bytes (hin.subset hk)
  have hcut : upToNul keyword = keyword := by
    have := upToNul_of_not_mem hnul []
    rwa [List.append_nil, show upToNul [] = [] from rfl, List.append_nil] at this
  refine ⟨bytes, hs, ?_, by rwa [hcut]⟩
  have hpos := List.length_pos_of_ne_nil hne
  have := hin.length_le
  omega

/-- Text that matches is found. -/
theorem textFound_of_matches {keyword : List UInt8} (hne : keyword ≠ []) {searchBy : Int}
    {p : ProcessInfo}
    (h : Selects searchBy wingSearchByProcessName ∧ Contains keyword p.processName ∨
      Selects searchBy wingSearchByCommandLine ∧ Contains keyword p.commandLine ∨
      Selects searchBy wingSearchByProcessFilePath ∧ Contains keyword p.filePath) :
    TextFound keyword searchBy p := by
  have hfield : ∀ f field, (field = wingSearchByProcessName ∧ f = StringField.processName ∨
      field = wingSearchByCommandLine ∧ f = .commandLine ∨
      field = wingSearchByProcessFilePath ∧ f = .filePath) → Selects searchBy field →
      f ∈ textFields searchBy := by
    intro f field hf hsel
    by_cases hsb : searchBy ≤ 0
    · rw [textFields, if_pos hsb]
      rcases hf with ⟨-, rfl⟩ | ⟨-, rfl⟩ | ⟨-, rfl⟩ <;> simp
    · have hsb' : searchBy = field := hsel.resolve_left hsb
      rcases hf with ⟨rfl, rfl⟩ | ⟨rfl, rfl⟩ | ⟨rfl, rfl⟩ <;> subst hsb' <;> decide
  rcases h with ⟨hsel, hc⟩ | ⟨hsel, hc⟩ | ⟨hsel, hc⟩
  · exact ⟨.processName, hfield _ _ (.inl ⟨rfl, rfl⟩) hsel, contains_cut hne hc⟩
  · exact ⟨.commandLine, hfield _ _ (.inr (.inl ⟨rfl, rfl⟩)) hsel, contains_cut hne hc⟩
  · exact ⟨.filePath, hfield _ _ (.inr (.inr ⟨rfl, rfl⟩)) hsel, contains_cut hne hc⟩

/-- Looking through strings that are still there finds what is there, and only reads. -/
theorem textHit_spec (keyword : List UInt8) (p : ProcessInfo) (fields : List StringField) :
    ((textHit stale false keyword p fields).1 = true ↔
      ∃ f ∈ fields, CutContains keyword (p.string f)) ∧
    ∀ u ∈ (textHit stale false keyword p fields).2, ∀ f, u ≠ .release f := by
  induction fields with
  | nil => simp [textHit]
  | cons f fields ih =>
    cases hs : p.string f with
    | none =>
      have hread : readString stale false p f = none := by rw [readString, hs, Option.map_none]
      simp only [textHit, hread, List.exists_mem_cons_iff, hs]
      simpa [CutContains] using ih
    | some bytes =>
      have hread : readString stale false p f = some (upToNul bytes) := by
        rw [readString, hs]
        rfl
      have hcut : CutContains keyword (some bytes) ↔
          0 < (upToNul bytes).length ∧ upToNul keyword <:+: upToNul bytes := by
        simp [CutContains]
      simp only [textHit, hread, List.exists_mem_cons_iff, hs, hcut]
      by_cases hhit : 0 < (upToNul bytes).length ∧ upToNul keyword <:+: upToNul bytes
      · rw [if_pos hhit]
        simp [hhit]
      · rw [if_neg hhit]
        refine ⟨by simpa [hhit] using ih.1, ?_⟩
        intro u hu
        rcases List.mem_cons.mp hu with rfl | hu
        · simp
        · exact ih.2 u hu

/-! ## One turn -/

/-- The keyword is a number, no field is selected, and an id of the process is that number. -/
def IdHitUnselected (keyword : List UInt8) (searchBy : Int) (p : ProcessInfo) : Prop :=
  keyword ≠ [] ∧ isNumericString keyword = true ∧ searchBy ≤ 0 ∧
    (zendAtoi keyword = p.processId ∨ zendAtoi keyword = p.parentProcessId)

/-- What makes a turn emit the process. -/
def Emits (keyword : List UInt8) (searchBy : Int) (p : ProcessInfo) : Prop :=
  keyword = [] ∨ (isNumericString keyword = true ∧ numberHit searchBy (zendAtoi keyword) p = true) ∨
    TextFound keyword searchBy p

instance (keyword : List UInt8) (searchBy : Int) (p : ProcessInfo) :
    Decidable (Emits isNumericString zendAtoi keyword searchBy p) :=
  inferInstanceAs (Decidable (_ ∨ _))

theorem matches_emits {keyword : List UInt8} {searchBy : Int} {p : ProcessInfo}
    (h : Matches isNumericString zendAtoi keyword searchBy p) :
    Emits isNumericString zendAtoi keyword searchBy p := by
  by_cases hne : keyword = []
  · exact .inl hne
  · rcases h with h | ⟨hnum, h⟩ | h
    · exact absurd h hne
    · exact .inr (.inl ⟨hnum, (numberHit_iff _ _ _).mpr h⟩)
    · exact .inr (.inr (textFound_of_matches hne h))

theorem numericBranch_hit {keyword : List UInt8} {searchBy : Int} {p : ProcessInfo}
    (hnum : isNumericString keyword = true)
    (hhit : numberHit searchBy (zendAtoi keyword) p = true) :
    numericBranch stale isNumericString zendAtoi (.string keyword) searchBy p =
      (wingQueryProcessItem stale false p).map fun r => ([r.1], r.2) := by
  simp [numericBranch, keywordNumber, hnum, hhit]

theorem numericBranch_miss {keyword : List UInt8} {searchBy : Int} {p : ProcessInfo}
    (h : ¬ (isNumericString keyword = true ∧ numberHit searchBy (zendAtoi keyword) p = true)) :
    numericBranch stale isNumericString zendAtoi (.string keyword) searchBy p = some ([], []) := by
  unfold numericBranch keywordNumber
  by_cases hnum : isNumericString keyword = true
  · have hhit : ¬ numberHit searchBy (zendAtoi keyword) p = true := fun hh => h ⟨hnum, hh⟩
    simp [hnum, hhit]
  · simp [hnum]

theorem textBranch_eq (released : Bool) {keyword : List UInt8} (hne : keyword ≠ [])
    (searchBy : Int) (p : ProcessInfo) :
    textBranch stale released (.string keyword) searchBy p =
      if (textHit stale released keyword p (textFields searchBy)).1 then
        (wingQueryProcessItem stale released p).map fun r =>
          ([r.1], (textHit stale released keyword p (textFields searchBy)).2 ++ r.2)
      else some ([], (textHit stale released keyword p (textFields searchBy)).2) := by
  unfold textBranch
  simp only [if_pos (List.length_pos_of_ne_nil hne)]

theorem searchOne_eq {keyword : List UInt8} (hne : keyword ≠ []) (searchBy : Int)
    (p : ProcessInfo) :
    searchOne stale isNumericString zendAtoi (.string keyword) searchBy p =
      (numericBranch stale isNumericString zendAtoi (.string keyword) searchBy p).bind fun r₁ =>
        (textBranch stale (decide (r₁.1 ≠ [])) (.string keyword) searchBy p).map fun r₂ =>
          (r₁.1 ++ r₂.1, r₁.2 ++ r₂.2) := by
  unfold searchOne
  rw [if_neg (by simpa [Keyword.strlen] using hne)]

/-- **An id hit without a selected field** crashes on a NULL string or reads a string after
releasing it. -/
theorem searchOne_clash {keyword : List UInt8} {searchBy : Int} {p : ProcessInfo}
    (h : IdHitUnselected isNumericString zendAtoi keyword searchBy p) {r : List Item × List StringUse}
    (hr : searchOne stale isNumericString zendAtoi (.string keyword) searchBy p = some r) :
    ¬ UsedRight r.2 := by
  obtain ⟨hne, hnum, hsb, hid⟩ := h
  have hhit : numberHit searchBy (zendAtoi keyword) p = true := by
    rw [numberHit, if_pos hsb]
    simpa using hid
  rw [searchOne_eq _ _ _ hne, numericBranch_hit _ _ _ hnum hhit] at hr
  by_cases hwhole : p.Whole
  · obtain ⟨uses, hitem, -, hrelease⟩ := item_whole stale hwhole
    obtain ⟨name, hname⟩ := Option.isSome_iff_exists.mp (hwhole .processName)
    have hread : StringUse.read .processName ∈
        (textHit stale true keyword p (textFields searchBy)).2 := by
      rw [textFields, if_pos hsb, textHit]
      simp only [readString, hname, Option.map_some, if_true]
      split <;> simp
    have hsplit : ∃ back, r.2 = uses ++ (textHit stale true keyword p (textFields searchBy)).2 ++
        back := by
      rw [hitem] at hr
      simp only [Option.map_some, Option.bind_some, textBranch_eq _ _ hne, ne_eq, List.cons_ne_nil,
        not_false_eq_true, decide_true] at hr
      split at hr
      · cases hitem' : wingQueryProcessItem stale true p with
        | none =>
          rw [hitem'] at hr
          cases hr
        | some again =>
          rw [hitem'] at hr
          cases hr
          exact ⟨again.2, (List.append_assoc _ _ _).symm⟩
      · cases hr
        exact ⟨[], (List.append_nil _).symm⟩
    obtain ⟨back, hback⟩ := hsplit
    intro hright
    rw [hback, UsedRight, List.append_assoc, List.pairwise_append] at hright
    exact (hright.2.2 _ hrelease _ (List.mem_append_left _ hread) _ rfl).1 rfl
  · rw [item_null stale hwhole] at hr
    cases hr

/-- The strings read before a process is emitted do no harm. -/
theorem usedRight_append {reads uses : List StringUse} (hreads : ∀ u ∈ reads, ∀ f, u ≠ .release f)
    (huses : UsedRight uses) : UsedRight (reads ++ uses) := by
  refine List.pairwise_append.mpr ⟨?_, huses, ?_⟩
  · exact List.pairwise_of_forall_mem_list fun u hu v _ f he => absurd he (hreads u hu f)
  · intro u hu v _ f he
    exact absurd he (hreads u hu f)

/-- A process emitted behind the strings read for it. -/
theorem emit_clean {reads : List StringUse} (hreads : ∀ u ∈ reads, ∀ f, u ≠ .release f) (p : ProcessInfo) :
    (¬ p.Whole →
      (wingQueryProcessItem stale false p).map (fun r => ([r.1], reads ++ r.2)) = none) ∧
    (p.Whole → ∃ uses,
      (wingQueryProcessItem stale false p).map (fun r => ([r.1], reads ++ r.2)) =
        some ([itemOf p], uses) ∧ UsedRight uses) := by
  refine ⟨fun hnull => ?_, fun hwhole => ?_⟩
  · rw [item_null stale hnull, Option.map_none]
  · obtain ⟨uses, hitem, huses, -⟩ := item_whole stale hwhole
    exact ⟨_, by rw [hitem, Option.map_some], usedRight_append hreads huses⟩

/-- **Any other turn** emits the process or not, crashes only on a NULL string of a process it
emits, and uses the strings properly. -/
theorem searchOne_clean {keyword : List UInt8} {searchBy : Int} {p : ProcessInfo}
    (h : ¬ IdHitUnselected isNumericString zendAtoi keyword searchBy p) :
    (Emits isNumericString zendAtoi keyword searchBy p → ¬ p.Whole →
      searchOne stale isNumericString zendAtoi (.string keyword) searchBy p = none) ∧
    (Emits isNumericString zendAtoi keyword searchBy p → p.Whole →
      ∃ uses, searchOne stale isNumericString zendAtoi (.string keyword) searchBy p =
        some ([itemOf p], uses) ∧ UsedRight uses) ∧
    (¬ Emits isNumericString zendAtoi keyword searchBy p →
      ∃ uses, searchOne stale isNumericString zendAtoi (.string keyword) searchBy p =
        some ([], uses) ∧ UsedRight uses) := by
  obtain ⟨hnull, hwhole⟩ := emit_clean stale (List.forall_mem_nil _) p
  by_cases hne : keyword = []
  · have hone : searchOne stale isNumericString zendAtoi (.string keyword) searchBy p =
        (wingQueryProcessItem stale false p).map fun r => ([r.1], r.2) := by
      rw [searchOne, if_pos (by simpa [Keyword.strlen] using hne)]
    rw [hone]
    exact ⟨fun _ => hnull, fun _ => hwhole, fun hno => absurd (.inl hne) hno⟩
  · by_cases hhit : isNumericString keyword = true ∧
        numberHit searchBy (zendAtoi keyword) p = true
    · -- a field is selected, and it is an id: no text is looked at
      have hfields : textFields searchBy = [] := by
        have hsb : ¬ searchBy ≤ 0 := by
          intro hsb
          have hid := hhit.2
          rw [numberHit, if_pos hsb] at hid
          exact h ⟨hne, hhit.1, hsb, by simpa using hid⟩
        rcases (numberHit_iff _ _ _).mp hhit.2 with ⟨hsel, -⟩ | ⟨hsel, -⟩ <;>
          rw [hsel.resolve_left hsb] <;> decide
      have hone : searchOne stale isNumericString zendAtoi (.string keyword) searchBy p =
          (wingQueryProcessItem stale false p).map fun r => ([r.1], r.2) := by
        rw [searchOne_eq _ _ _ hne, numericBranch_hit _ _ _ hhit.1 hhit.2]
        cases wingQueryProcessItem stale false p with
        | none => rfl
        | some r => simp [textBranch_eq _ _ hne, hfields, textHit]
      rw [hone]
      exact ⟨fun _ => hnull, fun _ => hwhole, fun hno => absurd (.inr (.inl hhit)) hno⟩
    · have hemits : Emits isNumericString zendAtoi keyword searchBy p ↔
          TextFound keyword searchBy p := by
        simp [Emits, hne, hhit]
      obtain ⟨hfound, hreads⟩ := textHit_spec stale keyword p (textFields searchBy)
      have hone : searchOne stale isNumericString zendAtoi (.string keyword) searchBy p =
          textBranch stale false (.string keyword) searchBy p := by
        rw [searchOne_eq _ _ _ hne, numericBranch_miss _ _ _ hhit]
        simp
      rw [hemits, hone, textBranch_eq _ _ hne, TextFound, ← hfound]
      refine ⟨fun hf => ?_, fun hf => ?_, fun hno => ?_⟩
      · rw [if_pos hf]
        exact (emit_clean stale hreads p).1
      · rw [if_pos hf]
        exact (emit_clean stale hreads p).2
      · refine ⟨_, if_neg hno, ?_⟩
        have := usedRight_append hreads (List.Pairwise.nil (R := fun u v => ∀ f,
          u = StringUse.release f → v ≠ .read f ∧ v ≠ .release f))
        rwa [List.append_nil] at this

/-! ## The whole table -/

section

variable {isNumericString zendAtoi} {keyword : List UInt8} {searchBy : Int}

/-- Without a bad turn the array holds what is emitted. -/
theorem searchTable_clean {table : List ProcessInfo}
    (h : ∀ p ∈ table, ¬ IdHitUnselected isNumericString zendAtoi keyword searchBy p ∧
      (Emits isNumericString zendAtoi keyword searchBy p → p.Whole)) :
    ∃ r, searchTable stale isNumericString zendAtoi (.string keyword) searchBy table = some r ∧
      r.items = (table.filter fun p =>
        decide (Emits isNumericString zendAtoi keyword searchBy p)).map itemOf ∧
      ∀ uses ∈ r.uses, UsedRight uses := by
  induction table with
  | nil => exact ⟨_, rfl, rfl, by simp⟩
  | cons p table ih =>
    obtain ⟨rest, hrest, hitems, huses⟩ := ih fun q hq => h q (List.mem_cons_of_mem _ hq)
    obtain ⟨hid, hwhole⟩ := h p List.mem_cons_self
    obtain ⟨-, hemit, hskip⟩ := searchOne_clean stale isNumericString zendAtoi hid
    by_cases he : Emits isNumericString zendAtoi keyword searchBy p
    · obtain ⟨uses, hone, hright⟩ := hemit he (hwhole he)
      refine ⟨⟨[itemOf p] ++ rest.items, uses :: rest.uses⟩, ?_, ?_, ?_⟩
      · rw [searchTable, hone, hrest]
        rfl
      · rw [List.filter_cons, if_pos (decide_eq_true he), List.map_cons, ← hitems]
        rfl
      · intro u hu
        rcases List.mem_cons.mp hu with rfl | hu
        · exact hright
        · exact huses u hu
    · obtain ⟨uses, hone, hright⟩ := hskip he
      refine ⟨⟨rest.items, uses :: rest.uses⟩, ?_, ?_, ?_⟩
      · rw [searchTable, hone, hrest]
        rfl
      · rw [List.filter_cons, if_neg (by simpa using he), ← hitems]
      · intro u hu
        rcases List.mem_cons.mp hu with rfl | hu
        · exact hright
        · exact huses u hu

/-- A run to the end with every string used properly had no bad turn. -/
theorem clean_of_searchTable {table : List ProcessInfo} {r : SearchResult}
    (hr : searchTable stale isNumericString zendAtoi (.string keyword) searchBy table = some r)
    (huses : ∀ uses ∈ r.uses, UsedRight uses) :
    ∀ p ∈ table, ¬ IdHitUnselected isNumericString zendAtoi keyword searchBy p ∧
      (Emits isNumericString zendAtoi keyword searchBy p → p.Whole) := by
  induction table generalizing r with
  | nil =>
    intro p hp
    cases hp
  | cons p table ih =>
    rw [searchTable] at hr
    obtain ⟨one, hone, hr⟩ := Option.bind_eq_some_iff.mp hr
    obtain ⟨rest, hrest, rfl⟩ := Option.map_eq_some_iff.mp hr
    intro q hq
    rcases List.mem_cons.mp hq with rfl | hq
    · have hid : ¬ IdHitUnselected isNumericString zendAtoi keyword searchBy q := fun hid =>
        searchOne_clash stale isNumericString zendAtoi hid hone (huses _ List.mem_cons_self)
      refine ⟨hid, fun he => ?_⟩
      apply Classical.byContradiction
      intro hnull
      rw [(searchOne_clean stale isNumericString zendAtoi hid).1 he hnull] at hone
      cases hone
    · exact ih hrest (fun u hu => huses u (List.mem_cons_of_mem _ hu)) q hq

end

/-- **The search is right** exactly when no process is hit by its id with no field selected,
the processes that match have no NULL string, and text found with the keyword cut at a NUL
is in a process that matches anyway. -/
theorem search_right_iff (keyword : List UInt8) (searchBy : Int) (table : List ProcessInfo) :
    SearchRight stale isNumericString zendAtoi keyword searchBy table ↔
      ∀ p ∈ table, ¬ IdHitUnselected isNumericString zendAtoi keyword searchBy p ∧
        (Matches isNumericString zendAtoi keyword searchBy p → p.Whole) ∧
        (TextFound keyword searchBy p → Matches isNumericString zendAtoi keyword searchBy p) := by
  have hagree : ∀ p, (TextFound keyword searchBy p →
      Matches isNumericString zendAtoi keyword searchBy p) →
      (Emits isNumericString zendAtoi keyword searchBy p ↔
        Matches isNumericString zendAtoi keyword searchBy p) := by
    intro p htext
    refine ⟨?_, matches_emits _ _⟩
    rintro (h | ⟨hnum, h⟩ | h)
    · exact .inl h
    · exact .inr (.inl ⟨hnum, (numberHit_iff _ _ _).mp h⟩)
    · exact htext h
  constructor
  · rintro ⟨r, hr, hitems, huses⟩
    have hclean := clean_of_searchTable stale hr huses
    obtain ⟨r', hr', hitems', -⟩ := searchTable_clean stale hclean
    rw [Option.some.inj (hr.symm.trans hr'), hitems'] at hitems
    -- as many are emitted as match, and those that match are emitted
    have hsub : (table.filter fun p =>
        decide (Matches isNumericString zendAtoi keyword searchBy p)).Sublist
        (table.filter fun p => decide (Emits isNumericString zendAtoi keyword searchBy p)) :=
      List.monotone_filter_right table fun p hp =>
        decide_eq_true (matches_emits _ _ (of_decide_eq_true hp))
    have hsame := hsub.eq_of_length (by simpa using (congrArg List.length hitems).symm)
    intro p hp
    refine ⟨(hclean p hp).1, fun hm => (hclean p hp).2 (matches_emits _ _ hm), fun htext => ?_⟩
    have hmem : p ∈ table.filter fun p =>
        decide (Emits isNumericString zendAtoi keyword searchBy p) :=
      List.mem_filter.mpr ⟨hp, decide_eq_true (.inr (.inr htext))⟩
    rw [← hsame] at hmem
    exact of_decide_eq_true (List.mem_filter.mp hmem).2
  · intro h
    have hclean : ∀ p ∈ table, ¬ IdHitUnselected isNumericString zendAtoi keyword searchBy p ∧
        (Emits isNumericString zendAtoi keyword searchBy p → p.Whole) := fun p hp =>
      ⟨(h p hp).1, fun he => (h p hp).2.1 ((hagree p (h p hp).2.2).mp he)⟩
    obtain ⟨r, hr, hitems, huses⟩ := searchTable_clean stale hclean
    refine ⟨r, hr, ?_, huses⟩
    rw [hitems]
    congr 1
    exact List.filter_congr fun p hp => decide_eq_decide.mpr (hagree p (h p hp).2.2)

/-- Decimal numbers, read as the engine reads them. -/
def allDigits (keyword : List UInt8) : Bool := keyword.all fun c => decide (0x30 ≤ c ∧ c ≤ 0x39)

def decimal (keyword : List UInt8) : Int32 :=
  keyword.foldl (fun n c => 10 * n + Int32.ofNat (c.toNat - 0x30)) 0

/-- Process 8, named `"p8"`. -/
def processEight : ProcessInfo :=
  ⟨some [0x70, 0x38], some [], some [], some [], 8, 4, 0, 0, 0, 0, 0⟩

/-- Searched for `"8"` with no field selected, process 8 is read after its release; where the
released memory still holds the old text it is returned and released twice. -/
theorem eight_released_twice :
    searchTable (fun _ => [0x70, 0x38]) allDigits decimal (.string [0x38]) 0 [processEight] =
      some ⟨[itemOf processEight, ⟨[0x70, 0x38], [0x70, 0x38], [0x70, 0x38], [0x70, 0x38], 8, 4,
          0, 0, 0, 0, 0⟩],
        [[.read .processName, .release .processName, .read .commandLine, .release .commandLine,
          .read .fileName, .release .fileName, .read .filePath, .release .filePath,
          .read .processName,
          .read .processName, .release .processName, .read .commandLine, .release .commandLine,
          .read .fileName, .release .fileName, .read .filePath, .release .filePath]]⟩ ∧
    Matches allDigits decimal [0x38] 0 processEight ∧
    ¬ SearchRight (fun _ => [0x70, 0x38]) allDigits decimal [0x38] 0 [processEight] := by
  refine ⟨by decide, by decide, ?_⟩
  rintro ⟨r, hr, -, huses⟩
  have hid : IdHitUnselected allDigits decimal [0x38] 0 processEight :=
    ⟨by decide, by decide, by decide, .inl (by decide)⟩
  exact (clean_of_searchTable _ hr huses _ List.mem_cons_self).1 hid

end WingPhp.Process
