import WingPhp.Encrypt.RunFile
import WingPhp.WingString.TrimText
import WingPhp.Wmic

/-!
# The hardware ids of `wing_encrypt`

`get_cpu_id` and `get_serial_number` of `encrypc.c` put the values of a query one behind the other into
a block of 1024 bytes; a failing call leaves them at `NULL`, and the serial numbers go through
`wing_trim`.  `Com.joined` and `strip` say what the ids are; `getCpuId_eq` and `getSerialNumber_eq` when
they are found.
-/

namespace WingPhp.Encrypt

open Memory List Strings Wmic

/-- A text of COM, as `WcharToUtf8` gives it. -/
abbrev CText := { t : List UInt8 // 0 ∉ t }

/-- What COM answers to a query.  A row is `none` when the value is `NULL` or cannot be converted. -/
structure Com where
  setup : Setup
  execQuery : Hresult
  rows : List (Option CText)

/-- The calls up to `ExecQuery`. -/
def Com.connect (c : Com) : Bool :=
  if Failed c.setup.coInitializeEx then false
  else if Failed c.setup.coInitializeSecurity then false
  else if Failed c.setup.coCreateInstance then false
  else if Failed c.setup.connectServer then false
  else if Failed c.setup.coSetProxyBlanket then false
  else if Failed c.execQuery then false
  else true

/-- `max_size`. -/
def maxSize : Nat := 1024

/-- `while( pEnumerator )`: each value is copied to `start`. -/
def copyRows : List UInt8 → Nat → List (Option CText) → Except Fault (List UInt8)
  | block, _, [] => .ok block
  | block, start, none :: rows => copyRows block start rows
  | block, start, some t :: rows => do
    let len ← strlen (some (t.1 ++ [0]))
    let block ← memcpy block start (some (t.1 ++ [0])) len
    copyRows block (start + len) rows

/-- `get_cpu_id`. -/
def getCpuId (c : Com) : Except Fault (Ptr UInt8) :=
  if !c.connect then .ok none
  else do
    let processorId ← copyRows (malloc maxSize) 0 c.rows
    .ok (some processorId)

/-! ## `wing_trim` -/

/-- `isspace`, which is asked about a `char`, and the byte in front of a block (`none` when that faults). -/
structure Runtime where
  isspace : Int → Bool
  isspace_nul : isspace 0 = false
  before : Option UInt8

section
variable (crt : Runtime)

/-- The second loop, `left` bytes behind `start`; `none` when `end` runs past it. -/
def findLast (mem : List UInt8) : Nat → Int → Except Fault (Option Int)
  | 0, fin => do
    let c ← byteAt crt.before mem fin
    if !crt.isspace (charToInt c) then .ok (some fin) else .ok none
  | left + 1, fin => do
    let c ← byteAt crt.before mem fin
    if !crt.isspace (charToInt c) then .ok (some fin) else findLast mem left (fin - 1)

/-- `wing_trim`.  On an empty text `end` is in front of the block. -/
def wingTrim (s : List UInt8) : Except Fault (List UInt8) := do
  let len ← strlen (some s)
  let fin : Int := (len : Int) - 1
  match ← findStart crt.isspace crt.before s fin.toNat 0 with
  | none => store s 0 [0]
  | some start =>
    match ← findLast crt s (fin - start).toNat fin with
    | none => store s 0 [0]
    | some fin => do
      let n := (fin - start + 1).toNat
      let s ← memcpy s 0 (some (s.drop start)) n
      store s n [0]

/-- `get_serial_number`. -/
def getSerialNumber (c : Com) : Except Fault (Ptr UInt8) :=
  if !c.connect then .ok none
  else do
    let serialNumber ← copyRows (malloc maxSize) 0 c.rows
    let serialNumber ← wingTrim crt serialNumber
    .ok (some serialNumber)

end

/-! ## What the ids are -/

/-- The values one behind the other. -/
def joinRows (rows : List (Option CText)) : List UInt8 := rows.flatMap fun row => row.elim [] Subtype.val

theorem joinRows_some (t : CText) (rows : List (Option CText)) :
    joinRows (some t :: rows) = t.1 ++ joinRows rows := List.flatMap_cons

theorem zero_not_mem_joinRows (rows : List (Option CText)) : 0 ∉ joinRows rows := by
  intro h
  obtain ⟨row, -, hmem⟩ := List.mem_flatMap.mp h
  cases row with
  | none => cases hmem
  | some t => exact t.2 hmem

theorem strlen_terminated {t : List UInt8} (ht : 0 ∉ t) (rest : List UInt8) :
    strlen (some (t ++ 0 :: rest)) = .ok t.length := by
  rw [strlen, loadText_terminated ht]
  rfl

/-- **The loop** puts the values behind what is there, and leaves the block when they are longer. -/
theorem copyRows_eq (rows : List (Option CText)) {pre : List UInt8} (hpre : pre.length ≤ maxSize) :
    copyRows (pre ++ malloc (maxSize - pre.length)) pre.length rows =
      if (pre ++ joinRows rows).length ≤ maxSize then
        .ok (pre ++ joinRows rows ++ malloc (maxSize - (pre ++ joinRows rows).length))
      else .error .outside := by
  induction rows generalizing pre with
  | nil => rw [joinRows, List.flatMap_nil, List.append_nil, if_pos hpre, copyRows]
  | cons row rows ih =>
    cases row with
    | none => exact ih hpre
    | some t =>
      have hlen : (pre ++ malloc (maxSize - pre.length) : List UInt8).length = maxSize := by
        rw [List.length_append, length_malloc]
        omega
      rw [copyRows, strlen_terminated t.2, ok_bind, joinRows_some, ← List.append_assoc]
      by_cases hfit : (pre ++ t.1).length ≤ maxSize
      · have hroom : pre.length + t.1.length ≤ maxSize := by rwa [← List.length_append]
        have hcopy := @memcpy_append _ (pre ++ malloc (maxSize - pre.length)) pre.length t.1 [0] (by omega)
        have hrest : (pre ++ malloc (maxSize - pre.length) : List UInt8).drop (pre.length + t.1.length) =
            malloc (maxSize - (pre ++ t.1).length) := by
          rw [List.drop_append, List.drop_eq_nil_of_le (by omega), List.nil_append, malloc, List.drop_replicate,
            List.length_append, malloc]
          congr 1
          omega
        rw [hcopy, ok_bind, List.take_left, hrest, ← List.length_append]
        exact ih hfit
      · have hlong : ¬ pre.length + t.1.length ≤ maxSize := by rwa [← List.length_append]
        have hcopy : memcpy (pre ++ malloc (maxSize - pre.length)) pre.length (some (t.1 ++ [0])) t.1.length =
            .error .outside := by
          rw [memcpy, load_append, ok_bind, store_outside (by omega)]
        rw [hcopy, error_bind, if_neg]
        rw [List.length_append]
        omega

/-- A block with the values in front. -/
theorem copyRows_malloc (rows : List (Option CText)) :
    copyRows (malloc maxSize) 0 rows =
      if (joinRows rows).length ≤ maxSize then
        .ok (joinRows rows ++ malloc (maxSize - (joinRows rows).length))
      else .error .outside := @copyRows_eq rows [] (Nat.zero_le _)

section
variable {crt : Runtime}

/-- A blank, of a text. -/
def Runtime.blank (crt : Runtime) (c : UInt8) : Bool := crt.isspace (charToInt c)

/-- **The second loop** goes back over a run of blanks. -/
theorem findLast_stop {run : List UInt8} (hrun : ∀ b ∈ run, crt.blank b) {c : UInt8} (hc : crt.blank c = false)
    (pre post : List UInt8) {left : Nat} (hleft : run.length ≤ left) :
    findLast crt (pre ++ c :: (run ++ post)) left ((pre.length + run.length : Nat) : Int) =
      .ok (some pre.length) := by
  have hc' : crt.isspace (charToInt c) = false := hc
  induction run using List.reverseRecOn generalizing post left with
  | nil =>
    rw [List.nil_append, List.length_nil, Nat.add_zero]
    cases left <;> simp [findLast, byteAt_append, hc']
  | append_singleton run b ih =>
    have hb : crt.isspace (charToInt b) = true := hrun b (by simp)
    cases left with
    | zero => simp at hleft
    | succ left =>
      have hstop := ih (fun b' hb' => hrun b' (by simp [hb'])) (b :: post) (by simpa using hleft)
      have hmem : run ++ b :: post = run ++ [b] ++ post := by simp
      have hfin : ((pre.length + (run ++ [b]).length : Nat) : Int) - 1 = ((pre.length + run.length : Nat) : Int) := by
        simp
        omega
      rw [hmem] at hstop
      rw [findLast, byteAt_last, hfin]
      simp only [ok_bind, hb]
      exact hstop

/-- Blanks all the way. -/
theorem wingTrim_blank {t : List UInt8} (ht : 0 ∉ t) (hne : t ≠ []) (hall : ∀ b ∈ t, crt.blank b) (rest : List UInt8) :
    ∃ s, wingTrim crt (t ++ 0 :: rest) = .ok s ∧ loadText (some s) = .ok [] := by
  have hpos : 0 < t.length := List.length_pos_iff.mpr hne
  have hfin : ((t.length : Int) - 1).toNat = t.length - 1 := by omega
  obtain ⟨hnone, -⟩ := @findStart_all crt.isspace crt.before t hall (0 :: rest) [] (t.length - 1) (by omega)
  rw [List.nil_append, List.length_nil] at hnone
  obtain ⟨s, hstore, -, htext⟩ := store_nothing t rest
  refine ⟨s, ?_, htext⟩
  rw [wingTrim, strlen_terminated ht, ok_bind]
  simp only [hfin, hnone, ok_bind]
  exact hstore

/-- A core between blanks. -/
theorem wingTrim_core {lead core trail : List UInt8} {a z : UInt8} (ht : 0 ∉ lead ++ core ++ trail)
    (hlead : ∀ b ∈ lead, crt.blank b) (htrail : ∀ b ∈ trail, crt.blank b) (hfirst : core.head? = some a)
    (hlast : core.getLast? = some z) (ha : crt.blank a = false) (hz : crt.blank z = false) (rest : List UInt8) :
    ∃ s, wingTrim crt (lead ++ core ++ trail ++ 0 :: rest) = .ok s ∧ loadText (some s) = .ok core := by
  have hcore0 : 0 ∉ core := fun h => ht (List.mem_append_left _ (List.mem_append_right _ h))
  obtain ⟨more, hmore⟩ : ∃ more, core = a :: more := List.head?_eq_some_iff.mp hfirst
  obtain ⟨init, hinit⟩ : ∃ init, core = init ++ [z] := List.getLast?_eq_some_iff.mp hlast
  have hcount : core.length = init.length + 1 := by rw [hinit, List.length_append, List.length_singleton]
  have hlen : (lead ++ core ++ trail).length = lead.length + core.length + trail.length := by
    rw [List.length_append, List.length_append]
  -- the first loop stops at `a`, the second at `z`
  have hstart := (@findStart_stop crt.isspace crt.before lead hlead a ha (more ++ (trail ++ 0 :: rest)) []
    (((lead ++ core ++ trail).length : Int) - 1).toNat (by omega)).1
  have hfront : [] ++ lead ++ a :: (more ++ (trail ++ 0 :: rest)) = lead ++ core ++ trail ++ 0 :: rest := by
    rw [hmore]
    simp
  rw [hfront, List.length_nil, Nat.zero_add] at hstart
  have hend := @findLast_stop crt trail htrail z hz (lead ++ init) (0 :: rest)
    (((lead ++ core ++ trail).length : Int) - 1 - lead.length).toNat (by omega)
  have hback : lead ++ init ++ z :: (trail ++ 0 :: rest) = lead ++ core ++ trail ++ 0 :: rest := by
    rw [hinit]
    simp
  have hfin : (((lead ++ init).length + trail.length : Nat) : Int) = ((lead ++ core ++ trail).length : Int) - 1 := by
    rw [hlen, List.length_append]
    omega
  have hsize : (((lead ++ init).length : Int) - lead.length + 1).toNat = core.length := by
    rw [List.length_append]
    omega
  rw [hback, hfin] at hend
  have hroom : 0 + (core ++ [0]).length ≤ (lead ++ core ++ (trail ++ 0 :: rest)).length := by
    rw [← List.append_assoc, List.length_append, List.length_append, hlen]
    show 0 + (core.length + 1) ≤ lead.length + core.length + trail.length + (rest.length + 1)
    omega
  have hstored := store_ok hroom
  refine ⟨_, Eq.trans ?_ hstored, ?_⟩
  · rw [wingTrim, strlen_terminated ht, ok_bind]
    simp only [hstart, ok_bind, hend, hsize]
    rw [List.append_assoc _ trail, move_core]
  · rw [List.take_zero, List.nil_append, List.append_assoc]
    exact loadText_terminated hcore0 _

/-- **A text is stripped.** -/
theorem wingTrim_text {t : List UInt8} (ht : 0 ∉ t) (hne : t ≠ []) (rest : List UInt8) :
    ∃ s, wingTrim crt (t ++ 0 :: rest) = .ok s ∧ loadText (some s) = .ok (strip crt.blank t) := by
  obtain ⟨lead, trail, hsplit, hlead, htrail, hends⟩ := strip_spec crt.blank t
  generalize strip crt.blank t = core at hsplit hends ⊢
  cases core with
  | nil =>
    refine wingTrim_blank ht hne (fun b hb => ?_) rest
    rw [hsplit, List.append_nil] at hb
    exact (List.mem_append.mp hb).elim (hlead b) (htrail b)
  | cons a more =>
    subst hsplit
    have hlast : (a :: more).getLast? = some ((a :: more).getLast (List.cons_ne_nil a more)) :=
      List.getLast?_eq_some_getLast _
    exact wingTrim_core ht hlead htrail rfl hlast (hends.1 a rfl) (hends.2 _ hlast) rest

/-- On an empty text the first loop stops at once. -/
theorem findStart_empty (rest : List UInt8) :
    findStart crt.isspace crt.before (0 :: rest) 0 0 = .ok (some 0) := by
  have hbyte : byteAt crt.before (0 :: rest) ((0 : Nat) : Int) = .ok 0 := rfl
  have hnul : crt.isspace (charToInt 0) = false := crt.isspace_nul
  rw [findStart, hbyte]
  simp [hnul]

/-- The second one reads the byte in front of the block. -/
theorem wingTrim_empty (rest : List UInt8) :
    (crt.before = none → wingTrim crt (0 :: rest) = .error .outside) ∧
      (crt.before ≠ none → wingTrim crt (0 :: rest) = .ok (0 :: rest)) := by
  have hlen : strlen (some (0 :: rest)) = .ok 0 := @strlen_terminated [] (by simp) rest
  have hcut : store (0 :: rest) 0 [0] = .ok (0 :: rest) := store_ok (by simp)
  rw [wingTrim, hlen, ok_bind]
  constructor
  · intro hbefore
    show (findStart crt.isspace crt.before (0 :: rest) 0 0 >>= _) = _
    rw [findStart_empty, ok_bind]
    show (findLast crt (0 :: rest) 0 (-1) >>= _) = _
    rw [findLast, hbefore]
    rfl
  · intro hbefore
    obtain ⟨c, hc⟩ := Option.ne_none_iff_exists'.mp hbefore
    have hbyte : byteAt crt.before (0 :: rest) (-1) = .ok c := by rw [hc]; rfl
    show (findStart crt.isspace crt.before (0 :: rest) 0 0 >>= _) = _
    rw [findStart_empty, ok_bind]
    show (findLast crt (0 :: rest) 0 (-1) >>= _) = _
    rw [findLast, hbyte, ok_bind]
    cases crt.isspace (charToInt c) with
    | true => exact hcut
    | false => exact hcut

end

/-! ## The two functions -/

/-- The ids of the processors, when they are found and fit the block. -/
def Com.cpuId (c : Com) : Option (List UInt8) :=
  if c.connect = true ∧ (joinRows c.rows).length < maxSize then some (joinRows c.rows) else none

/-- The stripped serial numbers; an empty one also needs a byte in front of the block. -/
def Com.serialNumber (c : Com) (crt : Runtime) : Option (List UInt8) :=
  if c.connect = true ∧ (joinRows c.rows).length < maxSize ∧ (joinRows c.rows ≠ [] ∨ crt.before ≠ none) then
    some (strip crt.blank (joinRows c.rows))
  else none

/-- `r` leaves the text `id` in a block, and a reader of it faults when there is none. -/
def Finds (r : Except Fault (Ptr UInt8)) (id : Option (List UInt8)) : Prop :=
  (∀ t, id = some t → ∃ block, r = .ok (some block) ∧ loadText (some block) = .ok t) ∧
    (id = none → ∃ f, r >>= loadText = .error f)

theorem finds_some {r : Except Fault (Ptr UInt8)} {block t : List UInt8} (hr : r = .ok (some block))
    (ht : loadText (some block) = .ok t) : Finds r (some t) := by
  refine ⟨fun u hu => ?_, fun h => by cases h⟩
  cases hu
  exact ⟨block, hr, ht⟩

theorem finds_none {r : Except Fault (Ptr UInt8)} {f : Fault} (hr : r >>= loadText = .error f) : Finds r none :=
  ⟨fun _ h => absurd h (by simp), fun _ => ⟨f, hr⟩⟩

theorem malloc_pos {n : Nat} (h : 0 < n) : (malloc n : List UInt8) = 0 :: malloc (n - 1) := by
  obtain ⟨k, rfl⟩ : ∃ k, n = k + 1 := ⟨n - 1, by omega⟩
  exact List.replicate_succ

/-- A block that is full has no NUL. -/
theorem copyRows_full {rows : List (Option CText)} (h : ¬ (joinRows rows).length < maxSize) :
    copyRows (malloc maxSize) 0 rows = .error .outside ∨
      ∃ block, copyRows (malloc maxSize) 0 rows = .ok block ∧ loadText (some block) = .error .outside := by
  rw [copyRows_malloc]
  by_cases hle : (joinRows rows).length ≤ maxSize
  · have hfull : joinRows rows ++ malloc (maxSize - (joinRows rows).length) = joinRows rows := by
      rw [show maxSize - (joinRows rows).length = 0 by omega]
      exact List.append_nil _
    rw [if_pos hle, hfull]
    exact .inr ⟨_, rfl, if_neg (zero_not_mem_joinRows rows)⟩
  · exact .inl (if_neg hle)

theorem copyRows_room {rows : List (Option CText)} (h : (joinRows rows).length < maxSize) :
    copyRows (malloc maxSize) 0 rows =
      .ok (joinRows rows ++ 0 :: malloc (maxSize - (joinRows rows).length - 1)) := by
  rw [copyRows_malloc, if_pos (Nat.le_of_lt h), malloc_pos (by omega)]

/-- **`get_cpu_id` finds the ids of the processors.** -/
theorem getCpuId_finds (c : Com) : Finds (getCpuId c) c.cpuId := by
  cases hconnect : c.connect with
  | false =>
    rw [Com.cpuId, hconnect, if_neg (by simp), getCpuId, hconnect]
    exact finds_none rfl
  | true =>
    have hrun : getCpuId c = copyRows (malloc maxSize) 0 c.rows >>= fun block => .ok (some block) := by
      rw [getCpuId, hconnect]
      rfl
    by_cases hroom : (joinRows c.rows).length < maxSize
    · rw [Com.cpuId, if_pos ⟨hconnect, hroom⟩, hrun, copyRows_room hroom]
      exact finds_some rfl (loadText_terminated (zero_not_mem_joinRows c.rows) _)
    · rw [Com.cpuId, if_neg fun h => hroom h.2, hrun]
      rcases copyRows_full hroom with hout | ⟨block, hblock, htext⟩
      · exact finds_none (by rw [hout]; rfl)
      · exact finds_none (by rw [hblock, ok_bind, ok_bind, htext])

/-- **`get_serial_number` finds the serial numbers, stripped.** -/
theorem getSerialNumber_finds (crt : Runtime) (c : Com) : Finds (getSerialNumber crt c) (c.serialNumber crt) := by
  cases hconnect : c.connect with
  | false =>
    rw [Com.serialNumber, hconnect, if_neg (by simp), getSerialNumber, hconnect]
    exact finds_none rfl
  | true =>
    have hrun : getSerialNumber crt c = copyRows (malloc maxSize) 0 c.rows >>= fun block =>
        wingTrim crt block >>= fun block => .ok (some block) := by
      rw [getSerialNumber, hconnect]
      rfl
    by_cases hroom : (joinRows c.rows).length < maxSize
    · rw [hrun, copyRows_room hroom, ok_bind]
      by_cases hempty : joinRows c.rows = []
      · rw [hempty]
        obtain ⟨hoff, hon⟩ := @wingTrim_empty crt (malloc (maxSize - 0 - 1))
        by_cases hbefore : crt.before = none
        · rw [Com.serialNumber, if_neg fun h => h.2.2.elim (fun hne => hne hempty) fun hne => hne hbefore]
          exact finds_none (by rw [List.nil_append, List.length_nil, hoff hbefore]; rfl)
        · rw [Com.serialNumber, if_pos ⟨hconnect, hroom, .inr hbefore⟩, hempty, List.nil_append, List.length_nil,
            hon hbefore]
          exact finds_some rfl (@loadText_terminated _ _ _ [] (by simp) _)
      · obtain ⟨s, htrim, htext⟩ := @wingTrim_text crt _ (zero_not_mem_joinRows c.rows) hempty
          (malloc (maxSize - (joinRows c.rows).length - 1))
        rw [Com.serialNumber, if_pos ⟨hconnect, hroom, .inl hempty⟩, htrim]
        exact finds_some rfl htext
    · rw [Com.serialNumber, if_neg fun h => hroom h.2.1, hrun]
      rcases copyRows_full hroom with hout | ⟨block, hblock, htext⟩
      · exact finds_none (by rw [hout]; rfl)
      · exact finds_none (by rw [hblock, ok_bind, wingTrim, strlen, htext]; rfl)

/-! ## As C strings -/

theorem Com.cpuId_fits {c : Com} {t : List UInt8} (h : c.cpuId = some t) : 0 ∉ t ∧ t.length < maxSize := by
  obtain ⟨⟨-, hroom⟩, hids⟩ := Option.ite_none_right_eq_some.mp h
  cases hids
  exact ⟨zero_not_mem_joinRows c.rows, hroom⟩

theorem Com.serialNumber_fits {c : Com} {crt : Runtime} {t : List UInt8} (h : c.serialNumber crt = some t) :
    0 ∉ t ∧ t.length < maxSize := by
  obtain ⟨⟨-, hroom, -⟩, hstrip⟩ := Option.ite_none_right_eq_some.mp h
  cases hstrip
  obtain ⟨lead, trail, hsplit, -⟩ := strip_spec crt.blank (joinRows c.rows)
  have hlen := congrArg List.length hsplit
  rw [List.length_append, List.length_append] at hlen
  refine ⟨fun hzero => zero_not_mem_joinRows c.rows ?_, by omega⟩
  rw [hsplit]
  exact List.mem_append_left _ (List.mem_append_right _ hzero)

end WingPhp.Encrypt
