import WingPhp.Encrypt.HardwareIds

/-!
# `wing_dz_run_file`

Each hardware id is read from a file in the temp directory when there is one, and else found and written
there.  The ids make the password, which is compared with the one made of `WING_ENCRYPT_KEY` before the
file is decrypted and evaluated.  `dzRun_right_iff` says when two temp directories lead to the same, and
when that has to do with the machine; `dzRun_again` and `dzRuns_agree` are about runs one after the other.
-/

namespace WingPhp.Encrypt

open Memory List Strings StreamCipher

/-- What does not change between two runs. -/
structure Machine where
  processors : Com
  physicalMedia : Com
  crt : Runtime
  getTempPath : Bool

/-- The two files in the temp directory, if they are there. -/
structure TempDir where
  processorId : Option (List UInt8)
  serialNumber : Option (List UInt8)
  deriving DecidableEq, Repr

/-- An id and its file: read from it, up to the size of the block, or found and written to it. -/
def cachedId (file : Option (List UInt8)) (get : Except Fault (Ptr UInt8)) :
    Except Fault (Ptr UInt8 × Option (List UInt8)) :=
  match file with
  | some bytes => do
    let id ← store (malloc maxSize) 0 (bytes.take maxSize)
    .ok (some id, some bytes)
  | none => do
    let id ← get
    let t ← loadText id
    .ok (id, some t)

/-- `WING_ENCRYPT_KEY`. -/
def wingEncryptKey : List UInt8 := "BFEBFBFF000306C3WD-WCC3F2FT0LTF".toList.map fun c => UInt8.ofNat c.toNat

/-- Between `WING_ENCRYPT_PRE_KEY` and `WING_ENCRYPT_END_KEY`. -/
def passwordOf (ids : List UInt8) : List UInt8 :=
  "wing".toList.map (fun c => UInt8.ofNat c.toNat) ++ [45] ++ ids ++ [45] ++
    "20160817".toList.map fun c => UInt8.ofNat c.toNat

variable (csp : List UInt8 → Nat → UInt8)

/-- The `WingDecryptFile` of `encrypc.c`: the file is not checked to be open, and a failing call leaves the
block behind. -/
def dzDecryptFile (c : DecryptCalls) (file password : List UInt8) : Option Text :=
  if !c.openSource then none
  else if !c.mallocDestination then none
  else
    let szDestination : Text := ⟨List.replicate (sizeT (filelength file + 1)) 0, 0⟩
    if !getCryptProv c.provider then some szDestination
    else
      match genKeyByPassword csp c.provider password with
      | none => some szDestination
      | some key =>
        if !c.mallocBuffer then some szDestination
        else cryptLoop memcpySink (sizeT (filelength file)) c.chunk 0 key file 0 szDestination

/-- From the decryption on. -/
def dzEvaluate (c : DecryptCalls) (file password : List UInt8) : Option RunFile :=
  match dzDecryptFile csp c file password with
  | none => none
  | some phpCode =>
    -- `strlen( php_code )`
    if 0 ∈ phpCode.block then
      some ⟨true, some ⟨phpCode.block, if phpCode.block.head? = some lessThan then 5 else 0⟩⟩
    else none

/-- A run: the password, what `strcmp` says, and what was returned and evaluated (`none` when a block was
left behind the test). -/
structure DzRun where
  encryptPassword : Option (List UInt8)
  accepted : Bool
  result : Option RunFile
  deriving DecidableEq, Repr

def DzRun.refused (encryptPassword : Option (List UInt8)) : DzRun := ⟨encryptPassword, false, some ⟨false, none⟩⟩

/-- `wing_dz_run_file`, and the temp directory after it. -/
def zendWingDzRunFile (m : Machine) (c : DecryptCalls) (file : List UInt8) (temp : TempDir) :
    Except Fault (TempDir × DzRun) :=
  if !m.getTempPath then .ok (temp, .refused none)
  else do
    let (processorId, pidFile) ← cachedId temp.processorId (getCpuId m.processors)
    let (serialNumber, snFile) ← cachedId temp.serialNumber (getSerialNumber m.crt m.physicalMedia)
    match processorId, serialNumber with
    | some processorId, some serialNumber => do
      let pid ← loadText (some processorId)
      let sn ← loadText (some serialNumber)
      let encryptPassword := passwordOf (pid ++ sn)
      let checkPassword := passwordOf wingEncryptKey
      if encryptPassword ≠ checkPassword then .ok (⟨pidFile, snFile⟩, .refused (some encryptPassword))
      else .ok (⟨pidFile, snFile⟩, ⟨some encryptPassword, true, dzEvaluate csp c file encryptPassword⟩)
    | _, _ => .ok (⟨pidFile, snFile⟩, .refused none)

/-! ## What it is for -/

/-- The ids of the machine. -/
def Machine.ids (m : Machine) : Option (List UInt8) := do
  let pid ← m.processors.cpuId
  let sn ← m.physicalMedia.serialNumber m.crt
  some (pid ++ sn)

/-- Both runs come to a decision: the same one, with the same password. -/
def SameDecision (r r' : Except Fault (TempDir × DzRun)) : Prop :=
  ∃ temp temp' d, r = .ok (temp, d) ∧ r' = .ok (temp', d)

/-- Something was evaluated. -/
def DzRun.Evaluates (d : DzRun) : Prop := ∃ r code, d.result = some r ∧ r.eval = some code

/-- Nothing is evaluated unless the ids of the machine are the key. -/
def Licensed (m : Machine) (r : Except Fault (TempDir × DzRun)) : Prop :=
  ∀ temp d, r = .ok (temp, d) → d.Evaluates → m.ids = some wingEncryptKey

/-! ## The files -/

/-- The text in front of a file, when it ends inside the block. -/
def cachedText (bytes : List UInt8) : Option (List UInt8) :=
  if bytes.length < maxSize ∨ 0 ∈ bytes.take maxSize then some (text (bytes.take maxSize)) else none

/-- An id as a run gets it. -/
def cachedOr (file id : Option (List UInt8)) : Option (List UInt8) := file.elim id cachedText

/-- Both. -/
def TempDir.ids (temp : TempDir) (m : Machine) : Option (List UInt8) := do
  let pid ← cachedOr temp.processorId m.processors.cpuId
  let sn ← cachedOr temp.serialNumber (m.physicalMedia.serialNumber m.crt)
  some (pid ++ sn)

/-- The block of a file. -/
theorem store_file (bytes : List UInt8) :
    store (malloc maxSize) 0 (bytes.take maxSize) =
      .ok (bytes.take maxSize ++ malloc (maxSize - (bytes.take maxSize).length)) :=
  store_malloc (List.length_take_le _ _)

theorem loadText_file (bytes : List UInt8) :
    (∀ t, cachedText bytes = some t →
      loadText (some (bytes.take maxSize ++ malloc (maxSize - (bytes.take maxSize).length))) = .ok t) ∧
    (cachedText bytes = none →
      loadText (some (bytes.take maxSize ++ malloc (maxSize - (bytes.take maxSize).length))) = .error .outside) := by
  unfold cachedText
  by_cases hnul : 0 ∈ bytes.take maxSize
  · rw [if_pos (.inr hnul), loadText, if_pos (List.mem_append_left _ hnul), text_append hnul]
    refine ⟨fun t h => congrArg _ (Option.some.inj h), fun h => by cases h⟩
  · by_cases hshort : bytes.length < maxSize
    · have htake : bytes.take maxSize = bytes := List.take_of_length_le (Nat.le_of_lt hshort)
      rw [if_pos (.inl hshort), htake, malloc_pos (by omega), loadText_terminated (htake ▸ hnul)]
      have htext := text_of_not_mem (htake ▸ hnul) []
      rw [show text ([] : List UInt8) = [] from rfl, List.append_nil] at htext
      rw [htext]
      refine ⟨fun t h => congrArg _ (Option.some.inj h), fun h => by cases h⟩
    · have hfull : (bytes.take maxSize).length = maxSize := List.length_take_of_le (by omega)
      rw [if_neg fun h => h.elim hshort hnul, hfull, Nat.sub_self]
      refine ⟨fun t h => absurd h (by simp), fun _ => ?_⟩
      rw [malloc, List.replicate_zero, List.append_nil, loadText, if_neg hnul]

section
variable {file id : Option (List UInt8)} {get : Except Fault (Ptr UInt8)}

theorem cachedId_some (hget : Finds get id) {t : List UInt8} (h : cachedOr file id = some t) :
    ∃ block, cachedId file get = .ok (some block, some (file.getD t)) ∧ loadText (some block) = .ok t := by
  cases file with
  | none =>
    obtain ⟨block, hblock, htext⟩ := hget.1 t h
    refine ⟨block, ?_, htext⟩
    rw [cachedId, hblock, ok_bind, htext]
    rfl
  | some bytes =>
    refine ⟨_, ?_, (loadText_file bytes).1 t h⟩
    rw [cachedId, store_file]
    rfl

/-- Without an id the run comes to an end before the test. -/
theorem cachedId_none (hget : Finds get id) (h : cachedOr file id = none) :
    (∃ f, cachedId file get = .error f) ∨
      ∃ block written f, cachedId file get = .ok (some block, written) ∧ loadText (some block) = .error f := by
  cases file with
  | none =>
    obtain ⟨f, hf⟩ := hget.2 h
    refine .inl ⟨f, ?_⟩
    rw [cachedId]
    cases hid : get with
    | error f' =>
      rw [hid] at hf
      cases hf
      rfl
    | ok id =>
      rw [hid, ok_bind] at hf
      rw [ok_bind, hf]
      rfl
  | some bytes =>
    refine .inr ⟨_, some bytes, .outside, ?_, (loadText_file bytes).2 h⟩
    rw [cachedId, store_file]
    rfl

/-- It never ends without a block. -/
theorem cachedId_block (hget : Finds get id) :
    (∃ f, cachedId file get = .error f) ∨ ∃ block written, cachedId file get = .ok (some block, written) := by
  cases h : cachedOr file id with
  | none =>
    rcases cachedId_none hget h with hf | ⟨block, written, -, hok, -⟩
    · exact .inl hf
    · exact .inr ⟨block, written, hok⟩
  | some t =>
    obtain ⟨block, hok, -⟩ := cachedId_some hget h
    exact .inr ⟨block, _, hok⟩

theorem cachedId_found (hget : Finds get id) {block t : List UInt8} {written : Option (List UInt8)}
    (hrun : cachedId file get = .ok (some block, written)) (htext : loadText (some block) = .ok t) :
    cachedOr file id = some t := by
  cases h : cachedOr file id with
  | none =>
    rcases cachedId_none hget h with ⟨f, hf⟩ | ⟨block', written', f, hok, hf⟩
    · rw [hf] at hrun
      cases hrun
    · rw [hok] at hrun
      cases hrun
      rw [hf] at htext
      cases htext
  | some u =>
    obtain ⟨block', hok, hu⟩ := cachedId_some hget h
    rw [hok] at hrun
    cases hrun
    exact congrArg some (Except.ok.inj (hu.symm.trans htext))

end

/-! ## One run -/

theorem passwordOf_inj {ids ids' : List UInt8} : passwordOf ids = passwordOf ids' ↔ ids = ids' := by
  refine ⟨fun h => ?_, fun h => by rw [h]⟩
  unfold passwordOf at h
  simpa using h

section
variable {m : Machine} {c : DecryptCalls} {file : List UInt8} {temp : TempDir}

/-- What a run does with its ids. -/
def decided (c : DecryptCalls) (file ids : List UInt8) : DzRun :=
  if ids = wingEncryptKey then ⟨some (passwordOf ids), true, dzEvaluate csp c file (passwordOf ids)⟩
  else .refused (some (passwordOf ids))

/-- The files after it. -/
def TempDir.filled (temp : TempDir) (pid sn : List UInt8) : TempDir :=
  ⟨some (temp.processorId.getD pid), some (temp.serialNumber.getD sn)⟩

theorem ids_eq_some {ids : List UInt8} : temp.ids m = some ids ↔
    ∃ pid sn, cachedOr temp.processorId m.processors.cpuId = some pid ∧
      cachedOr temp.serialNumber (m.physicalMedia.serialNumber m.crt) = some sn ∧ ids = pid ++ sn := by
  unfold TempDir.ids
  simp only [Option.bind_eq_bind, Option.bind_eq_some_iff, Option.some.injEq]
  constructor
  · rintro ⟨pid, hpid, sn, hsn, rfl⟩
    exact ⟨pid, sn, hpid, hsn, rfl⟩
  · rintro ⟨pid, sn, hpid, hsn, rfl⟩
    exact ⟨pid, hpid, sn, hsn, rfl⟩

theorem dzRun_of_ids (htemp : m.getTempPath = true) {pid sn : List UInt8}
    (hpid : cachedOr temp.processorId m.processors.cpuId = some pid)
    (hsn : cachedOr temp.serialNumber (m.physicalMedia.serialNumber m.crt) = some sn) :
    zendWingDzRunFile csp m c file temp = .ok (temp.filled pid sn, decided csp c file (pid ++ sn)) := by
  obtain ⟨pidBlock, hpidRun, hpidText⟩ := cachedId_some (getCpuId_finds m.processors) hpid
  obtain ⟨snBlock, hsnRun, hsnText⟩ := cachedId_some (getSerialNumber_finds m.crt m.physicalMedia) hsn
  rw [zendWingDzRunFile, htemp, hpidRun]
  simp only [Bool.not_true, Bool.false_eq_true, if_false, ok_bind, hsnRun, hpidText, hsnText]
  unfold decided
  by_cases hkey : pid ++ sn = wingEncryptKey
  · rw [if_neg (not_not_intro (passwordOf_inj.mpr hkey)), if_pos hkey]
    rfl
  · rw [if_pos fun h => hkey (passwordOf_inj.mp h), if_neg hkey]
    rfl

/-- Without ids no decision is reached. -/
theorem dzRun_of_no_ids (htemp : m.getTempPath = true) (h : temp.ids m = none) :
    ∃ f, zendWingDzRunFile csp m c file temp = .error f := by
  have hpid := getCpuId_finds m.processors
  have hsn := getSerialNumber_finds m.crt m.physicalMedia
  rw [zendWingDzRunFile, htemp]
  simp only [Bool.not_true, Bool.false_eq_true, if_false]
  rcases @cachedId_block temp.processorId _ _ hpid with ⟨f, hf⟩ | ⟨pidBlock, pidFile, hpidRun⟩
  · exact ⟨f, by rw [hf]; rfl⟩
  rcases @cachedId_block temp.serialNumber _ _ hsn with ⟨f, hf⟩ | ⟨snBlock, snFile, hsnRun⟩
  · exact ⟨f, by rw [hpidRun, ok_bind, hf]; rfl⟩
  simp only [hpidRun, ok_bind, hsnRun]
  cases hpidText : loadText (some pidBlock) with
  | error f => exact ⟨f, rfl⟩
  | ok pid =>
    cases hsnText : loadText (some snBlock) with
    | error f => exact ⟨f, rfl⟩
    | ok sn =>
      -- both can be read, so both are there
      have hids := ids_eq_some.mpr ⟨pid, sn, cachedId_found hpid hpidRun hpidText,
        cachedId_found hsn hsnRun hsnText, rfl⟩
      rw [h] at hids
      cases hids

end

/-! ## The evaluation -/

theorem dzDecryptFile_closed {c : DecryptCalls} (h : ¬ (c.openSource = true ∧ c.mallocDestination = true))
    (file password : List UInt8) : dzDecryptFile csp c file password = none := by
  unfold dzDecryptFile
  by_cases hopen : c.openSource = true
  · have hnew : ¬ c.mallocDestination = true := fun hnew => h ⟨hopen, hnew⟩
    simp [hopen, hnew]
  · simp [hopen]

/-- With every call before the loop it does what the other version does. -/
theorem dzDecryptFile_ready {c : DecryptCalls} (h : c.Ready) (file password : List UInt8) :
    wingDecryptFile csp c file password = (dzDecryptFile csp c file password).map fun t => ⟨true, some t⟩ := by
  rw [wingDecryptFile_loop csp h, dzDecryptFile, genKeyByPassword_ready csp h.provider]
  simp [h.openSource, h.mallocDestination, h.provider.1, h.mallocBuffer]

/-- Without them the cleared block is left. -/
theorem dzDecryptFile_not_ready {c : DecryptCalls} (hopen : c.openSource = true)
    (hnew : c.mallocDestination = true) (h : ¬ c.Ready) (file password : List UInt8) :
    dzDecryptFile csp c file password = some ⟨List.replicate (sizeT (filelength file + 1)) 0, 0⟩ := by
  unfold dzDecryptFile
  by_cases hprov : getCryptProv c.provider = true
  · by_cases hkey : (c.provider.createHash && c.provider.hashData && c.provider.deriveKey) = true
    · have hbuffer : ¬ c.mallocBuffer = true := fun hbuffer => h ⟨hopen, hnew, ⟨hprov, hkey⟩, hbuffer⟩
      rw [genKeyByPassword_ready csp ⟨hprov, hkey⟩]
      simp [hopen, hnew, hprov, hbuffer]
    · rw [genKeyByPassword_none csp password (by simpa using hkey)]
      simp [hopen, hnew, hprov]
  · simp [hopen, hnew, hprov]

theorem dzEvaluate_of_block {c : DecryptCalls} {file password : List UInt8} :
    (∃ r code, dzEvaluate csp c file password = some r ∧ r.eval = some code) ↔
      ∃ t, dzDecryptFile csp c file password = some t ∧ 0 ∈ t.block := by
  unfold dzEvaluate
  cases dzDecryptFile csp c file password with
  | none => simp
  | some t => by_cases hnul : 0 ∈ t.block <;> simp [hnul]

/-- With everything at hand there is a zero behind the text. -/
theorem nul_mem_ready {c : DecryptCalls} (hready : c.Ready) (file password : List UInt8) :
    (∃ t, dzDecryptFile csp c file password = some t ∧ 0 ∈ t.block) ↔ file.length < 0x80000000 := by
  have hrun := dzDecryptFile_ready csp hready file password
  by_cases hlen : file.length < 0x80000000
  · obtain ⟨t, text, hboth, ht, hpre, -⟩ := wingDecryptFile_ready csp hready hlen password
    rw [hboth] at hrun
    obtain ⟨t', hdz, ht'⟩ := Option.map_eq_some_iff.mp hrun.symm
    cases ht'
    have hle := hpre.length_le
    rw [length_maskedText] at hle
    refine iff_of_true ⟨t, hdz, ?_⟩ hlen
    rw [ht.block_eq, List.mem_append]
    exact .inr (List.mem_replicate.mpr ⟨by omega, rfl⟩)
  · refine iff_of_false ?_ hlen
    rintro ⟨t, hdz, hnul⟩
    rw [hdz] at hrun
    rcases wingDecryptFile_long csp hready hlen password with hlong | hlong
    · rw [hlong] at hrun
      cases hrun
    · rw [hlong] at hrun
      cases hrun
      cases hnul

/-- Without, the block is left as it was made. -/
theorem nul_mem_not_ready {c : DecryptCalls} (hopen : c.openSource = true) (hmalloc : c.mallocDestination = true)
    (hready : ¬ c.Ready) (file password : List UInt8) :
    (∃ t, dzDecryptFile csp c file password = some t ∧ 0 ∈ t.block) ↔ file.length < 0x80000000 := by
  rw [dzDecryptFile_not_ready csp hopen hmalloc hready]
  by_cases hlen : file.length < 0x80000000
  · have hroom : sizeT (filelength file + 1) = file.length + 1 := by
      rw [filelength, if_pos hlen, sizeT]
      omega
    exact iff_of_true ⟨_, rfl, by rw [hroom]; exact List.mem_cons_self⟩ hlen
  · refine iff_of_false ?_ hlen
    rintro ⟨t, hdz, hnul⟩
    cases hdz
    rw [filelength, if_neg hlen] at hnul
    cases hnul

/-- **A file that can be opened is evaluated**, whatever fails. -/
theorem dzEvaluate_iff (c : DecryptCalls) (file password : List UInt8) :
    (∃ r code, dzEvaluate csp c file password = some r ∧ r.eval = some code) ↔
      c.openSource = true ∧ c.mallocDestination = true ∧ file.length < 0x80000000 := by
  rw [dzEvaluate_of_block]
  by_cases hopened : c.openSource = true ∧ c.mallocDestination = true
  · rw [← and_assoc, and_iff_right hopened]
    by_cases hready : c.Ready
    · exact nul_mem_ready csp hready file password
    · exact nul_mem_not_ready csp hopened.1 hopened.2 hready file password
  · rw [dzDecryptFile_closed csp hopened]
    refine iff_of_false ?_ fun h => hopened ⟨h.1, h.2.1⟩
    rintro ⟨t, ht, -⟩
    cases ht

/-! ## Two temp directories -/

section
variable {m : Machine} {c : DecryptCalls} {file : List UInt8} {temp temp' : TempDir}

theorem dzRun_no_path (h : m.getTempPath = false) :
    zendWingDzRunFile csp m c file temp = .ok (temp, .refused none) := by
  rw [zendWingDzRunFile, h]
  rfl

/-- A decision is reached with both ids only. -/
theorem dzRun_ok_iff (htemp : m.getTempPath = true) {d : DzRun} :
    (∃ after, zendWingDzRunFile csp m c file temp = .ok (after, d)) ↔
      ∃ ids, temp.ids m = some ids ∧ d = decided csp c file ids := by
  cases hids : temp.ids m with
  | none =>
    obtain ⟨f, hf⟩ := @dzRun_of_no_ids csp m c file temp htemp hids
    rw [hf]
    refine iff_of_false ?_ ?_
    · rintro ⟨after, h⟩
      cases h
    · rintro ⟨ids, h, -⟩
      cases h
  | some ids =>
    obtain ⟨pid, sn, hpid, hsn, rfl⟩ := ids_eq_some.mp hids
    rw [dzRun_of_ids csp htemp hpid hsn]
    constructor
    · rintro ⟨after, h⟩
      cases h
      exact ⟨_, rfl, rfl⟩
    · rintro ⟨ids, h, rfl⟩
      cases h
      exact ⟨_, rfl⟩

/-- The password tells the ids. -/
theorem decided_inj {ids ids' : List UInt8} (h : decided csp c file ids = decided csp c file ids') :
    ids = ids' := by
  have hpassword (ids : List UInt8) : (decided csp c file ids).encryptPassword = some (passwordOf ids) := by
    unfold decided
    split <;> rfl
  have hsame := congrArg DzRun.encryptPassword h
  rw [hpassword, hpassword] at hsame
  exact passwordOf_inj.mp (Option.some.inj hsame)

theorem sameDecision_iff (htemp : m.getTempPath = true) :
    SameDecision (zendWingDzRunFile csp m c file temp) (zendWingDzRunFile csp m c file temp') ↔
      ∃ ids, temp.ids m = some ids ∧ temp'.ids m = some ids := by
  constructor
  · rintro ⟨after, after', d, hrun, hrun'⟩
    obtain ⟨ids, hids, rfl⟩ := (dzRun_ok_iff csp htemp).mp ⟨after, hrun⟩
    obtain ⟨ids', hids', hd⟩ := (dzRun_ok_iff csp htemp).mp ⟨after', hrun'⟩
    rw [← decided_inj csp hd] at hids'
    exact ⟨ids, hids, hids'⟩
  · rintro ⟨ids, hids, hids'⟩
    obtain ⟨after, hrun⟩ := (dzRun_ok_iff csp htemp).mpr ⟨ids, hids, rfl⟩
    obtain ⟨after', hrun'⟩ := (dzRun_ok_iff csp htemp).mpr ⟨ids, hids', rfl⟩
    exact ⟨after, after', _, hrun, hrun'⟩

/-- There is a file to decrypt. -/
def Opens (c : DecryptCalls) (file : List UInt8) : Prop :=
  c.openSource = true ∧ c.mallocDestination = true ∧ file.length < 0x80000000

theorem decided_evaluates_iff (ids : List UInt8) :
    (decided csp c file ids).Evaluates ↔ ids = wingEncryptKey ∧ Opens c file := by
  unfold decided DzRun.Evaluates
  by_cases hkey : ids = wingEncryptKey
  · rw [if_pos hkey, and_iff_right hkey]
    exact dzEvaluate_iff csp c file (passwordOf ids)
  · rw [if_neg hkey]
    refine iff_of_false ?_ fun h => hkey h.1
    rintro ⟨r, code, hr, hcode⟩
    cases hr
    cases hcode

theorem licensed_iff (htemp : m.getTempPath = true) {ids : List UInt8} (hids : temp.ids m = some ids) :
    Licensed m (zendWingDzRunFile csp m c file temp) ↔
      (ids = wingEncryptKey → Opens c file → m.ids = some ids) := by
  have hdecided : (decided csp c file ids).Evaluates ↔ ids = wingEncryptKey ∧ Opens c file :=
    decided_evaluates_iff csp ids
  constructor
  · intro h hkey hopens
    obtain ⟨after, hrun⟩ := (dzRun_ok_iff csp htemp).mpr ⟨ids, hids, rfl⟩
    rw [hkey]
    exact h after _ hrun (hdecided.mpr ⟨hkey, hopens⟩)
  · intro h after d hrun heval
    obtain ⟨ids', hids', rfl⟩ := (dzRun_ok_iff csp htemp).mp ⟨after, hrun⟩
    rw [hids] at hids'
    cases hids'
    obtain ⟨hkey, hopens⟩ := hdecided.mp heval
    rw [← hkey]
    exact h hkey hopens

/-- **Two temp directories lead to the same**, and to an evaluation on the licensed machine only, when the
ids got with either are there and the same, and are those of the machine if they are the key. -/
theorem dzRun_right_iff (m : Machine) (c : DecryptCalls) (file : List UInt8) (temp temp' : TempDir) :
    (SameDecision (zendWingDzRunFile csp m c file temp) (zendWingDzRunFile csp m c file temp') ∧
      Licensed m (zendWingDzRunFile csp m c file temp) ∧
      Licensed m (zendWingDzRunFile csp m c file temp')) ↔
    m.getTempPath = false ∨ ∃ ids, temp.ids m = some ids ∧ temp'.ids m = some ids ∧
      (ids = wingEncryptKey → Opens c file → m.ids = some ids) := by
  cases htemp : m.getTempPath with
  | false =>
    rw [dzRun_no_path csp htemp, dzRun_no_path csp htemp]
    refine iff_of_true ⟨⟨temp, temp', _, rfl, rfl⟩, ?_, ?_⟩ (.inl rfl)
    · rintro after d hrun ⟨r, code, hr, hcode⟩
      cases hrun
      cases hr
      cases hcode
    · rintro after d hrun ⟨r, code, hr, hcode⟩
      cases hrun
      cases hr
      cases hcode
  | true =>
    rw [sameDecision_iff csp htemp]
    constructor
    · rintro ⟨⟨ids, hids, hids'⟩, hlicensed, -⟩
      exact .inr ⟨ids, hids, hids', (licensed_iff csp htemp hids).mp hlicensed⟩
    · rintro (h | ⟨ids, hids, hids', hkey⟩)
      · cases h
      · exact ⟨⟨ids, hids, hids'⟩, (licensed_iff csp htemp hids).mpr hkey, (licensed_iff csp htemp hids').mpr hkey⟩

end

/-- A machine with a processor and a disk. -/
def otherMachine : Machine where
  processors := ⟨⟨0, 0, 0, 0, 0⟩, 0, [some ⟨[0x41], by decide⟩]⟩
  physicalMedia := ⟨⟨0, 0, 0, 0, 0⟩, 0, [some ⟨[0x20, 0x42, 0x20], by decide⟩]⟩
  crt := ⟨fun v => v = 0x20, rfl, none⟩
  getTempPath := true

/-- The key written to the temp directory of another machine. -/
theorem dzRun_forged :
    ¬ SameDecision
        (zendWingDzRunFile countingCsp otherMachine decryptSucceeds [0x41] ⟨some wingEncryptKey, some []⟩)
        (zendWingDzRunFile countingCsp otherMachine decryptSucceeds [0x41] ⟨none, none⟩) ∧
      ¬ Licensed otherMachine
        (zendWingDzRunFile countingCsp otherMachine decryptSucceeds [0x41] ⟨some wingEncryptKey, some []⟩) := by
  have hforged : TempDir.ids ⟨some wingEncryptKey, some []⟩ otherMachine = some wingEncryptKey := by decide
  have hempty : TempDir.ids ⟨none, none⟩ otherMachine = some [0x41, 0x42] := by decide
  constructor
  · rw [sameDecision_iff _ rfl]
    rintro ⟨ids, hids, hids'⟩
    rw [hforged] at hids
    rw [hempty, ← hids] at hids'
    exact absurd hids' (by decide)
  · rw [licensed_iff _ rfl hforged]
    intro h
    exact absurd (h rfl ⟨rfl, rfl, by decide⟩) (by decide)

/-! ## Run after run -/

theorem cachedText_of_fits {t : List UInt8} (h : 0 ∉ t ∧ t.length < maxSize) : cachedText t = some t := by
  have htext := text_of_not_mem h.1 []
  rw [show text ([] : List UInt8) = [] from rfl, List.append_nil] at htext
  rw [cachedText, if_pos (.inl h.2), List.take_of_length_le (Nat.le_of_lt h.2), htext]

/-- **What is written back is read again.** -/
theorem cachedOr_getD {written id : Option (List UInt8)} {t : List UInt8} (h : cachedOr written id = some t)
    (hfits : ∀ u, id = some u → 0 ∉ u ∧ u.length < maxSize) : cachedOr (some (written.getD t)) id = some t := by
  cases written with
  | none => exact cachedText_of_fits (hfits t h)
  | some bytes => exact h

section
variable {m : Machine} {c : DecryptCalls} {file : List UInt8} {temp after : TempDir} {d : DzRun}

/-- The files a run leaves lead to the same again. -/
theorem dzRun_again (h : zendWingDzRunFile csp m c file temp = .ok (after, d)) :
    zendWingDzRunFile csp m c file after = .ok (after, d) := by
  cases htemp : m.getTempPath with
  | false =>
    rw [dzRun_no_path csp htemp] at h ⊢
    cases h
    rfl
  | true =>
    cases hids : temp.ids m with
    | none =>
      obtain ⟨f, hf⟩ := @dzRun_of_no_ids csp m c file temp htemp hids
      rw [hf] at h
      cases h
    | some ids =>
      obtain ⟨pid, sn, hpid, hsn, rfl⟩ := ids_eq_some.mp hids
      rw [dzRun_of_ids csp htemp hpid hsn] at h
      cases h
      have hpid' : cachedOr (temp.filled pid sn).processorId m.processors.cpuId = some pid :=
        cachedOr_getD hpid fun _ => Com.cpuId_fits
      have hsn' : cachedOr (temp.filled pid sn).serialNumber (m.physicalMedia.serialNumber m.crt) = some sn :=
        cachedOr_getD hsn fun _ => Com.serialNumber_fits
      exact dzRun_of_ids csp htemp hpid' hsn'

/-- Runs one after the other, with nobody else at the files. -/
def dzRuns (m : Machine) (c : DecryptCalls) (file : List UInt8) : Nat → TempDir → Except Fault (List DzRun)
  | 0, _ => .ok []
  | n + 1, temp => do
    let (after, d) ← zendWingDzRunFile csp m c file temp
    let ds ← dzRuns m c file n after
    .ok (d :: ds)

theorem dzRuns_agree (h : zendWingDzRunFile csp m c file temp = .ok (after, d)) (n : Nat) :
    dzRuns csp m c file (n + 1) temp = .ok (List.replicate (n + 1) d) := by
  induction n generalizing temp with
  | zero =>
    rw [dzRuns, h]
    rfl
  | succ n ih =>
    rw [dzRuns, h, ok_bind]
    show (dzRuns csp m c file (n + 1) after >>= _) = _
    rw [ih (dzRun_again csp h)]
    rfl

/-- **On files that only these runs have written, the machine decides.** -/
theorem dzRuns_fresh (htemp : m.getTempPath = true) {ids : List UInt8} (hids : m.ids = some ids) (n : Nat) :
    dzRuns csp m c file (n + 1) ⟨none, none⟩ = .ok (List.replicate (n + 1) (decided csp c file ids)) := by
  obtain ⟨after, hrun⟩ : ∃ after, zendWingDzRunFile csp m c file ⟨none, none⟩ = .ok (after, decided csp c file ids) :=
    (dzRun_ok_iff csp htemp).mpr ⟨ids, hids, rfl⟩
  exact dzRuns_agree csp hrun n

end

end WingPhp.Encrypt
