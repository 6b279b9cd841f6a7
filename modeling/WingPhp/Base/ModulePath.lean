import WingPhp.Lib.SearchPath
import WingPhp.Lib.Memory

/-!
# `wing_get_module_file_name`

The search of `wing_linux/wing_base.c` along `PATH`.  Each candidate is put together in the buffer
of the caller, whose size is an argument that nothing reads.  Texts of the system (`PATH`, names) are
without their NUL; `access` is given by the set of existing files.
-/

namespace WingPhp.Base

open Memory SearchPath

/-- `'/'` and `':'`. -/
def slash : UInt8 := 47
def colon : UInt8 := 58

/-- The text in `sFileName` becomes a directory, and the module name goes behind it. -/
def joinModule (sModuleName sFileName : List UInt8) : Except Fault (List UInt8) := do
  let t ← loadText (some sFileName)
  let nLen := t.length
  let sFileName ← if sFileName[nLen]? ≠ some slash then store sFileName nLen [slash] else .ok sFileName
  store sFileName (nLen + 1) (sModuleName ++ [0])

/-- The loop over `PATH` from `pHead` on; a turn that goes on has gone past a `:`. -/
def searchModule (access : List UInt8 → Bool) (sModuleName : List UInt8) :
    Nat → List UInt8 → List UInt8 → Except Fault (Int × List UInt8)
  | 0, _, sFileName => .ok (-1, sFileName)
  | turns + 1, pHead, sFileName =>
    if pHead = [] then .ok (-1, sFileName)
    else
      match strchr colon pHead with
      | some (dir, pTail) => do
        let sFileName ← store sFileName 0 dir
        let sFileName ← store sFileName dir.length [0]
        let sFileName ← joinModule sModuleName sFileName
        if access (text sFileName) then .ok (0, sFileName)
        else searchModule access sModuleName turns pTail sFileName
      | none => do
        let sFileName ← store sFileName 0 (pHead ++ [0])
        let sFileName ← joinModule sModuleName sFileName
        if access (text sFileName) then .ok (0, sFileName) else .ok (-1, sFileName)

/-- `wing_get_module_file_name`, with what `getenv("PATH")` answers.  The first branch takes the
initial value of `ret` with it. -/
def wingGetModuleFileName (access : List UInt8 → Bool) (path : Option (List UInt8))
    (sModuleName sFileName : List UInt8) (_nSize : Int) : Except Fault (Int × List UInt8) :=
  if slash ∈ sModuleName then do
    let sFileName ← store sFileName 0 (sModuleName ++ [0])
    .ok (-1, sFileName)
  else
    match path with
    | none => .ok (-1, sFileName)
    | some sPath => searchModule access sModuleName sPath.length sPath sFileName

/-! ## What it is for -/

/-- The module in a directory. -/
def moduleIn (name dir : List UInt8) : List UInt8 := dir ++ slash :: name

/-- The result is the first of the directories that has the module, and -1 when none has. -/
def FindsModule (files : List UInt8 → Bool) (name : List UInt8) (dirs : List (List UInt8))
    (r : Except Fault (Int × List UInt8)) : Prop :=
  match (dirs.map (moduleIn name)).find? files with
  | some file => ∃ buf, r = .ok (0, buf) ∧ text buf = file
  | none => ∃ buf, r = .ok (-1, buf)

/-- Every candidate up to the first hit fits into `n` bytes, with its NUL. -/
def CandidatesFit (files : List UInt8 → Bool) (name : List UInt8) (n : Nat) (dirs : List (List UInt8)) :
    Prop :=
  ∀ dir ∈ upTo (fun d => files (moduleIn name d)) dirs, (moduleIn name dir).length + 1 ≤ n

instance (files : List UInt8 → Bool) (name : List UInt8) (n : Nat) (dirs : List (List UInt8)) :
    Decidable (CandidatesFit files name n dirs) := inferInstanceAs (Decidable (∀ _ ∈ _, _))

/-- The directories of `PATH`; there are none when it is not set. -/
def pathDirs (path : Option (List UInt8)) : List (List UInt8) := (path.map (components colon)).getD []

section
variable {files : List UInt8 → Bool} {name : List UInt8}

theorem FindsModule.nil (buf : List UInt8) : FindsModule files name [] (.ok (-1, buf)) := ⟨buf, rfl⟩

theorem findsModule_cons_of_miss {dir : List UInt8} (h : files (moduleIn name dir) = false)
    (dirs : List (List UInt8)) (r : Except Fault (Int × List UInt8)) :
    FindsModule files name (dir :: dirs) r ↔ FindsModule files name dirs r := by
  rw [FindsModule, List.map_cons, List.find?_cons_of_neg (by simp [h])]
  rfl

theorem FindsModule.of_hit {dir : List UInt8} (h : files (moduleIn name dir) = true)
    (dirs : List (List UInt8)) {buf : List UInt8} (hbuf : text buf = moduleIn name dir) :
    FindsModule files name (dir :: dirs) (.ok (0, buf)) := by
  rw [FindsModule, List.map_cons, List.find?_cons_of_pos h]
  exact ⟨buf, rfl, hbuf⟩

theorem not_findsModule_error (dirs : List (List UInt8)) (e : Fault) :
    ¬ FindsModule files name dirs (.error e) := by
  unfold FindsModule
  split
  · rintro ⟨buf, h, -⟩
    cases h
  · rintro ⟨buf, h⟩
    cases h

theorem candidatesFit_cons {n : Nat} {dir : List UInt8} (dirs : List (List UInt8)) :
    CandidatesFit files name n (dir :: dirs) ↔
      (moduleIn name dir).length + 1 ≤ n ∧
        (files (moduleIn name dir) = false → CandidatesFit files name n dirs) := by
  unfold CandidatesFit
  cases h : files (moduleIn name dir) with
  | true => simp [upTo_cons_of_hit (p := fun d => files (moduleIn name d)) dirs h]
  | false => simp [upTo_cons_of_miss (p := fun d => files (moduleIn name d)) dirs h]

/-! ## One candidate -/

/-- Behind a directory stored at the front of the buffer, the whole candidate is as good as stored. -/
theorem store_join {dir : List UInt8} (hdir : 0 ∉ dir) (buf : List UInt8) :
    (store buf 0 (dir ++ [0]) >>= joinModule name) = store buf 0 (moduleIn name dir ++ [0]) := by
  by_cases hfit : (dir ++ [0]).length ≤ buf.length
  · have hstore : store buf 0 (dir ++ [0]) = .ok (dir ++ 0 :: buf.drop (dir ++ [0]).length) := by
      rw [store_ok (by omega)]
      simp
    have hzero : (dir ++ 0 :: buf.drop (dir ++ [0]).length)[dir.length]? ≠ some slash := by
      rw [List.getElem?_append_right (Nat.le_refl _), Nat.sub_self]
      show some 0 ≠ some slash
      decide
    have hjoin : joinModule name (dir ++ 0 :: buf.drop (dir ++ [0]).length) =
        store (dir ++ 0 :: buf.drop (dir ++ [0]).length) dir.length (slash :: (name ++ [0])) := by
      rw [joinModule, loadText_terminated hdir, ok_bind]
      simp only [if_pos hzero]
      exact (store_append _ dir.length [slash] (name ++ [0])).symm
    rw [hstore, ok_bind, hjoin]
    have hdirs : store buf 0 dir = .ok (dir ++ buf.drop dir.length) := by
      rw [store_ok (by rw [List.length_append] at hfit; omega)]
      simp
    have hfirst := store_append buf 0 dir [0]
    rw [hstore, hdirs, ok_bind, Nat.zero_add] at hfirst
    have hwhole := store_append buf 0 dir (slash :: (name ++ [0]))
    rw [hdirs, ok_bind, Nat.zero_add] at hwhole
    have hover := @store_store _ (dir ++ buf.drop dir.length) [0] (slash :: (name ++ [0])) dir.length (by simp)
    rw [← hfirst, ok_bind] at hover
    rw [hover, ← hwhole]
    simp [moduleIn]
  · have hlong : ¬ 0 + (moduleIn name dir ++ [0]).length ≤ buf.length := by
      simp only [moduleIn, List.length_append, List.length_cons, List.length_nil] at hfit ⊢
      omega
    rw [store_outside (by omega), store_outside hlong]
    rfl

/-- A turn of the loop, whichever way the directory got into the buffer. -/
theorem store_candidate (hname : 0 ∉ name) {dir : List UInt8} (hdir : 0 ∉ dir) {buf : List UInt8}
    (hfit : (moduleIn name dir).length + 1 ≤ buf.length) :
    ∃ buf', store buf 0 (moduleIn name dir ++ [0]) = .ok buf' ∧ buf'.length = buf.length ∧
      text buf' = moduleIn name dir := by
  have hok := @store_ok _ buf (moduleIn name dir ++ [0]) 0
    (by rw [List.length_append, Nat.zero_add]; exact hfit)
  refine ⟨_, hok, length_store hok, ?_⟩
  have hfree : 0 ∉ moduleIn name dir := by
    unfold moduleIn
    rw [List.mem_append, List.mem_cons]
    rintro (h | h | h)
    · exact hdir h
    · exact absurd h (by decide)
    · exact hname h
  show text ([] ++ (moduleIn name dir ++ [0] ++ _)) = _
  rw [List.nil_append, List.append_assoc]
  exact text_terminated hfree _

/-! ## The loop -/

theorem searchModule_some {dir pTail buf : List UInt8} (hdir : 0 ∉ dir) (turns : Nat)
    (hchr : strchr colon (dir ++ colon :: pTail) = some (dir, pTail)) :
    searchModule files name (turns + 1) (dir ++ colon :: pTail) buf =
      store buf 0 (moduleIn name dir ++ [0]) >>= fun buf' =>
        if files (text buf') then .ok (0, buf') else searchModule files name turns pTail buf' := by
  have hnil : dir ++ colon :: pTail ≠ [] := by simp
  rw [← store_join hdir, store_append, Nat.zero_add]
  simp only [searchModule, if_neg hnil, hchr]
  cases store buf 0 dir with
  | error e => rfl
  | ok buf₁ => cases h : store buf₁ dir.length [0] <;> simp [h]

theorem searchModule_none {pHead buf : List UInt8} (hfree : 0 ∉ pHead) (hnil : pHead ≠ []) (turns : Nat)
    (hchr : strchr colon pHead = none) :
    searchModule files name (turns + 1) pHead buf =
      store buf 0 (moduleIn name pHead ++ [0]) >>= fun buf' =>
        if files (text buf') then .ok (0, buf') else .ok (-1, buf') := by
  rw [← store_join hfree]
  simp only [searchModule, if_neg hnil, hchr]
  cases store buf 0 (pHead ++ [0]) <;> rfl

/-- One candidate, and the search of what is left. -/
theorem candidate_spec (hname : 0 ∉ name) {dir buf : List UInt8} {dirs : List (List UInt8)} (hdir : 0 ∉ dir)
    {next : List UInt8 → Except Fault (Int × List UInt8)}
    (hright : ∀ buf', buf'.length = buf.length → CandidatesFit files name buf.length dirs →
      FindsModule files name dirs (next buf'))
    (hwrong : ∀ buf', buf'.length = buf.length → ¬ CandidatesFit files name buf.length dirs →
      next buf' = .error .outside) :
    (CandidatesFit files name buf.length (dir :: dirs) →
      FindsModule files name (dir :: dirs) (store buf 0 (moduleIn name dir ++ [0]) >>= fun buf' =>
        if files (text buf') then .ok (0, buf') else next buf')) ∧
    (¬ CandidatesFit files name buf.length (dir :: dirs) →
      (store buf 0 (moduleIn name dir ++ [0]) >>= fun buf' =>
        if files (text buf') then .ok (0, buf') else next buf') = .error .outside) := by
  rw [candidatesFit_cons]
  by_cases hfit : (moduleIn name dir).length + 1 ≤ buf.length
  · obtain ⟨buf', hstore, hbuf, htext⟩ := store_candidate hname hdir hfit
    rw [hstore, ok_bind, htext]
    cases hhit : files (moduleIn name dir) with
    | true => exact ⟨fun _ => .of_hit hhit _ htext, fun h => absurd ⟨hfit, fun h => nomatch h⟩ h⟩
    | false =>
      rw [findsModule_cons_of_miss hhit]
      exact ⟨fun h => hright buf' hbuf (h.2 rfl), fun h => hwrong buf' hbuf fun hf => h ⟨hfit, fun _ => hf⟩⟩
  · rw [store_outside (by rw [List.length_append]; simp; omega)]
    exact ⟨fun h => absurd h.1 hfit, fun _ => rfl⟩

/-- **The search** finds the module as long as its candidates fit, and leaves the buffer otherwise. -/
theorem searchModule_spec (hname : 0 ∉ name) :
    ∀ (turns : Nat) (pHead buf : List UInt8), pHead.length ≤ turns → 0 ∉ pHead →
      (CandidatesFit files name buf.length (components colon pHead) →
        FindsModule files name (components colon pHead) (searchModule files name turns pHead buf)) ∧
      (¬ CandidatesFit files name buf.length (components colon pHead) →
        searchModule files name turns pHead buf = .error .outside) := by
  have hend (buf : List UInt8) : CandidatesFit files name buf.length [] := fun _ hd => nomatch hd
  intro turns
  induction turns with
  | zero =>
    intro pHead buf hlen _
    obtain rfl : pHead = [] := List.eq_nil_of_length_eq_zero (by omega)
    exact ⟨fun _ => .nil buf, fun h => absurd (hend buf) h⟩
  | succ turns ih =>
    intro pHead buf hlen hfree
    by_cases hnil : pHead = []
    · subst hnil
      exact ⟨fun _ => .nil buf, fun h => absurd (hend buf) h⟩
    · cases hchr : strchr colon pHead with
      | some cut =>
        obtain ⟨dir, pTail⟩ := cut
        obtain ⟨rfl, -⟩ := strchr_eq_some hchr
        have hdir : 0 ∉ dir := fun h => hfree (List.mem_append_left _ h)
        have htail : 0 ∉ pTail := fun h => hfree (List.mem_append_right _ (List.mem_cons_of_mem _ h))
        have hshort := length_of_strchr hchr
        rw [searchModule_some hdir turns hchr, components_of_strchr hchr]
        refine candidate_spec hname hdir (fun buf' hbuf => ?_) (fun buf' hbuf => ?_)
        · exact hbuf ▸ (ih pTail buf' (by omega) htail).1
        · exact hbuf ▸ (ih pTail buf' (by omega) htail).2
      | none =>
        rw [searchModule_none hfree hnil turns hchr, components_of_none hchr, if_neg hnil]
        exact candidate_spec hname hfree (fun buf' _ _ => .nil buf') (fun _ _ h => absurd (hend buf) h)

theorem wingGetModuleFileName_spec (hname : 0 ∉ name) (hslash : slash ∉ name) {path : Option (List UInt8)}
    (hpath : ∀ p, path = some p → 0 ∉ p) (sFileName : List UInt8) (nSize : Int) :
    (CandidatesFit files name sFileName.length (pathDirs path) →
      FindsModule files name (pathDirs path) (wingGetModuleFileName files path name sFileName nSize)) ∧
    (¬ CandidatesFit files name sFileName.length (pathDirs path) →
      wingGetModuleFileName files path name sFileName nSize = .error .outside) := by
  simp only [wingGetModuleFileName, if_neg hslash]
  cases path with
  | none => exact ⟨fun _ => .nil sFileName, fun h => absurd (fun _ hd => nomatch hd) h⟩
  | some p => exact searchModule_spec hname p.length p sFileName (Nat.le_refl _) (hpath p rfl)

/-- A hit in front decides. -/
theorem findsModule_append_of_hit {dirs : List (List UInt8)} {dir : List UInt8} (hmem : dir ∈ dirs)
    (h : files (moduleIn name dir) = true) (more : List (List UInt8))
    (r : Except Fault (Int × List UInt8)) :
    FindsModule files name (dirs ++ more) r ↔ FindsModule files name dirs r := by
  have hfind : ((dirs.map (moduleIn name)).find? files).isSome := by
    rw [List.find?_isSome]
    exact ⟨moduleIn name dir, List.mem_map_of_mem hmem, h⟩
  obtain ⟨file, hfile⟩ := Option.isSome_iff_exists.mp hfind
  rw [FindsModule, FindsModule, List.map_append, List.find?_append, hfile]
  rfl

theorem findsModule_append_of_miss {dirs : List (List UInt8)}
    (h : ∀ dir ∈ dirs, files (moduleIn name dir) = false) (more : List (List UInt8))
    (r : Except Fault (Int × List UInt8)) :
    FindsModule files name (dirs ++ more) r ↔ FindsModule files name more r := by
  induction dirs with
  | nil => exact Iff.rfl
  | cons dir dirs ih =>
    rw [List.cons_append, findsModule_cons_of_miss (h dir List.mem_cons_self)]
    exact ih fun d hd => h d (List.mem_cons_of_mem _ hd)

/-- With an empty piece at the end of the path counted as a directory. -/
theorem findsModule_splitOn {p : List UInt8} {r : Except Fault (Int × List UInt8)}
    (hr : FindsModule files name (components colon p) r) :
    FindsModule files name (p.splitOn colon) r ↔
      (final colon p = [] → files (moduleIn name []) = true →
        ∃ dir ∈ components colon p, files (moduleIn name dir) = true) := by
  rw [splitOn_eq]
  by_cases hfin : final colon p = []
  · have hcomp : components colon p = terminated colon p := by
      rw [components, if_pos hfin, List.append_nil]
    rw [hcomp] at hr ⊢
    rw [hfin]
    by_cases hhit : ∃ dir ∈ terminated colon p, files (moduleIn name dir) = true
    · obtain ⟨dir, hmem, h⟩ := hhit
      rw [findsModule_append_of_hit hmem h]
      exact ⟨fun _ _ _ => ⟨dir, hmem, h⟩, fun _ => hr⟩
    · have hmiss : ∀ dir ∈ terminated colon p, files (moduleIn name dir) = false := by
        intro dir hmem
        by_contra hne
        exact hhit ⟨dir, hmem, by simpa using hne⟩
      have hfail : ∃ buf, r = .ok (-1, buf) := by
        rw [← List.append_nil (terminated colon p), findsModule_append_of_miss hmiss] at hr
        exact hr
      obtain ⟨buf, rfl⟩ := hfail
      rw [findsModule_append_of_miss hmiss]
      cases hlast : files (moduleIn name []) with
      | true =>
        constructor
        · intro h
          rw [FindsModule, List.map_cons, List.find?_cons_of_pos hlast] at h
          obtain ⟨_, heq, -⟩ := h
          exact absurd (congrArg (Except.map Prod.fst) heq) (by simp [Except.map])
        · intro h
          exact absurd (h rfl rfl) hhit
      | false =>
        exact ⟨fun _ _ h => absurd h (by decide), fun _ => (findsModule_cons_of_miss hlast _ _).mpr (.nil buf)⟩
  · have hcomp : components colon p = terminated colon p ++ [final colon p] := by
      rw [components, if_neg hfin]
    rw [← hcomp]
    exact ⟨fun _ h => absurd h hfin, fun _ => hr⟩

end

/-- **The first directory with the module is found** exactly if every candidate tried up to there fits
into the buffer; the size the caller gives is not asked for.  When an empty piece at the end of `PATH`
counts as a directory too, it is found unless it is the first to have the module. -/
theorem wingGetModuleFileName_right_iff (files : List UInt8 → Bool) {name : List UInt8} (hname : 0 ∉ name)
    (hslash : slash ∉ name) {path : Option (List UInt8)} (hpath : ∀ p, path = some p → 0 ∉ p)
    {sFileName : List UInt8} {nSize : Int} (hsize : nSize = sFileName.length) :
    (FindsModule files name (pathDirs path) (wingGetModuleFileName files path name sFileName nSize) ↔
      CandidatesFit files name nSize.toNat (pathDirs path)) ∧
    ∀ p, path = some p →
      (FindsModule files name (p.splitOn colon) (wingGetModuleFileName files path name sFileName nSize) ↔
        CandidatesFit files name nSize.toNat (pathDirs path) ∧
          (final colon p = [] → files (moduleIn name []) = true →
            ∃ dir ∈ pathDirs path, files (moduleIn name dir) = true)) := by
  obtain ⟨hright, hwrong⟩ := @wingGetModuleFileName_spec files _ hname hslash _ hpath sFileName nSize
  have hn : nSize.toNat = sFileName.length := by omega
  rw [hn]
  have hfault : ∀ dirs, FindsModule files name dirs
      (wingGetModuleFileName files path name sFileName nSize) →
      CandidatesFit files name sFileName.length (pathDirs path) := by
    intro dirs h
    by_contra hfit
    rw [hwrong hfit] at h
    exact not_findsModule_error dirs _ h
  refine ⟨⟨hfault _, hright⟩, ?_⟩
  rintro p rfl
  constructor
  · intro h
    exact ⟨hfault _ h, (findsModule_splitOn (hright (hfault _ h))).mp h⟩
  · rintro ⟨hfit, hlast⟩
    exact (findsModule_splitOn (hright hfit)).mpr hlast

/-- `php` in `/b`, looked for in `/aa:/b` with 8 bytes to write to. -/
theorem wingGetModuleFileName_second :
    FindsModule (fun f => f = [47, 98, 47, 112, 104, 112]) [112, 104, 112] [[47, 97, 97], [47, 98]]
      (wingGetModuleFileName (fun f => f = [47, 98, 47, 112, 104, 112]) (some [47, 97, 97, 58, 47, 98])
        [112, 104, 112] (List.replicate 8 0) 8) :=
  have hfree : ∀ p : List UInt8, some [47, 97, 97, 58, 47, 98] = some p → 0 ∉ p := by
    intro p hp
    rw [← Option.some.inj hp]
    decide
  (@wingGetModuleFileName_right_iff (fun f => f = [47, 98, 47, 112, 104, 112]) [112, 104, 112] (by decide)
    (by decide) _ hfree (List.replicate 8 0) 8 rfl).1.mpr (by decide)

/-- No `/a/php` is there, and 6 bytes are too few to find that out. -/
theorem wingGetModuleFileName_overrun :
    ∃ (files : List UInt8 → Bool) (path name buf : List UInt8) (nSize : Int), 0 ∉ name ∧ slash ∉ name ∧ 0 ∉ path ∧
      nSize = buf.length ∧
      ¬ FindsModule files name (components colon path) (wingGetModuleFileName files (some path) name buf nSize) :=
  ⟨fun _ => false, [47, 97], [112, 104, 112], List.replicate 6 0, 6, by decide, by decide, by decide, rfl, by
    intro h
    have hrun : wingGetModuleFileName (fun _ => false) (some [47, 97]) [112, 104, 112] (List.replicate 6 0) 6 =
        .error .outside := by decide
    rw [hrun] at h
    exact not_findsModule_error _ _ h⟩

end WingPhp.Base
