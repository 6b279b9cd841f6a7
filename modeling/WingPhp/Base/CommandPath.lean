import WingPhp.Lib.SearchPath
import WingPhp.Lib.Memory

/-!
# `wing_get_command_path`

The search of `wing_base.c` along `PATH`, with `strncpy_s` into a buffer of its own and `sprintf_s`
into the result, both of `MAX_PATH` bytes.  `strncpy_s` is told a size made of the piece it copies;
`sprintf_s` is told the right one, and calls the invalid parameter handler when the text does not fit.
The handler ends the process, or returns and leaves an empty text (`resumes`).

Texts are without their NUL; `PathFileExists` is given by the set of existing files.
-/

namespace WingPhp.Base

open Memory SearchPath

/-- `MAX_PATH`. -/
def maxPath : Nat := 260

/-- `';'` and `'\\'`. -/
def semicolon : UInt8 := 59
def backslash : UInt8 := 92

/-- `".exe"` and `".bat"`. -/
def dotExe : List UInt8 := [46, 101, 120, 101]
def dotBat : List UInt8 := [46, 98, 97, 116]

/-- Why the search does not return. -/
inductive Stopped where
  | overrun
  | invalidParameter
  deriving DecidableEq, Repr

/-- `strncpy_s( dest, size, src, src.length )`: `size` is what it is told, `dest` is what is there. -/
def strncpyS (dest : List UInt8) (size : Nat) (src : List UInt8) : Except Stopped (List UInt8) :=
  if size ≤ src.length then .error .invalidParameter
  else
    match store dest 0 (src ++ [0]) with
    | .ok dest => .ok dest
    | .error _ => .error .overrun

/-- `sprintf_s( path, MAX_PATH, .. )`: the text that is in `path` afterwards. -/
def sprintfS (resumes : Bool) (t : List UInt8) : Except Stopped (List UInt8) :=
  if t.length + 1 ≤ maxPath then .ok t else if resumes then .ok [] else .error .invalidParameter

/-- `"%s\\%s.exe"` and its like. -/
def commandIn (name suffix dir : List UInt8) : List UInt8 := dir ++ backslash :: (name ++ suffix)

/-- The loop over `PATH` from `var_begin` on.  `start` is where `var_begin` is. -/
def searchCommand (exist : List UInt8 → Bool) (resumes : Bool) (name : List UInt8) :
    Nat → List UInt8 → List UInt8 → Except Stopped (List UInt8)
  | 0, _, _ => .ok []
  | turns + 1, varBegin, tempPath =>
    match strchr semicolon varBegin with
    | none => .ok []
    | some (piece, rest) => do
      let tempPath ← strncpyS tempPath (piece.length + 6 + 1) piece
      let path ← sprintfS resumes (commandIn name dotExe (text tempPath))
      if exist path then .ok path
      else do
        let path ← sprintfS resumes (commandIn name dotBat (text tempPath))
        if exist path then .ok path else searchCommand exist resumes name turns rest tempPath

/-- `wing_get_command_path`. -/
def wingGetCommandPath (exist : List UInt8 → Bool) (resumes : Bool) (envVar name : List UInt8) :
    Except Stopped (List UInt8) :=
  searchCommand exist resumes name envVar.length envVar (malloc maxPath)

/-! ## What it is for -/

section
variable (files : List UInt8 → Bool) (name : List UInt8)

/-- The command in a directory, `.exe` before `.bat`. -/
def commandAt (dir : List UInt8) : Option (List UInt8) :=
  [commandIn name dotExe dir, commandIn name dotBat dir].find? files

/-- In the first directory that has it; empty when there is none. -/
def commandPath (dirs : List (List UInt8)) : List UInt8 := (dirs.findSome? (commandAt files name)).getD []

/-- The search gets past a directory, or finds the command there. -/
def Passable (resumes : Bool) (dir : List UInt8) : Prop :=
  dir.length + 1 ≤ maxPath ∧
    ((commandIn name dotExe dir).length + 1 ≤ maxPath ∨ (resumes = true ∧ commandAt files name dir = none))

instance (resumes : Bool) (dir : List UInt8) : Decidable (Passable files name resumes dir) :=
  inferInstanceAs (Decidable (_ ∧ _))

/-- The search gets past every one of these directories up to the first hit; when there is no hit
among them, there is none among `more` either. -/
def Tried (resumes : Bool) (dirs more : List (List UInt8)) : Prop :=
  (∀ dir ∈ upTo (fun d => (commandAt files name d).isSome) dirs, Passable files name resumes dir) ∧
  (dirs.findSome? (commandAt files name) = none → more.findSome? (commandAt files name) = none)

instance (resumes : Bool) (dirs more : List (List UInt8)) : Decidable (Tried files name resumes dirs more) :=
  inferInstanceAs (Decidable (_ ∧ _))

/-- As `Tried`, of the directories that a `;` ends and of the last one, if none does. -/
def Searchable (resumes : Bool) (path : List UInt8) : Prop :=
  Tried files name resumes (terminated semicolon path)
    (if final semicolon path = [] then [] else [final semicolon path])

instance (resumes : Bool) (path : List UInt8) : Decidable (Searchable files name resumes path) :=
  inferInstanceAs (Decidable (Tried _ _ _ _ _))

end

section
variable {files : List UInt8 → Bool} {name : List UInt8} {resumes : Bool}

theorem length_commandIn (suffix dir : List UInt8) :
    (commandIn name suffix dir).length = dir.length + 1 + name.length + suffix.length := by
  simp only [commandIn, List.length_append, List.length_cons]
  omega

/-- Both names of a command are of one length. -/
theorem length_dotBat (dir : List UInt8) :
    (commandIn name dotBat dir).length = (commandIn name dotExe dir).length := by
  rw [length_commandIn, length_commandIn]
  rfl

theorem length_of_commandAt {dir file : List UInt8} (h : commandAt files name dir = some file) :
    file.length = (commandIn name dotExe dir).length := by
  have hmem := List.mem_of_find?_eq_some h
  rw [List.mem_cons, List.mem_singleton] at hmem
  rcases hmem with rfl | rfl
  · rfl
  · exact length_dotBat dir

/-! ## The loop -/

/-- What a turn does once the piece is in `_temp_path`. -/
def afterCopy (files : List UInt8 → Bool) (name : List UInt8) (resumes : Bool) (dir : List UInt8)
    (next : Except Stopped (List UInt8)) : Except Stopped (List UInt8) :=
  if (commandIn name dotExe dir).length + 1 ≤ maxPath then
    match commandAt files name dir with
    | some file => .ok file
    | none => next
  else if resumes then next else .error .invalidParameter

theorem sprintf_exist (hempty : files [] = false) (dir : List UInt8) (next : Except Stopped (List UInt8)) :
    (do
      let path ← sprintfS resumes (commandIn name dotExe dir)
      if files path then .ok path
      else do
        let path ← sprintfS resumes (commandIn name dotBat dir)
        if files path then .ok path else next) = afterCopy files name resumes dir next := by
  unfold afterCopy sprintfS
  rw [length_dotBat]
  by_cases hfit : (commandIn name dotExe dir).length + 1 ≤ maxPath
  · rw [if_pos hfit, if_pos hfit, if_pos hfit, ok_bind, ok_bind, commandAt]
    cases hexe : files (commandIn name dotExe dir) with
    | true => rw [List.find?_cons_of_pos hexe]; rfl
    | false =>
      rw [List.find?_cons_of_neg (by simp [hexe])]
      cases hbat : files (commandIn name dotBat dir) with
      | true => rw [List.find?_cons_of_pos hbat]; rfl
      | false => rw [List.find?_cons_of_neg (by simp [hbat])]; rfl
  · rw [if_neg hfit, if_neg hfit, if_neg hfit]
    cases resumes with
    | true => simp [hempty]
    | false => rfl

/-- **One turn.** -/
theorem searchCommand_turn (hempty : files [] = false) {varBegin dir rest tempPath : List UInt8}
    (hchr : strchr semicolon varBegin = some (dir, rest)) (hfree : 0 ∉ dir)
    (htemp : tempPath.length = maxPath) (turns : Nat) :
    (¬ dir.length + 1 ≤ maxPath →
      searchCommand files resumes name (turns + 1) varBegin tempPath = .error .overrun) ∧
    (dir.length + 1 ≤ maxPath → ∃ tempPath', tempPath'.length = maxPath ∧
      searchCommand files resumes name (turns + 1) varBegin tempPath =
        afterCopy files name resumes dir (searchCommand files resumes name turns rest tempPath')) := by
  have hsize : ¬ dir.length + 6 + 1 ≤ dir.length := by omega
  simp only [searchCommand, hchr, strncpyS, if_neg hsize]
  constructor
  · intro hlong
    rw [store_outside (by rw [List.length_append, htemp]; exact fun h => hlong (by simpa using h))]
    rfl
  · intro hfit
    have hok := @store_ok _ tempPath (dir ++ [0]) 0 (by rw [List.length_append, htemp]; simpa using hfit)
    refine ⟨_, (length_store hok).trans htemp, ?_⟩
    have htext : text (tempPath.take 0 ++ (dir ++ [0] ++ tempPath.drop (0 + (dir ++ [0]).length))) = dir := by
      show text ([] ++ (dir ++ [0] ++ _)) = _
      rw [List.nil_append, List.append_assoc]
      exact text_terminated hfree _
    rw [hok]
    simp only [ok_bind]
    rw [htext]
    exact sprintf_exist hempty dir _

theorem searchCommand_length (hempty : files [] = false) :
    ∀ (turns : Nat) (varBegin tempPath path : List UInt8), 0 ∉ varBegin → tempPath.length = maxPath →
      searchCommand files resumes name turns varBegin tempPath = .ok path → path.length + 1 ≤ maxPath := by
  intro turns
  induction turns with
  | zero =>
    intro varBegin tempPath path _ _ h
    cases h
    decide
  | succ turns ih =>
    intro varBegin tempPath path hfree htemp h
    cases hchr : strchr semicolon varBegin with
    | none =>
      simp only [searchCommand, hchr] at h
      cases h
      decide
    | some cut =>
      obtain ⟨dir, rest⟩ := cut
      obtain ⟨rfl, -⟩ := strchr_eq_some hchr
      have hdir : 0 ∉ dir := fun h => hfree (List.mem_append_left _ h)
      have hrest : 0 ∉ rest := fun h => hfree (List.mem_append_right _ (List.mem_cons_of_mem _ h))
      obtain ⟨hover, hgo⟩ := @searchCommand_turn _ name resumes hempty _ _ _ _ hchr hdir htemp turns
      by_cases hfit : dir.length + 1 ≤ maxPath
      · obtain ⟨temp', htemp', hturn⟩ := hgo hfit
        rw [hturn, afterCopy] at h
        split at h
        · next hshort =>
          split at h
          · next file hfile =>
            cases h
            rw [length_of_commandAt hfile]
            exact hshort
          · exact ih _ _ _ hrest htemp' h
        · split at h
          · exact ih _ _ _ hrest htemp' h
          · cases h
      · rw [hover hfit] at h
        cases h

/-- With no piece left, nothing is answered. -/
theorem commandPath_eq_nil_iff {dirs : List (List UInt8)} :
    commandPath files name dirs = [] ↔ dirs.findSome? (commandAt files name) = none := by
  unfold commandPath
  cases h : dirs.findSome? (commandAt files name) with
  | none => simp
  | some file =>
    obtain ⟨dir, -, hfile⟩ := List.exists_of_findSome?_eq_some h
    have hlen := length_of_commandAt hfile
    rw [length_commandIn] at hlen
    have hne : file ≠ [] := List.ne_nil_of_length_pos (by omega)
    simp [hne]

theorem commandPath_cons_of_hit {dir file : List UInt8} (h : commandAt files name dir = some file)
    (dirs : List (List UInt8)) : commandPath files name (dir :: dirs) = file := by
  rw [commandPath, List.findSome?_cons, h]
  rfl

theorem commandPath_cons_of_miss {dir : List UInt8} (h : commandAt files name dir = none)
    (dirs : List (List UInt8)) : commandPath files name (dir :: dirs) = commandPath files name dirs := by
  rw [commandPath, List.findSome?_cons, h]
  rfl

theorem tried_nil (more : List (List UInt8)) :
    Tried files name resumes [] more ↔ commandPath files name more = [] := by
  rw [commandPath_eq_nil_iff]
  exact ⟨fun h => h.2 rfl, fun h => ⟨fun _ hd => (nomatch hd), fun _ => h⟩⟩

theorem tried_cons_of_hit {dir file : List UInt8} (h : commandAt files name dir = some file)
    (dirs more : List (List UInt8)) :
    Tried files name resumes (dir :: dirs) more ↔ Passable files name resumes dir := by
  unfold Tried
  rw [upTo_cons_of_hit dirs (by rw [h]; rfl), List.findSome?_cons, h]
  simp

theorem tried_cons_of_miss {dir : List UInt8} (h : commandAt files name dir = none)
    (dirs more : List (List UInt8)) :
    Tried files name resumes (dir :: dirs) more ↔
      Passable files name resumes dir ∧ Tried files name resumes dirs more := by
  unfold Tried
  rw [upTo_cons_of_miss dirs (by rw [h]; rfl), List.findSome?_cons, h, List.forall_mem_cons, and_assoc]

theorem not_tried_cons {dir : List UInt8} (h : ¬ Passable files name resumes dir)
    (dirs more : List (List UInt8)) : ¬ Tried files name resumes (dir :: dirs) more := by
  cases hat : commandAt files name dir with
  | some file => rwa [tried_cons_of_hit hat]
  | none =>
    rw [tried_cons_of_miss hat]
    exact fun ht => h ht.1

/-- A copied piece, and the search of what is left. -/
theorem afterCopy_iff {dir : List UInt8} (hfit : dir.length + 1 ≤ maxPath) {dirs more : List (List UInt8)}
    {next : Except Stopped (List UInt8)}
    (hnext : next = .ok (commandPath files name (dirs ++ more)) ↔ Tried files name resumes dirs more)
    (hshorter : ∀ path, next = .ok path → path.length + 1 ≤ maxPath) :
    afterCopy files name resumes dir next = .ok (commandPath files name (dir :: (dirs ++ more))) ↔
      Tried files name resumes (dir :: dirs) more := by
  unfold afterCopy
  by_cases hshort : (commandIn name dotExe dir).length + 1 ≤ maxPath
  · have hpass : Passable files name resumes dir := ⟨hfit, .inl hshort⟩
    rw [if_pos hshort]
    cases hat : commandAt files name dir with
    | some file =>
      rw [commandPath_cons_of_hit hat, tried_cons_of_hit hat]
      exact iff_of_true rfl hpass
    | none =>
      rw [commandPath_cons_of_miss hat, tried_cons_of_miss hat]
      exact hnext.trans ⟨fun h => ⟨hpass, h⟩, fun h => h.2⟩
  · rw [if_neg hshort]
    cases resumes with
    | false =>
      have hstop : ¬ Passable files name false dir := by
        rintro ⟨-, h | ⟨h, -⟩⟩
        · exact hshort h
        · cases h
      exact iff_of_false (fun h => nomatch h) (not_tried_cons hstop _ _)
    | true =>
      rw [if_pos rfl]
      cases hat : commandAt files name dir with
      | some file =>
        -- what `sprintf_s` leaves is shorter than the hit it could not write
        refine iff_of_false ?_ ?_
        · intro h
          rw [commandPath_cons_of_hit hat] at h
          have hlen := hshorter file h
          rw [length_of_commandAt hat] at hlen
          exact hshort hlen
        · rw [tried_cons_of_hit hat]
          rintro ⟨-, h | ⟨-, h⟩⟩
          · exact hshort h
          · rw [hat] at h
            cases h
      | none =>
        rw [commandPath_cons_of_miss hat, tried_cons_of_miss hat]
        exact hnext.trans ⟨fun h => ⟨⟨hfit, .inr ⟨rfl, hat⟩⟩, h⟩, fun h => h.2⟩

/-- **The search** answers the first hit exactly if it gets past every directory tried, and no hit is
behind the last `;`. -/
theorem searchCommand_iff (hempty : files [] = false) :
    ∀ (turns : Nat) (varBegin tempPath : List UInt8), varBegin.length ≤ turns → 0 ∉ varBegin →
      tempPath.length = maxPath → ∀ more : List (List UInt8),
      (searchCommand files resumes name turns varBegin tempPath =
          .ok (commandPath files name (terminated semicolon varBegin ++ more)) ↔
        Tried files name resumes (terminated semicolon varBegin) more) := by
  intro turns
  induction turns with
  | zero =>
    intro varBegin tempPath hlen _ _ more
    obtain rfl : varBegin = [] := List.eq_nil_of_length_eq_zero (by omega)
    show Except.ok [] = Except.ok (commandPath files name more) ↔ Tried files name resumes [] more
    rw [tried_nil, Except.ok.injEq, eq_comm]
  | succ turns ih =>
    intro varBegin tempPath hlen hfree htemp more
    cases hchr : strchr semicolon varBegin with
    | none =>
      simp only [searchCommand, hchr]
      rw [(split_of_none hchr).1, List.nil_append, tried_nil, Except.ok.injEq, eq_comm]
    | some cut =>
      obtain ⟨dir, rest⟩ := cut
      have hshorter := length_of_strchr hchr
      have hdir : 0 ∉ dir := fun h => hfree ((strchr_eq_some hchr).1 ▸ List.mem_append_left _ h)
      have hrest : 0 ∉ rest := fun h =>
        hfree ((strchr_eq_some hchr).1 ▸ List.mem_append_right _ (List.mem_cons_of_mem _ h))
      rw [terminated_of_strchr hchr, List.cons_append]
      obtain ⟨hover, hgo⟩ := @searchCommand_turn _ name resumes hempty _ _ _ _ hchr hdir htemp turns
      by_cases hfit : dir.length + 1 ≤ maxPath
      · obtain ⟨temp', htemp', hturn⟩ := hgo hfit
        rw [hturn]
        exact afterCopy_iff hfit (ih rest temp' (by omega) hrest htemp' more) fun path h =>
          searchCommand_length hempty turns rest temp' path hrest htemp' h
      · rw [hover hfit]
        exact iff_of_false (fun h => nomatch h) (not_tried_cons (fun h => hfit h.1) _ _)

end

/-- **The first directory with the command is found** exactly if every one up to there that a `;` ends
fits into the buffers (or has no command, when `sprintf_s` comes back), and no command waits in a last
directory without `;`. -/
theorem wingGetCommandPath_right_iff {files : List UInt8 → Bool} (hempty : files [] = false) (resumes : Bool)
    {path : List UInt8} (hpath : 0 ∉ path) (name : List UInt8) :
    wingGetCommandPath files resumes path name = .ok (commandPath files name (components semicolon path)) ↔
      Searchable files name resumes path := by
  unfold wingGetCommandPath components
  exact searchCommand_iff hempty path.length path (malloc maxPath) (Nat.le_refl _) hpath (length_malloc _) _

/-- `a.bat` in `\b`, found in `\a;\b;`. -/
theorem wingGetCommandPath_second :
    wingGetCommandPath (fun f => f = [92, 98, 92, 97, 46, 98, 97, 116]) false [92, 97, 59, 92, 98, 59] [97] =
      .ok (commandPath (fun f => f = [92, 98, 92, 97, 46, 98, 97, 116]) [97]
        (components semicolon [92, 97, 59, 92, 98, 59])) :=
  (wingGetCommandPath_right_iff (by decide) false (by decide) [97]).mpr (by decide)

/-- Without the last `;` it is not. -/
theorem wingGetCommandPath_last :
    ¬ ∀ (files : List UInt8 → Bool) (resumes : Bool) (path name : List UInt8), files [] = false → 0 ∉ path →
      wingGetCommandPath files resumes path name =
        .ok (commandPath files name (components semicolon path)) := by
  intro h
  have hrun := h (fun f => f = [92, 98, 92, 97, 46, 98, 97, 116]) false [92, 97, 59, 92, 98] [97] (by decide)
    (by decide)
  unfold wingGetCommandPath components at hrun
  rw [searchCommand_iff (by decide) _ _ _ (Nat.le_refl _) (by decide) (length_malloc _)] at hrun
  revert hrun
  decide

end WingPhp.Base
