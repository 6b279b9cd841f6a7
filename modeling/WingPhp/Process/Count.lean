import Mathlib.Data.List.Nodup
import Mathlib.Data.List.Count
import WingPhp.Process.Query

/-!
# Counting and filling

The first call of `wing_query_process` counts the entries of the chain except the last, and
the calling process and its children from Toolhelp.  The second call fills an array
of that many cells; it tests its bound after each write, so it stays inside exactly when it
finds no more than was counted (`fill_inside_iff`).  On one unchanged system it always
does; `listed_once_iff` says when its list is then right: the last entry of the chain is
dropped, and the children of the caller are listed once by each loop.
-/

namespace WingPhp.Process

open LateTest

variable (caller : UInt32)

/-- The entries the Toolhelp loop takes. -/
def taken (hasCurrent : Bool) (e : ProcessEntry) : Bool :=
  !(hasCurrent && decide (e.th32ProcessID = caller)) &&
    (decide (e.th32ProcessID = caller) || decide (e.th32ParentProcessID = caller))

/-- The caller stands in the chain before its last entry. -/
def callerSeen (chain : List SystemProcess) : Bool :=
  chain.dropLast.any fun p => decide (p.processId = caller)

/-! ## The loops -/

theorem toolhelpLoop_count (commandLine : List UInt8) (start : Nat) (maxCount : Int)
    (hasCurrent : Bool) (entries : List ProcessEntry) (t : Nat) (written : List (Nat × ProcessInfo)) :
    toolhelpLoop caller commandLine false start maxCount hasCurrent entries t written =
      (t + (entries.filter (taken caller hasCurrent)).length, written) := by
  induction entries generalizing t with
  | nil => rfl
  | cons e entries ih =>
    rw [toolhelpLoop]
    by_cases hown : (hasCurrent && decide (e.th32ProcessID = caller)) = true
    · rw [if_pos hown, ih]
      simp [taken, hown]
    · by_cases hother : e.th32ProcessID ≠ caller ∧ e.th32ParentProcessID ≠ caller
      · rw [if_neg hown, if_pos hother, ih]
        simp [taken, hother.1, hother.2]
      · have htaken : taken caller hasCurrent e = true := by
          unfold taken
          grind
        rw [if_neg hown, if_neg hother, Bool.not_false, if_pos rfl, ih, List.filter_cons_of_pos htaken,
          List.length_cons, Nat.add_right_comm, Nat.add_assoc]

theorem toolhelpLoop_fill (commandLine : List UInt8) (start maxCount : Nat) (hasCurrent : Bool)
    (entries : List ProcessEntry) (t : Nat) (written : List (Nat × ProcessInfo)) :
    toolhelpLoop caller commandLine true start ((maxCount : Int) - start) hasCurrent entries t
        written =
      (t + (fillLate maxCount ((entries.filter (taken caller hasCurrent)).map
          (entryProcessInfo caller commandLine)) (start + t)).length,
        written ++ fillLate maxCount ((entries.filter (taken caller hasCurrent)).map
          (entryProcessInfo caller commandLine)) (start + t)) := by
  induction entries generalizing t written with
  | nil => simp [toolhelpLoop]
  | cons e entries ih =>
    rw [toolhelpLoop]
    by_cases hown : (hasCurrent && decide (e.th32ProcessID = caller)) = true
    · rw [if_pos hown, ih, List.filter_cons_of_neg (by simp [taken, hown])]
    · by_cases hother : e.th32ProcessID ≠ caller ∧ e.th32ParentProcessID ≠ caller
      · rw [if_neg hown, if_pos hother, ih,
          List.filter_cons_of_neg (by simp [taken, hother.1, hother.2])]
      · have htaken : taken caller hasCurrent e = true := by
          unfold taken
          grind
        rw [if_neg hown, if_neg hother, List.filter_cons_of_pos htaken, List.map_cons, fillLate_cons]
        simp only [Bool.not_true, Bool.false_eq_true, if_false]
        by_cases hstop : maxCount < start + t + 1
        · rw [if_pos (by omega), if_pos hstop]
          simp
        · rw [if_neg (by omega), if_neg hstop, ih]
          simp [Nat.add_assoc, Nat.add_comm]

/-- What the chain's loop leaves for an array of `maxCount` cells; it saw all the entries
it looks at when they fit. -/
structure NtFilled (maxCount : Nat) (chain : List SystemProcess) (s s' : Filled) : Prop where
  total : s'.total = s.total +
    (fillLate maxCount (chain.dropLast.map systemProcessInfo) s.total).length
  written : s'.written = s.written ++
    fillLate maxCount (chain.dropLast.map systemProcessInfo) s.total
  hasCurrent : s.total + chain.dropLast.length ≤ maxCount →
    s'.hasCurrent = (s.hasCurrent || callerSeen caller chain)

theorem dropLast_of_short {chain : List SystemProcess}
    (h : ∀ p p' rest, chain = p :: p' :: rest → False) : chain.dropLast = [] := by
  match chain with
  | [] => rfl
  | [p] => rfl
  | p :: p' :: rest => exact absurd rfl (h p p' rest)

theorem ntLoop_count (maxCount : Nat) (chain : List SystemProcess) (s : Filled) :
    ntLoop caller false maxCount chain s = { s with total := s.total + chain.dropLast.length } := by
  fun_induction ntLoop caller false maxCount chain s with
  | case1 p p' chain s h ih =>
    rw [ih]
    simp
    omega
  | case2 => contradiction
  | case3 => contradiction
  | case4 chain s hshort =>
    rw [dropLast_of_short hshort]
    rfl

theorem ntLoop_fill (maxCount : Nat) (chain : List SystemProcess) (s : Filled) :
    NtFilled caller maxCount chain s (ntLoop caller true maxCount chain s) := by
  fun_induction ntLoop caller true maxCount chain s with
  | case1 => contradiction
  | case2 p p' chain s h s' hstop =>
    have hs' : maxCount < s.total + 1 := hstop
    refine ⟨?_, ?_, fun hfit => ?_⟩
    · simp [s', fillLate_cons, hs']
    · simp [s', fillLate_cons, hs']
    · rw [List.dropLast_cons_cons, List.length_cons] at hfit
      omega
  | case3 p p' chain s h s' hgo ih =>
    have hs' : ¬ maxCount < s.total + 1 := hgo
    obtain ⟨htotal, hwritten, hhas⟩ := ih
    refine ⟨?_, ?_, fun hfit => ?_⟩
    · rw [htotal, List.dropLast_cons_cons, List.map_cons, fillLate_cons, if_neg hs',
        List.length_cons]
      simp only [s']
      omega
    · rw [hwritten, List.dropLast_cons_cons, List.map_cons, fillLate_cons, if_neg hs']
      simp [s']
    · rw [List.dropLast_cons_cons, List.length_cons] at hfit
      rw [hhas (by simp only [s']; omega), callerSeen, callerSeen, List.dropLast_cons_cons,
        List.any_cons, Bool.or_assoc]
  | case4 chain s hshort =>
    have hdrop := dropLast_of_short hshort
    refine ⟨?_, ?_, fun _ => ?_⟩
    · rw [hdrop]
      rfl
    · rw [hdrop, List.map_nil, fillLate_nil, List.append_nil]
    · rw [callerSeen, hdrop, List.any_nil, Bool.or_false]

/-! ## The two calls -/

/-- How many processes the first call counts on this system. -/
def counted (s : Snapshot) : Nat :=
  match s.chain with
  | none => 0
  | some chain =>
    chain.dropLast.length + ((s.toolhelp.getD []).filter (taken caller false)).length

/-- How many processes the second call finds: the caller counts once if it is in the chain
before the last entry. -/
def found (s : Snapshot) : Nat :=
  match s.chain with
  | none => 0
  | some chain =>
    chain.dropLast.length +
      ((s.toolhelp.getD []).filter (taken caller (callerSeen caller chain))).length

theorem queryCount_eq (s : Snapshot) : queryCount caller s = counted caller s := by
  unfold queryCount counted wingQueryProcess wingGetCurrentProcessInfo
  cases s.chain with
  | none => rfl
  | some chain =>
    cases s.toolhelp with
    | none => simp [ntLoop_count]
    | some entries => simp [ntLoop_count, toolhelpLoop_count]

/-- The two loops write the cells of an array one after the other, the second behind the
first. -/
theorem queryFill_eq (s₁ : Snapshot) {s₂ : Snapshot} {chain : List SystemProcess} (h : s₂.chain = some chain) :
    ∃ hasCurrent : Bool,
      (chain.dropLast.length ≤ counted caller s₁ → hasCurrent = callerSeen caller chain) ∧
      (queryFill caller s₁ s₂).1 = (queryFill caller s₁ s₂).2.length ∧
      (queryFill caller s₁ s₂).2 =
        fillLate (counted caller s₁) (chain.dropLast.map systemProcessInfo) 0 ++
        fillLate (counted caller s₁)
          (((s₂.toolhelp.getD []).filter (taken caller hasCurrent)).map
            (entryProcessInfo caller s₂.commandLine))
          (fillLate (counted caller s₁) (chain.dropLast.map systemProcessInfo) 0).length := by
  obtain ⟨htotal, hwritten, hhas⟩ := ntLoop_fill caller (counted caller s₁) chain ⟨0, false, []⟩
  simp only [Nat.zero_add, List.nil_append, Bool.false_or] at htotal hwritten hhas
  refine ⟨_, hhas, ?_⟩
  unfold queryFill wingQueryProcess wingGetCurrentProcessInfo
  simp only [h, queryCount_eq]
  cases s₂.toolhelp with
  | none => simp [hwritten, htotal]
  | some entries =>
    simp only [htotal, hwritten]
    rw [toolhelpLoop_fill]
    simp

/-- The cells of the array are written in order, and the count returned is their number. -/
theorem queryFill_cells (s₁ s₂ : Snapshot) :
    (queryFill caller s₁ s₂).1 = (queryFill caller s₁ s₂).2.length ∧
      (queryFill caller s₁ s₂).2.map Prod.fst =
        List.range' 0 (queryFill caller s₁ s₂).2.length := by
  cases h : s₂.chain with
  | none => simp [queryFill, wingQueryProcess, h]
  | some chain =>
    obtain ⟨hasCurrent, -, hcount, hwritten⟩ := queryFill_eq caller s₁ h
    exact ⟨hcount, by rw [hwritten, fillLate_two_cells]⟩

theorem length_queryFill_iff (s₁ s₂ : Snapshot) :
    (queryFill caller s₁ s₂).2.length ≤ counted caller s₁ ↔
      found caller s₂ ≤ counted caller s₁ := by
  cases h : s₂.chain with
  | none => simp [queryFill, wingQueryProcess, found, h]
  | some chain =>
    obtain ⟨hasCurrent, hhas, -, hwritten⟩ := queryFill_eq caller s₁ h
    simp only [hwritten, fillLate_two, List.length_map, found, h]
    by_cases hfit : chain.dropLast.length ≤ counted caller s₁
    · rw [hhas hfit]
    · omega

/-- **The second call stays inside its array**, and returns no more than the first, exactly
when it finds no more processes than the first call counted. -/
theorem fill_inside_iff (s₁ s₂ : Snapshot) :
    ((∀ w ∈ (queryFill caller s₁ s₂).2, w.1 < queryCount caller s₁) ∧
        (queryFill caller s₁ s₂).1 ≤ queryCount caller s₁) ↔
      found caller s₂ ≤ counted caller s₁ := by
  obtain ⟨hcount, hcells⟩ := queryFill_cells caller s₁ s₂
  rw [inside_iff_length hcells, hcount, queryCount_eq, length_queryFill_iff, and_self_iff]

/-- A process with the given id and parent, with nothing readable about it. -/
def processOf (pid parent : UInt32) : SystemProcess :=
  ⟨pid, parent, none, false, none, none, none, 0, 0, 0, 0, 0, 0⟩

def entryOf (pid parent : UInt32) : ProcessEntry := ⟨pid, parent, [], [], false, none, 0, 0, 0⟩

/-- Two processes start between the calls: a fourth cell of an array of three is written. -/
theorem two_started_overrun :
    queryCount 8 ⟨some [processOf 0 0, processOf 8 4, processOf 4 0], some [entryOf 8 4], []⟩ = 3 ∧
    (queryFill 8 ⟨some [processOf 0 0, processOf 8 4, processOf 4 0], some [entryOf 8 4], []⟩
      ⟨some [processOf 0 0, processOf 8 4, processOf 12 4, processOf 16 4, processOf 4 0],
        some [entryOf 8 4], []⟩).1 = 4 ∧
    (queryFill 8 ⟨some [processOf 0 0, processOf 8 4, processOf 4 0], some [entryOf 8 4], []⟩
      ⟨some [processOf 0 0, processOf 8 4, processOf 12 4, processOf 16 4, processOf 4 0],
        some [entryOf 8 4], []⟩).2.map Prod.fst = [0, 1, 2, 3] := by
  decide

/-! ## One unchanged system -/

theorem taken_of_taken {hasCurrent : Bool} {e : ProcessEntry}
    (h : taken caller hasCurrent e = true) : taken caller false e = true := by
  simp only [taken, Bool.and_eq_true, Bool.false_and, Bool.not_false, true_and] at h ⊢
  exact h.2

/-- What the second call finds is never more than the first counted. -/
theorem found_le_counted (s : Snapshot) : found caller s ≤ counted caller s := by
  unfold found counted
  cases s.chain with
  | none => exact Nat.le_refl 0
  | some chain =>
    have hsub : ((s.toolhelp.getD []).filter (taken caller (callerSeen caller chain))).Sublist
        ((s.toolhelp.getD []).filter (taken caller false)) :=
      List.monotone_filter_right _ fun e he => taken_of_taken caller he
    exact Nat.add_le_add_left hsub.length_le _

/-- The Toolhelp loop's choice, asked of a process of the chain. -/
def takenProcess (seen : Bool) (q : UInt32 × UInt32) : Bool :=
  !(seen && decide (q.1 = caller)) && (decide (q.1 = caller) || decide (q.2 = caller))

theorem toInt32_injective : Function.Injective UInt32.toInt32 := by
  intro a b h
  rw [← UInt32.toUInt32_toInt32 a, h, UInt32.toUInt32_toInt32]

/-- On an unchanged system the ids listed are those of the chain before its last entry, then
those the Toolhelp loop takes. -/
theorem queryFill_ids {s : Snapshot} {init : List SystemProcess} {last : SystemProcess}
    (hchain : s.chain = some (init ++ [last])) :
    (queryFill caller s s).2.map (fun w => w.2.processId) =
      (init.map (·.processId) ++ ((s.toolhelp.getD []).filter
        (taken caller (callerSeen caller (init ++ [last])))).map (·.th32ProcessID)).map
          UInt32.toInt32 := by
  obtain ⟨hasCurrent, hhas, -, hwritten⟩ := queryFill_eq caller s hchain
  have hfits := found_le_counted caller s
  simp only [found, hchain, List.dropLast_concat] at hfits hhas hwritten
  rw [hhas (by omega)] at hwritten
  have hfirst : 0 + (init.map systemProcessInfo).length ≤ counted caller s := by
    rw [List.length_map]
    omega
  have hids : ∀ l : List (Nat × ProcessInfo), l.map (fun w => w.2.processId) =
      (l.map Prod.snd).map (·.processId) := by
    intro l
    rw [List.map_map]
    rfl
  rw [hids, hwritten, List.map_append, fillLate_fits hfirst, length_fillLate_of_fits hfirst,
    fillLate_fits (by simpa using hfits)]
  simp only [List.map_append, List.map_map]
  rfl

/-- Of processes told apart by their id, a selection lists each once or not at all. -/
theorem count_selected {l : List (UInt32 × UInt32)} (hl : (l.map Prod.fst).Nodup)
    (p : UInt32 × UInt32 → Bool) {q : UInt32 × UInt32} (hq : q ∈ l) :
    ((l.filter p).map Prod.fst).count q.1 = if p q then 1 else 0 := by
  have hsub : ((l.filter p).map Prod.fst).Nodup :=
    hl.sublist (List.filter_sublist.map Prod.fst)
  split
  · next hp =>
    exact List.count_eq_one_of_mem hsub (List.mem_map_of_mem (List.mem_filter.mpr ⟨hq, hp⟩))
  · next hp =>
    rw [List.count_eq_zero, List.mem_map]
    rintro ⟨q', hq', he⟩
    obtain ⟨hmem, hp'⟩ := List.mem_filter.mp hq'
    rw [List.inj_on_of_nodup_map hl hmem hq he] at hp'
    exact hp hp'

/-- The loop over Toolhelp takes what it would take of the chain. -/
theorem count_taken {s : Snapshot} {chain : List SystemProcess} {entries : List ProcessEntry}
    (htoolhelp : s.toolhelp = some entries)
    (hsame : (entries.map fun e => (e.th32ProcessID, e.th32ParentProcessID)).Perm
      (chain.map fun p => (p.processId, p.inheritedFromProcessId)))
    (hdistinct : (chain.map (·.processId)).Nodup) (seen : Bool) {p : SystemProcess}
    (hp : p ∈ chain) :
    (((s.toolhelp.getD []).filter (taken caller seen)).map (·.th32ProcessID)).count p.processId =
      if takenProcess caller seen (p.processId, p.inheritedFromProcessId) then 1 else 0 := by
  have hpairs : ((s.toolhelp.getD []).filter (taken caller seen)).map (·.th32ProcessID) =
      ((entries.map fun e => (e.th32ProcessID, e.th32ParentProcessID)).filter
        (takenProcess caller seen)).map Prod.fst := by
    rw [htoolhelp, Option.getD_some, List.filter_map, List.map_map]
    rfl
  rw [hpairs, ((hsame.filter _).map Prod.fst).count_eq]
  exact count_selected (by rwa [List.map_map]) (takenProcess caller seen)
    (List.mem_map_of_mem (f := fun p => (p.processId, p.inheritedFromProcessId)) hp)

/-- How often a process is listed: once by the first loop unless it stands last, and once by the
loop over Toolhelp when that takes it. -/
theorem count_listed {s : Snapshot} {init : List SystemProcess} {last : SystemProcess}
    {entries : List ProcessEntry} (hchain : s.chain = some (init ++ [last]))
    (htoolhelp : s.toolhelp = some entries)
    (hsame : (entries.map fun e => (e.th32ProcessID, e.th32ParentProcessID)).Perm
      ((init ++ [last]).map fun p => (p.processId, p.inheritedFromProcessId)))
    (hdistinct : ((init ++ [last]).map (·.processId)).Nodup) {p : SystemProcess}
    (hp : p ∈ init ++ [last]) :
    ((queryFill caller s s).2.map fun w => w.2.processId).count p.processId.toInt32 =
      (init.map (·.processId)).count p.processId +
        if takenProcess caller (callerSeen caller (init ++ [last]))
          (p.processId, p.inheritedFromProcessId) then 1 else 0 := by
  rw [queryFill_ids caller hchain, List.count_map_of_injective _ _ toInt32_injective,
    List.count_append, count_taken caller htoolhelp hsame hdistinct _ hp]

theorem callerSeen_concat {init : List SystemProcess} {last : SystemProcess} :
    callerSeen caller (init ++ [last]) = true ↔ ∃ p ∈ init, p.processId = caller := by
  simp [callerSeen]

/-- The last entry is taken when it is the caller, which the first loop did not see then, or a
child of it. -/
theorem takenProcess_last {init : List SystemProcess} {last : SystemProcess}
    (hother : ∀ p ∈ init, p.processId ≠ last.processId) :
    takenProcess caller (callerSeen caller (init ++ [last]))
        (last.processId, last.inheritedFromProcessId) = true ↔
      last.processId = caller ∨ last.inheritedFromProcessId = caller := by
  by_cases hl : last.processId = caller
  · have hunseen : callerSeen caller (init ++ [last]) = false := by
      apply Bool.eq_false_iff.mpr
      intro hs
      obtain ⟨p, hp, he⟩ := (callerSeen_concat caller).mp hs
      exact hother p hp (he.trans hl.symm)
    simp [takenProcess, hl, hunseen]
  · simp [takenProcess, hl]

/-- Of the others only the children of the caller are taken. -/
theorem takenProcess_init {init : List SystemProcess} {last p : SystemProcess} (hp : p ∈ init) :
    takenProcess caller (callerSeen caller (init ++ [last]))
        (p.processId, p.inheritedFromProcessId) = false ↔
      (p.processId ≠ caller → p.inheritedFromProcessId ≠ caller) := by
  by_cases hpc : p.processId = caller
  · simp [takenProcess, hpc, (callerSeen_concat caller).mpr ⟨p, hp, hpc⟩]
  · simp [takenProcess, hpc]

/-- **The list on an unchanged system** holds every process exactly once when the last entry of
the chain is the caller or one of its children, and no other child of the caller is in it. -/
theorem listed_once_iff {s : Snapshot} {init : List SystemProcess} {last : SystemProcess}
    {entries : List ProcessEntry} (hchain : s.chain = some (init ++ [last]))
    (htoolhelp : s.toolhelp = some entries)
    (hsame : (entries.map fun e => (e.th32ProcessID, e.th32ParentProcessID)).Perm
      ((init ++ [last]).map fun p => (p.processId, p.inheritedFromProcessId)))
    (hdistinct : ((init ++ [last]).map (·.processId)).Nodup) :
    (∀ p ∈ init ++ [last],
      ((queryFill caller s s).2.map fun w => w.2.processId).count p.processId.toInt32 = 1) ↔
      (last.processId = caller ∨ last.inheritedFromProcessId = caller) ∧
        ∀ p ∈ init, p.processId ≠ caller → p.inheritedFromProcessId ≠ caller := by
  obtain ⟨hinit, -, hlast⟩ := List.nodup_append.mp (List.map_append ▸ hdistinct)
  have hfirst : ∀ p ∈ init, (init.map (·.processId)).count p.processId = 1 := fun p hp =>
    List.count_eq_one_of_mem hinit (List.mem_map_of_mem hp)
  have hother : ∀ p ∈ init, p.processId ≠ last.processId := fun p hp =>
    hlast _ (List.mem_map_of_mem hp) _ (by simp)
  have hnone : (init.map (·.processId)).count last.processId = 0 := by
    rw [List.count_eq_zero, List.mem_map]
    rintro ⟨p, hp, he⟩
    exact hother p hp he
  rw [List.forall_mem_append, List.forall_mem_singleton, and_comm]
  refine and_congr ?_ (forall₂_congr fun p hp => ?_)
  · rw [count_listed caller hchain htoolhelp hsame hdistinct (by simp), hnone,
      ← takenProcess_last caller hother]
    cases takenProcess caller (callerSeen caller (init ++ [last]))
      (last.processId, last.inheritedFromProcessId) <;> simp
  · rw [count_listed caller hchain htoolhelp hsame hdistinct (List.mem_append_left _ hp),
      hfirst p hp, ← @takenProcess_init caller init last p hp]
    cases takenProcess caller (callerSeen caller (init ++ [last]))
      (p.processId, p.inheritedFromProcessId) <;> simp

/-- Three processes; the caller, 8, has no children and stands last. -/
def callerLast : Snapshot :=
  ⟨some ([processOf 0 0, processOf 4 0] ++ [processOf 8 4]),
    some [entryOf 0 0, entryOf 4 0, entryOf 8 4], []⟩

theorem listed_once_caller_last :
    ((queryFill 8 callerLast callerLast).2.map fun w => w.2.processId).count 0 = 1 ∧
    ((queryFill 8 callerLast callerLast).2.map fun w => w.2.processId).count 4 = 1 ∧
    ((queryFill 8 callerLast callerLast).2.map fun w => w.2.processId).count 8 = 1 := by
  have honce := (listed_once_iff (s := callerLast) 8 rfl rfl (List.Perm.refl _) (by decide)).mpr
    ⟨.inl rfl, by decide⟩
  exact ⟨honce (processOf 0 0) (by simp), honce (processOf 4 0) (by simp),
    honce (processOf 8 4) (by simp)⟩

/-- Caller 8 has a child 12 and neither stands last: 12 is listed twice and 4, which does,
not at all. -/
theorem child_twice_last_missing :
    (queryFill 8 ⟨some [processOf 0 0, processOf 8 4, processOf 12 8, processOf 4 0],
        some [entryOf 0 0, entryOf 8 4, entryOf 12 8, entryOf 4 0], []⟩
      ⟨some [processOf 0 0, processOf 8 4, processOf 12 8, processOf 4 0],
        some [entryOf 0 0, entryOf 8 4, entryOf 12 8, entryOf 4 0], []⟩).2.map
          (fun w => w.2.processId) = [0, 8, 12, 12] := by
  decide

end WingPhp.Process
