import Mathlib.Data.List.Nodup
import WingPhp.Simples.ServiceControl

/-!
# Services that cannot be stopped

`step_happens` says what a step can be.  `unnamed_for_good`: a process whose id is neither in the file nor in the hands
of a script is ended by no script any more, whatever is run, and as long as it is a service that runs every `stop`
fails.  This is what becomes of all services but one when `start` is run again.
-/

namespace WingPhp.ServiceControl

open Process Transition

variable {engine : Engine} {site : Site engine} {s s' : State}

/-! ## What a step can be -/

inductive Happens (site : Site engine) (s : State) : Act → State → Prop
  | launch {info : ProcessInfo} : s.New info → Happens site s (.launch info) (s.add info false)
  | exit {k : Nat} : Happens site s (.exit k) { s with processes := s.processes.eraseIdx k }
  | begin {command : Command} :
      Happens site s (.begin command) { s with scripts := s.scripts ++ [command.pc] }
  | abort {i : Nat} : Happens site s (.abort i) (s.goto i none)
  | getPid {i : Nat} {restart read : Bool} : s.scripts[i]? = some (.getPid restart) →
      Happens site s (.goOn i (.read read)) (s.goto i (some (.kill restart (s.fileGetContents read))))
  | killed {i : Nat} {restart : Bool} {pid : Int32} : s.scripts[i]? = some (.kill restart pid) →
      Happens site s (.goOn i (.terminated true)) ((s.terminate pid).goto i (some (.askStopped restart)))
  | spared {i : Nat} {restart : Bool} {pid : Int32} : s.scripts[i]? = some (.kill restart pid) →
      Happens site s (.goOn i (.terminated false)) (s.goto i (some (.askStopped restart)))
  | crashed {i : Nat} {table : List ProcessInfo} : site.queryProcess table = none →
      Happens site s (.goOn i (.table table)) (s.goto i none)
  | stopped {i : Nat} {restart : Bool} {table : List ProcessInfo} {r : SearchResult} :
      s.scripts[i]? = some (.askStopped restart) → site.queryProcess table = some r → r.items = [] →
      Happens site s (.goOn i (.table table)) ((s.echo .stopped).goto i (some (.unlink restart)))
  | stopFail {i : Nat} {restart : Bool} {table : List ProcessInfo} {r : SearchResult} :
      s.scripts[i]? = some (.askStopped restart) → site.queryProcess table = some r → r.items ≠ [] →
      Happens site s (.goOn i (.table table)) ((s.echo .stopFail).goto i (afterStop restart))
  | unlink {i : Nat} {restart unlinked : Bool} : s.scripts[i]? = some (.unlink restart) →
      Happens site s (.goOn i (.unlinked unlinked))
        ({ s with pidFile := if unlinked then none else s.pidFile }.goto i (afterStop restart))
  | created {i : Nat} {info : ProcessInfo} : s.scripts[i]? = some .create → s.New info →
      info.commandLine = some site.command →
      Happens site s (.goOn i (.created (some info))) ((s.add info true).goto i (some (.putPid info.processId)))
  | notCreated {i : Nat} : s.scripts[i]? = some .create →
      Happens site s (.goOn i (.created none)) (s.goto i (some (.putPid (Int32.ofInt wingErrorFailed))))
  | putPid {i : Nat} {pid : Int32} {written : Written} : s.scripts[i]? = some (.putPid pid) →
      Happens site s (.goOn i (.written written))
        ({ s with pidFile := written.pidFile pid s.pidFile }.goto i (some .askRunning))
  | started {i : Nat} {table : List ProcessInfo} {r : SearchResult} : s.scripts[i]? = some .askRunning →
      site.queryProcess table = some r → Happens site s (.goOn i (.table table))
        ((s.echo (if r.items = [] then .startFail else .running)).goto i none)

theorem launch_eq {info : ProcessInfo} {worker : Bool} (h : s.launch info worker = some s') :
    s.New info ∧ s' = s.add info worker := by
  unfold State.launch at h
  split at h
  · next hnew => exact ⟨hnew, (Option.some.inj h).symm⟩
  · cases h

theorem goOn_happens {i : Nat} {pc : Pc} {answer : Answer} (hpc : s.scripts[i]? = some pc)
    (h : goOn site s i pc answer = some s') : Happens site s (.goOn i answer) s' := by
  unfold goOn at h
  split at h
  · cases h
    exact .getPid hpc
  · next restart pid terminated =>
    obtain ⟨t, ht, rfl⟩ := Option.map_eq_some_iff.mp h
    unfold State.kill at ht
    cases terminated with
    | true =>
      rw [if_pos rfl] at ht
      split at ht
      · cases ht
        exact .killed hpc
      · cases ht
    | false =>
      cases ht
      exact .spared hpc
  · split at h
    · next hquery =>
      cases h
      exact .crashed hquery
    · next r hquery =>
      split at h
      · next hnil =>
        cases h
        exact .stopped hpc hquery hnil
      · next hne =>
        cases h
        exact .stopFail hpc hquery hne
  · cases h
    exact .unlink hpc
  · next info =>
    obtain ⟨t, ht, rfl⟩ := Option.map_eq_some_iff.mp h
    cases info with
    | none =>
      cases ht
      exact .notCreated hpc
    | some info =>
      unfold wingCreateProcessEx at ht
      dsimp only at ht
      split at ht
      · next hcommand =>
        obtain ⟨t, hlaunch, rfl⟩ := Option.map_eq_some_iff.mp ht
        obtain ⟨hnew, rfl⟩ := launch_eq hlaunch
        exact .created hpc hnew hcommand
      · cases ht
  · cases h
    exact .putPid hpc
  · split at h
    · next hquery =>
      cases h
      exact .crashed hquery
    · next r hquery =>
      cases h
      exact .started hpc hquery
  · cases h

theorem step_happens {a : Act} (h : step site s a = some s') : Happens site s a s' := by
  cases a with
  | launch info =>
    obtain ⟨hnew, rfl⟩ := launch_eq h
    exact .launch hnew
  | exit k =>
    cases h
    exact .exit
  | begin command =>
    simp only [step, commandSupport] at h
    split at h
    · cases h
    · cases h
      exact .begin
  | abort i =>
    cases h
    exact .abort
  | goOn i answer =>
    obtain ⟨pc, hpc, hgo⟩ := Option.bind_eq_some_iff.mp h
    exact goOn_happens hpc hgo

section Goto

variable (s : State) (i : Nat) (o : Option Pc)

@[simp] theorem goto_processes : (s.goto i o).processes = s.processes := by cases o <;> rfl

@[simp] theorem goto_killed : (s.goto i o).killed = s.killed := by cases o <;> rfl

@[simp] theorem goto_pidFile : (s.goto i o).pidFile = s.pidFile := by cases o <;> rfl

@[simp] theorem goto_printed : (s.goto i o).printed = s.printed := by cases o <;> rfl

@[simp] theorem goto_nextSerial : (s.goto i o).nextSerial = s.nextSerial := by cases o <;> rfl

variable {s i o}

theorem mem_goto {pc : Pc} (h : pc ∈ (s.goto i o).scripts) : pc ∈ s.scripts ∨ o = some pc := by
  cases o with
  | some pc' =>
    rcases List.mem_or_eq_of_mem_set h with hold | rfl
    · exact .inl hold
    · exact .inr rfl
  | none => exact .inl (List.mem_of_mem_eraseIdx h)

end Goto

/-! ## The search for the service -/

variable (site) in
/-- `wing_query_process` finds the process. -/
abbrev Found (info : ProcessInfo) : Prop := TextFound site.keyword 0 info

theorem emits_iff (info : ProcessInfo) :
    Emits engine.isNumericString engine.zendAtoi site.keyword 0 info ↔ Found site info := by
  simp [Emits, site.keyword_ne_nil, site.keyword_text]

theorem not_idHit (info : ProcessInfo) :
    ¬ IdHitUnselected engine.isNumericString engine.zendAtoi site.keyword 0 info := by
  rintro ⟨-, hnumeric, -⟩
  rw [site.keyword_text] at hnumeric
  cases hnumeric

/-- Without NULL strings the search does not crash. -/
theorem queryProcess_whole (site : Site engine) {table : List ProcessInfo} (h : ∀ info ∈ table, info.Whole) :
    ∃ r, site.queryProcess table = some r ∧ (r.items = [] ↔ ∀ info ∈ table, ¬ Found site info) := by
  have hclean : ∀ info ∈ table,
      ¬ IdHitUnselected engine.isNumericString engine.zendAtoi site.keyword 0 info ∧
        (Emits engine.isNumericString engine.zendAtoi site.keyword 0 info → info.Whole) :=
    fun info hinfo => ⟨not_idHit info, fun _ => h info hinfo⟩
  obtain ⟨r, hr, hitems, -⟩ := searchTable_clean engine.stale hclean
  refine ⟨r, hr, ?_⟩
  rw [hitems, List.map_eq_nil_iff, List.filter_eq_nil_iff]
  simp only [decide_eq_true_eq, emits_iff]

/-- A search that does not crash returns what it finds. -/
theorem queryProcess_found {table : List ProcessInfo} {r : SearchResult} (hr : site.queryProcess table = some r)
    {info : ProcessInfo} (hinfo : info ∈ table) (hfound : Found site info) : r.items ≠ [] := by
  unfold Site.queryProcess at hr
  induction table generalizing r with
  | nil => cases hinfo
  | cons first table ih =>
    obtain ⟨one, hone, hr⟩ := Option.bind_eq_some_iff.mp hr
    obtain ⟨rest, hrest, rfl⟩ := Option.map_eq_some_iff.mp hr
    rcases List.mem_cons.mp hinfo with rfl | hinfo
    · -- it is emitted, unless one of its strings is NULL
      have hid : ¬ IdHitUnselected engine.isNumericString engine.zendAtoi site.keyword 0 info := not_idHit info
      obtain ⟨hnull, hwhole, -⟩ := searchOne_clean engine.stale _ _ hid
      have hemits := (emits_iff info).mpr hfound
      by_cases hw : info.Whole
      · obtain ⟨uses, hone', -⟩ := hwhole hemits hw
        rw [hone] at hone'
        cases hone'
        exact List.cons_ne_nil _ _
      · rw [hone] at hnull
        cases hnull hemits hw
    · intro hnil
      exact ih hrest hinfo (List.append_eq_nil_iff.mp hnil).2

/-- The service is found by its command line. -/
theorem found_of_command {info : ProcessInfo} (h : info.commandLine = some site.command) : Found site info := by
  have htext : 0 ∉ site.command := by
    unfold Site.command
    simp [site.phpPath_text, site.workerFile_text]
  have hread : upToNul site.command = site.command := by
    simpa [upToNul] using upToNul_of_not_mem htext []
  refine textFound_of_matches site.keyword_ne_nil (.inr (.inl ⟨.inl (Int.le_refl 0), site.command, h, ?_⟩))
  rw [hread]
  exact site.keyword_infix.trans (List.suffix_append _ _).isInfix

/-! ## The processes -/

structure Sound (site : Site engine) (s : State) : Prop where
  positive : ∀ p ∈ s.processes, 0 < p.processId
  distinct : (s.processes.map Running.processId).Nodup
  serials : ((s.processes ++ s.killed).map Running.serial).Nodup
  fresh : ∀ p ∈ s.processes ++ s.killed, p.serial < s.nextSerial
  found : ∀ p ∈ s.processes, p.worker = true → Found site p.info

theorem Sound.same (hi : Sound site s) (hprocesses : s'.processes = s.processes) (hkilled : s'.killed = s.killed)
    (hnext : s'.nextSerial = s.nextSerial) : Sound site s' := by
  obtain ⟨hpositive, hdistinct, hserials, hfresh, hfound⟩ := hi
  exact ⟨by rwa [hprocesses], by rwa [hprocesses], by rwa [hprocesses, hkilled],
    by rwa [hprocesses, hkilled, hnext], by rwa [hprocesses]⟩

theorem Sound.add (hi : Sound site s) {info : ProcessInfo} {worker : Bool} (hnew : s.New info)
    (hfound : worker = true → Found site info) : Sound site (s.add info worker) where
  positive := by
    intro p hp
    rcases List.mem_append.mp hp with hp | hp
    · exact hi.positive p hp
    · obtain rfl := List.mem_singleton.mp hp
      exact hnew.1
  distinct := by
    show ((s.processes ++ [(⟨info, s.nextSerial, worker⟩ : Running)]).map Running.processId).Nodup
    rw [List.map_append, List.map_singleton, List.nodup_append]
    refine ⟨hi.distinct, List.nodup_singleton _, ?_⟩
    intro pid hpid new hmem
    obtain rfl := List.mem_singleton.mp hmem
    obtain ⟨p, hp, rfl⟩ := List.mem_map.mp hpid
    exact hnew.2 p hp
  serials := by
    have hperm : ((s.add info worker).processes ++ (s.add info worker).killed).Perm
        ((⟨info, s.nextSerial, worker⟩ : Running) :: (s.processes ++ s.killed)) := by
      show ((s.processes ++ [(⟨info, s.nextSerial, worker⟩ : Running)]) ++ s.killed).Perm _
      rw [List.append_assoc]
      exact List.perm_middle
    rw [(hperm.map Running.serial).nodup_iff, List.map_cons, List.nodup_cons]
    refine ⟨?_, hi.serials⟩
    intro hmem
    obtain ⟨q, hq, hserial⟩ := List.mem_map.mp hmem
    have hlt := hi.fresh q hq
    have hserial' : q.serial = s.nextSerial := hserial
    omega
  fresh := by
    intro p hp
    show p.serial < s.nextSerial + 1
    rcases List.mem_append.mp hp with hp | hp
    · rcases List.mem_append.mp hp with hp | hp
      · have := hi.fresh p (List.mem_append_left _ hp)
        omega
      · obtain rfl := List.mem_singleton.mp hp
        exact Nat.lt_succ_self _
    · have := hi.fresh p (List.mem_append_right _ hp)
      omega
  found := by
    intro p hp hworker
    rcases List.mem_append.mp hp with hp | hp
    · exact hi.found p hp hworker
    · obtain rfl := List.mem_singleton.mp hp
      exact hfound hworker

theorem Sound.exit (hi : Sound site s) (k : Nat) : Sound site { s with processes := s.processes.eraseIdx k } where
  positive p hp := hi.positive p (List.mem_of_mem_eraseIdx hp)
  distinct := hi.distinct.sublist ((List.eraseIdx_sublist _ k).map _)
  serials := hi.serials.sublist (((List.eraseIdx_sublist _ k).append_right s.killed).map _)
  fresh p hp := hi.fresh p (((List.eraseIdx_sublist _ k).append_right s.killed).subset hp)
  found p hp := hi.found p (List.mem_of_mem_eraseIdx hp)

/-- What is terminated is the same processes, sorted another way. -/
theorem terminate_perm (s : State) (pid : Int32) :
    ((s.terminate pid).processes ++ (s.terminate pid).killed).Perm (s.processes ++ s.killed) := by
  have hsplit := List.filter_append_perm (fun p : Running => p.processId == pid) s.processes
  show (s.processes.filter (fun p => p.processId != pid) ++
    (s.killed ++ s.processes.filter fun p => p.processId == pid)).Perm (s.processes ++ s.killed)
  rw [← List.append_assoc]
  refine List.perm_append_comm.trans ?_
  rw [← List.append_assoc]
  exact hsplit.append_right s.killed

theorem Sound.terminate (hi : Sound site s) (pid : Int32) : Sound site (s.terminate pid) where
  positive p hp := hi.positive p (List.mem_of_mem_filter hp)
  distinct := hi.distinct.sublist (List.filter_sublist.map _)
  serials := ((terminate_perm s pid).map Running.serial).nodup_iff.mpr hi.serials
  fresh p hp := hi.fresh p ((terminate_perm s pid).mem_iff.mp hp)
  found p hp := hi.found p (List.mem_of_mem_filter hp)

/-- **Step lemma.** -/
theorem step_sound {a : Act} (hi : Sound site s) (h : step site s a = some s') : Sound site s' := by
  cases step_happens h with
  | launch hnew =>
    apply hi.add hnew
    intro hworker
    cases hworker
  | exit => exact hi.exit _
  | @killed i restart pid =>
    have ht := hi.terminate pid
    exact ht.same (goto_processes ..) (goto_killed ..) (goto_nextSerial ..)
  | @created i info _ hnew hcommand =>
    have ha : Sound site (s.add info true) := hi.add hnew fun _ => found_of_command hcommand
    exact ha.same (goto_processes ..) (goto_killed ..) (goto_nextSerial ..)
  | begin => exact hi.same rfl rfl rfl
  | _ => exact hi.same (goto_processes ..) (goto_killed ..) (goto_nextSerial ..)

theorem reachable_sound (h : (services site).Reachable s) : Sound site s := by
  refine h.invariant (I := Sound site) ?_ fun s a s' _ hi _ hs => step_sound hi hs
  exact ⟨nofun, List.nodup_nil, List.nodup_nil, nofun, nofun⟩

/-! ## A process that no script knows -/

/-- The id a script is about to use. -/
def Pc.holds : Pc → Option Int32
  | .kill _ pid | .putPid pid => some pid
  | _ => none

/-- The id is neither in the file nor in the hands of a script. -/
structure State.Unnamed (s : State) (pid : Int32) : Prop where
  pidFile : s.pidFile ≠ some pid
  scripts : ∀ pc ∈ s.scripts, pc.holds ≠ some pid

theorem Unnamed.goto {pid : Int32} {t : State} (hun : s.Unnamed pid) (hpidFile : t.pidFile ≠ some pid)
    (hscripts : t.scripts = s.scripts) {i : Nat} {o : Option Pc} (ho : ∀ pc ∈ o, pc.holds ≠ some pid) :
    (t.goto i o).Unnamed pid where
  pidFile := by
    rw [goto_pidFile]
    exact hpidFile
  scripts := by
    intro pc hpc
    rcases mem_goto hpc with hpc | rfl
    · rw [hscripts] at hpc
      exact hun.scripts pc hpc
    · exact ho pc rfl

theorem afterStop_holds {restart : Bool} (pid : Int32) : ∀ pc ∈ afterStop restart, pc.holds ≠ some pid := by
  cases restart with
  | true =>
    intro pc hpc
    obtain rfl := Option.some.inj hpc
    exact nofun
  | false => exact nofun

theorem ne_of_pos {pid : Int32} (h : 0 < pid) : pid ≠ 0 ∧ pid ≠ Int32.ofInt wingErrorFailed := by
  constructor
  · rintro rfl
    exact absurd h (by decide)
  · rintro rfl
    exact absurd h (by decide)

/-- What a script does not know it gets to know only when it creates it. -/
theorem unnamed_step {a : Act} {p : Running} (hp : p ∈ s.processes) (hpos : 0 < p.processId)
    (hun : s.Unnamed p.processId) (h : Happens site s a s') : s'.Unnamed p.processId := by
  obtain ⟨hzero, hfailed⟩ := ne_of_pos hpos
  -- the calls that put an id anywhere: the others do not matter
  cases h with
  | launch | exit => exact ⟨hun.pidFile, hun.scripts⟩
  | @begin command =>
    refine ⟨hun.pidFile, ?_⟩
    intro pc hpc
    rcases List.mem_append.mp hpc with hpc | hpc
    · exact hun.scripts pc hpc
    · obtain rfl := List.mem_singleton.mp hpc
      cases command <;> exact nofun
  | @getPid i restart read =>
    refine Unnamed.goto hun (by exact hun.pidFile) (by rfl) ?_
    intro pc hpc hholds
    obtain rfl := Option.some.inj hpc
    have hread : s.fileGetContents read = p.processId := Option.some.inj hholds
    cases read with
    | false => exact hzero hread.symm
    | true =>
      have hfile := hun.pidFile
      cases hf : s.pidFile with
      | none =>
        rw [State.fileGetContents, if_pos rfl, hf] at hread
        exact hzero hread.symm
      | some v =>
        rw [State.fileGetContents, if_pos rfl, hf] at hread
        exact hfile (by rw [hf, ← hread]; rfl)
  | killed | spared | stopped =>
    refine Unnamed.goto hun (by exact hun.pidFile) (by rfl) ?_
    intro pc hpc
    obtain rfl := Option.some.inj hpc
    exact nofun
  | stopFail => exact Unnamed.goto hun (by exact hun.pidFile) (by rfl) (afterStop_holds _)
  | @unlink i restart unlinked =>
    refine Unnamed.goto hun ?_ (by rfl) (afterStop_holds _)
    cases unlinked with
    | true => exact nofun
    | false => exact hun.pidFile
  | @created i info _ hnew =>
    refine Unnamed.goto hun (by exact hun.pidFile) (by rfl) ?_
    intro pc hpc hholds
    obtain rfl := Option.some.inj hpc
    exact hnew.2 p hp (Option.some.inj hholds).symm
  | notCreated =>
    refine Unnamed.goto hun (by exact hun.pidFile) (by rfl) ?_
    intro pc hpc hholds
    obtain rfl := Option.some.inj hpc
    exact hfailed (Option.some.inj hholds).symm
  | @putPid i pid written hscript =>
    have hpid : pid ≠ p.processId := by
      rintro rfl
      exact hun.scripts _ (List.mem_of_getElem? hscript) rfl
    refine Unnamed.goto hun ?_ (by rfl) ?_
    · cases written with
      | ok => exact fun h => hpid (Option.some.inj h)
      | notOpened => exact hun.pidFile
      | truncated => exact fun h => hzero (Option.some.inj h).symm
    · intro pc hpc
      obtain rfl := Option.some.inj hpc
      exact nofun
  | abort | crashed | started => exact Unnamed.goto hun (by exact hun.pidFile) (by rfl) nofun

/-- What a step adds to the processes is new. -/
theorem mem_processes_step {a : Act} {q : Running} (h : Happens site s a s') (hq : q ∈ s'.processes) :
    q ∈ s.processes ∨ q.serial = s.nextSerial := by
  cases h with
  | launch =>
    rcases List.mem_append.mp hq with hq | hq
    · exact .inl hq
    · obtain rfl := List.mem_singleton.mp hq
      exact .inr rfl
  | exit => exact .inl (List.mem_of_mem_eraseIdx hq)
  | begin => exact .inl hq
  | killed =>
    rw [goto_processes] at hq
    exact .inl (List.mem_of_mem_filter hq)
  | created =>
    rw [goto_processes] at hq
    rcases List.mem_append.mp hq with hq | hq
    · exact .inl hq
    · obtain rfl := List.mem_singleton.mp hq
      exact .inr rfl
  | _ =>
    rw [goto_processes] at hq
    exact .inl hq

/-- Only what a script knows is ended. -/
theorem mem_killed_step {a : Act} {q : Running} (h : Happens site s a s') (hq : q ∈ s'.killed) :
    q ∈ s.killed ∨ q ∈ s.processes ∧ ¬ s.Unnamed q.processId := by
  cases h with
  | launch | exit | begin => exact .inl hq
  | @killed i restart pid hscript =>
    rw [goto_killed] at hq
    rcases List.mem_append.mp hq with hq | hq
    · exact .inl hq
    · obtain ⟨hmem, hpid⟩ := List.mem_filter.mp hq
      refine .inr ⟨hmem, fun hun => hun.scripts _ (List.mem_of_getElem? hscript) ?_⟩
      rw [eq_of_beq hpid]
      rfl
  | _ =>
    rw [goto_killed] at hq
    exact .inl hq

theorem nextSerial_step {a : Act} (h : Happens site s a s') : s.nextSerial ≤ s'.nextSerial := by
  cases h with
  | launch => exact Nat.le_succ _
  | exit | begin => exact Nat.le_refl _
  | created =>
    rw [goto_nextSerial]
    exact Nat.le_succ _
  | _ => simp [State.terminate, State.echo]

/-- The process has not been ended by a script, and no script knows it. -/
structure Spared (p : Running) (s : State) : Prop where
  killed : p ∉ s.killed
  serial : p.serial < s.nextSerial
  running : ∀ q ∈ s.processes, q.serial = p.serial → q = p ∧ s.Unnamed p.processId

theorem Sound.spared (hi : Sound site s) {p : Running} (hp : p ∈ s.processes) (hun : s.Unnamed p.processId) :
    Spared p s where
  killed hk := by
    have hdisjoint := hi.serials
    rw [List.map_append, List.nodup_append] at hdisjoint
    exact hdisjoint.2.2 _ (List.mem_map_of_mem hp) _ (List.mem_map_of_mem hk) rfl
  serial := hi.fresh p (List.mem_append_left _ hp)
  running := by
    intro q hq hserial
    have hnodup : (s.processes.map Running.serial).Nodup := by
      have hall := hi.serials
      rw [List.map_append, List.nodup_append] at hall
      exact hall.1
    exact ⟨List.inj_on_of_nodup_map hnodup hq hp hserial, hun⟩

theorem spared_step {a : Act} {p : Running} (hpos : 0 < p.processId) (hs : Spared p s)
    (h : Happens site s a s') : Spared p s' where
  killed := by
    intro hk
    rcases mem_killed_step h hk with hk | ⟨hmem, hnamed⟩
    · exact hs.killed hk
    · exact hnamed (hs.running p hmem rfl).2
  serial := Nat.lt_of_lt_of_le hs.serial (nextSerial_step h)
  running := by
    intro q hq hserial
    rcases mem_processes_step h hq with hold | hnew
    · obtain ⟨rfl, hun⟩ := hs.running q hold hserial
      exact ⟨rfl, unnamed_step hold hpos hun h⟩
    · have := hs.serial
      omega

/-! ## What is printed meanwhile -/

/-- The queries see what runs. -/
def Sees (s : State) : Act → Prop
  | .goOn _ (.table table) => ∀ p ∈ s.processes, p.info ∈ table
  | _ => True

/-- Nothing was printed since but failed stops, as long as the process runs. -/
def NoStop (p : Running) (printed : List Message) (s : State) : Prop :=
  p ∈ s.processes → ∃ new, s.printed = printed ++ new ∧ Message.stopped ∉ new

theorem noStop_step {a : Act} {p : Running} {printed : List Message} (hs : Spared p s) (hfound : Found site p.info)
    (hsees : Sees s a) (hno : NoStop p printed s) (h : Happens site s a s') : NoStop p printed s' := by
  intro hp
  have hold : p ∈ s.processes := by
    rcases mem_processes_step h hp with hold | hnew
    · exact hold
    · have := hs.serial
      omega
  obtain ⟨new, hprinted, hnew⟩ := hno hold
  have hmore : ∀ message, message ≠ .stopped →
      ∃ new, s.printed ++ [message] = printed ++ new ∧ Message.stopped ∉ new := by
    intro message hne
    refine ⟨new ++ [message], by rw [hprinted, List.append_assoc], ?_⟩
    rw [List.mem_append, not_or, List.mem_singleton]
    exact ⟨hnew, Ne.symm hne⟩
  cases h with
  | launch | exit | begin => exact ⟨new, hprinted, hnew⟩
  | @stopped i restart table r hscript hr hnil =>
    exact absurd hnil (queryProcess_found hr (hsees p hold) hfound)
  | stopFail =>
    rw [goto_printed]
    exact hmore .stopFail nofun
  | started =>
    rw [goto_printed]
    apply hmore
    split <;> exact nofun
  | _ =>
    rw [goto_printed]
    exact ⟨new, hprinted, hnew⟩

/-- **A process that no script knows is not ended by one**, whatever is run from there.  If it is a service and the
queries see what runs, no stop succeeds as long as it runs. -/
theorem unnamed_for_good {p : Running} (h : (services site).Reachable s) (hp : p ∈ s.processes)
    (hun : s.Unnamed p.processId) :
    (∀ t, ((services site).startingAt s).Reachable t → p ∉ t.killed ∧ (p ∈ t.processes → t.Unnamed p.processId)) ∧
    (p.worker = true → ∀ t, ((services site).startingAt s).Reach Sees t → p ∈ t.processes →
      ∃ new, t.printed = s.printed ++ new ∧ Message.stopped ∉ new) := by
  have hi := reachable_sound h
  have hpos := hi.positive p hp
  refine ⟨fun t ht => ?_, fun hworker t ht hpt => ?_⟩
  · have hspared : Spared p t :=
      ht.invariant (I := Spared p) (hi.spared hp hun) fun u a u' _ hu _ hs => spared_step hpos hu (step_happens hs)
    exact ⟨hspared.killed, fun hpt => (hspared.running p hpt rfl).2⟩
  · have hrun : Spared p t ∧ NoStop p s.printed t := by
      refine ht.invariant (I := fun u => Spared p u ∧ NoStop p s.printed u) ?_ ?_
      · exact ⟨hi.spared hp hun, fun _ => ⟨[], (List.append_nil _).symm, List.not_mem_nil⟩⟩
      · intro u a u' _ hu hsees hs
        have hstep := step_happens hs
        exact ⟨spared_step hpos hu.1 hstep, noStop_step hu.1 (hi.found p hp hworker) hsees hu.2 hstep⟩
    exact hrun.2 hpt

/-! ## A run -/

def exampleEngine : Engine := ⟨fun _ => [], allDigits, decimal⟩

/-- `php /wing_crontab.php` -/
def exampleSite : Site exampleEngine := crontab exampleEngine [0x70, 0x68, 0x70] [] (by decide) (by decide) (by decide)

def exampleWorker (pid : Int32) : ProcessInfo :=
  ⟨some [], some exampleSite.command, some [], some [], pid, 4, 0, 0, 0, 0, 0⟩

/-- `start`, up to its end. -/
def startActs (pid : Int32) (table : List ProcessInfo) : List Act :=
  [.begin .start, .goOn 0 (.created (some (exampleWorker pid))), .goOn 0 (.written .ok), .goOn 0 (.table table)]

/-- After a second `start` the first service is there for good. -/
theorem unnamed_for_good_two :
    ∃ s, (services exampleSite).Reachable s ∧ s.pidFile = some 12 ∧ ∃ p ∈ s.processes, p.processId = 8 ∧
      (∀ t, ((services exampleSite).startingAt s).Reachable t → p ∉ t.killed ∧ (p ∈ t.processes → t.Unnamed 8)) ∧
      ∀ t, ((services exampleSite).startingAt s).Reach Sees t → p ∈ t.processes →
        ∃ new, t.printed = s.printed ++ new ∧ Message.stopped ∉ new := by
  obtain ⟨s, hr, hprocesses, hfile, hscripts⟩ := Machine.exists_reachable (M := services exampleSite)
    (p := fun s => s.processes = [⟨exampleWorker 8, 0, true⟩, ⟨exampleWorker 12, 1, true⟩] ∧ s.pidFile = some 12 ∧
      s.scripts = [])
    (startActs 8 [exampleWorker 8] ++ startActs 12 [exampleWorker 8, exampleWorker 12]) (by decide +kernel)
  have hp : (⟨exampleWorker 8, 0, true⟩ : Running) ∈ s.processes := by
    rw [hprocesses]
    exact List.mem_cons_self
  have hun : s.Unnamed 8 := by
    refine ⟨by rw [hfile]; decide, ?_⟩
    rw [hscripts]
    exact nofun
  obtain ⟨hkilled, hstop⟩ := unnamed_for_good hr hp hun
  exact ⟨s, hr, hfile, _, hp, rfl, hkilled, hstop rfl⟩

end WingPhp.ServiceControl
