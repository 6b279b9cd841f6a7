import WingPhp.Simples.ServiceRuns

/-!
# Services that can be stopped

`orderly_runs`: where the scripts run one at a time and to their end, `start` only without the file, a service ends only
by `wing_process_kill`, and the queries see what runs, the file names the service that runs, and no other process is
ever ended.
-/

namespace WingPhp.ServiceControl

open Process Transition

variable {engine : Engine} {site : Site engine} {s s' : State}

/-- The table lists what runs, without NULL strings. -/
structure Lists (s : State) (table : List ProcessInfo) : Prop where
  whole : ∀ info ∈ table, info.Whole
  runs : ∀ info ∈ table, ∃ p ∈ s.processes, p.info = info
  listed : ∀ p ∈ s.processes, p.info ∈ table

instance (info : ProcessInfo) : Decidable info.Whole :=
  decidable_of_iff (info.processName.isSome = true ∧ info.commandLine.isSome = true ∧
      info.fileName.isSome = true ∧ info.filePath.isSome = true) (by
    constructor
    · rintro ⟨hname, hline, hfile, hpath⟩ f
      cases f <;> assumption
    · intro h
      exact ⟨h .processName, h .commandLine, h .fileName, h .filePath⟩)

instance (s : State) (table : List ProcessInfo) : Decidable (Lists s table) :=
  decidable_of_iff ((∀ info ∈ table, info.Whole) ∧ (∀ info ∈ table, ∃ p ∈ s.processes, p.info = info) ∧
      ∀ p ∈ s.processes, p.info ∈ table)
    ⟨fun ⟨hwhole, hruns, hlisted⟩ => ⟨hwhole, hruns, hlisted⟩, fun h => ⟨h.whole, h.runs, h.listed⟩⟩

/-- How the scripts are meant to be used. -/
def Orderly (site : Site engine) (s : State) : Act → Prop
  | .launch info => ¬ Found site info
  | .exit k => ∀ p ∈ s.processes[k]?, p.worker = false
  | .begin command => s.scripts = [] ∧ (command = .start → s.pidFile = none)
  | .abort _ => False
  | .goOn _ (.table table) => Lists s table
  | .goOn _ (.read read) => read = true
  | .goOn _ (.written written) => written = .ok
  | .goOn _ (.unlinked unlinked) => unlinked = true
  -- `restart` starts the service whether it has been stopped or not
  | .goOn i (.terminated false) =>
    match s.scripts[i]? with
    | some (.kill true pid) => ∀ p ∈ s.processes, p.processId ≠ pid
    | _ => True
  | .goOn _ _ => True

instance (s : State) (a : Act) : Decidable (Orderly site s a) := by
  unfold Orderly
  split
  case h_9 => split <;> infer_instance
  all_goals infer_instance

/-! ## What the scripts know -/

/-- This is the id of the service that runs, if one does. -/
structure Names (s : State) (pid : Option Int32) : Prop where
  worker : ∀ p ∈ s.processes, p.worker = true ↔ pid = some p.processId
  running : ∀ v, pid = some v → 0 < v → ∃ p ∈ s.processes, p.processId = v

theorem names_none : Names s none ↔ ∀ p ∈ s.processes, p.worker = false := by
  constructor
  · intro h p hp
    apply Bool.eq_false_iff.mpr
    intro hworker
    cases (h.worker p hp).mp hworker
  · intro h
    refine ⟨fun p hp => ?_, nofun⟩
    rw [h p hp]
    exact ⟨nofun, nofun⟩

/-- A number that is no id. -/
theorem Names.no_id (h : Names s none) {v : Int32} (hv : ¬ 0 < v) (hpos : ∀ p ∈ s.processes, 0 < p.processId) :
    Names s (some v) where
  worker := by
    intro p hp
    rw [names_none.mp h p hp]
    refine ⟨nofun, fun heq => ?_⟩
    obtain rfl := Option.some.inj heq
    exact absurd (hpos p hp) hv
  running := by
    intro w hw hpos
    obtain rfl := Option.some.inj hw
    exact absurd hpos hv

theorem Names.same {pid : Option Int32} (h : Names s pid) (hsame : s'.processes = s.processes) : Names s' pid :=
  ⟨by rw [hsame]; exact h.worker, by rw [hsame]; exact h.running⟩

/-- Another program starts. -/
theorem Names.add {pid : Option Int32} (h : Names s pid) {info : ProcessInfo} (hnew : s.New info) :
    Names (s.add info false) pid where
  worker := by
    intro p hp
    rcases List.mem_append.mp hp with hp | hp
    · exact h.worker p hp
    · obtain rfl := List.mem_singleton.mp hp
      refine ⟨nofun, fun heq => ?_⟩
      obtain ⟨q, hq, hpid⟩ := h.running _ heq hnew.1
      exact absurd hpid (hnew.2 q hq)
  running := by
    intro v hv hpos
    obtain ⟨p, hp, hpid⟩ := h.running v hv hpos
    exact ⟨p, List.mem_append_left _ hp, hpid⟩

/-- Another program ends. -/
theorem Names.exit {pid : Option Int32} (h : Names s pid) {k : Nat} (hother : ∀ p ∈ s.processes[k]?, p.worker = false) :
    Names { s with processes := s.processes.eraseIdx k } pid where
  worker p hp := h.worker p (List.mem_of_mem_eraseIdx hp)
  running := by
    intro v hv hpos
    obtain ⟨p, hp, hpid⟩ := h.running v hv hpos
    obtain ⟨j, hj⟩ := List.getElem?_of_mem hp
    refine ⟨p, List.mem_eraseIdx_iff_getElem?.mpr ⟨j, ?_, hj⟩, hpid⟩
    rintro rfl
    -- the one that is named is the service
    have hworker := (h.worker p hp).mpr (by rw [hv, hpid])
    rw [hother p hj] at hworker
    cases hworker

/-- The service is created. -/
theorem Names.created (h : Names s none) {info : ProcessInfo} (hnew : s.New info) :
    Names (s.add info true) (some info.processId) where
  worker := by
    intro p hp
    rcases List.mem_append.mp hp with hp | hp
    · rw [names_none.mp h p hp]
      refine ⟨nofun, fun heq => ?_⟩
      exact absurd (Option.some.inj heq).symm (hnew.2 p hp)
    · obtain rfl := List.mem_singleton.mp hp
      exact ⟨fun _ => rfl, fun _ => rfl⟩
  running := by
    intro v hv _
    obtain rfl := Option.some.inj hv
    exact ⟨_, List.mem_append_right _ (List.mem_singleton_self _), rfl⟩

/-- The service is ended. -/
theorem Names.terminate {pid : Int32} (h : Names s (some pid)) : Names (s.terminate pid) none := by
  apply names_none.mpr
  intro p hp
  obtain ⟨hp, hne⟩ := List.mem_filter.mp hp
  apply Bool.eq_false_iff.mpr
  intro hworker
  obtain rfl := Option.some.inj ((h.worker p hp).mp hworker)
  simp at hne

/-! ## One script at a time -/

/-- What holds where the script is. -/
def Pc.Knows (s : State) : Pc → Prop
  | .getPid _ | .askRunning => Names s s.pidFile
  | .kill _ pid => Names s (some pid) ∧ Names s s.pidFile
  | .askStopped restart => Names s none ∨ restart = false ∧ Names s s.pidFile
  | .unlink _ | .create => Names s none
  | .putPid pid => Names s (some pid)

inductive InOrder (s : State) : Prop
  | idle : s.scripts = [] → Names s s.pidFile → InOrder s
  | busy {pc : Pc} : s.scripts = [pc] → pc.Knows s → InOrder s

theorem Knows.mono {pc : Pc} (h : pc.Knows s) (hnames : ∀ pid, Names s pid → Names s' pid)
    (hpidFile : s'.pidFile = s.pidFile) : pc.Knows s' := by
  unfold Pc.Knows at h ⊢
  rw [hpidFile]
  cases pc with
  | getPid | askRunning | unlink | create | putPid => exact hnames _ h
  | kill => exact ⟨hnames _ h.1, hnames _ h.2⟩
  | askStopped => exact h.imp (hnames _) fun h => ⟨h.1, hnames _ h.2⟩

theorem InOrder.mono (h : InOrder s) (hnames : ∀ pid, Names s pid → Names s' pid)
    (hpidFile : s'.pidFile = s.pidFile) (hscripts : s'.scripts = s.scripts) : InOrder s' := by
  cases h with
  | idle hs hn =>
    refine .idle (by rw [hscripts, hs]) ?_
    rw [hpidFile]
    exact hnames _ hn
  | busy hs hk => exact .busy (by rw [hscripts, hs]) (Knows.mono hk hnames hpidFile)

/-- The script that goes on is the only one. -/
theorem InOrder.script (h : InOrder s) {i : Nat} {pc : Pc} (hpc : s.scripts[i]? = some pc) :
    i = 0 ∧ s.scripts = [pc] ∧ pc.Knows s := by
  cases h with
  | idle hs =>
    rw [hs] at hpc
    cases hpc
  | busy hs hk =>
    rw [hs] at hpc
    have hi : i = 0 := by
      have := (List.getElem?_eq_some_iff.mp hpc).1
      simpa using this
    subst hi
    obtain rfl := Option.some.inj hpc
    exact ⟨rfl, hs, hk⟩

/-- It goes on somewhere else. -/
theorem InOrder.goto {t : State} {pc : Pc} (hscripts : t.scripts = [pc]) {pc' : Pc}
    (h : pc'.Knows (t.goto 0 (some pc'))) : InOrder (t.goto 0 (some pc')) := by
  refine .busy ?_ h
  show t.scripts.set 0 pc' = [pc']
  rw [hscripts]
  rfl

/-- It comes to its end. -/
theorem InOrder.leave {t : State} {pc : Pc} (hscripts : t.scripts = [pc]) (h : Names t t.pidFile) :
    InOrder (t.goto 0 none) := by
  refine .idle ?_ (h.same rfl)
  show t.scripts.eraseIdx 0 = []
  rw [hscripts]
  rfl

structure Ordered (site : Site engine) (s : State) : Prop where
  sound : Sound site s
  found : ∀ p ∈ s.processes, Found site p.info → p.worker = true
  killed : ∀ p ∈ s.killed, p.worker = true
  inOrder : InOrder s

/-- The query finds nothing exactly if no service runs. -/
theorem Ordered.items_nil (hi : Ordered site s) {table : List ProcessInfo} (ht : Lists s table) {r : SearchResult}
    (hr : site.queryProcess table = some r) : r.items = [] ↔ Names s none := by
  obtain ⟨r', hr', hitems⟩ := queryProcess_whole site ht.whole
  obtain rfl := Option.some.inj (hr.symm.trans hr')
  rw [hitems, names_none]
  constructor
  · intro hnone p hp
    apply Bool.eq_false_iff.mpr
    intro hworker
    exact hnone p.info (ht.listed p hp) (hi.sound.found p hp hworker)
  · intro hnone info hinfo hfound
    obtain ⟨p, hp, rfl⟩ := ht.runs info hinfo
    have hworker := hi.found p hp hfound
    rw [hnone p hp] at hworker
    cases hworker

/-- The services that are found are those the scripts have created. -/
theorem found_step {a : Act} (hi : Ordered site s) (ha : Orderly site s a) (h : Happens site s a s') :
    ∀ p ∈ s'.processes, Found site p.info → p.worker = true := by
  cases h with
  | launch =>
    intro p hp hfound
    rcases List.mem_append.mp hp with hp | hp
    · exact hi.found p hp hfound
    · obtain rfl := List.mem_singleton.mp hp
      exact absurd hfound ha
  | exit => exact fun p hp => hi.found p (List.mem_of_mem_eraseIdx hp)
  | begin => exact hi.found
  | killed =>
    rw [goto_processes]
    exact fun p hp => hi.found p (List.mem_of_mem_filter hp)
  | created =>
    rw [goto_processes]
    intro p hp hfound
    rcases List.mem_append.mp hp with hp | hp
    · exact hi.found p hp hfound
    · obtain rfl := List.mem_singleton.mp hp
      rfl
  | _ =>
    rw [goto_processes]
    exact hi.found

/-- What is ended is the service. -/
theorem killed_step {a : Act} (hi : Ordered site s) (h : Happens site s a s') : ∀ p ∈ s'.killed, p.worker = true := by
  cases h with
  | launch | exit | begin => exact hi.killed
  | @killed i restart pid hscript =>
    rw [goto_killed]
    intro p hp
    rcases List.mem_append.mp hp with hp | hp
    · exact hi.killed p hp
    · obtain ⟨hp, hpid⟩ := List.mem_filter.mp hp
      obtain ⟨-, -, hnames, -⟩ := hi.inOrder.script hscript
      exact (hnames.worker p hp).mpr (by rw [eq_of_beq hpid])
  | _ =>
    rw [goto_killed]
    exact hi.killed

/-- After a stop no service runs, or the script is at its end and the file names it. -/
theorem afterStop_inOrder {t : State} {pc : Pc} {restart : Bool} (hscripts : t.scripts = [pc])
    (hnone : restart = true → Names t none) (hfile : restart = false → Names t t.pidFile) :
    InOrder (t.goto 0 (afterStop restart)) := by
  cases restart with
  | true => exact .goto hscripts ((hnone rfl).same rfl)
  | false => exact .leave hscripts (hfile rfl)

theorem inOrder_step {a : Act} (hi : Ordered site s) (ha : Orderly site s a) (h : Happens site s a s') :
    InOrder s' := by
  have hpos := hi.sound.positive
  cases h with
  | launch hnew => exact hi.inOrder.mono (fun _ hn => hn.add hnew) rfl rfl
  | exit => exact hi.inOrder.mono (fun _ hn => hn.exit ha) rfl rfl
  | @begin command =>
    obtain ⟨hscripts, hstart⟩ := ha
    have hnames : Names s s.pidFile := by
      cases hi.inOrder with
      | idle _ hn => exact hn
      | busy hs =>
        rw [hscripts] at hs
        cases hs
    have hone : s.scripts ++ [command.pc] = [command.pc] := by rw [hscripts, List.nil_append]
    refine .busy hone ?_
    cases command with
    | stop | restart => exact hnames.same rfl
    | start =>
      rw [hstart rfl] at hnames
      exact hnames.same rfl
  | abort => exact ha.elim
  | @getPid i restart read hscript =>
    obtain ⟨rfl, hscripts, hnames⟩ := hi.inOrder.script hscript
    have hread : read = true := ha
    refine .goto hscripts ⟨?_, hnames.same rfl⟩
    have hn : Names s s.pidFile := hnames
    rw [State.fileGetContents, if_pos hread]
    cases hf : s.pidFile with
    | some v =>
      rw [hf] at hn
      exact hn.same rfl
    | none =>
      rw [hf] at hn
      exact (hn.no_id (by decide) hpos).same rfl
  | @killed i restart pid hscript =>
    obtain ⟨rfl, hscripts, hnames⟩ := hi.inOrder.script hscript
    exact InOrder.goto (t := s.terminate pid) hscripts (Or.inl (hnames.1.terminate.same rfl))
  | @spared i restart pid hscript =>
    obtain ⟨rfl, hscripts, hnames⟩ := hi.inOrder.script hscript
    refine .goto hscripts ?_
    cases restart with
    | false => exact .inr ⟨rfl, hnames.2.same rfl⟩
    | true =>
      have hnot : ∀ p ∈ s.processes, p.processId ≠ pid := by
        have ha' := ha
        simp only [Orderly, hscript] at ha'
        exact ha'
      refine .inl (names_none.mpr fun p hp => ?_)
      apply Bool.eq_false_iff.mpr
      intro hworker
      exact hnot p hp (Option.some.inj ((hnames.1.worker p hp).mp hworker)).symm
  | crashed hr =>
    obtain ⟨r, hr', -⟩ := queryProcess_whole site (Lists.whole ha)
    rw [hr'] at hr
    cases hr
  | @stopped i restart table r hscript hr hnil =>
    obtain ⟨rfl, hscripts, -⟩ := hi.inOrder.script hscript
    have hnone : Names s none := (hi.items_nil ha hr).mp hnil
    exact InOrder.goto (t := s.echo .stopped) hscripts (hnone.same rfl)
  | @stopFail i restart table r hscript hr hne =>
    obtain ⟨rfl, hscripts, hknows⟩ := hi.inOrder.script hscript
    rcases hknows with hnone | ⟨rfl, hnames⟩
    · exact absurd ((hi.items_nil ha hr).mpr hnone) hne
    · exact afterStop_inOrder hscripts (fun h => by cases h) fun _ => hnames.same rfl
  | @unlink i restart unlinked hscript =>
    obtain ⟨rfl, hscripts, hnone⟩ := hi.inOrder.script hscript
    have hun : unlinked = true := ha
    subst hun
    exact afterStop_inOrder hscripts (fun _ => Names.same hnone rfl) fun _ => Names.same hnone rfl
  | @created i info hscript hnew =>
    obtain ⟨rfl, hscripts, hnone⟩ := hi.inOrder.script hscript
    exact InOrder.goto (t := s.add info true) hscripts ((Names.created hnone hnew).same rfl)
  | notCreated hscript =>
    obtain ⟨rfl, hscripts, hnone⟩ := hi.inOrder.script hscript
    exact .goto hscripts ((Names.no_id hnone (by decide) hpos).same rfl)
  | @putPid i pid written hscript =>
    obtain ⟨rfl, hscripts, hnames⟩ := hi.inOrder.script hscript
    have hok : written = .ok := ha
    subst hok
    exact InOrder.goto (t := { s with pidFile := some pid }) hscripts (Names.same hnames rfl)
  | started hscript =>
    obtain ⟨rfl, hscripts, hnames⟩ := hi.inOrder.script hscript
    exact .leave hscripts (Names.same hnames rfl)

theorem orderly_ordered (h : (services site).Reach (Orderly site) s) : Ordered site s := by
  refine h.invariant (I := Ordered site) ?_ ?_
  · exact ⟨reachable_sound .init, nofun, nofun, .idle rfl (names_none.mpr nofun)⟩
  · intro s a s' _ hi ha hs
    have hstep := step_happens hs
    exact ⟨step_sound hi.sound hs, found_step hi ha hstep, killed_step hi hstep, inOrder_step hi ha hstep⟩

/-- Another program, without a text in it. -/
def exampleOther : ProcessInfo := ⟨some [], some [], some [], some [], 8, 4, 0, 0, 0, 0, 0⟩

/-- `stop`, up to its end. -/
def stopActs (table : List ProcessInfo) : List Act :=
  [.begin .stop, .goOn 0 (.read true), .goOn 0 (.terminated true), .goOn 0 (.table table), .goOn 0 (.unlinked true)]

end WingPhp.ServiceControl
