import WingPhp.Process.Mutex

/-!
# Scripts that run once

A script that is to run once at a time asks `wing_create_mutex` for a mutex and ends unless it gets it.

`one_owner`: it is never got by two.  `refused_while_inherited`: a child that was started with it keeps it from
everybody, also after its owner.  `handles_accounted`: which handles a process has between its calls, and what
`wing_query_object` counts.
-/

namespace WingPhp.Process

open HandleTable Transition

variable {s s' t : Kernel}

/-- **At most one.**  Of all processes at most one has got the mutex and not closed it, or is about to get it. -/
theorem one_owner (h : kernel.Reachable s) (mutex : Mutex) : refs (s.flatMap Proc.owned) (.mutex mutex) ≤ 1 :=
  (reachable_kernelAt h).owned mutex

/-! ## A run -/

/-- `wing_create_mutex( "a" )` -/
def exampleMutex : Handle Object := ⟨8, .mutex (.named [97]), true⟩

/-- A script gets the mutex and starts another one; a third is started by hand. -/
def exampleStart : List Act :=
  [.start 100, .call 0 (.createMutex [97] (some 8) 0), .goOn 0 .none, .call 0 (.createProcess true (some 12)),
    .goOn 0 (.created (some ⟨200, 16, 20⟩)), .goOn 0 .none, .start 300]

/-- Then the first one comes to its end. -/
def orphaned : Kernel :=
  [⟨200, [⟨12, .file, true⟩, exampleMutex], .script, 0, [], [⟨12, .file, true⟩, exampleMutex], []⟩, .new 300 []]

theorem orphaned_reachable : kernel.Reachable orphaned := by
  have hrun : kernel.exec kernel.init (exampleStart ++ [.exit 0]) = some orphaned := by decide
  exact Machine.Reachable.exec .init hrun

/-- The third one asks while the first one has it. -/
theorem one_owner_asked :
    ∃ s, kernel.Reachable s ∧ s.map Proc.ret = [200, 0, 183] ∧
      refs (s.flatMap Proc.owned) (.mutex (.named [97])) ≤ 1 := by
  obtain ⟨s, hr, hret⟩ := Machine.exists_reachable (M := kernel) (p := fun s => s.map Proc.ret = [200, 0, 183])
    (exampleStart ++ [.call 2 (.createMutex [97] (some 4) 0), .goOn 2 .none]) (by decide)
  exact ⟨s, hr, hret, one_owner hr (.named [97])⟩

/-! ## Children -/

/-- A step that neither ends this process nor closes a handle in it. -/
def Spares (pid : Nat) (s : Kernel) : Act → Prop
  | .start _ => True
  | .exit i => ∀ p ∈ s[i]?, p.pid ≠ pid
  | .call i c => ∀ p ∈ s[i]?, p.pid = pid → ∀ v, c ≠ .closeMutex v
  | .goOn i answer => ∀ p ∈ s[i]?, ∀ h, p.pc = .killing h pid → answer ≠ .terminated true

/-- What a process inherited stays with it. -/
theorem inherited_step {a : Act} {q : Proc} {x : Handle Object} (hs : KernelAt s) (hq : q ∈ s) (hx : x ∈ q.inherited)
    (ha : Spares q.pid s a) (h : step s a = some s') : ∃ q' ∈ s', q'.pid = q.pid ∧ x ∈ q'.inherited := by
  -- another process goes on, or this one does
  have hset : ∀ i p p', s[i]? = some p → p'.pid = p.pid → (p.pid = q.pid → p'.inherited = p.inherited) →
      ∃ q' ∈ s.set i p', q'.pid = q.pid ∧ x ∈ q'.inherited := by
    intro i p p' hi hpid hinherited
    obtain ⟨j, hj⟩ := List.mem_iff_getElem?.mp hq
    by_cases hij : i = j
    · subst hij
      obtain rfl : p = q := Option.some.inj (hi.symm.trans hj)
      exact ⟨p', List.mem_set (List.getElem?_eq_some_iff.mp hi).1 p', hpid, by rwa [hinherited rfl]⟩
    · refine ⟨q, List.mem_of_getElem? (i := j) ?_, rfl, hx⟩
      rwa [List.getElem?_set_ne hij]
  rcases step_cases hs h with ⟨pid, rfl⟩ | ⟨i, rfl, rfl⟩ | ⟨i, p, p', hi, hcalm, hs'⟩ |
    ⟨i, p, p', v, hi, rfl, hless, rfl⟩ | ⟨i, p, p', name, hi, hpc, hwins, rfl⟩
  · exact ⟨q, List.mem_append_left _ hq, rfl, hx⟩
  · obtain ⟨j, hj⟩ := List.mem_iff_getElem?.mp hq
    have hne : j ≠ i := by
      rintro rfl
      exact ha q hj rfl
    exact ⟨q, List.mem_eraseIdx_iff_getElem?.mpr ⟨j, hne, hj⟩, rfl, hx⟩
  · obtain ⟨q', hq', hpid, hx'⟩ := hset i p p' hi hcalm.pid fun _ => hcalm.inherited
    rcases hs' with rfl | ⟨process, pid, hpc, rfl, rfl⟩ | ⟨output, pid, hpc, rfl⟩
    · exact ⟨q', hq', hpid, hx'⟩
    · refine ⟨q', List.mem_filter.mpr ⟨hq', ?_⟩, hpid, hx'⟩
      rw [bne_iff_ne, hpid]
      rintro rfl
      exact ha p hi process hpc rfl
    · exact ⟨q', List.mem_append_left _ hq', hpid, hx'⟩
  · exact hset i p p' hi hless.pid fun hpid => absurd rfl (ha p hi hpid v)
  · obtain ⟨v, -, rfl⟩ := hwins.won
    exact hset i p _ hi rfl fun _ => rfl

/-- A mutex is got only where there is no handle of it. -/
theorem owned_step {a : Act} {mutex : Mutex} (hs : KernelAt s) (h : step s a = some s')
    (hhandle : 0 < refs s.handles (.mutex mutex)) :
    refs (s'.flatMap Proc.owned) (.mutex mutex) ≤ refs (s.flatMap Proc.owned) (.mutex mutex) := by
  have hset : ∀ i p p', s[i]? = some p → refs p'.owned (.mutex mutex) ≤ refs p.owned (.mutex mutex) →
      refs ((s.set i p').flatMap Proc.owned) (.mutex mutex) ≤ refs (s.flatMap Proc.owned) (.mutex mutex) := by
    intro i p p' hi hle
    have hcount := refs_owned_set hi p' (.mutex mutex)
    omega
  rcases step_cases hs h with ⟨pid, rfl⟩ | ⟨i, rfl, rfl⟩ | ⟨i, p, p', hi, hcalm, hs'⟩ |
    ⟨i, p, p', v, hi, rfl, hless, rfl⟩ | ⟨i, p, p', name, hi, hpc, hwins, rfl⟩
  · rw [List.flatMap_append, refs_append]
    exact Nat.le_refl _
  · exact refs_sublist ((List.eraseIdx_sublist _ _).flatMap _) _
  · have hle := hset i p p' hi (Nat.le_of_eq (by rw [hcalm.owned]))
    rcases hs' with rfl | ⟨process, pid, hpc, rfl, rfl⟩ | ⟨output, pid, hpc, rfl⟩
    · exact hle
    · exact (refs_sublist (List.filter_sublist.flatMap _) _).trans hle
    · rw [List.flatMap_append, refs_append]
      exact hle
  · exact hset i p p' hi (refs_sublist hless.owned _)
  · obtain ⟨v, -, rfl⟩ := hwins.won
    have hne : name ≠ mutex := by
      rintro rfl
      have hnone := hwins.none
      omega
    refine hset i p _ hi ?_
    show refs (⟨v, .mutex name, true⟩ :: p.mutexes) _ ≤ _
    rw [refs_cons, if_neg (by simpa using hne), Proc.owned, hpc]
    exact Nat.le_refl _

/-- **A child keeps the mutex.**  Once its owner has closed it or is gone, a process that inherited the mutex keeps it:
no script gets it, in any run that neither ends this process nor closes a handle in it. -/
theorem refused_while_inherited {mutex : Mutex} {q : Proc} {x : Handle Object} (h : kernel.Reachable s)
    (hq : q ∈ s) (hx : x ∈ q.inherited) (hobject : x.object = .mutex mutex)
    (hnone : refs (s.flatMap Proc.owned) (.mutex mutex) = 0)
    (hrun : (kernel.startingAt s).Reach (Spares q.pid) t) :
    refs (t.flatMap Proc.owned) (.mutex mutex) = 0 ∧ ∃ q' ∈ t, q'.pid = q.pid ∧ x ∈ q'.inherited := by
  have hall := hrun.invariant (I := fun u => KernelAt u ∧ refs (u.flatMap Proc.owned) (.mutex mutex) = 0 ∧
      ∃ q' ∈ u, q'.pid = q.pid ∧ x ∈ q'.inherited) ⟨reachable_kernelAt h, hnone, q, hq, rfl, hx⟩ ?_
  · exact hall.2
  · rintro u a u' - ⟨hu, hzero, q', hq', hpid, hx'⟩ ha hstep
    have hhandle : 0 < refs u.handles (.mutex mutex) := by
      refine refs_pos_iff.mpr ⟨x, List.mem_flatMap.mpr ⟨q', hq', ?_⟩, hobject⟩
      exact (hu.procs q' hq').kept_subset x (List.mem_append_right _ hx')
    have hle := owned_step hu hstep hhandle
    refine ⟨step_kernelAt hu hstep, by omega, ?_⟩
    obtain ⟨q'', hq'', hpid', hx''⟩ := inherited_step hu hq' hx' (by rwa [hpid]) hstep
    exact ⟨q'', hq'', hpid'.trans hpid, hx''⟩

/-- The third script asks for the mutex of the first, which the second has inherited. -/
theorem refused_while_inherited_orphaned :
    ∃ t : Kernel, (kernel.startingAt orphaned).Reach (Spares 200) t ∧ t.map Proc.ret = [0, 183] ∧
      refs (t.flatMap Proc.owned) (.mutex (.named [97])) = 0 ∧
      ∃ q' ∈ t, q'.pid = 200 ∧ exampleMutex ∈ q'.inherited := by
  have hask : ∀ a : Act, a = .call 1 (.createMutex [97] (some 4) 0) → Spares 200 orphaned a := by
    rintro a rfl p hp hpid
    obtain rfl := Option.some.inj hp
    cases hpid
  obtain ⟨u, hu⟩ : ∃ u, step orphaned (.call 1 (.createMutex [97] (some 4) 0)) = some u := ⟨_, rfl⟩
  obtain ⟨t, ht⟩ : ∃ t, step u (.goOn 1 .none) = some t := by
    obtain rfl := Option.some.inj hu
    exact ⟨_, rfl⟩
  have hrun : (kernel.startingAt orphaned).Reach (Spares 200) t := by
    refine .step (a := .goOn 1 .none) (.step (a := .call 1 (.createMutex [97] (some 4) 0)) .init (hask _ rfl) hu) ?_ ht
    intro p _ h _ hanswer
    cases hanswer
  have hret : t.map Proc.ret = [0, 183] := by
    obtain rfl := Option.some.inj hu
    obtain rfl := Option.some.inj ht
    rfl
  exact ⟨t, hrun, hret, refused_while_inherited (q := orphaned[0]) orphaned_reachable List.mem_cons_self
    (List.mem_cons_of_mem _ List.mem_cons_self) rfl rfl hrun⟩

/-! ## How many handles there are -/

/-- The process has the mutex to keep: its script got it or is about to, or it inherited it. -/
def Proc.holds (p : Proc) (mutex : Mutex) : Bool := 0 < refs p.kept (.mutex mutex)

/-- Its call has found that the mutex exists, and has not yet closed the handle. -/
def Proc.refused (p : Proc) (mutex : Mutex) : Bool := 0 < refs p.opened (.mutex mutex)

/-- A process has at most one handle of a mutex to keep, and its call at most one to close. -/
theorem refs_le (hs : KernelAt s) (mutex : Mutex) : ∀ p ∈ s,
    refs p.kept (.mutex mutex) ≤ 1 ∧ refs p.opened (.mutex mutex) ≤ 1 := by
  intro p hp
  have hpa := hs.procs p hp
  have hdistinct := hpa.distinct.perm hpa.accounted
  obtain ⟨v, hv⟩ := hs.value mutex
  constructor
  · exact refs_le_one (hdistinct.sublist (List.sublist_append_right _ _)) (hv p hp)
  · -- all of them are the handle of this one call
    by_cases hany : ∃ x ∈ p.opened, x.object = .mutex mutex
    · obtain ⟨x, hx, hxo⟩ := hany
      have hpc := hpa.opened_mutex x hx mutex hxo
      refine refs_le_one (v := x.value) (hdistinct.sublist (List.sublist_append_left _ _)) fun y hy hyo => ?_
      have hpc' := hpa.opened_mutex y hy mutex hyo
      rw [hpc] at hpc'
      obtain ⟨rfl, -⟩ := Pc.mutexCreated.inj hpc'
      rfl
    · have hnone : ¬ 0 < refs p.opened (.mutex mutex) := fun hpos => hany (refs_pos_iff.mp hpos)
      omega

/-- **What a process has between its calls**, and what there is of a mutex.  A process whose script runs has exactly the
handles its script got from `wing_create_mutex`, those it inherited and those of the processes `WingQueryProcess`
opened, less those the script closed: no other call leaves a handle behind.  All handles of a mutex that are kept have
one value, no process has two of them, and `wing_query_object` counts the processes that have one and those that are
being refused. -/
theorem handles_accounted (h : kernel.Reachable s) :
    (∀ p ∈ s, (p.pc = .script → p.handles.Perm (p.queried ++ (p.mutexes ++ p.inherited))) ∧
        ∀ x ∈ p.queried, (∃ pid, x.object = .process pid) ∧ x.inherit = false) ∧
      ∀ mutex, (∃ v, ∀ p ∈ s, ∀ x ∈ p.kept, x.object = .mutex mutex → x.value = v) ∧
        ∀ (p : Proc) (x : Handle Object) (handle : Int), p ∈ s → lookup p.handles (slot handle) = some x →
          x.object = .mutex mutex → handle ≠ 0 → handle ≠ -1 →
            (wingQueryObject s p handle).ret =
              ((s.countP (Proc.holds · mutex) + s.countP (Proc.refused · mutex) : Nat) : Int) := by
  have hs := reachable_kernelAt h
  refine ⟨fun p hp => ⟨fun hpc => ?_, (hs.procs p hp).queried⟩, fun mutex => ⟨hs.value mutex, ?_⟩⟩
  · have haccounted := (hs.procs p hp).accounted
    rw [Proc.opened, Proc.kept, Proc.owned, hpc] at haccounted
    exact haccounted
  · intro p x handle hp hx hobject hzero hpseudo
    have hrefs : refs s.handles (.mutex mutex) =
        s.countP (Proc.holds · mutex) + s.countP (Proc.refused · mutex) := by
      have hle := refs_le hs mutex
      rw [Kernel.handles, refs_flatMap_perm fun p hp => (hs.procs p hp).accounted, refs_flatMap_append,
        refs_flatMap_eq_countP fun p hp => (hle p hp).1, refs_flatMap_eq_countP fun p hp => (hle p hp).2, Nat.add_comm]
      rfl
    rw [wingQueryObject, if_neg (by simp [hzero, hpseudo]), hx]
    dsimp only
    rw [hobject, hrefs]
    rfl

/-- A process list that shows the first script and the third. -/
def exampleSnapshot : Snapshot where
  chain := some ([100, 300].map fun pid => ⟨pid, 0, some [], true, none, none, none, 0, 0, 0, 0, 0, 0⟩)
  toolhelp := none
  commandLine := []

/-- The child asks for the process list; the handle of the first script stays open in it.  The first script and the
child count two handles of the mutex. -/
theorem handles_accounted_asked :
    ∃ (s : Kernel) (p : Proc), kernel.Reachable s ∧ p ∈ s ∧ lookup p.handles 8 = some exampleMutex ∧
      p.queried = [⟨4, .process 100, false⟩] ∧ p.handles.Perm (p.queried ++ (p.mutexes ++ p.inherited)) ∧
      (wingQueryObject s p 8).ret = 2 ∧ (wingQueryObject s p 8).ret =
        ((s.countP (Proc.holds · (.named [97])) + s.countP (Proc.refused · (.named [97])) : Nat) : Int) := by
  obtain ⟨s, hr, p, hp, hlookup, hqueried, hpc, hret⟩ := Machine.exists_reachable (M := kernel)
    (p := fun s => ∃ p ∈ s, lookup p.handles 8 = some exampleMutex ∧ p.queried = [⟨4, .process 100, false⟩] ∧
      p.pc = .script ∧ (wingQueryObject s p 8).ret = 2)
    (exampleStart ++ [.call 1 (.queryProcess exampleSnapshot 0), .goOn 1 (.listed exampleSnapshot),
      .goOn 1 (.opened (some 4)), .goOn 1 .none]) (by decide)
  have haccounted := handles_accounted hr
  exact ⟨s, p, hr, hp, hlookup, hqueried, (haccounted.1 p hp).1 hpc, hret,
    (haccounted.2 (.named [97])).2 p exampleMutex 8 hp hlookup rfl (by decide) (by decide)⟩

end WingPhp.Process
