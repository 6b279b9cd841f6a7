import Mathlib.Data.List.Flatten
import WingPhp.Process.Kernel

/-!
# One instance at a time

What holds whatever the processes do: the handles of a process are those of its call, those its calls left open, those
its script got and those it inherited (`Proc.At`); a mutex has one owner at most, and all its handles that are kept have
one value (`KernelAt`).
-/

namespace WingPhp.Process

open HandleTable Transition

/-- What the call closes before it returns. -/
def Pc.open : Pc → List (Handle Object)
  | .script => []
  | .mutexCreated mutex existed => if existed then [mutex] else []
  | .waiting process _ => process.toList
  | .killing process _ => [process]
  | .measuring process => process.toList
  | .redirected output => output.toList
  | .processCreated output process thread _ => output.toList ++ [process, thread]
  | .counting hProcessSnap _ => hProcessSnap.toList
  | .filling .. => []
  | .adding hProcessSnap _ _ => [hProcessSnap]

/-- What the call is about to return. -/
def Pc.won : Pc → List (Handle Object)
  | .mutexCreated mutex existed => if existed then [] else [mutex]
  | _ => []

/-- What the calls have opened and not closed. -/
def Proc.opened (p : Proc) : List (Handle Object) := p.pc.open ++ p.queried

/-- What the script has got, or is about to get. -/
def Proc.owned (p : Proc) : List (Handle Object) := p.pc.won ++ p.mutexes

def Proc.kept (p : Proc) : List (Handle Object) := p.owned ++ p.inherited

structure Proc.At (p : Proc) : Prop where
  accounted : p.handles.Perm (p.opened ++ p.kept)
  distinct : Distinct p.handles
  calling : ∀ h ∈ p.pc.open, ∀ mutex, h.object = .mutex mutex → p.pc = .mutexCreated h true
  queried : ∀ h ∈ p.queried, (∃ pid, h.object = .process pid) ∧ h.inherit = false

structure KernelAt (s : Kernel) : Prop where
  procs : ∀ p ∈ s, p.At
  owned : ∀ mutex, refs (s.flatMap Proc.owned) (.mutex mutex) ≤ 1
  value : ∀ mutex, ∃ v, ∀ p ∈ s, ∀ h ∈ p.kept, h.object = .mutex mutex → h.value = v

/-! ## One process -/

/-- A step of a process that keeps what the script has. -/
structure Calm (p p' : Proc) : Prop where
  proc : p'.At
  pid : p'.pid = p.pid
  owned : p'.owned = p.owned
  inherited : p'.inherited = p.inherited

/-- A step of a process that gets no mutex. -/
structure Less (p p' : Proc) : Prop where
  proc : p'.At
  pid : p'.pid = p.pid
  owned : p'.owned.Sublist p.owned
  inherited : p'.inherited.Sublist p.inherited

theorem Calm.less {p p' : Proc} (h : Calm p p') : Less p p' :=
  ⟨h.proc, h.pid, by rw [h.owned], by rw [h.inherited]⟩

variable {p p' : Proc} {h : Handle Object}

theorem Proc.free_not_mem {v : Nat} (hfree : p.free v = true) : v ∉ values p.handles := by
  simp only [Proc.free, Bool.and_eq_true, Bool.not_eq_true'] at hfree
  simpa using hfree.2

theorem Proc.free_cons {v : Nat} {x : Handle Object} (hfree : p.free v = true) (hne : v ≠ x.value) :
    v ∉ values (p.get x).handles := by
  intro hmem
  rcases List.mem_cons.mp hmem with heq | hmem
  · exact hne heq
  · exact Proc.free_not_mem hfree hmem

/-- The handles of the script are as they were. -/
theorem Calm.of_same (hpid : p'.pid = p.pid) (hwon : p.pc.won = []) (hwon' : p'.pc.won = [])
    (hmutexes : p'.mutexes = p.mutexes) (hinherited : p'.inherited = p.inherited)
    (haccounted : p'.handles.Perm (p'.opened ++ p.kept)) (hdistinct : Distinct p'.handles)
    (hcalling : ∀ h ∈ p'.pc.open, ∀ mutex, h.object = .mutex mutex → p'.pc = .mutexCreated h true)
    (hqueried : ∀ h ∈ p'.queried, (∃ pid, h.object = .process pid) ∧ h.inherit = false) : Calm p p' := by
  have howned : p'.owned = p.owned := by rw [Proc.owned, Proc.owned, hwon, hwon', hmutexes]
  have hkept : p'.kept = p.kept := by rw [Proc.kept, Proc.kept, howned, hinherited]
  refine ⟨⟨?_, hdistinct, hcalling, hqueried⟩, hpid, howned, hinherited⟩
  rwa [hkept]

/-- The handles of a process, those of its call first. -/
theorem Proc.At.accounted_open (hp : p.At) {l : List (Handle Object)} (hopen : p.pc.open = l) :
    p.handles.Perm (l ++ (p.queried ++ p.kept)) := by
  have haccounted := hp.accounted
  rwa [Proc.opened, hopen, List.append_assoc] at haccounted

/-- A call goes on and keeps the handles it has. -/
theorem Calm.next (hp : p.At) {pc : Pc} (hopen : pc.open = p.pc.open) (hwon : p.pc.won = []) (hwon' : pc.won = [])
    (hcalling : ∀ h ∈ pc.open, ∀ mutex, h.object ≠ .mutex mutex) (ret : Int) :
    Calm p { p with pc := pc, ret := ret } := by
  refine .of_same rfl hwon hwon' rfl rfl ?_ hp.distinct (fun h hh mutex hm => absurd hm (hcalling h hh mutex))
    hp.queried
  have haccounted := hp.accounted
  rwa [Proc.opened, ← hopen] at haccounted

/-- Nothing is opened and nothing closed. -/
theorem Calm.back (hp : p.At) (hopen : p.pc.open = []) (hwon : p.pc.won = []) (ret : Int) : Calm p (p.back ret) :=
  @Calm.next p hp .script hopen.symm hwon rfl (fun _ hh => by cases hh) ret

/-- A call that waits for nothing. -/
theorem Calm.pause (hp : p.At) (hpc : p.pc = .script) {pc : Pc} (hopen : pc.open = []) (hwon : pc.won = []) :
    Calm p { p with pc := pc } := by
  refine .next hp ?_ (congrArg Pc.won hpc) hwon (fun h hh => ?_) p.ret
  · rw [hopen, hpc]
    rfl
  · rw [hopen] at hh
    cases hh

/-- A call opens a handle. -/
theorem Calm.get (hp : p.At) (hnone : p.pc.open = []) (hwon : p.pc.won = []) (hfree : p.free h.value = true) {pc : Pc}
    (hopen : pc.open = [h]) (hwon' : pc.won = [])
    (hmutex : ∀ mutex, h.object = .mutex mutex → pc = .mutexCreated h true) : Calm p { p.get h with pc := pc } := by
  refine .of_same rfl hwon hwon' rfl rfl ?_ (hp.distinct.cons (Proc.free_not_mem hfree)) ?_ hp.queried
  · have haccounted := (hp.accounted_open hnone).cons h
    show (h :: p.handles).Perm (pc.open ++ p.queried ++ p.kept)
    rwa [hopen, List.append_assoc]
  · intro h' hh'
    have hmem : h' ∈ pc.open := hh'
    rw [hopen] at hmem
    obtain rfl := List.mem_singleton.mp hmem
    exact hmutex

/-- A call opens a handle that it will not close. -/
theorem Calm.leave (hp : p.At) (hfree : p.free h.value = true)
    (hprocess : (∃ pid, h.object = .process pid) ∧ h.inherit = false) {pc : Pc} (hopen : pc.open = p.pc.open)
    (hwon : p.pc.won = []) (hwon' : pc.won = []) (hcalling : ∀ h ∈ pc.open, ∀ mutex, h.object ≠ .mutex mutex) :
    Calm p { p.get h with pc := pc, queried := h :: p.queried } := by
  refine .of_same rfl hwon hwon' rfl rfl ?_ (hp.distinct.cons (Proc.free_not_mem hfree))
    (fun h hh mutex hm => absurd hm (hcalling h hh mutex)) ?_
  · have haccounted := (hp.accounted_open hopen.symm).cons h
    show (h :: p.handles).Perm (pc.open ++ h :: p.queried ++ p.kept)
    rw [List.append_assoc]
    exact haccounted.trans List.perm_middle.symm
  · exact List.forall_mem_cons.mpr ⟨hprocess, hp.queried⟩

/-- A call closes what it has opened. -/
theorem Calm.drop (hp : p.At) (hopen : p.pc.open = [h]) (hwon : p.pc.won = []) {pc : Pc} (hopen' : pc.open = [])
    (hwon' : pc.won = []) (ret : Int) : Calm p { p.drop h with pc := pc, ret := ret } := by
  refine .of_same rfl hwon hwon' rfl rfl ?_ (hp.distinct.sublist (close_sublist _ _)) (fun h' hh' => ?_) hp.queried
  · have hclose := close_perm hp.distinct (hp.accounted_open hopen)
    show (close p.handles h.value).Perm (pc.open ++ p.queried ++ p.kept)
    rwa [hopen', List.nil_append]
  · have hmem : h' ∈ pc.open := hh'
    rw [hopen'] at hmem
    cases hmem

theorem Calm.drop? (hp : p.At) {o : Option (Handle Object)} (hopen : p.pc.open = o.toList) (hwon : p.pc.won = [])
    {pc : Pc} (hopen' : pc.open = []) (hwon' : pc.won = []) (ret : Int) :
    Calm p { p.drop? o with pc := pc, ret := ret } := by
  cases o with
  | some h => exact .drop hp hopen hwon hopen' hwon' ret
  | none =>
    refine .next hp (hopen'.trans hopen.symm) hwon hwon' (fun h hh => ?_) ret
    rw [hopen'] at hh
    cases hh

/-- The child has been started. -/
theorem Calm.start (hp : p.At) {output : Option (Handle Object)} {process thread : Handle Object} {pid : Nat}
    (hpc : p.pc = .redirected output) (hprocess : p.free process.value = true) (hthread : p.free thread.value = true)
    (hne : process.value ≠ thread.value) (hobject : ∀ h ∈ [process, thread], ∀ mutex, h.object ≠ .mutex mutex) :
    Calm p { (p.get thread).get process with pc := .processCreated output process thread pid } := by
  have haccounted := hp.accounted_open (l := output.toList) (congrArg Pc.open hpc)
  have hdistinct := (hp.distinct.cons (Proc.free_not_mem hthread)).cons (Proc.free_cons hprocess hne)
  have hcalling := hp.calling
  rw [hpc] at hcalling
  refine .of_same rfl (congrArg Pc.won hpc) rfl rfl rfl ?_ hdistinct ?_ hp.queried
  · show (process :: thread :: p.handles).Perm (output.toList ++ [process, thread] ++ p.queried ++ p.kept)
    rw [List.append_assoc, List.append_assoc]
    exact ((haccounted.cons thread).cons process).trans (List.perm_append_comm_assoc [process, thread] _ _)
  · intro h hh mutex hm
    rcases List.mem_append.mp hh with hh | hh
    · have hmutex := hcalling h hh mutex hm
      cases hmutex
    · exact absurd hm (hobject h hh mutex)

/-- The parent goes on. -/
theorem Calm.created (hp : p.At) {output : Option (Handle Object)} {process thread : Handle Object} {pid : Nat}
    (hpc : p.pc = .processCreated output process thread pid) :
    Calm p (wingCreateProcessReturn p output process thread pid) := by
  have haccounted := hp.accounted_open (l := output.toList ++ [process, thread]) (congrArg Pc.open hpc)
  have hout : (p.drop? output).handles.Perm (process :: thread :: (p.queried ++ p.kept)) ∧
      Distinct (p.drop? output).handles := by
    cases output with
    | none => exact ⟨haccounted, hp.distinct⟩
    | some h => exact ⟨close_perm hp.distinct haccounted, hp.distinct.sublist (close_sublist _ _)⟩
  have hprocess := close_perm hout.2 hout.1
  have hdistinct : Distinct (close (p.drop? output).handles process.value) := hout.2.sublist (close_sublist _ _)
  have hsame : (p.drop? output).pid = p.pid ∧ (p.drop? output).mutexes = p.mutexes ∧
      (p.drop? output).inherited = p.inherited ∧ (p.drop? output).queried = p.queried := by
    cases output <;> exact ⟨rfl, rfl, rfl, rfl⟩
  have hqueried : (wingCreateProcessReturn p output process thread pid).queried = p.queried := hsame.2.2.2
  refine .of_same hsame.1 (congrArg Pc.won hpc) rfl hsame.2.1 hsame.2.2.1 ?_ (hdistinct.sublist (close_sublist _ _))
    (fun h hh => by cases hh) (by rw [hqueried]; exact hp.queried)
  rw [Proc.opened, hqueried]
  exact close_perm hdistinct hprocess

/-- `wing_close_mutex` -/
theorem Less.close (hp : p.At) (hpc : p.pc = .script) (mutexHandle : Int) : Less p (wingCloseMutex p mutexHandle) := by
  have hopen : p.pc.open = [] := congrArg Pc.open hpc
  have hwon : p.pc.won = [] := congrArg Pc.won hpc
  have haccounted := hp.accounted_open hopen
  have howned : p.owned = p.mutexes := by
    rw [Proc.owned, hwon]
    rfl
  unfold wingCloseMutex
  split_ifs with hpos hsome
  · exact (Calm.back hp hopen hwon _).less
  · refine ⟨⟨?_, hp.distinct.sublist (close_sublist _ _), (fun h hh => by cases hh), fun h hh => ?_⟩, rfl, ?_,
      close_sublist _ _⟩
    · rw [Proc.kept, howned, List.nil_append] at haccounted
      have hclose := haccounted.filter fun h => h.value != slot mutexHandle
      rwa [List.filter_append, List.filter_append] at hclose
    · exact hp.queried h ((close_sublist _ _).subset hh)
    · rw [howned]
      exact close_sublist _ _
  · exact (Calm.back hp hopen hwon _).less

/-- A mutex that was opened and not closed is in use by the call that was refused it. -/
theorem Proc.At.opened_mutex (hp : p.At) : ∀ h ∈ p.opened, ∀ mutex, h.object = .mutex mutex →
    p.pc = .mutexCreated h true := by
  intro h hh mutex hm
  rcases List.mem_append.mp hh with hh | hh
  · exact hp.calling h hh mutex hm
  · obtain ⟨⟨pid, hpid⟩, -⟩ := hp.queried h hh
    cases hpid.symm.trans hm

theorem Proc.At.kept_subset (hp : p.At) : ∀ h ∈ p.kept, h ∈ p.handles := by
  intro h hh
  exact hp.accounted.mem_iff.mpr (List.mem_append_right _ hh)

theorem openProcess_eq {s : Kernel} {processId v : Nat} (ho : openProcess s p processId v = some h) :
    p.free h.value = true ∧ (∃ pid, h.object = .process pid) ∧ h.inherit = false := by
  unfold openProcess at ho
  split_ifs at ho with hfree
  obtain rfl := Option.some.inj ho
  exact ⟨((Bool.and_eq_true _ _).mp hfree).1, ⟨processId, rfl⟩, rfl⟩

theorem not_mutex_of_process (ho : ∃ pid, h.object = .process pid) (mutex : Mutex) : h.object ≠ .mutex mutex := by
  obtain ⟨pid, hpid⟩ := ho
  intro hm
  cases hpid.symm.trans hm

/-- A call opens a process, to close it later. -/
theorem Calm.openProcess {s : Kernel} {processId v : Nat} (hp : p.At) (hpc : p.pc = .script)
    (ho : openProcess s p processId v = some h) {pc : Pc} (hopen : pc.open = [h]) (hwon : pc.won = []) :
    Calm p { p.get h with pc := pc } := by
  obtain ⟨hfree, hprocess, -⟩ := openProcess_eq ho
  exact .get hp (congrArg Pc.open hpc) (congrArg Pc.won hpc) hfree hopen hwon fun mutex hm =>
    absurd hm (not_mutex_of_process hprocess mutex)

/-- `WingOpenProcess` in a loop. -/
theorem Calm.wingOpenProcess {s : Kernel} {processId : Nat} {pc : Pc} {hProcess : Option Nat} (hp : p.At)
    (hopen : pc.open = p.pc.open) (hwon : p.pc.won = []) (hwon' : pc.won = [])
    (hcalling : ∀ h ∈ pc.open, ∀ mutex, h.object ≠ .mutex mutex)
    (ho : wingOpenProcess s p processId pc hProcess = some p') : Calm p p' := by
  cases hProcess with
  | none =>
    obtain rfl := Option.some.inj ho
    exact .next hp hopen hwon hwon' hcalling p.ret
  | some v =>
    obtain ⟨h, hv, rfl⟩ := Option.map_eq_some_iff.mp ho
    obtain ⟨hfree, hprocess⟩ := openProcess_eq hv
    exact .leave hp hfree hprocess hopen hwon hwon' hcalling

/-- A process has created a mutex, of which there was no handle. -/
structure Wins (s : Kernel) (p p' : Proc) (mutex : Mutex) : Prop where
  none : refs s.handles (.mutex mutex) = 0
  won : ∃ v, p.free v = true ∧
    p' = { p.get ⟨v, .mutex mutex, true⟩ with pc := .mutexCreated ⟨v, .mutex mutex, true⟩ false }

/-- **What a call can do.** -/
theorem call_cases {s : Kernel} {c : Call} (hp : p.At) (hpc : p.pc = .script) (hc : call s p c = some p') :
    Calm p p' ∨ (∃ v, c = .closeMutex v ∧ Less p p') ∨ ∃ mutex, Wins s p p' mutex := by
  have hopen : p.pc.open = [] := congrArg Pc.open hpc
  have hwon : p.pc.won = [] := congrArg Pc.won hpc
  cases c with
  | createMutex mutexName answer number =>
    simp only [call, wingCreateMutex] at hc
    split_ifs at hc with hname
    · obtain rfl := Option.some.inj hc
      exact Or.inl (.back hp hopen hwon _)
    · cases answer with
      | none =>
        obtain rfl := Option.some.inj hc
        exact Or.inl (.back hp hopen hwon _)
      | some v =>
        dsimp only at hc
        split_ifs at hc with hfree
        obtain rfl := Option.some.inj hc
        have hfree := ((Bool.and_eq_true _ _).mp hfree).1
        generalize Mutex.ofName mutexName number = mutex
        by_cases hrefs : 0 < refs s.handles (.mutex mutex)
        · left
          refine .get hp hopen hwon hfree (h := ⟨v, .mutex mutex, true⟩) ?_ ?_ ?_
          · simp [Pc.open, hrefs]
          · simp [Pc.won, hrefs]
          · intro mutex' _
            simp [hrefs]
        · refine Or.inr (Or.inr ⟨mutex, by omega, v, hfree, ?_⟩)
          simp [hrefs]
  | closeMutex mutexHandle =>
    obtain rfl := Option.some.inj hc
    exact Or.inr (Or.inl ⟨mutexHandle, rfl, .close hp hpc mutexHandle⟩)
  | queryObject handle =>
    obtain rfl := Option.some.inj hc
    unfold wingQueryObject
    split_ifs
    · exact Or.inl (.back hp hopen hwon _)
    · split
      · exact Or.inl (.back hp hopen hwon _)
      · exact Or.inl (.back hp hopen hwon _)
  | processWait processId answer =>
    simp only [call, wingProcessWait] at hc
    split_ifs at hc
    · obtain rfl := Option.some.inj hc
      exact Or.inl (.back hp hopen hwon _)
    · cases answer with
      | none =>
        obtain rfl := Option.some.inj hc
        exact Or.inl (.pause hp hpc rfl rfl)
      | some v =>
        obtain ⟨h, ho, rfl⟩ := Option.map_eq_some_iff.mp hc
        exact Or.inl (.openProcess hp hpc ho rfl rfl)
  | processKill processId answer =>
    cases answer with
    | none =>
      obtain rfl := Option.some.inj hc
      exact Or.inl (.back hp hopen hwon _)
    | some v =>
      obtain ⟨h, ho, rfl⟩ := Option.map_eq_some_iff.mp hc
      exact Or.inl (.openProcess hp hpc ho rfl rfl)
  | memoryUsed processId answer =>
    simp only [call, wingGetMemoryUsed] at hc
    split_ifs at hc
    · obtain rfl := Option.some.inj hc
      exact Or.inl (.pause hp hpc rfl rfl)
    · cases answer with
      | none =>
        obtain rfl := Option.some.inj hc
        exact Or.inl (.pause hp hpc rfl rfl)
      | some v =>
        obtain ⟨h, ho, rfl⟩ := Option.map_eq_some_iff.mp hc
        exact Or.inl (.openProcess hp hpc ho rfl rfl)
  | createProcess nt createFile =>
    cases createFile with
    | none =>
      obtain rfl := Option.some.inj hc
      exact Or.inl (.pause hp hpc rfl rfl)
    | some v =>
      simp only [call, wingCreateProcess] at hc
      split_ifs at hc with hfree
      obtain rfl := Option.some.inj hc
      refine Or.inl (.get hp hopen hwon hfree (h := ⟨v, .file, nt⟩) rfl rfl fun mutex hm => ?_)
      cases hm
  | getCurrentProcessId =>
    obtain rfl := Option.some.inj hc
    exact Or.inl (.back hp hopen hwon _)
  | queryProcess s₁ v =>
    simp only [call, wingQueryProcessCount] at hc
    split_ifs at hc with hseen hfree
    · obtain rfl := Option.some.inj hc
      refine Or.inl (.get hp hopen hwon hfree (h := ⟨v, .snapshot, false⟩) rfl rfl fun mutex hm => ?_)
      cases hm
    · obtain rfl := Option.some.inj hc
      exact Or.inl (.pause hp hpc rfl rfl)

/-! ## The kernel -/

variable {s s' : Kernel} {i : Nat}

/-- Some processes are gone. -/
theorem KernelAt.sublist (hs : KernelAt s) (h : s'.Sublist s) : KernelAt s' := by
  refine ⟨fun p hp => hs.procs p (h.subset hp), fun mutex => ?_, fun mutex => ?_⟩
  · exact (refs_sublist (h.flatMap _) _).trans (hs.owned mutex)
  · obtain ⟨v, hv⟩ := hs.value mutex
    exact ⟨v, fun p hp => hv p (h.subset hp)⟩

theorem refs_owned_set (hi : s[i]? = some p) (p' : Proc) (o : Object) :
    refs ((s.set i p').flatMap Proc.owned) o + refs p.owned o = refs (s.flatMap Proc.owned) o + refs p'.owned o :=
  Position.countP_flatMap_set hi Proc.owned _ p'

theorem mem_set {q : Proc} (h : q ∈ s.set i p') : q = p' ∨ q ∈ s := (List.mem_or_eq_of_mem_set h).symm

theorem KernelAt.less (hs : KernelAt s) (hi : s[i]? = some p) (h : Less p p') : KernelAt (s.set i p') := by
  refine ⟨fun q hq => ?_, fun mutex => ?_, fun mutex => ?_⟩
  · rcases mem_set hq with rfl | hq
    · exact h.proc
    · exact hs.procs q hq
  · have hset := refs_owned_set hi p' (.mutex mutex)
    have hle := refs_sublist h.owned (.mutex mutex)
    have hone := hs.owned mutex
    omega
  · obtain ⟨v, hv⟩ := hs.value mutex
    refine ⟨v, fun q hq x hx => ?_⟩
    rcases mem_set hq with rfl | hq
    · exact hv p (List.mem_of_getElem? hi) x ((h.owned.append h.inherited).subset hx)
    · exact hv q hq x hx

theorem not_mutex_of_refs {mutex : Mutex} (hs : KernelAt s) (hnone : refs s.handles (.mutex mutex) = 0) {q : Proc}
    (hq : q ∈ s) {x : Handle Object} (hx : x ∈ q.kept) : x.object ≠ .mutex mutex := by
  intro hobject
  have hmem : x ∈ s.handles := List.mem_flatMap.mpr ⟨q, hq, (hs.procs q hq).kept_subset x hx⟩
  have hpos := refs_pos_iff.mpr ⟨x, hmem, hobject⟩
  omega

theorem KernelAt.wins {mutex : Mutex} (hs : KernelAt s) (hi : s[i]? = some p) (hpc : p.pc = .script)
    (h : Wins s p p' mutex) : KernelAt (s.set i p') := by
  obtain ⟨hnone, v, hfree, rfl⟩ := h
  have hmem := List.mem_of_getElem? hi
  have hp := hs.procs p hmem
  have haccounted : p.handles.Perm (p.queried ++ p.kept) := hp.accounted_open (l := []) (congrArg Pc.open hpc)
  have howned : p.owned = p.mutexes := by
    rw [Proc.owned, hpc]
    rfl
  generalize hx : (⟨v, .mutex mutex, true⟩ : Handle Object) = x
  have hxv : x.value = v := by rw [← hx]
  have hxo : x.object = .mutex mutex := by rw [← hx]
  have howned' : ({ p.get x with pc := .mutexCreated x false } : Proc).owned = x :: p.owned := by
    rw [howned]
    rfl
  have hkept' : ({ p.get x with pc := .mutexCreated x false } : Proc).kept = x :: p.kept := by
    rw [Proc.kept, howned']
    rfl
  refine ⟨fun q hq => ?_, fun mutex' => ?_, fun mutex' => ?_⟩
  · rcases mem_set hq with rfl | hq
    · refine ⟨?_, hp.distinct.cons (by rw [hxv]; exact Proc.free_not_mem hfree), (fun h hh => by cases hh), hp.queried⟩
      rw [hkept']
      exact (haccounted.cons x).trans List.perm_middle.symm
    · exact hs.procs q hq
  · have hset := refs_owned_set hi { p.get x with pc := .mutexCreated x false } (.mutex mutex')
    rw [howned', refs_cons, hxo] at hset
    have hone := hs.owned mutex'
    by_cases hsame : mutex = mutex'
    · have hzero : refs (s.flatMap Proc.owned) (.mutex mutex') = 0 := by
        rw [← hsame]
        by_contra hne
        obtain ⟨y, hy, hyo⟩ := refs_pos_iff.mp (Nat.pos_of_ne_zero hne)
        obtain ⟨q, hq, hyq⟩ := List.mem_flatMap.mp hy
        exact not_mutex_of_refs hs hnone hq (List.mem_append_left _ hyq) hyo
      split_ifs at hset
      all_goals omega
    · rw [if_neg (by simpa using hsame)] at hset
      omega
  · by_cases hsame : mutex = mutex'
    · refine ⟨v, fun q hq y hy hyo => ?_⟩
      rcases mem_set hq with rfl | hq
      · rw [hkept'] at hy
        rcases List.mem_cons.mp hy with rfl | hy
        · exact hxv
        · exact absurd (hsame ▸ hyo) (not_mutex_of_refs hs hnone hmem hy)
      · exact absurd (hsame ▸ hyo) (not_mutex_of_refs hs hnone hq hy)
    · obtain ⟨v', hv'⟩ := hs.value mutex'
      refine ⟨v', fun q hq y hy hyo => ?_⟩
      rcases mem_set hq with rfl | hq
      · rw [hkept'] at hy
        rcases List.mem_cons.mp hy with rfl | hy
        · rw [hxo] at hyo
          exact absurd (Object.mutex.inj hyo) hsame
        · exact hv' p hmem y hy hyo
      · exact hv' q hq y hy hyo

/-- A child gets the handles of the script. -/
theorem KernelAt.child (pid : Nat) {output : Option (Handle Object)} (hs : KernelAt s) (hp : p ∈ s)
    (hpc : p.pc = .redirected output) : KernelAt (s ++ [.new pid (inheritable p.handles)]) := by
  have hpa := hs.procs p hp
  have hchild : (Proc.new pid (inheritable p.handles)).At := by
    refine ⟨.refl _, hpa.distinct.sublist (inheritable_sublist _), ?_, ?_⟩
    · intro h hh
      cases hh
    · intro h hh
      cases hh
  refine ⟨fun q hq => ?_, fun mutex => ?_, fun mutex => ?_⟩
  · rcases List.mem_append.mp hq with hq | hq
    · exact hs.procs q hq
    · obtain rfl := List.mem_singleton.mp hq
      exact hchild
  · have hone := hs.owned mutex
    rw [List.flatMap_append, refs_append]
    exact hone
  · obtain ⟨v, hv⟩ := hs.value mutex
    refine ⟨v, fun q hq x hx hxo => ?_⟩
    rcases List.mem_append.mp hq with hq | hq
    · exact hv q hq x hx hxo
    · obtain rfl := List.mem_singleton.mp hq
      have hmem : x ∈ p.handles := (inheritable_sublist _).subset hx
      rcases List.mem_append.mp (hpa.accounted.mem_iff.mp hmem) with hopened | hkept
      · have hmutex := hpa.opened_mutex x hopened mutex hxo
        rw [hpc] at hmutex
        cases hmutex
      · exact hv p hp x hkept hxo

/-- A process that inherits nothing. -/
theorem KernelAt.start (hs : KernelAt s) (pid : Nat) : KernelAt (s ++ [.new pid []]) := by
  refine ⟨fun q hq => ?_, fun mutex => ?_, fun mutex => ?_⟩
  · rcases List.mem_append.mp hq with hq | hq
    · exact hs.procs q hq
    · obtain rfl := List.mem_singleton.mp hq
      exact ⟨.refl _, List.nodup_nil, (fun h hh => by cases hh), fun h hh => by cases hh⟩
  · have hone := hs.owned mutex
    rw [List.flatMap_append, refs_append]
    exact hone
  · obtain ⟨v, hv⟩ := hs.value mutex
    refine ⟨v, fun q hq x hx hxo => ?_⟩
    rcases List.mem_append.mp hq with hq | hq
    · exact hv q hq x hx hxo
    · obtain rfl := List.mem_singleton.mp hq
      cases hx

/-- A call that ends with the mutex, or without it. -/
theorem Calm.mutexReturn (hp : p.At) {existed : Bool} (hpc : p.pc = .mutexCreated h existed) :
    Calm p (wingCreateMutexReturn p h existed) := by
  cases existed with
  | true => exact .drop hp (congrArg Pc.open hpc) (congrArg Pc.won hpc) rfl rfl _
  | false =>
    have haccounted := hp.accounted
    have howned : (wingCreateMutexReturn p h false).owned = p.owned := by
      rw [Proc.owned, Proc.owned, hpc]
      rfl
    have hkept : (wingCreateMutexReturn p h false).kept = p.kept := by
      rw [Proc.kept, howned]
      rfl
    rw [Proc.opened, hpc] at haccounted
    refine ⟨⟨?_, hp.distinct, (fun h hh => by cases hh), hp.queried⟩, rfl, howned, rfl⟩
    rw [hkept]
    exact haccounted

/-- A call goes on: its process is calm, some processes may be ended, and one may be started that gets the handles of
the script. -/
theorem goOn_cases {answer : Answer} (hp : p.At) (hg : goOn s i p answer = some s') :
    ∃ p', Calm p p' ∧ (s' = s.set i p' ∨
      (∃ h pid, p.pc = .killing h pid ∧ answer = .terminated true ∧
        s' = (s.set i p').filter fun q => q.pid != pid) ∨
      ∃ output pid, p.pc = .redirected output ∧ s' = s.set i p' ++ [.new pid (inheritable p.handles)]) := by
  unfold goOn at hg
  split at hg
  · rename_i mutex existed hpc
    obtain rfl := Option.some.inj hg
    exact ⟨_, .mutexReturn hp hpc, Or.inl rfl⟩
  · rename_i process processId waited hpc
    obtain ⟨p', hw, rfl⟩ := Option.map_eq_some_iff.mp hg
    refine ⟨p', ?_, Or.inl rfl⟩
    have hopen : p.pc.open = process.toList := congrArg Pc.open hpc
    have hwon : p.pc.won = [] := congrArg Pc.won hpc
    unfold wingProcessWaitReturn at hw
    split at hw
    · split_ifs at hw
      obtain rfl := Option.some.inj hw
      exact .drop? hp hopen hwon rfl rfl _
    · split_ifs at hw
      obtain rfl := Option.some.inj hw
      exact .drop? hp hopen hwon rfl rfl _
    · obtain rfl := Option.some.inj hw
      exact .drop? hp hopen hwon rfl rfl _
  · rename_i process processId terminated hpc
    have hopen : p.pc.open = [process] := congrArg Pc.open hpc
    have hwon : p.pc.won = [] := congrArg Pc.won hpc
    unfold wingProcessKillReturn at hg
    split_ifs at hg with hterminated
    · obtain rfl := Option.some.inj hg
      exact ⟨_, .drop hp hopen hwon rfl rfl _, Or.inr (Or.inl ⟨process, processId, hpc, by rw [hterminated], rfl⟩)⟩
    · obtain rfl := Option.some.inj hg
      exact ⟨_, .drop hp hopen hwon rfl rfl _, Or.inl rfl⟩
  · rename_i process size hpc
    obtain rfl := Option.some.inj hg
    exact ⟨_, .drop? hp (congrArg Pc.open hpc) (congrArg Pc.won hpc) rfl rfl _, Or.inl rfl⟩
  · rename_i output answer hpc
    unfold wingCreateProcessStart at hg
    split at hg
    · obtain rfl := Option.some.inj hg
      exact ⟨_, .drop? hp (congrArg Pc.open hpc) (congrArg Pc.won hpc) rfl rfl _, Or.inl rfl⟩
    · rename_i pi
      split_ifs at hg with hfree
      obtain rfl := Option.some.inj hg
      simp only [Bool.and_eq_true, bne_iff_ne] at hfree
      obtain ⟨⟨⟨-, hprocess⟩, hthread⟩, hne⟩ := hfree
      refine ⟨_, .start hp hpc hprocess hthread hne ?_, Or.inr (Or.inr ⟨output, _, hpc, rfl⟩)⟩
      intro h hh mutex hm
      simp only [List.mem_cons, List.not_mem_nil, or_false] at hh
      rcases hh with rfl | rfl <;> cases hm
  · rename_i output process thread processId hpc
    obtain rfl := Option.some.inj hg
    exact ⟨_, .created hp hpc, Or.inl rfl⟩
  · rename_i hProcessSnap count s₂ hpc
    obtain rfl := Option.some.inj hg
    refine ⟨_, ?_, Or.inl rfl⟩
    have hopen : p.pc.open = hProcessSnap.toList := congrArg Pc.open hpc
    have hwon : p.pc.won = [] := congrArg Pc.won hpc
    unfold wingQueryProcessFill
    dsimp only
    split
    · exact .drop? hp hopen hwon rfl rfl _
    · exact .drop? hp hopen hwon rfl rfl _
  · rename_i processId chain entries count hProcess hpc
    obtain ⟨p', ho, rfl⟩ := Option.map_eq_some_iff.mp hg
    have hopen : p.pc.open = [] := congrArg Pc.open hpc
    refine ⟨p', .wingOpenProcess hp ?_ (congrArg Pc.won hpc) rfl (fun h hh => by cases hh) ho, Or.inl rfl⟩
    exact hopen.symm
  · rename_i entries count v hpc
    obtain ⟨p', ha, rfl⟩ := Option.map_eq_some_iff.mp hg
    refine ⟨p', ?_, Or.inl rfl⟩
    unfold wingQueryProcessAdd at ha
    split_ifs at ha with hfree
    obtain rfl := Option.some.inj ha
    refine .get hp (congrArg Pc.open hpc) (congrArg Pc.won hpc) hfree rfl rfl fun mutex hm => ?_
    cases hm
  · rename_i count hpc
    obtain rfl := Option.some.inj hg
    exact ⟨_, .back hp (congrArg Pc.open hpc) (congrArg Pc.won hpc) _, Or.inl rfl⟩
  · rename_i hProcessSnap processId entries count hProcess hpc
    obtain ⟨p', ho, rfl⟩ := Option.map_eq_some_iff.mp hg
    have hopen : p.pc.open = [hProcessSnap] := congrArg Pc.open hpc
    refine ⟨p', .wingOpenProcess hp ?_ (congrArg Pc.won hpc) rfl ?_ ho, Or.inl rfl⟩
    · exact hopen.symm
    · -- a mutex that a call has open is one it was refused, and this call asks for none
      intro h hh mutex hm
      have hmutex := hp.calling h (by rw [hopen]; exact hh) mutex hm
      rw [hpc] at hmutex
      cases hmutex
  · rename_i hProcessSnap count hpc
    obtain rfl := Option.some.inj hg
    exact ⟨_, .drop hp (congrArg Pc.open hpc) (congrArg Pc.won hpc) rfl rfl _, Or.inl rfl⟩
  · cases hg

/-- **What a step can do.** -/
theorem step_cases {a : Act} (hs : KernelAt s) (h : step s a = some s') :
    (∃ pid, s' = s ++ [.new pid []]) ∨ (∃ i, a = .exit i ∧ s' = s.eraseIdx i) ∨
      (∃ i p p', s[i]? = some p ∧ Calm p p' ∧ (s' = s.set i p' ∨
        (∃ h pid, p.pc = .killing h pid ∧ a = .goOn i (.terminated true) ∧
          s' = (s.set i p').filter fun q => q.pid != pid) ∨
        ∃ output pid, p.pc = .redirected output ∧ s' = s.set i p' ++ [.new pid (inheritable p.handles)])) ∨
      (∃ i p p' v, s[i]? = some p ∧ a = .call i (.closeMutex v) ∧ Less p p' ∧ s' = s.set i p') ∨
      ∃ i p p' mutex, s[i]? = some p ∧ p.pc = .script ∧ Wins s p p' mutex ∧ s' = s.set i p' := by
  cases a with
  | start pid =>
    simp only [step] at h
    split_ifs at h
    exact Or.inl ⟨pid, (Option.some.inj h).symm⟩
  | exit i =>
    simp only [step] at h
    split_ifs at h
    exact Or.inr (Or.inl ⟨i, rfl, (Option.some.inj h).symm⟩)
  | call i c =>
    obtain ⟨p, hfilter, hmap⟩ := Option.bind_eq_some_iff.mp h
    obtain ⟨hi, hpc⟩ := Option.filter_eq_some_iff.mp hfilter
    obtain ⟨p', hc, rfl⟩ := Option.map_eq_some_iff.mp hmap
    have hp := hs.procs p (List.mem_of_getElem? hi)
    have hscript : p.pc = .script := of_decide_eq_true hpc
    rcases call_cases hp hscript hc with hcalm | ⟨v, rfl, hless⟩ | ⟨mutex, hwins⟩
    · exact Or.inr (Or.inr (Or.inl ⟨i, p, p', hi, hcalm, Or.inl rfl⟩))
    · exact Or.inr (Or.inr (Or.inr (Or.inl ⟨i, p, p', v, hi, rfl, hless, rfl⟩)))
    · exact Or.inr (Or.inr (Or.inr (Or.inr ⟨i, p, p', mutex, hi, hscript, hwins, rfl⟩)))
  | goOn i answer =>
    obtain ⟨p, hi, hg⟩ := Option.bind_eq_some_iff.mp h
    obtain ⟨p', hcalm, hs'⟩ := goOn_cases (hs.procs p (List.mem_of_getElem? hi)) hg
    refine Or.inr (Or.inr (Or.inl ⟨i, p, p', hi, hcalm, ?_⟩))
    rcases hs' with rfl | ⟨process, pid, hpc, rfl, rfl⟩ | ⟨output, pid, hpc, rfl⟩
    · exact Or.inl rfl
    · exact Or.inr (Or.inl ⟨process, pid, hpc, rfl, rfl⟩)
    · exact Or.inr (Or.inr ⟨output, pid, hpc, rfl⟩)

/-- **Every step keeps the invariant.** -/
theorem step_kernelAt {a : Act} (hs : KernelAt s) (h : step s a = some s') : KernelAt s' := by
  rcases step_cases hs h with ⟨pid, rfl⟩ | ⟨i, -, rfl⟩ | ⟨i, p, p', hi, hcalm, hs'⟩ | ⟨i, p, p', v, hi, -, hless, rfl⟩ |
    ⟨i, p, p', mutex, hi, hpc, hwins, rfl⟩
  · exact hs.start pid
  · exact hs.sublist (List.eraseIdx_sublist _ _)
  · have hset := hs.less hi hcalm.less
    rcases hs' with rfl | ⟨h, pid, -, -, rfl⟩ | ⟨output, pid, hpc, rfl⟩
    · exact hset
    · exact hset.sublist List.filter_sublist
    · -- the child first, the parent then
      have hlt : i < s.length := (List.getElem?_eq_some_iff.mp hi).1
      have hchild := hs.child pid (List.mem_of_getElem? hi) hpc
      have hi' : (s ++ [Proc.new pid (inheritable p.handles)])[i]? = some p := by rwa [List.getElem?_append_left hlt]
      have hboth := hchild.less hi' hcalm.less
      rwa [List.set_append_left _ _ hlt] at hboth
  · exact hs.less hi hless
  · exact hs.wins hi hpc hwins

theorem init_kernelAt : KernelAt [] := by
  refine ⟨?_, fun mutex => Nat.zero_le 1, fun mutex => ⟨0, ?_⟩⟩
  · intro p hp
    cases hp
  · intro p hp
    cases hp

/-- **Run lemma.** -/
theorem reachable_kernelAt {s : Kernel} (h : kernel.Reachable s) : KernelAt s := by
  refine h.invariant (I := KernelAt) init_kernelAt ?_
  intro s a s' _ hs _ hstep
  exact step_kernelAt hs hstep

end WingPhp.Process
