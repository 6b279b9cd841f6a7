import WingPhp.Select.Registry
import WingPhp.Select.Steps

/-!
# `wing_select_server::start` when it fails

`start` creates its threads one after the other, and when it cannot create the next it
closes the listening socket, clears the queue and the globals and returns; the threads
it has created by then are not stopped.  Here `start` is stepped along with the accept
thread and the worker of `wing_select_server.c`, whose posts are now two steps: the test
of the queue pointer and the push under `queue_lock`.

`quiet_iff`: once `start` has returned, no thread will ever touch what was released
exactly if they are `Launch.Quiet` (or the process is gone): the accept thread has read
the listening socket out of `start`'s frame and has no client in hand, the worker has
none to poll, and neither is past the test of the queue pointer.
-/

namespace WingPhp.Select

open Transition Sclient

/-! ## What is released, and who accesses it -/

/-- `wing_server_clients_arr`, `close_socket_arr`, `select_lock`, `close_socket_lock`, the
message queue with `queue_lock`, and `m_sockListen` in the frame of `start`. -/
inductive Resource where
  | clientsArr
  | closeSocketArr
  | selectLock
  | closeSocketLock
  | queue
  | sockListen
  deriving DecidableEq, Repr

/-- What a step of the accept thread accesses, a push into the queue aside. -/
def AcceptPc.accessed : AcceptPc → List Resource
  | .append _ => [.selectLock, .clientsArr]
  | _ => []

/-- What a step of the worker accesses, a push into the queue aside. -/
def WorkerPc.accessed : WorkerPc → List Resource
  | .fdSet _ | .isSet _ | .recv _ | .closeItem _ _ | .recvItem _ _ _ => [.clientsArr]
  | .pushClose _ _ _ _ => [.closeSocketLock, .closeSocketArr]
  | .remove _ _ => [.selectLock, .clientsArr]
  | _ => []

/-- The steps of the accept thread that post. -/
def AcceptPc.posts : AcceptPc → Input → Bool
  | .sndTimeo _, .ret (some _) | .rcvTimeo _, .ret (some _) | .keepAlive _, .ret (some _)
  | .keepAliveVals _, .ret (some _) | .post _, .go => true
  | _, _ => false

/-- The steps of the worker that post. -/
def WorkerPc.posts : WorkerPc → Input → Bool
  | .shutdown _ _ _, .ret (some _) | .postClose _ _ _, .go | .getpeername _ _ _, .peer (.error _)
  | .postRecv _ _ _, .go => true
  | _, _ => false

/-! ## A thread -/

/-- A thread that was created.  It is `posting` when it has found the queue pointer not to
be `NULL` and has yet to push; the input is what the call before the post answered. -/
inductive Thread where
  | absent
  | begun
  | running
  | posting (input : Input)

/-- One step of a thread with this function.  `queue` says that the pointer is not `NULL`;
if it is, `message_queue_lpush` returns at once. -/
def Thread.step (run : State → Input → Option State) (posts : Input → Bool) (queue : Bool) (s : State) :
    Thread → Input → Option (Thread × State)
  | .begun, .go => some (.running, s)
  | .running, input =>
    if posts input then
      if queue then some (.posting input, s)
      else (run s input).map fun s' => (.running, { s' with queue := s.queue })
    else (run s input).map fun s' => (.running, s')
  | .posting input, .go => (run s input).map fun s' => (.running, s')
  | _, _ => none

/-! ## `wing_select_server::start` -/

/-- Where `start` is, up to its message loop.  The calls that close and clean up know
whether the clears follow. -/
inductive LaunchPc where
  | wsaStartup
  | version
  | socket
  | bind
  | listen
  | queueInit
  | serverInit
  | beginAccept
  | beginWorder
  | beginClose
  | closesocket (clears : Bool)
  | wsaCleanup (clears : Bool)
  | queueClear
  | queueNull
  | serverClear
  | returned
  | serving
  deriving DecidableEq, Repr

/-- The server while `start` runs.  Its globals stand in `server`; before
`wing_select_server_init` there is nobody to read them. -/
structure Launch where
  pc : LaunchPc
  server : State
  accept : Thread
  worder : Thread
  listening : Bool
  queue : Bool
  released : List Resource

/-- `ok` says whether the call of this step succeeds. -/
def wingSelectServerStart (s : Launch) (ok : Bool) : Option Launch :=
  match s.pc with
  | .wsaStartup => some { s with pc := if ok then .version else .returned }
  | .version => some { s with pc := if ok then .socket else .wsaCleanup false }
  | .socket =>
    if ok then some { s with pc := .bind, listening := true }
    else some { s with pc := .wsaCleanup false }
  | .bind => some { s with pc := if ok then .listen else .closesocket false }
  | .listen => some { s with pc := if ok then .queueInit else .closesocket false }
  | .queueInit => some { s with pc := .serverInit, queue := true }
  | .serverInit => some { s with pc := .beginAccept }
  | .beginAccept =>
    if ok then some { s with pc := .beginWorder, accept := .begun }
    else some { s with pc := .closesocket true }
  | .beginWorder =>
    if ok then some { s with pc := .beginClose, worder := .begun }
    else some { s with pc := .closesocket true }
  | .beginClose => some { s with pc := if ok then .serving else .closesocket true }
  | .closesocket clears => some { s with pc := .wsaCleanup clears, listening := false }
  | .wsaCleanup true => some { s with pc := .queueClear }
  | .wsaCleanup false => some { s with pc := .returned, released := .sockListen :: s.released }
  -- message_queue_clear; the pointer is set to NULL last
  | .queueClear => some { s with pc := .queueNull, released := .queue :: s.released }
  | .queueNull => some { s with pc := .serverClear, queue := false }
  -- wing_select_server_clear, then the return
  | .serverClear =>
    some { s with
      pc := .returned
      released := [.clientsArr, .closeSocketArr, .selectLock, .closeSocketLock, .sockListen] ++ s.released }
  | .returned | .serving => none

inductive LaunchAct where
  | start (ok : Bool)
  | accept (input : Input)
  | worder (input : Input)

/-- `accept` returns a socket. -/
def Input.accepts : Input → Bool
  | .accepted _ _ => true
  | _ => false

def Launch.step (s : Launch) (a : LaunchAct) : Option Launch :=
  if s.server.crashed then none
  else
    match a with
    | .start ok => wingSelectServerStart s ok
    | .accept input =>
      -- accept fails on a closed socket
      if input.accepts && !s.listening then none
      else
        (s.accept.step wingSelectServerAccept s.server.acceptPc.posts s.queue s.server input).map
          fun (accept, server) => { s with accept, server }
    | .worder input =>
      (s.worder.step wingSelectServerWorder s.server.workerPc.posts s.queue s.server input).map
        fun (worder, server) => { s with worder, server }

def launch (cfg : Config) : Machine Launch LaunchAct where
  init :=
    { pc := .wsaStartup, server := start cfg, accept := .absent, worder := .absent
      listening := false, queue := false, released := [] }
  step := Launch.step

/-- What the thread accesses that takes the step; the accept thread begins by reading the
socket through the pointer it was given. -/
def Launch.accessed (s : Launch) : LaunchAct → List Resource
  | .start _ => []
  | .accept _ =>
    match s.accept with
    | .absent => []
    | .begun => [.sockListen]
    | .running => s.server.acceptPc.accessed
    | .posting _ => [.queue]
  | .worder _ =>
    match s.worder with
    | .absent | .begun => []
    | .running => s.server.workerPc.accessed
    | .posting _ => [.queue]

/-- The step accesses something that was released. -/
def Launch.Stale (s : Launch) (a : LaunchAct) : Prop := ∃ r ∈ s.accessed a, r ∈ s.released

/-- The accept thread has its copy of the socket, no client in hand, and is not past the
test of a post. -/
def Thread.AcceptQuiet (pc : AcceptPc) : Thread → Prop
  | .absent => True
  | .running => pc.inHand = []
  | .begun | .posting _ => False

/-- The worker finds no client to poll and is not past the test of a post. -/
def Thread.WorderQuiet (num : Nat) : Thread → Prop
  | .absent => True
  | .begun | .running => num = 0
  | .posting _ => False

def Launch.Quiet (s : Launch) : Prop :=
  s.accept.AcceptQuiet s.server.acceptPc ∧ s.worder.WorderQuiet s.server.clients.num

instance (pc : AcceptPc) (t : Thread) : Decidable (t.AcceptQuiet pc) :=
  match t with
  | .absent => .isTrue trivial
  | .running => inferInstanceAs (Decidable (pc.inHand = []))
  | .begun | .posting _ => .isFalse id

instance (num : Nat) (t : Thread) : Decidable (t.WorderQuiet num) :=
  match t with
  | .absent => .isTrue trivial
  | .begun | .running => inferInstanceAs (Decidable (num = 0))
  | .posting _ => .isFalse id

instance (s : Launch) : Decidable s.Quiet := inferInstanceAs (Decidable (_ ∧ _))

/-! ## What a step of a thread can be -/

section Thread

variable {run : State → Input → Option State} {posts : Input → Bool} {queue : Bool} {s : State}

inductive Thread.Took (run : State → Input → Option State) (posts : Input → Bool) (queue : Bool)
    (s : State) : Thread → Input → Thread → State → Prop
  | begin : Took run posts queue s .begun .go .running s
  | tested {input : Input} : posts input = true → queue = true →
      Took run posts queue s .running input (.posting input) s
  | dropped {input : Input} {s' : State} : posts input = true → queue = false →
      run s input = some s' → Took run posts queue s .running input .running { s' with queue := s.queue }
  | ran {input : Input} {s' : State} : posts input = false → run s input = some s' →
      Took run posts queue s .running input .running s'
  | pushed {input : Input} {s' : State} : run s input = some s' →
      Took run posts queue s (.posting input) .go .running s'

theorem Thread.took {t t' : Thread} {input : Input} {s' : State}
    (h : t.step run posts queue s input = some (t', s')) :
    Thread.Took run posts queue s t input t' s' := by
  unfold Thread.step at h
  split at h
  · cases h
    exact .begin
  · split at h
    · next hposts =>
      split at h
      · next hq =>
        cases h
        exact .tested hposts hq
      · next hq =>
        obtain ⟨s₁, hrun, heq⟩ := Option.map_eq_some_iff.mp h
        cases heq
        exact .dropped hposts ((Bool.not_eq_true _).mp hq) hrun
    · next hposts =>
      obtain ⟨s₁, hrun, heq⟩ := Option.map_eq_some_iff.mp h
      cases heq
      exact .ran ((Bool.not_eq_true _).mp hposts) hrun
  · obtain ⟨s₁, hrun, heq⟩ := Option.map_eq_some_iff.mp h
    cases heq
    exact .pushed hrun
  · cases h

/-- What the function keeps, whatever is in the queue, the thread keeps. -/
theorem Thread.Took.keeps {I : State → Prop} {t t' : Thread} {input : Input} {s' : State}
    (hrun : ∀ {input s'}, run s input = some s' → I s')
    (hqueue : ∀ {s' q}, I s' → I { s' with queue := q }) (hi : I s)
    (h : Thread.Took run posts queue s t input t' s') : I s' := by
  cases h with
  | begin | tested => exact hi
  | dropped _ _ hr => exact hqueue (hrun hr)
  | ran _ hr | pushed hr => exact hrun hr

/-- With the pointer at `NULL` a running thread runs on, whatever it posts. -/
theorem Thread.Took.runs {t' : Thread} {input : Input} {s' : State}
    (h : Thread.Took run posts queue s .running input t' s') (hqueue : queue = false) :
    t' = .running ∧ ∃ s₁ q, run s input = some s₁ ∧ s' = { s₁ with queue := q } := by
  cases h with
  | tested _ hq =>
    rw [hqueue] at hq
    cases hq
  | @dropped _ s₁ _ _ hr => exact ⟨rfl, s₁, s.queue, hr, rfl⟩
  | ran _ hr => exact ⟨rfl, s', s'.queue, hr, rfl⟩

end Thread

/-! ## The invariant -/

/-- What the threads leave of each other: the accept thread does not move the worker, nor the
worker the accept thread, and nobody is the closing thread. -/
theorem AcceptStep.frame {s s' : State} {input : Input} (h : AcceptStep s input s') :
    s'.workerPc = s.workerPc ∧ s'.closePc = s.closePc := by
  cases h <;> exact ⟨rfl, rfl⟩

theorem WorkerStep.frame {s s' : State} {input : Input} (h : WorkerStep s input s') :
    s'.acceptPc = s.acceptPc ∧ s'.closePc = s.closePc := by
  cases h <;> exact ⟨rfl, rfl⟩

/-- A thread past the test of a post is at a post. -/
def Thread.AtPost (posts : Input → Bool) : Thread → Prop
  | .posting input => posts input = true
  | _ => True

def Launch.NoThreads (s : Launch) : Prop := s.accept = .absent ∧ s.worder = .absent

/-- Everything was released that is, and the listening socket is closed. -/
structure Launch.TornDown (s : Launch) : Prop where
  listening : s.listening = false
  queue : s.queue = false
  released : ∀ r, r ∈ s.released

/-- What `start` has done so far. -/
def Launch.Progress (s : Launch) : Prop :=
  match s.pc with
  | .wsaStartup | .version | .socket | .bind | .listen | .queueInit | .serverInit | .beginAccept
  | .closesocket false | .wsaCleanup false => s.NoThreads
  | .beginWorder | .beginClose | .closesocket true | .serving => True
  | .wsaCleanup true | .queueClear => s.listening = false
  | .queueNull => s.listening = false ∧ .queue ∈ s.released
  | .serverClear => s.listening = false ∧ s.queue = false ∧ .queue ∈ s.released
  | .returned => s.NoThreads ∨ s.TornDown

structure LaunchInv (s : Launch) : Prop where
  registry : RegistryInv s.server
  closePc : s.server.closePc = .check
  accept : s.accept.AtPost s.server.acceptPc.posts
  worder : s.worder.AtPost s.server.workerPc.posts
  progress : s.Progress

theorem start_launch {s s' : Launch} {ok : Bool} (hi : LaunchInv s)
    (h : wingSelectServerStart s ok = some s') : LaunchInv s' := by
  obtain ⟨hreg, hclose, haccept, hworder, hprogress⟩ := hi
  unfold Launch.Progress at hprogress
  unfold wingSelectServerStart at h
  generalize s.pc = pc at h hprogress
  cases pc with
  | wsaStartup =>
    cases h
    refine ⟨hreg, hclose, haccept, hworder, ?_⟩
    cases ok
    · exact .inl hprogress
    · exact hprogress
  | version | bind | listen | beginClose =>
    cases h
    refine ⟨hreg, hclose, haccept, hworder, ?_⟩
    cases ok <;> exact hprogress
  | socket => cases ok <;> cases h <;> exact ⟨hreg, hclose, haccept, hworder, hprogress⟩
  | queueInit | serverInit =>
    cases h
    exact ⟨hreg, hclose, haccept, hworder, hprogress⟩
  | beginAccept =>
    cases ok <;> cases h
    · exact ⟨hreg, hclose, haccept, hworder, trivial⟩
    · exact ⟨hreg, hclose, trivial, hworder, trivial⟩
  | beginWorder =>
    cases ok <;> cases h
    · exact ⟨hreg, hclose, haccept, hworder, trivial⟩
    · exact ⟨hreg, hclose, haccept, trivial, trivial⟩
  | closesocket clears =>
    cases h
    refine ⟨hreg, hclose, haccept, hworder, ?_⟩
    cases clears
    · exact hprogress
    · rfl
  | wsaCleanup clears =>
    cases clears <;> cases h
    · exact ⟨hreg, hclose, haccept, hworder, .inl hprogress⟩
    · exact ⟨hreg, hclose, haccept, hworder, hprogress⟩
  | queueClear =>
    cases h
    exact ⟨hreg, hclose, haccept, hworder, hprogress, List.mem_cons_self ..⟩
  | queueNull =>
    cases h
    exact ⟨hreg, hclose, haccept, hworder, hprogress.1, rfl, hprogress.2⟩
  | serverClear =>
    cases h
    obtain ⟨hlistening, hqueue, hmem⟩ := hprogress
    refine ⟨hreg, hclose, haccept, hworder, .inr ⟨hlistening, hqueue, fun r => ?_⟩⟩
    cases r with
    | queue => exact List.mem_append_right _ hmem
    | _ => exact List.mem_append_left _ (by decide)
  | returned | serving => cases h

/-- A thread that runs does not change what `start` has done. -/
theorem Launch.Progress.thread {s : Launch} (h : s.Progress) (hsome : ¬ s.NoThreads) (accept worder : Thread)
    (server : State) : ({ s with accept, worder, server } : Launch).Progress := by
  unfold Launch.Progress at h ⊢
  dsimp only
  generalize s.pc = pc at h
  cases pc with
  | wsaStartup | version | socket | bind | listen | queueInit | serverInit | beginAccept => exact absurd h hsome
  | closesocket clears | wsaCleanup clears =>
    cases clears
    · exact absurd h hsome
    · exact h
  | returned =>
    have htorn := h.resolve_left hsome
    exact .inr ⟨htorn.listening, htorn.queue, htorn.released⟩
  | _ => exact h

theorem RegistryInv.anyQueue {s : State} (h : RegistryInv s) (q : Channel Msg) :
    RegistryInv { s with queue := q } :=
  ⟨h.reg, h.room, h.worker⟩

theorem accept_launch {s : Launch} {input : Input} {t' : Thread} {server : State} (hi : LaunchInv s)
    (h : Thread.Took wingSelectServerAccept s.server.acceptPc.posts s.queue s.server s.accept input t' server) :
    LaunchInv { s with accept := t', server } := by
  obtain ⟨hreg, hclose, haccept, hworder, hprogress⟩ := hi
  have hsome : ¬ s.NoThreads := by
    rintro ⟨habsent, -⟩
    rw [habsent] at h
    cases h
  have hframe : server.workerPc = s.server.workerPc ∧ server.closePc = s.server.closePc :=
    h.keeps (I := fun t => t.workerPc = s.server.workerPc ∧ t.closePc = s.server.closePc)
      (fun hr => (acceptStep hr).frame) id ⟨rfl, rfl⟩
  refine ⟨?_, hframe.2.trans hclose, ?_, ?_, hprogress.thread hsome _ _ _⟩
  · exact h.keeps (I := RegistryInv) (fun hr => accept_registry hreg (acceptStep hr)) (fun hi => hi.anyQueue _) hreg
  · generalize s.accept = t at h
    cases h with
    | tested hposts _ => exact hposts
    | _ => trivial
  · show s.worder.AtPost server.workerPc.posts
    rw [hframe.1]
    exact hworder

theorem worder_launch {s : Launch} {input : Input} {t' : Thread} {server : State} (hi : LaunchInv s)
    (h : Thread.Took wingSelectServerWorder s.server.workerPc.posts s.queue s.server s.worder input t' server) :
    LaunchInv { s with worder := t', server } := by
  obtain ⟨hreg, hclose, haccept, hworder, hprogress⟩ := hi
  have hsome : ¬ s.NoThreads := by
    rintro ⟨-, habsent⟩
    rw [habsent] at h
    cases h
  have hframe : server.acceptPc = s.server.acceptPc ∧ server.closePc = s.server.closePc :=
    h.keeps (I := fun t => t.acceptPc = s.server.acceptPc ∧ t.closePc = s.server.closePc)
      (fun hr => (workerStep hr).frame) id ⟨rfl, rfl⟩
  refine ⟨?_, hframe.2.trans hclose, ?_, ?_, hprogress.thread hsome _ _ _⟩
  · exact h.keeps (I := RegistryInv) (fun hr => worker_registry hreg (workerStep hr)) (fun hi => hi.anyQueue _) hreg
  · show s.accept.AtPost server.acceptPc.posts
    rw [hframe.1]
    exact haccept
  · generalize s.worder = t at h
    cases h with
    | tested hposts _ => exact hposts
    | _ => trivial

/-- The threads a step of a starting server can be of. -/
inductive LaunchStep (s s' : Launch) : LaunchAct → Prop
  | start {ok : Bool} : wingSelectServerStart s ok = some s' → LaunchStep s s' (.start ok)
  | accept {input : Input} {t : Thread} {server : State} : (input.accepts = true → s.listening = true) →
      Thread.Took wingSelectServerAccept s.server.acceptPc.posts s.queue s.server s.accept input t server →
      s' = { s with accept := t, server } → LaunchStep s s' (.accept input)
  | worder {input : Input} {t : Thread} {server : State} :
      Thread.Took wingSelectServerWorder s.server.workerPc.posts s.queue s.server s.worder input t server →
      s' = { s with worder := t, server } → LaunchStep s s' (.worder input)

theorem launchStep {s s' : Launch} {a : LaunchAct} (h : s.step a = some s') : LaunchStep s s' a := by
  unfold Launch.step at h
  split at h
  · cases h
  · split at h
    · exact .start h
    · split at h
      · cases h
      · next input hopen =>
        obtain ⟨⟨t, server⟩, hstep, rfl⟩ := Option.map_eq_some_iff.mp h
        refine .accept (fun haccepts => ?_) (Thread.took hstep) rfl
        simpa [haccepts] using hopen
    · obtain ⟨⟨t, server⟩, hstep, rfl⟩ := Option.map_eq_some_iff.mp h
      exact .worder (Thread.took hstep) rfl

theorem LaunchInv.step {s s' : Launch} {a : LaunchAct} (hi : LaunchInv s) (h : s.step a = some s') :
    LaunchInv s' := by
  cases launchStep h with
  | start ht => exact start_launch hi ht
  | accept _ ht heq =>
    subst heq
    exact accept_launch hi ht
  | worder ht heq =>
    subst heq
    exact worder_launch hi ht

/-- **Run lemma.** -/
theorem reachable_launch {cfg : Config} {s : Launch} (h : (launch cfg).Reachable s) : LaunchInv s := by
  have hstart : LaunchInv (launch cfg).init := ⟨start_registry cfg, rfl, trivial, trivial, rfl, rfl⟩
  exact h.invariant hstart fun s a s' _ hi _ hs => hi.step hs

/-! ## Quiet threads stay quiet -/

/-- Once `start` has returned, a thread that is there runs on released ground. -/
theorem LaunchInv.tornDown {s : Launch} (hi : LaunchInv s) (hret : s.pc = .returned)
    (hsome : ¬ s.NoThreads) : s.TornDown := by
  have hprogress := hi.progress
  unfold Launch.Progress at hprogress
  rw [hret] at hprogress
  exact hprogress.resolve_left hsome

theorem accept_quiet {s s' : State} {input : Input} (h : AcceptStep s input s')
    (hhand : s.acceptPc.inHand = []) (hinput : input.accepts = false) :
    s'.acceptPc.inHand = [] ∧ s'.clients = s.clients := by
  cases h with
  | full => exact ⟨hhand, rfl⟩
  | accepted => cases hinput
  | noRoom hpc | room hpc | append hpc =>
    rw [hpc] at hhand
    cases hhand
  | _ => exact ⟨rfl, rfl⟩

theorem accessed_empty {pc : AcceptPc} (hhand : pc.inHand = []) : pc.accessed = [] := by
  cases pc with
  | append => cases hhand
  | _ => rfl

/-- Without clients the worker is at none of its accesses. -/
theorem accessed_idle {g : Clients} {pc : WorkerPc} (hok : WorkerOk g pc) (hnum : g.num = 0) :
    pc.accessed = [] := by
  cases pc with
  | fdSet | isSet | recv =>
    simp only [WorkerOk] at hok
    omega
  | closeItem | recvItem | pushClose | remove =>
    have hlt := hok.1
    omega
  | _ => rfl

theorem worker_quiet {s s' : State} {input : Input} (h : WorkerStep s input s')
    (hok : WorkerOk s.clients s.workerPc) (hnum : s.clients.num = 0) : s'.clients.num = 0 := by
  cases h with
  | remove hpc =>
    rw [hpc] at hok
    have hlt := hok.1
    omega
  | _ => exact hnum

theorem accept_stays_quiet {s : Launch} {input : Input} {t' : Thread} {server : State} (hi : LaunchInv s)
    (hret : s.pc = .returned) (hq : s.Quiet) (hopen : input.accepts = true → s.listening = true)
    (h : Thread.Took wingSelectServerAccept s.server.acceptPc.posts s.queue s.server s.accept input t' server) :
    s.accessed (.accept input) = [] ∧ ({ s with accept := t', server } : Launch).Quiet := by
  obtain ⟨hqa, hqw⟩ := hq
  unfold Launch.accessed Launch.Quiet
  cases hacc : s.accept with
  | absent =>
    rw [hacc] at h
    cases h
  | begun | posting =>
    rw [hacc] at hqa
    exact hqa.elim
  | running =>
    rw [hacc] at h hqa
    have htorn := hi.tornDown hret fun hnone => by cases hacc.symm.trans hnone.1
    obtain ⟨rfl, s₁, q, hr, rfl⟩ := h.runs htorn.queue
    have hinput : input.accepts = false := by
      by_contra hne
      have hlistening := hopen ((Bool.not_eq_false _).mp hne)
      rw [htorn.listening] at hlistening
      cases hlistening
    obtain ⟨hhand, hclients⟩ := accept_quiet (acceptStep hr) hqa hinput
    refine ⟨accessed_empty hqa, hhand, ?_⟩
    show s.worder.WorderQuiet s₁.clients.num
    rw [hclients]
    exact hqw

theorem worder_stays_quiet {s : Launch} {input : Input} {t' : Thread} {server : State} (hi : LaunchInv s)
    (hret : s.pc = .returned) (hq : s.Quiet)
    (h : Thread.Took wingSelectServerWorder s.server.workerPc.posts s.queue s.server s.worder input t' server) :
    s.accessed (.worder input) = [] ∧ ({ s with worder := t', server } : Launch).Quiet := by
  obtain ⟨hqa, hqw⟩ := hq
  unfold Launch.accessed Launch.Quiet
  cases hwor : s.worder with
  | absent =>
    rw [hwor] at h
    cases h
  | begun =>
    rw [hwor] at h hqw
    cases h
    exact ⟨rfl, hqa, hqw⟩
  | posting =>
    rw [hwor] at hqw
    exact hqw.elim
  | running =>
    rw [hwor] at h hqw
    have htorn := hi.tornDown hret fun hnone => by cases hwor.symm.trans hnone.2
    obtain ⟨rfl, s₁, q, hr, rfl⟩ := h.runs htorn.queue
    have hok := hi.registry.worker
    have hnum : s₁.clients.num = 0 := worker_quiet (workerStep hr) hok hqw
    refine ⟨accessed_idle hok hqw, ?_, hnum⟩
    show s.accept.AcceptQuiet s₁.acceptPc
    rw [(workerStep hr).frame.1]
    exact hqa

theorem quiet_step {s s' : Launch} {a : LaunchAct} (hi : LaunchInv s) (hret : s.pc = .returned)
    (hq : s.Quiet) (h : s.step a = some s') : s.accessed a = [] ∧ s'.pc = .returned ∧ s'.Quiet := by
  cases launchStep h with
  | start ht =>
    unfold wingSelectServerStart at ht
    rw [hret] at ht
    cases ht
  | accept hopen ht heq =>
    subst heq
    obtain ⟨hnone, hq'⟩ := accept_stays_quiet hi hret hq hopen ht
    exact ⟨hnone, hret, hq'⟩
  | worder ht heq =>
    subst heq
    obtain ⟨hnone, hq'⟩ := worder_stays_quiet hi hret hq ht
    exact ⟨hnone, hret, hq'⟩

/-! ## Threads that are not quiet -/

/-- The state after `start` has failed, with the worker running and clients to poll. -/
structure Launch.Doomed (s : Launch) : Prop where
  torn : s.TornDown
  worder : s.worder = .running
  crashed : s.server.crashed = false
  closePc : s.server.closePc = .check
  num : 0 < s.server.clients.num

/-- What will happen. -/
def Launch.Bad (cfg : Config) (s : Launch) : Prop := (launch cfg).CanDo Launch.Stale s

variable {cfg : Config}

/-- The worker's step when it does not post. -/
theorem worder_ran {s : Launch} (h : s.Doomed) {input : Input} {t : State}
    (hposts : s.server.workerPc.posts input = false) (hr : wingSelectServerWorder s.server input = some t) :
    (launch cfg).step s (.worder input) = some { s with server := t } := by
  show s.step (.worder input) = some _
  simp [Launch.step, h.crashed, h.worder, Thread.step, hposts, hr]

/-- And when it does, into a queue that is gone. -/
theorem worder_dropped {s : Launch} (h : s.Doomed) {input : Input} {t : State}
    (hposts : s.server.workerPc.posts input = true) (hr : wingSelectServerWorder s.server input = some t) :
    (launch cfg).step s (.worder input) = some { s with server := { t with queue := s.server.queue } } := by
  show s.step (.worder input) = some _
  simp [Launch.step, h.crashed, h.worder, h.torn.queue, Thread.step, hposts, hr]

/-- A worker that is about to access something does. -/
theorem worder_accesses {s : State} (hacc : s.workerPc.accessed ≠ []) (hclose : s.closePc = .check) :
    ∃ input t, wingSelectServerWorder s input = some t ∧ s.workerPc.posts input = false := by
  unfold wingSelectServerWorder
  generalize s.workerPc = pc at hacc
  cases pc with
  | fdSet | recv | closeItem | remove => exact ⟨.go, _, rfl, rfl⟩
  | isSet i =>
    by_cases hset : (s.clients.arr.get i).value ∈ s.fdread
    · exact ⟨.go, _, if_pos hset, rfl⟩
    · exact ⟨.go, _, if_neg hset, rfl⟩
  | pushClose => exact ⟨.go, _, if_pos hclose, rfl⟩
  | recvItem i k r =>
    by_cases hover : msgSize < r.ret
    · exact ⟨.clock 0, _, if_pos hover, rfl⟩
    · exact ⟨.clock 0, _, if_neg hover, rfl⟩
  | _ => exact absurd rfl hacc

namespace Launch.Doomed

variable {s : Launch}

theorem accessing (h : s.Doomed) (hacc : s.server.workerPc.accessed ≠ []) : s.Bad cfg := by
  obtain ⟨r, hmem⟩ := List.exists_mem_of_ne_nil _ hacc
  obtain ⟨input, t, hr, hposts⟩ := worder_accesses hacc h.closePc
  refine .now (worder_ran h hposts hr) ⟨r, ?_, h.torn.released r⟩
  simp only [Launch.accessed, h.worder]
  exact hmem

/-- The worker takes a step and is as doomed as before. -/
theorem later (h : s.Doomed) (input : Input) (t : State)
    (hr : wingSelectServerWorder s.server input = some t) (hclients : t.clients = s.server.clients)
    (hcrashed : t.crashed = s.server.crashed) (hclose : t.closePc = s.server.closePc)
    (hnext : ∀ s' : Launch, s'.Doomed → s'.server.workerPc = t.workerPc → s'.Bad cfg) : s.Bad cfg := by
  have hdoomed : ∀ q, ({ s with server := { t with queue := q } } : Launch).Doomed := fun q =>
    { torn := ⟨h.torn.listening, h.torn.queue, h.torn.released⟩
      worder := h.worder
      crashed := hcrashed.trans h.crashed
      closePc := hclose.trans h.closePc
      num := by
        show 0 < t.clients.num
        rw [hclients]
        exact h.num }
  cases hposts : s.server.workerPc.posts input with
  | false => exact .later (worder_ran h hposts hr) (hnext _ (hdoomed t.queue) rfl)
  | true => exact .later (worder_dropped h hposts hr) (hnext _ (hdoomed s.server.queue) rfl)

/-- At the head of its loop the worker finds the clients. -/
theorem check (h : s.Doomed) (hpc : s.server.workerPc = .check) : s.Bad cfg := by
  refine h.later .go { s.server with workerPc := .fdTest 0, fdread := [] } ?_ rfl rfl rfl fun s' h' hpc' => ?_
  · simp [wingSelectServerWorder, hpc, Nat.ne_of_gt h.num]
  refine h'.later .go { s'.server with workerPc := .fdSet 0 } ?_ rfl rfl rfl fun s'' h'' hpc'' => ?_
  · simp [wingSelectServerWorder, hpc', h'.num]
  exact h''.accessing (by rw [hpc'']; exact List.cons_ne_nil _ _)

theorem recvTest (h : s.Doomed) {i : Nat} (hpc : s.server.workerPc = .recvTest i) : s.Bad cfg := by
  by_cases hi : i < s.server.clients.num
  · refine h.later .go { s.server with workerPc := .isSet i } ?_ rfl rfl rfl fun s' h' hpc' => ?_
    · simp [wingSelectServerWorder, hpc, hi]
    exact h'.accessing (by rw [hpc']; exact List.cons_ne_nil _ _)
  · refine h.later .go { s.server with workerPc := .check } ?_ rfl rfl rfl fun s' h' hpc' => h'.check hpc'
    simp [wingSelectServerWorder, hpc, hi]

/-- Winsock is gone, and `select` fails. -/
theorem select (h : s.Doomed) {i : Nat} (hpc : s.server.workerPc = .select i) : s.Bad cfg := by
  refine h.later (.selected (.error 10093)) { s.server with workerPc := .recvTest 0 } ?_ rfl rfl rfl
    fun s' h' hpc' => h'.recvTest hpc'
  simp [wingSelectServerWorder, hpc]

theorem fdTest (h : s.Doomed) {i : Nat} (hpc : s.server.workerPc = .fdTest i) : s.Bad cfg := by
  by_cases hi : i < s.server.clients.num
  · refine h.later .go { s.server with workerPc := .fdSet i } ?_ rfl rfl rfl fun s' h' hpc' => ?_
    · simp [wingSelectServerWorder, hpc, hi]
    exact h'.accessing (by rw [hpc']; exact List.cons_ne_nil _ _)
  · refine h.later .go { s.server with workerPc := .select i } ?_ rfl rfl rfl fun s' h' hpc' => h'.select hpc'
    simp [wingSelectServerWorder, hpc, hi]

/-- So does `recv`, and the worker makes an item for the error. -/
theorem recvWait (h : s.Doomed) {i : Nat} {k : Sock} (hpc : s.server.workerPc = .recvWait i k) :
    s.Bad cfg := by
  refine h.later (.received (.error 10093)) { s.server with workerPc := .recvItem i k (.error 10093) } ?_ rfl rfl
    rfl fun s' h' hpc' => h'.accessing (by rw [hpc']; exact List.cons_ne_nil _ _)
  simp [wingSelectServerWorder, hpc, RecvResult.Allowed, RecvResult.Offline, RecvResult.ret,
    RecvResult.lastError, socketErrorUlong, wsaeConnReset]

theorem closeTime (h : s.Doomed) {i : Nat} {k : Sock} {item : SelectItem}
    (hpc : s.server.workerPc = .closeTime i k item) : s.Bad cfg := by
  refine h.later (.clock 0) { s.server with
    workerPc := .pushClose i k item ⟨item.socket, 0, s.server.nextPtr⟩
    nextPtr := s.server.nextPtr + 1
    liveCloseItems := s.server.liveCloseItems ++ [s.server.nextPtr] } ?_ rfl rfl rfl
    fun s' h' hpc' => h'.accessing (by rw [hpc']; exact List.cons_ne_nil _ _)
  simp [wingSelectServerWorder, hpc]

theorem shutdown (h : s.Doomed) {i : Nat} {k : Sock} {item : SelectItem}
    (hpc : s.server.workerPc = .shutdown i k item) : s.Bad cfg := by
  refine h.later (.ret (some 10093)) { s.server.postError item (some 10093) with workerPc := .closeTime i k item }
    ?_ rfl rfl rfl fun s' h' hpc' => h'.closeTime hpc'
  simp [wingSelectServerWorder, hpc]

theorem postClose (h : s.Doomed) {i : Nat} {k : Sock} {item : SelectItem}
    (hpc : s.server.workerPc = .postClose i k item) : s.Bad cfg := by
  refine h.later .go { s.server.post (.onClose item) with workerPc := .remove i k } ?_ rfl rfl rfl
    fun s' h' hpc' => h'.accessing (by rw [hpc']; exact List.cons_ne_nil _ _)
  simp [wingSelectServerWorder, hpc]

theorem postRecv (h : s.Doomed) {i : Nat} {k : Sock} {item : SelectItem}
    (hpc : s.server.workerPc = .postRecv i k item) : s.Bad cfg := by
  refine h.later .go { s.server.post (.onRecv item) with workerPc := .recvTest (i + 1) } ?_ rfl rfl rfl
    fun s' h' hpc' => h'.recvTest hpc'
  simp [wingSelectServerWorder, hpc]

theorem getpeername (h : s.Doomed) {i : Nat} {k : Sock} {item : SelectItem}
    (hpc : s.server.workerPc = .getpeername i k item) : s.Bad cfg := by
  refine h.later (.peer (.error 10093)) { s.server.post (.onError { item with addr := .zero } 10093) with
    workerPc := .postRecv i k { item with addr := .zero } } ?_ rfl rfl rfl
    fun s' h' hpc' => h'.postRecv hpc'
  simp [wingSelectServerWorder, hpc]

/-- Wherever the worker is, it will access the clients or the close list. -/
theorem bad (h : s.Doomed) : s.Bad cfg := by
  cases hpc : s.server.workerPc with
  | check => exact h.check hpc
  | fdTest => exact h.fdTest hpc
  | select => exact h.select hpc
  | recvTest => exact h.recvTest hpc
  | recvWait => exact h.recvWait hpc
  | shutdown => exact h.shutdown hpc
  | closeTime => exact h.closeTime hpc
  | postClose => exact h.postClose hpc
  | getpeername => exact h.getpeername hpc
  | postRecv => exact h.postRecv hpc
  | fdSet | isSet | recv | closeItem | pushClose | remove | recvItem =>
    exact h.accessing (by rw [hpc]; exact List.cons_ne_nil _ _)

end Launch.Doomed

/-- A post can always be made. -/
theorem accept_posts {s : State} {input : Input} (h : s.acceptPc.posts input = true) :
    ∃ t, wingSelectServerAccept s input = some t := by
  unfold wingSelectServerAccept
  unfold AcceptPc.posts at h
  generalize s.acceptPc = pc at h
  split at h
  case h_6 => cases h
  all_goals exact ⟨_, rfl⟩

theorem worder_posts {s : State} {input : Input} (h : s.workerPc.posts input = true) :
    ∃ t, wingSelectServerWorder s input = some t := by
  unfold wingSelectServerWorder
  unfold WorkerPc.posts at h
  generalize s.workerPc = pc at h
  split at h
  case h_5 => cases h
  all_goals exact ⟨_, rfl⟩

/-- A client accepted too late goes into the array that was deleted. -/
theorem append_bad {s : Launch} {item : SelectItem} (htorn : s.TornDown) (hrun : s.server.crashed = false)
    (hacc : s.accept = .running) (hpc : s.server.acceptPc = .append item) : s.Bad cfg := by
  have hstep : (launch cfg).step s (.accept .go) = some { s with server := { s.server with
      acceptPc := .stamp item
      clients := wingSelectServerClientsAppend s.server.clients item.socket } } := by
    show s.step (.accept .go) = some _
    simp [Launch.step, hrun, hacc, Thread.step, Input.accepts, hpc, AcceptPc.posts, wingSelectServerAccept]
  refine .now hstep ⟨.clientsArr, ?_, htorn.released _⟩
  simp [Launch.accessed, hacc, hpc, AcceptPc.accessed]

theorem accept_bad {s : Launch} (hi : LaunchInv s) (hret : s.pc = .returned)
    (hrun : s.server.crashed = false) (hnot : ¬ s.accept.AcceptQuiet s.server.acceptPc) : s.Bad cfg := by
  have htorn := hi.tornDown hret fun hnone => hnot (by rw [hnone.1]; trivial)
  have hpost := hi.accept
  cases hacc : s.accept with
  | absent =>
    rw [hacc] at hnot
    exact absurd trivial hnot
  | begun =>
    have hstep : (launch cfg).step s (.accept .go) = some { s with accept := .running } := by
      show s.step (.accept .go) = some _
      simp [Launch.step, hrun, hacc, Thread.step, Input.accepts]
    refine .now hstep ⟨.sockListen, ?_, htorn.released _⟩
    simp [Launch.accessed, hacc]
  | posting input =>
    rw [hacc] at hpost
    obtain ⟨t, ht⟩ := accept_posts hpost
    have hstep : (launch cfg).step s (.accept .go) = some { s with accept := .running, server := t } := by
      show s.step (.accept .go) = some _
      simp [Launch.step, hrun, hacc, Thread.step, Input.accepts, ht]
    refine .now hstep ⟨.queue, ?_, htorn.released _⟩
    simp [Launch.accessed, hacc]
  | running =>
    rw [hacc] at hnot
    cases hpc : s.server.acceptPc with
    | append item => exact append_bad htorn hrun hacc hpc
    | appendTest item =>
      have hroom := hi.registry.room (by rw [hpc]; trivial)
      have hstep : (launch cfg).step s (.accept .go) =
          some { s with server := { s.server with acceptPc := .append item } } := by
        show s.step (.accept .go) = some _
        simp [Launch.step, hrun, hacc, Thread.step, Input.accepts, hpc, AcceptPc.posts,
          wingSelectServerAccept, Clients.Full, Nat.not_le_of_lt hroom]
      exact .later hstep (append_bad ⟨htorn.listening, htorn.queue, htorn.released⟩ hrun hacc rfl)
    | _ => exact absurd (by rw [hpc]; rfl) hnot

theorem worder_bad {s : Launch} (hi : LaunchInv s) (hret : s.pc = .returned)
    (hrun : s.server.crashed = false) (hnot : ¬ s.worder.WorderQuiet s.server.clients.num) : s.Bad cfg := by
  have htorn := hi.tornDown hret fun hnone => hnot (by rw [hnone.2]; trivial)
  have hpost := hi.worder
  cases hwor : s.worder with
  | absent =>
    rw [hwor] at hnot
    exact absurd trivial hnot
  | begun =>
    rw [hwor] at hnot
    have hstep : (launch cfg).step s (.worder .go) = some { s with worder := .running } := by
      show s.step (.worder .go) = some _
      simp [Launch.step, hrun, hwor, Thread.step]
    refine .later hstep (Launch.Doomed.bad ?_)
    exact ⟨⟨htorn.listening, htorn.queue, htorn.released⟩, rfl, hrun, hi.closePc, Nat.pos_of_ne_zero hnot⟩
  | posting input =>
    rw [hwor] at hpost
    obtain ⟨t, ht⟩ := worder_posts hpost
    have hstep : (launch cfg).step s (.worder .go) = some { s with worder := .running, server := t } := by
      show s.step (.worder .go) = some _
      simp [Launch.step, hrun, hwor, Thread.step, ht]
    refine .now hstep ⟨.queue, ?_, htorn.released _⟩
    simp [Launch.accessed, hwor]
  | running =>
    rw [hwor] at hnot
    exact Launch.Doomed.bad ⟨htorn, hwor, hrun, hi.closePc, Nat.pos_of_ne_zero hnot⟩

/-! ## Who touches what was released -/

theorem quiet_never {s : Launch} (hi : LaunchInv s) (hret : s.pc = .returned) (hq : s.Quiet) : ¬ s.Bad cfg := by
  refine Machine.not_canDo (I := fun t => LaunchInv t ∧ t.pc = .returned ∧ t.Quiet) ?_ ⟨hi, hret, hq⟩
  rintro t a t' ⟨hit, hrett, hqt⟩ hstep
  obtain ⟨hnone, hret', hq'⟩ := quiet_step hit hrett hqt hstep
  refine ⟨?_, hit.step hstep, hret', hq'⟩
  rintro ⟨r, hmem, -⟩
  rw [hnone] at hmem
  cases hmem

theorem crashed_never {s : Launch} (hcrashed : s.server.crashed = true) : ¬ s.Bad cfg := by
  have hnone : ∀ a, (launch cfg).step s a = none := fun a => if_pos hcrashed
  intro h
  cases h with
  | now hstep | later hstep =>
    rw [hnone] at hstep
    cases hstep

theorem unquiet_bad {s : Launch} (hi : LaunchInv s) (hret : s.pc = .returned) (hrun : s.server.crashed = false)
    (hnot : ¬ s.Quiet) : s.Bad cfg := by
  by_cases haccept : s.accept.AcceptQuiet s.server.acceptPc
  · exact worder_bad hi hret hrun fun hworder => hnot ⟨haccept, hworder⟩
  · exact accept_bad hi hret hrun haccept

/-- When `start` has returned, no step to come accesses what was released exactly if the
threads are quiet, or the process is gone. -/
theorem quiet_iff {s : Launch} (h : (launch cfg).Reachable s) (hret : s.pc = .returned) :
    (∀ t a t', ((launch cfg).startingAt s).Reachable t → (launch cfg).step t a = some t' →
      ∀ r ∈ t.accessed a, r ∉ t.released) ↔ s.server.crashed = true ∨ s.Quiet := by
  have hi := reachable_launch h
  constructor
  · intro hnever
    by_contra hnot
    obtain ⟨hrun, hunquiet⟩ := not_or.mp hnot
    have hbad : s.Bad cfg := unquiet_bad hi hret ((Bool.not_eq_true _).mp hrun) hunquiet
    obtain ⟨t, a, t', ht, hstep, r, haccess, hreleased⟩ := Machine.canDo_iff.mp hbad
    exact hnever t a t' ht hstep r haccess hreleased
  · intro hfine t a t' ht hstep r haccess hreleased
    have hbad : s.Bad cfg := Machine.canDo_iff.mpr ⟨t, a, t', ht, hstep, r, haccess, hreleased⟩
    cases hfine with
    | inl hcrashed => exact crashed_never hcrashed hbad
    | inr hq => exact quiet_never hi hret hq hbad

/-- `start` up to the creation of the accept thread. -/
def launchActs : List LaunchAct := List.replicate 8 (.start true)

/-- The first call fails; `start` closes, clears and returns. -/
def failActs : List LaunchAct := List.replicate 6 (.start false)

/-- The third thread cannot be created while the accept thread waits in `accept`. -/
theorem quiet_iff_waiting :
    ∃ s, (launch ⟨1000, 0⟩).Reachable s ∧ s.pc = .returned ∧
      s.server.acceptPc = .accept { SelectItem.new 0 with online := 1, active := 7 } ∧
      ∀ t a t', ((launch ⟨1000, 0⟩).startingAt s).Reachable t → (launch ⟨1000, 0⟩).step t a = some t' →
        ∀ r ∈ t.accessed a, r ∉ t.released := by
  obtain ⟨s, hr, hret, hpc, hq⟩ := Machine.exists_reachable (M := launch ⟨1000, 0⟩)
    (p := fun s => s.pc = .returned ∧
      s.server.acceptPc = .accept { SelectItem.new 0 with online := 1, active := 7 } ∧ s.Quiet)
    (launchActs ++ [.accept .go, .accept (.clock 7), .start true, .worder .go] ++ failActs) (by decide)
  exact ⟨s, hr, hret, hpc, (quiet_iff hr hret).mpr (.inr hq)⟩

/-- The second thread cannot be created.  The accept thread, created before, has not yet run
and reads the socket out of a frame that is gone; or it has accepted a client, and appends it
to the array that was deleted. -/
theorem returned_too_early :
    (∃ s t, (launch ⟨1000, 0⟩).Reachable s ∧ s.pc = .returned ∧ s.step (.accept .go) = some t ∧
      .sockListen ∈ s.accessed (.accept .go) ∧ .sockListen ∈ s.released) ∧
    ∃ s t, (launch ⟨1000, 0⟩).Reachable s ∧ s.pc = .returned ∧ s.step (.accept .go) = some t ∧
      .clientsArr ∈ s.accessed (.accept .go) ∧ .clientsArr ∈ s.released := by
  constructor
  · obtain ⟨s, hr, hret, hstep, hfacts⟩ := Machine.exists_reachable (M := launch ⟨1000, 0⟩)
      (p := fun s => s.pc = .returned ∧ (s.step (.accept .go)).isSome ∧
        .sockListen ∈ s.accessed (.accept .go) ∧ .sockListen ∈ s.released)
      (launchActs ++ failActs) (by decide)
    obtain ⟨t, ht⟩ := Option.isSome_iff_exists.mp hstep
    exact ⟨s, t, hr, hret, ht, hfacts⟩
  · obtain ⟨s, hr, hret, hstep, hfacts⟩ := Machine.exists_reachable (M := launch ⟨1000, 0⟩)
      (p := fun s => s.pc = .returned ∧ (s.step (.accept .go)).isSome ∧
        .clientsArr ∈ s.accessed (.accept .go) ∧ .clientsArr ∈ s.released)
      (launchActs ++ [.accept .go, .accept (.clock 7), .accept (.accepted 4 .zero), .accept .go] ++ failActs)
      (by decide)
    obtain ⟨t, ht⟩ := Option.isSome_iff_exists.mp hstep
    exact ⟨s, t, hr, hret, ht, hfacts⟩

end WingPhp.Select
