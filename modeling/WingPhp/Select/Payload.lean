import WingPhp.Select.Events
import WingPhp.Select.Poll
import WingPhp.Select.Steps

/-!
# From `recv` to `onreceive`

Bytes go from the one buffer of the worker into a `SELECT_ITEM` of their own, with
the item through the queue, and from the item into the PHP string; and the client
they came from moves in the array meanwhile.  In the runs whose `recv` calls answer
as Winsock's documentation has it for a connection in use (`RecvAnswers`),
`payloads_exact` says that this is a pipe: what is dispatched for a connection is
what was received from it, all of it before its `WM_ONCLOSE`.

What `recv` returned is written down by an observer, under the connection that
the handle denoted at that moment.
-/

namespace WingPhp.Select

open Transition Sclient

/-! ## Both ends of the pipe -/

/-- What `recv` returned, and from which connection. -/
abbrev RecvLog := List (Option Nat × List UInt8)

def recvNote (s : State) (a : Act) (log : RecvLog) : RecvLog :=
  match a with
  | .worker (.received (.data bytes)) =>
    match s.workerPc with
    | .recvWait _ k => log ++ [(s.handles k.value, bytes)]
    | _ => log
  | _ => log

/-- The server, with a record of what `recv` returned. -/
def recvWatched (cfg : Config) : Machine (Watched State RecvLog) Act :=
  (server cfg).watch [] recvNote

/-- The bytes received from connection `c`. -/
def received (c : Nat) (log : RecvLog) : List UInt8 :=
  (log.filter fun e => e.1 = some c).flatMap Prod.snd

/-- The string a `WM_ONRECV` for connection `c` passes to the callback:
`ZVAL_STRINGL( …, item->recv, item->recv_bytes, 1 )`. -/
def Msg.payloadFor (c : Nat) : Msg → List UInt8
  | .onRecv item => if item.socket.conn = c then item.recv.take item.recvBytes else []
  | _ => []

def payloads (c : Nat) (ms : List Msg) : List UInt8 := ms.flatMap (Msg.payloadFor c)

/-- A positive count, `0`, or `SOCKET_ERROR` with `WSAECONNRESET`. -/
def RecvResult.Usual : RecvResult → Prop
  | .data _ | .closed => True
  | .error e => e = wsaeConnReset

instance (r : RecvResult) : Decidable r.Usual :=
  match r with
  | .data _ | .closed => .isTrue trivial
  | .error e => inferInstanceAs (Decidable (e = wsaeConnReset))

def RecvAnswers (_ : State) : Act → Prop
  | .worker (.received r) => r.Usual
  | _ => True

instance (s : State) (a : Act) : Decidable (RecvAnswers s a) :=
  match a with
  | .worker (.received r) => inferInstanceAs (Decidable r.Usual)
  | .worker .go | .worker (.clock _) | .worker (.ret _) | .worker (.accepted _ _) | .worker .refused
  | .worker (.selected _) | .worker (.peer _) | .worker (.clockAndPeer _ _) | .worker (.phpSend _ _ _)
  | .worker (.sent _) | .accept _ | .close _ | .main _ | .pool _ _ => .isTrue trivial

/-! ## The invariant -/

/-- What the worker has received from `c` and not posted yet. -/
def WorkerPc.inHand (c : Nat) : WorkerPc → List UInt8
  | .recvItem _ k r => if k.conn = c then r.buffer.take r.ret else []
  | .getpeername _ _ item | .postRecv _ _ item => (Msg.onRecv item).payloadFor c
  | _ => []

/-- The two messages are not a close and a later receive of one client. -/
def Msg.CloseLast (m m' : Msg) : Prop :=
  match m, m' with
  | .onClose item, .onRecv item' => item'.socket.conn ≠ item.socket.conn
  | _, _ => True

structure PipeAt (workerPc : WorkerPc) (closed : List Nat) (ms : List Msg) (log : RecvLog) : Prop where
  pipe : ∀ c, payloads c ms ++ workerPc.inHand c = received c log
  order : ms.Pairwise Msg.CloseLast
  closes : ∀ item, .onClose item ∈ ms →
    item.socket.conn ∈ closed ∨ workerPc.closing = some item.socket.conn

def PipeInv (s : State) (log : RecvLog) : Prop := PipeAt s.workerPc s.closed s.queue.posted log

/-- A message that is no receive and no close. -/
def Msg.Silent : Msg → Prop
  | .onRecv _ | .onClose _ => False
  | _ => True

theorem payloads_append (c : Nat) (ms ms' : List Msg) :
    payloads c (ms ++ ms') = payloads c ms ++ payloads c ms' :=
  List.flatMap_append

theorem received_append (c : Nat) (log log' : RecvLog) :
    received c (log ++ log') = received c log ++ received c log' := by
  simp [received]

namespace PipeAt

variable {workerPc workerPc' : WorkerPc} {closed : List Nat} {ms : List Msg} {log : RecvLog}

/-- The worker moves on without receiving or posting. -/
theorem move (h : PipeAt workerPc closed ms log) (hhand : ∀ c, workerPc'.inHand c = workerPc.inHand c)
    (hclosing : workerPc.closing = none) : PipeAt workerPc' closed ms log where
  pipe c := by
    rw [hhand c]
    exact h.pipe c
  order := h.order
  closes item hm := by
    rcases h.closes item hm with hc | hc
    · exact .inl hc
    · rw [hclosing] at hc
      cases hc

theorem silent (h : PipeAt workerPc closed ms log) {m : Msg} (hm : m.Silent) :
    PipeAt workerPc closed (ms ++ [m]) log where
  pipe c := by
    have hnone : payloads c [m] = [] := by
      cases m <;> first | rfl | exact hm.elim
    rw [payloads_append, hnone, List.append_nil]
    exact h.pipe c
  order := by
    rw [List.pairwise_append]
    refine ⟨h.order, List.pairwise_singleton _ _, ?_⟩
    intro m₁ _ m₂ hm₂
    obtain rfl := List.mem_singleton.mp hm₂
    cases m₂ with
    | onRecv item => exact hm.elim
    | _ => cases m₁ <;> trivial
  closes item hc := by
    rcases List.mem_append.mp hc with hc | hc
    · exact h.closes item hc
    · obtain rfl := List.mem_singleton.mp hc
      exact hm.elim

/-- `recv` returns bytes of an open client. -/
theorem recv {i : Nat} {k : Sock} (h : PipeAt (.recvWait i k) closed ms log) (bytes : List UInt8) :
    PipeAt (.recvItem i k (.data bytes)) closed ms (log ++ [(some k.conn, bytes)]) where
  pipe c := by
    have := h.pipe c
    rw [received_append, ← this]
    show _ ++ (if k.conn = c then bytes.take bytes.length else []) = _
    by_cases hkc : k.conn = c <;> simp [received, WorkerPc.inHand, hkc]
  order := h.order
  closes item hm := by
    rcases h.closes item hm with hc | hc
    · exact .inl hc
    · cases hc

/-- The item gets a copy of the buffer. -/
theorem copy {i : Nat} {k : Sock} {r : RecvResult} {item : SelectItem}
    (h : PipeAt (.recvItem i k r) closed ms log) (hk : item.socket = k)
    (hrecv : item.recv = r.buffer.take r.ret) (hbytes : item.recvBytes = r.ret) :
    PipeAt (.getpeername i k item) closed ms log := by
  refine h.move (fun c => ?_) rfl
  show (if item.socket.conn = c then item.recv.take item.recvBytes else []) =
    if k.conn = c then r.buffer.take r.ret else []
  rw [hk, hrecv, hbytes, List.take_take, Nat.min_self]

/-- `WM_ONRECV` for a client whose close is not posted. -/
theorem postRecv {i j : Nat} {k : Sock} {item : SelectItem}
    (h : PipeAt (.postRecv i k item) closed ms log) (hopen : item.socket.conn ∉ closed) :
    PipeAt (.recvTest j) closed (ms ++ [.onRecv item]) log where
  pipe c := by
    rw [← h.pipe c, payloads_append]
    simp [payloads, WorkerPc.inHand]
  order := by
    rw [List.pairwise_append]
    refine ⟨h.order, List.pairwise_singleton _ _, ?_⟩
    intro m hm m' hm'
    obtain rfl := List.mem_singleton.mp hm'
    cases m with
    | onClose item' =>
      rcases h.closes item' hm with hc | hc
      · exact fun e => hopen (e ▸ hc)
      · cases hc
    | _ => trivial
  closes item' hm := by
    rcases List.mem_append.mp hm with hm | hm
    · exact h.closes item' hm
    · cases List.mem_singleton.mp hm

theorem postClose {i : Nat} {k : Sock} {item : SelectItem}
    (h : PipeAt (.postClose i k item) closed ms log) (hk : item.socket = k) :
    PipeAt (.remove i k) closed (ms ++ [.onClose item]) log where
  pipe c := by
    rw [← h.pipe c, payloads_append]
    simp [payloads, WorkerPc.inHand, Msg.payloadFor]
  order := by
    rw [List.pairwise_append]
    refine ⟨h.order, List.pairwise_singleton _ _, ?_⟩
    intro m hm m' hm'
    obtain rfl := List.mem_singleton.mp hm'
    cases m <;> trivial
  closes item' hm := by
    rcases List.mem_append.mp hm with hm | hm
    · rcases h.closes item' hm with hc | hc
      · exact .inl hc
      · cases hc
    · cases List.mem_singleton.mp hm
      exact .inr (by rw [hk]; rfl)

theorem remove {i j : Nat} {k : Sock} (h : PipeAt (.remove i k) closed ms log) :
    PipeAt (.recvTest j) (closed ++ [k.conn]) ms log where
  pipe := h.pipe
  order := h.order
  closes item hm := by
    rcases h.closes item hm with hc | hc
    · exact .inl (List.mem_append_left _ hc)
    · rw [← Option.some.inj hc]
      exact .inl (List.mem_append_right _ (List.mem_singleton_self _))

end PipeAt

/-! ## Every step keeps the invariant -/

theorem PipeInv.post {s : State} {log : RecvLog} (hi : PipeInv s log) {m : Msg} (hm : m.Silent) :
    PipeInv (s.post m) log := by
  unfold PipeInv State.post
  rw [Channel.posted_post]
  exact PipeAt.silent hi hm

theorem PipeInv.postOption {s : State} {log : RecvLog} (hi : PipeInv s log) {o : Option Msg}
    (ho : ∀ m ∈ o, m.Silent) : PipeAt s.workerPc s.closed (s.queue.postOption o).posted log := by
  rw [Channel.posted_postOption]
  cases o with
  | none =>
    rw [Option.toList_none, List.append_nil]
    exact hi
  | some m => exact PipeAt.silent hi (ho m rfl)

theorem PipeInv.postError {s : State} {log : RecvLog} (hi : PipeInv s log) (item : SelectItem)
    (e : Option Nat) : PipeInv (s.postError item e) log := by
  refine hi.postOption fun m hm => ?_
  obtain ⟨x, -, rfl⟩ := Option.map_eq_some_iff.mp (Option.mem_def.mp hm)
  trivial

theorem accept_pipe {s s' : State} {input : Input} {log : RecvLog} (hi : PipeInv s log)
    (h : AcceptStep s input s') : PipeInv s' log := by
  cases h with
  | sndTimeo | rcvTimeo | keepAlive | keepAliveVals => exact hi.postError _ _
  | post => exact hi.post trivial
  | _ => exact hi

theorem main_pipe {s s' : State} {input : Input} {log : RecvLog} (hi : PipeInv s log)
    (h : MainStep s input s') : PipeInv s' log := by
  cases h with
  | get hpc hpop =>
    unfold PipeInv
    rw [Channel.posted_pop hpop]
    exact hi
  | phpSend =>
    refine hi.postOption fun m hm => ?_
    obtain ⟨r, -, rfl⟩ := Option.map_eq_some_iff.mp (Option.mem_def.mp hm)
    trivial
  | _ => exact hi

theorem pool_pipe {s s' : State} {k : Nat} {input : Input} {log : RecvLog} (hi : PipeInv s log)
    (h : PoolStep s k input s') : PipeInv s' log := by
  cases h with
  | send => exact hi
  | post => exact hi.post trivial

theorem close_pipe {s s' : State} {input : Input} {log : RecvLog} (hi : PipeInv s log)
    (h : CloseStep s input s') : PipeInv s' log := by
  cases h <;> exact hi

theorem RecvResult.Usual.data {r : RecvResult} (hu : r.Usual) (hoff : ¬ r.Offline) :
    ∃ bytes, r = .data bytes := by
  cases r with
  | data bytes => exact ⟨bytes, rfl⟩
  | closed => exact absurd (.inl rfl) hoff
  | error e => exact absurd (.inr ⟨rfl, hu⟩) hoff

theorem RecvResult.data_not_offline {bytes : List UInt8} (h : (RecvResult.data bytes).Allowed) :
    ¬ (RecvResult.data bytes).Offline := by
  rintro (h0 | ⟨-, he⟩)
  · have hpos : 0 < bytes.length := h.1
    have h0 : bytes.length = 0 := h0
    omega
  · cases he

/-- The worker has called `recv` on a registered client, which the handle denotes. -/
theorem recvWait_denotes {cfg : Config} {s : State} (hr : (server cfg).Reachable s) {i : Nat}
    {k : Sock} (hpc : s.workerPc = .recvWait i k) : s.handles k.value = some k.conn := by
  have hworker := (reachable_registry hr).worker
  rw [hpc] at hworker
  obtain ⟨hlt, rfl⟩ := hworker
  exact registered_denotes hr (by rw [hpc]; rfl) (CArray.get_mem_take _ hlt)

theorem worker_pipe {cfg : Config} {s s' : State} {input : Input} {log : RecvLog}
    (hr : (server cfg).Reachable s) (hi : PipeInv s log) (hok : RecvAnswers s (.worker input))
    (h : WorkerStep s input s') : PipeInv s' (recvNote s (.worker input) log) := by
  have hworker := (reachable_registry hr).worker
  have hreg := (reachable_registry hr).reg
  unfold PipeInv at hi
  cases h with
  | idle hpc | overrun hpc => exact hi
  | begin hpc | fdTest hpc | fdDone hpc | fdSet hpc | timeout hpc | ready hpc | selectError hpc
  | recvTest hpc | passDone hpc | isSet hpc | notSet hpc | recv hpc | closeItem hpc | closeTime hpc
  | pushClose hpc =>
    exact hi.move (by rw [hpc]; exact fun _ => rfl) (by rw [hpc]; rfl)
  | @offline i k r hpc hallowed hoff =>
    have hnote : recvNote s (.worker (.received r)) log = log := by
      cases r with
      | data bytes => exact absurd hoff (RecvResult.data_not_offline hallowed)
      | _ => rfl
    rw [hnote]
    exact hi.move (by rw [hpc]; exact fun _ => rfl) (by rw [hpc]; rfl)
  | @received i k r hpc hallowed hoff =>
    obtain ⟨bytes, rfl⟩ := RecvResult.Usual.data hok hoff
    rw [hpc] at hi
    unfold recvNote
    rw [hpc]
    dsimp only
    rw [recvWait_denotes hr hpc]
    exact hi.recv bytes
  | shutdown hpc =>
    refine PipeAt.move (PipeInv.postError hi _ _) (fun _ => ?_) ?_
    · rw [State.postError, hpc]
      rfl
    · rw [State.postError, hpc]
      rfl
  | postClose hpc =>
    rw [hpc] at hi hworker
    obtain ⟨-, -, hk⟩ := hworker
    have hnote : recvNote s (.worker .go) log = log := rfl
    rw [hnote]
    unfold PipeInv State.post
    rw [Channel.posted_post]
    exact hi.postClose hk
  | remove hpc =>
    rw [hpc] at hi
    exact hi.remove
  | recvItem hpc hlen =>
    rw [hpc] at hi hworker
    obtain ⟨hlt, hk⟩ := hworker
    exact hi.copy hk rfl rfl
  | getpeername hpc =>
    rw [hpc] at hi
    exact hi.move (fun _ => rfl) rfl
  | @peerError i k item e hpc =>
    have hpost : PipeInv (s.post (.onError { item with addr := .zero } e)) log :=
      PipeInv.post hi trivial
    exact PipeAt.move hpost (fun _ => by rw [State.post, hpc]; rfl) (by rw [State.post, hpc]; rfl)
  | postRecv hpc =>
    rw [hpc] at hi hworker
    obtain ⟨hlt, hk, hitem⟩ := hworker
    have hopen := ((Roster.mem_present _).mp (hreg.mem_present hlt)).2
    rw [hk, ← hitem] at hopen
    have hnote : recvNote s (.worker .go) log = log := rfl
    rw [hnote]
    unfold PipeInv State.post
    rw [Channel.posted_post]
    exact hi.postRecv hopen

theorem start_pipe (cfg : Config) : PipeInv (start cfg) [] where
  pipe _ := rfl
  order := List.Pairwise.nil
  closes := nofun

/-- **Run lemma.** -/
theorem watched_pipe {cfg : Config} {w : Watched State RecvLog}
    (h : (recvWatched cfg).Reach (fun w a => RecvAnswers w.state a) w) : PipeInv w.state w.notes := by
  refine h.watch_invariant (I := PipeInv) (start_pipe cfg) ?_
  intro s a s' log hr hi hok hs
  cases runsStep hs with
  | accept ht => exact accept_pipe hi ht
  | worker ht => exact worker_pipe hr.reachable hi hok ht
  | close ht => exact close_pipe hi ht
  | main ht => exact main_pipe hi ht
  | pool ht => exact pool_pipe hi ht

/-! ## What arrives -/

theorem payloads_mono {c : Nat} {ms ms' : List Msg} (h : ms <+: ms') :
    payloads c ms <+: payloads c ms' := by
  obtain ⟨rest, rfl⟩ := h
  exact ⟨payloads c rest, (payloads_append c ms rest).symm⟩

/-- After the close of `c` there is nothing for it. -/
theorem payloads_after_close {item : SelectItem} {pre post : List Msg}
    (h : (pre ++ .onClose item :: post).Pairwise Msg.CloseLast) :
    payloads item.socket.conn post = [] := by
  have hpost := (List.pairwise_cons.mp (List.pairwise_append.mp h).2.1).1
  unfold payloads
  rw [List.flatMap_eq_nil_iff]
  intro m hm
  have hne := hpost m hm
  cases m with
  | onRecv item' => exact if_neg hne
  | _ => rfl

/-- The worker has nothing of a closed client in hand. -/
theorem inHand_closed {s : State} (hreg : RegistryInv s) {c : Nat}
    (hc : c ∈ s.closed ∨ s.workerPc.closing = some c) : s.workerPc.inHand c = [] := by
  have hworker := hreg.worker
  have hopen : ∀ i, i < s.clients.num → (s.clients.arr.get i).conn ∉ s.closed := fun i hi =>
    ((Roster.mem_present _).mp (hreg.reg.mem_present hi)).2
  generalize s.workerPc = pc at hc hworker
  cases pc with
  | recvItem i k r =>
    obtain ⟨hlt, rfl⟩ := hworker
    refine if_neg ?_
    rintro rfl
    rcases hc with hc | hc
    · exact hopen i hlt hc
    · cases hc
  | getpeername i k item | postRecv i k item =>
    obtain ⟨hlt, rfl, hitem⟩ := hworker
    refine if_neg ?_
    rintro rfl
    rcases hc with hc | hc
    · exact hopen i hlt (hitem ▸ hc)
    · cases hc
  | _ => rfl

/-- **What is dispatched for a connection is what was received from it**: at any
moment its beginning; all of it when no message of the connection is on its way; and
all of it before the `WM_ONCLOSE`, after which nothing comes. -/
theorem payloads_exact {cfg : Config} {w : Watched State RecvLog}
    (h : (recvWatched cfg).Reach (fun w a => RecvAnswers w.state a) w) (c : Nat) :
    payloads c w.state.queue.taken <+: received c w.notes ∧
    (payloads c w.state.queue.waiting = [] → w.state.workerPc.inHand c = [] →
      payloads c w.state.queue.taken = received c w.notes) ∧
    (∀ pre item post, w.state.queue.taken = pre ++ .onClose item :: post → item.socket.conn = c →
      payloads c pre = received c w.notes ∧ ∀ item', .onRecv item' ∈ post → item'.socket.conn ≠ c) := by
  have hi : PipeInv w.state w.notes := watched_pipe h
  have hpipe := hi.pipe c
  have hposted : w.state.queue.posted = w.state.queue.taken ++ w.state.queue.waiting := rfl
  refine ⟨?_, ?_, ?_⟩
  · rw [← hpipe]
    exact (payloads_mono w.state.queue.taken_prefix_posted).trans (List.prefix_append _ _)
  · intro hwait hhand
    rw [← hpipe, hhand, List.append_nil, hposted, payloads_append, hwait, List.append_nil]
  · rintro pre item post htaken rfl
    have hall : w.state.queue.posted = pre ++ .onClose item :: (post ++ w.state.queue.waiting) := by
      rw [hposted, htaken, List.append_assoc, List.cons_append]
    have horder := hi.order
    rw [hall] at horder
    constructor
    · have hmem : Msg.onClose item ∈ w.state.queue.posted := by
        rw [hall]
        exact List.mem_append_right _ (List.mem_cons_self ..)
      have hhand := inHand_closed (reachable_registry h.unwatched.reachable) (hi.closes item hmem)
      rw [← hpipe, hhand, List.append_nil, hall, payloads_append]
      show _ = _ ++ payloads _ (post ++ w.state.queue.waiting)
      rw [payloads_after_close horder, List.append_nil]
    · intro item' hm
      have hrest := (List.pairwise_cons.mp (List.pairwise_append.mp horder).2.1).1
      exact hrest _ (List.mem_append_left _ hm)

/-- Two clients; the second sends a byte and a NUL byte in two pieces, the first leaves
between them, which moves the second in the array. -/
theorem payloads_exact_two_clients :
    ∃ w, (recvWatched ⟨1000, 0⟩).Reach (fun w a => RecvAnswers w.state a) w ∧
      w.notes = [(some 1, [65]), (some 1, [0, 66])] ∧
      payloads 1 w.state.queue.taken = received 1 w.notes := by
  obtain ⟨w, hr, hnotes, hwait, hhand⟩ := Machine.exists_reach (M := recvWatched ⟨1000, 0⟩)
    (fun w a => RecvAnswers w.state a)
    (p := fun w => w.notes = [(some 1, [65]), (some 1, [0, 66])] ∧
      payloads 1 w.state.queue.waiting = [] ∧ w.state.workerPc.inHand 1 = [])
    (connectActs 0 4 ++ connectActs 0 8 ++ List.replicate 6 (.worker .go) ++
      [.worker (.selected (.ready [8])), .worker .go, .worker .go] ++ List.replicate 3 (.worker .go) ++
      receiveActs [65] ++ [.worker .go] ++ pollActs 2 [4] ++ closeActs ++ [.worker .go] ++
      pollActs 1 [8] ++ receiveActs [0, 66] ++ (List.replicate 5 dispatchActs).flatten)
    (by decide)
  exact ⟨w, hr, hnotes, (payloads_exact hr 1).2.1 hwait hhand⟩

end WingPhp.Select
