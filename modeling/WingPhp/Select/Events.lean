import WingPhp.Select.Registry

/-!
# The order of a client's events

The accept thread appends a client to the array before it posts its
`WM_ONCONNECT`, so the worker may already poll, read and even close the client
while the accept thread is still in `select_onconnect`; whatever the worker posts
then is dispatched first.  That is the only disorder: in the runs where the
worker posts for a client only after `select_onconnect` has returned for it
(`ConnectPostedFirst`), the messages of each client are posted, and hence
dispatched, as one connect, then receives, then at most one close
(`events_inOrder`).
-/

namespace WingPhp.Select

open Transition Sclient

inductive Event where
  | connect
  | recv
  | close
  deriving DecidableEq, Repr

/-- The event of connection `c` that a message announces. -/
def Msg.eventFor (c : Nat) : Msg → Option Event
  | .onConnect item => if item.socket.conn = c then some .connect else none
  | .onRecv item => if item.socket.conn = c then some .recv else none
  | .onClose item => if item.socket.conn = c then some .close else none
  | .onError _ _ | .onSend _ => none

def eventsOf (c : Nat) (ms : List Msg) : List Event := ms.filterMap (Msg.eventFor c)

/-- If anything happened, the first was the one connect; and after a close there
is neither a receive nor a connect. -/
structure InOrder (l : List Event) : Prop where
  connect_first : l ≠ [] → l.head? = some .connect ∧ l.count .connect = 1
  close_last : ∀ pre post, l = pre ++ .close :: post → .recv ∉ post ∧ .connect ∉ post

/-- An order holds of every initial part too. -/
theorem InOrder.of_prefix {l l' : List Event} (h : InOrder l') (hp : l <+: l') : InOrder l := by
  obtain ⟨rest, rfl⟩ := hp
  constructor
  · intro hne
    obtain ⟨hhead, hcount⟩ := h.connect_first (by simp [hne])
    rw [List.head?_append_of_ne_nil _ hne] at hhead
    have hpos : 0 < l.count .connect := List.count_pos_iff.mpr (List.mem_of_mem_head? hhead)
    rw [List.count_append] at hcount
    exact ⟨hhead, by omega⟩
  · intro pre post he
    have := h.close_last pre (post ++ rest) (by simp [he])
    simp only [List.mem_append, not_or] at this
    exact ⟨this.1.1, this.2.1⟩

theorem inOrder_nil : InOrder [] where
  connect_first := fun h => absurd rfl h
  close_last := by intro pre post h; simp at h

/-- A connect, then receives, then perhaps a close. -/
def lifetime (n : Nat) (ended : Bool) : List Event :=
  .connect :: List.replicate n .recv ++ (if ended then [.close] else [])

theorem lifetime_inOrder (n : Nat) (ended : Bool) : InOrder (lifetime n ended) := by
  constructor
  · intro _
    cases ended <;> simp [lifetime, List.count_append, List.count_replicate]
  · intro pre post he
    -- a close is the last element, so nothing follows it
    have hclose : Event.close ∉ Event.connect :: List.replicate n Event.recv := by
      simp [List.mem_replicate]
    rcases List.eq_nil_or_concat post with rfl | ⟨post', x, rfl⟩
    · simp
    · exfalso
      apply hclose
      cases ended with
      | false =>
        have : lifetime n false = .connect :: List.replicate n .recv := List.append_nil _
        rw [this] at he
        rw [he]
        simp
      | true =>
        have hlast : Event.connect :: List.replicate n .recv = pre ++ .close :: post' := by
          have he' : (Event.connect :: List.replicate n .recv) ++ [.close] =
              (pre ++ .close :: post') ++ [x] := by
            simpa [lifetime] using he
          exact (List.append_inj' he' rfl).1
        rw [hlast]
        simp

/-! ## The invariant -/

/-- The client whose `select_onconnect` has not returned yet. -/
def AcceptPc.held : AcceptPc → Option Nat
  | .appendTest item | .append item | .stamp item | .sndTimeo item | .rcvTimeo item
  | .keepAlive item | .keepAliveVals item | .post item => some item.socket.conn
  | .check | .accept _ => none

/-- The client whose `WM_ONCLOSE` is posted and who is about to be unregistered. -/
def WorkerPc.closing : WorkerPc → Option Nat
  | .remove _ k => some k.conn
  | _ => none

/-- The worker posts for a client only once `select_onconnect` has returned for it. -/
def ConnectPostedFirst (s : State) : Act → Prop
  | .worker _ =>
    match s.workerPc with
    | .postRecv _ _ item | .postClose _ _ item => s.acceptPc.held ≠ some item.socket.conn
    | _ => True
  | _ => True

instance (s : State) (a : Act) : Decidable (ConnectPostedFirst s a) := by
  unfold ConnectPostedFirst
  split
  · split <;> infer_instance
  · infer_instance

structure EventsAt (accepted : List Sock) (nextConn : Nat) (held : Option Nat) (closed : List Nat)
    (closing : Option Nat) (ms : List Msg) : Prop where
  fresh : ∀ c, nextConn ≤ c → eventsOf c ms = []
  held_lt : ∀ c, held = some c → c < nextConn
  held_silent : ∀ c, held = some c → eventsOf c ms = [] ∧ c ∉ closed ∧ closing ≠ some c
  announced : ∀ k ∈ accepted, held ≠ some k.conn →
    ∃ n, eventsOf k.conn ms = lifetime n (k.conn ∈ closed ∨ closing = some k.conn)

def EventsInv (s : State) : Prop :=
  EventsAt s.accepted s.nextConn s.acceptPc.held s.closed s.workerPc.closing s.queue.posted

theorem eventsOf_append (c : Nat) (ms ms' : List Msg) :
    eventsOf c (ms ++ ms') = eventsOf c ms ++ eventsOf c ms' :=
  List.filterMap_append

namespace EventsAt

variable {accepted : List Sock} {nextConn : Nat} {held : Option Nat} {closed : List Nat}
  {closing : Option Nat} {ms : List Msg}

/-- Messages that announce no event of a client. -/
theorem silent (h : EventsAt accepted nextConn held closed closing ms) {ms' : List Msg}
    (hm : ∀ c, eventsOf c ms' = []) : EventsAt accepted nextConn held closed closing (ms ++ ms') := by
  have heq : ∀ c, eventsOf c (ms ++ ms') = eventsOf c ms := by
    intro c
    rw [eventsOf_append, hm c, List.append_nil]
  constructor
  · intro c hc
    rw [heq]
    exact h.fresh c hc
  · exact h.held_lt
  · intro c hc
    rw [heq]
    exact h.held_silent c hc
  · intro k hk hh
    rw [heq]
    exact h.announced k hk hh

theorem accept (h : EventsAt accepted nextConn none closed closing ms) (v : Nat)
    (hclosed : nextConn ∉ closed) (hclosing : closing ≠ some nextConn) :
    EventsAt (accepted ++ [⟨v, nextConn⟩]) (nextConn + 1) (some nextConn) closed closing ms where
  fresh c hc := h.fresh c (by omega)
  held_lt := by
    intro c hc
    obtain rfl := Option.some.inj hc
    exact Nat.lt_succ_self _
  held_silent := by
    intro c hc
    obtain rfl := Option.some.inj hc
    exact ⟨h.fresh _ (Nat.le_refl _), hclosed, hclosing⟩
  announced := by
    intro k hk hh
    rcases List.mem_append.mp hk with hk | hk
    · exact h.announced k hk nofun
    · obtain rfl := List.mem_singleton.mp hk
      exact absurd rfl hh

/-- The accept thread posts `WM_ONCONNECT` and lets go of the client. -/
theorem connect {item : SelectItem}
    (h : EventsAt accepted nextConn (some item.socket.conn) closed closing ms) :
    EventsAt accepted nextConn none closed closing (ms ++ [.onConnect item]) := by
  have hlt := h.held_lt _ rfl
  obtain ⟨hnone, hncl, hnc⟩ := h.held_silent _ rfl
  constructor
  · intro c hc
    rw [eventsOf_append, h.fresh c hc]
    simp [eventsOf, Msg.eventFor, show item.socket.conn ≠ c by omega]
  · nofun
  · nofun
  · intro k hk _
    rw [eventsOf_append]
    by_cases hkc : item.socket.conn = k.conn
    · refine ⟨0, ?_⟩
      rw [← hkc, hnone]
      simp [eventsOf, Msg.eventFor, lifetime, hncl, hnc]
    · obtain ⟨n, hn⟩ := h.announced k hk (by simpa using hkc)
      refine ⟨n, ?_⟩
      rw [hn]
      simp [eventsOf, Msg.eventFor, hkc]

/-- The worker posts for an open client that has been announced. -/
theorem recv {item : SelectItem} (h : EventsAt accepted nextConn held closed none ms)
    (hlt : item.socket.conn < nextConn) (hheld : held ≠ some item.socket.conn)
    (hopen : item.socket.conn ∉ closed) :
    EventsAt accepted nextConn held closed none (ms ++ [.onRecv item]) := by
  constructor
  · intro c hc
    rw [eventsOf_append, h.fresh c hc]
    simp [eventsOf, Msg.eventFor, show item.socket.conn ≠ c by omega]
  · exact h.held_lt
  · intro c hc
    obtain ⟨hnone, hrest⟩ := h.held_silent c hc
    refine ⟨?_, hrest⟩
    have hne : item.socket.conn ≠ c := fun e => hheld (e ▸ hc)
    rw [eventsOf_append, hnone]
    simp [eventsOf, Msg.eventFor, hne]
  · intro k hk hh
    obtain ⟨n, hn⟩ := h.announced k hk hh
    rw [eventsOf_append, hn]
    by_cases hkc : item.socket.conn = k.conn
    · refine ⟨n + 1, ?_⟩
      simp [eventsOf, Msg.eventFor, lifetime, hkc, hkc ▸ hopen, List.replicate_succ']
    · refine ⟨n, ?_⟩
      simp [eventsOf, Msg.eventFor, hkc]

theorem close {item : SelectItem} (h : EventsAt accepted nextConn held closed none ms)
    (hlt : item.socket.conn < nextConn) (hheld : held ≠ some item.socket.conn)
    (hopen : item.socket.conn ∉ closed) :
    EventsAt accepted nextConn held closed (some item.socket.conn) (ms ++ [.onClose item]) := by
  constructor
  · intro c hc
    rw [eventsOf_append, h.fresh c hc]
    simp [eventsOf, Msg.eventFor, show item.socket.conn ≠ c by omega]
  · exact h.held_lt
  · intro c hc
    obtain ⟨hnone, hncl, -⟩ := h.held_silent c hc
    have hne : item.socket.conn ≠ c := fun e => hheld (e ▸ hc)
    refine ⟨?_, hncl, by simpa using hne⟩
    rw [eventsOf_append, hnone]
    simp [eventsOf, Msg.eventFor, hne]
  · intro k hk hh
    obtain ⟨n, hn⟩ := h.announced k hk hh
    refine ⟨n, ?_⟩
    rw [eventsOf_append, hn]
    by_cases hkc : item.socket.conn = k.conn
    · simp [eventsOf, Msg.eventFor, lifetime, hkc, hkc ▸ hopen]
    · simp [eventsOf, Msg.eventFor, lifetime, hkc]

theorem unregister {c : Nat} (h : EventsAt accepted nextConn held closed (some c) ms) :
    EventsAt accepted nextConn held (closed ++ [c]) none ms where
  fresh := h.fresh
  held_lt := h.held_lt
  held_silent := by
    intro c' hc'
    obtain ⟨hnone, hncl, hnc⟩ := h.held_silent c' hc'
    have hne : c' ≠ c := fun e => hnc (by rw [e])
    exact ⟨hnone, by simp [hncl, hne], nofun⟩
  announced := by
    intro k hk hh
    obtain ⟨n, hn⟩ := h.announced k hk hh
    refine ⟨n, ?_⟩
    rw [hn]
    congr 1
    simp [eq_comm]

end EventsAt

/-! ## Every step keeps the invariant -/

theorem EventsInv.postError {s : State} {held closing : Option Nat}
    (h : EventsAt s.accepted s.nextConn held s.closed closing s.queue.posted)
    (item : SelectItem) (e : Option Nat) :
    EventsAt s.accepted s.nextConn held s.closed closing (s.postError item e).queue.posted := by
  rw [State.postError, Channel.posted_postOption]
  exact h.silent fun c => by cases e <;> rfl

theorem accept_events {s s' : State} {input : Input} (hreg : RegistryInv s) (hi : EventsInv s)
    (h : AcceptStep s input s') : EventsInv s' := by
  have hevents := hi
  unfold EventsInv at hi
  cases h with
  | full => exact hevents
  | new hpc | refused hpc | noRoom hpc | room hpc | append hpc | stamp hpc | stampOnly hpc =>
    rw [hpc] at hi
    exact hi
  | accepted hpc =>
    rw [hpc] at hi
    refine hi.accept _ (fun hc => Nat.lt_irrefl _ (hreg.reg.closed_lt _ hc)) fun hc => ?_
    have hworker := hreg.worker
    generalize s.workerPc = pc at hc hworker
    cases pc with
    | remove i k =>
      obtain ⟨hlt, rfl⟩ := hworker
      have hacc := ((Roster.mem_present _).mp (hreg.reg.mem_present hlt)).1
      exact Nat.ne_of_lt (hreg.reg.accepted_lt _ hacc) (Option.some.inj hc)
    | _ => cases hc
  | sndTimeo hpc | rcvTimeo hpc | keepAlive hpc | keepAliveVals hpc =>
    rw [hpc] at hi
    exact EventsInv.postError hi _ _
  | post hpc =>
    rw [hpc] at hi
    unfold EventsInv
    simp only [State.post, Channel.posted_post]
    exact hi.connect

theorem worker_events {s s' : State} {input : Input} (hreg : RegistryInv s) (hi : EventsInv s)
    (hok : ConnectPostedFirst s (.worker input)) (h : WorkerStep s input s') : EventsInv s' := by
  have hworker := hreg.worker
  have hevents := hi
  unfold EventsInv at hi
  simp only [ConnectPostedFirst] at hok
  cases h with
  | idle | overrun => exact hevents
  | postClose hpc =>
    rw [hpc] at hi hworker hok
    obtain ⟨hlt, rfl, hitem⟩ := hworker
    obtain ⟨hacc, hopen⟩ := (Roster.mem_present _).mp (hreg.reg.mem_present hlt)
    unfold EventsInv
    simp only [State.post, Channel.posted_post]
    have := EventsAt.close hi (hitem ▸ hreg.reg.accepted_lt _ hacc) hok (hitem ▸ hopen)
    rw [hitem] at this
    exact this
  | remove hpc =>
    rw [hpc] at hi
    exact hi.unregister
  | postRecv hpc =>
    rw [hpc] at hi hworker hok
    obtain ⟨hlt, rfl, hitem⟩ := hworker
    obtain ⟨hacc, hopen⟩ := (Roster.mem_present _).mp (hreg.reg.mem_present hlt)
    unfold EventsInv
    simp only [State.post, Channel.posted_post]
    exact EventsAt.recv hi (hitem ▸ hreg.reg.accepted_lt _ hacc) hok (hitem ▸ hopen)
  | shutdown hpc =>
    rw [hpc] at hi
    exact EventsInv.postError hi _ _
  | peerError hpc =>
    rw [hpc] at hi
    exact EventsInv.postError hi _ (some _)
  | _ hpc =>
    rw [hpc] at hi
    exact hi

theorem main_events {s s' : State} {input : Input} (hi : EventsInv s)
    (h : MainStep s input s') : EventsInv s' := by
  cases h with
  | get _ hpop =>
    unfold EventsInv
    rw [Channel.posted_pop hpop]
    exact hi
  | phpSend =>
    unfold EventsInv
    rw [Channel.posted_postOption]
    refine EventsAt.silent hi fun c => ?_
    cases (sclientSend _ _ _ _).2.2 <;> rfl
  | handle | done => exact hi

theorem pool_events {s s' : State} {k : Nat} {input : Input} (hi : EventsInv s)
    (h : PoolStep s k input s') : EventsInv s' := by
  cases h with
  | send => exact hi
  | post =>
    unfold EventsInv
    simp only [State.post, Channel.posted_post]
    exact EventsAt.silent hi fun _ => rfl

theorem close_events {s s' : State} {input : Input} (hi : EventsInv s)
    (h : CloseStep s input s') : EventsInv s' := by
  cases h <;> exact hi

theorem reach_events {cfg : Config} {s : State} (h : (server cfg).Reach ConnectPostedFirst s) :
    EventsInv s := by
  have hstart : EventsInv (start cfg) := ⟨fun _ _ => rfl, nofun, nofun, nofun⟩
  refine h.invariant hstart ?_
  intro s a s' hr hi hok hs
  have hreg := reachable_registry hr.reachable
  cases runsStep hs with
  | accept ht => exact accept_events hreg hi ht
  | worker ht => exact worker_events hreg hi hok ht
  | close ht => exact close_events hi ht
  | main ht => exact main_events hi ht
  | pool ht => exact pool_events hi ht

/-! ## What the message loop dispatches -/

/-- **Events in order**, in the runs where the worker waits for
`select_onconnect`: for every accepted client the dispatched messages are in
order, and its one `WM_ONCONNECT` is in the queue or dispatched as soon as the
accept thread is done with it. -/
theorem events_inOrder {cfg : Config} {s : State} (h : (server cfg).Reach ConnectPostedFirst s)
    {k : Sock} (hk : k ∈ s.accepted) :
    InOrder (eventsOf k.conn s.queue.taken) ∧
    (s.acceptPc.held ≠ some k.conn → (eventsOf k.conn s.queue.posted).count .connect = 1) := by
  have hi : EventsInv s := reach_events h
  have hpre : eventsOf k.conn s.queue.taken <+: eventsOf k.conn s.queue.posted :=
    s.queue.taken_prefix_posted.filterMap _
  by_cases hheld : s.acceptPc.held = some k.conn
  · obtain ⟨hnone, -⟩ := hi.held_silent _ hheld
    rw [hnone, List.prefix_nil] at hpre
    rw [hpre]
    exact ⟨inOrder_nil, fun hne => absurd hheld hne⟩
  · obtain ⟨n, hn⟩ := hi.announced k hk hheld
    have horder := lifetime_inOrder n (k.conn ∈ s.closed ∨ s.workerPc.closing = some k.conn)
    rw [hn] at hpre ⊢
    exact ⟨horder.of_prefix hpre, fun _ => (horder.connect_first (by simp [lifetime])).2⟩

/-- The worker, waiting in `recv` for the socket at its index, gets `bytes` and
posts them. -/
def receiveActs (bytes : List UInt8) : List Act :=
  [.worker (.received (.data bytes)), .worker (.clock 0), .worker (.peer (.ok .zero)), .worker .go]

/-- The message loop takes one message and runs its callback. -/
def dispatchActs : List Act := [.main .go, .main (.clockAndPeer 0 .zero), .main .go]

/-- A client that connects, sends one byte and leaves. -/
theorem events_inOrder_one_client :
    ∃ s, (server ⟨1000, 0⟩).Reach ConnectPostedFirst s ∧
      eventsOf 0 s.queue.taken = [.connect, .recv, .close] ∧ InOrder (eventsOf 0 s.queue.taken) := by
  obtain ⟨s, hr, hev, hk⟩ := Machine.exists_reach (M := server ⟨1000, 0⟩) ConnectPostedFirst
    (p := fun s => eventsOf 0 s.queue.taken = [.connect, .recv, .close] ∧ (⟨4, 0⟩ : Sock) ∈ s.accepted)
    (connectActs 0 4 ++ pollActs 1 [4] ++ receiveActs [65] ++ [.worker .go] ++ pollActs 1 [4] ++
      closeActs ++ dispatchActs ++ dispatchActs ++ dispatchActs) (by decide)
  exact ⟨s, hr, hev, (events_inOrder hr hk).1⟩

/-- The worker reads the first byte of a client while the accept thread is still
setting its socket options: the byte is dispatched before the connect. -/
theorem recv_dispatched_before_connect :
    ¬ ∀ (cfg : Config) (s : State) (k : Sock), (server cfg).Reachable s → k ∈ s.accepted →
      InOrder (eventsOf k.conn s.queue.taken) := by
  intro hall
  obtain ⟨s, hr, hev, hk⟩ := Machine.exists_reachable (M := server ⟨1000, 0⟩)
    (p := fun s => eventsOf 0 s.queue.taken = [.recv] ∧ (⟨4, 0⟩ : Sock) ∈ s.accepted)
    ((connectActs 0 4).take 4 ++ pollActs 1 [4] ++ receiveActs [65] ++ dispatchActs) (by decide)
  have horder : InOrder (eventsOf 0 s.queue.taken) := hall _ s _ hr hk
  rw [hev] at horder
  exact absurd (horder.connect_first (by decide)).1 (by decide)

end WingPhp.Select
