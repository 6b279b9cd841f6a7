import WingPhp.Iocp.Contexts

/-!
# The object a callback is given

A message carries a pointer to its context, and `wing_server::start` fills the
`wing_sclient` object from the context when it dispatches the message.  By then the
address in it is of whichever connection `getpeername` was asked about last, and the
flag is what `iocp_onconnect` or `iocp_onclose` stored last.  An observer keeps both
histories (`Tenancy`); `objects_of_event` says that the object is that of the event
exactly if they still tell of its connection.  The select server has no such
condition: its messages own a `SELECT_ITEM` with the address in it.
-/

namespace WingPhp.Iocp

open Transition Sclient

/-! ## The observer -/

/-- What was stored last in a context: the address of this connection, or none, and
whether a client is online. -/
structure Tenancy where
  peer : Option Nat
  online : Bool
  deriving DecidableEq, Repr

/-- A context in which nothing was stored yet. -/
def Tenancy.vacant : Tenancy := ⟨none, false⟩

/-- An event of a connection, and the flag of the connection at it. -/
structure ClientEvent where
  povl : Nat
  conn : Nat
  online : Nat
  deriving DecidableEq, Repr

/-- The events that are passed to `onconnect`, `onreceive` and `onclose`. -/
def Msg.event : Msg → Option ClientEvent
  | .onConnect povl conn => some ⟨povl, conn, 1⟩
  | .onRecv povl conn _ _ => some ⟨povl, conn, 1⟩
  | .onClose povl conn _ => some ⟨povl, conn, 0⟩
  | _ => none

/-- An object that was made, for which event, and what its context told then. -/
structure Shown where
  event : ClientEvent
  object : SClient
  tenancy : Tenancy
  deriving DecidableEq, Repr

structure ObjectLog where
  tenancy : Nat → Tenancy
  shown : List Shown

def ObjectLog.empty : ObjectLog := ⟨fun _ => .vacant, []⟩

/-- A store into the fields that an object is made from. -/
inductive ClientStore where
  | none
  | online
  | offline
  | address (r : Except Nat SockAddrIn)

/-- What a step of a callback stores. -/
def Callback.clientStore (cb : Callback) (input : Input) : ClientStore :=
  match cb.pc, input with
  | .online, .clock _ => .online
  | .getpeername, .peer r => .address r
  | .reset, .clock _ => .offline
  | _, _ => .none

/-- `denoted` is the connection that `getpeername` was asked about. -/
def ClientStore.tenancy (denoted : Option Nat) (t : Tenancy) : ClientStore → Tenancy
  | .none => t
  | .online => { t with online := true }
  | .offline => { t with online := false }
  | .address (.ok _) => { t with peer := denoted }
  | .address (.error _) => { t with peer := Option.none }

def objectNote (s : State) (a : Act) (log : ObjectLog) : ObjectLog :=
  match a with
  | .run c i input =>
    match s.contexts[c]? with
    | some cx =>
      match cx.callbacks[i]? with
      | some cb =>
        let store := cb.clientStore input
        let tenancy := store.tenancy (s.handles cx.ol.skClient) (log.tenancy c)
        { log with tenancy := Function.update log.tenancy c tenancy }
      | none => log
    | none => log
  | .main .go =>
    match s.mainPc with
    | .handle m =>
      match m.event, s.object m with
      | some event, some object => { log with shown := log.shown ++ [⟨event, object, log.tenancy event.povl⟩] }
      | _, _ => log
    | _ => log
  | _ => log

/-- The server, with a record of the objects made by the message loop. -/
def objectWatched (cfg : Config) : Machine (Watched State ObjectLog) Act :=
  (server cfg).watch .empty objectNote

/-! ## The connections and their peers -/

/-- `getpeername` tells the peer of the connection that the handle denotes. -/
def PeerKnown (peer : Nat → SockAddrIn) (s : State) : Act → Prop
  | .run c _ (.peer (.ok addr)) =>
    ∀ cx ∈ s.contexts[c]?, (s.handles cx.ol.skClient).map peer = some addr
  | _ => True

instance (peer : Nat → SockAddrIn) (s : State) (a : Act) : Decidable (PeerKnown peer s a) :=
  match a with
  | .run c _ (.peer (.ok addr)) =>
    inferInstanceAs (Decidable
      (∀ cx ∈ s.contexts[c]?, (s.handles cx.ol.skClient).map peer = some addr))
  | .run _ _ (.peer (.error _)) | .run _ _ .go | .run _ _ (.clock _) | .run _ _ (.ret _)
  | .run _ _ (.call _) | .run _ _ (.recvDone _) | .run _ _ (.create _) | .complete _ _ _
  | .deliver _ _ _ | .main _ | .pool _ _ => .isTrue trivial

/-- The address that was stored last. -/
def Tenancy.addr (peer : Nat → SockAddrIn) (t : Tenancy) : SockAddrIn :=
  match t.peer with
  | some k => peer k
  | none => .zero

def Tenancy.flag (t : Tenancy) : Nat := if t.online then 1 else 0

variable {peer : Nat → SockAddrIn}

/-- The object has the address, the port and the flag of the event's connection. -/
structure Shown.Right (peer : Nat → SockAddrIn) (e : Shown) : Prop where
  addr : e.object.sinAddr = (peer e.event.conn).sinAddr
  port : e.object.sinPort = ntohs (peer e.event.conn).sinPort
  online : e.object.online = e.event.online

/-- When the object was made, the last address stored in the context was that of the
event's connection (or of one with the same peer), and the last flag was its flag. -/
structure Shown.InTime (peer : Nat → SockAddrIn) (e : Shown) : Prop where
  addr : (e.tenancy.addr peer).sinAddr = (peer e.event.conn).sinAddr
  port : ntohs (e.tenancy.addr peer).sinPort = ntohs (peer e.event.conn).sinPort
  online : e.tenancy.flag = e.event.online

/-! ## The invariant -/

/-- The fields of a context that the object is made from; `iocp_create_wing_sclient`
without a context leaves the defaults. -/
def clientFields : Option IocpOverlapped → SockAddrIn × Nat
  | some ol => (ol.addrClient, ol.online)
  | none => (.zero, 0)

/-- What the message loop finds in context `c`. -/
def fieldsAt (contexts : List Context) (c : Nat) : SockAddrIn × Nat :=
  clientFields ((contexts[c]?).map Context.ol)

/-- The callback that runs was given the object made last. -/
def Passed (mainPc : MainPc) (objects : List SClient) (shown : List Shown) : Prop :=
  ∀ m event, mainPc = .callback m → m.event = some event →
    ∃ e, shown.getLast? = some e ∧ e.event = event ∧ objects.getLast? = some e.object

structure ObjectInv (peer : Nat → SockAddrIn) (s : State) (log : ObjectLog) : Prop where
  fields : ∀ c, fieldsAt s.contexts c = ((log.tenancy c).addr peer, (log.tenancy c).flag)
  shown : ∀ e ∈ log.shown, e.object.sinAddr = (e.tenancy.addr peer).sinAddr ∧
    e.object.sinPort = ntohs (e.tenancy.addr peer).sinPort ∧ e.object.online = e.tenancy.flag
  passed : Passed s.mainPc s.objects log.shown

/-- What the object is made from. -/
theorem iocpCreateWingSclient_fields (ol : Option IocpOverlapped) (conn : Nat) :
    (iocpCreateWingSclient ol conn).sinAddr = (clientFields ol).1.sinAddr ∧
    (iocpCreateWingSclient ol conn).sinPort = ntohs (clientFields ol).1.sinPort ∧
    (iocpCreateWingSclient ol conn).online = (clientFields ol).2 := by
  cases ol with
  | some ol => exact ⟨rfl, rfl, rfl⟩
  | none => exact ⟨rfl, rfl, rfl⟩

/-- What a store does to the two fields. -/
def ClientStore.fields (f : SockAddrIn × Nat) : ClientStore → SockAddrIn × Nat
  | .none => f
  | .online => (f.1, 1)
  | .offline => (f.1, 0)
  | .address (.ok addr) => (addr, f.2)
  | .address (.error _) => (.zero, f.2)

theorem Callback.step_clientFields {povl nextConn : Nat} {ol : IocpOverlapped} {cb : Callback}
    {input : Input} {e : Effect} (h : cb.step povl nextConn ol input = some e) :
    clientFields (some e.ol) = (cb.clientStore input).fields (clientFields (some ol)) := by
  unfold Callback.clientStore
  cases callbackStep h with
  | online hpc | reset hpc | getpeername hpc | peerError hpc => simp [hpc, clientFields, ClientStore.fields]
  | recvDone hpc => simp [hpc, clientFields, ClientStore.fields, Completion.store]
  | _ hpc => simp [hpc, clientFields, ClientStore.fields]

/-- The answer of `getpeername`, if it is one, is about this connection. -/
def ClientStore.Known (peer : Nat → SockAddrIn) (denoted : Option Nat) : ClientStore → Prop
  | .address (.ok addr) => ∃ k, denoted = some k ∧ addr = peer k
  | _ => True

/-- The observer keeps up with a store. -/
theorem ClientStore.fields_tenancy {denoted : Option Nat} {t : Tenancy} {st : ClientStore}
    (hknown : st.Known peer denoted) :
    st.fields (t.addr peer, t.flag) =
      ((st.tenancy denoted t).addr peer, (st.tenancy denoted t).flag) := by
  cases st with
  | none | online | offline => rfl
  | address r =>
    cases r with
    | ok addr =>
      obtain ⟨k, rfl, rfl⟩ := hknown
      rfl
    | error e => rfl

/-- Winsock stores into the buffer only. -/
theorem store_clientFields (r : Completion) (ol : IocpOverlapped) :
    clientFields (some (r.store ol)) = clientFields (some ol) := by
  cases r <;> rfl

theorem fieldsAt_set {contexts : List Context} {c : Nat} {cx : Context} (cx' : Context)
    (hc : contexts[c]? = some cx) (c' : Nat) :
    fieldsAt (contexts.set c cx') c' =
      if c' = c then clientFields (some cx'.ol) else fieldsAt contexts c' := by
  have hlt : c < contexts.length := (List.getElem?_eq_some_iff.mp hc).1
  unfold fieldsAt
  rw [List.getElem?_set]
  by_cases h : c' = c
  · subst h
    simp [hlt]
  · rw [if_neg (Ne.symm h), if_neg h]

/-- A step that leaves the fields of its context alone leaves all alone. -/
theorem fieldsAt_set_same {contexts : List Context} {c : Nat} {cx cx' : Context}
    (hc : contexts[c]? = some cx) (hsame : clientFields (some cx'.ol) = clientFields (some cx.ol))
    (c' : Nat) : fieldsAt (contexts.set c cx') c' = fieldsAt contexts c' := by
  rw [fieldsAt_set cx' hc]
  split
  · next h =>
    rw [hsame, h]
    unfold fieldsAt
    rw [hc]
    rfl
  · rfl

/-- A new context reads like none. -/
theorem fieldsAt_new (contexts : List Context) (skServer client : Nat) (timeout : Int) (n : Nat)
    (a : CallAnswer) (c : Nat) :
    fieldsAt (contexts ++ [.new skServer client timeout n a]) c = fieldsAt contexts c := by
  unfold fieldsAt
  rcases Nat.lt_trichotomy c contexts.length with h | h | h
  · rw [List.getElem?_append_left h]
  · subst h
    rw [List.getElem?_concat_length, List.getElem?_eq_none (Nat.le_refl _)]
    rfl
  · rw [List.getElem?_eq_none (by simp; omega), List.getElem?_eq_none (by omega)]

theorem create_fields {s s' : State} {skServer : Nat} {timeout : Int} {a : CreateAnswer}
    (h : iocpCreateClient s skServer timeout a = some s') (c : Nat) :
    fieldsAt s'.contexts c = fieldsAt s.contexts c := by
  rcases iocpCreateClient_eq h with ⟨rfl, -⟩ | ⟨client, a', -, -, -, rfl⟩
  · rfl
  · exact fieldsAt_new _ _ _ _ _ _ _

/-! ## Every step keeps the invariant -/

theorem PeerKnown.known {s : State} {c i : Nat} {input : Input} {cx : Context} {cb : Callback}
    (h : PeerKnown peer s (.run c i input)) (hc : s.contexts[c]? = some cx) :
    (cb.clientStore input).Known peer (s.handles cx.ol.skClient) := by
  unfold Callback.clientStore
  split
  · trivial
  · next r _ =>
    cases r with
    | ok addr =>
      obtain ⟨k, hk, hpeer⟩ := Option.map_eq_some_iff.mp (h cx hc)
      exact ⟨k, hk, hpeer.symm⟩
    | error e => trivial
  · trivial
  · trivial

theorem ObjectInv.same {s s' : State} {log : ObjectLog} (hi : ObjectInv peer s log)
    (h : ∀ c, fieldsAt s'.contexts c = fieldsAt s.contexts c) (hmain : s'.mainPc = s.mainPc)
    (hobjects : s'.objects = s.objects) : ObjectInv peer s' log where
  fields c := (h c).trans (hi.fields c)
  shown := hi.shown
  passed := by
    rw [hmain, hobjects]
    exact hi.passed

/-- `iocp_create_client` does not touch the main thread. -/
theorem create_main {s s' : State} {skServer : Nat} {timeout : Int} {a : CreateAnswer}
    (h : iocpCreateClient s skServer timeout a = some s') :
    s'.mainPc = s.mainPc ∧ s'.objects = s.objects := by
  rcases iocpCreateClient_eq h with ⟨rfl, -⟩ | ⟨client, a', -, -, -, rfl⟩ <;> exact ⟨rfl, rfl⟩

theorem run_object {s s' : State} {c i : Nat} {input : Input} {log : ObjectLog}
    (hi : ObjectInv peer s log) (hok : PeerKnown peer s (.run c i input))
    (h : runCallback s c i input = some s') : ObjectInv peer s' (objectNote s (.run c i input) log) := by
  obtain ⟨cx, cx', e, hc, hr, hcase⟩ := runCallback_eq h
  obtain ⟨pre, cb, post, -, hcb, hstep, rfl⟩ := Context.run_eq hr
  have hfields : ∀ c', fieldsAt s'.contexts c' =
      fieldsAt (s.contexts.set c ⟨e.ol, cx.ops ++ e.start.toList, pre ++ e.next.toList ++ post⟩) c' := by
    rcases hcase with ⟨-, rfl⟩ | ⟨a, -, hcreate⟩
    · exact fun _ => rfl
    · exact create_fields hcreate
  have hmain : s'.mainPc = s.mainPc ∧ s'.objects = s.objects := by
    rcases hcase with ⟨-, rfl⟩ | ⟨a, -, hcreate⟩
    · exact ⟨rfl, rfl⟩
    · obtain ⟨hpc, hobjects⟩ := create_main hcreate
      exact ⟨hpc, hobjects⟩
  have hat : clientFields (some cx.ol) = ((log.tenancy c).addr peer, (log.tenancy c).flag) := by
    have := hi.fields c
    unfold fieldsAt at this
    rw [hc] at this
    exact this
  unfold objectNote
  simp only [hc, hcb]
  refine ⟨fun c' => ?_, hi.shown, by rw [hmain.1, hmain.2]; exact hi.passed⟩
  rw [hfields, fieldsAt_set _ hc]
  by_cases hcc : c' = c
  · subst hcc
    rw [if_pos rfl, Callback.step_clientFields hstep, hat, ClientStore.fields_tenancy (hok.known hc)]
    dsimp only
    rw [Function.update_self]
  · dsimp only
    rw [if_neg hcc, Function.update_of_ne hcc]
    exact hi.fields c'

/-- The object of an event is made from the event's context. -/
theorem object_of_event {s : State} {m : Msg} {event : ClientEvent} (h : m.event = some event) :
    s.object m = some (iocpCreateWingSclient (s.ol event.povl) event.conn) := by
  cases m <;> cases h <;> rfl

/-- A callback of the script is entered from the `switch` with a new object, and runs
on while it calls `send`. -/
theorem main_callback {cfg : Config} {s s' : State} {input : MainInput}
    (h : wingServerStart cfg s input = some s') {m : Msg} (hm : s'.mainPc = .callback m) :
    (s.mainPc = .callback m ∧ input ≠ .go ∧ s'.objects = s.objects) ∨
    ∃ client, s.mainPc = .handle m ∧ input = .go ∧ s.object m = some client ∧
      s'.objects = s.objects ++ [client] := by
  unfold wingServerStart at h
  split at h
  · split at h
    · split at h <;> cases h
      cases hm
    · cases h
  · split at h <;> cases h
    cases hm
  · split at h <;> cases h
    cases hm
  · next m' hpc =>
    split at h <;> cases h
    · next client hobject =>
      cases hm
      exact .inr ⟨client, hpc, rfl, hobject, rfl⟩
    · cases hm
  · next m' object msg queued hpc =>
    split at h <;> cases h
    exact .inl ⟨hm, nofun, rfl⟩
  · cases h
    cases hm
  · cases h

/-- The object that a step of the main thread makes for an event, if it makes one. -/
def State.showing (s : State) (input : MainInput) (log : ObjectLog) : Option Shown :=
  match input, s.mainPc with
  | .go, .handle m =>
    m.event.map fun event =>
      ⟨event, iocpCreateWingSclient (s.ol event.povl) event.conn, log.tenancy event.povl⟩
  | _, _ => none

theorem objectNote_main (s : State) (input : MainInput) (log : ObjectLog) :
    objectNote s (.main input) log = { log with shown := log.shown ++ (s.showing input log).toList } := by
  unfold objectNote State.showing
  cases input with
  | go =>
    generalize s.mainPc = pc
    cases pc with
    | handle m =>
      cases hevent : m.event with
      | none => simp [hevent]
      | some event => simp [hevent, object_of_event hevent]
    | _ => simp
  | _ => simp

theorem main_object {cfg : Config} {s s' : State} {input : MainInput} {log : ObjectLog}
    (hi : ObjectInv peer s log) (h : wingServerStart cfg s input = some s') :
    ObjectInv peer s' (objectNote s (.main input) log) := by
  rw [objectNote_main]
  refine ⟨fun c => ?_, fun e he => ?_, fun m event hm hevent => ?_⟩
  · rcases main_contexts h with ⟨hsame, -⟩ | ⟨i, a, t, -, -, -, hcreate, rfl⟩
    · rw [hsame.contexts]
      exact hi.fields c
    · have hfields : fieldsAt t.contexts c = fieldsAt s.contexts c := create_fields hcreate c
      exact hfields.trans (hi.fields c)
  · rcases List.mem_append.mp he with he | he
    · exact hi.shown e he
    · unfold State.showing at he
      split at he
      · next m _ =>
        obtain ⟨event, -, rfl⟩ := Option.map_eq_some_iff.mp (Option.mem_toList.mp he)
        have hfields : clientFields (s.ol event.povl) = _ := hi.fields event.povl
        obtain ⟨haddr, hport, hflag⟩ := iocpCreateWingSclient_fields (s.ol event.povl) event.conn
        rw [hfields] at haddr hport hflag
        exact ⟨haddr, hport, hflag⟩
      · cases he
  · rcases main_callback h hm with ⟨hpc, hgo, hobjects⟩ | ⟨client, hpc, rfl, hobject, hobjects⟩
    · have hnone : s.showing input log = none := by
        unfold State.showing
        rw [hpc]
        cases input <;> rfl
      rw [hnone, hobjects, Option.toList_none, List.append_nil]
      exact hi.passed m event hpc hevent
    · obtain rfl := Option.some.inj ((object_of_event hevent).symm.trans hobject)
      unfold State.showing
      rw [hpc, hobjects]
      simp [hevent]

theorem pool_objects {s s' : State} {k : Nat} {input : PoolInput} (h : sendThread s k input = some s') :
    s'.objects = s.objects := by
  unfold sendThread at h
  split at h
  · split at h <;> cases h
    rfl
  · split at h <;> cases h
    rfl

/-- **Run lemma.**  The observer knows what the contexts hold. -/
theorem watched_object {cfg : Config} {w : Watched State ObjectLog}
    (h : (objectWatched cfg).Reach (fun w a => PeerKnown peer w.state a) w) :
    ObjectInv peer w.state w.notes := by
  have hstart : ObjectInv peer start .empty := ⟨fun _ => rfl, nofun, nofun⟩
  refine h.watch_invariant (I := ObjectInv peer) hstart ?_
  intro s a s' log _ hi hok hs
  cases stepOf hs with
  | complete ht =>
    obtain ⟨cx, op, cx', handles, hc, -, hcx', -, rfl⟩ := completeOp_eq ht
    obtain ⟨-, -, -, -, -, -, -, rfl⟩ := Context.complete_eq hcx'
    exact hi.same (fieldsAt_set_same hc (store_clientFields _ cx.ol)) rfl rfl
  | deliver ht =>
    obtain ⟨cx, cx', hc, hcx', rfl⟩ := deliverOp_eq ht
    obtain ⟨-, -, -, -, -, -, -, rfl⟩ := Context.deliver_eq hcx'
    exact hi.same (fieldsAt_set_same hc rfl) rfl rfl
  | run ht => exact run_object hi hok ht
  | main ht => exact main_object hi ht
  | pool ht =>
    obtain ⟨hsame, hmain⟩ := pool_contexts ht
    exact hi.same (fun c => by rw [hsame.contexts]) hmain (pool_objects ht)

/-! ## The objects -/

/-- **The object carries the data of its event exactly if the context still tells of
its connection**: in every run, for every object made for `onconnect`, `onreceive` and
`onclose`; and the callback that runs for such an event was given the object made last. -/
theorem objects_of_event {cfg : Config} {w : Watched State ObjectLog}
    (h : (objectWatched cfg).Reach (fun w a => PeerKnown peer w.state a) w) :
    (∀ e ∈ w.notes.shown, e.Right peer ↔ e.InTime peer) ∧
    ∀ m event, w.state.mainPc = .callback m → m.event = some event →
      ∃ e, w.notes.shown.getLast? = some e ∧ e.event = event ∧
        w.state.objects.getLast? = some e.object := by
  have hi := watched_object h
  refine ⟨fun e he => ?_, hi.passed⟩
  obtain ⟨haddr, hport, hflag⟩ := hi.shown e he
  constructor
  · intro hright
    exact ⟨haddr.symm.trans hright.addr, hport.symm.trans hright.port, hflag.symm.trans hright.online⟩
  · intro htime
    exact ⟨haddr.trans htime.addr, hport.trans htime.port, hflag.trans htime.online⟩

/-- Every client has an address and a port of its own. -/
def examplePeer (k : Nat) : SockAddrIn := ⟨2, 256 * k, 0x0100007F + k, []⟩

/-- The dispatcher goes through `iocp_onconnect` for connection `k`, up to the post of
`WM_ONCONNECT`. -/
def onconnectPeerInputs (k : Nat) : List Input :=
  [.go, .go, .clock 0, .ret none, .ret none, .peer (.ok (examplePeer k)), .ret none,
    .call (.error 10038), .go]

/-- The message loop takes one message, makes its object and runs its callback. -/
def dispatchActs : List Act := [.main .go, .main .go, .main .go]

/-- A connection whose `WM_ONCONNECT` is dispatched at once. -/
theorem objects_of_event_at_once :
    ∃ w, (objectWatched ⟨1, 0, 100⟩).Reach (fun w a => PeerKnown examplePeer w.state a) w ∧
      w.notes.shown.length = 1 ∧ ∀ e ∈ w.notes.shown, e.Right examplePeer := by
  obtain ⟨w, hr, hshown⟩ := Machine.exists_reach (M := objectWatched ⟨1, 0, 100⟩)
    (fun w a => PeerKnown examplePeer w.state a)
    (p := fun w => w.notes.shown.map (fun e => (e.event, e.tenancy)) = [(⟨0, 0, 1⟩, ⟨some 0, true⟩)])
    (createActs 4 ++ completeActs 0 (.accepted (List.replicate addressBlocks 1)) ++
      runActs (onconnectPeerInputs 0) ++ [.main .go, .main .go] ++ dispatchActs ++ dispatchActs)
    (by decide)
  refine ⟨w, hr, by simpa using congrArg List.length hshown, fun e he => ?_⟩
  have hmem := List.mem_map_of_mem (f := fun e : Shown => (e.event, e.tenancy)) he
  rw [hshown] at hmem
  obtain ⟨hevent, htenancy⟩ := Prod.mk.inj (List.mem_singleton.mp hmem)
  exact ((objects_of_event hr).1 e he).mpr
    ⟨by rw [hevent, htenancy]; rfl, by rw [hevent, htenancy]; rfl, by rw [hevent, htenancy]; rfl⟩

/-- The client leaves, and the context has taken another one before the message loop comes
to its `WM_ONCONNECT`: `onconnect` is given the other one's address. -/
theorem object_of_next_client :
    ¬ ∀ (peer : Nat → SockAddrIn) (cfg : Config) (w : Watched State ObjectLog),
      (objectWatched cfg).Reach (fun w a => PeerKnown peer w.state a) w →
      ∀ e ∈ w.notes.shown, e.Right peer := by
  intro hall
  obtain ⟨w, hr, e, he, hconn, haddr⟩ := Machine.exists_reach (M := objectWatched ⟨1, 0, 100⟩)
    (fun w a => PeerKnown examplePeer w.state a)
    (p := fun w => ∃ e ∈ w.notes.shown, e.event.conn = 0 ∧
      e.object.sinAddr = (examplePeer 17).sinAddr)
    (createActs 4 ++ completeActs 0 (.accepted (List.replicate addressBlocks 1)) ++
      runActs (onconnectPeerInputs 0) ++ runActs [.go, .call (.error wsaIoPending)] ++ recycleActs ++
      [.complete 0 0 .finished] ++ completeActs 1 (.accepted (List.replicate addressBlocks 1)) ++
      runActs (onconnectPeerInputs 17) ++ [.main .go, .main .go] ++ dispatchActs ++ dispatchActs)
    (by decide)
  have hright := (hall examplePeer _ w hr e he).addr
  rw [haddr, hconn] at hright
  exact absurd hright (by decide)

end WingPhp.Iocp
