import WingPhp.Select.Defs

/-!
# `wing_select_server.c`: the threads

The select server as a machine.  Its state is the globals, where each thread
is, the message queue and Winsock's handle table; an action names a thread and
carries what the outside world answers to the one call that step makes.  The
parts the source runs under a lock are single steps, and so is every read or
write of a global outside of one.

* `wingSelectServerAccept`: the accept thread, with `select_onconnect` and
  `wing_select_server_clients_append` unfolded into its steps;
* `wingSelectServerWorder`: the worker, with `select_onclose`,
  `select_onrecv` and `wing_select_server_clients_remove`;
* `wingCloseSocketThread`: the thread that closes sockets five seconds late;
* `messageLoop`: the loop of `wing_select_server::start`, during whose
  callbacks the PHP script may call `send` on any object it was ever given;
* `sendThread`: the pool items of `wing_sclient.c`.

Ghosts: `accepted` (what `accept` returned, in order), `closed` (the
connections whose close the worker has processed), `pushedItems` and
`closedItems` (the history of the close list), `liveCloseItems` (the addresses
of the `CLOSE_ITEM`s that exist), `freedItems` and `freedBufs` (what was deleted).
-/

namespace WingPhp.Select

open Transition Sclient

/-- What the outside world answers to the call a step makes. -/
inductive Input where
  | go
  | clock (now : Int)
  | ret (lastError : Option Nat)
  | accepted (value : Nat) (addr : SockAddrIn)
  | refused
  | selected (r : SelectResult)
  | received (r : RecvResult)
  | peer (addr : Except Nat SockAddrIn)
  | clockAndPeer (now : Int) (addr : SockAddrIn)
  | phpSend (object : Nat) (msg : List UInt8) (queued : Bool)
  | sent (r : SendResult)

/-- Where the accept thread is. -/
inductive AcceptPc where
  | check
  | accept (item : SelectItem)
  | appendTest (item : SelectItem)
  | append (item : SelectItem)
  | stamp (item : SelectItem)
  | sndTimeo (item : SelectItem)
  | rcvTimeo (item : SelectItem)
  | keepAlive (item : SelectItem)
  | keepAliveVals (item : SelectItem)
  | post (item : SelectItem)
  deriving DecidableEq, Repr

/-- Where the worker is; `i` is its index variable.  From the call of `recv`
on, `k` is a ghost: the socket that call was made on. -/
inductive WorkerPc where
  | check
  | fdTest (i : Nat)
  | fdSet (i : Nat)
  | select (i : Nat)
  | recvTest (i : Nat)
  | isSet (i : Nat)
  | recv (i : Nat)
  | recvWait (i : Nat) (k : Sock)
  | closeItem (i : Nat) (k : Sock)
  | shutdown (i : Nat) (k : Sock) (item : SelectItem)
  | closeTime (i : Nat) (k : Sock) (item : SelectItem)
  | pushClose (i : Nat) (k : Sock) (item : SelectItem) (closeItem : CloseItem)
  | postClose (i : Nat) (k : Sock) (item : SelectItem)
  | remove (i : Nat) (k : Sock)
  | recvItem (i : Nat) (k : Sock) (r : RecvResult)
  | getpeername (i : Nat) (k : Sock) (item : SelectItem)
  | postRecv (i : Nat) (k : Sock) (item : SelectItem)
  deriving DecidableEq, Repr

/-- Where `wing_close_socket_thread` is; while it scans it holds
`close_socket_lock`. -/
inductive ClosePc where
  | check
  | scan (i : Nat)
  deriving DecidableEq, Repr

/-- Where the message loop is. -/
inductive MainPc where
  | get
  | handle (m : Msg)
  | callback (m : Msg) (item : SelectItem)
  deriving DecidableEq, Repr

structure State where
  clients : Clients
  closeList : CloseList
  recvAndSendTimeout : Nat
  acceptPc : AcceptPc
  workerPc : WorkerPc
  closePc : ClosePc
  mainPc : MainPc
  fdread : List Nat
  queue : Channel Msg
  pool : Pool
  objects : List SClient
  handles : Handles
  crashed : Bool
  nextConn : Nat
  nextPtr : Nat
  accepted : List Sock
  closed : List Nat
  pushedItems : List CloseItem
  closedItems : List CloseItem
  liveCloseItems : List Nat
  freedItems : List Nat
  freedBufs : List Nat

/-- `iocp_post_queue_msg`. -/
def State.post (s : State) (m : Msg) : State := { s with queue := s.queue.post m }

/-- `iocp_post_queue_msg( WM_ONERROR, item, WSAGetLastError() )` when the call
before it failed. -/
def State.postError (s : State) (item : SelectItem) (lastError : Option Nat) : State :=
  { s with queue := s.queue.postOption (lastError.map (.onError item)) }

/-! ## The accept thread -/

def wingSelectServerAccept (s : State) (input : Input) : Option State :=
  match s.acceptPc, input with
  | .check, .clock now =>
    if s.clients.Full then some s
    else
      let item := { SelectItem.new s.nextPtr with online := 1, active := now }
      some { s with acceptPc := .accept item, nextPtr := s.nextPtr + 1 }
  | .accept item, .refused =>
    some { s with acceptPc := .check, freedItems := s.freedItems ++ [item.ptr] }
  | .accept item, .accepted value addr =>
    -- Winsock returns a value that denotes nothing at this moment
    if 0 < value ∧ value < invalidSocketValue ∧ s.handles value = none then
      let socket : Sock := ⟨value, s.nextConn⟩
      some { s with
        acceptPc := .appendTest { item with socket := socket, addr := addr }
        handles := s.handles.give value s.nextConn
        nextConn := s.nextConn + 1
        accepted := s.accepted ++ [socket] }
    else none
  -- select_onconnect, first wing_select_server_clients_append
  | .appendTest item, .go =>
    if s.clients.Full then some { s with acceptPc := .stamp item }
    else some { s with acceptPc := .append item }
  | .append item, .go =>
    some { s with
      acceptPc := .stamp item
      clients := wingSelectServerClientsAppend s.clients item.socket }
  | .stamp item, .clock now =>
    let item := { item with active := now, online := 1 }
    if 0 < s.recvAndSendTimeout then some { s with acceptPc := .sndTimeo item }
    else some { s with acceptPc := .keepAlive item }
  | .sndTimeo item, .ret e => some { s.postError item e with acceptPc := .rcvTimeo item }
  | .rcvTimeo item, .ret e => some { s.postError item e with acceptPc := .keepAlive item }
  -- the answer of the SO_LINGER call is not looked at
  | .keepAlive item, .ret e => some { s.postError item e with acceptPc := .keepAliveVals item }
  | .keepAliveVals item, .ret e => some { s.postError item e with acceptPc := .post item }
  | .post item, .go => some { s.post (.onConnect item) with acceptPc := .check }
  | _, _ => none

/-! ## The worker -/

/-- The `SELECT_ITEM` for a client that went offline. -/
def closeSelectItem (ptr : Nat) (socket : Sock) : SelectItem :=
  { SelectItem.new ptr with online := 0, active := 0, socket := socket }

/-- The `SELECT_ITEM` for received bytes. -/
def recvSelectItem (ptr : Nat) (socket : Sock) (now : Int) (r : RecvResult) : SelectItem :=
  { SelectItem.new ptr with
    online := 1, active := now, socket := socket, recv := r.buffer.take r.ret, recvBytes := r.ret }

def wingSelectServerWorder (s : State) (input : Input) : Option State :=
  match s.workerPc, input with
  | .check, .go =>
    if s.clients.num ≤ 0 then some s
    else some { s with workerPc := .fdTest 0, fdread := [] }
  | .fdTest i, .go =>
    if i < s.clients.num then some { s with workerPc := .fdSet i }
    else some { s with workerPc := .select i }
  | .fdSet i, .go =>
    some { s with
      workerPc := .fdTest (i + 1)
      fdread := fdSet s.fdread (s.clients.arr.get i).value }
  -- ret is unsigned: SOCKET_ERROR is neither < 0 nor == 0, and the set is as it was
  | .select _, .selected .timeout => some { s with workerPc := .check, fdread := [] }
  | .select _, .selected (.ready fds) =>
    if fds ≠ [] ∧ fds.Sublist s.fdread then
      some { s with workerPc := .recvTest 0, fdread := fds }
    else none
  | .select _, .selected (.error _) => some { s with workerPc := .recvTest 0 }
  | .recvTest i, .go =>
    if i < s.clients.num then some { s with workerPc := .isSet i }
    else some { s with workerPc := .check }
  | .isSet i, .go =>
    if (s.clients.arr.get i).value ∈ s.fdread then some { s with workerPc := .recv i }
    else some { s with workerPc := .recvTest (i + 1) }
  | .recv i, .go => some { s with workerPc := .recvWait i (s.clients.arr.get i) }
  | .recvWait i k, .received r =>
    if r.Allowed then
      if r.Offline then some { s with workerPc := .closeItem i k }
      else if r.ret ≤ 0 then some { s with workerPc := .recvTest (i + 1) }
      else some { s with workerPc := .recvItem i k r }
    else none
  | .closeItem i k, .go =>
    let item := closeSelectItem s.nextPtr (s.clients.arr.get i)
    some { s with workerPc := .shutdown i k item, nextPtr := s.nextPtr + 1 }
  -- select_onclose
  | .shutdown i k item, .ret e => some { s.postError item e with workerPc := .closeTime i k item }
  | .closeTime i k item, .clock now =>
    let closeItem : CloseItem := ⟨item.socket, now, s.nextPtr⟩
    some { s with
      workerPc := .pushClose i k item closeItem
      nextPtr := s.nextPtr + 1
      liveCloseItems := s.liveCloseItems ++ [closeItem.ptr] }
  | .pushClose i k item closeItem, .go =>
    if s.closePc = .check then
      some { s with
        workerPc := .postClose i k item
        closeList := s.closeList.push closeItem
        pushedItems := s.pushedItems ++ [closeItem] }
    else none
  | .postClose i k item, .go => some { s.post (.onClose item) with workerPc := .remove i k }
  | .remove i k, .go =>
    some { s with
      workerPc := .recvTest (i + 1)
      clients := wingSelectServerClientsRemove s.clients i
      closed := s.closed ++ [k.conn] }
  | .recvItem i k r, .clock now =>
    -- new char[ret+1] and memcpy of ret bytes out of a buffer of MSGSIZE
    if msgSize < r.ret then some { s with crashed := true }
    else
      let item := recvSelectItem s.nextPtr (s.clients.arr.get i) now r
      some { s with workerPc := .getpeername i k item, nextPtr := s.nextPtr + 1 }
  -- select_onrecv
  | .getpeername i k item, .peer (.ok addr) =>
    some { s with workerPc := .postRecv i k { item with addr := addr } }
  | .getpeername i k item, .peer (.error e) =>
    let item := { item with addr := .zero }
    some { s.post (.onError item e) with workerPc := .postRecv i k item }
  | .postRecv i _ item, .go => some { s.post (.onRecv item) with workerPc := .recvTest (i + 1) }
  | _, _ => none

/-! ## The closing thread -/

def wingCloseSocketThread (s : State) (input : Input) : Option State :=
  match s.closePc, input with
  | .check, .go =>
    if s.closeList.count ≤ 0 then some s else some { s with closePc := .scan 0 }
  | .scan i, .clock now =>
    if i < s.closeList.count then
      let closeItem := s.closeList.arr.get i
      if closeItem.Due now then
        some { s with
          closePc := .scan (i + 1)
          closeList := s.closeList.remove i
          handles := s.handles.drop closeItem.socket.value
          closedItems := s.closedItems ++ [closeItem]
          liveCloseItems := s.liveCloseItems.erase closeItem.ptr }
      else some { s with closePc := .scan (i + 1) }
    else some { s with closePc := .check }
  | _, _ => none

/-! ## The message loop -/

/-- The item a case of the loop's `switch` fills the PHP object from.
`WM_ONSEND` makes one of its own, with what `getpeername` says. -/
def Msg.item (ptr : Nat) (now : Int) (addr : SockAddrIn) : Msg → SelectItem
  | .onConnect item => item
  | .onClose item => item
  | .onRecv item => item
  | .onError item _ => item
  | .onSend r =>
    let addr := if r.socket.value = invalidSocketValue then .zero else addr
    { SelectItem.new ptr with online := 1, active := now, socket := r.socket, addr := addr }

/-- The item deleted at the end of a case; `WM_ONERROR` deletes none. -/
def Msg.freedItems (item : SelectItem) : Msg → List Nat
  | .onError _ _ => []
  | _ => [item.ptr]

/-- The receive buffer deleted there. -/
def Msg.freedBufs (item : SelectItem) : Msg → List Nat
  | .onRecv _ => [item.ptr]
  | _ => []

def messageLoop (s : State) (input : Input) : Option State :=
  match s.mainPc, input with
  | .get, .go =>
    match s.queue.pop with
    | some (m, q) => some { s with mainPc := .handle m, queue := q }
    | none => none
  | .handle m, .clockAndPeer now addr =>
    let item := m.item s.nextPtr now addr
    some { s with
      mainPc := .callback m item
      nextPtr := s.nextPtr + 1
      objects := s.objects ++ [selectCreateWingSclient item] }
  | .callback _ _, .phpSend object msg queued =>
    match s.objects[object]? with
    | some client =>
      let answer := sclientSend s.pool client msg queued
      some { s with pool := answer.1, queue := s.queue.postOption (answer.2.2.map .onSend) }
    | none => none
  | .callback m item, .go =>
    some { s with
      mainPc := .get
      freedItems := s.freedItems ++ m.freedItems item
      freedBufs := s.freedBufs ++ m.freedBufs item }
  | _, _ => none

/-! ## The send pool -/

def sendThread (s : State) (k : Nat) : Input → Option State
  | .sent r =>
    match sendThreadSend s.pool s.handles k r with
    | some pool => some { s with pool := pool }
    | none => none
  | .go =>
    match sendThreadPost s.pool k with
    | some (pool, r) => some { s.post (.onSend r) with pool := pool }
    | none => none
  | _ => none

/-! ## `wing_select_server::start` -/

inductive Act where
  | accept (input : Input)
  | worker (input : Input)
  | close (input : Input)
  | main (input : Input)
  | pool (k : Nat) (input : Input)

/-- One step of one thread; a crash ends the process. -/
def step (s : State) (a : Act) : Option State :=
  if s.crashed then none
  else
    match a with
    | .accept input => wingSelectServerAccept s input
    | .worker input => wingSelectServerWorder s input
    | .close input => wingCloseSocketThread s input
    | .main input => messageLoop s input
    | .pool k input => sendThread s k input

/-- The properties the constructor stores and `start` reads. -/
structure Config where
  maxConnect : Int32
  timeout : Int32
  deriving DecidableEq, Repr

/-- The globals before any `start`. -/
def Clients.fresh : Clients := ⟨0, 0, CArray.alloc 0 invalidSocket⟩

def CloseList.fresh : CloseList := ⟨0, CArray.alloc 0 CloseItem.null⟩

/-- The state once `start` has created its threads: the properties are stored
in the globals, and then `wing_select_server_init()` runs. -/
def start (cfg : Config) : State :=
  let recvAndSendTimeout := cfg.timeout.toUInt32.toNat
  let clients := { Clients.fresh with maxConnection := cfg.maxConnect.toUInt32.toNat }
  let (clients, closeList) := wingSelectServerInit clients CloseList.fresh
  { clients, closeList, recvAndSendTimeout
    acceptPc := .check, workerPc := .check, closePc := .check, mainPc := .get
    fdread := [], queue := .empty, pool := .empty, objects := [], handles := .none
    crashed := false, nextConn := 0, nextPtr := 0, accepted := [], closed := []
    pushedItems := [], closedItems := [], liveCloseItems := [], freedItems := [], freedBufs := [] }

def server (cfg : Config) : Machine State Act := ⟨start cfg, step⟩

/-! ## What the other threads leave alone -/

/-- Nothing the accept thread and the worker share has changed. -/
structure SameFront (s s' : State) : Prop where
  clients : s'.clients = s.clients
  acceptPc : s'.acceptPc = s.acceptPc
  workerPc : s'.workerPc = s.workerPc
  fdread : s'.fdread = s.fdread
  accepted : s'.accepted = s.accepted
  closed : s'.closed = s.closed
  nextConn : s'.nextConn = s.nextConn
  pushedItems : s'.pushedItems = s.pushedItems

/-- Nothing of the sockets and of the close list has changed. -/
structure SameSockets (s s' : State) : Prop where
  handles : s'.handles = s.handles
  closeList : s'.closeList = s.closeList
  closePc : s'.closePc = s.closePc
  closedItems : s'.closedItems = s.closedItems

/-- The threads a step can be of. -/
inductive StepOf (s s' : State) : Act → Prop
  | accept {input : Input} : wingSelectServerAccept s input = some s' → StepOf s s' (.accept input)
  | worker {input : Input} : wingSelectServerWorder s input = some s' → StepOf s s' (.worker input)
  | close {input : Input} : wingCloseSocketThread s input = some s' → StepOf s s' (.close input)
  | main {input : Input} : messageLoop s input = some s' → StepOf s s' (.main input)
  | pool {k : Nat} {input : Input} : sendThread s k input = some s' → StepOf s s' (.pool k input)

theorem stepOf {s s' : State} {a : Act} (h : step s a = some s') : StepOf s s' a := by
  unfold step at h
  split at h
  · cases h
  · split at h
    · exact .accept h
    · exact .worker h
    · exact .close h
    · exact .main h
    · exact .pool h

end WingPhp.Select
