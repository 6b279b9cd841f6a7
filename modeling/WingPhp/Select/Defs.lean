import WingPhp.Lib.CArray
import WingPhp.Lib.Channel
import WingPhp.Sclient.Pool

/-!
# `wing_select_server.c`: the data

The client array with its count and limit (`Clients`), the list of sockets
waiting to be closed (`CloseList`), the items the threads hand to the message
loop, and Winsock's `fd_set`.  The functions here are the bodies the source
runs under `select_lock` and `close_socket_lock`, and the tests it makes
outside of them.
-/

namespace WingPhp.Select

open Sclient

/-- `MSGSIZE`. -/
def msgSize : Nat := 1024000

/-- `FD_SETSIZE` of `winsock2.h`, which nothing under the repository redefines. -/
def fdSetSize : Nat := 64

/-! ## The connected clients -/

/-- `wing_select_clients_num`, `max_connection`, `wing_server_clients_arr`. -/
structure Clients where
  num : Nat
  maxConnection : Nat
  arr : CArray Sock

/-- The registered clients, `wing_server_clients_arr[0..wing_select_clients_num)`. -/
def Clients.registered (g : Clients) : List Sock := g.arr.take g.num

/-- `wing_select_clients_num >= max_connection`. -/
def Clients.Full (g : Clients) : Prop := g.maxConnection ≤ g.num

instance (g : Clients) : Decidable g.Full := inferInstanceAs (Decidable (_ ≤ _))

/-- `wing_select_server_clients_append` under `select_lock`. -/
def wingSelectServerClientsAppend (g : Clients) (client : Sock) : Clients :=
  { g with num := g.num + 1, arr := g.arr.set g.num client }

/-- `wing_select_server_clients_remove`.  The loop bound `num - 1` is an
`unsigned long`. -/
def wingSelectServerClientsRemove (g : Clients) (i : Nat) : Clients :=
  let last := ulongPred g.num
  let arr := (g.arr.set i invalidSocket).shiftFrom i (last - i)
  { g with num := last, arr := arr.set last invalidSocket }

/-! ## The sockets waiting to be closed -/

/-- `CLOSE_ITEM`; `ptr` is its address. -/
structure CloseItem where
  socket : Sock
  time : Int
  ptr : Nat
  deriving DecidableEq, Repr

/-- The value of a cleared cell of `close_socket_arr`. -/
def CloseItem.null : CloseItem := ⟨⟨0, 0⟩, 0, 0⟩

/-- `close_socket_count`, `close_socket_arr`. -/
structure CloseList where
  count : Nat
  arr : CArray CloseItem

def CloseList.items (l : CloseList) : List CloseItem := l.arr.take l.count

/-- The store of `select_onclose` under `close_socket_lock`. -/
def CloseList.push (l : CloseList) (c : CloseItem) : CloseList :=
  { count := l.count + 1, arr := l.arr.set l.count c }

/-- `(now_time - close_item->time) >= 5`, in `unsigned long` arithmetic. -/
def CloseItem.Due (c : CloseItem) (now : Int) : Prop := 5 ≤ (now - c.time) % 0x100000000

instance (c : CloseItem) (now : Int) : Decidable (c.Due now) := inferInstanceAs (Decidable (_ ≤ _))

/-- `wing_close_socket_thread` takes entry `i` out of the list. -/
def CloseList.remove (l : CloseList) (i : Nat) : CloseList :=
  let last := ulongPred l.count
  let arr := l.arr.shiftFrom i (last - i)
  { count := last, arr := arr.set last CloseItem.null }

/-! ## `wing_select_server_init` -/

/-- `wing_select_server_init`, with its default argument.  It sets neither of
the two counts. -/
def wingSelectServerInit (g : Clients) (l : CloseList) (maxConnection : Nat := 65534) :
    Clients × CloseList :=
  ({ g with maxConnection := maxConnection, arr := CArray.alloc maxConnection invalidSocket },
    { l with arr := CArray.alloc maxConnection CloseItem.null })

/-! ## Items and messages -/

/-- `SELECT_ITEM`; `ptr` is its address. -/
structure SelectItem where
  socket : Sock
  addr : SockAddrIn
  active : Int
  online : Nat
  recv : List UInt8
  recvBytes : Nat
  ptr : Nat
  deriving DecidableEq, Repr

/-- `new SELECT_ITEM()`. -/
def SelectItem.new (ptr : Nat) : SelectItem := ⟨⟨0, 0⟩, .zero, 0, 0, [], 0, ptr⟩

/-- The messages of `iocp_post_queue_msg`, by `message_id`. -/
inductive Msg where
  | onConnect (item : SelectItem)
  | onClose (item : SelectItem)
  | onRecv (item : SelectItem)
  | onError (item : SelectItem) (lastError : Nat)
  | onSend (report : SendReport)
  deriving DecidableEq, Repr

/-- `select_create_wing_sclient`. -/
def selectCreateWingSclient (item : SelectItem) : SClient where
  sinAddr := item.addr.sinAddr
  sinPort := ntohs item.addr.sinPort
  sinFamily := item.addr.sinFamily
  sinZero := item.addr.sinZero
  lastActive := item.active
  socket := item.socket
  online := item.online
  clientType := .select

/-! ## `fd_set` -/

/-- `FD_SET`: a value already in the set, or one more than it can hold, is
dropped without a sign. -/
def fdSet (fds : List Nat) (v : Nat) : List Nat :=
  if v ∈ fds then fds
  else if fds.length < fdSetSize then fds ++ [v]
  else fds

/-- What `select` answers. -/
inductive SelectResult where
  | timeout
  | ready (fds : List Nat)
  | error (lastError : Nat)
  deriving DecidableEq, Repr

/-- What `recv` answers. -/
inductive RecvResult where
  | data (bytes : List UInt8)
  | closed
  | error (lastError : Nat)
  deriving DecidableEq, Repr

/-- The return value of `recv` as the worker's `unsigned long ret` holds it. -/
def RecvResult.ret : RecvResult → Nat
  | .data bytes => bytes.length
  | .closed => 0
  | .error _ => socketErrorUlong

/-- `WSAGetLastError()` after it. -/
def RecvResult.lastError : RecvResult → Nat
  | .error e => e
  | _ => 0

/-- The buffer the bytes went to. -/
def RecvResult.buffer : RecvResult → List UInt8
  | .data bytes => bytes
  | _ => []

/-- The answers Winsock allows for a buffer of `MSGSIZE` bytes. -/
def RecvResult.Allowed : RecvResult → Prop
  | .data bytes => 0 < bytes.length ∧ bytes.length ≤ msgSize
  | _ => True

instance (r : RecvResult) : Decidable r.Allowed :=
  match r with
  | .data bytes => inferInstanceAs (Decidable (0 < bytes.length ∧ bytes.length ≤ msgSize))
  | .closed | .error _ => .isTrue trivial

/-- `ret == 0 || (ret == SOCKET_ERROR && WSAGetLastError() == WSAECONNRESET)`. -/
def RecvResult.Offline (r : RecvResult) : Prop :=
  r.ret = 0 ∨ (r.ret = socketErrorUlong ∧ r.lastError = wsaeConnReset)

instance (r : RecvResult) : Decidable r.Offline := by
  unfold RecvResult.Offline
  infer_instance

end WingPhp.Select
