import WingPhp.Lib.Channel
import WingPhp.Lib.CString
import WingPhp.Sclient.Pool

/-!
# `wing_iocp_server.c`: the data

A pooled context (`IocpOverlapped`), the overlapped operations Winsock runs on
its `m_ol`, the callbacks that handle their completions, and the messages
for the main loop.

Ghosts: an operation and a callback know which kind of operation they are about
and which connection; a callback knows whether it has itself started an
operation (`armed`).  `m_iOpType` is what the program has instead.
-/

namespace WingPhp.Iocp

open Sclient

/-- `DATA_BUFSIZE`. -/
def dataBufSize : Nat := 1024

/-- The two address blocks `AcceptEx` is asked for, `sizeof(SOCKADDR_IN) + 16` each. -/
def addressBlocks : Nat := 2 * (16 + 16)

/-- `OP_ACCEPT`, `OP_RECV`. -/
inductive OpType where
  | accept
  | recv
  deriving DecidableEq, Repr

/-- `struct iocp_overlapped`; `m_DataBuf.buf` is always `m_pBuf`. -/
structure IocpOverlapped where
  iOpType : OpType
  skServer : Nat
  skClient : Nat
  recvBytes : Nat
  pBuf : Block dataBufSize
  dataBufLen : Nat
  timeout : Int
  addrClient : SockAddrIn
  isUsed : Nat
  active : Int
  online : Nat
  usenum : Nat
  deriving DecidableEq, Repr

/-- A `DWORD` in memory. -/
def dwordBytes (x : Nat) : List UInt8 :=
  [UInt8.ofNat x, UInt8.ofNat (x / 0x100), UInt8.ofNat (x / 0x10000), UInt8.ofNat (x / 0x1000000)]

/-- The memory from `m_pBuf` on: the buffer, then `m_DataBuf.len`. -/
def IocpOverlapped.fromBuf (ol : IocpOverlapped) : List UInt8 :=
  ol.pBuf.bytes ++ dwordBytes ol.dataBufLen

/-! ## Overlapped operations -/

/-- What was started on the `m_ol`; the last is the `WSAIoctl` of `iocp_onconnect`. -/
inductive OpKind where
  | accept
  | recv
  | disconnect
  | ioctl
  deriving DecidableEq, Repr

/-- The `m_iOpType` an operation should be dispatched under. -/
def OpKind.opType : OpKind → Option OpType
  | .accept => some .accept
  | .recv => some .recv
  | .disconnect | .ioctl => none

/-- How an operation ended. -/
inductive Completion where
  | failed (error : Nat)
  | accepted (addresses : List UInt8)
  | received (data : List UInt8)
  | finished
  deriving DecidableEq, Repr

/-- `dwErrorCode`. -/
def Completion.errorCode : Completion → Nat
  | .failed error => error
  | _ => 0

/-- The bytes that were received. -/
def Completion.bytes : Completion → List UInt8
  | .received data => data
  | _ => []

/-- `dwBytesTrans`. -/
def Completion.bytesTrans (r : Completion) : Nat := r.bytes.length

/-- What Winsock stores in the context when the operation ends so. -/
def Completion.store (r : Completion) (ol : IocpOverlapped) : IocpOverlapped :=
  match r with
  | .accepted addresses => { ol with pBuf := ol.pBuf.overlay addresses }
  | .received data => { ol with pBuf := ol.pBuf.overlay data }
  | _ => ol

/-- The ends Winsock allows. -/
def Completion.Allowed (ol : IocpOverlapped) : OpKind → Completion → Prop
  | _, .failed error => error ≠ 0
  | .accept, .accepted addresses => addresses.length = addressBlocks
  | .recv, .received data => data.length ≤ ol.dataBufLen
  | .disconnect, .finished => True
  | .ioctl, .finished => True
  | _, _ => False

instance (ol : IocpOverlapped) (kind : OpKind) (r : Completion) : Decidable (r.Allowed ol kind) := by
  cases kind <;> cases r <;> unfold Completion.Allowed <;> infer_instance

/-- An operation that is outstanding on the `m_ol`: until its callback is
called, also when it has ended. -/
structure Op where
  kind : OpKind
  conn : Nat
  result : Option Completion
  deriving DecidableEq, Repr

/-- The answer of a call that starts an operation: the documented success value,
or failure with a last error. -/
inductive CallAnswer where
  | success
  | error (lastError : Nat)
  deriving DecidableEq, Repr

/-- An operation is under way: success, or failure with `WSA_IO_PENDING`. -/
def CallAnswer.Started : CallAnswer → Prop
  | .success => True
  | .error e => e = wsaIoPending

instance (a : CallAnswer) : Decidable a.Started :=
  match a with
  | .success => .isTrue trivial
  | .error e => inferInstanceAs (Decidable (e = wsaIoPending))

@[simp] theorem CallAnswer.started_success : CallAnswer.Started .success := trivial

def CallAnswer.lastError : CallAnswer → Option Nat
  | .success => none
  | .error e => some e

/-! ## Callbacks -/

/-- Where a callback is in `icop_worker_thread` and what that calls. -/
inductive Pc where
  | beat
  | opSwitch
  -- iocp_onconnect
  | online
  | updateContext
  | sndTimeo
  | rcvTimeo
  | linger
  | getpeername
  | keepAlive
  | keepAliveVals
  | postConnect
  -- iocp_post_recv
  | setRecv
  | wsaRecv
  -- iocp_onrecv
  | recvCopy
  | recvZero (recvmsg : List UInt8)
  | recvPost (recvmsg : List UInt8)
  -- iocp_onclose
  | postClose
  | disconnect
  | reset
  | acceptEx
  -- iocp_onerror
  | cancel
  | create
  | retire
  deriving DecidableEq, Repr

structure Callback where
  kind : OpKind
  conn : Nat
  errorCode : Nat
  bytesTrans : Nat
  lastError : Nat
  armed : Bool
  pc : Pc
  deriving DecidableEq, Repr

def Callback.goto (cb : Callback) (pc : Pc) : Callback := { cb with pc := pc }

/-- After a call that failed with this error, if it failed. -/
def Callback.noted (cb : Callback) (e : Option Nat) : Callback :=
  { cb with lastError := e.getD cb.lastError }

/-- After a call that may have started an operation. -/
def Callback.called (cb : Callback) (a : CallAnswer) : Callback :=
  { cb with lastError := a.lastError.getD cb.lastError, armed := cb.armed || decide a.Started }

/-- `WSAECONNRESET == WSAGetLastError() || ERROR_NETNAME_DELETED == WSAGetLastError()`. -/
def Callback.ConnReset (cb : Callback) : Prop :=
  cb.lastError = wsaeConnReset ∨ cb.lastError = errorNetnameDeleted

instance (cb : Callback) : Decidable cb.ConnReset := inferInstanceAs (Decidable (_ ∨ _))

/-- The test of `icop_worker_thread` for a client that is gone. -/
def Callback.Lost (cb : Callback) : Prop := cb.errorCode ≠ 0 ∨ cb.ConnReset

instance (cb : Callback) : Decidable cb.Lost := inferInstanceAs (Decidable (_ ∨ _))

/-! ## Messages -/

/-- The messages of `iocp_post_queue_msg`.  `conn` is a ghost: the connection of
the callback that posts. -/
inductive Msg where
  | onConnect (povl conn : Nat)
  | onClose (povl conn lastError : Nat)
  | onError (povl conn lastError : Nat) (mark : Int)
  | onRecv (povl conn : Nat) (recvmsg : List UInt8) (lastError : Nat)
  | onBeat (povl lastError errorCode : Nat)
  | onSend (report : SendReport)
  deriving DecidableEq, Repr

/-- `iocp_post_queue_msg( WM_ONERROR, pOL, WSAGetLastError(), mark )` if the call failed. -/
def Callback.errors (cb : Callback) (povl : Nat) (e : Option Nat) (mark : Int) : List Msg :=
  (e.map fun e => .onError povl cb.conn e mark).toList

/-- `iocp_create_wing_sclient`; without a context every property keeps its default. -/
def iocpCreateWingSclient (ol : Option IocpOverlapped) (conn : Nat) : SClient :=
  match ol with
  | some ol =>
    { sinAddr := ol.addrClient.sinAddr
      sinPort := ntohs ol.addrClient.sinPort
      sinFamily := ol.addrClient.sinFamily
      sinZero := ol.addrClient.sinZero
      lastActive := ol.active
      socket := ⟨ol.skClient, conn⟩
      online := ol.online
      clientType := .iocp }
  | none => ⟨0, 0, 0, [], 0, ⟨0, conn⟩, 0, .iocp⟩

end WingPhp.Iocp
