import WingPhp.Iocp.Callback
import WingPhp.Lib.Machine

/-!
# `wing_iocp_server.c`: the server

All pooled contexts, the main thread (`wing_server::start`: the creation loop,
then the message loop, during whose callbacks the PHP script may call `send`) and
the send pool.  The contexts do not touch each other: a step of one replaces it
in the list, and the only other thing that happens to the list is that
`iocp_create_client` appends to it.

Ghosts: `nextConn`, a number no connection has yet; `log`, what was done with each
context, in order; and `received`, the receives that completed with data, in order.
-/

namespace WingPhp.Iocp

open Transition Sclient

/-- The properties the constructor stores and `start` reads, and the listening
socket. -/
structure Config where
  maxConnect : Int32
  timeout : Int32
  skServer : Nat
  deriving DecidableEq, Repr

inductive MainPc where
  | create (i : Nat)
  | get
  | handle (m : Msg)
  | callback (m : Msg)
  deriving DecidableEq, Repr

inductive Deed where
  | event
  | acceptEx
  | retire
  deriving DecidableEq, Repr

/-- Bytes a connection received in one piece, in the buffer of context `povl`. -/
structure Receipt where
  povl : Nat
  conn : Nat
  data : List UInt8
  deriving DecidableEq, Repr

structure State where
  contexts : List Context
  socketMap : List (Nat × Nat)
  mainPc : MainPc
  queue : Channel Msg
  pool : Pool
  objects : List SClient
  handles : Handles
  nextConn : Nat
  log : List (Nat × Deed)
  received : List Receipt

/-! ## `iocp_create_client` -/

/-- The context as `iocp_create_client` fills it. -/
def IocpOverlapped.new (skServer client : Nat) (timeout : Int) : IocpOverlapped where
  iOpType := .accept
  skServer := skServer
  skClient := client
  recvBytes := 0
  pBuf := .zero dataBufSize
  dataBufLen := 0
  timeout := timeout
  addrClient := .zero
  isUsed := 0
  active := 0
  online := 0
  usenum := 1

/-- `iocp_create_client` keeps the context for this answer of `AcceptEx`. -/
def CallAnswer.Kept (a : CallAnswer) : Prop := a.Started ∨ a = .error wsaeConnReset

instance (a : CallAnswer) : Decidable a.Kept := inferInstanceAs (Decidable (_ ∨ _))

/-- What was done with a context that `iocp_create_client` keeps. -/
def Context.new (skServer client : Nat) (timeout : Int) (nextConn : Nat) (a : CallAnswer) : Context where
  ol := .new skServer client timeout
  ops := if a.Started then [⟨.accept, nextConn, none⟩] else []
  callbacks := []

/-- One step: until `AcceptEx` is called the context is nobody else's, and
afterwards only the map is touched. -/
def iocpCreateClient (s : State) (skServer : Nat) (timeout : Int) : CreateAnswer → Option State
  | .failed => some s
  | .called client a =>
    -- a socket that is nobody's
    if 0 < client ∧ client < invalidSocketValue ∧ s.handles client = none ∧
        ∀ cx ∈ s.contexts, cx.ol.skClient ≠ client then
      if a.Kept then
        some { s with
          contexts := s.contexts ++ [.new skServer client timeout s.nextConn a]
          socketMap := (client, s.contexts.length) :: s.socketMap
          nextConn := s.nextConn + 1
          log := s.log ++ (if a.Started then [(s.contexts.length, .acceptEx)] else []) }
      else some s
    else none

/-- `iocp_get_form_map`. -/
def iocpGetFormMap (s : State) (socket : Nat) : Option Nat := s.socketMap.lookup socket

/-! ## Steps of a context -/

/-- Winsock's table when an operation ends: a disconnected handle denotes nothing, and
only then can it accept. -/
def Op.handlesAfter (op : Op) (h : Handles) (skClient : Nat) (r : Completion) : Option Handles :=
  match op.kind, r with
  | .accept, .accepted _ => if h skClient = none then some (h.give skClient op.conn) else none
  | .disconnect, .finished => some (h.drop skClient)
  | _, _ => some h

/-- What is received when the operation ends with `r`. -/
def Op.receipts (op : Op) (povl : Nat) (r : Completion) : List Receipt :=
  if r.bytes = [] then [] else [⟨povl, op.conn, r.bytes⟩]

def completeOp (s : State) (c j : Nat) (r : Completion) : Option State :=
  match s.contexts[c]? with
  | some cx =>
    match cx.ops[j]?, cx.complete j r with
    | some op, some cx' =>
      match op.handlesAfter s.handles cx.ol.skClient r with
      | some handles =>
        some { s with
          contexts := s.contexts.set c cx'
          handles := handles
          received := s.received ++ op.receipts c r }
      | none => none
    | _, _ => none
  | none => none

def deliverOp (s : State) (c j lastError : Nat) : Option State :=
  match s.contexts[c]? with
  | some cx =>
    match cx.deliver j lastError with
    | some cx' => some { s with contexts := s.contexts.set c cx' }
    | none => none
  | none => none

def Effect.deeds (e : Effect) : List Deed :=
  e.msgs.map (fun _ => .event) ++
    (match e.start with
      | some ⟨.accept, _, _⟩ => [.acceptEx]
      | _ => []) ++
    if e.retires then [.retire] else []

/-- What is received when the operation it starts has ended already. -/
def Effect.receipts (e : Effect) (povl : Nat) : List Receipt :=
  match e.start with
  | some op => op.result.toList.flatMap (op.receipts povl)
  | none => []

/-- The server after a step of context `c` with effect `e`, a call of
`iocp_create_client` aside. -/
def State.after (s : State) (c : Nat) (cx : Context) (e : Effect) : State :=
  { s with
    contexts := s.contexts.set c cx
    queue := s.queue.postAll e.msgs
    nextConn := s.nextConn + 1
    log := s.log ++ e.deeds.map fun d => (c, d)
    received := s.received ++ e.receipts c }

def runCallback (s : State) (c i : Nat) (input : Input) : Option State :=
  match s.contexts[c]? with
  | some cx =>
    match cx.run c s.nextConn i input with
    | some (cx', e) =>
      match e.create with
      | some answer => iocpCreateClient (s.after c cx' e) cx'.ol.skServer cx'.ol.timeout answer
      | none => some (s.after c cx' e)
    | none => none
  | none => none

/-! ## The main thread -/

def State.ol (s : State) (povl : Nat) : Option IocpOverlapped := (s.contexts[povl]?).map Context.ol

/-- The object a case of the loop's `switch` makes, from what the context holds by
then; `WM_ONBEAT` makes none. -/
def State.object (s : State) : Msg → Option SClient
  | .onConnect povl conn | .onClose povl conn _ | .onError povl conn _ _ | .onRecv povl conn _ _ =>
    some (iocpCreateWingSclient (s.ol povl) conn)
  | .onSend r => some (iocpCreateWingSclient ((iocpGetFormMap s r.socket.value).bind s.ol) r.socket.conn)
  | .onBeat _ _ _ => none

inductive MainInput where
  | go
  | create (a : CreateAnswer)
  | phpSend (object : Nat) (msg : List UInt8) (queued : Bool)

/-- `wing_server::start` from the creation loop on. -/
def wingServerStart (cfg : Config) (s : State) (input : MainInput) : Option State :=
  match s.mainPc, input with
  | .create i, .create a =>
    if (i : Int) < cfg.maxConnect.toInt then
      match iocpCreateClient s cfg.skServer cfg.timeout.toInt a with
      | some s' => some { s' with mainPc := .create (i + 1) }
      | none => none
    else none
  | .create i, .go =>
    if (i : Int) < cfg.maxConnect.toInt then none else some { s with mainPc := .get }
  | .get, .go =>
    match s.queue.pop with
    | some (m, q) => some { s with mainPc := .handle m, queue := q }
    | none => none
  | .handle m, .go =>
    match s.object m with
    | some client => some { s with mainPc := .callback m, objects := s.objects ++ [client] }
    | none => some { s with mainPc := .get }
  | .callback _, .phpSend object msg queued =>
    match s.objects[object]? with
    | some client =>
      let answer := sclientSend s.pool client msg queued
      some { s with pool := answer.1, queue := s.queue.postOption (answer.2.2.map .onSend) }
    | none => none
  | .callback _, .go => some { s with mainPc := .get }
  | _, _ => none

/-! ## The send pool -/

inductive PoolInput where
  | go
  | sent (r : SendResult)

def sendThread (s : State) (k : Nat) : PoolInput → Option State
  | .sent r =>
    match sendThreadSend s.pool s.handles k r with
    | some pool => some { s with pool := pool }
    | none => none
  | .go =>
    match sendThreadPost s.pool k with
    | some (pool, r) => some { s with pool := pool, queue := s.queue.post (.onSend r) }
    | none => none

/-! ## Runs -/

inductive Act where
  | complete (c j : Nat) (r : Completion)
  | deliver (c j lastError : Nat)
  | run (c i : Nat) (input : Input)
  | main (input : MainInput)
  | pool (k : Nat) (input : PoolInput)

def step (cfg : Config) (s : State) : Act → Option State
  | .complete c j r => completeOp s c j r
  | .deliver c j lastError => deliverOp s c j lastError
  | .run c i input => runCallback s c i input
  | .main input => wingServerStart cfg s input
  | .pool k input => sendThread s k input

def start : State where
  contexts := []
  socketMap := []
  mainPc := .create 0
  queue := .empty
  pool := .empty
  objects := []
  handles := .none
  nextConn := 0
  log := []
  received := []

def server (cfg : Config) : Machine State Act := ⟨start, step cfg⟩

end WingPhp.Iocp
