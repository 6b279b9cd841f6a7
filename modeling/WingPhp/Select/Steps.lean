import WingPhp.Select.Server

/-!
# What a step of each thread can be

The branches of the thread functions, each under a name and with its guard
(`AcceptStep`, `WorkerStep`, `CloseStep`, `MainStep`, `PoolStep`), and `runsStep`,
which says that every step of the server is one of them.  Invariants are proved by
cases over these relations instead of unfolding the functions again.
-/

namespace WingPhp.Select

open Transition Sclient

/-- `wingSelectServerAccept`. -/
inductive AcceptStep (s : State) : Input → State → Prop
  | full {now : Int} : s.acceptPc = .check → s.clients.Full → AcceptStep s (.clock now) s
  | new {now : Int} : s.acceptPc = .check → ¬ s.clients.Full → AcceptStep s (.clock now) { s with
      acceptPc := .accept { SelectItem.new s.nextPtr with online := 1, active := now }
      nextPtr := s.nextPtr + 1 }
  | refused {item : SelectItem} : s.acceptPc = .accept item → AcceptStep s .refused { s with
      acceptPc := .check, freedItems := s.freedItems ++ [item.ptr] }
  | accepted {item : SelectItem} {value : Nat} {addr : SockAddrIn} : s.acceptPc = .accept item →
      s.handles value = none → AcceptStep s (.accepted value addr) { s with
        acceptPc := .appendTest { item with socket := ⟨value, s.nextConn⟩, addr := addr }
        handles := s.handles.give value s.nextConn
        nextConn := s.nextConn + 1
        accepted := s.accepted ++ [⟨value, s.nextConn⟩] }
  | noRoom {item : SelectItem} : s.acceptPc = .appendTest item → s.clients.Full →
      AcceptStep s .go { s with acceptPc := .stamp item }
  | room {item : SelectItem} : s.acceptPc = .appendTest item → ¬ s.clients.Full →
      AcceptStep s .go { s with acceptPc := .append item }
  | append {item : SelectItem} : s.acceptPc = .append item → AcceptStep s .go { s with
      acceptPc := .stamp item
      clients := wingSelectServerClientsAppend s.clients item.socket }
  | stamp {item : SelectItem} {now : Int} : s.acceptPc = .stamp item → 0 < s.recvAndSendTimeout →
      AcceptStep s (.clock now) { s with
        acceptPc := .sndTimeo { item with active := now, online := 1 } }
  | stampOnly {item : SelectItem} {now : Int} : s.acceptPc = .stamp item →
      ¬ 0 < s.recvAndSendTimeout → AcceptStep s (.clock now) { s with
        acceptPc := .keepAlive { item with active := now, online := 1 } }
  | sndTimeo {item : SelectItem} {e : Option Nat} : s.acceptPc = .sndTimeo item →
      AcceptStep s (.ret e) { s.postError item e with acceptPc := .rcvTimeo item }
  | rcvTimeo {item : SelectItem} {e : Option Nat} : s.acceptPc = .rcvTimeo item →
      AcceptStep s (.ret e) { s.postError item e with acceptPc := .keepAlive item }
  | keepAlive {item : SelectItem} {e : Option Nat} : s.acceptPc = .keepAlive item →
      AcceptStep s (.ret e) { s.postError item e with acceptPc := .keepAliveVals item }
  | keepAliveVals {item : SelectItem} {e : Option Nat} : s.acceptPc = .keepAliveVals item →
      AcceptStep s (.ret e) { s.postError item e with acceptPc := .post item }
  | post {item : SelectItem} : s.acceptPc = .post item →
      AcceptStep s .go { s.post (.onConnect item) with acceptPc := .check }

/-- `wingSelectServerWorder`. -/
inductive WorkerStep (s : State) : Input → State → Prop
  | idle : s.workerPc = .check → s.clients.num = 0 → WorkerStep s .go s
  | begin : s.workerPc = .check → 0 < s.clients.num →
      WorkerStep s .go { s with workerPc := .fdTest 0, fdread := [] }
  | fdTest {i : Nat} : s.workerPc = .fdTest i → i < s.clients.num →
      WorkerStep s .go { s with workerPc := .fdSet i }
  | fdDone {i : Nat} : s.workerPc = .fdTest i → ¬ i < s.clients.num →
      WorkerStep s .go { s with workerPc := .select i }
  | fdSet {i : Nat} : s.workerPc = .fdSet i → WorkerStep s .go { s with
      workerPc := .fdTest (i + 1)
      fdread := Select.fdSet s.fdread (s.clients.arr.get i).value }
  | timeout {i : Nat} : s.workerPc = .select i →
      WorkerStep s (.selected .timeout) { s with workerPc := .check, fdread := [] }
  | ready {i : Nat} {fds : List Nat} : s.workerPc = .select i → fds ≠ [] →
      fds.Sublist s.fdread →
      WorkerStep s (.selected (.ready fds)) { s with workerPc := .recvTest 0, fdread := fds }
  | selectError {i e : Nat} : s.workerPc = .select i →
      WorkerStep s (.selected (.error e)) { s with workerPc := .recvTest 0 }
  | recvTest {i : Nat} : s.workerPc = .recvTest i → i < s.clients.num →
      WorkerStep s .go { s with workerPc := .isSet i }
  | passDone {i : Nat} : s.workerPc = .recvTest i → ¬ i < s.clients.num →
      WorkerStep s .go { s with workerPc := .check }
  | isSet {i : Nat} : s.workerPc = .isSet i → (s.clients.arr.get i).value ∈ s.fdread →
      WorkerStep s .go { s with workerPc := .recv i }
  | notSet {i : Nat} : s.workerPc = .isSet i → (s.clients.arr.get i).value ∉ s.fdread →
      WorkerStep s .go { s with workerPc := .recvTest (i + 1) }
  | recv {i : Nat} : s.workerPc = .recv i →
      WorkerStep s .go { s with workerPc := .recvWait i (s.clients.arr.get i) }
  | offline {i : Nat} {k : Sock} {r : RecvResult} : s.workerPc = .recvWait i k → r.Allowed →
      r.Offline → WorkerStep s (.received r) { s with workerPc := .closeItem i k }
  | received {i : Nat} {k : Sock} {r : RecvResult} : s.workerPc = .recvWait i k → r.Allowed →
      ¬ r.Offline → WorkerStep s (.received r) { s with workerPc := .recvItem i k r }
  | closeItem {i : Nat} {k : Sock} : s.workerPc = .closeItem i k → WorkerStep s .go { s with
      workerPc := .shutdown i k (closeSelectItem s.nextPtr (s.clients.arr.get i))
      nextPtr := s.nextPtr + 1 }
  | shutdown {i : Nat} {k : Sock} {item : SelectItem} {e : Option Nat} :
      s.workerPc = .shutdown i k item →
      WorkerStep s (.ret e) { s.postError item e with workerPc := .closeTime i k item }
  | closeTime {i : Nat} {k : Sock} {item : SelectItem} {now : Int} :
      s.workerPc = .closeTime i k item → WorkerStep s (.clock now) { s with
        workerPc := .pushClose i k item ⟨item.socket, now, s.nextPtr⟩
        nextPtr := s.nextPtr + 1
        liveCloseItems := s.liveCloseItems ++ [s.nextPtr] }
  | pushClose {i : Nat} {k : Sock} {item : SelectItem} {closeItem : CloseItem} :
      s.workerPc = .pushClose i k item closeItem → s.closePc = .check →
      WorkerStep s .go { s with
        workerPc := .postClose i k item
        closeList := s.closeList.push closeItem
        pushedItems := s.pushedItems ++ [closeItem] }
  | postClose {i : Nat} {k : Sock} {item : SelectItem} : s.workerPc = .postClose i k item →
      WorkerStep s .go { s.post (.onClose item) with workerPc := .remove i k }
  | remove {i : Nat} {k : Sock} : s.workerPc = .remove i k → WorkerStep s .go { s with
      workerPc := .recvTest (i + 1)
      clients := wingSelectServerClientsRemove s.clients i
      closed := s.closed ++ [k.conn] }
  | overrun {i : Nat} {k : Sock} {r : RecvResult} {now : Int} : s.workerPc = .recvItem i k r →
      msgSize < r.ret → WorkerStep s (.clock now) { s with crashed := true }
  | recvItem {i : Nat} {k : Sock} {r : RecvResult} {now : Int} : s.workerPc = .recvItem i k r →
      ¬ msgSize < r.ret → WorkerStep s (.clock now) { s with
        workerPc := .getpeername i k (recvSelectItem s.nextPtr (s.clients.arr.get i) now r)
        nextPtr := s.nextPtr + 1 }
  | getpeername {i : Nat} {k : Sock} {item : SelectItem} {addr : SockAddrIn} :
      s.workerPc = .getpeername i k item →
      WorkerStep s (.peer (.ok addr)) { s with workerPc := .postRecv i k { item with addr := addr } }
  | peerError {i : Nat} {k : Sock} {item : SelectItem} {e : Nat} :
      s.workerPc = .getpeername i k item → WorkerStep s (.peer (.error e))
        { s.post (.onError { item with addr := .zero } e) with
          workerPc := .postRecv i k { item with addr := .zero } }
  | postRecv {i : Nat} {k : Sock} {item : SelectItem} : s.workerPc = .postRecv i k item →
      WorkerStep s .go { s.post (.onRecv item) with workerPc := .recvTest (i + 1) }

/-- `wingCloseSocketThread`. -/
inductive CloseStep (s : State) : Input → State → Prop
  | idle : s.closePc = .check → s.closeList.count = 0 → CloseStep s .go s
  | begin : s.closePc = .check → 0 < s.closeList.count →
      CloseStep s .go { s with closePc := .scan 0 }
  | due {i : Nat} {now : Int} : s.closePc = .scan i → i < s.closeList.count →
      (s.closeList.arr.get i).Due now → CloseStep s (.clock now) { s with
        closePc := .scan (i + 1)
        closeList := s.closeList.remove i
        handles := s.handles.drop (s.closeList.arr.get i).socket.value
        closedItems := s.closedItems ++ [s.closeList.arr.get i]
        liveCloseItems := s.liveCloseItems.erase (s.closeList.arr.get i).ptr }
  | notDue {i : Nat} {now : Int} : s.closePc = .scan i → i < s.closeList.count →
      ¬ (s.closeList.arr.get i).Due now →
      CloseStep s (.clock now) { s with closePc := .scan (i + 1) }
  | scanned {i : Nat} {now : Int} : s.closePc = .scan i → ¬ i < s.closeList.count →
      CloseStep s (.clock now) { s with closePc := .check }

/-- `messageLoop`. -/
inductive MainStep (s : State) : Input → State → Prop
  | get {m : Msg} {q : Channel Msg} : s.mainPc = .get → s.queue.pop = some (m, q) →
      MainStep s .go { s with mainPc := .handle m, queue := q }
  | handle {m : Msg} {now : Int} {addr : SockAddrIn} : s.mainPc = .handle m →
      MainStep s (.clockAndPeer now addr) { s with
        mainPc := .callback m (m.item s.nextPtr now addr)
        nextPtr := s.nextPtr + 1
        objects := s.objects ++ [selectCreateWingSclient (m.item s.nextPtr now addr)] }
  | phpSend {m : Msg} {item : SelectItem} {object : Nat} {msg : List UInt8} {queued : Bool}
      {client : SClient} : s.mainPc = .callback m item → s.objects[object]? = some client →
      MainStep s (.phpSend object msg queued) { s with
        pool := (sclientSend s.pool client msg queued).1
        queue := s.queue.postOption ((sclientSend s.pool client msg queued).2.2.map .onSend) }
  | done {m : Msg} {item : SelectItem} : s.mainPc = .callback m item → MainStep s .go { s with
      mainPc := .get
      freedItems := s.freedItems ++ m.freedItems item
      freedBufs := s.freedBufs ++ m.freedBufs item }

/-- `sendThread`. -/
inductive PoolStep (s : State) (k : Nat) : Input → State → Prop
  | send {r : SendResult} {pool : Pool} : sendThreadSend s.pool s.handles k r = some pool →
      PoolStep s k (.sent r) { s with pool := pool }
  | post {r : SendReport} {pool : Pool} : sendThreadPost s.pool k = some (pool, r) →
      PoolStep s k .go { s.post (.onSend r) with pool := pool }

theorem acceptStep {s s' : State} {input : Input} (h : wingSelectServerAccept s input = some s') :
    AcceptStep s input s' := by
  unfold wingSelectServerAccept at h
  split at h <;> rename_i hpc
  · split at h <;> cases h
    · exact .full hpc ‹_›
    · exact .new hpc ‹_›
  · cases h
    exact .refused hpc
  · split at h <;> cases h
    next hv => exact .accepted hpc hv.2.2
  · split at h <;> cases h
    · exact .noRoom hpc ‹_›
    · exact .room hpc ‹_›
  · cases h
    exact .append hpc
  · split at h <;> cases h
    · exact .stamp hpc ‹_›
    · exact .stampOnly hpc ‹_›
  · cases h
    exact .sndTimeo hpc
  · cases h
    exact .rcvTimeo hpc
  · cases h
    exact .keepAlive hpc
  · cases h
    exact .keepAliveVals hpc
  · cases h
    exact .post hpc
  · cases h

/-- A result that is no larger than `0` is that of a closed connection. -/
theorem RecvResult.offline_of_ret {r : RecvResult} (h : r.ret ≤ 0) : r.Offline :=
  .inl (Nat.le_zero.mp h)

theorem workerStep {s s' : State} {input : Input} (h : wingSelectServerWorder s input = some s') :
    WorkerStep s input s' := by
  unfold wingSelectServerWorder at h
  split at h <;> rename_i hpc
  · split at h <;> cases h
    · exact .idle hpc (Nat.le_zero.mp ‹_›)
    · exact .begin hpc (Nat.lt_of_not_le ‹_›)
  · split at h <;> cases h
    · exact .fdTest hpc ‹_›
    · exact .fdDone hpc ‹_›
  · cases h
    exact .fdSet hpc
  · cases h
    exact .timeout hpc
  · split at h <;> cases h
    next hf => exact .ready hpc hf.1 hf.2
  · cases h
    exact .selectError hpc
  · split at h <;> cases h
    · exact .recvTest hpc ‹_›
    · exact .passDone hpc ‹_›
  · split at h <;> cases h
    · exact .isSet hpc ‹_›
    · exact .notSet hpc ‹_›
  · cases h
    exact .recv hpc
  · split at h
    · next hallowed =>
      split at h
      · next hoff =>
        cases h
        exact .offline hpc hallowed hoff
      · next hoff =>
        split at h
        · next hret => exact absurd (RecvResult.offline_of_ret hret) hoff
        · cases h
          exact .received hpc hallowed hoff
    · cases h
  · cases h
    exact .closeItem hpc
  · cases h
    exact .shutdown hpc
  · cases h
    exact .closeTime hpc
  · split at h <;> cases h
    exact .pushClose hpc ‹_›
  · cases h
    exact .postClose hpc
  · cases h
    exact .remove hpc
  · split at h <;> cases h
    · exact .overrun hpc ‹_›
    · exact .recvItem hpc ‹_›
  · cases h
    exact .getpeername hpc
  · cases h
    exact .peerError hpc
  · cases h
    exact .postRecv hpc
  · cases h

theorem closeStep {s s' : State} {input : Input} (h : wingCloseSocketThread s input = some s') :
    CloseStep s input s' := by
  unfold wingCloseSocketThread at h
  split at h <;> rename_i hpc
  · split at h <;> cases h
    · exact .idle hpc (Nat.le_zero.mp ‹_›)
    · exact .begin hpc (Nat.lt_of_not_le ‹_›)
  · split at h
    · next hlt =>
      dsimp only at h
      split at h <;> cases h
      · exact .due hpc hlt ‹_›
      · exact .notDue hpc hlt ‹_›
    · cases h
      exact .scanned hpc ‹_›
  · cases h

theorem mainStep {s s' : State} {input : Input} (h : messageLoop s input = some s') :
    MainStep s input s' := by
  unfold messageLoop at h
  split at h <;> rename_i hpc
  · split at h <;> cases h
    exact .get hpc ‹_›
  · cases h
    exact .handle hpc
  · split at h <;> cases h
    exact .phpSend hpc ‹_›
  · cases h
    exact .done hpc
  · cases h

theorem poolStep {s s' : State} {k : Nat} {input : Input} (h : sendThread s k input = some s') :
    PoolStep s k input s' := by
  unfold sendThread at h
  split at h
  · split at h <;> cases h
    exact .send ‹_›
  · split at h <;> cases h
    exact .post ‹_›
  · cases h

/-- The steps of the server, by thread. -/
inductive RunsStep (s s' : State) : Act → Prop
  | accept {input : Input} : AcceptStep s input s' → RunsStep s s' (.accept input)
  | worker {input : Input} : WorkerStep s input s' → RunsStep s s' (.worker input)
  | close {input : Input} : CloseStep s input s' → RunsStep s s' (.close input)
  | main {input : Input} : MainStep s input s' → RunsStep s s' (.main input)
  | pool {k : Nat} {input : Input} : PoolStep s k input s' → RunsStep s s' (.pool k input)

theorem runsStep {s s' : State} {a : Act} (h : step s a = some s') : RunsStep s s' a := by
  cases stepOf h with
  | accept ht => exact .accept (acceptStep ht)
  | worker ht => exact .worker (workerStep ht)
  | close ht => exact .close (closeStep ht)
  | main ht => exact .main (mainStep ht)
  | pool ht => exact .pool (poolStep ht)

/-! ## What the other threads leave alone -/

section Same

variable {s s' : State} {input : Input}

theorem CloseStep.sameFront (h : CloseStep s input s') : SameFront s s' := by
  cases h <;> constructor <;> rfl

theorem MainStep.same (h : MainStep s input s') : SameFront s s' ∧ SameSockets s s' := by
  cases h <;> constructor <;> constructor <;> rfl

theorem PoolStep.same {k : Nat} (h : PoolStep s k input s') : SameFront s s' ∧ SameSockets s s' := by
  cases h <;> constructor <;> constructor <;> rfl

end Same

end WingPhp.Select
