import WingPhp.Iocp.Callback

/-!
# What a step of a callback can be

The branches of `icop_worker_thread` and of the functions it calls, each under a name
and with its guard (`CallbackStep`).  What a callback keeps is proved by cases over this
relation instead of unfolding the functions again.
-/

namespace WingPhp.Iocp

/-- `Callback.step`. -/
inductive CallbackStep (povl nextConn : Nat) (ol : IocpOverlapped) (cb : Callback) : Input → Effect → Prop
  -- icop_worker_thread
  | lost : cb.pc = .beat → cb.Lost → CallbackStep povl nextConn ol cb .go
      { ol, msgs := [.onBeat povl cb.lastError cb.lastError], next := some (cb.goto .postClose) }
  | alive : cb.pc = .beat → ¬ cb.Lost → CallbackStep povl nextConn ol cb .go
      { ol, msgs := [.onBeat povl cb.lastError cb.lastError], next := some (cb.goto .opSwitch) }
  | accepted : cb.pc = .opSwitch → ol.iOpType = .accept →
      CallbackStep povl nextConn ol cb .go { ol, next := some (cb.goto .online) }
  | empty : cb.pc = .opSwitch → ol.iOpType = .recv → cb.bytesTrans = 0 ∨ cb.ConnReset →
      cb.lastError ≠ wsaIoPending → CallbackStep povl nextConn ol cb .go
        { ol := { ol with recvBytes := cb.bytesTrans }, next := some (cb.goto .postClose) }
  | pending : cb.pc = .opSwitch → ol.iOpType = .recv → cb.bytesTrans = 0 ∨ cb.ConnReset →
      cb.lastError = wsaIoPending → CallbackStep povl nextConn ol cb .go
        { ol := { ol with recvBytes := cb.bytesTrans }, next := none }
  | received : cb.pc = .opSwitch → ol.iOpType = .recv → ¬ (cb.bytesTrans = 0 ∨ cb.ConnReset) →
      CallbackStep povl nextConn ol cb .go
        { ol := { ol with recvBytes := cb.bytesTrans }, next := some (cb.goto .recvCopy) }
  -- iocp_onconnect
  | online {now : Int} : cb.pc = .online → CallbackStep povl nextConn ol cb (.clock now)
      { ol := { ol with online := 1, active := now }, next := some (cb.goto .updateContext) }
  | updateContext {e : Option Nat} : cb.pc = .updateContext → CallbackStep povl nextConn ol cb (.ret e)
      { ol, msgs := cb.errors povl e 0
        next := some ((cb.noted e).goto (if 0 < ol.timeout then .sndTimeo else .linger)) }
  | sndTimeo {e : Option Nat} : cb.pc = .sndTimeo → CallbackStep povl nextConn ol cb (.ret e)
      { ol, msgs := cb.errors povl e 0, next := some ((cb.noted e).goto .rcvTimeo) }
  | rcvTimeo {e : Option Nat} : cb.pc = .rcvTimeo → CallbackStep povl nextConn ol cb (.ret e)
      { ol, msgs := cb.errors povl e 0, next := some ((cb.noted e).goto .linger) }
  | linger {e : Option Nat} : cb.pc = .linger → CallbackStep povl nextConn ol cb (.ret e)
      { ol, next := some ((cb.noted e).goto .getpeername) }
  | getpeername {addr : SockAddrIn} : cb.pc = .getpeername →
      CallbackStep povl nextConn ol cb (.peer (.ok addr))
        { ol := { ol with addrClient := addr }, next := some (cb.goto .keepAlive) }
  | peerError {e : Nat} : cb.pc = .getpeername → CallbackStep povl nextConn ol cb (.peer (.error e))
      { ol := { ol with addrClient := .zero }, msgs := cb.errors povl (some e) 0
        next := some ((cb.noted (some e)).goto .keepAlive) }
  | keepAlive {e : Option Nat} : cb.pc = .keepAlive → CallbackStep povl nextConn ol cb (.ret e)
      { ol, msgs := cb.errors povl e 0, next := some ((cb.noted e).goto .keepAliveVals) }
  | ioctl {a : CallAnswer} : cb.pc = .keepAliveVals → a.Started → CallbackStep povl nextConn ol cb (.call a)
      { ol, msgs := cb.errors povl a.lastError 0, start := some ⟨.ioctl, cb.conn, none⟩
        next := some ((cb.called a).goto .postConnect) }
  | ioctlFailed {a : CallAnswer} : cb.pc = .keepAliveVals → ¬ a.Started →
      CallbackStep povl nextConn ol cb (.call a)
        { ol, msgs := cb.errors povl a.lastError 0, next := some ((cb.called a).goto .postConnect) }
  | postConnect : cb.pc = .postConnect → CallbackStep povl nextConn ol cb .go
      { ol, msgs := [.onConnect povl cb.conn], next := some (cb.goto .setRecv) }
  -- iocp_post_recv
  | setRecv : cb.pc = .setRecv → CallbackStep povl nextConn ol cb .go
      { ol := { ol with dataBufLen := dataBufSize, iOpType := .recv }, next := some (cb.goto .wsaRecv) }
  | recvDone {data : List UInt8} : cb.pc = .wsaRecv → data.length ≤ ol.dataBufLen →
      CallbackStep povl nextConn ol cb (.recvDone data)
        { ol := (Completion.received data).store ol
          start := some ⟨.recv, cb.conn, some (.received data)⟩
          next := some ((cb.called .success).goto .recvCopy) }
  | recvPending {e : Nat} : cb.pc = .wsaRecv → (CallAnswer.error e).Started →
      CallbackStep povl nextConn ol cb (.call (.error e))
        { ol, start := some ⟨.recv, cb.conn, none⟩, next := none }
  | recvFailed {e : Nat} : cb.pc = .wsaRecv → ¬ (CallAnswer.error e).Started →
      CallbackStep povl nextConn ol cb (.call (.error e))
        { ol, msgs := cb.errors povl (some e) (-1), next := some ((cb.called (.error e)).goto .cancel) }
  -- iocp_onrecv
  | recvCopy {now : Int} : cb.pc = .recvCopy → CallbackStep povl nextConn ol cb (.clock now)
      { ol := { ol with active := now }, next := some (cb.goto (.recvZero (upToNul ol.fromBuf))) }
  | recvZero {recvmsg : List UInt8} : cb.pc = .recvZero recvmsg → CallbackStep povl nextConn ol cb .go
      { ol := { ol with pBuf := .zero dataBufSize }, next := some (cb.goto (.recvPost recvmsg)) }
  | recvPost {recvmsg : List UInt8} : cb.pc = .recvPost recvmsg → CallbackStep povl nextConn ol cb .go
      { ol, msgs := [.onRecv povl cb.conn recvmsg cb.lastError], next := none }
  -- iocp_onclose
  | postClose : cb.pc = .postClose → CallbackStep povl nextConn ol cb .go
      { ol, msgs := [.onClose povl cb.conn cb.lastError], next := some (cb.goto .disconnect) }
  | disconnect {a : CallAnswer} : cb.pc = .disconnect → a.Started →
      CallbackStep povl nextConn ol cb (.call a)
        { ol, start := some ⟨.disconnect, cb.conn, none⟩, next := some ((cb.called a).goto .reset) }
  | disconnectFailed {a : CallAnswer} : cb.pc = .disconnect → ¬ a.Started →
      CallbackStep povl nextConn ol cb (.call a)
        { ol, msgs := cb.errors povl a.lastError (-2), next := some ((cb.called a).goto .cancel) }
  | reset {now : Int} : cb.pc = .reset → CallbackStep povl nextConn ol cb (.clock now)
      { ol := { ol with
          online := 0, active := now, iOpType := .accept, isUsed := 0, pBuf := .zero dataBufSize }
        next := some (cb.goto .acceptEx) }
  | acceptEx {a : CallAnswer} : cb.pc = .acceptEx → a.Started → CallbackStep povl nextConn ol cb (.call a)
      { ol, start := some ⟨.accept, nextConn, none⟩, next := none }
  | acceptFailed {a : CallAnswer} : cb.pc = .acceptEx → ¬ a.Started →
      CallbackStep povl nextConn ol cb (.call a)
        { ol, msgs := cb.errors povl a.lastError (-3), next := some ((cb.called a).goto .cancel) }
  -- iocp_onerror
  | cancel : cb.pc = .cancel → CallbackStep povl nextConn ol cb .go { ol, next := some (cb.goto .create) }
  | create {a : CreateAnswer} : cb.pc = .create → CallbackStep povl nextConn ol cb (.create a)
      { ol, create := some a, next := some (cb.goto .retire) }
  | retire : cb.pc = .retire → CallbackStep povl nextConn ol cb .go
      { ol := { ol with usenum := 0 }, next := none, retires := true }

section Branches

variable {povl nextConn : Nat} {ol : IocpOverlapped} {cb : Callback} {input : Input} {e : Effect}

theorem icopWorkerThread_step (h : icopWorkerThread povl ol cb input = some e) :
    CallbackStep povl nextConn ol cb input e := by
  unfold icopWorkerThread at h
  split at h <;> rename_i hpc
  · cases h
    by_cases hlost : cb.Lost
    · rw [if_pos hlost]
      exact .lost hpc hlost
    · rw [if_neg hlost]
      exact .alive hpc hlost
  · split at h
    · next htype =>
      cases h
      exact .accepted hpc htype
    · next htype =>
      dsimp only at h
      split at h
      · next hgone =>
        split at h <;> cases h
        · exact .empty hpc htype hgone ‹_›
        · exact .pending hpc htype hgone (Decidable.not_not.mp ‹_›)
      · cases h
        exact .received hpc htype ‹_›
  · cases h

theorem iocpOnconnect_step (h : iocpOnconnect povl ol cb input = some e) :
    CallbackStep povl nextConn ol cb input e := by
  unfold iocpOnconnect at h
  split at h <;> rename_i hpc <;> cases h
  · exact .online hpc
  · exact .updateContext hpc
  · exact .sndTimeo hpc
  · exact .rcvTimeo hpc
  · exact .linger hpc
  · exact .getpeername hpc
  · exact .peerError hpc
  · exact .keepAlive hpc
  · next a =>
    by_cases hstarted : a.Started
    · rw [if_pos hstarted]
      exact .ioctl hpc hstarted
    · rw [if_neg hstarted]
      exact .ioctlFailed hpc hstarted
  · exact .postConnect hpc

theorem iocpPostRecv_step (h : iocpPostRecv povl ol cb input = some e) :
    CallbackStep povl nextConn ol cb input e := by
  unfold iocpPostRecv at h
  split at h <;> rename_i hpc
  · cases h
    exact .setRecv hpc
  · split at h <;> cases h
    exact .recvDone hpc ‹_›
  · split at h <;> cases h
    · exact .recvPending hpc ‹_›
    · exact .recvFailed hpc ‹_›
  · cases h

theorem iocpOnrecv_step (h : iocpOnrecv povl ol cb input = some e) :
    CallbackStep povl nextConn ol cb input e := by
  unfold iocpOnrecv at h
  split at h <;> rename_i hpc <;> cases h
  · exact .recvCopy hpc
  · exact .recvZero hpc
  · exact .recvPost hpc

theorem iocpOnclose_step (h : iocpOnclose povl nextConn ol cb input = some e) :
    CallbackStep povl nextConn ol cb input e := by
  unfold iocpOnclose at h
  split at h <;> rename_i hpc
  · cases h
    exact .postClose hpc
  · split at h <;> cases h
    · exact .disconnect hpc ‹_›
    · exact .disconnectFailed hpc ‹_›
  · cases h
    exact .reset hpc
  · split at h <;> cases h
    · exact .acceptEx hpc ‹_›
    · exact .acceptFailed hpc ‹_›
  · cases h

theorem iocpOnerror_step (h : iocpOnerror ol cb input = some e) :
    CallbackStep povl nextConn ol cb input e := by
  unfold iocpOnerror at h
  split at h <;> rename_i hpc <;> cases h
  · exact .cancel hpc
  · exact .create hpc
  · exact .retire hpc

/-- The functions a step of a callback can be in. -/
inductive Callback.StepOf (povl nextConn : Nat) (ol : IocpOverlapped) (cb : Callback) (input : Input)
    (e : Effect) : Prop
  | worker : icopWorkerThread povl ol cb input = some e → StepOf povl nextConn ol cb input e
  | onconnect : iocpOnconnect povl ol cb input = some e → StepOf povl nextConn ol cb input e
  | postRecv : iocpPostRecv povl ol cb input = some e → StepOf povl nextConn ol cb input e
  | onrecv : iocpOnrecv povl ol cb input = some e → StepOf povl nextConn ol cb input e
  | onclose : iocpOnclose povl nextConn ol cb input = some e → StepOf povl nextConn ol cb input e
  | onerror : iocpOnerror ol cb input = some e → StepOf povl nextConn ol cb input e

theorem Callback.stepOf (h : cb.step povl nextConn ol input = some e) :
    cb.StepOf povl nextConn ol input e := by
  unfold Callback.step at h
  split at h
  case h_1 | h_2 => exact .worker h
  case h_12 | h_13 => exact .postRecv h
  case h_14 | h_15 | h_16 => exact .onrecv h
  case h_17 | h_18 | h_19 | h_20 => exact .onclose h
  case h_21 | h_22 | h_23 => exact .onerror h
  all_goals exact .onconnect h

theorem callbackStep (h : cb.step povl nextConn ol input = some e) :
    CallbackStep povl nextConn ol cb input e := by
  cases Callback.stepOf h with
  | worker h => exact icopWorkerThread_step h
  | onconnect h => exact iocpOnconnect_step h
  | postRecv h => exact iocpPostRecv_step h
  | onrecv h => exact iocpOnrecv_step h
  | onclose h => exact iocpOnclose_step h
  | onerror h => exact iocpOnerror_step h

end Branches

end WingPhp.Iocp
