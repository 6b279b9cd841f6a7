import WingPhp.Iocp.Contexts

/-!
# What `m_iOpType` says about a completion

`icop_worker_thread` learns what has completed from the one field `m_iOpType`.
There is no value for a `DisconnectEx`, and `iocp_onclose` writes `OP_ACCEPT`
while one is outstanding; so a `DisconnectEx` that completes without an error is
taken for a new connection.  The field can be trusted in the runs where a
completed `DisconnectEx` leaves at the error test, a completed `WSAIoctl` finds
`OP_RECV` there, and the field is written only while nothing on the context depends
on it (`TypeWrittenAlone`): then at the dispatcher's `switch` it is the type of what
completed (`dispatched_type`).
-/

namespace WingPhp.Iocp

open Transition Sclient

/-- In `iocp_onconnect`, or in the `iocp_post_recv` it ends with. -/
def Pc.Connecting : Pc → Prop
  | .online | .updateContext | .sndTimeo | .rcvTimeo | .linger | .getpeername | .keepAlive
  | .keepAliveVals | .postConnect | .setRecv | .wsaRecv => True
  | _ => False

/-- In `iocp_onrecv`. -/
def Pc.Receiving : Pc → Prop
  | .recvCopy | .recvZero _ | .recvPost _ => True
  | _ => False

/-- A `DisconnectEx` does not pass the error test, a `WSAIoctl` is dispatched as a
receive (of nothing), and `m_iOpType` is written only by the one callback that runs,
with neither an `AcceptEx` nor a `WSARecv` outstanding. -/
def TypeWrittenAlone (cx : Context) (cb : Callback) (_ : Input) : Prop :=
  (cb.pc = .beat → cb.kind = .disconnect → cb.Lost) ∧
  (cb.pc = .opSwitch → cb.kind = .ioctl → cx.ol.iOpType = .recv) ∧
  (cb.pc = .setRecv ∨ cb.pc = .reset →
    cx.callbacks = [cb] ∧ ∀ op ∈ cx.ops, op.kind.opType = none)

instance (cx : Context) (cb : Callback) (input : Input) :
    Decidable (TypeWrittenAlone cx cb input) := by
  unfold TypeWrittenAlone
  infer_instance

/-! ## The invariant -/

/-- An operation that has a type will be dispatched under it. -/
structure Op.Typed (ol : IocpOverlapped) (op : Op) : Prop where
  type : ∀ t, op.kind.opType = some t → ol.iOpType = t
  ioctl : op.kind = .ioctl → ∀ r, op.result = some r → r.bytesTrans = 0

def Callback.Typed (ol : IocpOverlapped) (cb : Callback) : Prop :=
  match cb.pc with
  | .beat =>
    (∀ t, cb.kind.opType = some t → ol.iOpType = t) ∧ (cb.kind = .ioctl → cb.bytesTrans = 0)
  | .opSwitch =>
    (cb.kind.opType = some ol.iOpType ∨ cb.kind = .ioctl ∧ cb.bytesTrans = 0) ∧ cb.errorCode = 0
  | .online | .updateContext | .sndTimeo | .rcvTimeo | .linger | .getpeername | .keepAlive
  | .keepAliveVals | .postConnect | .setRecv => cb.kind = .accept ∧ cb.errorCode = 0
  | .wsaRecv => cb.kind = .accept ∧ cb.errorCode = 0 ∧ ol.iOpType = .recv
  | .recvCopy | .recvZero _ | .recvPost _ => cb.kind = .accept ∨ cb.kind = .recv
  | .acceptEx => ol.iOpType = .accept
  | .postClose | .disconnect | .reset | .cancel | .create | .retire => True

structure Context.Typed (cx : Context) : Prop where
  ops : ∀ op ∈ cx.ops, op.Typed cx.ol
  callbacks : ∀ cb ∈ cx.callbacks, cb.Typed cx.ol

/-- Only the type of the context matters. -/
theorem Callback.Typed.congr {ol ol' : IocpOverlapped} {cb : Callback} (h : cb.Typed ol)
    (ht : ol'.iOpType = ol.iOpType) : cb.Typed ol' := by
  unfold Callback.Typed at h ⊢
  rw [ht]
  exact h

theorem Op.Typed.congr {ol ol' : IocpOverlapped} {op : Op} (h : op.Typed ol)
    (ht : ol'.iOpType = ol.iOpType) : op.Typed ol' where
  type t hk := ht.trans (h.type t hk)
  ioctl := h.ioctl

theorem store_iOpType (r : Completion) (ol : IocpOverlapped) : (r.store ol).iOpType = ol.iOpType := by
  cases r <;> rfl

/-! ## Steps -/

theorem OpKind.eq_accept {kind : OpKind} (h : kind.opType = some .accept) : kind = .accept := by
  cases kind <;> simp [OpKind.opType] at h ⊢

theorem OpKind.eq_recv {kind : OpKind} (h : kind.opType = some .recv) : kind = .recv := by
  cases kind <;> simp [OpKind.opType] at h ⊢

/-- What has completed, if it is not a `DisconnectEx`, has the type that the field says,
or is a `WSAIoctl`. -/
theorem OpKind.opType_eq_or {kind : OpKind} {t : OpType} {bytesTrans : Nat}
    (htype : ∀ t', kind.opType = some t' → t = t') (hkind : kind ≠ .disconnect)
    (hbytes : kind = .ioctl → bytesTrans = 0) :
    kind.opType = some t ∨ kind = .ioctl ∧ bytesTrans = 0 := by
  cases kind with
  | accept =>
    left
    rw [htype .accept rfl]
    rfl
  | recv =>
    left
    rw [htype .recv rfl]
    rfl
  | disconnect => exact absurd rfl hkind
  | ioctl => exact .inr ⟨rfl, hbytes rfl⟩

/-- What a step starts and where it goes on is typed, and it leaves the field
alone unless it is one of the two that write it. -/
structure Effect.Typed (ol : IocpOverlapped) (cb : Callback) (e : Effect) : Prop where
  start : ∀ op, e.start = some op → op.Typed e.ol
  next : ∀ cb', e.next = some cb' → cb'.Typed e.ol
  type : e.ol.iOpType = ol.iOpType ∨ cb.pc = .setRecv ∨ cb.pc = .reset

/-- An operation without a type. -/
theorem Op.Typed.untyped {ol : IocpOverlapped} {kind : OpKind} (conn : Nat) (h : kind.opType = none) :
    Op.Typed ol ⟨kind, conn, none⟩ where
  type t ht := by
    rw [h] at ht
    cases ht
  ioctl := nofun

/-- A `WSARecv` is started while the field says so. -/
theorem Op.Typed.recv {ol : IocpOverlapped} (conn : Nat) (result : Option Completion)
    (h : ol.iOpType = .recv) : Op.Typed ol ⟨.recv, conn, result⟩ where
  type t ht := by
    cases ht
    exact h
  ioctl := nofun

namespace Effect.Typed

variable {ol : IocpOverlapped} {cb cb' : Callback} {e : Effect}

theorem of_next (hstart : e.start = none) (hnext : e.next = some cb') (hcb : cb'.Typed e.ol)
    (htype : e.ol.iOpType = ol.iOpType ∨ cb.pc = .setRecv ∨ cb.pc = .reset) : e.Typed ol cb := by
  refine ⟨fun op hop => ?_, fun cb'' hcb'' => ?_, htype⟩
  · rw [hstart] at hop
    cases hop
  · rw [hnext] at hcb''
    cases hcb''
    exact hcb

theorem of_return (hstart : e.start = none) (hnext : e.next = none) (htype : e.ol.iOpType = ol.iOpType) :
    e.Typed ol cb := by
  refine ⟨fun op hop => ?_, fun cb'' hcb'' => ?_, .inl htype⟩
  · rw [hstart] at hop
    cases hop
  · rw [hnext] at hcb''
    cases hcb''

theorem of_start {op : Op} (hstart : e.start = some op) (hop : op.Typed e.ol)
    (hnext : ∀ cb', e.next = some cb' → cb'.Typed e.ol) (htype : e.ol.iOpType = ol.iOpType) :
    e.Typed ol cb := by
  refine ⟨fun op' hop' => ?_, hnext, .inl htype⟩
  rw [hstart] at hop'
  cases hop'
  exact hop

end Effect.Typed

theorem Callback.step_typed {povl nextConn : Nat} {ol : IocpOverlapped} {cb : Callback}
    {input : Input} {e : Effect} (hi : cb.Typed ol)
    (hlost : cb.pc = .beat → cb.kind = .disconnect → cb.Lost)
    (hioctl : cb.pc = .opSwitch → cb.kind = .ioctl → ol.iOpType = .recv)
    (h : cb.step povl nextConn ol input = some e) : e.Typed ol cb := by
  unfold Callback.Typed at hi
  cases callbackStep h with
  | lost | empty | recvFailed | postClose | disconnectFailed | acceptFailed | cancel | create =>
    exact .of_next rfl rfl trivial (.inl rfl)
  | alive hpc hl =>
    -- past the test: the completion has a type, which is the field, or is of a WSAIoctl
    simp only [hpc] at hi
    have herr : cb.errorCode = 0 := by
      by_contra hne
      exact hl (.inl hne)
    have hkind : cb.kind ≠ .disconnect := fun hk => hl (hlost hpc hk)
    exact .of_next rfl rfl ⟨OpKind.opType_eq_or hi.1 hkind hi.2, herr⟩ (.inl rfl)
  | accepted hpc ht =>
    simp only [hpc] at hi
    refine .of_next rfl rfl ?_ (.inl rfl)
    rcases hi.1 with htype | ⟨hk, -⟩
    · exact ⟨OpKind.eq_accept (htype.trans (congrArg some ht)), hi.2⟩
    · cases ht.symm.trans (hioctl hpc hk)
  | received hpc ht hdata =>
    simp only [hpc] at hi
    refine .of_next rfl rfl ?_ (.inl rfl)
    rcases hi.1 with htype | ⟨-, hbytes⟩
    · exact .inr (OpKind.eq_recv (htype.trans (congrArg some ht)))
    · exact absurd (.inl hbytes) hdata
  | online hpc | sndTimeo hpc | rcvTimeo hpc | linger hpc | getpeername hpc | peerError hpc
  | keepAlive hpc | ioctlFailed hpc | postConnect hpc | recvCopy hpc | recvZero hpc =>
    simp only [hpc] at hi
    exact .of_next rfl rfl hi (.inl rfl)
  | updateContext hpc =>
    simp only [hpc] at hi
    by_cases ht : 0 < ol.timeout
    · rw [if_pos ht]
      exact .of_next rfl rfl hi (.inl rfl)
    · rw [if_neg ht]
      exact .of_next rfl rfl hi (.inl rfl)
  | ioctl hpc =>
    simp only [hpc] at hi
    refine .of_start rfl (.untyped _ rfl) ?_ rfl
    rintro _ ⟨⟩
    exact hi
  | setRecv hpc =>
    simp only [hpc] at hi
    exact .of_next rfl rfl ⟨hi.1, hi.2, rfl⟩ (.inr (.inl hpc))
  | recvDone hpc =>
    simp only [hpc] at hi
    refine .of_start rfl (.recv _ _ hi.2.2) ?_ rfl
    rintro _ ⟨⟩
    exact .inl hi.1
  | recvPending hpc =>
    simp only [hpc] at hi
    exact .of_start rfl (.recv _ _ hi.2.2) nofun rfl
  | disconnect =>
    refine .of_start rfl (.untyped _ rfl) ?_ rfl
    rintro _ ⟨⟩
    trivial
  | reset hpc => exact .of_next rfl rfl rfl (.inr (.inr hpc))
  | acceptEx hpc =>
    simp only [hpc] at hi
    refine .of_start rfl ⟨?_, nofun⟩ nofun rfl
    rintro _ ⟨⟩
    exact hi
  | pending | recvPost | retire => exact .of_return rfl rfl rfl

theorem Context.Typed.run {povl nextConn : Nat} {cx : Context} {pre post : List Callback}
    {cb : Callback} {input : Input} {e : Effect} (hi : cx.Typed)
    (hcbs : cx.callbacks = pre ++ cb :: post) (hP : TypeWrittenAlone cx cb input)
    (h : cb.step povl nextConn cx.ol input = some e) :
    Context.Typed ⟨e.ol, cx.ops ++ e.start.toList, pre ++ e.next.toList ++ post⟩ := by
  have he := Callback.step_typed (hi.callbacks cb (by simp [hcbs])) hP.1 hP.2.1 h
  -- nothing else looks at the field, or it has not changed
  have hothers : (∀ op ∈ cx.ops, op.Typed e.ol) ∧ ∀ cb' ∈ pre ++ post, cb'.Typed e.ol := by
    rcases he.type with ht | hw
    · refine ⟨fun op hop => (hi.ops op hop).congr ht, fun cb' hcb' => ?_⟩
      exact (hi.callbacks cb' (Position.mem_of_others hcbs hcb')).congr ht
    · obtain ⟨honly, hops⟩ := hP.2.2 hw
      refine ⟨fun op hop => ⟨fun t ht => ?_, (hi.ops op hop).ioctl⟩, fun cb' hcb' => ?_⟩
      · rw [hops op hop] at ht
        cases ht
      · have hlen := congrArg List.length (hcbs.symm.trans honly)
        have hnil : pre ++ post = [] := by
          apply List.eq_nil_of_length_eq_zero
          simp only [List.length_append, List.length_cons, List.length_nil] at hlen ⊢
          omega
        rw [hnil] at hcb'
        cases hcb'
  constructor
  · intro op hop
    rcases List.mem_append.mp hop with hop | hop
    · exact hothers.1 op hop
    · exact he.start op (Option.mem_toList.mp hop)
  · intro cb' hcb'
    rcases Position.mem_replaced hcb' with hcb' | hnext
    · exact hothers.2 cb' hcb'
    · exact he.next cb' hnext

theorem Context.Typed.complete {cx cx' : Context} {j : Nat} {r : Completion} (hi : cx.Typed)
    (h : cx.complete j r = some cx') : cx'.Typed := by
  obtain ⟨pre, kind, conn, post, hops, -, hallowed, rfl⟩ := Context.complete_eq h
  have ht := store_iOpType r cx.ol
  constructor
  · intro op hop
    rw [List.mem_append, List.mem_cons] at hop
    rcases hop with hop | rfl | hop
    · exact (hi.ops op (by simp [hops, hop])).congr ht
    · have hsame : Op.Typed cx.ol ⟨kind, conn, none⟩ := hi.ops _ (by simp [hops])
      refine ⟨fun t hk => ht.trans (hsame.type t hk), ?_⟩
      rintro hk _ ⟨⟩
      obtain rfl : kind = .ioctl := hk
      cases r with
      | failed _ => rfl
      | finished => rfl
      | accepted _ => exact hallowed.elim
      | received _ => exact hallowed.elim
    · exact (hi.ops op (by simp [hops, hop])).congr ht
  · intro cb hcb
    exact (hi.callbacks cb hcb).congr ht

theorem Context.Typed.deliver {cx cx' : Context} {j lastError : Nat} (hi : cx.Typed)
    (h : cx.deliver j lastError = some cx') : cx'.Typed := by
  obtain ⟨pre, kind, conn, r, post, hops, -, rfl⟩ := Context.deliver_eq h
  constructor
  · intro op hop
    exact hi.ops op (Position.mem_of_others hops hop)
  · intro cb hcb
    rcases List.mem_append.mp hcb with hcb | hcb
    · exact hi.callbacks cb hcb
    · obtain rfl := List.mem_singleton.mp hcb
      have hop : Op.Typed cx.ol ⟨kind, conn, some r⟩ := hi.ops _ (by simp [hops])
      exact ⟨hop.type, fun hk => hop.ioctl hk r rfl⟩

theorem Context.Typed.new (skServer client : Nat) (timeout : Int) (n : Nat) (a : CallAnswer) :
    (Context.new skServer client timeout n a).Typed where
  ops := by
    intro op hop
    unfold Context.new at hop
    dsimp only at hop
    split at hop
    · obtain rfl := List.mem_singleton.mp hop
      refine ⟨?_, by simp⟩
      rintro _ ⟨⟩
      rfl
    · cases hop
  callbacks := nofun

/-! ## The dispatcher -/

/-- **The dispatched type**, in the runs in which `m_iOpType` is written alone: at
the `switch` it is the type of the completed operation (the `WSAIoctl` apart, which
has none); `WM_ONCONNECT` is posted for completed `AcceptEx`s only, and a completed
`DisconnectEx` gets into neither `iocp_onconnect` nor `iocp_onrecv`. -/
theorem dispatched_type {cfg : Config} {s : State}
    (h : (server cfg).Reach (OnCallback TypeWrittenAlone) s) {cx : Context} (hcx : cx ∈ s.contexts)
    {cb : Callback} (hcb : cb ∈ cx.callbacks) :
    (cb.pc = .opSwitch → cb.kind ≠ .ioctl → cb.kind.opType = some cx.ol.iOpType) ∧
    (cb.pc = .postConnect → cb.kind = .accept ∧ cb.errorCode = 0) ∧
    (cb.kind = .disconnect → ¬ cb.pc.Connecting ∧ ¬ cb.pc.Receiving) := by
  have hi : cx.Typed := by
    refine contexts_invariant (P := TypeWrittenAlone) (Q := fun _ => True) (I := Context.Typed)
      ?_ ?_ ?_ ?_ ?_ h cx hcx
    · exact fun _ _ => Context.Typed.new _ _ _ _ _
    · exact fun hi hs => hi.complete hs
    · exact fun hi hs => hi.deliver hs
    · exact fun hi hcbs hP hs => hi.run hcbs hP hs
    · intro s a ha
      refine ⟨ha, ?_⟩
      unfold OnCreate
      split <;> trivial
  have ht := hi.callbacks cb hcb
  unfold Callback.Typed at ht
  refine ⟨fun hpc hk => ?_, fun hpc => ?_, fun hk => ?_⟩
  · rw [hpc] at ht
    exact ht.1.resolve_right fun hioctl => hk hioctl.1
  · rw [hpc] at ht
    exact ht
  · generalize cb.pc = pc at ht
    cases pc <;> simp_all [Pc.Connecting, Pc.Receiving]

/-- The second connection of a recycled socket at the `switch`, while the completion of
the `DisconnectEx` is still under way. -/
theorem dispatched_type_recycled :
    ∃ s, (server ⟨1, 0, 100⟩).Reach (OnCallback TypeWrittenAlone) s ∧
      ∃ cx ∈ s.contexts, ∃ cb ∈ cx.callbacks, cb.pc = .opSwitch ∧ cb.kind ≠ .ioctl ∧
        cb.kind.opType = some cx.ol.iOpType := by
  obtain ⟨s, hr, hex⟩ := Machine.exists_reach (M := server ⟨1, 0, 100⟩) (OnCallback TypeWrittenAlone)
    (p := fun s => ∃ cx ∈ s.contexts, ∃ cb ∈ cx.callbacks, cb.pc = .opSwitch ∧ cb.kind ≠ .ioctl)
    (createActs 4 ++ connectActs 0 ++ recycleActs ++ [.complete 0 0 .finished] ++
      completeActs 1 (.accepted (List.replicate addressBlocks 1)) ++ runActs [.go]) (by decide)
  obtain ⟨cx, hcx, cb, hcb, hpc, hk⟩ := hex
  exact ⟨s, hr, cx, hcx, cb, hcb, hpc, hk, (dispatched_type hr hcx hcb).1 hpc hk⟩

/-- The completion of the `DisconnectEx` on its way to a second `WM_ONCONNECT`. -/
theorem disconnect_taken_for_connect :
    ¬ ∀ (cfg : Config) (s : State), (server cfg).Reachable s → ∀ cx ∈ s.contexts, ∀ cb ∈ cx.callbacks,
      (cb.pc = .opSwitch → cb.kind ≠ .ioctl → cb.kind.opType = some cx.ol.iOpType) ∧
      (cb.pc = .postConnect → cb.kind = .accept ∧ cb.errorCode = 0) ∧
      (cb.kind = .disconnect → ¬ cb.pc.Connecting ∧ ¬ cb.pc.Receiving) := by
  intro hall
  obtain ⟨s, hr, hex⟩ := Machine.exists_reachable (M := server ⟨1, 0, 100⟩)
    (p := fun s => ∃ cx ∈ s.contexts, ∃ cb ∈ cx.callbacks, cb.pc = .postConnect ∧ cb.kind = .disconnect)
    (createActs 4 ++ connectActs 0 ++ recycleActs ++ completeActs 0 .finished ++
      runActs onconnectInputs) (by decide)
  obtain ⟨cx, hcx, cb, hcb, hpc, hk⟩ := hex
  have haccept := ((hall _ s hr cx hcx cb hcb).2.1 hpc).1
  rw [hk] at haccept
  cases haccept

end WingPhp.Iocp
