import WingPhp.Iocp.Contexts

/-!
# What `onreceive` is given

`iocp_onrecv` takes the message for a C string, although the number of bytes is
known; the buffer still holds what `AcceptEx` or an earlier receive left behind the
data; and a `WSARecv` that returns 0 is handled twice, at once and when its completion
arrives.  So a receive becomes one `WM_ONRECV` with its bytes when it completes
later, holds no NUL, finds a NUL behind itself in the buffer, and is copied before
anything else is written there (`ReceivedWhole`).  In the runs where every receive
does, what is posted for a context is what it received, in order
(`receives_delivered`).

A message is held by its operation, once that has ended, and then by the callback
called for it, until that posts it (`Context.held`); the invariant is that a context
holds one at most, and that the buffer is in order for it (`Context.Sound`).
-/

namespace WingPhp.Iocp

open Transition Sclient

/-! ## Received and delivered -/

/-- `ZVAL_STRING( params[1], recv_msg, 1 )`; `recv_msg` ends in a NUL of its own. -/
def zvalString (recvmsg : List UInt8) : List UInt8 := upToNul (recvmsg ++ [0])

/-- What `onreceive` is called with for this message. -/
def Msg.receipt : Msg → Option Receipt
  | .onRecv povl conn recvmsg _ => some ⟨povl, conn, zvalString recvmsg⟩
  | _ => none

/-- What was posted for `onreceive`, in order. -/
def State.delivered (s : State) : List Receipt := s.queue.posted.filterMap Msg.receipt

def ofContext (c : Nat) (l : List Receipt) : List Receipt := l.filter fun r => r.povl = c

theorem zvalString_of_not_mem {recvmsg : List UInt8} (h : 0 ∉ recvmsg) :
    zvalString recvmsg = recvmsg := by
  rw [zvalString, upToNul_of_not_mem h]
  simp [upToNul]

theorem ofContext_append (c : Nat) (l l' : List Receipt) :
    ofContext c (l ++ l') = ofContext c l ++ ofContext c l' := List.filter_append ..

theorem ofContext_eq_self {c : Nat} {l : List Receipt} (h : ∀ r ∈ l, r.povl = c) :
    ofContext c l = l := by
  simpa [ofContext, List.filter_eq_self] using h

theorem ofContext_eq_nil {c : Nat} {l : List Receipt} (h : ∀ r ∈ l, r.povl ≠ c) :
    ofContext c l = [] := by
  simpa [ofContext, List.filter_eq_nil_iff] using h

/-! ## What a context holds -/

/-- The bytes of an ended operation. -/
def Op.ended (op : Op) : List UInt8 :=
  match op.result with
  | some r => r.bytes
  | none => []

/-- The callback will copy a message out of `m_pBuf`. -/
def Callback.Reads (cb : Callback) : Prop :=
  match cb.pc with
  | .beat | .opSwitch => cb.bytesTrans ≠ 0
  | .recvCopy => True
  | _ => False

instance (cb : Callback) : Decidable cb.Reads := by
  unfold Callback.Reads
  split <;> infer_instance

/-- The message a callback is to post. -/
def Callback.holds (c : Nat) (ol : IocpOverlapped) (cb : Callback) : List Receipt :=
  match cb.pc with
  | .beat | .opSwitch =>
    if cb.bytesTrans = 0 then [] else [⟨c, cb.conn, upToNul ol.pBuf.bytes⟩]
  | .recvCopy => [⟨c, cb.conn, upToNul ol.pBuf.bytes⟩]
  | .recvZero recvmsg | .recvPost recvmsg => [⟨c, cb.conn, recvmsg⟩]
  | _ => []

def Op.holds (c : Nat) (op : Op) : List Receipt :=
  if op.ended = [] then [] else [⟨c, op.conn, op.ended⟩]

/-- What context `c` has received and not posted yet. -/
def Context.held (c : Nat) (cx : Context) : List Receipt :=
  cx.ops.flatMap (Op.holds c) ++ cx.callbacks.flatMap (Callback.holds c cx.ol)

/-- A message is in `m_pBuf`. -/
def Context.Reading (cx : Context) : Prop :=
  (∃ op ∈ cx.ops, op.ended ≠ []) ∨ ∃ cb ∈ cx.callbacks, cb.Reads

instance (cx : Context) : Decidable cx.Reading := inferInstanceAs (Decidable (_ ∨ _))

/-! ## The condition -/

/-- The context can take `data`: the message before it is posted, and the buffer has a
NUL behind it. -/
def Context.ReadyFor (c : Nat) (cx : Context) (data : List UInt8) : Prop :=
  cx.held c = [] ∧ cx.ol.iOpType = .recv ∧ 0 ∉ data ∧ cx.ol.pBuf.bytes[data.length]? = some 0

instance (c : Nat) (cx : Context) (data : List UInt8) : Decidable (cx.ReadyFor c data) := by
  unfold Context.ReadyFor
  infer_instance

/-- Winsock writes to the buffer only when it is ready. -/
def Context.FitFor (c : Nat) (cx : Context) : Completion → Prop
  | .received data => data ≠ [] → cx.ReadyFor c data
  | .accepted _ => ¬ cx.Reading
  | _ => True

instance (c : Nat) (cx : Context) (r : Completion) : Decidable (cx.FitFor c r) :=
  match r with
  | .received data => inferInstanceAs (Decidable (data ≠ [] → cx.ReadyFor c data))
  | .accepted _ => inferInstanceAs (Decidable (¬ cx.Reading))
  | .failed _ | .finished => .isTrue trivial

/-- `WSARecv` does not return 0. -/
def Input.Later : Input → Prop
  | .recvDone _ => False
  | _ => True

instance (input : Input) : Decidable input.Later :=
  match input with
  | .recvDone _ => .isFalse id
  | .go | .clock _ | .ret _ | .peer _ | .call _ | .create _ => .isTrue trivial

/-- A receive completes later than `WSARecv`, into a buffer that is ready for it; it is
handled on a thread whose last error does not say that the client is gone; and until
it is copied neither `AcceptEx` nor `iocp_onclose` writes to the buffer. -/
def ReceivedWhole (s : State) : Act → Prop
  | .complete c _ r => ∀ cx ∈ s.contexts[c]?, cx.FitFor c r
  | .deliver c j lastError =>
    ∀ cx ∈ s.contexts[c]?, ∀ op ∈ cx.ops[j]?, op.ended ≠ [] →
      lastError ≠ wsaeConnReset ∧ lastError ≠ errorNetnameDeleted
  | .run c i input =>
    input.Later ∧ ∀ cx ∈ s.contexts[c]?, ∀ cb ∈ cx.callbacks[i]?, cb.pc = .reset → ¬ cx.Reading
  | _ => True

instance (s : State) (a : Act) : Decidable (ReceivedWhole s a) :=
  match a with
  | .complete c _ r => inferInstanceAs (Decidable (∀ cx ∈ s.contexts[c]?, cx.FitFor c r))
  | .deliver c j lastError =>
    inferInstanceAs (Decidable (∀ cx ∈ s.contexts[c]?, ∀ op ∈ cx.ops[j]?, op.ended ≠ [] →
      lastError ≠ wsaeConnReset ∧ lastError ≠ errorNetnameDeleted))
  | .run c i input =>
    inferInstanceAs (Decidable (input.Later ∧ ∀ cx ∈ s.contexts[c]?, ∀ cb ∈ cx.callbacks[i]?,
      cb.pc = .reset → ¬ cx.Reading))
  | .main _ | .pool _ _ => .isTrue trivial

/-! ## The invariant -/

/-- `data` is the C string at the front of `m_pBuf`. -/
def IocpOverlapped.Stored (ol : IocpOverlapped) (data : List UInt8) : Prop :=
  upToNul ol.pBuf.bytes = data ∧ ol.pBuf.Terminated

def Callback.SoundAt (ol : IocpOverlapped) (cb : Callback) : Prop :=
  match cb.pc with
  | .beat | .opSwitch =>
    cb.bytesTrans ≠ 0 → ol.pBuf.Terminated ∧ ¬ cb.Lost ∧ ol.iOpType = .recv
  | .recvCopy => ol.pBuf.Terminated
  | .recvZero recvmsg | .recvPost recvmsg => 0 ∉ recvmsg
  | _ => True

structure Context.Sound (c : Nat) (cx : Context) : Prop where
  one : (cx.held c).length ≤ 1
  ended : ∀ op ∈ cx.ops, op.ended ≠ [] → cx.ol.Stored op.ended ∧ cx.ol.iOpType = .recv
  callbacks : ∀ cb ∈ cx.callbacks, cb.SoundAt cx.ol

theorem Op.holds_eq_nil {c : Nat} {op : Op} : op.holds c = [] ↔ op.ended = [] := by
  simp [Op.holds]

/-- What a callback that holds nothing does not need. -/
theorem Callback.soundAt_of_holds_eq_nil {c : Nat} {ol : IocpOverlapped} {cb : Callback}
    (h : cb.holds c ol = []) (ol' : IocpOverlapped) : cb.SoundAt ol' ∧ cb.holds c ol' = [] := by
  unfold Callback.holds at h
  split at h <;> rename_i hpc <;> simp_all [Callback.SoundAt, Callback.holds]

/-- A callback's message depends on the buffer only until it is copied. -/
theorem Callback.SoundAt.congr {ol ol' : IocpOverlapped} {cb : Callback} (h : cb.SoundAt ol)
    (hk : cb.Reads → ol'.pBuf = ol.pBuf ∧ (ol.iOpType = .recv → ol'.iOpType = .recv)) (c : Nat) :
    cb.SoundAt ol' ∧ cb.holds c ol' = cb.holds c ol := by
  unfold Callback.SoundAt at h
  split at h <;> rename_i hpc <;> simp_all [Callback.SoundAt, Callback.holds, Callback.Reads]

/-- A buffer that is ready stores the data as a C string. -/
theorem Context.ReadyFor.stored {c : Nat} {cx : Context} {data : List UInt8}
    (h : cx.ReadyFor c data) : ((Completion.received data).store cx.ol).Stored data := by
  obtain ⟨-, -, hnul, hbehind⟩ := h
  have hlt := (List.getElem?_eq_some_iff.mp hbehind).1
  rw [cx.ol.pBuf.length_eq] at hlt
  exact (Block.upToNul_overlay _ (Nat.le_of_lt hlt)).mpr ⟨hnul, hbehind⟩

/-! ## What a step of a callback does with it -/

/-- A callback that holds nothing posts nothing for `onreceive`, and takes nothing in. -/
theorem Callback.step_silent {c povl nextConn : Nat} {ol : IocpOverlapped} {cb : Callback}
    {input : Input} {e : Effect} (hno : cb.holds c ol = []) (hlater : input.Later)
    (h : cb.step povl nextConn ol input = some e) :
    (∀ cb', e.next = some cb' → cb'.holds c e.ol = []) ∧
      (∀ op, e.start = some op → op.result = none) ∧ e.msgs.filterMap Msg.receipt = [] ∧
      (cb.pc ≠ .reset →
        e.ol.pBuf = ol.pBuf ∧ (ol.iOpType = .recv → e.ol.iOpType = .recv)) := by
  cases callbackStep h with
  | received hpc _ hdata =>
    -- it would hold a message
    simp only [Callback.holds, hpc] at hno
    split at hno
    · next hbytes => exact absurd (.inl hbytes) hdata
    · cases hno
  | recvDone => cases hlater
  | recvCopy hpc | recvZero hpc | recvPost hpc => simp [Callback.holds, hpc] at hno
  | lost hpc | alive hpc =>
    simp only [Callback.holds, hpc] at hno
    simp [hpc, Callback.goto, Callback.holds, Msg.receipt, hno]
  | accepted hpc | empty hpc | pending hpc => simp [hpc, Callback.goto, Callback.holds]
  | updateContext hpc =>
    by_cases ht : 0 < ol.timeout <;>
      simp [hpc, ht, Callback.goto, Callback.noted, Callback.holds, Msg.receipt, Callback.errors]
  | _ hpc => simp [hpc, Callback.goto, Callback.holds, Msg.receipt, Callback.errors]

/-- A callback that holds a message comes closer to posting it, or posts it and is
done. -/
theorem Callback.step_carries {c nextConn : Nat} {ol : IocpOverlapped} {cb : Callback}
    {input : Input} {e : Effect} (hs : cb.SoundAt ol) (hh : cb.holds c ol ≠ [])
    (h : cb.step c nextConn ol input = some e) :
    e.start = none ∧
    ((∃ cb', e.next = some cb' ∧ cb'.SoundAt e.ol ∧ cb'.holds c e.ol = cb.holds c ol ∧
        e.msgs.filterMap Msg.receipt = []) ∨
      e.next = none ∧ e.msgs.filterMap Msg.receipt = cb.holds c ol) := by
  unfold Callback.holds at hh ⊢
  unfold Callback.SoundAt at hs
  cases callbackStep h with
  | lost hpc hlost =>
    simp only [hpc] at hh hs
    have hbytes : cb.bytesTrans ≠ 0 := fun h0 => hh (if_pos h0)
    exact absurd hlost (hs hbytes).2.1
  | alive hpc =>
    rw [hpc] at hh hs ⊢
    exact ⟨rfl, .inl ⟨_, rfl, hs, rfl, rfl⟩⟩
  | accepted hpc htype =>
    simp only [hpc] at hh hs
    have hbytes : cb.bytesTrans ≠ 0 := fun h0 => hh (if_pos h0)
    cases htype.symm.trans (hs hbytes).2.2
  | empty hpc _ hgone | pending hpc _ hgone =>
    simp only [hpc] at hh hs
    have hbytes : cb.bytesTrans ≠ 0 := fun h0 => hh (if_pos h0)
    exact absurd (hgone.resolve_left hbytes) fun hr => (hs hbytes).2.1 (.inr hr)
  | received hpc =>
    rw [hpc] at hh hs ⊢
    have hbytes : cb.bytesTrans ≠ 0 := fun h0 => hh (if_pos h0)
    exact ⟨rfl, .inl ⟨_, rfl, (hs hbytes).1, (if_neg hbytes).symm, rfl⟩⟩
  | recvCopy hpc =>
    rw [hpc] at hs ⊢
    have hcopy : upToNul ol.fromBuf = upToNul ol.pBuf.bytes := upToNul_append hs _
    refine ⟨rfl, .inl ⟨_, rfl, ?_, ?_, rfl⟩⟩
    · exact hcopy ▸ zero_not_mem_upToNul _
    · rw [hcopy]
      rfl
  | recvZero hpc =>
    rw [hpc] at hs ⊢
    exact ⟨rfl, .inl ⟨_, rfl, hs, rfl, rfl⟩⟩
  | recvPost hpc =>
    rw [hpc] at hs ⊢
    refine ⟨rfl, .inr ⟨rfl, ?_⟩⟩
    simp [Msg.receipt, zvalString_of_not_mem hs]
  | _ hpc =>
    simp only [hpc] at hh
    exact absurd rfl hh

/-! ## What a step does to what a context holds -/

theorem Context.held_eq_nil {c : Nat} {cx : Context} :
    cx.held c = [] ↔
      (∀ op ∈ cx.ops, op.ended = []) ∧ ∀ cb ∈ cx.callbacks, cb.holds c cx.ol = [] := by
  simp [Context.held, List.flatMap_eq_nil_iff, Op.holds_eq_nil]

theorem Context.povl_of_mem_held {c : Nat} {cx : Context} {r : Receipt} (h : r ∈ cx.held c) :
    r.povl = c := by
  rcases List.mem_append.mp h with h | h
  · obtain ⟨op, -, hr⟩ := List.mem_flatMap.mp h
    unfold Op.holds at hr
    split at hr
    · cases hr
    · rw [List.mem_singleton.mp hr]
  · obtain ⟨cb, -, hr⟩ := List.mem_flatMap.mp h
    unfold Callback.holds at hr
    split at hr
    · split at hr
      · cases hr
      · rw [List.mem_singleton.mp hr]
    · split at hr
      · cases hr
      · rw [List.mem_singleton.mp hr]
    · rw [List.mem_singleton.mp hr]
    · rw [List.mem_singleton.mp hr]
    · rw [List.mem_singleton.mp hr]
    · cases hr

/-- A callback that holds a message is the only one to hold anything. -/
theorem Context.only_callback {c : Nat} {cx : Context} (hone : (cx.held c).length ≤ 1)
    {pre post : List Callback} {cb : Callback} (hcbs : cx.callbacks = pre ++ cb :: post)
    (hh : cb.holds c cx.ol ≠ []) :
    cx.held c = cb.holds c cx.ol ∧ (∀ op ∈ cx.ops, op.ended = []) ∧
      ∀ cb' ∈ pre ++ post, cb'.holds c cx.ol = [] := by
  have hpos := List.length_pos_iff.mpr hh
  simp only [Context.held, hcbs, List.flatMap_append, List.flatMap_cons, List.length_append] at hone
  have hops : cx.ops.flatMap (Op.holds c) = [] := List.eq_nil_of_length_eq_zero (by omega)
  have hpre : pre.flatMap (Callback.holds c cx.ol) = [] := List.eq_nil_of_length_eq_zero (by omega)
  have hpost : post.flatMap (Callback.holds c cx.ol) = [] :=
    List.eq_nil_of_length_eq_zero (by omega)
  refine ⟨by simp [Context.held, hcbs, hops, hpre, hpost], fun op hop => ?_, fun cb' hmem => ?_⟩
  · exact Op.holds_eq_nil.mp (List.flatMap_eq_nil_iff.mp hops op hop)
  · rcases List.mem_append.mp hmem with hmem | hmem
    · exact List.flatMap_eq_nil_iff.mp hpre cb' hmem
    · exact List.flatMap_eq_nil_iff.mp hpost cb' hmem

/-- Where the rest of a context holds nothing, it holds what the operation does. -/
theorem Context.held_of_op {c : Nat} {ol : IocpOverlapped} {pre post : List Op} {op : Op}
    {cbs : List Callback} (hothers : ∀ op' ∈ pre ++ post, op'.ended = [])
    (hcbs : ∀ cb ∈ cbs, cb.holds c ol = []) :
    Context.held c ⟨ol, pre ++ op :: post, cbs⟩ = op.holds c := by
  have hnone : ∀ l : List Op, (∀ op' ∈ l, op'.ended = []) → l.flatMap (Op.holds c) = [] :=
    fun l hl => List.flatMap_eq_nil_iff.mpr fun op' hop' => Op.holds_eq_nil.mpr (hl op' hop')
  have hpre := hnone pre fun op' hmem => hothers op' (List.mem_append_left _ hmem)
  have hpost := hnone post fun op' hmem => hothers op' (List.mem_append_right _ hmem)
  rw [Context.held, List.flatMap_eq_nil_iff.mpr hcbs, List.flatMap_append, List.flatMap_cons, hpre,
    hpost]
  simp

/-- The same for what a callback goes on to hold. -/
theorem Context.held_of_next {c : Nat} {ol : IocpOverlapped} {ops : List Op}
    {pre post : List Callback} {next : Option Callback} (hops : ∀ op ∈ ops, op.ended = [])
    (hothers : ∀ cb ∈ pre ++ post, cb.holds c ol = []) :
    Context.held c ⟨ol, ops, pre ++ next.toList ++ post⟩ =
      next.toList.flatMap (Callback.holds c ol) := by
  have hnone : ops.flatMap (Op.holds c) = [] :=
    List.flatMap_eq_nil_iff.mpr fun op hop => Op.holds_eq_nil.mpr (hops op hop)
  have hpre : pre.flatMap (Callback.holds c ol) = [] :=
    List.flatMap_eq_nil_iff.mpr fun cb hcb => hothers cb (List.mem_append_left _ hcb)
  have hpost : post.flatMap (Callback.holds c ol) = [] :=
    List.flatMap_eq_nil_iff.mpr fun cb hcb => hothers cb (List.mem_append_right _ hcb)
  rw [Context.held, hnone, List.flatMap_append, List.flatMap_append, hpre, hpost]
  simp

namespace Context.Sound

variable {c : Nat} {cx cx' : Context}

/-- The buffer may change when no message is in it. -/
theorem keep (h : cx.Sound c) {ol : IocpOverlapped}
    (hk : cx.Reading → ol.pBuf = cx.ol.pBuf ∧ (cx.ol.iOpType = .recv → ol.iOpType = .recv)) :
    (∀ op ∈ cx.ops, op.ended ≠ [] → ol.Stored op.ended ∧ ol.iOpType = .recv) ∧
      ∀ cb ∈ cx.callbacks, cb.SoundAt ol ∧ cb.holds c ol = cb.holds c cx.ol := by
  refine ⟨fun op hop hended => ?_, fun cb hcb => ?_⟩
  · obtain ⟨hbuf, htype⟩ := hk (.inl ⟨op, hop, hended⟩)
    obtain ⟨hstored, hrecv⟩ := h.ended op hop hended
    rw [IocpOverlapped.Stored, hbuf]
    exact ⟨hstored, htype hrecv⟩
  · exact (h.callbacks cb hcb).congr (fun hreads => hk (.inr ⟨cb, hcb, hreads⟩)) c

section Complete

variable {pre post : List Op} {kind : OpKind} {conn : Nat} {r : Completion}

/-- An operation ends without a message. -/
theorem complete_silent (h : cx.Sound c) (hops : cx.ops = pre ++ ⟨kind, conn, none⟩ :: post)
    (hfit : cx.FitFor c r) (hbytes : r.bytes = []) :
    Context.Sound c ⟨r.store cx.ol, pre ++ ⟨kind, conn, some r⟩ :: post, cx.callbacks⟩ ∧
      Context.held c ⟨r.store cx.ol, pre ++ ⟨kind, conn, some r⟩ :: post, cx.callbacks⟩ =
        cx.held c := by
  have hk : cx.Reading → (r.store cx.ol).pBuf = cx.ol.pBuf ∧
      (cx.ol.iOpType = .recv → (r.store cx.ol).iOpType = .recv) := by
    intro hreading
    cases r with
    | accepted addresses => exact absurd hreading hfit
    | received data =>
      obtain rfl : data = [] := hbytes
      exact ⟨by simp [Completion.store, Block.overlay], id⟩
    | _ => exact ⟨rfl, id⟩
  obtain ⟨hended, hcallbacks⟩ := h.keep hk
  have hheld :
      Context.held c ⟨r.store cx.ol, pre ++ ⟨kind, conn, some r⟩ :: post, cx.callbacks⟩ =
        cx.held c := by
    have hcbs : cx.callbacks.flatMap (Callback.holds c (r.store cx.ol)) =
        cx.callbacks.flatMap (Callback.holds c cx.ol) :=
      List.flatMap_congr fun cb hcb => (hcallbacks cb hcb).2
    simp [Context.held, hops, hcbs, Op.holds, Op.ended, hbytes]
  refine ⟨⟨?_, ?_, fun cb hcb => (hcallbacks cb hcb).1⟩, hheld⟩
  · rw [hheld]
    exact h.one
  · intro op hmem hne
    rw [List.mem_append, List.mem_cons] at hmem
    rcases hmem with hmem | rfl | hmem
    · exact hended op (Position.mem_of_others hops (List.mem_append_left _ hmem)) hne
    · exact absurd hbytes hne
    · exact hended op (Position.mem_of_others hops (List.mem_append_right _ hmem)) hne

/-- A receive ends with a message that the context is ready for. -/
theorem complete_ready {data : List UInt8} (hops : cx.ops = pre ++ ⟨kind, conn, none⟩ :: post)
    (hready : cx.ReadyFor c data) (hdata : data ≠ []) :
    Context.Sound c ⟨(Completion.received data).store cx.ol,
        pre ++ ⟨kind, conn, some (.received data)⟩ :: post, cx.callbacks⟩ ∧
      Context.held c ⟨(Completion.received data).store cx.ol,
        pre ++ ⟨kind, conn, some (.received data)⟩ :: post, cx.callbacks⟩ = [⟨c, conn, data⟩] := by
  obtain ⟨hnone, hnobody⟩ := Context.held_eq_nil.mp hready.1
  have hothers : ∀ op ∈ pre ++ post, op.ended = [] := fun op hmem =>
    hnone op (Position.mem_of_others hops hmem)
  have hcbs : ∀ cb ∈ cx.callbacks, cb.SoundAt ((Completion.received data).store cx.ol) ∧
      cb.holds c ((Completion.received data).store cx.ol) = [] := fun cb hcb =>
    Callback.soundAt_of_holds_eq_nil (hnobody cb hcb) _
  have hheld : Context.held c ⟨(Completion.received data).store cx.ol,
      pre ++ ⟨kind, conn, some (.received data)⟩ :: post, cx.callbacks⟩ = [⟨c, conn, data⟩] := by
    rw [Context.held_of_op hothers fun cb hcb => (hcbs cb hcb).2]
    exact if_neg hdata
  refine ⟨⟨?_, ?_, fun cb hcb => (hcbs cb hcb).1⟩, hheld⟩
  · rw [hheld]
    exact Nat.le_refl 1
  · intro op hmem hne
    rw [List.mem_append, List.mem_cons] at hmem
    rcases hmem with hmem | rfl | hmem
    · exact absurd (hothers op (List.mem_append_left _ hmem)) hne
    · exact ⟨hready.stored, hready.2.1⟩
    · exact absurd (hothers op (List.mem_append_right _ hmem)) hne

theorem complete (h : cx.Sound c) {j : Nat} {op : Op} (hfit : cx.FitFor c r)
    (hop : cx.ops[j]? = some op) (hs : cx.complete j r = some cx') :
    cx'.Sound c ∧ cx.held c ++ op.receipts c r = cx'.held c := by
  obtain ⟨pre, kind, conn, post, hops, hj, -, rfl⟩ := Context.complete_eq hs
  obtain rfl := Option.some.inj (hop.symm.trans hj)
  by_cases hbytes : r.bytes = []
  · obtain ⟨hsound, hheld⟩ := h.complete_silent hops hfit hbytes
    refine ⟨hsound, ?_⟩
    rw [hheld, Op.receipts, if_pos hbytes, List.append_nil]
  · cases r with
    | received data =>
      have hready : cx.ReadyFor c data := hfit hbytes
      obtain ⟨hsound, hheld⟩ := complete_ready hops hready hbytes
      refine ⟨hsound, ?_⟩
      rw [hheld, hready.1, Op.receipts, if_neg hbytes]
      rfl
    | _ => exact absurd rfl hbytes

end Complete

theorem deliver (h : cx.Sound c) {j lastError : Nat}
    (hclean : ∀ op ∈ cx.ops[j]?, op.ended ≠ [] →
      lastError ≠ wsaeConnReset ∧ lastError ≠ errorNetnameDeleted)
    (hs : cx.deliver j lastError = some cx') : cx'.Sound c ∧ cx'.held c = cx.held c := by
  obtain ⟨pre, kind, conn, r, post, hops, hj, rfl⟩ := Context.deliver_eq hs
  have hrecv : r.bytes ≠ [] → cx.ol.Stored r.bytes ∧ cx.ol.iOpType = .recv := fun hbytes =>
    h.ended ⟨kind, conn, some r⟩ (by simp [hops]) hbytes
  -- the callback holds what its operation held
  have hmove : (Op.callback kind conn r lastError).holds c cx.ol =
      Op.holds c ⟨kind, conn, some r⟩ := by
    by_cases hbytes : r.bytes = []
    · simp [Callback.holds, Op.callback, Op.holds, Op.ended, Completion.bytesTrans, hbytes]
    · simp [Callback.holds, Op.callback, Op.holds, Op.ended, Completion.bytesTrans, hbytes,
        (hrecv hbytes).1.1]
  have hone := h.one
  have hheld : Context.held c { cx with
      ops := pre ++ post, callbacks := cx.callbacks ++ [Op.callback kind conn r lastError] } =
      cx.held c := by
    simp only [Context.held, hops, List.flatMap_append, List.flatMap_cons, List.flatMap_nil, hmove,
      List.append_nil]
    by_cases hnone : Op.holds c ⟨kind, conn, some r⟩ = []
    · simp [hnone]
    · have hpos := List.length_pos_iff.mpr hnone
      simp only [Context.held, hops, List.flatMap_append, List.flatMap_cons, List.length_append]
        at hone
      rw [List.eq_nil_of_length_eq_zero (l := pre.flatMap (Op.holds c)) (by omega),
        List.eq_nil_of_length_eq_zero (l := post.flatMap (Op.holds c)) (by omega),
        List.eq_nil_of_length_eq_zero (l := cx.callbacks.flatMap (Callback.holds c cx.ol))
          (by omega)]
      simp
  refine ⟨⟨?_, fun op hmem => h.ended op (Position.mem_of_others hops hmem), ?_⟩, hheld⟩
  · rw [hheld]
    exact hone
  · intro cb hcb
    rcases List.mem_append.mp hcb with hcb | hcb
    · exact h.callbacks cb hcb
    · obtain rfl := List.mem_singleton.mp hcb
      intro hbytes
      have hne : r.bytes ≠ [] := fun h0 => hbytes (congrArg List.length h0)
      obtain ⟨hstored, htype⟩ := hrecv hne
      obtain ⟨hreset, hdeleted⟩ := hclean _ hj hne
      refine ⟨hstored.2, ?_, htype⟩
      rintro (hcode | hr | hr)
      · cases r <;> first | exact hcode rfl | exact hne rfl
      · exact hreset hr
      · exact hdeleted hr

section Run

variable {nextConn : Nat} {pre post : List Callback} {cb : Callback} {input : Input} {e : Effect}

/-- A step of a callback that holds nothing. -/
theorem run_silent (h : cx.Sound c) (hcbs : cx.callbacks = pre ++ cb :: post)
    (hh : cb.holds c cx.ol = []) (hlater : input.Later) (hreset : cb.pc = .reset → ¬ cx.Reading)
    (hstep : cb.step c nextConn cx.ol input = some e) :
    e.receipts c = [] ∧ e.msgs.filterMap Msg.receipt = [] ∧
      Context.Sound c ⟨e.ol, cx.ops ++ e.start.toList, pre ++ e.next.toList ++ post⟩ ∧
      Context.held c ⟨e.ol, cx.ops ++ e.start.toList, pre ++ e.next.toList ++ post⟩ =
        cx.held c := by
  obtain ⟨hnext, hstart, hmsgs, hquiet⟩ := Callback.step_silent hh hlater hstep
  obtain ⟨hended, hcallbacks⟩ :=
    h.keep fun hreading => hquiet fun hpc => hreset hpc hreading
  have hops : e.start.toList.flatMap (Op.holds c) = [] := by
    refine List.flatMap_eq_nil_iff.mpr fun op hop => ?_
    simp [Op.holds, Op.ended, hstart op (Option.mem_toList.mp hop)]
  have hgone : e.next.toList.flatMap (Callback.holds c e.ol) = [] :=
    List.flatMap_eq_nil_iff.mpr fun cb' hcb' => hnext cb' (Option.mem_toList.mp hcb')
  have hothers : ∀ l : List Callback, (∀ cb' ∈ l, cb' ∈ pre ++ post) →
      l.flatMap (Callback.holds c e.ol) = l.flatMap (Callback.holds c cx.ol) := fun l hl =>
    List.flatMap_congr fun cb' hcb' =>
      (hcallbacks cb' (Position.mem_of_others hcbs (hl cb' hcb'))).2
  have hheld : Context.held c
      ⟨e.ol, cx.ops ++ e.start.toList, pre ++ e.next.toList ++ post⟩ = cx.held c := by
    simp only [Context.held, hcbs, List.flatMap_append, List.flatMap_cons, hops, hgone, hh,
      hothers pre fun _ => List.mem_append_left _, hothers post fun _ => List.mem_append_right _,
      List.append_nil, List.nil_append]
  refine ⟨?_, hmsgs, ⟨?_, ?_, ?_⟩, hheld⟩
  · unfold Effect.receipts
    split
    · next op hop => simp [hstart op hop]
    · rfl
  · rw [hheld]
    exact h.one
  · intro op hmem hne
    rcases List.mem_append.mp hmem with hmem | hmem
    · exact hended op hmem hne
    · exact absurd (by simp [Op.ended, hstart op (Option.mem_toList.mp hmem)]) hne
  · intro cb' hmem
    rcases Position.mem_replaced hmem with hmem | hmem
    · exact (hcallbacks cb' (Position.mem_of_others hcbs hmem)).1
    · exact (Callback.soundAt_of_holds_eq_nil (hnext cb' hmem) _).1

/-- A step of the callback that holds the message of the context. -/
theorem run_carries (h : cx.Sound c) (hcbs : cx.callbacks = pre ++ cb :: post)
    (hh : cb.holds c cx.ol ≠ []) (hstep : cb.step c nextConn cx.ol input = some e) :
    e.receipts c = [] ∧
      Context.Sound c ⟨e.ol, cx.ops ++ e.start.toList, pre ++ e.next.toList ++ post⟩ ∧
      cx.held c = e.msgs.filterMap Msg.receipt ++
        Context.held c ⟨e.ol, cx.ops ++ e.start.toList, pre ++ e.next.toList ++ post⟩ := by
  obtain ⟨hstart, hcase⟩ := Callback.step_carries (h.callbacks cb (by simp [hcbs])) hh hstep
  obtain ⟨hheld, hended, hnobody⟩ := Context.only_callback h.one hcbs hh
  have hone := h.one
  rw [hheld] at hone
  have hothers : ∀ cb' ∈ pre ++ post, cb'.SoundAt e.ol ∧ cb'.holds c e.ol = [] := fun cb' hmem =>
    Callback.soundAt_of_holds_eq_nil (hnobody cb' hmem) e.ol
  rw [hstart, Option.toList_none, List.append_nil]
  have hheld' : Context.held c ⟨e.ol, cx.ops, pre ++ e.next.toList ++ post⟩ =
      e.next.toList.flatMap (Callback.holds c e.ol) :=
    Context.held_of_next hended fun cb' hmem => (hothers cb' hmem).2
  refine ⟨by simp [Effect.receipts, hstart], ⟨?_, fun op hop hne => absurd (hended op hop) hne, ?_⟩,
    ?_⟩
  · rw [hheld']
    rcases hcase with ⟨cb', hnext, -, hsame, -⟩ | ⟨hnext, -⟩
    · simpa [hnext, hsame] using hone
    · simp [hnext]
  · intro cb' hmem
    rcases Position.mem_replaced hmem with hmem | hmem
    · exact (hothers cb' hmem).1
    · rcases hcase with ⟨cb'', hnext, hsound, -⟩ | ⟨hnext, -⟩
      · cases hmem.symm.trans hnext
        exact hsound
      · cases hmem.symm.trans hnext
  · rw [hheld, hheld']
    rcases hcase with ⟨cb', hnext, -, hsame, hmsgs⟩ | ⟨hnext, hmsgs⟩
    · simp [hnext, hsame, hmsgs]
    · simp [hnext, hmsgs]

theorem run (h : cx.Sound c) (hcbs : cx.callbacks = pre ++ cb :: post) (hlater : input.Later)
    (hreset : cb.pc = .reset → ¬ cx.Reading) (hstep : cb.step c nextConn cx.ol input = some e) :
    e.receipts c = [] ∧
      Context.Sound c ⟨e.ol, cx.ops ++ e.start.toList, pre ++ e.next.toList ++ post⟩ ∧
      cx.held c = e.msgs.filterMap Msg.receipt ++
        Context.held c ⟨e.ol, cx.ops ++ e.start.toList, pre ++ e.next.toList ++ post⟩ := by
  by_cases hh : cb.holds c cx.ol = []
  · obtain ⟨hreceipts, hmsgs, hsound, hheld⟩ := h.run_silent hcbs hh hlater hreset hstep
    refine ⟨hreceipts, hsound, ?_⟩
    rw [hmsgs, hheld]
    rfl
  · exact h.run_carries hcbs hh hstep

end Run

end Context.Sound

/-! ## All contexts -/

/-- Context by context, what was received is what was posted and what is still held. -/
structure ReceiveAt (contexts : List Context) (received delivered : List Receipt) : Prop where
  received_lt : ∀ r ∈ received, r.povl < contexts.length
  delivered_lt : ∀ r ∈ delivered, r.povl < contexts.length
  sound : ∀ (c : Nat) (cx : Context), contexts[c]? = some cx → cx.Sound c
  held : ∀ (c : Nat) (cx : Context), contexts[c]? = some cx →
    ofContext c received = ofContext c delivered ++ cx.held c

namespace ReceiveAt

variable {contexts : List Context} {received delivered : List Receipt}

/-- A step of one context. -/
theorem set (h : ReceiveAt contexts received delivered) {c : Nat} {cx cx' : Context}
    (hc : contexts[c]? = some cx) (new posted : List Receipt) (hnew : ∀ r ∈ new, r.povl = c)
    (hposted : ∀ r ∈ posted, r.povl = c) (hsound : cx'.Sound c)
    (hheld : cx.held c ++ new = posted ++ cx'.held c) :
    ReceiveAt (contexts.set c cx') (received ++ new) (delivered ++ posted) := by
  have hlt := (List.getElem?_eq_some_iff.mp hc).1
  constructor
  · intro r hr
    rw [List.length_set]
    rcases List.mem_append.mp hr with hr | hr
    · exact h.received_lt r hr
    · rw [hnew r hr]
      exact hlt
  · intro r hr
    rw [List.length_set]
    rcases List.mem_append.mp hr with hr | hr
    · exact h.delivered_lt r hr
    · rw [hposted r hr]
      exact hlt
  · intro c' cx'' hcx''
    by_cases heq : c' = c
    · subst heq
      rw [List.getElem?_set_self hlt] at hcx''
      cases hcx''
      exact hsound
    · rw [List.getElem?_set_ne (Ne.symm heq)] at hcx''
      exact h.sound c' cx'' hcx''
  · intro c' cx'' hcx''
    rw [ofContext_append, ofContext_append]
    by_cases heq : c' = c
    · subst heq
      rw [List.getElem?_set_self hlt] at hcx''
      cases hcx''
      rw [ofContext_eq_self hnew, ofContext_eq_self hposted, h.held c' cx hc, List.append_assoc,
        List.append_assoc, hheld]
    · rw [List.getElem?_set_ne (Ne.symm heq)] at hcx''
      have hnone : ∀ l : List Receipt, (∀ r ∈ l, r.povl = c) → ofContext c' l = [] := by
        intro l hl
        refine ofContext_eq_nil fun r hr => ?_
        rw [hl r hr]
        exact Ne.symm heq
      rw [hnone new hnew, hnone posted hposted, List.append_nil, List.append_nil,
        h.held c' cx'' hcx'']

/-- A new context has received nothing. -/
theorem create (h : ReceiveAt contexts received delivered) {cx : Context}
    (hsound : cx.Sound contexts.length) (hheld : cx.held contexts.length = []) :
    ReceiveAt (contexts ++ [cx]) received delivered := by
  have hcases : ∀ c cx', (contexts ++ [cx])[c]? = some cx' →
      contexts[c]? = some cx' ∨ c = contexts.length ∧ cx' = cx := by
    intro c cx' hc
    by_cases hlt : c < contexts.length
    · rw [List.getElem?_append_left hlt] at hc
      exact .inl hc
    · have hle := (List.getElem?_eq_some_iff.mp hc).1
      rw [List.length_append, List.length_singleton] at hle
      obtain rfl : c = contexts.length := by omega
      rw [List.getElem?_concat_length] at hc
      exact .inr ⟨rfl, (Option.some.inj hc).symm⟩
  constructor
  · intro r hr
    rw [List.length_append]
    exact Nat.lt_add_right _ (h.received_lt r hr)
  · intro r hr
    rw [List.length_append]
    exact Nat.lt_add_right _ (h.delivered_lt r hr)
  · intro c cx' hc
    rcases hcases c cx' hc with hc | ⟨rfl, rfl⟩
    · exact h.sound c cx' hc
    · exact hsound
  · intro c cx' hc
    rcases hcases c cx' hc with hc | ⟨rfl, rfl⟩
    · exact h.held c cx' hc
    · rw [ofContext_eq_nil fun r hr => Nat.ne_of_lt (h.received_lt r hr),
        ofContext_eq_nil fun r hr => Nat.ne_of_lt (h.delivered_lt r hr), hheld]
      rfl

end ReceiveAt

/-! ## The steps of the server -/

def ReceiveInv (s : State) : Prop := ReceiveAt s.contexts s.received s.delivered

theorem iocpCreateClient_receive {s s' : State} {skServer : Nat} {timeout : Int} {a : CreateAnswer}
    (hi : ReceiveInv s) (h : iocpCreateClient s skServer timeout a = some s') : ReceiveInv s' := by
  rcases iocpCreateClient_eq h with ⟨rfl, -⟩ | ⟨client, a', -, -, -, rfl⟩
  · exact hi
  · have hops : ∀ op ∈ (Context.new skServer client timeout s.nextConn a').ops, op.ended = [] := by
      intro op hop
      unfold Context.new at hop
      dsimp only at hop
      split at hop
      · obtain rfl := List.mem_singleton.mp hop
        rfl
      · cases hop
    have hheld := (Context.held_eq_nil (c := s.contexts.length)).mpr ⟨hops, nofun⟩
    refine ReceiveAt.create hi ⟨?_, fun op hop hne => absurd (hops op hop) hne, nofun⟩ hheld
    rw [hheld]
    exact Nat.zero_le 1

theorem completeOp_receive {s s' : State} {c j : Nat} {r : Completion} (hi : ReceiveInv s)
    (hok : ReceivedWhole s (.complete c j r)) (h : completeOp s c j r = some s') : ReceiveInv s' := by
  obtain ⟨cx, op, cx', handles, hc, hop, hcx', -, rfl⟩ := completeOp_eq h
  obtain ⟨hsound, hheld⟩ := (hi.sound c cx hc).complete (hok cx hc) hop hcx'
  have hnew : ∀ x ∈ op.receipts c r, x.povl = c := by
    intro x hx
    unfold Op.receipts at hx
    split at hx
    · cases hx
    · obtain rfl := List.mem_singleton.mp hx
      rfl
  have hset := ReceiveAt.set hi hc (op.receipts c r) [] hnew nofun hsound hheld
  rw [List.append_nil] at hset
  exact hset

theorem deliverOp_receive {s s' : State} {c j lastError : Nat} (hi : ReceiveInv s)
    (hok : ReceivedWhole s (.deliver c j lastError)) (h : deliverOp s c j lastError = some s') :
    ReceiveInv s' := by
  obtain ⟨cx, cx', hc, hcx', rfl⟩ := deliverOp_eq h
  obtain ⟨hsound, hheld⟩ := (hi.sound c cx hc).deliver (hok cx hc) hcx'
  have hset := ReceiveAt.set hi hc [] [] nofun nofun hsound (by simp [hheld])
  rw [List.append_nil, List.append_nil] at hset
  exact hset

theorem runCallback_receive {s s' : State} {c i : Nat} {input : Input} (hi : ReceiveInv s)
    (hok : ReceivedWhole s (.run c i input)) (h : runCallback s c i input = some s') :
    ReceiveInv s' := by
  obtain ⟨cx, cx', e, hc, hr, hcase⟩ := runCallback_eq h
  obtain ⟨pre, cb, post, hcbs, hcb, hstep, rfl⟩ := Context.run_eq hr
  obtain ⟨hreceipts, hsound, hheld⟩ :=
    (hi.sound c cx hc).run hcbs hok.1 (hok.2 cx hc cb hcb) hstep
  have hposted : ∀ r ∈ e.msgs.filterMap Msg.receipt, r.povl = c := by
    intro r hr
    have hmem : r ∈ cx.held c := by
      rw [hheld]
      exact List.mem_append_left _ hr
    exact Context.povl_of_mem_held hmem
  have hafter : ReceiveInv (s.after c
      ⟨e.ol, cx.ops ++ e.start.toList, pre ++ e.next.toList ++ post⟩ e) := by
    have hset := ReceiveAt.set hi hc [] (e.msgs.filterMap Msg.receipt) nofun hposted hsound
      (by rw [List.append_nil, hheld])
    unfold ReceiveInv State.delivered State.after
    rw [Channel.posted_postAll, List.filterMap_append, hreceipts]
    exact hset
  rcases hcase with ⟨-, rfl⟩ | ⟨a, -, hcreate⟩
  · exact hafter
  · exact iocpCreateClient_receive hafter hcreate

theorem ReceiveInv.same {s s' : State} (hi : ReceiveInv s) (h : SameContexts s s') :
    ReceiveInv s' := by
  obtain ⟨rs, hposted⟩ := h.posted
  have hdelivered : s'.delivered = s.delivered := by
    have hnone : (rs.map Msg.onSend).filterMap Msg.receipt = [] := by
      simp [List.filterMap_eq_nil_iff, Msg.receipt]
    rw [State.delivered, hposted, List.filterMap_append, hnone, List.append_nil]
    rfl
  unfold ReceiveInv
  rw [h.contexts, h.received, hdelivered]
  exact hi

theorem reach_receive {cfg : Config} {s : State} (h : (server cfg).Reach ReceivedWhole s) :
    ReceiveInv s := by
  have hstart : ReceiveInv start := ⟨nofun, nofun, nofun, nofun⟩
  refine h.invariant hstart ?_
  intro s a s' _ hi hok hs
  cases stepOf hs with
  | complete ht => exact completeOp_receive hi hok ht
  | deliver ht => exact deliverOp_receive hi hok ht
  | run ht => exact runCallback_receive hi hok ht
  | main ht =>
    rcases main_contexts ht with ⟨hsame, -⟩ | ⟨i, a, t, -, -, -, hcreate, rfl⟩
    · exact hi.same hsame
    · have ht := iocpCreateClient_receive hi hcreate
      exact ht
  | pool ht => exact hi.same (pool_contexts ht).1

/-! ## The runs -/

/-- No completion of the context waits to be handled. -/
def Context.Quiet (cx : Context) : Prop :=
  cx.callbacks = [] ∧ ∀ op ∈ cx.ops, op.result = none

instance (cx : Context) : Decidable cx.Quiet := by
  unfold Context.Quiet
  infer_instance

theorem Context.Quiet.held {cx : Context} (h : cx.Quiet) (c : Nat) : cx.held c = [] := by
  obtain ⟨hcallbacks, hops⟩ := h
  refine Context.held_eq_nil.mpr ⟨fun op hop => ?_, by rw [hcallbacks]; exact nofun⟩
  simp [Op.ended, hops op hop]

/-- **Every receive is delivered.**  On each context the strings posted for
`onreceive` are, in order, the bytes of the receives that completed; at most one is
still missing, and none once the completions are handled; and `strlen` stays inside the
buffer. -/
theorem receives_delivered {cfg : Config} {s : State} (h : (server cfg).Reach ReceivedWhole s)
    {c : Nat} {cx : Context} (hc : s.contexts[c]? = some cx) :
    (∃ missing, ofContext c s.received = ofContext c s.delivered ++ missing ∧
      missing.length ≤ 1 ∧ (cx.Quiet → missing = [])) ∧
    ∀ cb ∈ cx.callbacks, cb.pc = .recvCopy → cx.ol.pBuf.Terminated := by
  have hi := reach_receive h
  have hsound := hi.sound c cx hc
  refine ⟨⟨cx.held c, hi.held c cx hc, hsound.one, fun hq => hq.held c⟩, ?_⟩
  intro cb hcb hpc
  have := hsound.callbacks cb hcb
  simpa only [Callback.SoundAt, hpc] using this

/-- As many bytes as `AcceptEx` has left, so that nothing of it is behind them. -/
def exampleData : List UInt8 := List.replicate addressBlocks 7

/-- The callback of a receive, from the dispatcher to the post of `WM_ONRECV`. -/
def onrecvActs : List Act := runActs [.go, .go, .clock 0, .go, .go]

theorem receives_delivered_once : ∃ s, (server ⟨1, 0, 100⟩).Reach ReceivedWhole s ∧
    ∃ cx ∈ s.contexts[0]?, ofContext 0 s.received = [⟨0, 0, exampleData⟩] ∧
      ofContext 0 s.delivered = ofContext 0 s.received := by
  obtain ⟨s, hr, cx, hcx, hq, hreceived⟩ := Machine.exists_reach (M := server ⟨1, 0, 100⟩)
    ReceivedWhole
    (p := fun s => ∃ cx ∈ s.contexts[0]?, cx.Quiet ∧
      ofContext 0 s.received = [⟨0, 0, exampleData⟩])
    (createActs 4 ++ connectActs 0 ++ completeActs 0 (.received exampleData) ++ onrecvActs)
    (by decide)
  obtain ⟨⟨missing, hall, -, hquiet⟩, -⟩ := receives_delivered hr hcx
  refine ⟨s, hr, cx, hcx, hreceived, ?_⟩
  rw [hall, hquiet hq, List.append_nil]

/-- A message with a NUL is cut; and a receive that completes at once is delivered, and
then delivered again as an empty message. -/
theorem receive_cut_or_repeated :
    (∃ s, (server ⟨1, 0, 100⟩).Reachable s ∧ (∀ cx ∈ s.contexts, cx.Quiet) ∧
      s.received = [⟨0, 0, [65, 0, 66]⟩] ∧ s.delivered = [⟨0, 0, [65]⟩]) ∧
    ∃ s, (server ⟨1, 0, 100⟩).Reachable s ∧ (∀ cx ∈ s.contexts, cx.Quiet) ∧
      s.received = [⟨0, 0, exampleData⟩] ∧ s.delivered = [⟨0, 0, exampleData⟩, ⟨0, 0, []⟩] :=
  ⟨Machine.exists_reachable (M := server ⟨1, 0, 100⟩)
      (p := fun s => (∀ cx ∈ s.contexts, cx.Quiet) ∧ s.received = [⟨0, 0, [65, 0, 66]⟩] ∧
        s.delivered = [⟨0, 0, [65]⟩])
      (createActs 4 ++ connectActs 0 ++ completeActs 0 (.received [65, 0, 66]) ++ onrecvActs)
      (by decide),
    Machine.exists_reachable (M := server ⟨1, 0, 100⟩)
      (p := fun s => (∀ cx ∈ s.contexts, cx.Quiet) ∧ s.received = [⟨0, 0, exampleData⟩] ∧
        s.delivered = [⟨0, 0, exampleData⟩, ⟨0, 0, []⟩])
      (createActs 4 ++ completeActs 0 (.accepted (List.replicate addressBlocks 1)) ++
        runActs onconnectInputs ++
        runActs [.go, .go, .recvDone exampleData, .clock 0, .go, .go] ++ [.deliver 0 0 0] ++
        onrecvActs)
      (by decide)⟩

end WingPhp.Iocp
