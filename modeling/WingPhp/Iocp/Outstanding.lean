import WingPhp.Iocp.Contexts

/-!
# How many operations are outstanding on an `m_ol`

An operation that ends hands its turn to the callback that is called for it, and a
callback that starts an operation gives the turn back (`armed`); so the operations
outstanding on a context and its callbacks that have not started one yet are
counted together (`Context.turns`).  There is one turn to a context as
long as a callback starts one operation and not two, and does not return without
having started any (`OneOperation`).

The code does both: after an accepted `WSAIoctl` on `m_ol` comes the `WSARecv`,
after an accepted `DisconnectEx` the `AcceptEx`; and a callback that has delivered
data returns without a new `WSARecv`.  In the runs without these,
`one_outstanding` is the invariant of the pool: between callbacks exactly one
operation, an `AcceptEx` on an idle context and a `WSARecv` on an online one.
-/

namespace WingPhp.Iocp

open Transition Sclient

/-- A callback that has started an operation starts no other, and a receive
completion is followed by `iocp_onclose`. -/
def OneOperation (cx : Context) (cb : Callback) (input : Input) : Prop :=
  (cb.armed = true → ¬ input.Starts) ∧
  (cb.pc = .opSwitch → cx.ol.iOpType = .recv → cb.bytesTrans = 0 ∧ cb.lastError ≠ wsaIoPending)

instance (cx : Context) (cb : Callback) (input : Input) : Decidable (OneOperation cx cb input) := by
  unfold OneOperation
  infer_instance

/-- `AcceptEx` in `iocp_create_client` does not fail with `WSAECONNRESET`, for which
the context would be kept without an operation. -/
def NotReset : CreateAnswer → Prop
  | .called _ a => a ≠ .error wsaeConnReset
  | .failed => True

instance (a : CreateAnswer) : Decidable (NotReset a) :=
  match a with
  | .called _ a => inferInstanceAs (Decidable (a ≠ .error wsaeConnReset))
  | .failed => .isTrue trivial

/-! ## The turns of a context -/

def Context.turns (cx : Context) : Nat :=
  cx.ops.length + cx.callbacks.countP fun cb => !cb.armed

/-- On its way into `iocp_onerror`, where it will retire the context: its next call
has to fail. -/
def Callback.Condemned (cb : Callback) : Prop :=
  match cb.pc with
  | .postConnect | .setRecv | .wsaRecv | .reset | .acceptEx => cb.armed = true
  | .cancel | .create | .retire => True
  | _ => False

/-- Where a callback has started an operation and where it has not. -/
def Callback.ArmedAt (cb : Callback) : Prop :=
  match cb.pc with
  | .recvCopy | .recvZero _ | .recvPost _ | .reset | .acceptEx => cb.armed = true
  | .postConnect | .setRecv | .wsaRecv | .cancel | .create | .retire => True
  | _ => cb.armed = false

/-- What is started, or has ended, agrees with what the context says. -/
def OpKind.Agrees (ol : IocpOverlapped) (kind : OpKind) : Prop :=
  kind = .accept ∧ ol.online = 0 ∧ ol.iOpType = .accept ∨
  kind = .recv ∧ ol.online = 1 ∧ ol.iOpType = .recv

def Callback.Agrees (ol : IocpOverlapped) (cb : Callback) : Prop :=
  match cb.pc with
  | .beat | .opSwitch => cb.kind.Agrees ol
  | .updateContext | .sndTimeo | .rcvTimeo | .linger | .getpeername | .keepAlive | .keepAliveVals
  | .postConnect | .setRecv => ol.online = 1
  | .wsaRecv => ol.online = 1 ∧ ol.iOpType = .recv
  | _ => True

structure Context.OneTurn (cx : Context) : Prop where
  armed : ∀ cb ∈ cx.callbacks, cb.ArmedAt
  turns_le : cx.turns ≤ 1
  turns_live : cx.ol.usenum = 1 → cx.turns = 1
  agrees : cx.ol.usenum = 1 → (∀ cb ∈ cx.callbacks, ¬ cb.Condemned) →
    (∀ op ∈ cx.ops, op.kind.Agrees cx.ol) ∧
    ∀ cb ∈ cx.callbacks, cb.armed = false → cb.Agrees cx.ol

/-! ## What a step does to the turn -/

structure Callback.TurnFacts (ol : IocpOverlapped) (cb : Callback) (e : Effect) : Prop where
  armed : ∀ cb', e.next = some cb' → cb'.ArmedAt
  returns : e.next = none → e.start.isSome = true ∨ cb.armed = true ∨ cb.pc = .retire
  condemned : cb.Condemned → cb.pc = .retire ∨ ∃ cb', e.next = some cb' ∧ cb'.Condemned
  quiet : cb.armed = true → ¬ cb.Condemned → e.ol.online = ol.online ∧ e.ol.iOpType = ol.iOpType
  agrees : cb.armed = false → ¬ cb.Condemned → cb.Agrees ol →
    (∀ cb', e.next = some cb' → ¬ cb'.Condemned) →
    (∀ op, e.start = some op → op.kind.Agrees e.ol) ∧
    ∀ cb', e.next = some cb' → cb'.armed = false → cb'.Agrees e.ol

section Turn

variable {povl nextConn : Nat} {ol : IocpOverlapped} {cb : Callback} {input : Input} {e : Effect}

theorem Callback.step_turn {ops : List Op} {cbs : List Callback} (hi : cb.ArmedAt)
    (hP : OneOperation ⟨ol, ops, cbs⟩ cb input) (h : cb.step povl nextConn ol input = some e) :
    cb.TurnFacts ol e := by
  obtain ⟨hone, hrecv⟩ := hP
  have hfree : input.Starts → cb.armed = false := fun hs => (Bool.not_eq_true _).mp fun ha => hone ha hs
  unfold Callback.ArmedAt at hi
  cases callbackStep h with
  | lost hpc | alive hpc | accepted hpc | online hpc | sndTimeo hpc | rcvTimeo hpc | linger hpc
  | getpeername hpc | peerError hpc | keepAlive hpc | postClose hpc =>
    simp only [hpc] at hi
    constructor <;>
      simp [hpc, hi, Callback.goto, Callback.noted, Callback.ArmedAt, Callback.Condemned, Callback.Agrees]
  | empty hpc htype | pending hpc htype | received hpc htype =>
    have hend := hrecv hpc htype
    simp only [hpc] at hi
    constructor <;> simp_all [Callback.goto, Callback.ArmedAt, Callback.Condemned, Callback.Agrees]
  | updateContext hpc =>
    simp only [hpc] at hi
    by_cases ht : 0 < ol.timeout
    · rw [if_pos ht]
      constructor <;>
        simp [hpc, hi, Callback.goto, Callback.noted, Callback.ArmedAt, Callback.Condemned, Callback.Agrees]
    · rw [if_neg ht]
      constructor <;>
        simp [hpc, hi, Callback.goto, Callback.noted, Callback.ArmedAt, Callback.Condemned, Callback.Agrees]
  | ioctl hpc hstarted | disconnect hpc hstarted =>
    simp only [hpc] at hi
    constructor <;>
      simp [hpc, hi, hstarted, Callback.goto, Callback.called, Callback.ArmedAt, Callback.Condemned]
  | ioctlFailed hpc hfailed | disconnectFailed hpc hfailed =>
    simp only [hpc] at hi
    constructor <;>
      simp [hpc, hi, hfailed, Callback.goto, Callback.called, Callback.ArmedAt, Callback.Condemned,
        Callback.Agrees]
  | postConnect hpc | setRecv hpc =>
    constructor <;>
      simp +contextual [hpc, Callback.goto, Callback.ArmedAt, Callback.Condemned, Callback.Agrees]
  | recvDone hpc =>
    have hunarmed := hfree trivial
    constructor <;>
      simp [hpc, hunarmed, Callback.goto, Callback.called, Completion.store, Callback.ArmedAt, Callback.Condemned,
        Callback.Agrees, OpKind.Agrees]
  | recvPending hpc hstarted | acceptEx hpc hstarted =>
    have hunarmed := hfree hstarted
    simp only [hpc] at hi
    constructor <;> simp_all [Callback.Condemned, Callback.Agrees, OpKind.Agrees]
  | recvCopy hpc | recvZero hpc | recvPost hpc | reset hpc =>
    simp only [hpc] at hi
    constructor <;> simp [hpc, hi, Callback.goto, Callback.ArmedAt, Callback.Condemned]
  | recvFailed hpc | acceptFailed hpc | cancel hpc | create hpc | retire hpc =>
    constructor <;> simp [hpc, Callback.goto, Callback.ArmedAt, Callback.Condemned]

end Turn

/-! ## Every step keeps the turn -/

/-- The turns of a context with one callback set apart. -/
theorem turns_split (ol : IocpOverlapped) (ops : List Op) (pre post : List Callback)
    (cb : Callback) :
    Context.turns ⟨ol, ops, pre ++ cb :: post⟩ =
      ops.length + (pre ++ post).countP (fun cb => !cb.armed) + (if cb.armed then 0 else 1) := by
  cases hc : cb.armed
  · simp [Context.turns, List.countP_append, hc]
    omega
  · simp [Context.turns, List.countP_append, hc]

theorem turns_after (ol : IocpOverlapped) (ops : List Op) (start : Option Op)
    (pre post : List Callback) (next : Option Callback) :
    Context.turns ⟨ol, ops ++ start.toList, pre ++ next.toList ++ post⟩ =
      ops.length + (pre ++ post).countP (fun cb => !cb.armed) + (if start.isSome then 1 else 0) +
        match next with
        | some cb => if cb.armed then 0 else 1
        | none => 0 := by
  cases next with
  | none =>
    cases start
    · simp [Context.turns, List.countP_append]
    · simp [Context.turns, List.countP_append]
      omega
  | some cb =>
    cases hc : cb.armed <;> cases start <;> simp [Context.turns, List.countP_append, hc] <;> omega

/-- Agreement looks at two fields. -/
theorem OpKind.Agrees.congr {ol ol' : IocpOverlapped} {kind : OpKind} (h : kind.Agrees ol)
    (ho : ol'.online = ol.online) (ht : ol'.iOpType = ol.iOpType) : kind.Agrees ol' := by
  unfold OpKind.Agrees at h ⊢
  rw [ho, ht]
  exact h

theorem Callback.Agrees.congr {ol ol' : IocpOverlapped} {cb : Callback} (h : cb.Agrees ol)
    (ho : ol'.online = ol.online) (ht : ol'.iOpType = ol.iOpType) : cb.Agrees ol' := by
  unfold Callback.Agrees at h ⊢
  unfold OpKind.Agrees at h ⊢
  rw [ho, ht]
  exact h

section Run

variable {povl nextConn : Nat} {cx : Context} {pre post : List Callback} {cb : Callback}
  {input : Input} {e : Effect}

/-- A callback of a context that is live after the step has not retired it. -/
theorem Callback.StepFacts.not_retire {ol : IocpOverlapped} (h : cb.StepFacts ol input e)
    (hlive : e.ol.usenum = 1) : cb.pc ≠ .retire := by
  intro hret
  have hzero := (h.retired hret).1
  rw [hlive] at hzero
  cases hzero

/-- The step that starts an operation is of a callback that has the turn. -/
theorem OneOperation.unarmed (hP : OneOperation cx cb input) (hfacts : cb.StepFacts cx.ol input e)
    (hs : e.start.isSome = true) : cb.armed = false := by
  by_contra harmed
  exact hP.1 (by simpa using harmed) (hfacts.start_input hs)

/-- The turn is handed on; it is lost only when the context is retired. -/
theorem Context.turns_run (hcbs : cx.callbacks = pre ++ cb :: post) (hP : OneOperation cx cb input)
    (hfacts : cb.StepFacts cx.ol input e) (hturn : cb.TurnFacts cx.ol e) :
    Context.turns ⟨e.ol, cx.ops ++ e.start.toList, pre ++ e.next.toList ++ post⟩ = cx.turns ∨
      cb.pc = .retire ∧
        Context.turns ⟨e.ol, cx.ops ++ e.start.toList, pre ++ e.next.toList ++ post⟩ ≤ cx.turns := by
  have hbefore : cx.turns =
      cx.ops.length + (pre ++ post).countP (fun cb => !cb.armed) + (if cb.armed then 0 else 1) := by
    rw [← turns_split cx.ol, ← hcbs]
  have hstart := hP.unarmed hfacts
  rw [turns_after, hbefore]
  cases hnext : e.next with
  | some cb' =>
    left
    have harmed := (hfacts.ghosts cb' hnext).2.2
    cases hs : e.start.isSome with
    | false => simp [harmed, hs]
    | true => simp [harmed, hs, hstart hs]
  | none =>
    cases hs : e.start.isSome with
    | true =>
      left
      simp [hstart hs]
    | false =>
      rcases hturn.returns hnext with hs' | harmed | hret
      · rw [hs] at hs'
        cases hs'
      · left
        simp [harmed]
      · right
        exact ⟨hret, by simp⟩

/-- A callback that has passed the turn on leaves the two fields alone. -/
theorem Context.OneTurn.agrees_armed (hcbs : cx.callbacks = pre ++ cb :: post)
    (hP : OneOperation cx cb input) (hfacts : cb.StepFacts cx.ol input e)
    (hturn : cb.TurnFacts cx.ol e) (harmed : cb.armed = true) (hcond : ¬ cb.Condemned)
    (hops : ∀ op ∈ cx.ops, op.kind.Agrees cx.ol)
    (hcallbacks : ∀ cb ∈ cx.callbacks, cb.armed = false → cb.Agrees cx.ol) :
    (∀ op ∈ cx.ops ++ e.start.toList, op.kind.Agrees e.ol) ∧
      ∀ cb' ∈ pre ++ e.next.toList ++ post, cb'.armed = false → cb'.Agrees e.ol := by
  obtain ⟨ho, ht⟩ := hturn.quiet harmed hcond
  have hs : e.start = none := by
    by_contra hne
    have hfalse := hP.unarmed hfacts (Option.isSome_iff_ne_none.mpr hne)
    rw [harmed] at hfalse
    cases hfalse
  refine ⟨?_, ?_⟩
  · intro op hop
    rw [hs] at hop
    exact (hops op (by simpa using hop)).congr ho ht
  · intro cb' hcb' ha
    rcases Position.mem_replaced hcb' with hcb' | hcb'
    · exact (hcallbacks cb' (Position.mem_of_others hcbs hcb') ha).congr ho ht
    · have hkept := (hfacts.ghosts cb' hcb').2.2
      rw [harmed, ha] at hkept
      cases hkept

/-- A callback that has the turn has the context to itself: nothing is outstanding and
no other callback has one. -/
theorem Context.OneTurn.agrees_turn (hcbs : cx.callbacks = pre ++ cb :: post)
    (hturn : cb.TurnFacts cx.ol e) (harmed : cb.armed = false) (hcond : ¬ cb.Condemned)
    (hone : cx.turns = 1) (hagree : cb.Agrees cx.ol)
    (hnext : ∀ cb', e.next = some cb' → ¬ cb'.Condemned) :
    (∀ op ∈ cx.ops ++ e.start.toList, op.kind.Agrees e.ol) ∧
      ∀ cb' ∈ pre ++ e.next.toList ++ post, cb'.armed = false → cb'.Agrees e.ol := by
  have hbefore : cx.turns =
      cx.ops.length + (pre ++ post).countP (fun cb => !cb.armed) + (if cb.armed then 0 else 1) := by
    rw [← turns_split cx.ol, ← hcbs]
  rw [if_neg (by simp [harmed])] at hbefore
  have hidle : cx.ops = [] := List.eq_nil_of_length_eq_zero (by omega)
  have hothers : (pre ++ post).countP (fun cb => !cb.armed) = 0 := by omega
  obtain ⟨hs, hn⟩ := hturn.agrees harmed hcond hagree hnext
  refine ⟨?_, ?_⟩
  · intro op hop
    rw [hidle, List.nil_append, Option.mem_toList] at hop
    exact hs op hop
  · intro cb' hcb' ha
    rcases Position.mem_replaced hcb' with hcb' | hcb'
    · have := List.countP_eq_zero.mp hothers cb' hcb'
      simp [ha] at this
    · exact hn cb' hcb' ha

theorem Context.OneTurn.run (hi : cx.OneTurn) (hcbs : cx.callbacks = pre ++ cb :: post)
    (hP : OneOperation cx cb input) (h : cb.step povl nextConn cx.ol input = some e) :
    Context.OneTurn ⟨e.ol, cx.ops ++ e.start.toList, pre ++ e.next.toList ++ post⟩ := by
  have hmem : cb ∈ cx.callbacks := by simp [hcbs]
  have hfacts := Callback.step_facts h
  have hturn := Callback.step_turn (hi.armed cb hmem) hP h
  have hcount := Context.turns_run hcbs hP hfacts hturn
  have hle := hi.turns_le
  constructor
  · intro cb' hcb'
    rcases Position.mem_replaced hcb' with hcb' | hnext
    · exact hi.armed cb' (Position.mem_of_others hcbs hcb')
    · exact hturn.armed cb' hnext
  · rcases hcount with heq | ⟨-, hle'⟩ <;> omega
  · intro hlive
    have hpc := hfacts.not_retire hlive
    rcases hcount with heq | ⟨hret, -⟩
    · rw [heq]
      exact hi.turns_live (hfacts.usenum hpc ▸ hlive)
    · exact absurd hret hpc
  · intro hlive hnone
    have hpc := hfacts.not_retire hlive
    have hlive' : cx.ol.usenum = 1 := hfacts.usenum hpc ▸ hlive
    have hnext : ∀ cb', e.next = some cb' → ¬ cb'.Condemned := by
      intro cb' hcb'
      exact hnone cb' (by simp [hcb'])
    have hcond : ¬ cb.Condemned := by
      intro hc
      rcases hturn.condemned hc with hret | ⟨cb', hcb', hc'⟩
      · exact hpc hret
      · exact hnext cb' hcb' hc'
    have hbefore : ∀ cb' ∈ cx.callbacks, ¬ cb'.Condemned := by
      intro cb' hcb'
      rw [hcbs, List.mem_append, List.mem_cons] at hcb'
      rcases hcb' with hcb' | rfl | hcb'
      · exact hnone cb' (by simp [hcb'])
      · exact hcond
      · exact hnone cb' (by simp [hcb'])
    obtain ⟨hops, hcallbacks⟩ := hi.agrees hlive' hbefore
    cases harmed : cb.armed with
    | true => exact agrees_armed hcbs hP hfacts hturn harmed hcond hops hcallbacks
    | false =>
      exact agrees_turn hcbs hturn harmed hcond (hi.turns_live hlive')
        (hcallbacks cb hmem harmed) hnext

end Run

theorem Context.OneTurn.complete {cx cx' : Context} {j : Nat} {r : Completion} (hi : cx.OneTurn)
    (h : cx.complete j r = some cx') : cx'.OneTurn := by
  obtain ⟨pre, kind, conn, post, hops, -, -, rfl⟩ := Context.complete_eq h
  have hturns : Context.turns ⟨r.store cx.ol, pre ++ ⟨kind, conn, some r⟩ :: post, cx.callbacks⟩ =
      cx.turns := by
    simp [Context.turns, hops]
  have hstore : (r.store cx.ol).usenum = cx.ol.usenum ∧ (r.store cx.ol).online = cx.ol.online ∧
      (r.store cx.ol).iOpType = cx.ol.iOpType := by
    cases r <;> exact ⟨rfl, rfl, rfl⟩
  obtain ⟨husenum, honline, htype⟩ := hstore
  constructor
  · exact hi.armed
  · rw [hturns]
    exact hi.turns_le
  · intro hlive
    rw [hturns]
    exact hi.turns_live (husenum ▸ hlive)
  · intro hlive hnone
    obtain ⟨hagree, hcallbacks⟩ := hi.agrees (husenum ▸ hlive) hnone
    refine ⟨?_, fun cb hcb ha => (hcallbacks cb hcb ha).congr honline htype⟩
    intro op hop
    rw [List.mem_append, List.mem_cons] at hop
    rcases hop with hop | rfl | hop
    · exact (hagree op (by simp [hops, hop])).congr honline htype
    · have hkind : OpKind.Agrees cx.ol kind := hagree ⟨kind, conn, none⟩ (by simp [hops])
      exact hkind.congr honline htype
    · exact (hagree op (by simp [hops, hop])).congr honline htype

theorem Context.OneTurn.deliver {cx cx' : Context} {j lastError : Nat} (hi : cx.OneTurn)
    (h : cx.deliver j lastError = some cx') : cx'.OneTurn := by
  obtain ⟨pre, kind, conn, r, post, hops, -, rfl⟩ := Context.deliver_eq h
  -- the turn of the operation is now its callback's
  have hturns : Context.turns
      ⟨cx.ol, pre ++ post, cx.callbacks ++ [Op.callback kind conn r lastError]⟩ = cx.turns := by
    simp only [Context.turns, hops, Op.callback, List.length_append, List.length_cons,
      List.countP_append, List.countP_singleton]
    simp
    omega
  constructor
  · intro cb hcb
    rcases List.mem_append.mp hcb with hcb | hcb
    · exact hi.armed cb hcb
    · obtain rfl := List.mem_singleton.mp hcb
      exact rfl
  · rw [hturns]
    exact hi.turns_le
  · intro hlive
    rw [hturns]
    exact hi.turns_live hlive
  · intro hlive hnone
    obtain ⟨hagree, hcallbacks⟩ := hi.agrees hlive fun cb hcb =>
      hnone cb (List.mem_append_left _ hcb)
    refine ⟨fun op hop => hagree op ?_, ?_⟩
    · exact Position.mem_of_others hops hop
    · intro cb hcb ha
      rcases List.mem_append.mp hcb with hcb | hcb
      · exact hcallbacks cb hcb ha
      · obtain rfl := List.mem_singleton.mp hcb
        exact hagree ⟨kind, conn, some r⟩ (by simp [hops])

theorem Context.OneTurn.new {skServer client : Nat} {timeout : Int} {n : Nat} {a : CallAnswer}
    (hkept : a.Kept) (hreset : NotReset (.called client a)) :
    (Context.new skServer client timeout n a).OneTurn := by
  have hstarted : a.Started := hkept.resolve_right hreset
  have hnew : Context.new skServer client timeout n a =
      ⟨.new skServer client timeout, [⟨.accept, n, none⟩], []⟩ := by
    simp [Context.new, hstarted]
  rw [hnew]
  refine ⟨nofun, Nat.le_refl 1, fun _ => rfl, fun _ _ => ⟨?_, nofun⟩⟩
  intro op hop
  obtain rfl := List.mem_singleton.mp hop
  exact .inl ⟨rfl, rfl, rfl⟩

/-! ## Between callbacks -/

/-- Exactly one operation: an `AcceptEx` while idle, a `WSARecv` while online, a
`DisconnectEx` while being recycled. -/
def Context.OneOutstanding (cx : Context) : Prop :=
  ∃ op, cx.ops = [op] ∧
    (op.kind = .accept ∧ cx.ol.online = 0 ∨ op.kind = .recv ∧ cx.ol.online = 1 ∨
      op.kind = .disconnect ∧ cx.ol.online = 0)

/-- The runs in which every callback starts one operation, and contexts are created
with one. -/
def OneEach (s : State) (a : Act) : Prop := OnCallback OneOperation s a ∧ OnCreate NotReset a

instance (s : State) (a : Act) : Decidable (OneEach s a) := by
  unfold OneEach
  infer_instance

theorem reach_oneTurn {cfg : Config} {s : State} (h : (server cfg).Reach OneEach s) :
    ∀ cx ∈ s.contexts, cx.OneTurn := by
  refine contexts_invariant (P := OneOperation) (Q := NotReset) (I := Context.OneTurn)
    ?_ ?_ ?_ ?_ ?_ h
  · exact fun hkept hreset => Context.OneTurn.new hkept hreset
  · exact fun hi hs => hi.complete hs
  · exact fun hi hs => hi.deliver hs
  · exact fun hi hcbs hP hs => hi.run hcbs hP hs
  · exact fun _ _ ha => ha

/-- **One operation.**  On a context never two operations are outstanding; on one that
has not been retired there is exactly one between callbacks. -/
theorem one_outstanding {cfg : Config} {s : State} (h : (server cfg).Reach OneEach s) {cx : Context}
    (hcx : cx ∈ s.contexts) :
    cx.ops.length ≤ 1 ∧
    (cx.ol.usenum = 1 → cx.callbacks = [] → cx.OneOutstanding) := by
  have hi := reach_oneTurn h cx hcx
  refine ⟨?_, fun hlive hnone => ?_⟩
  · have := hi.turns_le
    unfold Context.turns at this
    omega
  · have hone := hi.turns_live hlive
    simp only [Context.turns, hnone, List.countP_nil, Nat.add_zero] at hone
    obtain ⟨op, hop⟩ := List.length_eq_one_iff.mp hone
    refine ⟨op, hop, ?_⟩
    obtain ⟨hagree, -⟩ := hi.agrees hlive (by rw [hnone]; exact nofun)
    rcases hagree op (by simp [hop]) with ⟨hk, ho, -⟩ | ⟨hk, ho, -⟩
    · exact .inl ⟨hk, ho⟩
    · exact .inr (.inl ⟨hk, ho⟩)

/-- A connection waiting for its first data. -/
theorem one_outstanding_connected :
    ∃ s, (server ⟨1, 0, 100⟩).Reach OneEach s ∧ ∃ cx ∈ s.contexts, cx.ol.online = 1 ∧
      cx.ops.length ≤ 1 ∧ cx.OneOutstanding := by
  obtain ⟨s, hr, cx, hcx, hlive, honline, hnone⟩ := Machine.exists_reach (M := server ⟨1, 0, 100⟩)
    OneEach
    (p := fun s => ∃ cx ∈ s.contexts, cx.ol.usenum = 1 ∧ cx.ol.online = 1 ∧ cx.callbacks = [])
    (createActs 4 ++ connectActs 0) (by decide)
  have hone := one_outstanding hr hcx
  exact ⟨s, hr, cx, hcx, honline, hone.1, hone.2 hlive hnone⟩

/-- After its first data an online connection has nothing outstanding. -/
theorem none_outstanding_after_data :
    ¬ ∀ (cfg : Config) (s : State), (server cfg).Reachable s → ∀ cx ∈ s.contexts,
      cx.ops.length ≤ 1 ∧
      (cx.ol.usenum = 1 → cx.callbacks = [] → cx.OneOutstanding) := by
  intro hall
  obtain ⟨s, hr, cx, hcx, hlive, hnone, hops⟩ := Machine.exists_reachable (M := server ⟨1, 0, 100⟩)
    (p := fun s => ∃ cx ∈ s.contexts, cx.ol.usenum = 1 ∧ cx.callbacks = [] ∧ cx.ops = [])
    (createActs 4 ++ connectActs 0 ++ completeActs 0 (.received [65]) ++
      runActs [.go, .go, .clock 0, .go, .go]) (by decide)
  obtain ⟨op, hop, -⟩ := (hall _ s hr cx hcx).2 hlive hnone
  rw [hops] at hop
  cases hop

end WingPhp.Iocp
