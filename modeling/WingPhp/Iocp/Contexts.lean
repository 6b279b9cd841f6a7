import WingPhp.Iocp.Server
import WingPhp.Iocp.Steps
import WingPhp.Lib.Position

/-!
# Steps of the server, context by context

What each step does, said once: the three steps of a context with the lists split
at the operation or callback they are about (`complete_eq`, `deliver_eq`,
`run_eq`), the steps of the server from them, and the run rule that takes an
invariant of one context to all contexts of every reachable state
(`contexts_invariant`).  Contexts share nothing, so an invariant of the pool needs
no more than that.
-/

namespace WingPhp.Iocp

open Transition Sclient

/-! ## One context -/

/-- The callback that is called for an ended operation. -/
def Op.callback (kind : OpKind) (conn : Nat) (r : Completion) (lastError : Nat) : Callback :=
  ⟨kind, conn, r.errorCode, r.bytesTrans, lastError, false, .beat⟩

theorem Context.complete_eq {cx cx' : Context} {j : Nat} {r : Completion}
    (h : cx.complete j r = some cx') :
    ∃ pre kind conn post, cx.ops = pre ++ ⟨kind, conn, none⟩ :: post ∧
      cx.ops[j]? = some ⟨kind, conn, none⟩ ∧ r.Allowed cx.ol kind ∧
      cx' = { cx with ol := r.store cx.ol, ops := pre ++ ⟨kind, conn, some r⟩ :: post } := by
  unfold Context.complete at h
  split at h
  · next kind conn hj =>
    split at h
    · next hr =>
      obtain ⟨pre, post, hops, -, hset, -⟩ := Position.split_at hj
      cases h
      exact ⟨pre, kind, conn, post, hops, hj, hr, by rw [hset]⟩
    · cases h
  · cases h

theorem Context.deliver_eq {cx cx' : Context} {j lastError : Nat}
    (h : cx.deliver j lastError = some cx') :
    ∃ pre kind conn r post, cx.ops = pre ++ ⟨kind, conn, some r⟩ :: post ∧
      cx.ops[j]? = some ⟨kind, conn, some r⟩ ∧
      cx' = { cx with
        ops := pre ++ post, callbacks := cx.callbacks ++ [Op.callback kind conn r lastError] } := by
  unfold Context.deliver at h
  split at h
  · next kind conn r hj =>
    obtain ⟨pre, post, hops, -, -, herase⟩ := Position.split_at hj
    cases h
    exact ⟨pre, kind, conn, r, post, hops, hj, by rw [herase]; rfl⟩
  · cases h

theorem Context.run_eq {povl nextConn i : Nat} {cx cx' : Context} {input : Input} {e : Effect}
    (h : cx.run povl nextConn i input = some (cx', e)) :
    ∃ pre cb post, cx.callbacks = pre ++ cb :: post ∧ cx.callbacks[i]? = some cb ∧
      cb.step povl nextConn cx.ol input = some e ∧
      cx' = ⟨e.ol, cx.ops ++ e.start.toList, pre ++ e.next.toList ++ post⟩ := by
  unfold Context.run at h
  split at h
  · next cb hi =>
    split at h
    · next e' hstep =>
      obtain ⟨pre, post, hcbs, -, hset, herase⟩ := Position.split_at hi
      cases h
      refine ⟨pre, cb, post, hcbs, hi, hstep, ?_⟩
      congr 1
      split
      · next cb' hnext => simp [hnext, hset]
      · next hnext => simp [hnext, herase]
    · cases h
  · cases h

/-! ## The server -/

theorem iocpCreateClient_eq {s s' : State} {skServer : Nat} {timeout : Int} {a : CreateAnswer}
    (h : iocpCreateClient s skServer timeout a = some s') :
    (s' = s ∧ ∀ client a', a = .called client a' → ¬ a'.Kept) ∨
    ∃ client a', a = .called client a' ∧ a'.Kept ∧ s.handles client = none ∧
      s' = { s with
        contexts := s.contexts ++ [.new skServer client timeout s.nextConn a']
        socketMap := (client, s.contexts.length) :: s.socketMap
        nextConn := s.nextConn + 1
        log := s.log ++ (if a'.Started then [(s.contexts.length, .acceptEx)] else []) } := by
  unfold iocpCreateClient at h
  split at h
  · cases h
    exact .inl ⟨rfl, nofun⟩
  · next client a' =>
    split at h
    · next hfree =>
      split at h
      · next hkept =>
        cases h
        exact .inr ⟨client, a', rfl, hkept, hfree.2.2.1, rfl⟩
      · next hkept =>
        cases h
        refine .inl ⟨rfl, ?_⟩
        rintro _ _ ⟨⟩
        exact hkept
    · cases h

theorem completeOp_eq {s s' : State} {c j : Nat} {r : Completion} (h : completeOp s c j r = some s') :
    ∃ cx op cx' handles, s.contexts[c]? = some cx ∧ cx.ops[j]? = some op ∧
      cx.complete j r = some cx' ∧ op.handlesAfter s.handles cx.ol.skClient r = some handles ∧
      s' = { s with
        contexts := s.contexts.set c cx'
        handles := handles
        received := s.received ++ op.receipts c r } := by
  unfold completeOp at h
  split at h
  · next cx hc =>
    split at h
    · next op cx' hop hcx' =>
      split at h
      · next handles hh =>
        cases h
        exact ⟨cx, op, cx', handles, hc, hop, hcx', hh, rfl⟩
      · cases h
    · cases h
  · cases h

theorem deliverOp_eq {s s' : State} {c j lastError : Nat} (h : deliverOp s c j lastError = some s') :
    ∃ cx cx', s.contexts[c]? = some cx ∧ cx.deliver j lastError = some cx' ∧
      s' = { s with contexts := s.contexts.set c cx' } := by
  unfold deliverOp at h
  split at h
  · next cx hc =>
    split at h
    · next cx' hcx' =>
      cases h
      exact ⟨cx, cx', hc, hcx', rfl⟩
    · cases h
  · cases h

theorem runCallback_eq {s s' : State} {c i : Nat} {input : Input}
    (h : runCallback s c i input = some s') :
    ∃ cx cx' e, s.contexts[c]? = some cx ∧ cx.run c s.nextConn i input = some (cx', e) ∧
      (e.create = none ∧ s' = s.after c cx' e ∨
        ∃ a, e.create = some a ∧
          iocpCreateClient (s.after c cx' e) cx'.ol.skServer cx'.ol.timeout a = some s') := by
  unfold runCallback at h
  split at h
  · next cx hc =>
    split at h
    · next cx' e hrun =>
      split at h
      · next a ha => exact ⟨cx, cx', e, hc, hrun, .inr ⟨a, ha, h⟩⟩
      · next ha => exact ⟨cx, cx', e, hc, hrun, .inl ⟨ha, (Option.some.inj h).symm⟩⟩
    · cases h
  · cases h

/-! ## What every step of a callback keeps -/

section Callback

variable {povl nextConn : Nat} {ol : IocpOverlapped} {cb : Callback} {input : Input} {e : Effect}

/-- A callback calls `iocp_create_client` at one place only. -/
theorem Callback.step_create (h : cb.step povl nextConn ol input = some e) :
    (∀ a, e.create = some a → cb.pc = .create ∧ input = .create a) ∧
    (cb.pc = .create → e.create.isSome) := by
  cases callbackStep h with
  | create hpc =>
    refine ⟨?_, fun _ => rfl⟩
    rintro _ ⟨⟩
    exact ⟨hpc, rfl⟩
  | _ hpc =>
    refine ⟨nofun, fun hcreate => ?_⟩
    rw [hpc] at hcreate
    cases hcreate

/-- The call of this step starts an operation. -/
def Input.Starts : Input → Prop
  | .call a => a.Started
  | .recvDone _ => True
  | _ => False

instance (input : Input) : Decidable input.Starts :=
  match input with
  | .call a => inferInstanceAs (Decidable a.Started)
  | .recvDone _ => .isTrue trivial
  | .go | .clock _ | .ret _ | .peer _ | .create _ => .isFalse id

/-- The ghosts of a callback say what they are meant to say, and only the last
statement of `iocp_onerror` touches `m_usenum`. -/
structure Callback.StepFacts (ol : IocpOverlapped) (cb : Callback) (input : Input) (e : Effect) :
    Prop where
  ghosts : ∀ cb', e.next = some cb' →
    cb'.kind = cb.kind ∧ cb'.conn = cb.conn ∧ cb'.armed = (cb.armed || e.start.isSome)
  start_input : e.start.isSome = true → input.Starts
  retires_iff : e.retires = true ↔ cb.pc = .retire
  retired : cb.pc = .retire → e.ol.usenum = 0 ∧ e.next = none ∧ e.start = none ∧ e.create = none
  usenum : cb.pc ≠ .retire → e.ol.usenum = ol.usenum
  skClient : e.ol.skClient = ol.skClient

theorem Callback.step_facts (h : cb.step povl nextConn ol input = some e) :
    cb.StepFacts ol input e := by
  cases callbackStep h with
  | retire hpc =>
    constructor <;> simp [hpc]
  | ioctl hpc hstarted | disconnect hpc hstarted =>
    constructor <;> simp [hpc, Callback.goto, Callback.called, Input.Starts, hstarted]
  | ioctlFailed hpc hfailed | disconnectFailed hpc hfailed | recvFailed hpc hfailed
  | acceptFailed hpc hfailed =>
    constructor <;> simp [hpc, Callback.goto, Callback.called, hfailed]
  | recvDone hpc =>
    constructor <;> simp [hpc, Callback.goto, Callback.called, Completion.store, Input.Starts]
  | recvPending hpc hstarted | acceptEx hpc hstarted =>
    constructor <;> simp [hpc, Input.Starts, hstarted]
  | _ hpc =>
    constructor <;> simp [hpc, Callback.goto, Callback.noted]

end Callback

/-! ## The steps of the server and their contexts -/

/-- The threads a step can be of. -/
inductive StepOf (cfg : Config) (s s' : State) : Act → Prop
  | complete {c j : Nat} {r : Completion} : completeOp s c j r = some s' →
    StepOf cfg s s' (.complete c j r)
  | deliver {c j lastError : Nat} : deliverOp s c j lastError = some s' →
    StepOf cfg s s' (.deliver c j lastError)
  | run {c i : Nat} {input : Input} : runCallback s c i input = some s' →
    StepOf cfg s s' (.run c i input)
  | main {input : MainInput} : wingServerStart cfg s input = some s' → StepOf cfg s s' (.main input)
  | pool {k : Nat} {input : PoolInput} : sendThread s k input = some s' →
    StepOf cfg s s' (.pool k input)

theorem stepOf {cfg : Config} {s s' : State} {a : Act} (h : step cfg s a = some s') :
    StepOf cfg s s' a := by
  cases a with
  | complete c j r => exact .complete h
  | deliver c j lastError => exact .deliver h
  | run c i input => exact .run h
  | main input => exact .main h
  | pool k input => exact .pool h

/-- A condition on the steps of callbacks. -/
def OnCallback (P : Context → Callback → Input → Prop) (s : State) : Act → Prop
  | .run c i input =>
    match s.contexts[c]? with
    | some cx =>
      match cx.callbacks[i]? with
      | some cb => P cx cb input
      | none => True
    | none => True
  | _ => True

/-- A condition on what the calls of `iocp_create_client` meet. -/
def OnCreate (Q : CreateAnswer → Prop) : Act → Prop
  | .run _ _ (.create a) => Q a
  | .main (.create a) => Q a
  | _ => True

instance (P : Context → Callback → Input → Prop) [∀ cx cb input, Decidable (P cx cb input)]
    (s : State) (a : Act) : Decidable (OnCallback P s a) := by
  unfold OnCallback
  split
  · split
    · split <;> infer_instance
    · infer_instance
  · infer_instance

instance (Q : CreateAnswer → Prop) [DecidablePred Q] (a : Act) : Decidable (OnCreate Q a) := by
  unfold OnCreate
  split <;> infer_instance

/-- No context has changed, and nothing but `WM_ONSEND` was posted. -/
structure SameContexts (s s' : State) : Prop where
  contexts : s'.contexts = s.contexts
  log : s'.log = s.log
  received : s'.received = s.received
  posted : ∃ rs : List SendReport, s'.queue.posted = s.queue.posted ++ rs.map .onSend

/-- The steps of the main thread other than the creation loop leave the contexts
alone. -/
theorem main_contexts {cfg : Config} {s s' : State} {input : MainInput}
    (h : wingServerStart cfg s input = some s') :
    (SameContexts s s' ∧ (∀ i, s'.mainPc ≠ .create i) ∧
      ∀ i, s.mainPc = .create i → cfg.maxConnect.toInt ≤ i) ∨
    ∃ i a t, s.mainPc = .create i ∧ input = .create a ∧ (i : Int) < cfg.maxConnect.toInt ∧
      iocpCreateClient s cfg.skServer cfg.timeout.toInt a = some t ∧
      s' = { t with mainPc := .create (i + 1) } := by
  unfold wingServerStart at h
  split at h
  · next i a hpc =>
    split at h
    · next hlt =>
      split at h
      · next t ht =>
        cases h
        exact .inr ⟨i, a, t, hpc, rfl, hlt, ht, rfl⟩
      · cases h
    · cases h
  · next i hpc =>
    split at h
    · cases h
    · next hge =>
      cases h
      refine .inl ⟨⟨rfl, rfl, rfl, [], by simp⟩, nofun, fun j hj => ?_⟩
      cases hpc.symm.trans hj
      omega
  · next hpc =>
    split at h
    · next m q hpop =>
      cases h
      refine .inl ⟨⟨rfl, rfl, rfl, [], ?_⟩, nofun, fun j hj => by cases hpc.symm.trans hj⟩
      simpa using Channel.posted_pop hpop
    · cases h
  · next m hpc =>
    left
    split at h <;> cases h
    · exact ⟨⟨rfl, rfl, rfl, [], by simp⟩, nofun, fun j hj => by cases hpc.symm.trans hj⟩
    · exact ⟨⟨rfl, rfl, rfl, [], by simp⟩, nofun, fun j hj => by cases hpc.symm.trans hj⟩
  · next m object msg queued hpc =>
    split at h
    · next client _ =>
      cases h
      refine .inl ⟨⟨rfl, rfl, rfl, (sclientSend s.pool client msg queued).2.2.toList, ?_⟩, ?_, ?_⟩
      · cases (sclientSend s.pool client msg queued).2.2 <;> simp
      · intro j hj
        cases hpc.symm.trans hj
      · intro j hj
        cases hpc.symm.trans hj
    · cases h
  · next m hpc =>
    cases h
    exact .inl ⟨⟨rfl, rfl, rfl, [], by simp⟩, nofun, fun j hj => by cases hpc.symm.trans hj⟩
  · cases h

theorem pool_contexts {s s' : State} {k : Nat} {input : PoolInput}
    (h : sendThread s k input = some s') : SameContexts s s' ∧ s'.mainPc = s.mainPc := by
  unfold sendThread at h
  split at h
  · split at h <;> cases h
    exact ⟨⟨rfl, rfl, rfl, [], by simp⟩, rfl⟩
  · split at h
    · next pool r _ =>
      cases h
      exact ⟨⟨rfl, rfl, rfl, [r], by simp⟩, rfl⟩
    · cases h

section Invariant

variable {P : Context → Callback → Input → Prop} {Q : CreateAnswer → Prop} {I : Context → Prop}
  (hnew : ∀ {skServer client timeout n a}, a.Kept → Q (.called client a) →
    I (.new skServer client timeout n a))
  (hcomplete : ∀ {cx cx' j r}, I cx → cx.complete j r = some cx' → I cx')
  (hdeliver : ∀ {cx cx' j lastError}, I cx → cx.deliver j lastError = some cx' → I cx')
  (hrun : ∀ {povl nextConn cx pre cb post input e}, I cx → cx.callbacks = pre ++ cb :: post →
    P cx cb input → cb.step povl nextConn cx.ol input = some e →
    I ⟨e.ol, cx.ops ++ e.start.toList, pre ++ e.next.toList ++ post⟩)

include hnew in
theorem create_contexts {s s' : State} {skServer : Nat} {timeout : Int} {a : CreateAnswer}
    (hi : ∀ cx ∈ s.contexts, I cx) (hq : Q a)
    (h : iocpCreateClient s skServer timeout a = some s') : ∀ cx ∈ s'.contexts, I cx := by
  rcases iocpCreateClient_eq h with ⟨rfl, -⟩ | ⟨client, a', rfl, hkept, -, rfl⟩
  · exact hi
  · intro cx hcx
    rcases List.mem_append.mp hcx with hcx | hcx
    · exact hi cx hcx
    · obtain rfl := List.mem_singleton.mp hcx
      exact hnew hkept hq

theorem set_contexts {contexts : List Context} {c : Nat} {cx : Context}
    (hi : ∀ cx ∈ contexts, I cx) (hcx : I cx) : ∀ cx' ∈ contexts.set c cx, I cx' := by
  intro cx' hmem
  rcases List.mem_or_eq_of_mem_set hmem with hmem | rfl
  · exact hi cx' hmem
  · exact hcx

include hnew hcomplete hdeliver hrun in
theorem step_contexts {cfg : Config} {s s' : State} {a : Act} (hi : ∀ cx ∈ s.contexts, I cx)
    (hP : OnCallback P s a) (hQ : OnCreate Q a) (h : step cfg s a = some s') :
    ∀ cx ∈ s'.contexts, I cx := by
  cases stepOf h with
  | complete ht =>
    obtain ⟨cx, op, cx', handles, hc, -, hcx', -, rfl⟩ := completeOp_eq ht
    exact set_contexts hi (hcomplete (hi cx (List.mem_of_getElem? hc)) hcx')
  | deliver ht =>
    obtain ⟨cx, cx', hc, hcx', rfl⟩ := deliverOp_eq ht
    exact set_contexts hi (hdeliver (hi cx (List.mem_of_getElem? hc)) hcx')
  | @run c i input ht =>
    obtain ⟨cx, cx', e, hc, hr, hcase⟩ := runCallback_eq ht
    obtain ⟨pre, cb, post, hcbs, hcb, hstep, rfl⟩ := Context.run_eq hr
    simp only [OnCallback, hc, hcb] at hP
    have hafter : ∀ cx' ∈ (s.after c _ e).contexts, I cx' :=
      set_contexts hi (hrun (hi cx (List.mem_of_getElem? hc)) hcbs hP hstep)
    rcases hcase with ⟨-, rfl⟩ | ⟨a, ha, hcreate⟩
    · exact hafter
    · obtain ⟨-, rfl⟩ := (Callback.step_create hstep).1 a ha
      exact create_contexts hnew hafter hQ hcreate
  | main ht =>
    rcases main_contexts ht with ⟨hsame, -⟩ | ⟨i, a, t, -, rfl, -, hcreate, rfl⟩
    · rw [hsame.contexts]
      exact hi
    · have ht : ∀ cx ∈ t.contexts, I cx := create_contexts hnew hi hQ hcreate
      exact ht
  | pool ht =>
    rw [(pool_contexts ht).1.contexts]
    exact hi

include hnew hcomplete hdeliver hrun in
/-- **Run rule for contexts.** -/
theorem contexts_invariant {cfg : Config} {ok : State → Act → Prop}
    (hok : ∀ s a, ok s a → OnCallback P s a ∧ OnCreate Q a) {s : State}
    (h : (server cfg).Reach ok s) : ∀ cx ∈ s.contexts, I cx := by
  have hstart : ∀ cx ∈ start.contexts, I cx := nofun
  refine h.invariant (I := fun s => ∀ cx ∈ s.contexts, I cx) hstart ?_
  intro s a s' _ hi ha hs
  exact step_contexts hnew hcomplete hdeliver hrun hi (hok s a ha).1 (hok s a ha).2 hs

end Invariant

/-! ## Pieces of runs -/

/-- The creation loop for one context, with socket `client`. -/
def createActs (client : Nat) : List Act :=
  [.main (.create (.called client (.error wsaIoPending))), .main .go]

/-- The operation at `j` of context `0` ends with `r` and its callback is called. -/
def completeActs (j : Nat) (r : Completion) : List Act := [.complete 0 j r, .deliver 0 j 0]

/-- The only callback of context `0` takes these steps. -/
def runActs (inputs : List Input) : List Act := inputs.map (.run 0 0)

/-- The dispatcher goes through `iocp_onconnect`, all of whose calls succeed but
the `WSAIoctl`, up to the post of `WM_ONCONNECT`. -/
def onconnectInputs : List Input :=
  [.go, .go, .clock 0, .ret none, .ret none, .peer (.ok .zero), .ret none, .call (.error 10038)]

/-- A connection up to its outstanding `WSARecv`. -/
def connectActs (j : Nat) : List Act :=
  completeActs j (.accepted (List.replicate addressBlocks 1)) ++ runActs onconnectInputs ++
    runActs [.go, .go, .call (.error wsaIoPending)]

/-- The client closes; `DisconnectEx` and the `AcceptEx` after it are both pending. -/
def recycleActs : List Act :=
  completeActs 0 (.received []) ++
    runActs [.go, .go, .go, .call (.error wsaIoPending), .clock 0, .call (.error wsaIoPending)]

end WingPhp.Iocp
