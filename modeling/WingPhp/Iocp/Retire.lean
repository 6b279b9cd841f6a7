import WingPhp.Iocp.Contexts

/-!
# The size of the pool

`iocp_onerror` creates a replacement and then retires its context.  It cancels
the context's operation, but does not wait for it: the cancelled operation still
completes, its callback does not look at `m_usenum`, and so a retired context can
post events, start an `AcceptEx` and be retired, and replaced, once more.

None of this happens in the runs where a context is retired only when nothing is
outstanding on it and no other callback runs for it (`RetiredAlone`): then
nothing can ever happen to it again (`Context.Settled`), and the pool keeps its
size (`pool_size`).
-/

namespace WingPhp.Iocp

open Transition Sclient

/-- A context is retired when it has nothing but the callback that retires it. -/
def RetiredAlone (cx : Context) (cb : Callback) (_ : Input) : Prop :=
  cb.pc = .retire → cx.ops = [] ∧ cx.callbacks = [cb]

instance (cx : Context) (cb : Callback) (input : Input) : Decidable (RetiredAlone cx cb input) := by
  unfold RetiredAlone
  infer_instance

/-- `iocp_create_client` returns 1. -/
def CreateSucceeds : CreateAnswer → Prop
  | .called _ a => a.Kept
  | .failed => False

instance (a : CreateAnswer) : Decidable (CreateSucceeds a) :=
  match a with
  | .called _ a => inferInstanceAs (Decidable a.Kept)
  | .failed => .isFalse id

/-! ## Counting -/

/-- `m_usenum = 1`. -/
def Context.live (cx : Context) : Nat := if cx.ol.usenum = 1 then 1 else 0

/-- The callbacks between the two last statements of `iocp_onerror`: the
replacement is there and the context is not yet marked. -/
def Context.retiring (cx : Context) : Nat := cx.callbacks.countP fun cb => cb.pc = .retire

def liveIn (contexts : List Context) : Nat := contexts.countP fun cx => cx.ol.usenum = 1

def retiringIn (contexts : List Context) : Nat :=
  (contexts.flatMap Context.callbacks).countP fun cb => cb.pc = .retire

/-- The number of live contexts. -/
def State.live (s : State) : Nat := liveIn s.contexts

def State.retiring (s : State) : Nat := retiringIn s.contexts

/-- How many contexts the creation loop has created. -/
def State.created (cfg : Config) (s : State) : Nat :=
  match s.mainPc with
  | .create i => i
  | _ => cfg.maxConnect.toInt.toNat

/-- Nothing is done with a context after it was retired. -/
def RetiredForGood (log : List (Nat × Deed)) : Prop :=
  log.Pairwise fun x y => x.2 = .retire → y.1 ≠ x.1

instance (log : List (Nat × Deed)) : Decidable (RetiredForGood log) :=
  inferInstanceAs (Decidable (List.Pairwise _ _))

/-! ## The invariant -/

/-- Retired, and then without anything that could still happen. -/
def Context.Settled (cx : Context) : Prop :=
  cx.ol.usenum = 1 ∨ cx.ol.usenum = 0 ∧ cx.ops = [] ∧ cx.callbacks = []

/-- `pending` counts the replacements a step still owes while it is taken apart. -/
structure PoolAt (contexts : List Context) (log : List (Nat × Deed)) (created pending : Nat) :
    Prop where
  settled : ∀ cx ∈ contexts, cx.Settled
  size : liveIn contexts + pending = created + retiringIn contexts
  log_lt : ∀ x ∈ log, x.1 < contexts.length
  log_retired : ∀ c, (c, Deed.retire) ∈ log → ∀ cx, contexts[c]? = some cx → cx.ol.usenum = 0
  ordered : RetiredForGood log

theorem liveIn_set {contexts : List Context} {c : Nat} {cx : Context} (hc : contexts[c]? = some cx)
    (cx' : Context) : liveIn (contexts.set c cx') + cx.live = liveIn contexts + cx'.live := by
  simpa [liveIn, Context.live] using
    Position.countP_set hc (fun cx : Context => decide (cx.ol.usenum = 1)) cx'

theorem retiringIn_set {contexts : List Context} {c : Nat} {cx : Context}
    (hc : contexts[c]? = some cx) (cx' : Context) :
    retiringIn (contexts.set c cx') + cx.retiring = retiringIn contexts + cx'.retiring :=
  Position.countP_flatMap_set hc Context.callbacks (fun cb => decide (cb.pc = .retire)) cx'

/-- A callback gets to the last statement of `iocp_onerror` from the one before it. -/
theorem Callback.step_retire {povl nextConn : Nat} {ol : IocpOverlapped} {cb : Callback}
    {input : Input} {e : Effect} (h : cb.step povl nextConn ol input = some e) :
    (∀ cb', e.next = some cb' → (cb'.pc = .retire ↔ cb.pc = .create)) ∧
    (cb.pc = .create → e.next.isSome = true) := by
  cases callbackStep h with
  | create hpc =>
    refine ⟨?_, fun _ => rfl⟩
    rintro _ ⟨⟩
    exact ⟨fun _ => hpc, fun _ => rfl⟩
  | updateContext hpc => by_cases ht : 0 < ol.timeout <;> simp [hpc, ht, Callback.goto]
  | _ hpc => simp [hpc, Callback.goto]

/-- The callbacks about to mark their context, after a step of one that was not. -/
theorem Callback.retiring_after {povl nextConn : Nat} {ol : IocpOverlapped} {cb : Callback}
    {input : Input} {e : Effect} (h : cb.step povl nextConn ol input = some e) (ops : List Op)
    (pre post : List Callback) :
    Context.retiring ⟨e.ol, ops, pre ++ e.next.toList ++ post⟩ =
      (pre ++ post).countP (fun cb => cb.pc = .retire) + if cb.pc = .create then 1 else 0 := by
  obtain ⟨hnext, hcreate⟩ := Callback.step_retire h
  simp only [Context.retiring, List.countP_append]
  cases hn : e.next with
  | none =>
    have : cb.pc ≠ .create := fun hpc => by simp [hn] at hcreate; exact hcreate hpc
    simp [this]
  | some cb' =>
    have := hnext cb' hn
    by_cases hpc : cb.pc = .create
    · simp [this.mpr hpc, hpc]
      omega
    · simp [mt this.mp hpc, hpc]

/-- The retirement is the last thing a step does. -/
theorem Effect.deeds_retire_last (e : Effect) : e.deeds.Pairwise fun d _ => d ≠ .retire := by
  unfold Effect.deeds
  rw [List.pairwise_append]
  refine ⟨?_, ?_, ?_⟩
  · refine List.Pairwise.imp_of_mem (R := fun _ _ => True) ?_ (List.pairwise_of_forall fun _ _ => trivial)
    intro d _ hd _ _
    rcases List.mem_append.mp hd with hd | hd
    · obtain ⟨m, -, rfl⟩ := List.mem_map.mp hd
      nofun
    · split at hd
      · obtain rfl := List.mem_singleton.mp hd
        nofun
      · cases hd
  · split
    · exact List.pairwise_singleton _ _
    · exact List.Pairwise.nil
  · intro d hd _ _
    rcases List.mem_append.mp hd with hd | hd
    · obtain ⟨m, -, rfl⟩ := List.mem_map.mp hd
      nofun
    · split at hd
      · obtain rfl := List.mem_singleton.mp hd
        nofun
      · cases hd

theorem Effect.retires_of_mem {e : Effect} (h : Deed.retire ∈ e.deeds) : e.retires = true := by
  unfold Effect.deeds at h
  rw [List.mem_append, List.mem_append] at h
  rcases h with (h | h) | h
  · obtain ⟨m, -, hm⟩ := List.mem_map.mp h
    cases hm
  · split at h
    · cases List.mem_singleton.mp h
    · cases h
  · split at h
    · assumption
    · cases h

theorem RetiredForGood.append {log : List (Nat × Deed)} (h : RetiredForGood log) {c : Nat}
    (hc : (c, Deed.retire) ∉ log) (e : Effect) :
    RetiredForGood (log ++ e.deeds.map fun d => (c, d)) := by
  unfold RetiredForGood at h ⊢
  rw [List.pairwise_append]
  refine ⟨h, ?_, ?_⟩
  · rw [List.pairwise_map]
    exact e.deeds_retire_last.imp fun hd hret => absurd hret hd
  · rintro ⟨c', d'⟩ hx y hy hret heq
    obtain ⟨d, -, rfl⟩ := List.mem_map.mp hy
    dsimp only at hret heq
    subst hret heq
    exact hc hx

namespace PoolAt

variable {contexts : List Context} {log : List (Nat × Deed)} {created pending : Nat}

/-- What is said about the contexts named in the log, after a step of one of them. -/
theorem retired_set (h : PoolAt contexts log created pending) {c : Nat} {cx cx' : Context}
    (hc : contexts[c]? = some cx) (hkeep : cx.ol.usenum = 0 → cx'.ol.usenum = 0) :
    ∀ c', (c', Deed.retire) ∈ log → ∀ cx'', (contexts.set c cx')[c']? = some cx'' →
      cx''.ol.usenum = 0 := by
  intro c' hmem cx'' hcx''
  rw [List.getElem?_set] at hcx''
  split at hcx''
  · next heq =>
    subst heq
    split at hcx''
    · cases hcx''
      exact hkeep (h.log_retired c hmem cx hc)
    · cases hcx''
  · exact h.log_retired c' hmem cx'' hcx''

/-- A step of a context that moves none of its callbacks. -/
theorem set (h : PoolAt contexts log created pending) {c : Nat} {cx cx' : Context}
    (hc : contexts[c]? = some cx) (hset : cx'.Settled) (husenum : cx'.ol.usenum = cx.ol.usenum)
    (hret : cx'.retiring = cx.retiring) : PoolAt (contexts.set c cx') log created pending where
  settled := set_contexts h.settled hset
  size := by
    have hlive : cx'.live = cx.live := by simp [Context.live, husenum]
    have h1 := liveIn_set hc cx'
    have h2 := retiringIn_set hc cx'
    have := h.size
    omega
  log_lt := by
    rw [List.length_set]
    exact h.log_lt
  log_retired := h.retired_set hc fun h0 => husenum.trans h0
  ordered := h.ordered

/-- The log after a step of a context still names contexts only. -/
theorem log_lt_deeds (h : PoolAt contexts log created pending) {c : Nat} {cx : Context}
    (hc : contexts[c]? = some cx) (e : Effect) (cx' : Context) :
    ∀ x ∈ log ++ e.deeds.map fun d => (c, d), x.1 < (contexts.set c cx').length := by
  intro x hx
  rw [List.length_set]
  rcases List.mem_append.mp hx with hx | hx
  · exact h.log_lt x hx
  · obtain ⟨d, -, rfl⟩ := List.mem_map.mp hx
    exact (List.getElem?_eq_some_iff.mp hc).1

section Run

variable {povl nextConn c : Nat} {cx : Context} {pre post : List Callback} {cb : Callback}
  {input : Input} {e : Effect}

/-- A context with a callback is not retired yet. -/
theorem live_of_callback (h : PoolAt contexts log created pending) (hc : contexts[c]? = some cx)
    (hcbs : cx.callbacks = pre ++ cb :: post) :
    cx.ol.usenum = 1 ∧ (c, Deed.retire) ∉ log := by
  have hlive : cx.ol.usenum = 1 := by
    rcases h.settled cx (List.mem_of_getElem? hc) with h1 | ⟨-, -, h0⟩
    · exact h1
    · simp [hcbs] at h0
  refine ⟨hlive, fun hmem => ?_⟩
  have := h.log_retired c hmem cx hc
  omega

/-- The last statement of `iocp_onerror`: the context is retired, and nothing of it
is left. -/
theorem run_retire (h : PoolAt contexts log created 0) (hc : contexts[c]? = some cx)
    (hcbs : cx.callbacks = pre ++ cb :: post) (hpc : cb.pc = .retire)
    (hP : RetiredAlone cx cb input) (hstep : cb.step povl nextConn cx.ol input = some e) :
    PoolAt (contexts.set c ⟨e.ol, cx.ops ++ e.start.toList, pre ++ e.next.toList ++ post⟩)
      (log ++ e.deeds.map fun d => (c, d)) created 0 := by
  obtain ⟨hlive, hnotlogged⟩ := h.live_of_callback hc hcbs
  obtain ⟨hops, honly⟩ := hP hpc
  obtain ⟨hu, hn, hs, -⟩ := (Callback.step_facts hstep).retired hpc
  have hnil : pre = [] ∧ post = [] := by
    have hlen := congrArg List.length (hcbs.symm.trans honly)
    simp only [List.length_append, List.length_cons, List.length_nil] at hlen
    exact ⟨List.eq_nil_of_length_eq_zero (by omega), List.eq_nil_of_length_eq_zero (by omega)⟩
  rw [hops, hs, hn, hnil.1, hnil.2]
  have hlivecx : cx.live = 1 := by simp [Context.live, hlive]
  have hretcx : cx.retiring = 1 := by simp [Context.retiring, honly, hpc]
  have hlive' : Context.live ⟨e.ol, [], []⟩ = 0 := by simp [Context.live, hu]
  have hret' : Context.retiring ⟨e.ol, [], []⟩ = 0 := rfl
  have h1 := liveIn_set hc ⟨e.ol, [], []⟩
  have h2 := retiringIn_set hc ⟨e.ol, [], []⟩
  have hsize := h.size
  constructor
  · exact set_contexts h.settled (.inr ⟨hu, rfl, rfl⟩)
  · show liveIn (contexts.set c ⟨e.ol, [], []⟩) + 0 =
      created + retiringIn (contexts.set c ⟨e.ol, [], []⟩)
    omega
  · exact h.log_lt_deeds hc e _
  · intro c' hmem cx'' hcx''
    rcases List.mem_append.mp hmem with hmem | hmem
    · exact h.retired_set hc (fun _ => hu) c' hmem cx'' hcx''
    · obtain ⟨d, -, hd⟩ := List.mem_map.mp hmem
      cases hd
      rw [List.getElem?_set_self (List.getElem?_eq_some_iff.mp hc).1] at hcx''
      cases hcx''
      exact hu
  · exact h.ordered.append hnotlogged e

/-- Any other step of a callback; when it calls `iocp_create_client`, the replacement
is still to come. -/
theorem run_live (h : PoolAt contexts log created 0) (hc : contexts[c]? = some cx)
    (hcbs : cx.callbacks = pre ++ cb :: post) (hpc : cb.pc ≠ .retire)
    (hstep : cb.step povl nextConn cx.ol input = some e) :
    PoolAt (contexts.set c ⟨e.ol, cx.ops ++ e.start.toList, pre ++ e.next.toList ++ post⟩)
      (log ++ e.deeds.map fun d => (c, d)) created (if cb.pc = .create then 1 else 0) := by
  obtain ⟨hlive, hnotlogged⟩ := h.live_of_callback hc hcbs
  have hfacts := Callback.step_facts hstep
  have hu := hfacts.usenum hpc
  have hlivecx : cx.live = 1 := by simp [Context.live, hlive]
  have hlive' : Context.live
      ⟨e.ol, cx.ops ++ e.start.toList, pre ++ e.next.toList ++ post⟩ = 1 := by
    simp [Context.live, hu, hlive]
  have hretcx : cx.retiring = (pre ++ post).countP fun cb => cb.pc = .retire := by
    simp [Context.retiring, hcbs, hpc]
  have hret' := Callback.retiring_after hstep (cx.ops ++ e.start.toList) pre post
  have h1 := liveIn_set hc ⟨e.ol, cx.ops ++ e.start.toList, pre ++ e.next.toList ++ post⟩
  have h2 := retiringIn_set hc ⟨e.ol, cx.ops ++ e.start.toList, pre ++ e.next.toList ++ post⟩
  have hsize := h.size
  constructor
  · exact set_contexts h.settled (.inl (hu.trans hlive))
  · omega
  · exact h.log_lt_deeds hc e _
  · intro c' hmem cx'' hcx''
    rcases List.mem_append.mp hmem with hmem | hmem
    · exact h.retired_set hc (fun h0 => hu.trans h0) c' hmem cx'' hcx''
    · obtain ⟨d, hd, heq⟩ := List.mem_map.mp hmem
      cases heq
      exact absurd (hfacts.retires_iff.mp (Effect.retires_of_mem hd)) hpc
  · exact h.ordered.append hnotlogged e

theorem run (h : PoolAt contexts log created 0) (hc : contexts[c]? = some cx)
    (hcbs : cx.callbacks = pre ++ cb :: post) (hP : RetiredAlone cx cb input)
    (hstep : cb.step povl nextConn cx.ol input = some e) :
    PoolAt (contexts.set c ⟨e.ol, cx.ops ++ e.start.toList, pre ++ e.next.toList ++ post⟩)
      (log ++ e.deeds.map fun d => (c, d)) created (if cb.pc = .create then 1 else 0) := by
  by_cases hpc : cb.pc = .retire
  · rw [if_neg (by rw [hpc]; exact nofun)]
    exact h.run_retire hc hcbs hpc hP hstep
  · exact h.run_live hc hcbs hpc hstep

end Run

/-- `iocp_create_client` adds a live context: one that was owed, or one more. -/
theorem create (h : PoolAt contexts log created pending) {created' pending' : Nat}
    (hcount : created' + pending = created + pending' + 1) (skServer client : Nat) (timeout : Int)
    (nextConn : Nat) (a : CallAnswer) :
    PoolAt (contexts ++ [.new skServer client timeout nextConn a])
      (log ++ if a.Started then [(contexts.length, .acceptEx)] else []) created' pending' := by
  have hentry : ∀ x ∈ (if a.Started then [(contexts.length, Deed.acceptEx)] else []),
      x = (contexts.length, Deed.acceptEx) := by
    intro x hx
    split at hx
    · exact List.mem_singleton.mp hx
    · cases hx
  constructor
  · intro cx hcx
    rcases List.mem_append.mp hcx with hcx | hcx
    · exact h.settled cx hcx
    · obtain rfl := List.mem_singleton.mp hcx
      exact .inl rfl
  · have := h.size
    have hlive : liveIn (contexts ++ [.new skServer client timeout nextConn a]) =
        liveIn contexts + 1 := List.countP_append ..
    have hret : retiringIn (contexts ++ [.new skServer client timeout nextConn a]) =
        retiringIn contexts := by
      simp [retiringIn, Context.new]
    omega
  · intro x hx
    rw [List.length_append]
    rcases List.mem_append.mp hx with hx | hx
    · have := h.log_lt x hx
      omega
    · rw [hentry x hx]
      simp
  · intro c hmem cx hcx
    rcases List.mem_append.mp hmem with hmem | hmem
    · rw [List.getElem?_append_left (h.log_lt _ hmem)] at hcx
      exact h.log_retired c hmem cx hcx
    · cases hentry _ hmem
  · unfold RetiredForGood
    rw [List.pairwise_append]
    refine ⟨h.ordered, ?_, ?_⟩
    · split
      · exact List.pairwise_singleton _ _
      · exact List.Pairwise.nil
    · -- the new context is not one of those the log names
      intro x hx y hy _
      have hlt := h.log_lt x hx
      rw [hentry y hy]
      dsimp only
      omega

end PoolAt

/-! ## The steps of the server -/

/-- `iocp_onerror` retires what has nothing left to do, and gets its replacement. -/
def RetireAlone (s : State) (a : Act) : Prop :=
  OnCallback RetiredAlone s a ∧ OnCreate CreateSucceeds a

instance (s : State) (a : Act) : Decidable (RetireAlone s a) :=
  inferInstanceAs (Decidable (_ ∧ _))

/-- The invariant of the pool in a state of the server. -/
structure PoolInv (cfg : Config) (s : State) : Prop where
  pool : PoolAt s.contexts s.log (s.created cfg) 0
  loop : ∀ i, s.mainPc = .create i → i ≤ cfg.maxConnect.toInt.toNat

theorem iocpCreateClient_pool {s s' : State} {skServer : Nat} {timeout : Int} {a : CreateAnswer}
    {created pending : Nat} (hp : PoolAt s.contexts s.log created pending) (created' pending' : Nat)
    (hcount : created' + pending = created + pending' + 1) (ha : CreateSucceeds a)
    (h : iocpCreateClient s skServer timeout a = some s') :
    PoolAt s'.contexts s'.log created' pending' ∧ s'.mainPc = s.mainPc := by
  rcases iocpCreateClient_eq h with ⟨-, hfail⟩ | ⟨client, a', rfl, -, -, rfl⟩
  · cases a with
    | failed => exact ha.elim
    | called client a' => exact (hfail client a' rfl ha).elim
  · exact ⟨hp.create hcount _ _ _ _ _, rfl⟩

theorem completeOp_pool {cfg : Config} {s s' : State} {c j : Nat} {r : Completion}
    (hi : PoolInv cfg s) (h : completeOp s c j r = some s') : PoolInv cfg s' := by
  obtain ⟨cx, op, cx', handles, hc, -, hcx', -, rfl⟩ := completeOp_eq h
  obtain ⟨pre, kind, conn, post, hops, -, -, rfl⟩ := Context.complete_eq hcx'
  have husenum : (r.store cx.ol).usenum = cx.ol.usenum := by cases r <;> rfl
  refine ⟨hi.pool.set hc ?_ husenum rfl, hi.loop⟩
  -- an operation is outstanding, so this one is not retired
  rcases hi.pool.settled cx (List.mem_of_getElem? hc) with h1 | ⟨-, h0, -⟩
  · exact .inl (husenum.trans h1)
  · simp [hops] at h0

theorem deliverOp_pool {cfg : Config} {s s' : State} {c j lastError : Nat} (hi : PoolInv cfg s)
    (h : deliverOp s c j lastError = some s') : PoolInv cfg s' := by
  obtain ⟨cx, cx', hc, hcx', rfl⟩ := deliverOp_eq h
  obtain ⟨pre, kind, conn, r, post, hops, -, rfl⟩ := Context.deliver_eq hcx'
  refine ⟨hi.pool.set hc ?_ rfl ?_, hi.loop⟩
  · rcases hi.pool.settled cx (List.mem_of_getElem? hc) with h1 | ⟨-, h0, -⟩
    · exact .inl h1
    · simp [hops] at h0
  · simp [Context.retiring, Op.callback]

theorem runCallback_pool {cfg : Config} {s s' : State} {c i : Nat} {input : Input}
    (hi : PoolInv cfg s) (hok : RetireAlone s (.run c i input))
    (h : runCallback s c i input = some s') : PoolInv cfg s' := by
  obtain ⟨cx, cx', e, hc, hr, hcase⟩ := runCallback_eq h
  obtain ⟨pre, cb, post, hcbs, hcb, hstep, rfl⟩ := Context.run_eq hr
  obtain ⟨hcreates, hcreate⟩ := Callback.step_create hstep
  have hP : RetiredAlone cx cb input := by
    simpa only [OnCallback, hc, hcb] using hok.1
  have hpool := hi.pool.run hc hcbs hP hstep
  rcases hcase with ⟨hnone, rfl⟩ | ⟨a, ha, hclient⟩
  · have hpc : cb.pc ≠ .create := fun hpc => by simp [hnone] at hcreate; exact hcreate hpc
    rw [if_neg hpc] at hpool
    exact ⟨hpool, hi.loop⟩
  · obtain ⟨hpc, rfl⟩ := hcreates a ha
    rw [if_pos hpc] at hpool
    obtain ⟨hpool', hmain⟩ := iocpCreateClient_pool hpool (s.created cfg) 0 rfl hok.2
      hclient
    refine ⟨?_, fun i hi' => hi.loop i (hmain.symm.trans hi')⟩
    have hcreated : s'.created cfg = s.created cfg := by
      unfold State.created
      rw [hmain]
      rfl
    rw [hcreated]
    exact hpool'

theorem wingServerStart_pool {cfg : Config} {s s' : State} {input : MainInput}
    (hi : PoolInv cfg s) (hok : RetireAlone s (.main input))
    (h : wingServerStart cfg s input = some s') : PoolInv cfg s' := by
  rcases main_contexts h with ⟨hsame, hpc', hpc⟩ | ⟨i, a, t, hpc, rfl, hlt, hclient, rfl⟩
  · refine ⟨?_, fun i hi' => absurd hi' (hpc' i)⟩
    have hcreated : s'.created cfg = s.created cfg := by
      have hafter : s'.created cfg = cfg.maxConnect.toInt.toNat := by
        unfold State.created
        split
        · next i hi' => exact absurd hi' (hpc' i)
        · rfl
      rw [hafter]
      unfold State.created
      split
      · next i hi' =>
        have hle := hi.loop i hi'
        have hge := hpc i hi'
        omega
      · rfl
    rw [hsame.contexts, hsame.log, hcreated]
    exact hi.pool
  · have hcreated : s.created cfg = i := by
      unfold State.created
      rw [hpc]
    have hpool := hi.pool
    rw [hcreated] at hpool
    obtain ⟨hpool', -⟩ := iocpCreateClient_pool hpool (i + 1) 0 rfl hok.2 hclient
    refine ⟨hpool', ?_⟩
    rintro _ ⟨⟩
    omega

theorem step_pool {cfg : Config} {s s' : State} {a : Act} (hi : PoolInv cfg s)
    (hok : RetireAlone s a) (h : step cfg s a = some s') : PoolInv cfg s' := by
  cases stepOf h with
  | complete ht => exact completeOp_pool hi ht
  | deliver ht => exact deliverOp_pool hi ht
  | run ht => exact runCallback_pool hi hok ht
  | main ht => exact wingServerStart_pool hi hok ht
  | pool ht =>
    obtain ⟨hsame, hmain⟩ := pool_contexts ht
    refine ⟨?_, fun i hi' => hi.loop i (hmain.symm.trans hi')⟩
    have hcreated : s'.created cfg = s.created cfg := by
      unfold State.created
      rw [hmain]
    rw [hsame.contexts, hsame.log, hcreated]
    exact hi.pool

/-! ## The runs -/

/-- **The pool keeps its size.**  When contexts are retired alone, as many are live
as the creation loop created, and one more for each thread that has created a
replacement and has yet to mark its context; and nothing is ever done again with a
context that is marked. -/
theorem pool_size {cfg : Config} {s : State} (h : (server cfg).Reach RetireAlone s) :
    s.live = s.created cfg + s.retiring ∧ RetiredForGood s.log := by
  have hstart : PoolInv cfg start := by
    refine ⟨⟨nofun, rfl, nofun, nofun, List.Pairwise.nil⟩, ?_⟩
    rintro _ ⟨⟩
    exact Nat.zero_le _
  have hinv : PoolInv cfg s := by
    refine h.invariant hstart ?_
    intro s a s' _ hi hok hs
    exact step_pool hi hok hs
  exact ⟨hinv.pool.size, hinv.pool.ordered⟩

/-- The client closes, `DisconnectEx` is refused, and the context, on which nothing
is outstanding, is replaced. -/
def replaceActs : List Act :=
  createActs 4 ++ connectActs 0 ++ completeActs 0 (.received []) ++
    runActs [.go, .go, .go, .call (.error 10057), .go, .create (.called 8 (.error wsaIoPending)), .go]

theorem pool_size_replaced : ∃ s, (server ⟨1, 0, 100⟩).Reach RetireAlone s ∧
    (s.contexts.length = 2 ∧ s.log.contains (0, .retire)) ∧
    s.live = s.created ⟨1, 0, 100⟩ + s.retiring ∧ RetiredForGood s.log := by
  obtain ⟨s, hs, hp⟩ := Machine.exists_reach (M := server ⟨1, 0, 100⟩) RetireAlone
    (p := fun s => s.contexts.length = 2 ∧ s.log.contains (0, .retire)) replaceActs (by decide)
  exact ⟨s, hs, hp, pool_size hs⟩

/-- After `DisconnectEx` has started, `AcceptEx` is refused: the context is retired
and replaced.  Then the cancelled `DisconnectEx` ends with `ERROR_OPERATION_ABORTED`,
the dispatcher closes the client once more, `DisconnectEx` is refused, and the
context is retired and replaced again. -/
def retireTwiceActs : List Act :=
  createActs 4 ++ connectActs 0 ++ completeActs 0 (.received []) ++
    runActs [.go, .go, .go, .call (.error wsaIoPending), .clock 0, .call (.error 10022), .go,
      .create (.called 8 (.error wsaIoPending)), .go] ++
    completeActs 0 (.failed 995) ++
    runActs [.go, .go, .call (.error 10057), .go, .create (.called 12 (.error wsaIoPending)), .go]

theorem retired_twice : ∃ s,
    (server ⟨1, 0, 100⟩).Reach (fun _ a => OnCreate CreateSucceeds a) s ∧
    s.retiring = 0 ∧ s.created ⟨1, 0, 100⟩ = 1 ∧ s.live = 2 ∧ s.log.count (0, .retire) = 2 ∧
    ¬ RetiredForGood s.log :=
  Machine.exists_reach (M := server ⟨1, 0, 100⟩) (fun _ a => OnCreate CreateSucceeds a)
    (p := fun s => s.retiring = 0 ∧ s.created ⟨1, 0, 100⟩ = 1 ∧ s.live = 2 ∧
      s.log.count (0, .retire) = 2 ∧ ¬ RetiredForGood s.log) retireTwiceActs (by decide)

end WingPhp.Iocp
