import WingPhp.Sclient.Reuse
import WingPhp.Select.Events
import WingPhp.Iocp.Contexts

/-!
# Which client a message reaches

Both servers give a handle value out again: the select server closes it and `accept`
returns it for the next client, the IOCP server disconnects it and accepts on the
same socket.  A PHP object, and a node waiting in the pool, only have the value.  So
a message can reach a client it was not meant for, unless no handle is given up
while a node waits for it and nothing is sent to an object whose client is gone;
under that condition it cannot (`sends_to_owner`), in either server.
-/

namespace WingPhp

open Transition Sclient

namespace Select

/-- No socket is closed that a queued node is for, and nothing is queued for an
object whose socket is not its client any more. -/
def NothingStale (s : State) : Act → Prop
  | .close (.clock now) =>
    match s.closePc with
    | .scan i =>
      i < s.closeList.count → (s.closeList.arr.get i).Due now →
        ¬ s.pool.Waits (s.closeList.arr.get i).socket.value
    | _ => True
  | .main (.phpSend object _ queued) =>
    ∀ client ∈ s.objects[object]?, SClient.Queues client queued → s.handles.Denotes client.socket
  | _ => True

instance (s : State) (a : Act) : Decidable (NothingStale s a) := by
  unfold NothingStale
  split
  · split <;> infer_instance
  · infer_instance
  · infer_instance

def PoolOwned (s : State) : Prop := s.pool.Owned s.handles

theorem accept_owned {s s' : State} {input : Input} (hi : PoolOwned s)
    (h : AcceptStep s input s') : PoolOwned s' := by
  cases h with
  | accepted _ hv => exact hi.give _ hv
  | _ => exact hi

theorem worker_owned {s s' : State} {input : Input} (hi : PoolOwned s)
    (h : WorkerStep s input s') : PoolOwned s' := by
  cases h <;> exact hi

theorem close_owned {s s' : State} {input : Input} (hi : PoolOwned s)
    (hok : NothingStale s (.close input)) (h : CloseStep s input s') : PoolOwned s' := by
  cases h with
  | due hpc hlt hdue =>
    simp only [NothingStale, hpc] at hok
    exact hi.drop (hok hlt hdue)
  | _ => exact hi

theorem main_owned {s s' : State} {input : Input} (hi : PoolOwned s)
    (hok : NothingStale s (.main input)) (h : MainStep s input s') : PoolOwned s' := by
  cases h with
  | @phpSend _ _ _ msg _ client _ hobject => exact hi.sclientSend msg (hok client hobject)
  | _ => exact hi

theorem pool_owned {s s' : State} {k : Nat} {input : Input} (hi : PoolOwned s)
    (h : PoolStep s k input s') : PoolOwned s' := by
  cases h with
  | send hsend => exact hi.sendThreadSend hsend
  | post hpost => exact hi.sendThreadPost hpost

theorem reach_owned {cfg : Config} {s : State} (h : (server cfg).Reach NothingStale s) :
    PoolOwned s := by
  have hstart : PoolOwned (start cfg) := Pool.Owned.empty
  refine h.invariant hstart ?_
  intro s a s' _ hi hok hs
  cases runsStep hs with
  | accept ht => exact accept_owned hi ht
  | worker ht => exact worker_owned hi ht
  | close ht => exact close_owned hi hok ht
  | main ht => exact main_owned hi hok ht
  | pool ht => exact pool_owned hi ht

end Select

namespace Iocp

/-- No socket is disconnected for reuse that a queued node is for, and nothing is
queued for an object whose socket is not its client any more. -/
def NothingStale (s : State) : Act → Prop
  | .complete c j .finished =>
    ∀ cx ∈ s.contexts[c]?, ∀ op ∈ cx.ops[j]?, op.kind = .disconnect → ¬ s.pool.Waits cx.ol.skClient
  | .main (.phpSend object _ queued) =>
    ∀ client ∈ s.objects[object]?, SClient.Queues client queued → s.handles.Denotes client.socket
  | _ => True

instance (s : State) (a : Act) : Decidable (NothingStale s a) := by
  unfold NothingStale
  split <;> infer_instance

def PoolOwned (s : State) : Prop := s.pool.Owned s.handles

theorem createClient_owned {s s' : State} {skServer : Nat} {timeout : Int} {a : CreateAnswer}
    (hi : PoolOwned s) (h : iocpCreateClient s skServer timeout a = some s') : PoolOwned s' := by
  rcases iocpCreateClient_eq h with ⟨rfl, -⟩ | ⟨client, a', -, -, -, rfl⟩
  · exact hi
  · exact hi

theorem complete_owned {s s' : State} {c j : Nat} {r : Completion} (hi : PoolOwned s)
    (hok : NothingStale s (.complete c j r)) (h : completeOp s c j r = some s') : PoolOwned s' := by
  obtain ⟨cx, op, cx', handles, hc, hop, -, hhandles, rfl⟩ := completeOp_eq h
  unfold Op.handlesAfter at hhandles
  split at hhandles
  · split at hhandles
    · next hfree =>
      cases hhandles
      exact hi.give _ hfree
    · cases hhandles
  · next hkind =>
    cases hhandles
    exact hi.drop (hok cx hc op hop hkind)
  · cases hhandles
    exact hi

theorem runCallback_owned {s s' : State} {c i : Nat} {input : Input} (hi : PoolOwned s)
    (h : runCallback s c i input = some s') : PoolOwned s' := by
  obtain ⟨cx, cx', e, -, -, hcase⟩ := runCallback_eq h
  have hafter : PoolOwned (s.after c cx' e) := hi
  rcases hcase with ⟨-, rfl⟩ | ⟨a, -, hcreate⟩
  · exact hafter
  · exact createClient_owned hafter hcreate

theorem main_owned {cfg : Config} {s s' : State} {input : MainInput} (hi : PoolOwned s)
    (hok : NothingStale s (.main input)) (h : wingServerStart cfg s input = some s') :
    PoolOwned s' := by
  unfold wingServerStart at h
  split at h
  · split at h
    · split at h
      · next t ht =>
        cases h
        have := createClient_owned hi ht
        exact this
      · cases h
    · cases h
  · split at h <;> cases h
    exact hi
  · split at h <;> cases h
    exact hi
  · split at h <;> cases h <;> exact hi
  · next object msg queued hpc =>
    split at h
    · next client hobject =>
      cases h
      exact hi.sclientSend msg (hok client hobject)
    · cases h
  · cases h
    exact hi
  · cases h

theorem pool_owned {s s' : State} {k : Nat} {input : PoolInput} (hi : PoolOwned s)
    (h : sendThread s k input = some s') : PoolOwned s' := by
  unfold sendThread at h
  split at h
  · split at h
    · next pool hsend =>
      cases h
      exact hi.sendThreadSend hsend
    · cases h
  · split at h
    · next pool r hpost =>
      cases h
      exact hi.sendThreadPost hpost
    · cases h

theorem reach_owned {cfg : Config} {s : State} (h : (server cfg).Reach NothingStale s) :
    PoolOwned s := by
  have hstart : PoolOwned start := Pool.Owned.empty
  refine h.invariant hstart ?_
  intro s a s' _ hi hok hs
  cases stepOf hs with
  | complete ht => exact complete_owned hi hok ht
  | deliver ht =>
    obtain ⟨cx, cx', -, -, rfl⟩ := deliverOp_eq ht
    exact hi
  | run ht => exact runCallback_owned hi ht
  | main ht => exact main_owned hi hok ht
  | pool ht => exact pool_owned hi ht

end Iocp

/-- **Messages reach their client.**  In the runs of either server in which nothing is
stale, `send()` is only called while the value denotes the connection of the object
the message was passed to. -/
theorem sends_to_owner {cfg : Select.Config} {s : Select.State} {cfg' : Iocp.Config}
    {s' : Iocp.State} (hs : (Select.server cfg).Reach Select.NothingStale s)
    (hs' : (Iocp.server cfg').Reach Iocp.NothingStale s') :
    s.pool.ToOwners ∧ s'.pool.ToOwners :=
  ⟨(Select.reach_owned hs).wire, (Iocp.reach_owned hs').wire⟩

/-- A client connects and its `onconnect` calls `send`. -/
def Select.greetActs : List Select.Act :=
  Select.connectActs 0 4 ++
    [.main .go, .main (.clockAndPeer 0 .zero), .main (.phpSend 0 [65] true), .main .go]

/-- The same with the pooled socket; before `WM_ONCONNECT` the loop takes `WM_ONBEAT`
and a `WM_ONERROR`. -/
def Iocp.greetActs : List Iocp.Act :=
  Iocp.createActs 4 ++ Iocp.connectActs 0 ++
    [.main .go, .main .go, .main .go, .main .go, .main .go, .main .go, .main .go,
      .main (.phpSend 1 [65] true), .main .go]

theorem sends_to_owner_greeting : ∃ s s',
    (Select.server ⟨1000, 0⟩).Reach Select.NothingStale s ∧
    (Iocp.server ⟨1, 0, 100⟩).Reach Iocp.NothingStale s' ∧
    (s.pool.wire.length = 1 ∧ s'.pool.wire.length = 1) ∧ s.pool.ToOwners ∧ s'.pool.ToOwners := by
  obtain ⟨s, hs, hp⟩ := Machine.exists_reach (M := Select.server ⟨1000, 0⟩) Select.NothingStale
    (p := fun s => s.pool.wire.length = 1) (Select.greetActs ++ [.pool 0 (.sent (.wrote 1))])
    (by decide)
  obtain ⟨s', hs', hp'⟩ := Machine.exists_reach (M := Iocp.server ⟨1, 0, 100⟩) Iocp.NothingStale
    (p := fun s => s.pool.wire.length = 1) (Iocp.greetActs ++ [.pool 0 (.sent (.wrote 1))])
    (by decide)
  exact ⟨s, s', hs, hs', ⟨hp, hp'⟩, sends_to_owner hs hs'⟩

/-- The client of `greetActs` leaves before the pool gets to its message, its socket is
closed five seconds later, and the next client is given the same value. -/
def Select.reuseActs : List Select.Act :=
  Select.pollActs 1 [4] ++ Select.closeActs ++ [.close .go, .close (.clock 5)] ++
    Select.connectActs 0 4

/-- The same: `DisconnectEx` ends and the `AcceptEx` accepts the next client. -/
def Iocp.reuseActs : List Iocp.Act :=
  Iocp.recycleActs ++
    [.complete 0 0 .finished, .complete 0 1 (.accepted (List.replicate Iocp.addressBlocks 1))]

/-- A byte was written to a connection other than the one it was meant for. -/
def Sclient.Pool.Misdirected (p : Pool) : Prop :=
  ∃ e ∈ p.wire, e.bytes = [65] ∧ e.node.socket.conn = 0 ∧ ∃ c ∈ e.target, c ≠ 0

instance (p : Pool) : Decidable p.Misdirected := inferInstanceAs (Decidable (∃ e ∈ p.wire, _))

/-- Both servers send the message to the next client. -/
theorem sent_to_next_client :
    (∃ s, (Select.server ⟨1000, 0⟩).Reachable s ∧ s.pool.Misdirected) ∧
    ∃ s, (Iocp.server ⟨1, 0, 100⟩).Reachable s ∧ s.pool.Misdirected :=
  ⟨Machine.exists_reachable (M := Select.server ⟨1000, 0⟩) (p := fun s => s.pool.Misdirected)
      (Select.greetActs ++ Select.reuseActs ++ [.pool 0 (.sent (.wrote 1))]) (by decide),
    Machine.exists_reachable (M := Iocp.server ⟨1, 0, 100⟩) (p := fun s => s.pool.Misdirected)
      (Iocp.greetActs ++ Iocp.reuseActs ++ [.pool 0 (.sent (.wrote 1))]) (by decide)⟩

end WingPhp
