import WingPhp.Sclient.Pool

/-!
# Queued messages and sockets that are given out again

A node carries a handle value; `send()` writes to whatever that value denotes when
the pool gets to the node.  The bytes reach their connection (`Pool.ToOwners`) as
long as the pool is `Owned`: every node it still has to send holds a value that
denotes the connection of the object `send` was called on.  A node gets in that way
when `send` is called on an object that is not stale; and a handle that stops
denoting its connection spoils no node when no node waits for it.
-/

namespace WingPhp.Sclient

/-- What `send()` was given went to the connection of the object it was passed to. -/
def Pool.ToOwners (p : Pool) : Prop := ∀ e ∈ p.wire, e.target = some e.node.socket.conn

/-- A queued node holds the handle value `v`. -/
def Pool.Waits (p : Pool) (v : Nat) : Prop :=
  ∃ t ∈ p.tasks, t.phase = .queued ∧ t.node.socket.value = v

instance (p : Pool) (v : Nat) : Decidable (p.Waits v) :=
  inferInstanceAs (Decidable (∃ t ∈ p.tasks, _))

structure Pool.Owned (p : Pool) (handles : Handles) : Prop where
  queued : ∀ t ∈ p.tasks, t.phase = .queued → handles.Denotes t.node.socket
  wire : p.ToOwners

namespace Pool.Owned

variable {p : Pool} {handles : Handles}

theorem empty : Pool.empty.Owned handles := ⟨nofun, nofun⟩

theorem give (h : p.Owned handles) {v : Nat} (c : Nat) (hv : handles v = none) :
    p.Owned (handles.give v c) where
  queued t ht hq := (h.queued t ht hq).give c hv
  wire := h.wire

theorem drop (h : p.Owned handles) {v : Nat} (hv : ¬ p.Waits v) : p.Owned (handles.drop v) where
  queued t ht hq := (h.queued t ht hq).drop fun e => hv ⟨t, ht, hq, e⟩
  wire := h.wire

theorem sclientSend (h : p.Owned handles) {client : SClient} (msg : List UInt8) {queued : Bool}
    (hlive : SClient.Queues client queued → handles.Denotes client.socket) :
    (Sclient.sclientSend p client msg queued).1.Owned handles := by
  rcases sclientSend_cases p client msg queued with ⟨hp, -⟩ | ⟨hqueues, hq⟩
  · rw [hp]
    exact h
  · rw [hq]
    refine ⟨?_, h.wire⟩
    intro t ht hphase
    rcases List.mem_append.mp ht with ht | ht
    · exact h.queued t ht hphase
    · obtain rfl := List.mem_singleton.mp ht
      exact hlive hqueues

theorem sendThreadSend {p' : Pool} {k : Nat} {r : SendResult} (h : p.Owned handles)
    (hs : Sclient.sendThreadSend p handles k r = some p') : p'.Owned handles := by
  obtain ⟨node, hk, -, rfl⟩ := sendThreadSend_eq hs
  constructor
  · intro t ht hphase
    rcases List.mem_or_eq_of_mem_set ht with ht | rfl
    · exact h.queued t ht hphase
    · cases hphase
  · intro e he
    rcases List.mem_append.mp he with he | he
    · exact h.wire e he
    · obtain rfl := List.mem_singleton.mp he
      exact h.queued _ (List.mem_of_getElem? hk) rfl

theorem sendThreadPost {p' : Pool} {k : Nat} {r : SendReport} (h : p.Owned handles)
    (hs : Sclient.sendThreadPost p k = some (p', r)) : p'.Owned handles := by
  obtain ⟨node, st, -, rfl, -⟩ := sendThreadPost_eq hs
  exact ⟨fun t ht => h.queued t (List.mem_of_mem_eraseIdx ht), h.wire⟩

end Pool.Owned

end WingPhp.Sclient
