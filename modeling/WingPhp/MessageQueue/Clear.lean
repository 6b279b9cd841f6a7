import WingPhp.MessageQueue

/-!
# `message_queue_clear`

The queue is cleared when `start` of the select server gives up or comes to its end.  The nodes are deleted; the
messages in them are not, and nothing points to them any more.
-/

namespace WingPhp.MessageQueue

open Transition LinkedQueue

/-- `message_queue_clear` on an existing queue: the nodes that are deleted, and what the lists are when
`message_queue` itself is deleted.  `turns` bounds the turns of the loop. -/
def messageQueueClear (turns : Nat) (q : Queue Nat) : Option (List Nat × Queue Nat) := clear turns q

/-- **Clearing after any run** of posts and of the loop: the walk comes to its end without an access to a deleted node
and deletes every node once.  The messages that are lost with the nodes, still in memory, are those pushed and not taken
out, in their order. -/
theorem messageQueueClear_reachable {s : State} (h : posting.Reachable s) :
    ∃ freed : List Nat, (∀ turns, freed.length < turns → messageQueueClear turns s.queue = some (freed, .empty)) ∧
      freed.Nodup ∧ (∀ a, a ∈ freed ↔ s.queue.cells a ≠ none) ∧
      ∃ msgs : List Nat, freed.map (fun a => (s.queue.cells a).map Node.data) = msgs.map some ∧
        msgs.Nodup ∧ msgs.map s.elements = (s.pushed.drop s.taken).map some := by
  obtain ⟨l, hi⟩ := reachable_queue h
  have hone : (l.map Prod.snd).Nodup := by
    rw [List.nodup_iff_count_le_one]
    intro msg
    have hholders := hi.one_holder msg
    unfold holders at hholders
    rw [List.count_eq_countP]
    have heq : (l.map Prod.snd).countP (· == msg) = (l.map Prod.snd).countP (· = msg) := rfl
    omega
  refine ⟨l.map Prod.fst, ?_, hi.list.nodup, hi.list.present, l.map Prod.snd, hi.list.chain.data, hone, hi.waiting⟩
  intro turns hturns
  rw [List.length_map] at hturns
  exact clear_isQueue hi.list hturns

/-- Two messages are pushed and one is read; the other one is lost. -/
theorem messageQueueClear_reachable_one :
    ∃ s, posting.Reachable s ∧ s.pushed.drop s.taken = [⟨65, 5, 1, 0, 0⟩] ∧
      ∃ freed : List Nat, (∀ turns, freed.length < turns → messageQueueClear turns s.queue = some (freed, .empty)) ∧
        freed.Nodup ∧ (∀ a, a ∈ freed ↔ s.queue.cells a ≠ none) ∧
        ∃ msgs : List Nat, freed.map (fun a => (s.queue.cells a).map Node.data) = msgs.map some ∧
          msgs.Nodup ∧ msgs.map s.elements = (s.pushed.drop s.taken).map some := by
  obtain ⟨s, hr, hdrop⟩ := Machine.exists_reachable (M := posting)
    (p := fun s => s.pushed.drop s.taken = [⟨65, 5, 1, 0, 0⟩])
    [.call 65 1 5 0, .call 66 2 0 0, .post 0 100, .post 1 200, .post 0 0, .post 1 0, .get, .post 1 100, .get,
      .post 0 200, .get, .get] (by decide)
  exact ⟨s, hr, hdrop, messageQueueClear_reachable hr⟩

end WingPhp.MessageQueue
