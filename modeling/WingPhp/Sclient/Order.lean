import Mathlib.Data.List.Sublists
import WingPhp.Lib.Position
import WingPhp.Sclient.Pool

/-!
# What reaches a connection, and in which order

A script calls `wing_sclient::send`; every call becomes a pool item of its own,
and `send_thread` takes any number of bytes other than `SOCKET_ERROR` for
success.  So two messages can swap and a message can be cut short, unless the
items of the connection happen to run in turn and the peer's window takes
each message whole (`InTurn`).  In the runs where they do,
`sends_inTurn` is what one expects of `send`: whole messages in call order, and
a report of success only for a message all of whose bytes were written.

`handles` stays fixed here: what happens when a handle is closed and given out
again is the subject of `WingPhp.Sclient.Reuse`.
-/

namespace WingPhp.Sclient

open Transition

/-- The pool and the `WM_ONSEND` messages posted so far. -/
structure Sending where
  pool : Pool
  reports : List SendReport
  deriving DecidableEq, Repr

inductive Act where
  | call (client : SClient) (msg : List UInt8) (queued : Bool)
  | send (k : Nat) (r : SendResult)
  | post (k : Nat)

def Sending.step (handles : Handles) (s : Sending) : Act → Option Sending
  | .call client msg queued =>
    let answer := sclientSend s.pool client msg queued
    some { pool := answer.1, reports := s.reports ++ answer.2.2.toList }
  | .send k r =>
    match sendThreadSend s.pool handles k r with
    | some pool => some { s with pool := pool }
    | none => none
  | .post k =>
    match sendThreadPost s.pool k with
    | some (pool, r) => some { pool := pool, reports := s.reports ++ [r] }
    | none => none

def sending (handles : Handles) : Machine Sending Act := ⟨⟨.empty, []⟩, Sending.step handles⟩

/-- The calls on connection `c`, in call order. -/
def Sending.callsOn (s : Sending) (handles : Handles) (c : Nat) : List SendNode :=
  s.pool.calls.filter fun node => handles node.socket.value = some c

/-- The bytes written to connection `c`. -/
def Sending.written (s : Sending) (c : Nat) : List UInt8 :=
  (s.pool.wire.filter fun e => e.target = some c).flatMap WireEvent.bytes

/-- A `send()` to connection `c` that does not fail takes the whole message, and
no later call's message was written to `c` before it. -/
def InTurn (handles : Handles) (c : Nat) (s : Sending) : Act → Prop
  | .send k (.wrote n) =>
    match s.pool.tasks[k]? with
    | some ⟨node, _⟩ =>
      handles node.socket.value = some c →
        n = node.len ∧ ∀ e ∈ s.pool.wire, e.target = some c → e.result ≠ .error →
          e.node.call < node.call
    | none => True
  | _ => True

instance (handles : Handles) (c : Nat) (s : Sending) (a : Act) : Decidable (InTurn handles c s a) := by
  unfold InTurn
  split
  · split <;> infer_instance
  · infer_instance

/-! ## The pool -/

/-- Calls are numbered in call order, and what runs in the pool or went over the
wire is one of them. -/
structure PoolAt (handles : Handles) (p : Pool) : Prop where
  numbered : ∀ (i : Nat) (node : SendNode), p.calls[i]? = some node →
    node.call = i ∧ node.msg.length = node.len
  tasks_called : ∀ t ∈ p.tasks, p.calls[t.node.call]? = some t.node
  wire_called : ∀ e ∈ p.wire, p.calls[e.node.call]? = some e.node
  wire_target : ∀ e ∈ p.wire, e.target = handles e.node.socket.value
  sent_wire : ∀ t ∈ p.tasks, ∀ st, t.phase = .sent st →
    ∃ e ∈ p.wire, e.node = t.node ∧ (st = 1 → e.result ≠ .error)

theorem PoolAt.enqueue {handles : Handles} {p : Pool} (h : PoolAt handles p) (socket : Sock)
    (msg : List UInt8) :
    PoolAt handles (p.enqueue ⟨socket, msg.take msg.length, msg.length, p.calls.length⟩) := by
  have hcalled : ∀ (i : Nat) (node new : SendNode), p.calls[i]? = some node →
      (p.calls ++ [new])[i]? = some node := by
    intro i node new hi
    rw [List.getElem?_append_left (List.getElem?_eq_some_iff.mp hi).1]
    exact hi
  constructor
  · intro i node hi
    unfold Pool.enqueue at hi
    rcases Nat.lt_trichotomy i p.calls.length with hlt | rfl | hgt
    · rw [List.getElem?_append_left hlt] at hi
      exact h.numbered i node hi
    · rw [List.getElem?_concat_length] at hi
      cases hi
      exact ⟨rfl, by simp⟩
    · rw [List.getElem?_eq_none (by simp; omega)] at hi
      cases hi
  · intro t ht
    rcases List.mem_append.mp ht with ht | ht
    · exact hcalled _ _ _ (h.tasks_called t ht)
    · obtain rfl := List.mem_singleton.mp ht
      exact List.getElem?_concat_length
  · intro e he
    exact hcalled _ _ _ (h.wire_called e he)
  · exact h.wire_target
  · intro t ht st hst
    rcases List.mem_append.mp ht with ht | ht
    · exact h.sent_wire t ht st hst
    · obtain rfl := List.mem_singleton.mp ht
      cases hst

theorem PoolAt.send {handles : Handles} {p p' : Pool} (h : PoolAt handles p) {k : Nat} {r : SendResult}
    (hs : sendThreadSend p handles k r = some p') : PoolAt handles p' := by
  obtain ⟨node, hk, -, rfl⟩ := sendThreadSend_eq hs
  have hnode := h.tasks_called _ (List.mem_of_getElem? hk)
  constructor
  · exact h.numbered
  · intro t ht
    rcases List.mem_or_eq_of_mem_set ht with ht | rfl
    · exact h.tasks_called t ht
    · exact hnode
  · intro e he
    rcases List.mem_append.mp he with he | he
    · exact h.wire_called e he
    · obtain rfl := List.mem_singleton.mp he
      exact hnode
  · intro e he
    rcases List.mem_append.mp he with he | he
    · exact h.wire_target e he
    · obtain rfl := List.mem_singleton.mp he
      rfl
  · intro t ht st hst
    rcases List.mem_or_eq_of_mem_set ht with ht | rfl
    · obtain ⟨e, he, hrest⟩ := h.sent_wire t ht st hst
      exact ⟨e, List.mem_append_left _ he, hrest⟩
    · refine ⟨_, List.mem_append_right _ (List.mem_singleton_self _), rfl, ?_⟩
      rintro rfl
      cases r <;> simp_all

theorem PoolAt.post {handles : Handles} {p : Pool} (h : PoolAt handles p) (k : Nat) :
    PoolAt handles { p with tasks := p.tasks.eraseIdx k } where
  numbered := h.numbered
  tasks_called t ht := h.tasks_called t (List.mem_of_mem_eraseIdx ht)
  wire_called := h.wire_called
  wire_target := h.wire_target
  sent_wire t ht := h.sent_wire t (List.mem_of_mem_eraseIdx ht)

/-! ## Runs in turn -/

structure TurnAt (handles : Handles) (c : Nat) (s : Sending) : Prop where
  pool : PoolAt handles s.pool
  whole : ∀ e ∈ s.pool.wire, e.target = some c → e.result ≠ .error → e.result = .wrote e.node.len
  ordered : s.pool.wire.Pairwise fun e e' => e.target = some c → e'.target = some c →
    e.result ≠ .error → e'.result ≠ .error → e.node.call < e'.node.call
  reported : ∀ r ∈ s.reports, r.sendStatus = 1 →
    ∃ e ∈ s.pool.wire, r.call = some e.node.call ∧ r.socket = e.node.socket ∧ e.result ≠ .error

namespace TurnAt

variable {handles : Handles} {c : Nat} {p p' : Pool} {reports : List SendReport}

theorem call (h : TurnAt handles c ⟨p, reports⟩) (client : SClient) (msg : List UInt8)
    (queued : Bool) :
    TurnAt handles c ⟨(sclientSend p client msg queued).1,
      reports ++ (sclientSend p client msg queued).2.2.toList⟩ := by
  rcases sclientSend_cases p client msg queued with ⟨hp, hr⟩ | ⟨-, hq⟩
  · -- nothing was queued
    rw [hp]
    refine ⟨h.pool, h.whole, h.ordered, ?_⟩
    intro r hmem hst
    rcases List.mem_append.mp hmem with hmem | hmem
    · exact h.reported r hmem hst
    · rw [(hr r (Option.mem_toList.mp hmem)).1] at hst
      cases hst
  · rw [hq]
    refine ⟨h.pool.enqueue client.socket msg, h.whole, h.ordered, ?_⟩
    rw [Option.toList_none, List.append_nil]
    exact h.reported

theorem send (h : TurnAt handles c ⟨p, reports⟩) {k : Nat} {r : SendResult}
    (hok : InTurn handles c ⟨p, reports⟩ (.send k r)) (hs : sendThreadSend p handles k r = some p') :
    TurnAt handles c ⟨p', reports⟩ := by
  have hpool := h.pool.send hs
  obtain ⟨node, hk, hallowed, rfl⟩ := sendThreadSend_eq hs
  -- the condition, for an answer that is not an error
  have hturn : r ≠ .error → handles node.socket.value = some c → r = .wrote node.len ∧
      ∀ e ∈ p.wire, e.target = some c → e.result ≠ .error → e.node.call < node.call := by
    intro hr hc
    cases r with
    | error => exact absurd rfl hr
    | wrote n =>
      simp only [InTurn, hk] at hok
      obtain ⟨rfl, hrest⟩ := hok hc
      exact ⟨rfl, hrest⟩
  refine ⟨hpool, ?_, ?_, ?_⟩
  · intro e he hc hr
    rcases List.mem_append.mp he with he | he
    · exact h.whole e he hc hr
    · obtain rfl := List.mem_singleton.mp he
      exact (hturn hr hc).1
  · show (p.wire ++ [_]).Pairwise _
    rw [List.pairwise_append]
    refine ⟨h.ordered, List.pairwise_singleton _ _, ?_⟩
    intro e he e' he' hc hc' hr hr'
    obtain rfl := List.mem_singleton.mp he'
    exact (hturn hr' hc').2 e he hc hr
  · intro rep hmem hst
    obtain ⟨e, he, hrest⟩ := h.reported rep hmem hst
    exact ⟨e, List.mem_append_left _ he, hrest⟩

theorem post (h : TurnAt handles c ⟨p, reports⟩) {k : Nat} {rep : SendReport}
    (hp : sendThreadPost p k = some (p', rep)) : TurnAt handles c ⟨p', reports ++ [rep]⟩ := by
  obtain ⟨node, st, hk, rfl, rfl⟩ := sendThreadPost_eq hp
  refine ⟨h.pool.post k, h.whole, h.ordered, ?_⟩
  intro rep hmem hst
  rcases List.mem_append.mp hmem with hmem | hmem
  · exact h.reported rep hmem hst
  · obtain rfl := List.mem_singleton.mp hmem
    obtain ⟨e, he, hnode, hr⟩ := h.pool.sent_wire _ (List.mem_of_getElem? hk) st rfl
    exact ⟨e, he, by rw [hnode], by rw [hnode], hr hst⟩

end TurnAt

theorem step_turn {handles : Handles} {c : Nat} {s s' : Sending} {a : Act}
    (hi : TurnAt handles c s) (hok : InTurn handles c s a) (h : s.step handles a = some s') :
    TurnAt handles c s' := by
  unfold Sending.step at h
  cases a with
  | call client msg queued =>
    cases h
    exact hi.call client msg queued
  | send k r =>
    dsimp only at h
    split at h
    · next pool hs =>
      cases h
      exact hi.send hok hs
    · cases h
  | post k =>
    dsimp only at h
    split at h
    · next pool rep hp =>
      cases h
      exact hi.post hp
    · cases h

theorem reach_turn {handles : Handles} {c : Nat} {s : Sending}
    (h : (sending handles).Reach (InTurn handles c) s) : TurnAt handles c s := by
  have hstart : TurnAt handles c ⟨.empty, []⟩ :=
    ⟨⟨nofun, nofun, nofun, nofun, nofun⟩, nofun, List.Pairwise.nil, nofun⟩
  refine h.invariant hstart ?_
  intro s a s' _ hi hok hs
  exact step_turn hi hok hs

/-! ## What the peer sees -/

/-- The calls whose message went over the wire to `c`, in the order in which it did. -/
def Sending.deliveredOn (s : Sending) (c : Nat) : List SendNode :=
  (s.pool.wire.filter fun e => e.target = some c ∧ e.result ≠ .error).map WireEvent.node

theorem TurnAt.bytes {handles : Handles} {c : Nat} {s : Sending} (h : TurnAt handles c s) {e : WireEvent}
    (he : e ∈ s.pool.wire) (hc : e.target = some c) (hr : e.result ≠ .error) : e.bytes = e.node.msg := by
  have hlen := (h.pool.numbered _ _ (h.pool.wire_called e he)).2
  rw [WireEvent.bytes, h.whole e he hc hr, ← hlen]
  exact List.take_length

theorem TurnAt.written {handles : Handles} {c : Nat} {s : Sending} (h : TurnAt handles c s) :
    s.written c = (s.deliveredOn c).flatMap SendNode.msg := by
  have key : ∀ es : List WireEvent, (∀ e ∈ es, e.target = some c → e.result ≠ .error → e.bytes = e.node.msg) →
      (es.filter fun e => e.target = some c).flatMap WireEvent.bytes =
        ((es.filter fun e => e.target = some c ∧ e.result ≠ .error).map WireEvent.node).flatMap
          SendNode.msg := by
    intro es
    induction es with
    | nil => exact fun _ => rfl
    | cons e es ih =>
      intro hes
      have ih := ih fun e' he' => hes e' (List.mem_cons_of_mem _ he')
      by_cases hc : e.target = some c
      · by_cases hr : e.result = .error
        · -- a failed call wrote nothing
          have hb : e.bytes = [] := by rw [WireEvent.bytes, hr]
          simp [hc, hr, hb, ih]
        · have hb := hes e List.mem_cons_self hc hr
          simp [hc, hr, hb, ih]
      · simp [hc, ih]
  exact key _ fun e he hc hr => h.bytes he hc hr

theorem TurnAt.delivered_sublist {handles : Handles} {c : Nat} {s : Sending}
    (h : TurnAt handles c s) : (s.deliveredOn c).Sublist (s.callsOn handles c) := by
  have hmem : ∀ node ∈ s.deliveredOn c,
      s.pool.calls[node.call]? = some node ∧ handles node.socket.value = some c := by
    intro node hnode
    obtain ⟨e, he, rfl⟩ := List.mem_map.mp hnode
    obtain ⟨he, hcr⟩ := List.mem_filter.mp he
    have hc := (of_decide_eq_true hcr).1
    exact ⟨h.pool.wire_called e he, h.pool.wire_target e he ▸ hc⟩
  have hinc : (s.deliveredOn c).Pairwise fun x y => x.call < y.call := by
    rw [Sending.deliveredOn, List.pairwise_map, List.pairwise_filter]
    refine h.ordered.imp ?_
    intro e e' hlt he he'
    have hcr := of_decide_eq_true he
    have hcr' := of_decide_eq_true he'
    exact hlt hcr.1 hcr'.1 hcr.2 hcr'.2
  have hsub := (Position.sublist_of_increasing SendNode.call (fun node hn => (hmem node hn).1) hinc).filter
    fun node => handles node.socket.value = some c
  rwa [List.filter_eq_self.mpr fun node hn => decide_eq_true (hmem node hn).2] at hsub

/-- **Sending in turn.**  The bytes on the connection are whole messages in call
order, and success is reported only for a message that is among them whole. -/
theorem sends_inTurn {handles : Handles} {c : Nat} {s : Sending}
    (h : (sending handles).Reach (InTurn handles c) s) :
    (∃ nodes : List SendNode, nodes.Sublist (s.callsOn handles c) ∧ s.written c = nodes.flatMap SendNode.msg) ∧
    (∀ r ∈ s.reports, r.sendStatus = 1 → handles r.socket.value = some c →
      ∃ e ∈ s.pool.wire, r.call = some e.node.call ∧ e.target = some c ∧ e.bytes = e.node.msg) := by
  have ht := reach_turn h
  refine ⟨⟨s.deliveredOn c, ht.delivered_sublist, ht.written⟩, ?_⟩
  intro r hr hst hc
  obtain ⟨e, he, hcall, hsock, hres⟩ := ht.reported r hr hst
  have htarget : e.target = some c := by
    rw [ht.pool.wire_target e he, ← hsock]
    exact hc
  exact ⟨e, he, hcall, htarget, ht.bytes he htarget hres⟩

/-- An object for connection `0`, whose handle is `4`. -/
def exampleClient : SClient := ⟨0, 0, 2, [], 0, ⟨4, 0⟩, 1, .select⟩

/-- Two messages written in turn. -/
theorem sends_inTurn_two_messages :
    ∃ s, (sending (Handles.none.give 4 0)).Reach (InTurn (Handles.none.give 4 0) 0) s ∧
      s.written 0 = [65, 66, 67, 68] ∧ s.reports.map SendReport.sendStatus = [1, 1] ∧
      ∃ nodes : List SendNode, nodes.Sublist (s.callsOn (Handles.none.give 4 0) 0) ∧
        s.written 0 = nodes.flatMap SendNode.msg := by
  obtain ⟨s, hr, hw, hst⟩ := Machine.exists_reach (M := sending (Handles.none.give 4 0))
    (InTurn (Handles.none.give 4 0) 0)
    (p := fun s => s.written 0 = [65, 66, 67, 68] ∧ s.reports.map SendReport.sendStatus = [1, 1])
    [.call exampleClient [65, 66] true, .call exampleClient [67, 68] true, .send 0 (.wrote 2),
      .send 1 (.wrote 2), .post 1, .post 0] (by decide)
  exact ⟨s, hr, hw, hst, (sends_inTurn hr).1⟩

/-- The second message runs first, and the first is cut after one byte; both are
reported as sent. -/
theorem sends_swapped_and_cut :
    ¬ ∀ (handles : Handles) (c : Nat) (s : Sending), (sending handles).Reachable s →
      (∃ nodes : List SendNode, nodes.Sublist (s.callsOn handles c) ∧
        s.written c = nodes.flatMap SendNode.msg) ∧
      (∀ r ∈ s.reports, r.sendStatus = 1 → handles r.socket.value = some c →
        ∃ e ∈ s.pool.wire, r.call = some e.node.call ∧ e.target = some c ∧ e.bytes = e.node.msg) := by
  intro hall
  obtain ⟨s, hr, hw, hcalls, -⟩ := Machine.exists_reachable (M := sending (Handles.none.give 4 0))
    (p := fun s => s.written 0 = [67, 68, 65] ∧
      s.callsOn (Handles.none.give 4 0) 0 = [⟨⟨4, 0⟩, [65, 66], 2, 0⟩, ⟨⟨4, 0⟩, [67, 68], 2, 1⟩] ∧
      s.reports.map SendReport.sendStatus = [1, 1])
    [.call exampleClient [65, 66] true, .call exampleClient [67, 68] true, .send 1 (.wrote 2),
      .send 0 (.wrote 1), .post 0, .post 0] (by decide)
  obtain ⟨nodes, hsub, hbytes⟩ := (hall _ 0 s hr).1
  rw [hcalls, ← List.mem_sublists] at hsub
  rw [hw] at hbytes
  revert nodes
  decide

end WingPhp.Sclient
