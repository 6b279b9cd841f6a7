import WingPhp.Lib.Position
import WingPhp.Sclient.Pool

/-!
# Who deletes a send node

`socketSend` of `WingPhp.Sclient.Pool` takes a call of `socket_send` as one
step.  Here every allocation, release, post and hand-over of `socket_send` and
`send_thread` is a step of its own, for any number of calls at once, and memory
is explicit: nodes and copies of the message live at addresses that `new` hands
out, and which are handed out again once deleted.  A thread that touches a
block which is gone, or which meanwhile belongs to another call, crashes.

`socket_send_once`: every call has one `WM_ONSEND`, and its node and its copy
are deleted once, by the caller or by the pool thread, and then gone from memory.

Ghosts: a block carries the number of the call it was made for; a call carries
the addresses of its blocks and who deleted them.
-/

namespace WingPhp.Sclient.Ownership

open Transition

/-- The two threads a call of `socket_send` may run on. -/
inductive Thread where
  | caller
  | pool
  deriving DecidableEq, Repr

/-- A `socket_send_node` in memory; `msg` is a pointer, `call` a ghost. -/
structure NodeBlock where
  socket : Sock
  msg : Nat
  len : Nat
  call : Nat
  deriving DecidableEq, Repr

/-- The `char` array a node points to; `call` is a ghost. -/
structure MsgBlock where
  bytes : List UInt8
  call : Nat
  deriving DecidableEq, Repr

/-- `WM_ONSEND`; `call` and `thread` are ghosts. -/
structure Report where
  socket : Sock
  sendStatus : Nat
  call : Nat
  thread : Thread
  deriving DecidableEq, Repr

/-- Where the caller is in `socket_send`. -/
inductive CallerPc where
  | new
  | postNull
  | socketTest (node : Nat)
  | postInvalid (node : Nat)
  | deleteInvalid (node : Nat)
  | newMsg (node : Nat)
  | copy (node : Nat)
  | queue (node : Nat)
  | queued
  | deleteMsg (node : Nat)
  | deleteNode (node : Nat)
  | post
  | returned (ret : Nat)
  deriving DecidableEq, Repr

/-- Where the pool is with `send_thread`. -/
inductive PoolPc where
  | start (node : Nat)
  | send (node : Nat) (socket : Sock)
  | deleteMsg (node : Nat) (socket : Sock) (sendStatus : Nat)
  | deleteNode (node : Nat) (socket : Sock) (sendStatus : Nat)
  | post (socket : Sock) (sendStatus : Nat)
  | done
  deriving DecidableEq, Repr

/-- A call of `socket_send`; `node`, `copy` and the two lists are ghosts. -/
structure SendCall where
  socket : Sock
  msg : List UInt8
  len : Nat
  pc : CallerPc
  thread : Option PoolPc
  node : Option Nat
  copy : Option Nat
  nodeDeleted : List Thread
  copyDeleted : List Thread
  deriving DecidableEq, Repr

structure State where
  calls : List SendCall
  nodes : Nat → Option NodeBlock
  msgs : Nat → Option MsgBlock
  reports : List Report
  crashed : Bool

def State.init : State := ⟨[], fun _ => none, fun _ => none, [], false⟩

/-- The node at `a`, if it is there and belongs to call `k`. -/
def State.node (s : State) (k a : Nat) : Option NodeBlock := (s.nodes a).filter (·.call = k)

def State.copy (s : State) (k a : Nat) : Option MsgBlock := (s.msgs a).filter (·.call = k)

def State.put (s : State) (k : Nat) (c : SendCall) : State := { s with calls := s.calls.set k c }

def State.crash (s : State) : State := { s with crashed := true }

/-- `iocp_post_queue_msg( WM_ONSEND, … )`. -/
def State.post (s : State) (r : Report) : State := { s with reports := s.reports ++ [r] }

/-- What the outside world answers. -/
inductive Input where
  | go
  | address (a : Nat)
  | queueUserWorkItem (ret : Bool)
  | sent (r : SendResult)

/-- `delete node`, after which the call is `c`. -/
def State.deleteNode (s : State) (k a : Nat) (c : SendCall) : State :=
  match s.node k a with
  | some _ => { s.put k c with nodes := Function.update s.nodes a none }
  | none => s.crash

/-- `delete[] node->msg`, after which the call is `c`. -/
def State.deleteMsg (s : State) (k a : Nat) (c : SendCall) : State :=
  match s.node k a with
  | some node =>
    match s.copy k node.msg with
    | some _ => { s.put k c with msgs := Function.update s.msgs node.msg none }
    | none => s.crash
  | none => s.crash

/-- A step of the caller of call `k`. -/
def socketSend (s : State) (k : Nat) (input : Input) : Option State :=
  match s.calls[k]? with
  | none => none
  | some c =>
    match c.pc, input with
    | .new, .address a =>
      if a = 0 then some (s.put k { c with pc := .postNull })
      else if s.nodes a = none then
        some { s.put k { c with pc := .socketTest a, node := some a } with
          nodes := Function.update s.nodes a (some ⟨⟨0, 0⟩, 0, 0, k⟩) }
      else none
    | .postNull, .go => some ((s.put k { c with pc := .returned 0 }).post ⟨c.socket, 0, k, .caller⟩)
    | .socketTest a, .go =>
      if invalidSocketValue = c.socket.value then some (s.put k { c with pc := .postInvalid a })
      else some (s.put k { c with pc := .newMsg a })
    | .postInvalid a, .go =>
      some ((s.put k { c with pc := .deleteInvalid a }).post ⟨c.socket, 0, k, .caller⟩)
    | .deleteInvalid a, .go =>
      some (s.deleteNode k a { c with pc := .returned 0, nodeDeleted := c.nodeDeleted ++ [.caller] })
    | .newMsg a, .address b =>
      if b ≠ 0 ∧ s.msgs b = none then
        match s.node k a with
        | some node =>
          some { s.put k { c with pc := .copy a, copy := some b } with
            nodes := Function.update s.nodes a
              (some { node with socket := c.socket, msg := b, len := c.len })
            msgs := Function.update s.msgs b (some ⟨[], k⟩) }
        | none => some s.crash
      else none
    | .copy a, .go =>
      match s.node k a with
      | some node =>
        match s.copy k node.msg with
        | some copy =>
          some { s.put k { c with pc := .queue a } with
            msgs := Function.update s.msgs node.msg (some { copy with bytes := c.msg.take c.len }) }
        | none => some s.crash
      | none => some s.crash
    | .queue a, .queueUserWorkItem ret =>
      if ret then some (s.put k { c with pc := .queued, thread := some (.start a) })
      else some (s.put k { c with pc := .deleteMsg a })
    | .queued, .go => some (s.put k { c with pc := .returned 1 })
    | .deleteMsg a, .go =>
      some (s.deleteMsg k a { c with pc := .deleteNode a, copyDeleted := c.copyDeleted ++ [.caller] })
    | .deleteNode a, .go =>
      some (s.deleteNode k a { c with pc := .post, nodeDeleted := c.nodeDeleted ++ [.caller] })
    | .post, .go => some ((s.put k { c with pc := .returned 0 }).post ⟨c.socket, 0, k, .caller⟩)
    | _, _ => none

/-- A step of the pool thread that runs the item of call `k`. -/
def sendThread (s : State) (k : Nat) (input : Input) : Option State :=
  match s.calls[k]? with
  | none => none
  | some c =>
    match c.thread, input with
    | some (.start a), .go =>
      match s.node k a with
      | some node => some (s.put k { c with thread := some (.send a node.socket) })
      | none => some s.crash
    | some (.send a socket), .sent r =>
      match s.node k a with
      | some node =>
        match s.copy k node.msg with
        | some _ =>
          if r.Allowed node.len then
            let sendStatus := if r = .error then 0 else 1
            some (s.put k { c with thread := some (.deleteMsg a socket sendStatus) })
          else none
        | none => some s.crash
      | none => some s.crash
    | some (.deleteMsg a socket st), .go =>
      some (s.deleteMsg k a
        { c with thread := some (.deleteNode a socket st), copyDeleted := c.copyDeleted ++ [.pool] })
    | some (.deleteNode a socket st), .go =>
      some (s.deleteNode k a
        { c with thread := some (.post socket st), nodeDeleted := c.nodeDeleted ++ [.pool] })
    | some (.post socket st), .go =>
      some ((s.put k { c with thread := some .done }).post ⟨socket, st, k, .pool⟩)
    | _, _ => none

inductive Act where
  | call (socket : Sock) (msg : List UInt8) (len : Nat)
  | caller (k : Nat) (input : Input)
  | pool (k : Nat) (input : Input)

def step (s : State) (a : Act) : Option State :=
  if s.crashed then none
  else
    match a with
    | .call socket msg len =>
      some { s with calls := s.calls ++ [⟨socket, msg, len, .new, none, none, none, [], []⟩] }
    | .caller k input => socketSend s k input
    | .pool k input => sendThread s k input

def calling : Machine State Act := ⟨.init, step⟩

/-- The caller has returned, and so has the pool thread if the item was queued. -/
def SendCall.Finished (c : SendCall) : Prop :=
  (c.pc = .returned 0 ∨ c.pc = .returned 1) ∧ (c.thread = none ∨ c.thread = some .done)

instance (c : SendCall) : Decidable c.Finished := inferInstanceAs (Decidable (_ ∧ _))

/-- The messages posted for call `k`. -/
def reportsOf (k : Nat) (reports : List Report) : List Report := reports.filter fun r => r.call = k

/-! ## The invariant -/

/-- The blocks of call `k` that are in memory. -/
structure Memory where
  nodes : Nat → Option NodeBlock
  msgs : Nat → Option MsgBlock

def State.memory (s : State) : Memory := ⟨s.nodes, s.msgs⟩

/-- The node at `a` is there for call `k`. -/
def Memory.HasNode (m : Memory) (k a : Nat) : Prop := ∃ node, m.nodes a = some node ∧ node.call = k

/-- So is the node at `a` with its socket, and the copy at `b` it points to. -/
def Memory.HasBoth (m : Memory) (k a b : Nat) (socket : Sock) : Prop :=
  (∃ node, m.nodes a = some node ∧ node.call = k ∧ node.msg = b ∧ node.socket = socket) ∧
    ∃ copy, m.msgs b = some copy ∧ copy.call = k

/-- The blocks made for a call, and who has deleted them; a copy is made only for a
socket that passed the test. -/
def Blocks (c : SendCall) (node copy : Option Nat) (nodeDeleted copyDeleted : List Thread) : Prop :=
  c.node = node ∧ c.copy = copy ∧ c.nodeDeleted = nodeDeleted ∧ c.copyDeleted = copyDeleted ∧
    (copy ≠ none → c.socket.value ≠ invalidSocketValue)

/-- The pool thread of call `k`. -/
def PoolAt (m : Memory) (k : Nat) (c : SendCall) (rs : List Report) : PoolPc → Prop
  | .start a => rs = [] ∧ ∃ b, Blocks c (some a) (some b) [] [] ∧ m.HasBoth k a b c.socket
  | .send a socket | .deleteMsg a socket _ =>
    rs = [] ∧ socket = c.socket ∧ ∃ b, Blocks c (some a) (some b) [] [] ∧ m.HasBoth k a b c.socket
  | .deleteNode a socket _ =>
    rs = [] ∧ socket = c.socket ∧ ∃ b, Blocks c (some a) (some b) [] [.pool] ∧ m.HasNode k a
  | .post socket _ => rs = [] ∧ socket = c.socket ∧ ∃ a b, Blocks c (some a) (some b) [.pool] [.pool]
  | .done => (∃ st, rs = [⟨c.socket, st, k, .pool⟩]) ∧ ∃ a b, Blocks c (some a) (some b) [.pool] [.pool]

/-- What has become of a call that returned `0`. -/
def Refused (c : SendCall) : Prop :=
  Blocks c none none [] [] ∨ (∃ a, Blocks c (some a) none [.caller] []) ∨
    ∃ a b, Blocks c (some a) (some b) [.caller] [.caller]

/-- Call `k`, whose messages are `rs`. -/
def CallAt (m : Memory) (k : Nat) (c : SendCall) (rs : List Report) : Prop :=
  match c.pc with
  | .new | .postNull => c.thread = none ∧ rs = [] ∧ Blocks c none none [] []
  | .socketTest a | .postInvalid a =>
    c.thread = none ∧ rs = [] ∧ Blocks c (some a) none [] [] ∧ m.HasNode k a
  | .newMsg a =>
    c.thread = none ∧ rs = [] ∧ Blocks c (some a) none [] [] ∧ m.HasNode k a ∧
      c.socket.value ≠ invalidSocketValue
  | .deleteInvalid a =>
    c.thread = none ∧ rs = [⟨c.socket, 0, k, .caller⟩] ∧ Blocks c (some a) none [] [] ∧ m.HasNode k a
  | .copy a | .queue a | .deleteMsg a =>
    c.thread = none ∧ rs = [] ∧ ∃ b, Blocks c (some a) (some b) [] [] ∧ m.HasBoth k a b c.socket
  | .deleteNode a =>
    c.thread = none ∧ rs = [] ∧ ∃ b, Blocks c (some a) (some b) [] [.caller] ∧ m.HasNode k a
  | .post => c.thread = none ∧ rs = [] ∧ ∃ a b, Blocks c (some a) (some b) [.caller] [.caller]
  | .queued => ∃ t, c.thread = some t ∧ PoolAt m k c rs t
  | .returned ret =>
    (ret = 1 ∧ ∃ t, c.thread = some t ∧ PoolAt m k c rs t) ∨
      (ret = 0 ∧ c.thread = none ∧ rs = [⟨c.socket, 0, k, .caller⟩] ∧ Refused c)

/-- There is always memory left. -/
def Bounded {β : Type} (mem : Nat → Option β) : Prop := ∃ n, ∀ a, n ≤ a → mem a = none

/-- What is in memory for call `k` was allocated by it and is not deleted. -/
structure Owns (m : Memory) (k : Nat) (c : SendCall) : Prop where
  node : ∀ a node, m.nodes a = some node → node.call = k → c.node = some a ∧ c.nodeDeleted = []
  copy : ∀ b copy, m.msgs b = some copy → copy.call = k → c.copy = some b ∧ c.copyDeleted = []

/-- Every block was made for a call. -/
structure Memory.MadeFor (m : Memory) (calls : Nat) : Prop where
  nodes : ∀ a node, m.nodes a = some node → node.call < calls
  msgs : ∀ b copy, m.msgs b = some copy → copy.call < calls

structure OwnershipInv (s : State) : Prop where
  crashed : s.crashed = false
  calls : ∀ (k : Nat) (c : SendCall), s.calls[k]? = some c → CallAt s.memory k c (reportsOf k s.reports)
  owns : ∀ (k : Nat) (c : SendCall), s.calls[k]? = some c → Owns s.memory k c
  made : s.memory.MadeFor s.calls.length
  reported : ∀ r ∈ s.reports, r.call < s.calls.length
  room : Bounded s.msgs

/-! ## What a call does leaves the others alone -/

/-- Nothing of another call's blocks has changed. -/
def Memory.SameFor (m m' : Memory) (i : Nat) : Prop :=
  (∀ a node, node.call = i → (m.nodes a = some node ↔ m'.nodes a = some node)) ∧
    ∀ b copy, copy.call = i → (m.msgs b = some copy ↔ m'.msgs b = some copy)

theorem Memory.HasNode.frame {m m' : Memory} {k a : Nat} (h : m.HasNode k a) (hm : m.SameFor m' k) :
    m'.HasNode k a := by
  obtain ⟨node, hn, hk⟩ := h
  exact ⟨node, (hm.1 a node hk).mp hn, hk⟩

theorem Memory.HasBoth.frame {m m' : Memory} {k a b : Nat} {socket : Sock}
    (h : m.HasBoth k a b socket) (hm : m.SameFor m' k) : m'.HasBoth k a b socket := by
  obtain ⟨⟨node, hn, hk, hrest⟩, copy, hc, hck⟩ := h
  exact ⟨⟨node, (hm.1 a node hk).mp hn, hk, hrest⟩, copy, (hm.2 b copy hck).mp hc, hck⟩

theorem PoolAt.frame {m m' : Memory} {k : Nat} {c : SendCall} {rs : List Report} {t : PoolPc}
    (h : PoolAt m k c rs t) (hm : m.SameFor m' k) : PoolAt m' k c rs t := by
  cases t with
  | start a =>
    obtain ⟨hrs, b, hb, hboth⟩ := h
    exact ⟨hrs, b, hb, hboth.frame hm⟩
  | send a socket | deleteMsg a socket st =>
    obtain ⟨hrs, hs, b, hb, hboth⟩ := h
    exact ⟨hrs, hs, b, hb, hboth.frame hm⟩
  | deleteNode a socket st =>
    obtain ⟨hrs, hs, b, hb, hnode⟩ := h
    exact ⟨hrs, hs, b, hb, hnode.frame hm⟩
  | post socket st => exact h
  | done => exact h

theorem CallAt.frame {m m' : Memory} {k : Nat} {c : SendCall} {rs : List Report}
    (h : CallAt m k c rs) (hm : m.SameFor m' k) : CallAt m' k c rs := by
  unfold CallAt at h ⊢
  generalize c.pc = pc at h ⊢
  cases pc with
  | new | postNull | post => exact h
  | socketTest | postInvalid | deleteInvalid =>
    obtain ⟨ht, hrs, hb, hnode⟩ := h
    exact ⟨ht, hrs, hb, hnode.frame hm⟩
  | newMsg =>
    obtain ⟨ht, hrs, hb, hnode, hv⟩ := h
    exact ⟨ht, hrs, hb, hnode.frame hm, hv⟩
  | copy | queue | deleteMsg =>
    obtain ⟨ht, hrs, b, hb, hboth⟩ := h
    exact ⟨ht, hrs, b, hb, hboth.frame hm⟩
  | deleteNode =>
    obtain ⟨ht, hrs, b, hb, hnode⟩ := h
    exact ⟨ht, hrs, b, hb, hnode.frame hm⟩
  | queued =>
    obtain ⟨t, ht, hp⟩ := h
    exact ⟨t, ht, hp.frame hm⟩
  | returned =>
    rcases h with ⟨hret, t, ht, hp⟩ | h
    · exact .inl ⟨hret, t, ht, hp.frame hm⟩
    · exact .inr h

theorem Memory.SameFor.refl (m : Memory) (i : Nat) : m.SameFor m i :=
  ⟨fun _ _ _ => Iff.rfl, fun _ _ _ => Iff.rfl⟩

theorem Owns.frame {m m' : Memory} {k : Nat} {c : SendCall} (h : Owns m k c) (hm : m.SameFor m' k) :
    Owns m' k c where
  node a node hn hk := h.node a node ((hm.1 a node hk).mpr hn) hk
  copy b copy hc hk := h.copy b copy ((hm.2 b copy hk).mpr hc) hk

/-- A store for call `k` at an address that is free or belongs to it. -/
theorem update_of_owned {β : Type} {mem : Nat → Option β} {owner : β → Nat} {a k i : Nat} {x : Option β}
    (hx : ∀ y, x = some y → owner y = k) (ha : ∀ y, mem a = some y → owner y = k) (hik : i ≠ k) :
    ∀ p y, owner y = i → (mem p = some y ↔ Function.update mem a x p = some y) := by
  intro p y hy
  by_cases hpa : p = a
  · subst hpa
    rw [Function.update_self]
    constructor
    · exact fun hp => absurd (hy.symm.trans (ha y hp)) hik
    · exact fun hp => absurd (hy.symm.trans (hx y hp)) hik
  · rw [Function.update_of_ne hpa]

theorem owned {β : Type} {mem : Nat → Option β} {owner : β → Nat} {a k : Nat} {x : β}
    (hx : mem a = some x) (hk : owner x = k) : ∀ y, mem a = some y → owner y = k := by
  intro y hy
  rw [hx] at hy
  rw [← Option.some.inj hy]
  exact hk

theorem owned_of_free {β : Type} {mem : Nat → Option β} {owner : β → Nat} {a k : Nat}
    (ha : mem a = none) : ∀ y, mem a = some y → owner y = k := by
  intro y hy
  rw [ha] at hy
  cases hy

theorem Bounded.update {β : Type} {mem : Nat → Option β} (h : Bounded mem) (a : Nat) (x : Option β) :
    Bounded (Function.update mem a x) := by
  obtain ⟨n, hn⟩ := h
  refine ⟨n + a + 1, fun b hb => ?_⟩
  rw [Function.update_of_ne (by omega)]
  exact hn b (by omega)

/-- **Step rule.**  A step of call `k` that stores only at free addresses and at
its own, and posts only for itself. -/
theorem OwnershipInv.move {s s' : State} (hi : OwnershipInv s) {k : Nat} {c c' : SendCall}
    (hk : s.calls[k]? = some c) (new : List Report) (hcalls : s'.calls = s.calls.set k c')
    (hcrashed : s'.crashed = false) (hreports : s'.reports = s.reports ++ new)
    (hnew : ∀ r ∈ new, r.call = k) (hroom : Bounded s'.msgs)
    (hm : ∀ i, i ≠ k → s.memory.SameFor s'.memory i) (ho : Owns s'.memory k c')
    (hc : CallAt s'.memory k c' (reportsOf k s.reports ++ new)) : OwnershipInv s' := by
  have hklt : k < s.calls.length := (List.getElem?_eq_some_iff.mp hk).1
  have hself : reportsOf k new = new := by
    unfold reportsOf
    rw [List.filter_eq_self]
    simpa using hnew
  constructor
  · exact hcrashed
  · intro i ci hci
    rw [hcalls] at hci
    rw [hreports, reportsOf, List.filter_append]
    change CallAt _ _ _ (reportsOf i s.reports ++ reportsOf i new)
    rcases Position.getElem?_stored hci with ⟨rfl, rfl⟩ | ⟨hne, hci⟩
    · rw [hself]
      exact hc
    · have hnone : reportsOf i new = [] := by
        unfold reportsOf
        rw [List.filter_eq_nil_iff]
        intro r hr
        simp [hnew r hr, Ne.symm hne]
      rw [hnone, List.append_nil]
      exact (hi.calls i ci hci).frame (hm i hne)
  · intro i ci hci
    rw [hcalls] at hci
    rcases Position.getElem?_stored hci with ⟨rfl, rfl⟩ | ⟨hne, hci⟩
    · exact ho
    · exact (hi.owns i ci hci).frame (hm i hne)
  · rw [hcalls, List.length_set]
    constructor
    · intro a node hn
      by_cases hik : node.call = k
      · rwa [hik]
      · exact hi.made.nodes a node (((hm _ hik).1 a node rfl).mpr hn)
    · intro b copy hb
      by_cases hik : copy.call = k
      · rwa [hik]
      · exact hi.made.msgs b copy (((hm _ hik).2 b copy rfl).mpr hb)
  · intro r hr
    rw [hreports, List.mem_append] at hr
    rw [hcalls, List.length_set]
    rcases hr with hr | hr
    · exact hi.reported r hr
    · rw [hnew r hr]
      exact hklt
  · exact hroom

/-- A step of call `k` that posts nothing. -/
theorem OwnershipInv.silent {s s' : State} (hi : OwnershipInv s) {k : Nat} {c c' : SendCall}
    (hk : s.calls[k]? = some c) (hcalls : s'.calls = s.calls.set k c') (hcrashed : s'.crashed = s.crashed)
    (hreports : s'.reports = s.reports) (hroom : Bounded s'.msgs)
    (hm : ∀ i, i ≠ k → s.memory.SameFor s'.memory i) (ho : Owns s'.memory k c')
    (hc : CallAt s'.memory k c' (reportsOf k s.reports)) : OwnershipInv s' := by
  refine hi.move hk [] hcalls (hcrashed.trans hi.crashed) ?_ (by simp) hroom hm ho ?_
  · rw [List.append_nil]
    exact hreports
  · rw [List.append_nil]
    exact hc

/-- The call goes on with the blocks it has. -/
def SendCall.SameBlocks (c c' : SendCall) : Prop :=
  c'.node = c.node ∧ c'.copy = c.copy ∧ c'.nodeDeleted = c.nodeDeleted ∧ c'.copyDeleted = c.copyDeleted

theorem Owns.same {m : Memory} {k : Nat} {c c' : SendCall} (h : Owns m k c) (hc : c.SameBlocks c') :
    Owns m k c' := by
  obtain ⟨hnode, hcopy, hnd, hcd⟩ := hc
  constructor
  · rw [hnode, hnd]
    exact h.node
  · rw [hcopy, hcd]
    exact h.copy

/-- A step of call `k` that stores nothing. -/
theorem OwnershipInv.put {s : State} (hi : OwnershipInv s) {k : Nat} {c c' : SendCall}
    (hk : s.calls[k]? = some c) (hb : c.SameBlocks c')
    (hc : CallAt s.memory k c' (reportsOf k s.reports)) : OwnershipInv (s.put k c') :=
  hi.silent hk rfl rfl rfl hi.room (fun i _ => Memory.SameFor.refl _ i) ((hi.owns k c hk).same hb) hc

/-- A step of call `k` that posts. -/
theorem OwnershipInv.post {s : State} (hi : OwnershipInv s) {k : Nat} {c c' : SendCall}
    (hk : s.calls[k]? = some c) {r : Report} (hr : r.call = k) (hb : c.SameBlocks c')
    (hc : CallAt s.memory k c' (reportsOf k s.reports ++ [r])) :
    OwnershipInv ((s.put k c').post r) :=
  hi.move hk [r] rfl hi.crashed rfl (by simp [hr]) hi.room (fun i _ => Memory.SameFor.refl _ i)
    ((hi.owns k c hk).same hb) hc

theorem node_eq {s : State} {k a : Nat} {node : NodeBlock} (hn : s.nodes a = some node)
    (hk : node.call = k) : s.node k a = some node := by
  simp [State.node, hn, hk]

theorem copy_eq {s : State} {k b : Nat} {copy : MsgBlock} (hc : s.msgs b = some copy)
    (hk : copy.call = k) : s.copy k b = some copy := by
  simp [State.copy, hc, hk]

/-- Nothing is stored. -/
theorem nothing_owned {β : Type} {owner : β → Nat} {k : Nat} : ∀ y, (none : Option β) = some y → owner y = k :=
  fun _ h => by cases h

/-- A block of call `k` is stored. -/
theorem one_owned {β : Type} {owner : β → Nat} {k : Nat} {x : β} (hx : owner x = k) :
    ∀ y, some x = some y → owner y = k := by
  rintro y ⟨⟩
  exact hx

theorem OwnershipInv.deleteNode {s : State} (hi : OwnershipInv s) {k a : Nat} {c c' : SendCall}
    (hk : s.calls[k]? = some c) (ha : s.memory.HasNode k a)
    (hb : c'.copy = c.copy ∧ c'.copyDeleted = c.copyDeleted)
    (hc : CallAt ⟨Function.update s.nodes a none, s.msgs⟩ k c' (reportsOf k s.reports)) :
    OwnershipInv (s.deleteNode k a c') := by
  obtain ⟨node, hn, hnk⟩ := ha
  have ho := hi.owns k c hk
  rw [State.deleteNode, node_eq hn hnk]
  show OwnershipInv { s.put k c' with nodes := Function.update s.nodes a none }
  refine hi.silent hk rfl rfl rfl hi.room ?_ ⟨?_, ?_⟩ hc
  · exact fun i hik => ⟨update_of_owned nothing_owned (owned hn hnk) hik, fun _ _ _ => Iff.rfl⟩
  · -- the node deleted was the only one
    intro p node' hp hpk
    change Function.update s.nodes a none p = some node' at hp
    by_cases hpa : p = a
    · rw [hpa, Function.update_self] at hp
      cases hp
    · rw [Function.update_of_ne hpa] at hp
      have heq := (ho.node p node' hp hpk).1.symm.trans (ho.node a node hn hnk).1
      exact absurd (Option.some.inj heq) hpa
  · rw [hb.1, hb.2]
    exact ho.copy

theorem OwnershipInv.deleteMsg {s : State} (hi : OwnershipInv s) {k a b : Nat} {socket : Sock}
    {c c' : SendCall} (hk : s.calls[k]? = some c) (ha : s.memory.HasBoth k a b socket)
    (hb : c'.node = c.node ∧ c'.nodeDeleted = c.nodeDeleted)
    (hc : CallAt ⟨s.nodes, Function.update s.msgs b none⟩ k c' (reportsOf k s.reports)) :
    OwnershipInv (s.deleteMsg k a c') := by
  obtain ⟨⟨node, hn, hnk, rfl, -⟩, copy, hcopy, hck⟩ := ha
  have ho := hi.owns k c hk
  rw [State.deleteMsg, node_eq hn hnk]
  dsimp only
  rw [copy_eq hcopy hck]
  show OwnershipInv { s.put k c' with msgs := Function.update s.msgs node.msg none }
  refine hi.silent hk rfl rfl rfl (hi.room.update _ _) ?_ ⟨?_, ?_⟩ hc
  · exact fun i hik => ⟨fun _ _ _ => Iff.rfl, update_of_owned nothing_owned (owned hcopy hck) hik⟩
  · rw [hb.1, hb.2]
    exact ho.node
  · intro p copy' hp hpk
    change Function.update s.msgs node.msg none p = some copy' at hp
    by_cases hpb : p = node.msg
    · rw [hpb, Function.update_self] at hp
      cases hp
    · rw [Function.update_of_ne hpb] at hp
      have heq := (ho.copy p copy' hp hpk).1.symm.trans (ho.copy _ copy hcopy hck).1
      exact absurd (Option.some.inj heq) hpb

/-- A node at a free address. -/
theorem OwnershipInv.newNode {s : State} (hi : OwnershipInv s) {k a : Nat} {c c' : SendCall} {node : NodeBlock}
    (hk : s.calls[k]? = some c) (hfree : s.nodes a = none) (hnk : node.call = k) (hnone : c.node = none)
    (hnode : c'.node = some a ∧ c'.nodeDeleted = [])
    (hb : c'.copy = c.copy ∧ c'.copyDeleted = c.copyDeleted)
    (hc : CallAt ⟨Function.update s.nodes a (some node), s.msgs⟩ k c' (reportsOf k s.reports)) :
    OwnershipInv { s.put k c' with nodes := Function.update s.nodes a (some node) } := by
  have ho := hi.owns k c hk
  refine hi.silent hk rfl rfl rfl hi.room ?_ ⟨?_, ?_⟩ hc
  · exact fun i hik => ⟨update_of_owned (one_owned hnk) (owned_of_free hfree) hik, fun _ _ _ => Iff.rfl⟩
  · intro p node' hp hpk
    change Function.update s.nodes a (some node) p = some node' at hp
    by_cases hpa : p = a
    · rw [hpa]
      exact hnode
    · rw [Function.update_of_ne hpa] at hp
      have heq := (ho.node p node' hp hpk).1
      rw [hnone] at heq
      cases heq
  · rw [hb.1, hb.2]
    exact ho.copy

/-- A copy at a free address, and the node filled. -/
theorem OwnershipInv.newMsg {s : State} (hi : OwnershipInv s) {k a b : Nat} {c c' : SendCall}
    {node node' : NodeBlock} {copy : MsgBlock} (hk : s.calls[k]? = some c) (hn : s.nodes a = some node)
    (hnk : node.call = k) (hnk' : node'.call = k) (hck : copy.call = k) (hfree : s.msgs b = none)
    (hnone : c.copy = none) (hcopy : c'.copy = some b ∧ c'.copyDeleted = [])
    (hb : c'.node = c.node ∧ c'.nodeDeleted = c.nodeDeleted)
    (hc : CallAt ⟨Function.update s.nodes a (some node'), Function.update s.msgs b (some copy)⟩ k c'
      (reportsOf k s.reports)) :
    OwnershipInv { s.put k c' with
      nodes := Function.update s.nodes a (some node'), msgs := Function.update s.msgs b (some copy) } := by
  have ho := hi.owns k c hk
  refine hi.silent hk rfl rfl rfl (hi.room.update _ _) ?_ ⟨?_, ?_⟩ hc
  · exact fun i hik => ⟨update_of_owned (one_owned hnk') (owned hn hnk) hik,
      update_of_owned (one_owned hck) (owned_of_free hfree) hik⟩
  · rw [hb.1, hb.2]
    intro p node'' hp hpk
    change Function.update s.nodes a (some node') p = some node'' at hp
    by_cases hpa : p = a
    · rw [hpa]
      exact ho.node a node hn hnk
    · rw [Function.update_of_ne hpa] at hp
      exact ho.node p node'' hp hpk
  · intro p copy' hp hpk
    change Function.update s.msgs b (some copy) p = some copy' at hp
    by_cases hpb : p = b
    · rw [hpb]
      exact hcopy
    · rw [Function.update_of_ne hpb] at hp
      have heq := (ho.copy p copy' hp hpk).1
      rw [hnone] at heq
      cases heq

/-- The bytes go into the copy. -/
theorem OwnershipInv.fillMsg {s : State} (hi : OwnershipInv s) {k b : Nat} {c c' : SendCall} {copy copy' : MsgBlock}
    (hk : s.calls[k]? = some c) (hcopy : s.msgs b = some copy) (hck : copy.call = k) (hck' : copy'.call = k)
    (hb : c.SameBlocks c')
    (hc : CallAt ⟨s.nodes, Function.update s.msgs b (some copy')⟩ k c' (reportsOf k s.reports)) :
    OwnershipInv { s.put k c' with msgs := Function.update s.msgs b (some copy') } := by
  have ho := (hi.owns k c hk).same hb
  refine hi.silent hk rfl rfl rfl (hi.room.update _ _) ?_ ⟨ho.node, ?_⟩ hc
  · exact fun i hik => ⟨fun _ _ _ => Iff.rfl, update_of_owned (one_owned hck') (owned hcopy hck) hik⟩
  · intro p copy'' hp hpk
    change Function.update s.msgs b (some copy') p = some copy'' at hp
    by_cases hpb : p = b
    · rw [hpb]
      exact ho.copy b copy hcopy hck
    · rw [Function.update_of_ne hpb] at hp
      exact ho.copy p copy'' hp hpk

/-! ## Every step keeps the invariant -/

theorem Memory.HasBoth.node {m : Memory} {k a b : Nat} {socket : Sock}
    (h : m.HasBoth k a b socket) : m.HasNode k a := by
  obtain ⟨⟨node, hn, hk, -⟩, -⟩ := h
  exact ⟨node, hn, hk⟩

/-- Deleting the copy leaves the node. -/
theorem Memory.HasBoth.node_left {m : Memory} {k a b : Nat} {socket : Sock}
    (h : m.HasBoth k a b socket) (msgs : Nat → Option MsgBlock) :
    Memory.HasNode ⟨m.nodes, msgs⟩ k a := h.node

theorem socketSend_ownership {s s' : State} {k : Nat} {input : Input} (hi : OwnershipInv s)
    (h : socketSend s k input = some s') : OwnershipInv s' := by
  unfold socketSend at h
  split at h
  · cases h
  · next c hk =>
    have hat := hi.calls k c hk
    unfold CallAt at hat
    split at h <;> rename_i hpc <;> try rw [hpc] at hat
    · -- new socket_send_node
      obtain ⟨ht, hrs, hb⟩ := hat
      split at h
      · cases h
        exact hi.put hk ⟨rfl, rfl, rfl, rfl⟩ ⟨ht, hrs, hb⟩
      · split at h
        · next a _ hfree =>
          cases h
          exact hi.newNode hk hfree rfl hb.1 ⟨rfl, hb.2.2.1⟩ ⟨rfl, rfl⟩
            ⟨ht, hrs, ⟨rfl, hb.2⟩, _, Function.update_self .., rfl⟩
        · cases h
    · -- the post without a node
      obtain ⟨ht, hrs, hb⟩ := hat
      cases h
      exact hi.post hk rfl ⟨rfl, rfl, rfl, rfl⟩ (.inr ⟨rfl, ht, by rw [hrs]; rfl, .inl hb⟩)
    · -- INVALID_SOCKET
      split at h <;> cases h
      · exact hi.put hk ⟨rfl, rfl, rfl, rfl⟩ hat
      · next hv => exact hi.put hk ⟨rfl, rfl, rfl, rfl⟩ ⟨hat.1, hat.2.1, hat.2.2.1, hat.2.2.2, Ne.symm hv⟩
    · obtain ⟨ht, hrs, hb, hnode⟩ := hat
      cases h
      exact hi.post hk rfl ⟨rfl, rfl, rfl, rfl⟩ ⟨ht, by rw [hrs]; rfl, hb, hnode⟩
    · obtain ⟨ht, hrs, hb, hnode⟩ := hat
      cases h
      refine hi.deleteNode hk hnode ⟨rfl, rfl⟩ (.inr ⟨rfl, ht, hrs, .inr (.inl ⟨_, hb.1, hb.2.1, ?_, hb.2.2.2⟩)⟩)
      show c.nodeDeleted ++ [.caller] = [.caller]
      rw [hb.2.2.1, List.nil_append]
    · -- the node is filled, its copy allocated
      obtain ⟨ht, hrs, hb, ⟨node, hn, hnk⟩, hv⟩ := hat
      split at h
      · next a b hfree =>
        rw [node_eq hn hnk] at h
        cases h
        refine hi.newMsg hk hn hnk hnk rfl hfree.2 hb.2.1 ⟨rfl, hb.2.2.2.1⟩ ⟨rfl, rfl⟩ ⟨ht, hrs, b, ?_, ?_⟩
        · exact ⟨hb.1, rfl, hb.2.2.1, hb.2.2.2.1, fun _ => hv⟩
        · exact ⟨⟨_, Function.update_self .., hnk, rfl, rfl⟩, _, Function.update_self .., rfl⟩
      · cases h
    · -- the copy is filled
      obtain ⟨ht, hrs, b, hb, ⟨node, hn, hnk, rfl, hs⟩, copy, hcopy, hck⟩ := hat
      rw [node_eq hn hnk] at h
      dsimp only at h
      rw [copy_eq hcopy hck] at h
      cases h
      exact hi.fillMsg hk hcopy hck hck ⟨rfl, rfl, rfl, rfl⟩
        ⟨ht, hrs, _, hb, ⟨node, hn, hnk, rfl, hs⟩, _, Function.update_self .., hck⟩
    · -- QueueUserWorkItem
      obtain ⟨ht, hrs, hb⟩ := hat
      split at h <;> cases h
      · exact hi.put hk ⟨rfl, rfl, rfl, rfl⟩ ⟨_, rfl, hrs, hb⟩
      · exact hi.put hk ⟨rfl, rfl, rfl, rfl⟩ ⟨ht, hrs, hb⟩
    · obtain ⟨t, ht, hp⟩ := hat
      cases h
      exact hi.put hk ⟨rfl, rfl, rfl, rfl⟩ (.inl ⟨rfl, t, ht, hp⟩)
    · obtain ⟨ht, hrs, b, hb, hboth⟩ := hat
      cases h
      refine hi.deleteMsg hk hboth ⟨rfl, rfl⟩ ⟨ht, hrs, b, ⟨hb.1, hb.2.1, hb.2.2.1, ?_, hb.2.2.2.2⟩,
        hboth.node_left _⟩
      show c.copyDeleted ++ [.caller] = [.caller]
      rw [hb.2.2.2.1, List.nil_append]
    · obtain ⟨ht, hrs, b, hb, hnode⟩ := hat
      cases h
      refine hi.deleteNode hk hnode ⟨rfl, rfl⟩ ⟨ht, hrs, _, b, hb.1, hb.2.1, ?_, hb.2.2.2⟩
      show c.nodeDeleted ++ [.caller] = [.caller]
      rw [hb.2.2.1, List.nil_append]
    · obtain ⟨ht, hrs, hb⟩ := hat
      cases h
      exact hi.post hk rfl ⟨rfl, rfl, rfl, rfl⟩ (.inr ⟨rfl, ht, by rw [hrs]; rfl, .inr (.inr hb)⟩)
    · cases h

/-- While an item is queued or runs, the caller is done with the node. -/
theorem CallAt.pool {m : Memory} {k : Nat} {c : SendCall} {rs : List Report} {t : PoolPc}
    (h : CallAt m k c rs) (ht : c.thread = some t) :
    PoolAt m k c rs t ∧ ∀ m' c' rs' t', c'.pc = c.pc → c'.thread = some t' →
      PoolAt m' k c' rs' t' → CallAt m' k c' rs' := by
  unfold CallAt at h
  cases hpc : c.pc with
  | queued =>
    rw [hpc] at h
    obtain ⟨t', ht', hp⟩ := h
    obtain rfl : t = t' := Option.some.inj (ht.symm.trans ht')
    refine ⟨hp, fun m' c' rs' t' hpc' hth hp' => ?_⟩
    unfold CallAt
    rw [hpc']
    exact ⟨t', hth, hp'⟩
  | returned =>
    rw [hpc] at h
    rcases h with ⟨hret, t', ht', hp⟩ | ⟨-, hnone, -⟩
    · obtain rfl : t = t' := Option.some.inj (ht.symm.trans ht')
      refine ⟨hp, fun m' c' rs' t' hpc' hth hp' => ?_⟩
      unfold CallAt
      rw [hpc']
      exact .inl ⟨hret, t', hth, hp'⟩
    · rw [ht] at hnone
      cases hnone
  | _ =>
    rw [hpc] at h
    have hnone := h.1
    rw [ht] at hnone
    cases hnone

theorem sendThread_ownership {s s' : State} {k : Nat} {input : Input} (hi : OwnershipInv s)
    (h : sendThread s k input = some s') : OwnershipInv s' := by
  unfold sendThread at h
  split at h
  · cases h
  · next c hk =>
    split at h <;> rename_i hth
    · -- the node is read
      obtain ⟨⟨hrs, b, hb, hboth⟩, hback⟩ := (hi.calls k c hk).pool hth
      obtain ⟨node, hn, hnk, -, hsock⟩ := hboth.1
      rw [node_eq hn hnk] at h
      cases h
      exact hi.put hk ⟨rfl, rfl, rfl, rfl⟩ (hback _ _ _ _ rfl rfl ⟨hrs, hsock, b, hb, hboth⟩)
    · -- send
      obtain ⟨⟨hrs, hs, b, hb, hboth⟩, hback⟩ := (hi.calls k c hk).pool hth
      have ⟨⟨node, hn, hnk, hmsg, _⟩, copy, hcopy, hck⟩ := hboth
      rw [node_eq hn hnk] at h
      dsimp only at h
      rw [hmsg, copy_eq hcopy hck] at h
      dsimp only at h
      split at h <;> cases h
      exact hi.put hk ⟨rfl, rfl, rfl, rfl⟩ (hback _ _ _ _ rfl rfl ⟨hrs, hs, _, hb, hboth⟩)
    · obtain ⟨⟨hrs, hs, b, hb, hboth⟩, hback⟩ := (hi.calls k c hk).pool hth
      cases h
      refine hi.deleteMsg hk hboth ⟨rfl, rfl⟩ (hback _ _ _ _ rfl rfl
        ⟨hrs, hs, b, ⟨hb.1, hb.2.1, hb.2.2.1, ?_, hb.2.2.2.2⟩, hboth.node_left _⟩)
      show c.copyDeleted ++ [.pool] = [.pool]
      rw [hb.2.2.2.1, List.nil_append]
    · obtain ⟨⟨hrs, hs, b, hb, hnode⟩, hback⟩ := (hi.calls k c hk).pool hth
      cases h
      refine hi.deleteNode hk hnode ⟨rfl, rfl⟩ (hback _ _ _ _ rfl rfl
        ⟨hrs, hs, _, b, hb.1, hb.2.1, ?_, hb.2.2.2⟩)
      show c.nodeDeleted ++ [.pool] = [.pool]
      rw [hb.2.2.1, List.nil_append]
    · -- WM_ONSEND
      obtain ⟨⟨hrs, rfl, hb⟩, hback⟩ := (hi.calls k c hk).pool hth
      cases h
      exact hi.post hk rfl ⟨rfl, rfl, rfl, rfl⟩ (hback _ _ _ _ rfl rfl ⟨⟨_, by rw [hrs]; rfl⟩, hb⟩)
    · cases h

theorem step_ownership {s s' : State} {a : Act} (hi : OwnershipInv s) (h : step s a = some s') :
    OwnershipInv s' := by
  unfold step at h
  rw [if_neg (by rw [hi.crashed]; simp)] at h
  cases a with
  | call socket msg len =>
    cases h
    constructor
    · exact hi.crashed
    · intro k c hc
      rcases Position.getElem?_appended hc with ⟨rfl, rfl⟩ | ⟨-, hc⟩
      · refine ⟨rfl, ?_, rfl, rfl, rfl, rfl, fun hne => absurd rfl hne⟩
        unfold reportsOf
        rw [List.filter_eq_nil_iff]
        intro r hr
        have := hi.reported r hr
        simp
        omega
      · exact hi.calls k c hc
    · intro k c hc
      rcases Position.getElem?_appended hc with ⟨rfl, rfl⟩ | ⟨-, hc⟩
      · constructor
        · intro a node hn hk
          exact absurd (hi.made.nodes a node hn) (by omega)
        · intro b copy hb hk
          exact absurd (hi.made.msgs b copy hb) (by omega)
      · exact hi.owns k c hc
    · rw [List.length_append]
      exact ⟨fun a node hn => Nat.lt_of_lt_of_le (hi.made.nodes a node hn) (Nat.le_add_right _ _),
        fun b copy hb => Nat.lt_of_lt_of_le (hi.made.msgs b copy hb) (Nat.le_add_right _ _)⟩
    · intro r hr
      have := hi.reported r hr
      rw [List.length_append]
      omega
    · exact hi.room
  | caller k input => exact socketSend_ownership hi h
  | pool k input => exact sendThread_ownership hi h

theorem init_ownership : OwnershipInv .init where
  crashed := rfl
  calls k c hc := by simp [State.init] at hc
  owns k c hc := by simp [State.init] at hc
  made := {
    nodes := fun a node hn => by simp [State.init, State.memory] at hn
    msgs := fun b copy hb => by simp [State.init, State.memory] at hb }
  reported r hr := by simp [State.init] at hr
  room := ⟨0, fun _ _ => rfl⟩

/-- **Run lemma.** -/
theorem reachable_ownership {s : State} (h : calling.Reachable s) : OwnershipInv s := by
  refine h.invariant init_ownership ?_
  intro s a s' _ hi _ hs
  exact step_ownership hi hs

/-! ## What is said of one call -/

section OneCall

variable {m : Memory} {k : Nat} {c : SendCall} {rs : List Report}

/-- At no time has anything happened twice. -/
structure NothingTwice (c : SendCall) (rs : List Report) : Prop where
  reports : rs.length ≤ 1
  socket : ∀ r ∈ rs, r.socket = c.socket
  node : c.nodeDeleted.length ≤ 1
  copy : c.copyDeleted.length ≤ 1

theorem PoolAt.nothingTwice {t : PoolPc} (h : PoolAt m k c rs t) : NothingTwice c rs := by
  cases t with
  | start a =>
    obtain ⟨rfl, b, hb, -⟩ := h
    constructor <;> simp [hb.2.2.1, hb.2.2.2]
  | send a socket | deleteMsg a socket st | deleteNode a socket st =>
    obtain ⟨rfl, -, b, hb, -⟩ := h
    constructor <;> simp [hb.2.2.1, hb.2.2.2]
  | post socket st =>
    obtain ⟨rfl, -, a, b, hb⟩ := h
    constructor <;> simp [hb.2.2.1, hb.2.2.2]
  | done =>
    obtain ⟨⟨st, rfl⟩, a, b, hb⟩ := h
    constructor <;> simp [hb.2.2.1, hb.2.2.2]

theorem CallAt.nothingTwice (h : CallAt m k c rs) : NothingTwice c rs := by
  unfold CallAt at h
  generalize c.pc = pc at h
  cases pc with
  | new | postNull =>
    obtain ⟨-, rfl, hb⟩ := h
    constructor <;> simp [hb.2.2.1, hb.2.2.2]
  | socketTest | postInvalid | newMsg | deleteInvalid =>
    obtain ⟨-, rfl, hb, -⟩ := h
    constructor <;> simp [hb.2.2.1, hb.2.2.2]
  | copy | queue | deleteMsg | deleteNode =>
    obtain ⟨-, rfl, b, hb, -⟩ := h
    constructor <;> simp [hb.2.2.1, hb.2.2.2]
  | post =>
    obtain ⟨-, rfl, a, b, hb⟩ := h
    constructor <;> simp [hb.2.2.1, hb.2.2.2]
  | queued =>
    obtain ⟨t, -, hp⟩ := h
    exact hp.nothingTwice
  | returned =>
    rcases h with ⟨-, t, -, hp⟩ | ⟨-, -, rfl, hb | ⟨a, hb⟩ | ⟨a, b, hb⟩⟩
    · exact hp.nothingTwice
    all_goals constructor <;> simp [hb.2.2.1, hb.2.2.2]

/-- `t` has posted the message and deleted what was allocated. -/
structure EndedBy (k : Nat) (c : SendCall) (rs : List Report) (t : Thread) : Prop where
  report : ∃ st, rs = [⟨c.socket, st, k, t⟩]
  node : c.nodeDeleted = if c.node = none then [] else [t]
  copy : c.copyDeleted = if c.copy = none then [] else [t]

/-- A finished call was ended by one of the two threads. -/
theorem CallAt.ended (h : CallAt m k c rs) (hf : c.Finished) :
    EndedBy k c rs (if c.pc = .returned 0 then .caller else .pool) := by
  unfold CallAt at h
  rcases hf.1 with hpc | hpc <;> rw [hpc] at h <;> simp only [hpc]
  · rcases h with ⟨hret, -⟩ | ⟨-, -, hrs, hb⟩
    · cases hret
    · rcases hb with hb | ⟨a, hb⟩ | ⟨a, b, hb⟩ <;>
        exact ⟨⟨0, hrs⟩, by simp [hb.1, hb.2.2.1], by simp [hb.2.1, hb.2.2.2]⟩
  · rcases h with ⟨-, t, ht, hp⟩ | ⟨hret, -⟩
    · obtain rfl : t = .done := by
        rcases hf.2 with hnone | hdone
        · rw [hnone] at ht
          cases ht
        · exact Option.some.inj (ht.symm.trans hdone)
      obtain ⟨hrs, a, b, hb⟩ := hp
      exact ⟨hrs, by simp [hb.1, hb.2.2.1], by simp [hb.2.1, hb.2.2.2]⟩
    · cases hret

/-- Nothing of it is left in memory. -/
theorem EndedBy.released {t : Thread} (h : EndedBy k c rs t) (ho : Owns m k c) :
    (∀ a node, m.nodes a = some node → node.call ≠ k) ∧ ∀ b copy, m.msgs b = some copy → copy.call ≠ k := by
  constructor
  · intro a node hn hk
    obtain ⟨hnode, hnot⟩ := ho.node a node hn hk
    have hdel := h.node
    rw [hnot, hnode] at hdel
    cases hdel
  · intro b copy hb hk
    obtain ⟨hcopy, hnot⟩ := ho.copy b copy hb hk
    have hdel := h.copy
    rw [hnot, hcopy] at hdel
    cases hdel

/-- The pool thread posts only as the pool thread. -/
theorem PoolAt.not_caller {t : PoolPc} (h : PoolAt m k c rs t) : ∀ r ∈ rs, r.thread ≠ .caller := by
  cases t with
  | done =>
    obtain ⟨⟨st, rfl⟩, -⟩ := h
    simp
  | _ =>
    obtain ⟨rfl, -⟩ := h
    simp

/-- Only an item for a socket that passed the test is queued. -/
theorem PoolAt.socket_valid {t : PoolPc} (h : PoolAt m k c rs t) :
    c.socket.value ≠ invalidSocketValue := by
  cases t with
  | start a =>
    obtain ⟨-, b, hb, -⟩ := h
    exact hb.2.2.2.2 (by simp)
  | send a socket | deleteMsg a socket st | deleteNode a socket st =>
    obtain ⟨-, -, b, hb, -⟩ := h
    exact hb.2.2.2.2 (by simp)
  | post socket st =>
    obtain ⟨-, -, a, b, hb⟩ := h
    exact hb.2.2.2.2 (by simp)
  | done =>
    obtain ⟨-, a, b, hb⟩ := h
    exact hb.2.2.2.2 (by simp)

/-- A call that returned did what the one-step `socketSend` does with one of the two
answers of `QueueUserWorkItem`. -/
theorem CallAt.refines (h : CallAt m k c rs) {ret : Nat} (hpc : c.pc = .returned ret) (p : Pool) :
    ∃ queued, (Sclient.socketSend p c.socket c.msg c.len queued).2.1 = decide (ret = 1) ∧
      (rs.filter fun r => r.thread = .caller).map (fun r => (r.socket, r.sendStatus)) =
        (Sclient.socketSend p c.socket c.msg c.len queued).2.2.toList.map
          fun r => (r.socket, r.sendStatus) := by
  unfold CallAt at h
  rw [hpc] at h
  rcases h with ⟨rfl, t, -, hp⟩ | ⟨rfl, -, rfl, -⟩
  · have hv := hp.socket_valid
    have hnone : (rs.filter fun r => r.thread = .caller) = [] := by
      rw [List.filter_eq_nil_iff]
      intro r hr
      simpa using hp.not_caller r hr
    exact ⟨true, by simp [Sclient.socketSend, hv], by simp [hnone, Sclient.socketSend, hv]⟩
  · refine ⟨false, ?_, ?_⟩ <;> unfold Sclient.socketSend <;> split <;> simp

theorem CallAt.returned_zero_iff (h : CallAt m k c rs) {ret : Nat} (hpc : c.pc = .returned ret) :
    (ret = 0 ∨ ret = 1) ∧ (ret = 0 ↔ ∃ r ∈ rs, r.thread = .caller ∧ r.sendStatus = 0) := by
  unfold CallAt at h
  rw [hpc] at h
  rcases h with ⟨rfl, t, -, hp⟩ | ⟨rfl, -, rfl, -⟩
  · refine ⟨.inr rfl, by simp, ?_⟩
    rintro ⟨r, hr, hthread, -⟩
    exact absurd hthread (hp.not_caller r hr)
  · exact ⟨.inl rfl, by simp⟩

end OneCall

/-! ## Every call comes to its end -/

def CallerPc.rank : CallerPc → Nat
  | .new => 11
  | .postNull => 1
  | .socketTest _ => 10
  | .postInvalid _ => 2
  | .deleteInvalid _ => 1
  | .newMsg _ => 9
  | .copy _ => 8
  | .queue _ => 7
  | .queued => 1
  | .deleteMsg _ => 3
  | .deleteNode _ => 2
  | .post => 1
  | .returned _ => 0

def PoolPc.rank : PoolPc → Nat
  | .start _ => 5
  | .send _ _ => 4
  | .deleteMsg _ _ _ => 3
  | .deleteNode _ _ _ => 2
  | .post _ _ => 1
  | .done => 0

def SendCall.rank (c : SendCall) : Nat := c.pc.rank + (c.thread.map PoolPc.rank).getD 0

theorem deleteNode_calls {s : State} {k a : Nat} {c : SendCall}
    (h : (s.deleteNode k a c).crashed = false) : (s.deleteNode k a c).calls = s.calls.set k c := by
  unfold State.deleteNode at h ⊢
  split
  · rfl
  · next hn =>
    rw [hn] at h
    cases h

theorem deleteMsg_calls {s : State} {k a : Nat} {c : SendCall}
    (h : (s.deleteMsg k a c).crashed = false) : (s.deleteMsg k a c).calls = s.calls.set k c := by
  unfold State.deleteMsg at h ⊢
  split
  · next hn =>
    rw [hn] at h
    dsimp only at h
    split
    · rfl
    · next hc =>
      rw [hc] at h
      cases h
  · next hn =>
    rw [hn] at h
    cases h

/-- A step of the caller brings the call closer to its end. -/
theorem socketSend_rank {s s' : State} {k : Nat} {c : SendCall} {input : Input}
    (hk : s.calls[k]? = some c) (hcr : s'.crashed = false)
    (h : socketSend s k input = some s') : ∃ c', s'.calls = s.calls.set k c' ∧ c'.rank < c.rank := by
  unfold socketSend at h
  rw [hk] at h
  dsimp only at h
  have hrank : c.rank = c.pc.rank + (c.thread.map PoolPc.rank).getD 0 := rfl
  split at h <;> rename_i hpc <;> try rw [hpc] at hrank
  case h_1 =>
    split at h
    · cases h
      exact ⟨_, rfl, by rw [hrank]; simp [SendCall.rank, CallerPc.rank]⟩
    · split at h <;> cases h
      exact ⟨_, rfl, by rw [hrank]; simp [SendCall.rank, CallerPc.rank]⟩
  case h_3 =>
    split at h <;> cases h <;> exact ⟨_, rfl, by rw [hrank]; simp [SendCall.rank, CallerPc.rank]⟩
  case h_5 | h_11 =>
    cases h
    exact ⟨_, deleteNode_calls hcr, by rw [hrank]; simp [SendCall.rank, CallerPc.rank]⟩
  case h_10 =>
    cases h
    exact ⟨_, deleteMsg_calls hcr, by rw [hrank]; simp [SendCall.rank, CallerPc.rank]⟩
  case h_6 =>
    split at h
    · split at h <;> cases h
      · exact ⟨_, rfl, by rw [hrank]; simp [SendCall.rank, CallerPc.rank]⟩
      · cases hcr
    · cases h
  case h_7 =>
    split at h
    · split at h <;> cases h
      · exact ⟨_, rfl, by rw [hrank]; simp [SendCall.rank, CallerPc.rank]⟩
      · cases hcr
    · cases h
      cases hcr
  case h_8 =>
    split at h <;> cases h
    · refine ⟨_, rfl, ?_⟩
      rw [hrank]
      simp [SendCall.rank, CallerPc.rank, PoolPc.rank]
      omega
    · exact ⟨_, rfl, by rw [hrank]; simp [SendCall.rank, CallerPc.rank]⟩
  case h_13 => cases h
  all_goals
    cases h
    exact ⟨_, rfl, by rw [hrank]; simp [SendCall.rank, CallerPc.rank]⟩

theorem sendThread_rank {s s' : State} {k : Nat} {c : SendCall} {input : Input}
    (hk : s.calls[k]? = some c) (hcr : s'.crashed = false) (h : sendThread s k input = some s') :
    ∃ c', s'.calls = s.calls.set k c' ∧ c'.rank < c.rank := by
  unfold sendThread at h
  rw [hk] at h
  dsimp only at h
  have hrank : c.rank = c.pc.rank + (c.thread.map PoolPc.rank).getD 0 := rfl
  split at h <;> rename_i hth <;> try rw [hth] at hrank
  case h_1 =>
    split at h <;> cases h
    · exact ⟨_, rfl, by rw [hrank]; simp [SendCall.rank, PoolPc.rank]⟩
    · cases hcr
  case h_2 =>
    split at h
    · split at h
      · split at h <;> cases h
        exact ⟨_, rfl, by rw [hrank]; simp [SendCall.rank, PoolPc.rank]⟩
      · cases h
        cases hcr
    · cases h
      cases hcr
  case h_3 =>
    cases h
    exact ⟨_, deleteMsg_calls hcr, by rw [hrank]; simp [SendCall.rank, PoolPc.rank]⟩
  case h_4 =>
    cases h
    exact ⟨_, deleteNode_calls hcr, by rw [hrank]; simp [SendCall.rank, PoolPc.rank]⟩
  case h_5 =>
    cases h
    exact ⟨_, rfl, by rw [hrank]; simp [SendCall.rank, PoolPc.rank]⟩
  case h_6 => cases h

/-- The caller is never stuck. -/
theorem socketSend_enabled {s : State} {k : Nat} {c : SendCall} (hk : s.calls[k]? = some c)
    (hroom : Bounded s.msgs) (hpc : ∀ ret, c.pc ≠ .returned ret) :
    ∃ input, socketSend s k input ≠ none := by
  unfold socketSend
  rw [hk]
  dsimp only
  cases h : c.pc with
  | new => exact ⟨.address 0, by simp⟩
  | newMsg a =>
    obtain ⟨n, hn⟩ := hroom
    refine ⟨.address (n + 1), ?_⟩
    dsimp only
    rw [if_pos ⟨by omega, hn (n + 1) (by omega)⟩]
    split <;> simp
  | socketTest a =>
    refine ⟨.go, ?_⟩
    by_cases hv : invalidSocketValue = c.socket.value <;> simp [hv]
  | copy a =>
    refine ⟨.go, ?_⟩
    dsimp only
    split
    · split <;> simp
    · simp
  | queue a => exact ⟨.queueUserWorkItem true, by simp⟩
  | returned ret => exact absurd h (hpc ret)
  | _ => exact ⟨.go, by simp⟩

/-- Nor is the pool thread. -/
theorem sendThread_enabled {s : State} {k : Nat} {c : SendCall} {t : PoolPc}
    (hk : s.calls[k]? = some c) (ht : c.thread = some t) (hdone : t ≠ .done) :
    ∃ input, sendThread s k input ≠ none := by
  unfold sendThread
  rw [hk]
  dsimp only
  rw [ht]
  cases t with
  | start a =>
    refine ⟨.go, ?_⟩
    dsimp only
    split <;> simp
  | send a socket =>
    refine ⟨.sent .error, ?_⟩
    dsimp only
    split
    · split
      · simp [SendResult.Allowed]
      · simp
    · simp
  | done => exact absurd rfl hdone
  | _ => exact ⟨.go, by simp⟩

/-- An unfinished call can take a step of its own. -/
theorem call_enabled {s : State} {k : Nat} {c : SendCall} (hi : OwnershipInv s)
    (hk : s.calls[k]? = some c) (hf : ¬ c.Finished) :
    ∃ a s' c', calling.step s a = some s' ∧ s'.calls[k]? = some c' ∧ c'.rank < c.rank := by
  have hlen := (List.getElem?_eq_some_iff.mp hk).1
  have hstep : ∀ a, calling.step s a = step s a := fun _ => rfl
  by_cases hpc : ∀ ret, c.pc ≠ .returned ret
  · obtain ⟨input, hne⟩ := socketSend_enabled hk hi.room hpc
    obtain ⟨s', hs⟩ := Option.ne_none_iff_exists'.mp hne
    obtain ⟨c', hcalls, hlt⟩ := socketSend_rank hk (socketSend_ownership hi hs).crashed hs
    refine ⟨.caller k input, s', c', ?_, by rw [hcalls]; exact List.getElem?_set_self hlen, hlt⟩
    rw [hstep, step, if_neg (by rw [hi.crashed]; simp), hs]
  · -- only the pool thread is left
    obtain ⟨ret, hret⟩ := not_forall_not.mp hpc
    have hat := hi.calls k c hk
    have hret01 := (hat.returned_zero_iff hret).1
    unfold SendCall.Finished at hf
    have hthread : ∃ t, c.thread = some t ∧ t ≠ .done := by
      cases ht : c.thread with
      | none => exact absurd ⟨by rcases hret01 with rfl | rfl <;> simp [hret], .inl ht⟩ hf
      | some t =>
        refine ⟨t, rfl, ?_⟩
        rintro rfl
        exact hf ⟨by rcases hret01 with rfl | rfl <;> simp [hret], .inr ht⟩
    obtain ⟨t, ht, hdone⟩ := hthread
    obtain ⟨input, hne⟩ := sendThread_enabled hk ht hdone
    obtain ⟨s', hs⟩ := Option.ne_none_iff_exists'.mp hne
    obtain ⟨c', hcalls, hlt⟩ := sendThread_rank hk (sendThread_ownership hi hs).crashed hs
    refine ⟨.pool k input, s', c', ?_, by rw [hcalls]; exact List.getElem?_set_self hlen, hlt⟩
    rw [hstep, step, if_neg (by rw [hi.crashed]; simp), hs]

theorem call_finishes {s : State} {k : Nat} {c : SendCall} (hi : OwnershipInv s)
    (hk : s.calls[k]? = some c) :
    ∃ as s' c', calling.exec s as = some s' ∧ s'.calls[k]? = some c' ∧ c'.Finished := by
  generalize hr : c.rank = r
  induction r using Nat.strong_induction_on generalizing s c with
  | _ r ih =>
    by_cases hf : c.Finished
    · exact ⟨[], s, c, rfl, hk, hf⟩
    · obtain ⟨a, s₁, c₁, hs, hk₁, hlt⟩ := call_enabled hi hk hf
      obtain ⟨as, s', c', hexec, hk', hf'⟩ := ih _ (hr ▸ hlt) (step_ownership hi hs) hk₁ rfl
      exact ⟨a :: as, s', c', by rw [Machine.exec_cons as hs]; exact hexec, hk', hf'⟩

/-! ## One notification and one release for every call -/

/-- `Sclient.socketSend`, where a call is one step, is what the returned calls did. -/
theorem returned_refines {s : State} (h : calling.Reachable s) {k ret : Nat} {c : SendCall}
    (hk : s.calls[k]? = some c) (hpc : c.pc = .returned ret) (p : Pool) :
    ∃ queued, (Sclient.socketSend p c.socket c.msg c.len queued).2.1 = decide (ret = 1) ∧
      ((reportsOf k s.reports).filter fun r => r.thread = .caller).map
          (fun r => (r.socket, r.sendStatus)) =
        (Sclient.socketSend p c.socket c.msg c.len queued).2.2.toList.map
          fun r => (r.socket, r.sendStatus) :=
  ((reachable_ownership h).calls k c hk).refines hpc p

theorem socket_send_once {s : State} (h : calling.Reachable s) {k : Nat} {c : SendCall}
    (hk : s.calls[k]? = some c) :
    s.crashed = false ∧
    NothingTwice c (reportsOf k s.reports) ∧
    (c.Finished → (∃ t, EndedBy k c (reportsOf k s.reports) t) ∧
      (∀ a node, s.nodes a = some node → node.call ≠ k) ∧ ∀ b copy, s.msgs b = some copy → copy.call ≠ k) ∧
    (∀ ret, c.pc = .returned ret → (ret = 0 ∨ ret = 1) ∧
      (ret = 0 ↔ ∃ r ∈ reportsOf k s.reports, r.thread = .caller ∧ r.sendStatus = 0)) ∧
    ∃ as s' c', calling.exec s as = some s' ∧ s'.calls[k]? = some c' ∧ c'.Finished := by
  have hi := reachable_ownership h
  have hat := hi.calls k c hk
  exact ⟨hi.crashed, hat.nothingTwice,
    fun hf => ⟨⟨_, hat.ended hf⟩, (hat.ended hf).released (hi.owns k c hk)⟩,
    fun ret hpc => hat.returned_zero_iff hpc, call_finishes hi hk⟩

/-- `socket_send` with the first two allocations at `node` and `copy`, up to the answer of
`QueueUserWorkItem`. -/
def prepareActs (k node copy : Nat) : List Act :=
  [.caller k (.address node), .caller k .go, .caller k (.address copy), .caller k .go]

/-- The second call is refused and reports at once; the item of the first one is
still in `send()`. -/
theorem socket_send_once_refused :
    ∃ s c, calling.Reachable s ∧ s.calls[1]? = some c ∧ c.Finished ∧
      reportsOf 1 s.reports = [⟨⟨8, 1⟩, 0, 1, .caller⟩] ∧
      (∃ t, EndedBy 1 c (reportsOf 1 s.reports) t) ∧
      (∀ a node, s.nodes a = some node → node.call ≠ 1) ∧ ∀ b copy, s.msgs b = some copy → copy.call ≠ 1 := by
  obtain ⟨s, hr, hc, hrep⟩ := Machine.exists_reachable (M := calling)
    (p := fun s => (s.calls[1]?).any (fun c => c.Finished) ∧
      reportsOf 1 s.reports = [⟨⟨8, 1⟩, 0, 1, .caller⟩])
    ([.call ⟨4, 0⟩ [65] 1, .call ⟨8, 1⟩ [66] 1] ++ prepareActs 0 100 200 ++ prepareActs 1 300 400 ++
      [.caller 0 (.queueUserWorkItem true), .pool 0 .go, .caller 1 (.queueUserWorkItem false),
        .caller 1 .go, .caller 1 .go, .caller 1 .go]) (by decide)
  obtain ⟨c, hk, hf⟩ := Option.any_eq_true .. |>.mp hc
  replace hf := of_decide_eq_true hf
  exact ⟨s, c, hr, hk, hf, hrep, (socket_send_once hr hk).2.2.1 hf⟩

end WingPhp.Sclient.Ownership
