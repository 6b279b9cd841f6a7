import WingPhp.Lib.Channel
import WingPhp.Lib.LinkedQueue
import WingPhp.Lib.Machine
import WingPhp.Lib.Position

/-!
# The message queue of the two servers

`helper/wing_message_queue.c` keeps the messages in a linked list under
`queue_lock`; `helper/wing_iocp_message_queue.c` wraps it into
`iocp_post_queue_msg`, which any thread calls, and `iocp_message_queue_get`,
which only the message loop calls.  What runs under the lock is one step, the
emptiness test before it is another, and memory is explicit: messages and list
nodes live at addresses that `new` hands out and `delete` makes free again.

`queue_fifo` is what the rest of the development takes for granted when it
speaks of a `Channel`: the list is well formed, the messages taken are those
pushed, in the order of the pushes, and the loop never gets a null pointer.

Ghosts: a message carries the number of the call that made it; `pushed` are the
messages in the order in which their pushes took the lock, `returned` those the
message loop has read.
-/

namespace WingPhp.MessageQueue

open Transition LinkedQueue

/-- `iocp_message_queue_element`; `call` is a ghost. -/
structure Element where
  messageId : Int
  lparam : Nat
  wparam : Nat
  eparam : Nat
  call : Nat
  deriving DecidableEq, Repr

/-- `new iocp_message_queue_element()`. -/
def Element.new (call : Nat) : Element := ⟨0, 0, 0, 0, call⟩

/-- `message_queue_lpush` on an existing queue, under the lock; `nnode` is what
`new` answers. -/
def messageQueueLpush (q : Queue Nat) (element nnode : Nat) : Option (Queue Nat) :=
  if element = null then some q
  else if nnode = null then some q
  else push q nnode element

/-- `message_queue_pop` on an existing queue: `temp` and the queue. -/
def messageQueuePop (q : Queue Nat) : Option (Nat × Queue Nat) :=
  (pop q).map fun r => (r.1.getD null, r.2)

/-- `message_queue_isempty` on an existing queue. -/
def messageQueueIsempty (q : Queue Nat) : Bool := q.head = null

/-- Where a call of `iocp_post_queue_msg` is. -/
inductive PostPc where
  | new
  | fill (msg : Nat)
  | lpush (msg : Nat)
  | returned
  deriving DecidableEq, Repr

/-- One call of `iocp_post_queue_msg`, with its arguments. -/
structure PostCall where
  args : Element
  pc : PostPc
  deriving DecidableEq, Repr

/-- Where the message loop is: in `iocp_message_queue_get`, or with what it returned. -/
inductive GetPc where
  | isempty
  | pop
  | handle (msg : Nat)
  | delete (msg : Nat)
  deriving DecidableEq, Repr

structure State where
  queue : Queue Nat
  elements : Nat → Option Element
  calls : List PostCall
  getPc : GetPc
  crashed : Bool
  pushed : List Element
  returned : List Element

/-- `iocp_message_queue_init`, before any thread runs. -/
def iocpMessageQueueInit : State where
  queue := Queue.empty
  elements _ := none
  calls := []
  getPc := .isempty
  crashed := false
  pushed := []
  returned := []

/-- A step of call `k` of `iocp_post_queue_msg`; `address` is what `new` answers. -/
def iocpPostQueueMsg (s : State) (k address : Nat) : Option State :=
  match s.calls[k]? with
  | some ⟨args, .new⟩ =>
    -- new never answers NULL nor a block that is in use
    if address ≠ null ∧ s.elements address = none then
      some { s with
        elements := Function.update s.elements address (some (.new args.call))
        calls := s.calls.set k ⟨args, .fill address⟩ }
    else none
  | some ⟨args, .fill msg⟩ =>
    some { s with
      elements := Function.update s.elements msg (some args)
      calls := s.calls.set k ⟨args, .lpush msg⟩ }
  | some ⟨args, .lpush msg⟩ =>
    if address ≠ null ∧ s.queue.cells address = none then
      match messageQueueLpush s.queue msg address with
      | some queue =>
        some { s with
          queue := queue
          calls := s.calls.set k ⟨args, .returned⟩
          pushed := s.pushed ++ [args] }
      | none => some { s with crashed := true }
    else none
  | _ => none

/-- A step of the message loop, which reads the message it got and deletes it. -/
def iocpMessageQueueGet (s : State) : State :=
  match s.getPc with
  | .isempty =>
    if messageQueueIsempty s.queue then s else { s with getPc := .pop }
  | .pop =>
    match messageQueuePop s.queue with
    | some (msg, queue) => { s with getPc := .handle msg, queue := queue }
    | none => { s with crashed := true }
  | .handle msg =>
    match s.elements msg with
    | some e => { s with getPc := .delete msg, returned := s.returned ++ [e] }
    | none => { s with crashed := true }
  | .delete msg =>
    { s with getPc := .isempty, elements := Function.update s.elements msg none }

inductive Act where
  | call (messageId : Int) (wparam lparam eparam : Nat)
  | post (k address : Nat)
  | get

def step (s : State) (a : Act) : Option State :=
  if s.crashed then none
  else
    match a with
    | .call messageId wparam lparam eparam =>
      some { s with
        calls := s.calls ++ [⟨⟨messageId, lparam, wparam, eparam, s.calls.length⟩, .new⟩] }
    | .post k address => iocpPostQueueMsg s k address
    | .get => some (iocpMessageQueueGet s)

def posting : Machine State Act := ⟨iocpMessageQueueInit, step⟩

/-! ## Who holds a message -/

def PostCall.held (c : PostCall) : List Nat :=
  match c.pc with
  | .fill msg | .lpush msg => [msg]
  | .new | .returned => []

def GetPc.held : GetPc → List Nat
  | .handle msg | .delete msg => [msg]
  | .isempty | .pop => []

/-- The message loop has it and has not read it. -/
def GetPc.unread : GetPc → List Nat
  | .handle msg => [msg]
  | _ => []

/-- In how many places `msg` is held: by calls, in the list `l` and by the loop. -/
def holders (s : State) (l : List (Nat × Nat)) (msg : Nat) : Nat :=
  (s.calls.flatMap PostCall.held).countP (· = msg) + (l.map Prod.snd).countP (· = msg) +
    s.getPc.held.countP (· = msg)

/-- The calls and what they have pushed. -/
structure CallsAt (calls : List PostCall) (pushed : List Element) : Prop where
  numbered : ∀ (k : Nat) (c : PostCall), calls[k]? = some c → c.args.call = k
  once : ∀ (k : Nat) (c : PostCall), calls[k]? = some c →
    (pushed.filter fun e => e.call = k) = if c.pc = .returned then [c.args] else []
  pushed_called : ∀ e ∈ pushed, e.call < calls.length

/-- The memory: `l` are the nodes of the list. -/
structure QueueInv (s : State) (l : List (Nat × Nat)) : Prop where
  crashed : s.crashed = false
  list : IsQueue s.queue l
  calls : CallsAt s.calls s.pushed
  one_holder : ∀ msg, holders s l msg ≤ 1
  live : ∀ msg, 0 < holders s l msg → msg ≠ null ∧ s.elements msg ≠ none
  filled : ∀ (k : Nat) (c : PostCall) (msg : Nat), s.calls[k]? = some c → c.pc = .lpush msg →
    s.elements msg = some c.args
  contents : s.returned.map some ++ (s.getPc.unread ++ l.map Prod.snd).map s.elements =
    s.pushed.map some
  pop_nonempty : s.getPc = .pop → l ≠ []

namespace CallsAt

variable {calls : List PostCall} {pushed : List Element}

theorem call (h : CallsAt calls pushed) {e : Element} (he : e.call = calls.length) :
    CallsAt (calls ++ [⟨e, .new⟩]) pushed where
  numbered k c hc := by
    rcases Position.getElem?_appended hc with ⟨rfl, rfl⟩ | ⟨-, hc⟩
    · exact he
    · exact h.numbered k c hc
  once k c hc := by
    rcases Position.getElem?_appended hc with ⟨rfl, rfl⟩ | ⟨-, hc⟩
    · -- nothing of a call that has just begun is pushed
      rw [if_neg (by simp), List.filter_eq_nil_iff]
      intro e' he'
      have := h.pushed_called e' he'
      simp
      omega
    · exact h.once k c hc
  pushed_called e' he' := by
    have := h.pushed_called e' he'
    rw [List.length_append]
    omega

/-- A call moves on without pushing. -/
theorem move (h : CallsAt calls pushed) {k : Nat} {e : Element} {pc pc' : PostPc}
    (hk : calls[k]? = some ⟨e, pc⟩) (hpc : pc ≠ .returned) (hpc' : pc' ≠ .returned) :
    CallsAt (calls.set k ⟨e, pc'⟩) pushed where
  numbered i c hc := by
    rcases Position.getElem?_stored hc with ⟨rfl, rfl⟩ | ⟨-, hc⟩
    · exact h.numbered i ⟨e, pc⟩ hk
    · exact h.numbered i c hc
  once i c hc := by
    rcases Position.getElem?_stored hc with ⟨rfl, rfl⟩ | ⟨-, hc⟩
    · have := h.once i _ hk
      rw [if_neg hpc] at this
      rw [this, if_neg hpc']
    · exact h.once i c hc
  pushed_called e' he' := by
    rw [List.length_set]
    exact h.pushed_called e' he'

theorem push (h : CallsAt calls pushed) {k : Nat} {e : Element} {pc : PostPc}
    (hk : calls[k]? = some ⟨e, pc⟩) (hpc : pc ≠ .returned) :
    CallsAt (calls.set k ⟨e, .returned⟩) (pushed ++ [e]) where
  numbered i c hc := by
    rcases Position.getElem?_stored hc with ⟨rfl, rfl⟩ | ⟨-, hc⟩
    · exact h.numbered i ⟨e, pc⟩ hk
    · exact h.numbered i c hc
  once i c hc := by
    have he : e.call = k := h.numbered k _ hk
    rw [List.filter_append]
    rcases Position.getElem?_stored hc with ⟨rfl, rfl⟩ | ⟨hne, hc⟩
    · have := h.once i _ hk
      rw [if_neg hpc] at this
      rw [this]
      simp [he]
    · rw [h.once i c hc]
      simp [he, Ne.symm hne]
  pushed_called e' he' := by
    rw [List.length_set]
    rcases List.mem_append.mp he' with he' | he'
    · exact h.pushed_called e' he'
    · obtain rfl := List.mem_singleton.mp he'
      rw [h.numbered k _ hk]
      exact (List.getElem?_eq_some_iff.mp hk).1

end CallsAt

/-! ## Every step keeps the invariant -/

section Steps

variable {s : State} {l : List (Nat × Nat)}

theorem holders_pos_of_call {k : Nat} {c : PostCall} (hc : s.calls[k]? = some c) {msg : Nat}
    (hm : msg ∈ c.held) : 0 < holders s l msg := by
  have : 0 < (s.calls.flatMap PostCall.held).countP (· = msg) :=
    List.countP_pos_iff.mpr ⟨msg, List.mem_flatMap.mpr ⟨c, List.mem_of_getElem? hc, hm⟩, by simp⟩
  unfold holders
  omega

theorem not_in_list {msg : Nat} (h : (l.map Prod.snd).countP (· = msg) = 0) :
    msg ∉ l.map Prod.snd := by
  intro hm
  have := List.countP_eq_zero.mp h msg hm
  simp at this

theorem not_unread {msg : Nat} (h : s.getPc.held.countP (· = msg) = 0) : msg ∉ s.getPc.unread := by
  intro hm
  have hheld : msg ∈ s.getPc.held := by
    cases hpc : s.getPc <;> simp_all [GetPc.unread, GetPc.held]
  have := List.countP_eq_zero.mp h msg hheld
  simp at this

/-- A store into memory that is neither in the list nor in the loop's hand is not seen there. -/
theorem contents_store (h : QueueInv s l) {msg : Nat} (e : Option Element)
    (hl : msg ∉ l.map Prod.snd) (hg : msg ∉ s.getPc.unread) :
    s.returned.map some ++ (s.getPc.unread ++ l.map Prod.snd).map
      (Function.update s.elements msg e) = s.pushed.map some := by
  rw [← h.contents]
  congr 1
  refine List.map_congr_left fun p hp => Function.update_of_ne ?_ _ _
  rintro rfl
  rcases List.mem_append.mp hp with hp | hp
  · exact hg hp
  · exact hl hp

/-- What the loop was given can be read. -/
theorem QueueInv.handle (h : QueueInv s l) {msg : Nat} (hpc : s.getPc = .handle msg) :
    msg ≠ null ∧ s.elements msg ≠ none := by
  apply h.live
  have : s.getPc.held.countP (· = msg) = 1 := by rw [hpc]; simp [GetPc.held]
  unfold holders
  omega

/-- A new call of `iocp_post_queue_msg`. -/
theorem call_queue (h : QueueInv s l) {e : Element} (he : e.call = s.calls.length) :
    QueueInv { s with calls := s.calls ++ [⟨e, .new⟩] } l := by
  have hold : ∀ msg, holders { s with calls := s.calls ++ [⟨e, .new⟩] } l msg = holders s l msg := by
    intro msg
    simp [holders, PostCall.held]
  constructor
  · exact h.crashed
  · exact h.list
  · exact h.calls.call he
  · exact fun msg => hold msg ▸ h.one_holder msg
  · exact fun msg hm => h.live msg (hold msg ▸ hm)
  · intro k c msg hc hpc
    rcases Position.getElem?_appended hc with ⟨-, rfl⟩ | ⟨-, hc⟩
    · cases hpc
    · exact h.filled k c msg hc hpc
  · exact h.contents
  · exact h.pop_nonempty

/-- `new` answers with free memory. -/
theorem new_queue (h : QueueInv s l) {k address : Nat} {e : Element}
    (hk : s.calls[k]? = some ⟨e, .new⟩) (hne : address ≠ null) (hfree : s.elements address = none) :
    QueueInv { s with
      elements := Function.update s.elements address (some (.new e.call))
      calls := s.calls.set k ⟨e, .fill address⟩ } l := by
  have hnone : holders s l address = 0 := by
    by_contra hpos
    exact (h.live address (Nat.pos_of_ne_zero hpos)).2 hfree
  have hold : ∀ msg, holders { s with
      elements := Function.update s.elements address (some (.new e.call))
      calls := s.calls.set k ⟨e, .fill address⟩ } l msg =
        holders s l msg + if address = msg then 1 else 0 := by
    intro msg
    have := Position.countP_flatMap_set hk PostCall.held (· = msg) ⟨e, .fill address⟩
    simp only [PostCall.held, List.countP_nil, List.countP_cons, decide_eq_true_eq] at this
    simp only [holders]
    omega
  have hother : ∀ msg, msg ≠ address → Function.update s.elements address (some (.new e.call)) msg =
      s.elements msg := fun msg hm => Function.update_of_ne hm _ _
  constructor
  · exact h.crashed
  · exact h.list
  · exact h.calls.move hk (by simp) (by simp)
  · intro msg
    rw [hold msg]
    have := h.one_holder msg
    split
    · next heq => rw [← heq, hnone]
    · exact this
  · intro msg hm
    by_cases hma : msg = address
    · rw [hma]
      exact ⟨hne, by simp⟩
    · rw [hold msg, if_neg (Ne.symm hma)] at hm
      show _ ∧ Function.update s.elements address _ msg ≠ none
      rw [hother msg hma]
      exact h.live msg hm
  · intro i c msg hc hpc
    rcases Position.getElem?_stored hc with ⟨-, rfl⟩ | ⟨-, hc⟩
    · cases hpc
    · have hfill := h.filled i c msg hc hpc
      refine (hother msg ?_).trans hfill
      rintro rfl
      rw [hfree] at hfill
      cases hfill
  · unfold holders at hnone
    exact contents_store h _ (not_in_list (by omega)) (not_unread (by omega))
  · exact h.pop_nonempty

/-- The four fields are stored. -/
theorem fill_queue (h : QueueInv s l) {k msg : Nat} {e : Element}
    (hk : s.calls[k]? = some ⟨e, .fill msg⟩) :
    QueueInv { s with
      elements := Function.update s.elements msg (some e)
      calls := s.calls.set k ⟨e, .lpush msg⟩ } l := by
  have hcount : ∀ m, ((s.calls.set k ⟨e, .lpush msg⟩).flatMap PostCall.held).countP (· = m) =
      (s.calls.flatMap PostCall.held).countP (· = m) := by
    intro m
    have := Position.countP_flatMap_set hk PostCall.held (· = m) ⟨e, .lpush msg⟩
    simp only [PostCall.held] at this
    omega
  have hold : ∀ m, holders { s with
      elements := Function.update s.elements msg (some e)
      calls := s.calls.set k ⟨e, .lpush msg⟩ } l m = holders s l m := by
    intro m
    simp only [holders, hcount m]
  -- the call is the one holder
  have hmine : 0 < (s.calls.flatMap PostCall.held).countP (· = msg) :=
    List.countP_pos_iff.mpr ⟨msg, List.mem_flatMap.mpr
      ⟨_, List.mem_of_getElem? hk, List.mem_singleton_self _⟩, by simp⟩
  have hone := h.one_holder msg
  unfold holders at hone
  constructor
  · exact h.crashed
  · exact h.list
  · exact h.calls.move hk (by simp) (by simp)
  · exact fun m => hold m ▸ h.one_holder m
  · intro m hm
    rw [hold m] at hm
    obtain ⟨hnull, hlive⟩ := h.live m hm
    refine ⟨hnull, ?_⟩
    show Function.update s.elements msg (some e) m ≠ none
    by_cases hmm : m = msg
    · simp [hmm]
    · rw [Function.update_of_ne hmm]
      exact hlive
  · intro i c m hc hpc
    rcases Position.getElem?_stored hc with ⟨-, rfl⟩ | ⟨hik, hci⟩
    · cases hpc
      exact Function.update_self ..
    · refine (Function.update_of_ne ?_ _ _).trans (h.filled i c m hci hpc)
      -- another call cannot hold it too
      rintro rfl
      have hset := Position.countP_flatMap_set hk PostCall.held (· = m) ⟨e, .new⟩
      have hc' : (s.calls.set k ⟨e, .new⟩)[i]? = some c :=
        (List.getElem?_set_ne (Ne.symm hik)).trans hci
      have hpos : 0 < ((s.calls.set k ⟨e, .new⟩).flatMap PostCall.held).countP (· = m) :=
        List.countP_pos_iff.mpr ⟨m, List.mem_flatMap.mpr
          ⟨c, List.mem_of_getElem? hc', by simp [PostCall.held, hpc]⟩, by simp⟩
      simp [PostCall.held] at hset
      omega
  · exact contents_store h _ (not_in_list (by omega)) (not_unread (by omega))
  · exact h.pop_nonempty

/-- The push takes the lock. -/
theorem lpush_queue (h : QueueInv s l) {k msg nnode : Nat} {e : Element}
    (hk : s.calls[k]? = some ⟨e, .lpush msg⟩) (hne : nnode ≠ null)
    (hfree : s.queue.cells nnode = none) :
    ∃ q, messageQueueLpush s.queue msg nnode = some q ∧
      QueueInv { s with
        queue := q
        calls := s.calls.set k ⟨e, .returned⟩
        pushed := s.pushed ++ [e] } (l ++ [(nnode, msg)]) := by
  have hmsg : msg ≠ null :=
    (h.live msg (holders_pos_of_call hk (List.mem_singleton_self _))).1
  obtain ⟨q, hq, hlist⟩ := push_isQueue h.list msg hne hfree
  refine ⟨q, by rw [messageQueueLpush, if_neg hmsg, if_neg hne, hq], ?_⟩
  have hold : ∀ m, holders { s with
      queue := q
      calls := s.calls.set k ⟨e, .returned⟩
      pushed := s.pushed ++ [e] } (l ++ [(nnode, msg)]) m = holders s l m := by
    intro m
    have := Position.countP_flatMap_set hk PostCall.held (· = m) ⟨e, .returned⟩
    simp only [PostCall.held, List.countP_nil, List.countP_cons] at this
    simp only [holders, List.map_append, List.map_cons, List.map_nil, List.countP_append,
      List.countP_cons, List.countP_nil]
    omega
  constructor
  · exact h.crashed
  · exact hlist
  · exact h.calls.push hk (by simp)
  · exact fun m => hold m ▸ h.one_holder m
  · exact fun m hm => h.live m (hold m ▸ hm)
  · intro i c m hc hpc
    rcases Position.getElem?_stored hc with ⟨-, rfl⟩ | ⟨-, hc⟩
    · cases hpc
    · exact h.filled i c m hc hpc
  · show s.returned.map some ++ (s.getPc.unread ++ (l ++ [(nnode, msg)]).map Prod.snd).map s.elements =
      (s.pushed ++ [e]).map some
    have hc := h.contents
    have he : s.elements msg = some e := h.filled k _ msg hk rfl
    simp only [List.map_append, List.map_cons, List.map_nil, he] at hc ⊢
    rw [← hc]
    simp only [List.append_assoc]
  · intro hpc hl
    simp at hl

theorem isempty_queue (h : QueueInv s l) (hpc : s.getPc = .isempty) (hl : l ≠ []) :
    QueueInv { s with getPc := .pop } l := by
  have hold : ∀ m, holders { s with getPc := .pop } l m = holders s l m := by
    intro m
    simp only [holders, hpc, GetPc.held]
  refine ⟨h.crashed, h.list, h.calls, fun m => ?_, fun m hm => ?_, h.filled, ?_, fun _ => hl⟩
  · exact hold m ▸ h.one_holder m
  · exact h.live m (hold m ▸ hm)
  · have := h.contents
    rwa [hpc] at this

theorem pop_queue {p msg : Nat} {q : Queue Nat} (h : QueueInv s ((p, msg) :: l)) (hpc : s.getPc = .pop)
    (hlist : IsQueue q l) : QueueInv { s with getPc := .handle msg, queue := q } l := by
  have hold : ∀ m, holders { s with getPc := .handle msg, queue := q } l m =
      holders s ((p, msg) :: l) m := by
    intro m
    simp only [holders, hpc, GetPc.held, List.map_cons, List.countP_cons, List.countP_nil]
    omega
  refine ⟨h.crashed, hlist, h.calls, fun m => ?_, fun m hm => ?_, h.filled, ?_, nofun⟩
  · exact hold m ▸ h.one_holder m
  · exact h.live m (hold m ▸ hm)
  · have := h.contents
    rw [hpc] at this
    exact this

/-- The loop reads what it got. -/
theorem handle_queue {msg : Nat} {e : Element} (h : QueueInv s l) (hpc : s.getPc = .handle msg)
    (he : s.elements msg = some e) :
    QueueInv { s with getPc := .delete msg, returned := s.returned ++ [e] } l := by
  have hold : ∀ m, holders { s with getPc := .delete msg, returned := s.returned ++ [e] } l m =
      holders s l m := by
    intro m
    simp only [holders, hpc, GetPc.held]
  refine ⟨h.crashed, h.list, h.calls, fun m => ?_, fun m hm => ?_, h.filled, ?_, nofun⟩
  · exact hold m ▸ h.one_holder m
  · exact h.live m (hold m ▸ hm)
  · have := h.contents
    rw [hpc] at this
    rw [← this]
    simp [GetPc.unread, he]

/-- And deletes it; nobody else holds it. -/
theorem delete_queue {msg : Nat} (h : QueueInv s l) (hpc : s.getPc = .delete msg) :
    QueueInv { s with getPc := .isempty, elements := Function.update s.elements msg none } l := by
  have hmine : s.getPc.held.countP (· = msg) = 1 := by rw [hpc]; simp [GetPc.held]
  have hone := h.one_holder msg
  unfold holders at hone
  have hold : ∀ m, holders { s with
      getPc := .isempty, elements := Function.update s.elements msg none } l m +
        (if msg = m then 1 else 0) = holders s l m := by
    intro m
    simp only [holders, hpc, GetPc.held, List.countP_cons, List.countP_nil, decide_eq_true_eq]
    omega
  have hcalls : ∀ m, 0 < holders { s with
      getPc := .isempty, elements := Function.update s.elements msg none } l m → m ≠ msg := by
    rintro m hm rfl
    have := hold m
    rw [if_pos rfl] at this
    unfold holders at hm this
    omega
  refine ⟨h.crashed, h.list, h.calls, fun m => ?_, fun m hm => ?_, ?_, ?_, nofun⟩
  · have := hold m
    have := h.one_holder m
    omega
  · have hne := hcalls m hm
    have := hold m
    obtain ⟨hnull, hlive⟩ := h.live m (by omega)
    refine ⟨hnull, ?_⟩
    show Function.update s.elements msg none m ≠ none
    rw [Function.update_of_ne hne]
    exact hlive
  · intro k c m hc hpc'
    have hne := hcalls m (holders_pos_of_call hc (by simp [PostCall.held, hpc']))
    exact (Function.update_of_ne hne _ _).trans (h.filled k c m hc hpc')
  · have hlist : msg ∉ l.map Prod.snd := not_in_list (by omega)
    have hunread : msg ∉ s.getPc.unread := by rw [hpc]; simp [GetPc.unread]
    have := contents_store h none hlist hunread
    rw [hpc] at this
    exact this

/-- How far the loop is from its next emptiness test on an empty queue. -/
def GetPc.rank : GetPc → Nat
  | .pop => 2
  | .isempty => 3
  | .delete _ => 4
  | .handle _ => 5

/-- A step of the message loop keeps the queue; unless it finds the queue empty, the
loop gets closer to that. -/
theorem get_queue (h : QueueInv s l) : ∃ l', QueueInv (iocpMessageQueueGet s) l' ∧
    (iocpMessageQueueGet s).pushed = s.pushed ∧
    ((s.getPc = .isempty ∧ l = []) ∨
      4 * l'.length + (iocpMessageQueueGet s).getPc.rank < 4 * l.length + s.getPc.rank) := by
  unfold iocpMessageQueueGet
  split
  · next hpc =>
    -- the test outside of the lock
    split
    · next he =>
      have hhead : s.queue.head = null := by simpa [messageQueueIsempty] using he
      exact ⟨l, h, rfl, .inl ⟨hpc, h.list.head_eq_null_iff.mp hhead⟩⟩
    · next hne =>
      have hhead : s.queue.head ≠ null := by simpa [messageQueueIsempty] using hne
      have hl : l ≠ [] := fun e => hhead (h.list.head_eq_null_iff.mpr e)
      exact ⟨l, isempty_queue h hpc hl, rfl, .inr (by simp [hpc, GetPc.rank])⟩
  · next hpc =>
    obtain ⟨⟨p, msg⟩, rest, rfl⟩ := List.exists_cons_of_ne_nil (h.pop_nonempty hpc)
    obtain ⟨q, hq, hlist⟩ := pop_isQueue h.list
    rw [messageQueuePop, hq]
    exact ⟨rest, pop_queue h hpc hlist, rfl, .inr (by simp [hpc, GetPc.rank]; omega)⟩
  · next msg hpc =>
    obtain ⟨-, hlive⟩ := h.handle hpc
    obtain ⟨e, he⟩ := Option.ne_none_iff_exists'.mp hlive
    rw [he]
    exact ⟨l, handle_queue h hpc he, rfl, .inr (by simp [hpc, GetPc.rank])⟩
  · next msg hpc =>
    exact ⟨l, delete_queue h hpc, rfl, .inr (by simp [hpc, GetPc.rank])⟩

end Steps

theorem post_queue {s s' : State} {l : List (Nat × Nat)} {k address : Nat} (hi : QueueInv s l)
    (h : iocpPostQueueMsg s k address = some s') : ∃ l', QueueInv s' l' := by
  unfold iocpPostQueueMsg at h
  split at h
  · next hk =>
    split at h
    · next hnew =>
      cases h
      exact ⟨l, new_queue hi hk hnew.1 hnew.2⟩
    · cases h
  · next hk =>
    cases h
    exact ⟨l, fill_queue hi hk⟩
  · next hk =>
    split at h
    · next hnew =>
      obtain ⟨q, hq, hi'⟩ := lpush_queue hi hk hnew.1 hnew.2
      rw [hq] at h
      cases h
      exact ⟨_, hi'⟩
    · cases h
  · cases h

theorem init_queue : QueueInv iocpMessageQueueInit [] where
  crashed := rfl
  list := isQueue_empty
  calls := ⟨nofun, nofun, nofun⟩
  one_holder msg := by simp [holders, iocpMessageQueueInit, GetPc.held]
  live msg h := by simp [holders, iocpMessageQueueInit, GetPc.held] at h
  filled := nofun
  contents := rfl
  pop_nonempty := nofun

theorem step_queue {s s' : State} {l : List (Nat × Nat)} {a : Act} (hi : QueueInv s l)
    (h : step s a = some s') : ∃ l', QueueInv s' l' := by
  unfold step at h
  rw [if_neg (by rw [hi.crashed]; simp)] at h
  cases a with
  | call messageId wparam lparam eparam =>
    cases h
    exact ⟨l, call_queue hi rfl⟩
  | post k address => exact post_queue hi h
  | get =>
    cases h
    obtain ⟨l', hi', -⟩ := get_queue hi
    exact ⟨l', hi'⟩

/-- **Run lemma.** -/
theorem reachable_queue {s : State} (h : posting.Reachable s) : ∃ l, QueueInv s l := by
  refine h.invariant (I := fun s => ∃ l, QueueInv s l) ⟨[], init_queue⟩ ?_
  rintro s a s' - ⟨l, hi⟩ - hs
  exact step_queue hi hs

/-! ## Refinement of a FIFO sequence -/

inductive FifoAct where
  | post (e : Element)
  | take

/-- What the queue is for. -/
def fifo : Machine (Channel Element) FifoAct where
  init := .empty
  step c a :=
    match a with
    | .post e => some (c.post e)
    | .take => c.pop.map Prod.snd

/-- The messages the loop has taken out. -/
def State.taken (s : State) : Nat := s.returned.length + s.getPc.unread.length

/-- The queue as a FIFO sequence. -/
def State.channel (s : State) : Channel Element := ⟨s.pushed.take s.taken, s.pushed.drop s.taken⟩

/-- The nodes in memory are the messages still waiting. -/
theorem QueueInv.waiting {s : State} {l : List (Nat × Nat)} (h : QueueInv s l) :
    (l.map Prod.snd).map s.elements = s.channel.waiting.map some := by
  have hc := h.contents
  rw [List.map_append, ← List.append_assoc] at hc
  have := congrArg (List.drop s.taken) hc
  rw [List.drop_left' (by simp [State.taken])] at this
  rw [this, ← List.map_drop]
  rfl

/-- The messages taken are those read and the one in the loop's hand. -/
theorem QueueInv.taken {s : State} {l : List (Nat × Nat)} (h : QueueInv s l) :
    s.channel.taken.map some = s.returned.map some ++ s.getPc.unread.map s.elements := by
  have hc := h.contents
  rw [List.map_append, ← List.append_assoc] at hc
  have := congrArg (List.take s.taken) hc
  rw [List.take_left' (by simp [State.taken])] at this
  rw [this, ← List.map_take]
  rfl

theorem channel_post {s s' : State} {k address : Nat} {l : List (Nat × Nat)} (hi : QueueInv s l)
    (h : iocpPostQueueMsg s k address = some s') :
    s'.channel = s.channel ∨ ∃ e, s'.channel = s.channel.post e := by
  have hle : s.taken ≤ s.pushed.length := by
    have := congrArg List.length hi.contents
    simp only [List.length_append, List.length_map] at this
    unfold State.taken
    omega
  unfold iocpPostQueueMsg at h
  split at h
  · split at h <;> cases h
    exact .inl rfl
  · cases h
    exact .inl rfl
  · next e msg hk =>
    split at h
    · next hnew =>
      obtain ⟨q, hq, hi'⟩ := lpush_queue hi hk hnew.1 hnew.2
      rw [hq] at h
      cases h
      refine .inr ⟨e, ?_⟩
      show Channel.mk ((s.pushed ++ [e]).take s.taken) ((s.pushed ++ [e]).drop s.taken) = _
      rw [List.take_append_of_le_length hle, List.drop_append_of_le_length hle]
      rfl
    · cases h
  · cases h

theorem channel_get {s : State} {l : List (Nat × Nat)} (hi : QueueInv s l) :
    (iocpMessageQueueGet s).channel = s.channel ∨
      ∃ e, s.channel.pop = some (e, (iocpMessageQueueGet s).channel) := by
  have hw := hi.waiting
  unfold iocpMessageQueueGet
  split
  · next hpc =>
    left
    split
    · rfl
    · simp [State.channel, State.taken, hpc, GetPc.unread]
  · next hpc =>
    right
    obtain ⟨⟨p, msg⟩, rest, rfl⟩ := List.exists_cons_of_ne_nil (hi.pop_nonempty hpc)
    obtain ⟨q, hq, -⟩ := pop_isQueue hi.list
    rw [messageQueuePop, hq]
    have htaken : s.taken = s.returned.length := by simp [State.taken, hpc, GetPc.unread]
    simp only [State.channel, htaken] at hw
    generalize hd : s.pushed.drop s.returned.length = w at hw
    cases w with
    | nil => simp at hw
    | cons e w =>
      refine ⟨e, ?_⟩
      have hlt : s.returned.length < s.pushed.length := by
        have := congrArg List.length hd
        rw [List.length_drop, List.length_cons] at this
        omega
      have hget : s.pushed[s.returned.length] = e ∧ s.pushed.drop (s.returned.length + 1) = w := by
        rw [List.drop_eq_getElem_cons hlt] at hd
        exact List.cons.inj hd
      simp only [State.channel, htaken, Channel.pop, hd]
      simp [State.taken, GetPc.unread, hget.2, List.take_add_one, hget.1, List.getElem?_eq_getElem hlt]
  · next msg hpc =>
    left
    obtain ⟨e, he⟩ := Option.ne_none_iff_exists'.mp (hi.handle hpc).2
    rw [he]
    simp [State.channel, State.taken, hpc, GetPc.unread]
  · next hpc =>
    left
    simp [State.channel, State.taken, hpc, GetPc.unread]

/-- **Refinement.**  Every run of the queue is, step by step, a run of the FIFO
sequence or a pause in it. -/
theorem posting_refines_fifo {s : State} (h : posting.Reachable s) : fifo.Reachable s.channel := by
  have hstart : fifo.Reachable iocpMessageQueueInit.channel := .init
  refine h.invariant (I := fun s => fifo.Reachable s.channel) hstart ?_
  intro s a s' hr hf _ hs
  obtain ⟨l, hi⟩ := reachable_queue hr
  change step s a = some s' at hs
  unfold step at hs
  rw [if_neg (by rw [hi.crashed]; simp)] at hs
  cases a with
  | call messageId wparam lparam eparam =>
    cases hs
    exact hf
  | post k address =>
    rcases channel_post hi hs with heq | ⟨e, heq⟩
    · exact heq ▸ hf
    · exact heq ▸ .step hf (a := .post e) trivial rfl
  | get =>
    cases hs
    rcases channel_get hi with heq | ⟨e, heq⟩
    · exact heq ▸ hf
    · exact .step hf (a := .take) trivial (by simp [fifo, heq])

/-! ## Every message is returned -/

/-- The message loop alone brings in everything that is pushed. -/
theorem drain {s : State} {l : List (Nat × Nat)} (hi : QueueInv s l) :
    ∃ n s', posting.exec s (List.replicate n .get) = some s' ∧ s'.returned = s.pushed := by
  generalize hm : 4 * l.length + s.getPc.rank = m
  induction m using Nat.strong_induction_on generalizing s l with
  | _ m ih =>
    by_cases hdone : s.getPc = .isempty ∧ l = []
    · refine ⟨0, s, rfl, ?_⟩
      have hc := hi.contents
      rw [hdone.1, hdone.2] at hc
      simpa [GetPc.unread] using List.map_injective_iff.mpr (Option.some_injective _)
        (show s.returned.map some = s.pushed.map some by simpa [GetPc.unread] using hc)
    · obtain ⟨l', hi', hpushed, hlt⟩ := get_queue hi
      obtain ⟨n, s', hexec, hret⟩ := ih _ (by rcases hlt with h | h <;> [exact absurd h hdone; omega]) hi' rfl
      refine ⟨n + 1, s', ?_, hret.trans hpushed⟩
      have hstep : posting.step s .get = some (iocpMessageQueueGet s) := by
        show step s .get = _
        rw [step, hi.crashed]
        rfl
      rw [List.replicate_succ, Machine.exec_cons _ hstep]
      exact hexec

/-! ## The queue is a FIFO sequence -/

theorem queue_fifo {s : State} (h : posting.Reachable s) :
    (s.queue.head = null ↔ s.queue.tail = null) ∧
    (s.queue.head ≠ null →
      Relation.ReflTransGen (PointsTo s.queue.cells) s.queue.head s.queue.tail ∧
        PointsTo s.queue.cells s.queue.tail null) ∧
    fifo.Reachable s.channel ∧
    (∃ l, IsQueue s.queue l ∧ (l.map Prod.snd).map s.elements = s.channel.waiting.map some) ∧
    s.channel.posted = s.pushed ∧
    s.returned <+: s.pushed ∧
    (∀ (k : Nat) (c : PostCall), s.calls[k]? = some c →
      (s.pushed.filter fun e => e.call = k) = if c.pc = .returned then [c.args] else []) ∧
    (∃ n s', posting.exec s (List.replicate n .get) = some s' ∧ s'.returned = s.pushed) ∧
    (∀ msg, s.getPc = .handle msg → msg ≠ null ∧ s.elements msg = s.channel.taken.getLast?) ∧
    s.crashed = false := by
  obtain ⟨l, hi⟩ := reachable_queue h
  refine ⟨hi.list.head_null_iff_tail_null, hi.list.tail_last, posting_refines_fifo h,
    ⟨l, hi.list, hi.waiting⟩, List.take_append_drop _ _, ?_, hi.calls.once, drain hi, ?_, hi.crashed⟩
  · have hc : s.returned.map some <+: s.pushed.map some := ⟨_, hi.contents⟩
    exact (List.prefix_map_iff_of_injective (Option.some_injective _)).mp hc
  · intro msg hpc
    obtain ⟨hne, hlive⟩ := hi.handle hpc
    refine ⟨hne, ?_⟩
    obtain ⟨e, he⟩ := Option.ne_none_iff_exists'.mp hlive
    have := hi.taken
    rw [hpc] at this
    simp only [GetPc.unread, List.map_cons, List.map_nil, he] at this
    have hlast := congrArg List.getLast? this
    rw [List.getLast?_concat, List.getLast?_map] at hlast
    rw [he]
    generalize s.channel.taken.getLast? = o at hlast
    cases o with
    | none => cases hlast
    | some e' => exact (Option.some.inj hlast).symm ▸ rfl

/-- Two calls, the second of which is the first to get the lock; the loop has read
its message and is about to pop the other. -/
theorem queue_fifo_two_calls :
    ∃ s, posting.Reachable s ∧ s.pushed = [⟨66, 0, 2, 0, 1⟩, ⟨65, 5, 1, 0, 0⟩] ∧
      s.returned = [⟨66, 0, 2, 0, 1⟩] ∧ s.returned <+: s.pushed := by
  obtain ⟨s, hr, hpushed, hret⟩ := Machine.exists_reachable (M := posting)
    (p := fun s => s.pushed = [⟨66, 0, 2, 0, 1⟩, ⟨65, 5, 1, 0, 0⟩] ∧ s.returned = [⟨66, 0, 2, 0, 1⟩])
    [.call 65 1 5 0, .call 66 2 0 0, .post 0 100, .post 1 200, .post 0 0, .post 1 0, .get,
      .post 1 100, .get, .post 0 200, .get, .get, .get, .get] (by decide)
  exact ⟨s, hr, hpushed, hret, (queue_fifo hr).2.2.2.2.2.1⟩

end WingPhp.MessageQueue
