import WingPhp.Lib.Custody
import WingPhp.Select.Events
import WingPhp.Select.Steps

/-!
# Who releases a `SELECT_ITEM`

A thread makes an item, posts it in up to four `WM_ONERROR` messages and in one
`WM_ONCONNECT`, `WM_ONCLOSE` or `WM_ONRECV`, and goes on using it in between; the
message loop deletes it after the callback of the last of these, and after no
other.  This is the discipline of `Custody`, and so is what happens to the
receive buffers, which only `WM_ONRECV` carries.

`items_released_once`: no item is touched after its release, and once the queue
is drained every item has been released once, with its buffer if it has one.
What the threads allocate is written down by an observer.
-/

namespace WingPhp.Select

open Transition Sclient

/-! ## What is allocated -/

/-- What a `SELECT_ITEM` is made for. -/
inductive ItemKind where
  | accept
  | recv
  | close
  | send
  deriving DecidableEq, Repr

/-- Every `new SELECT_ITEM()` so far, with its address. -/
abbrev ItemLog := List (Nat × ItemKind)

/-- The item a step allocates. -/
def newItem (s : State) (a : Act) : Option (Nat × ItemKind) :=
  match a with
  | .accept (.clock _) =>
    match s.acceptPc with
    | .check => if s.clients.Full then none else some (s.nextPtr, .accept)
    | _ => none
  | .worker .go =>
    match s.workerPc with
    | .closeItem _ _ => some (s.nextPtr, .close)
    | _ => none
  | .worker (.clock _) =>
    match s.workerPc with
    | .recvItem _ _ r => if msgSize < r.ret then none else some (s.nextPtr, .recv)
    | _ => none
  | .main (.clockAndPeer _ _) =>
    match s.mainPc with
    | .handle (.onSend _) => some (s.nextPtr, .send)
    | _ => none
  | _ => none

def itemNote (s : State) (a : Act) (log : ItemLog) : ItemLog := log ++ (newItem s a).toList

/-- The server, with a record of the items it allocates. -/
def itemWatched (cfg : Config) : Machine (Watched State ItemLog) Act :=
  (server cfg).watch [] itemNote

def ItemLog.items (log : ItemLog) : List Nat := log.map Prod.fst

/-- The items that were given a receive buffer. -/
def ItemLog.bufs (log : ItemLog) : List Nat :=
  (log.filter fun e => e.2 = .recv).map Prod.fst

/-! ## Who has which item -/

def AcceptPc.items : AcceptPc → List Nat
  | .check => []
  | .accept item | .appendTest item | .append item | .stamp item | .sndTimeo item
  | .rcvTimeo item | .keepAlive item | .keepAliveVals item | .post item => [item.ptr]

/-- The item nobody knows of as long as `accept` has not returned a socket. -/
def AcceptPc.unsaid : AcceptPc → List Nat
  | .accept item => [item.ptr]
  | _ => []

def WorkerPc.items : WorkerPc → List Nat
  | .shutdown _ _ item | .closeTime _ _ item | .pushClose _ _ item _ | .postClose _ _ item
  | .getpeername _ _ item | .postRecv _ _ item => [item.ptr]
  | .check | .fdTest _ | .fdSet _ | .select _ | .recvTest _ | .isSet _ | .recv _
  | .recvWait _ _ | .closeItem _ _ | .remove _ _ | .recvItem _ _ _ => []

def WorkerPc.bufs : WorkerPc → List Nat
  | .getpeername _ _ item | .postRecv _ _ item => [item.ptr]
  | _ => []

/-- The item the message loop makes for itself. -/
def MainPc.own : MainPc → List Nat
  | .callback (.onSend _) item => [item.ptr]
  | _ => []

/-- The message the loop is busy with. -/
def MainPc.msg : MainPc → List Msg
  | .get => []
  | .handle m | .callback m _ => [m]

/-- The item a message carries, and whether its case of the `switch` deletes it. -/
def Msg.carried : Msg → Option (Nat × Bool)
  | .onConnect item | .onClose item | .onRecv item => some (item.ptr, true)
  | .onError item _ => some (item.ptr, false)
  | .onSend _ => none

def Msg.carriedBuf : Msg → Option (Nat × Bool)
  | .onRecv item => some (item.ptr, true)
  | _ => none

/-- The messages not yet dealt with. -/
def State.pending (s : State) : List Msg := s.mainPc.msg ++ s.queue.waiting

/-- The items held by the thread that made them. -/
def State.holders (s : State) : List Nat := s.acceptPc.items ++ s.workerPc.items ++ s.mainPc.own

/-- The items the next steps of the threads may touch. -/
def State.itemsInUse (s : State) : List Nat :=
  s.holders ++ (s.pending.filterMap Msg.carried).map Prod.fst

def State.bufsInUse (s : State) : List Nat :=
  s.workerPc.bufs ++ (s.pending.filterMap Msg.carriedBuf).map Prod.fst

/-! ## The invariant -/

structure ItemsAt (acceptPc : AcceptPc) (workerPc : WorkerPc) (mainPc : MainPc) (waiting : List Msg)
    (freedItems freedBufs : List Nat) (nextPtr : Nat) (log : ItemLog) : Prop where
  items : Custody log.items (acceptPc.items ++ workerPc.items ++ mainPc.own)
    (acceptPc.unsaid ++ mainPc.own) ((mainPc.msg ++ waiting).filterMap Msg.carried) freedItems
  bufs : Custody log.bufs workerPc.bufs [] ((mainPc.msg ++ waiting).filterMap Msg.carriedBuf)
    freedBufs
  fresh : ∀ e ∈ log, e.1 < nextPtr
  carries : ∀ m item, mainPc = .callback m item → ∀ t, m.carried = some t → t.1 = item.ptr

def ItemInv (s : State) (log : ItemLog) : Prop :=
  ItemsAt s.acceptPc s.workerPc s.mainPc s.queue.waiting s.freedItems s.freedBufs s.nextPtr log

namespace ItemsAt

variable {acceptPc acceptPc' : AcceptPc} {workerPc workerPc' : WorkerPc} {mainPc : MainPc}
  {waiting : List Msg} {freedItems freedBufs : List Nat} {nextPtr nextPtr' : Nat} {log : ItemLog}

/-- The accept thread goes on with the item it has. -/
theorem accept (h : ItemsAt acceptPc workerPc mainPc waiting freedItems freedBufs nextPtr log)
    (hitems : acceptPc'.items = acceptPc.items) (hun : acceptPc'.unsaid ⊆ acceptPc.unsaid) :
    ItemsAt acceptPc' workerPc mainPc waiting freedItems freedBufs nextPtr log where
  items := by
    refine h.items.congr (fun q => by rw [hitems]) ?_
    exact List.append_subset.mpr ⟨fun q hq => List.mem_append_left _ (hun hq),
      List.subset_append_right _ _⟩
  bufs := h.bufs
  fresh := h.fresh
  carries := h.carries

/-- The worker goes on with the item it has, or with none. -/
theorem worker (h : ItemsAt acceptPc workerPc mainPc waiting freedItems freedBufs nextPtr log)
    (hitems : workerPc'.items = workerPc.items) (hbufs : workerPc'.bufs = workerPc.bufs) :
    ItemsAt acceptPc workerPc' mainPc waiting freedItems freedBufs nextPtr log where
  items := h.items.congr (fun q => by rw [hitems]) (List.Subset.refl _)
  bufs := h.bufs.congr (fun q => by rw [hbufs]) (List.Subset.refl _)
  fresh := h.fresh
  carries := h.carries

/-- Addresses are handed out to others too. -/
theorem mono (h : ItemsAt acceptPc workerPc mainPc waiting freedItems freedBufs nextPtr log)
    (hn : nextPtr ≤ nextPtr') :
    ItemsAt acceptPc workerPc mainPc waiting freedItems freedBufs nextPtr' log where
  items := h.items
  bufs := h.bufs
  fresh e he := Nat.lt_of_lt_of_le (h.fresh e he) hn
  carries := h.carries

theorem next_new (h : ItemsAt acceptPc workerPc mainPc waiting freedItems freedBufs nextPtr log) :
    nextPtr ∉ log.items ∧ nextPtr ∉ log.bufs := by
  constructor
  · intro hm
    obtain ⟨e, he, heq⟩ := List.mem_map.mp hm
    exact Nat.ne_of_lt (h.fresh e he) heq
  · intro hm
    obtain ⟨e, he, heq⟩ := List.mem_map.mp hm
    exact Nat.ne_of_lt (h.fresh e (List.mem_of_mem_filter he)) heq

theorem fresh_new (h : ItemsAt acceptPc workerPc mainPc waiting freedItems freedBufs nextPtr log)
    (kind : ItemKind) : ∀ e ∈ log ++ [(nextPtr, kind)], e.1 < nextPtr + 1 := by
  intro e he
  rcases List.mem_append.mp he with he | he
  · exact Nat.lt_succ_of_lt (h.fresh e he)
  · obtain rfl := List.mem_singleton.mp he
    exact Nat.lt_succ_self _

theorem items_new (kind : ItemKind) (p : Nat) : ItemLog.items (log ++ [(p, kind)]) = log.items ++ [p] := by
  simp [ItemLog.items]

theorem bufs_new {kind : ItemKind} (hk : kind ≠ .recv) (p : Nat) :
    ItemLog.bufs (log ++ [(p, kind)]) = log.bufs := by
  simp [ItemLog.bufs, hk]

/-- The accept thread's `new SELECT_ITEM()`. -/
theorem acceptNew (h : ItemsAt .check workerPc mainPc waiting freedItems freedBufs nextPtr log)
    {item : SelectItem} (hp : item.ptr = nextPtr) :
    ItemsAt (.accept item) workerPc mainPc waiting freedItems freedBufs (nextPtr + 1)
      (log ++ [(nextPtr, .accept)]) where
  items := by
    rw [items_new]
    refine h.items.make h.next_new.1 (fun q => ?_) ?_
    · simp only [AcceptPc.items, hp, List.count_append, List.count_singleton, List.count_nil, beq_iff_eq]
      omega
    · simp only [AcceptPc.unsaid, hp]
      exact List.Subset.refl _
  bufs := by
    rw [bufs_new (by simp)]
    exact h.bufs
  fresh := h.fresh_new _
  carries := h.carries

/-- `accept` fails: the item is deleted at once. -/
theorem refused {item : SelectItem}
    (h : ItemsAt (.accept item) workerPc mainPc waiting freedItems freedBufs nextPtr log) :
    ItemsAt .check workerPc mainPc waiting (freedItems ++ [item.ptr]) freedBufs nextPtr log where
  items := by
    refine h.items.discard (fun q => ?_) (List.mem_append_left _ (List.mem_singleton_self _))
      (List.subset_append_right _ _)
    simp only [AcceptPc.items, List.count_append, List.count_singleton, List.count_nil, beq_iff_eq]
    omega
  bufs := h.bufs
  fresh := h.fresh
  carries := h.carries

/-- The worker's, for a client that went offline. -/
theorem closeNew (h : ItemsAt acceptPc workerPc mainPc waiting freedItems freedBufs nextPtr log)
    (hnone : workerPc.items = []) (hbufs : workerPc'.bufs = workerPc.bufs)
    (hitems : workerPc'.items = [nextPtr]) :
    ItemsAt acceptPc workerPc' mainPc waiting freedItems freedBufs (nextPtr + 1)
      (log ++ [(nextPtr, .close)]) where
  items := by
    rw [items_new]
    refine h.items.make h.next_new.1 (fun q => ?_) (List.subset_cons_self _ _)
    simp only [hnone, hitems, List.count_append, List.count_singleton, List.count_nil, beq_iff_eq]
    omega
  bufs := by
    rw [bufs_new (by simp), hbufs]
    exact h.bufs
  fresh := h.fresh_new _
  carries := h.carries

/-- The worker's, for received bytes. -/
theorem recvNew (h : ItemsAt acceptPc workerPc mainPc waiting freedItems freedBufs nextPtr log)
    (hnone : workerPc.items = []) (hnone' : workerPc.bufs = []) (hitems : workerPc'.items = [nextPtr])
    (hbufs : workerPc'.bufs = [nextPtr]) :
    ItemsAt acceptPc workerPc' mainPc waiting freedItems freedBufs (nextPtr + 1)
      (log ++ [(nextPtr, .recv)]) where
  items := by
    rw [items_new]
    refine h.items.make h.next_new.1 (fun q => ?_) (List.subset_cons_self _ _)
    simp only [hnone, hitems, List.count_append, List.count_singleton, List.count_nil, beq_iff_eq]
    omega
  bufs := by
    have hlog : ItemLog.bufs (log ++ [(nextPtr, .recv)]) = log.bufs ++ [nextPtr] := by
      simp [ItemLog.bufs]
    rw [hlog]
    refine h.bufs.make h.next_new.2 (fun q => ?_) (List.nil_subset _)
    simp only [hnone', hbufs, List.count_singleton, List.count_nil, beq_iff_eq]
    omega
  fresh := h.fresh_new _
  carries := h.carries

/-! ## Posts -/

/-- The threads hold different items. -/
theorem disjoint (h : ItemsAt acceptPc workerPc mainPc waiting freedItems freedBufs nextPtr log) :
    (∀ p ∈ acceptPc.items, ∀ q ∈ workerPc.items, p ≠ q) ∧
    (∀ p ∈ acceptPc.items, ∀ q ∈ mainPc.own, p ≠ q) ∧ ∀ p ∈ workerPc.items, ∀ q ∈ mainPc.own, p ≠ q := by
  have hnd := h.items.held_nodup
  rw [List.nodup_append, List.nodup_append] at hnd
  obtain ⟨⟨-, -, haw⟩, -, hm⟩ := hnd
  exact ⟨haw, fun p hp => hm p (List.mem_append_left _ hp),
    fun p hp => hm p (List.mem_append_right _ hp)⟩

theorem unsaid_subset (pc : AcceptPc) : pc.unsaid ⊆ pc.items := by
  cases pc <;> simp [AcceptPc.unsaid, AcceptPc.items]

/-- What nobody has been told about is not what the worker holds. -/
theorem unsaid_ne_worker (h : ItemsAt acceptPc workerPc mainPc waiting freedItems freedBufs nextPtr log)
    {p : Nat} (hp : p ∈ workerPc.items) :
    ∀ q ∈ acceptPc.unsaid ++ mainPc.own, q ∈ acceptPc.unsaid ++ mainPc.own ∧ q ≠ p := by
  obtain ⟨haw, -, hwm⟩ := h.disjoint
  intro q hq
  refine ⟨hq, ?_⟩
  rcases List.mem_append.mp hq with hq | hq
  · exact haw q (unsaid_subset _ hq) p hp
  · exact (hwm p hp q hq).symm

/-- Nor what the accept thread holds once it has a socket. -/
theorem unsaid_ne_accept (h : ItemsAt acceptPc workerPc mainPc waiting freedItems freedBufs nextPtr log)
    {p : Nat} (hp : p ∈ acceptPc.items) (hun : acceptPc'.unsaid = []) :
    ∀ q ∈ acceptPc'.unsaid ++ mainPc.own, q ∈ acceptPc.unsaid ++ mainPc.own ∧ q ≠ p := by
  obtain ⟨-, ham, -⟩ := h.disjoint
  intro q hq
  rw [hun, List.nil_append] at hq
  exact ⟨List.mem_append_right _ hq, (ham p hp q hq).symm⟩

theorem carried_append (l l' : List Msg) (m : Msg) :
    (l ++ (l' ++ [m])).filterMap Msg.carried =
      (l ++ l').filterMap Msg.carried ++ m.carried.toList := by
  rw [← List.append_assoc, List.filterMap_append]
  cases h : m.carried <;> simp [h]

theorem carriedBuf_append (l l' : List Msg) (m : Msg) :
    (l ++ (l' ++ [m])).filterMap Msg.carriedBuf =
      (l ++ l').filterMap Msg.carriedBuf ++ m.carriedBuf.toList := by
  rw [← List.append_assoc, List.filterMap_append]
  cases h : m.carriedBuf <;> simp [h]

/-- `WM_ONSEND` carries no item. -/
theorem postSend (h : ItemsAt acceptPc workerPc mainPc waiting freedItems freedBufs nextPtr log)
    (r : SendReport) :
    ItemsAt acceptPc workerPc mainPc (waiting ++ [.onSend r]) freedItems freedBufs nextPtr log where
  items := by
    rw [carried_append]
    simpa [Msg.carried] using h.items
  bufs := by
    rw [carriedBuf_append]
    simpa [Msg.carriedBuf] using h.bufs
  fresh := h.fresh
  carries := h.carries

/-- `WM_ONERROR` from the accept thread. -/
theorem acceptError (h : ItemsAt acceptPc workerPc mainPc waiting freedItems freedBufs nextPtr log)
    {item : SelectItem} (hp : item.ptr ∈ acceptPc.items) (hun : acceptPc.unsaid = []) (e : Nat) :
    ItemsAt acceptPc workerPc mainPc (waiting ++ [.onError item e]) freedItems freedBufs nextPtr log where
  items := by
    rw [carried_append]
    refine h.items.mention ?_ (fun _ => rfl) (h.unsaid_ne_accept hp hun)
    exact List.mem_append_left _ (List.mem_append_left _ hp)
  bufs := by
    rw [carriedBuf_append]
    simpa [Msg.carriedBuf] using h.bufs
  fresh := h.fresh
  carries := h.carries

/-- `WM_ONERROR` from the worker. -/
theorem workerError (h : ItemsAt acceptPc workerPc mainPc waiting freedItems freedBufs nextPtr log)
    {item : SelectItem} (hp : item.ptr ∈ workerPc.items) (e : Nat) :
    ItemsAt acceptPc workerPc mainPc (waiting ++ [.onError item e]) freedItems freedBufs nextPtr log where
  items := by
    rw [carried_append]
    refine h.items.mention ?_ (fun _ => rfl) (h.unsaid_ne_worker hp)
    exact List.mem_append_left _ (List.mem_append_right _ hp)
  bufs := by
    rw [carriedBuf_append]
    simpa [Msg.carriedBuf] using h.bufs
  fresh := h.fresh
  carries := h.carries

/-- `WM_ONCONNECT`: the accept thread lets go of the item. -/
theorem postConnect {item : SelectItem}
    (h : ItemsAt (.post item) workerPc mainPc waiting freedItems freedBufs nextPtr log) :
    ItemsAt .check workerPc mainPc (waiting ++ [.onConnect item]) freedItems freedBufs nextPtr log where
  items := by
    rw [carried_append]
    refine h.items.handOver (fun q => ?_) (h.unsaid_ne_accept (List.mem_singleton_self _) rfl)
    simp only [AcceptPc.items, List.count_append, List.count_singleton, List.count_nil, beq_iff_eq]
    omega
  bufs := by
    rw [carriedBuf_append]
    simpa [Msg.carriedBuf] using h.bufs
  fresh := h.fresh
  carries := h.carries

/-- `WM_ONCLOSE`: the worker lets go of the item. -/
theorem postClose {i i' : Nat} {k k' : Sock} {item : SelectItem}
    (h : ItemsAt acceptPc (.postClose i k item) mainPc waiting freedItems freedBufs nextPtr log) :
    ItemsAt acceptPc (.remove i' k') mainPc (waiting ++ [.onClose item]) freedItems freedBufs nextPtr
      log where
  items := by
    rw [carried_append]
    refine h.items.handOver (fun q => ?_) (h.unsaid_ne_worker (List.mem_singleton_self _))
    simp only [WorkerPc.items, List.count_append, List.count_singleton, List.count_nil, beq_iff_eq]
    omega
  bufs := by
    rw [carriedBuf_append]
    simpa [Msg.carriedBuf, WorkerPc.bufs] using h.bufs
  fresh := h.fresh
  carries := h.carries

/-- `WM_ONRECV`: the worker lets go of the item and of its buffer. -/
theorem postRecv {i i' : Nat} {k : Sock} {item : SelectItem}
    (h : ItemsAt acceptPc (.postRecv i k item) mainPc waiting freedItems freedBufs nextPtr log) :
    ItemsAt acceptPc (.recvTest i') mainPc (waiting ++ [.onRecv item]) freedItems freedBufs nextPtr
      log where
  items := by
    rw [carried_append]
    refine h.items.handOver (fun q => ?_) (h.unsaid_ne_worker (List.mem_singleton_self _))
    simp only [WorkerPc.items, List.count_append, List.count_singleton, List.count_nil, beq_iff_eq]
    omega
  bufs := by
    rw [carriedBuf_append]
    refine h.bufs.handOver (fun q => ?_) (by simp)
    simp only [WorkerPc.bufs, List.count_singleton, List.count_nil, beq_iff_eq]
    omega
  fresh := h.fresh
  carries := h.carries

/-! ## The message loop -/

theorem get {m : Msg} (h : ItemsAt acceptPc workerPc .get (m :: waiting) freedItems freedBufs nextPtr log) :
    ItemsAt acceptPc workerPc (.handle m) waiting freedItems freedBufs nextPtr log where
  items := h.items
  bufs := h.bufs
  fresh := h.fresh
  carries := nofun

/-- The loop goes into the callback with the item of the message. -/
theorem handle {m : Msg} {item : SelectItem}
    (h : ItemsAt acceptPc workerPc (.handle m) waiting freedItems freedBufs nextPtr log)
    (hown : (MainPc.callback m item).own = []) (hc : ∀ t, m.carried = some t → t.1 = item.ptr) :
    ItemsAt acceptPc workerPc (.callback m item) waiting freedItems freedBufs nextPtr log where
  items := by
    refine h.items.congr (fun q => ?_) ?_
    · rw [hown]
      rfl
    · rw [hown]
      exact List.Subset.refl _
  bufs := h.bufs
  fresh := h.fresh
  carries m' item' he := by
    obtain ⟨rfl, rfl⟩ := MainPc.callback.inj he
    exact hc

/-- With one it makes for `WM_ONSEND`. -/
theorem handleSend {r : SendReport} {item : SelectItem}
    (h : ItemsAt acceptPc workerPc (.handle (.onSend r)) waiting freedItems freedBufs nextPtr log)
    (hp : item.ptr = nextPtr) :
    ItemsAt acceptPc workerPc (.callback (.onSend r) item) waiting freedItems freedBufs (nextPtr + 1)
      (log ++ [(nextPtr, .send)]) where
  items := by
    rw [items_new]
    refine h.items.make h.next_new.1 (fun q => ?_) ?_
    · simp only [MainPc.own, hp, List.count_append, List.count_singleton, List.count_nil, beq_iff_eq]
      omega
    · intro q hq
      rcases List.mem_append.mp hq with hq | hq
      · exact List.mem_cons_of_mem _ (List.mem_append_left _ hq)
      · obtain rfl := List.mem_singleton.mp hq
        rw [hp]
        exact List.mem_cons_self ..
  bufs := by
    rw [bufs_new (by simp)]
    exact h.bufs
  fresh := h.fresh_new _
  carries m item' he := by
    obtain ⟨rfl, rfl⟩ := MainPc.callback.inj he
    nofun

/-- The callback has returned, and the case of the `switch` deletes what it deletes. -/
theorem done {m : Msg} {item : SelectItem}
    (h : ItemsAt acceptPc workerPc (.callback m item) waiting freedItems freedBufs nextPtr log) :
    ItemsAt acceptPc workerPc .get waiting (freedItems ++ m.freedItems item)
      (freedBufs ++ m.freedBufs item) nextPtr log := by
  have hc := h.carries m item rfl
  have hitems := h.items
  have hbufs := h.bufs
  cases m with
  | onSend r =>
    refine ⟨hitems.discard (fun q => ?_) (List.mem_append_right _ (List.mem_singleton_self _))
      (List.append_subset.mpr ⟨List.subset_append_left _ _, List.nil_subset _⟩), ?_, h.fresh, nofun⟩
    · simp only [MainPc.own, List.count_append, List.count_singleton, List.count_nil, beq_iff_eq]
      omega
    · show Custody _ _ _ _ (freedBufs ++ [])
      rw [List.append_nil]
      exact hbufs
  | onError item' e =>
    refine ⟨?_, ?_, h.fresh, nofun⟩
    · exact hitems.finish
    · show Custody _ _ _ _ (freedBufs ++ [])
      rw [List.append_nil]
      exact hbufs
  | onRecv item' =>
    have hptr : item'.ptr = item.ptr := hc _ rfl
    refine ⟨?_, ?_, h.fresh, nofun⟩
    · show Custody _ _ _ _ (freedItems ++ [item.ptr])
      rw [← hptr]
      exact hitems.finish
    · show Custody _ _ _ _ (freedBufs ++ [item.ptr])
      rw [← hptr]
      exact hbufs.finish
  | onConnect item' | onClose item' =>
    have hptr : item'.ptr = item.ptr := hc _ rfl
    refine ⟨?_, ?_, h.fresh, nofun⟩
    · show Custody _ _ _ _ (freedItems ++ [item.ptr])
      rw [← hptr]
      exact hitems.finish
    · show Custody _ _ _ _ (freedBufs ++ [])
      rw [List.append_nil]
      exact hbufs

end ItemsAt

/-! ## Every step keeps the invariant -/

theorem ItemInv.acceptError {s : State} {log : ItemLog} (hi : ItemInv s log) {item : SelectItem}
    (hp : item.ptr ∈ s.acceptPc.items) (hun : s.acceptPc.unsaid = []) (e : Option Nat) :
    ItemInv (s.postError item e) log := by
  cases e with
  | none => exact hi
  | some e => exact ItemsAt.acceptError hi hp hun e

theorem accept_items {s s' : State} {input : Input} {log : ItemLog} (hi : ItemInv s log)
    (h : AcceptStep s input s') : ItemInv s' (itemNote s (.accept input) log) := by
  unfold itemNote newItem
  cases h with
  | full hpc hfull =>
    rw [hpc]
    dsimp only
    rw [if_pos hfull]
    simpa using hi
  | new hpc hfull =>
    unfold ItemInv at hi
    rw [hpc] at hi ⊢
    dsimp only
    rw [if_neg hfull]
    exact hi.acceptNew rfl
  | refused hpc =>
    unfold ItemInv at hi
    rw [hpc] at hi
    rw [Option.toList_none, List.append_nil]
    exact hi.refused
  | accepted hpc | noRoom hpc | room hpc | append hpc =>
    rw [Option.toList_none, List.append_nil]
    exact ItemsAt.accept hi (by rw [hpc]; rfl) (List.nil_subset _)
  | stamp hpc | stampOnly hpc =>
    rw [hpc, Option.toList_none, List.append_nil]
    exact ItemsAt.accept hi (by rw [hpc]; rfl) (List.nil_subset _)
  | sndTimeo hpc | rcvTimeo hpc | keepAlive hpc | keepAliveVals hpc =>
    rw [Option.toList_none, List.append_nil]
    refine ItemsAt.accept (hi.acceptError ?_ ?_ _) ?_ (List.nil_subset _)
    · rw [hpc]
      exact List.mem_singleton_self _
    · rw [hpc]
      rfl
    · rw [State.postError, hpc]
      rfl
  | post hpc =>
    unfold ItemInv at hi
    rw [hpc] at hi
    rw [Option.toList_none, List.append_nil]
    exact hi.postConnect

theorem ItemInv.workerError {s : State} {log : ItemLog} (hi : ItemInv s log) {item : SelectItem}
    (hp : item.ptr ∈ s.workerPc.items) (e : Option Nat) : ItemInv (s.postError item e) log := by
  cases e with
  | none => exact hi
  | some e => exact ItemsAt.workerError hi hp e

theorem worker_items {s s' : State} {input : Input} {log : ItemLog} (hi : ItemInv s log)
    (h : WorkerStep s input s') : ItemInv s' (itemNote s (.worker input) log) := by
  unfold itemNote newItem
  cases h with
  | idle hpc =>
    rw [hpc, Option.toList_none, List.append_nil]
    exact hi
  | begin hpc | fdTest hpc | fdDone hpc | fdSet hpc | recvTest hpc | passDone hpc | isSet hpc
  | notSet hpc | recv hpc | remove hpc | pushClose hpc =>
    rw [hpc, Option.toList_none, List.append_nil]
    exact ItemsAt.worker hi (by rw [hpc]; rfl) (by rw [hpc]; rfl)
  | timeout hpc | ready hpc | selectError hpc | offline hpc | received hpc | getpeername hpc =>
    rw [Option.toList_none, List.append_nil]
    exact ItemsAt.worker hi (by rw [hpc]; rfl) (by rw [hpc]; rfl)
  | closeTime hpc =>
    rw [hpc, Option.toList_none, List.append_nil]
    exact ItemsAt.mono (ItemsAt.worker hi (by rw [hpc]; rfl) (by rw [hpc]; rfl)) (Nat.le_succ _)
  | closeItem hpc =>
    rw [hpc]
    exact ItemsAt.closeNew hi (by rw [hpc]; rfl) (by rw [hpc]; rfl) rfl
  | shutdown hpc =>
    rw [Option.toList_none, List.append_nil]
    refine ItemsAt.worker (hi.workerError ?_ _) ?_ ?_
    · rw [hpc]
      exact List.mem_singleton_self _
    · rw [State.postError, hpc]
      rfl
    · rw [State.postError, hpc]
      rfl
  | postClose hpc =>
    unfold ItemInv at hi
    rw [hpc] at hi ⊢
    rw [Option.toList_none, List.append_nil]
    exact hi.postClose
  | overrun hpc hlen =>
    rw [hpc]
    dsimp only
    rw [if_pos hlen, Option.toList_none, List.append_nil]
    exact ItemsAt.worker hi (by rw [hpc]) (by rw [hpc])
  | recvItem hpc hlen =>
    rw [hpc]
    dsimp only
    rw [if_neg hlen]
    exact ItemsAt.recvNew hi (by rw [hpc]; rfl) (by rw [hpc]; rfl) rfl rfl
  | peerError hpc =>
    rw [Option.toList_none, List.append_nil]
    refine ItemsAt.worker (ItemsAt.workerError hi ?_ _) ?_ ?_
    · rw [hpc]
      exact List.mem_singleton_self _
    · rw [hpc]
      rfl
    · rw [hpc]
      rfl
  | postRecv hpc =>
    unfold ItemInv at hi
    rw [hpc] at hi ⊢
    rw [Option.toList_none, List.append_nil]
    exact hi.postRecv

theorem main_items {s s' : State} {input : Input} {log : ItemLog} (hi : ItemInv s log)
    (h : MainStep s input s') : ItemInv s' (itemNote s (.main input) log) := by
  unfold itemNote newItem
  cases h with
  | @get m q hpc hpop =>
    unfold ItemInv at hi
    rw [hpc] at hi
    rw [Option.toList_none, List.append_nil]
    unfold Channel.pop at hpop
    split at hpop
    · cases hpop
    · next hw =>
      obtain ⟨rfl, rfl⟩ := hpop
      rw [hw] at hi
      exact hi.get
  | @handle m now addr hpc =>
    unfold ItemInv at hi
    rw [hpc] at hi ⊢
    cases m with
    | onSend r => exact hi.handleSend rfl
    | onConnect item | onClose item | onRecv item | onError item e =>
      dsimp only
      rw [Option.toList_none, List.append_nil]
      refine ItemsAt.mono (hi.handle rfl fun t ht => ?_) (Nat.le_succ _)
      rw [← Option.some.inj ht]
      rfl
  | @phpSend m item object msg queued client hpc =>
    rw [Option.toList_none, List.append_nil]
    cases hr : (sclientSend s.pool client msg queued).2.2 with
    | none =>
      exact hi
    | some r =>
      exact ItemsAt.postSend hi r
  | done hpc =>
    unfold ItemInv at hi
    rw [hpc] at hi
    rw [Option.toList_none, List.append_nil]
    exact hi.done

theorem pool_items {s s' : State} {k : Nat} {input : Input} {log : ItemLog} (hi : ItemInv s log)
    (h : PoolStep s k input s') : ItemInv s' log := by
  cases h with
  | send => exact hi
  | post => exact ItemsAt.postSend hi _

theorem close_items {s s' : State} {input : Input} {log : ItemLog} (hi : ItemInv s log)
    (h : CloseStep s input s') : ItemInv s' log := by
  cases h <;> exact hi

theorem start_items (cfg : Config) : ItemInv (start cfg) [] where
  items := Custody.empty
  bufs := Custody.empty
  fresh := nofun
  carries := nofun

theorem step_items {s s' : State} {a : Act} {log : ItemLog} (hi : ItemInv s log)
    (h : step s a = some s') : ItemInv s' (itemNote s a log) := by
  cases runsStep h with
  | accept ht => exact accept_items hi ht
  | worker ht => exact worker_items hi ht
  | close ht =>
    rw [itemNote, show newItem s _ = none from rfl, Option.toList_none, List.append_nil]
    exact close_items hi ht
  | main ht => exact main_items hi ht
  | pool ht =>
    rw [itemNote, show newItem s _ = none from rfl, Option.toList_none, List.append_nil]
    exact pool_items hi ht

/-- **Run lemma.** -/
theorem watched_items {cfg : Config} {w : Watched State ItemLog}
    (h : (itemWatched cfg).Reachable w) : ItemInv w.state w.notes :=
  Machine.Reachable.watch_invariant (I := ItemInv) (start_items cfg)
    (fun _ _ _ _ _ hi hs => step_items hi hs) h

/-! ## Every item is released once -/

theorem bufs_subset (pc : WorkerPc) : pc.bufs ⊆ pc.items := by
  cases pc <;> simp [WorkerPc.bufs, WorkerPc.items]

theorem ItemLog.mem_bufs {log : ItemLog} (hnd : log.items.Nodup) {e : Nat × ItemKind} (he : e ∈ log) :
    e.1 ∈ log.bufs ↔ e.2 = .recv := by
  constructor
  · intro hm
    obtain ⟨e', he', heq⟩ := List.mem_map.mp hm
    obtain ⟨hmem, hkind⟩ := List.mem_filter.mp he'
    rw [← List.inj_on_of_nodup_map hnd hmem he heq]
    exact of_decide_eq_true hkind
  · exact fun hk => List.mem_map.mpr ⟨e, List.mem_filter.mpr ⟨he, decide_eq_true hk⟩, rfl⟩

/-- **No item is touched after its release, and each is released once**: it is
held by the thread that made it, or its one last message is pending, or it has been
released; and when nothing is pending, what is let go of is released, with its
receive buffer exactly if it has one. -/
theorem items_released_once {cfg : Config} {w : Watched State ItemLog}
    (h : (itemWatched cfg).Reachable w) :
    (∀ p ∈ w.state.itemsInUse, p ∉ w.state.freedItems) ∧
    (∀ p ∈ w.state.bufsInUse, p ∉ w.state.freedBufs) ∧
    w.notes.items.Nodup ∧
    (∀ p ∈ w.notes.items, w.state.holders.count p +
      (w.state.pending.filterMap Msg.carried).count (p, true) + w.state.freedItems.count p = 1) ∧
    (w.state.queue.waiting = [] → w.state.mainPc = .get → ∀ e ∈ w.notes, e.1 ∉ w.state.holders →
      w.state.freedItems.count e.1 = 1 ∧
        w.state.freedBufs.count e.1 = if e.2 = .recv then 1 else 0) := by
  obtain ⟨hitems, hbufs, -, -⟩ := watched_items h
  refine ⟨?_, ?_, hitems.nodup, ?_, ?_⟩
  · intro p hp
    rcases List.mem_append.mp hp with hp | hp
    · exact (hitems.held_live hp).2.1
    · obtain ⟨m, hm, rfl⟩ := List.mem_map.mp hp
      exact hitems.line_live hm
  · intro p hp
    rcases List.mem_append.mp hp with hp | hp
    · exact (hbufs.held_live hp).2.1
    · obtain ⟨m, hm, rfl⟩ := List.mem_map.mp hp
      exact hbufs.line_live hm
  · intro p hp
    rw [← List.count_eq_one_of_mem hitems.nodup hp]
    exact hitems.tickets p
  · intro hwait hmain e he hheld
    have hmem : e.1 ∈ w.notes.items := List.mem_map_of_mem he
    have hnobuf : e.1 ∉ w.state.workerPc.bufs := fun hb =>
      hheld (List.mem_append_left _ (List.mem_append_right _ (bufs_subset _ hb)))
    unfold State.holders at hheld
    rw [hwait, hmain] at hitems hbufs
    rw [hmain] at hheld
    refine ⟨hitems.released_once hmem hheld, ?_⟩
    split
    · next hk => exact hbufs.released_once ((ItemLog.mem_bufs hitems.nodup he).mpr hk) hnobuf
    · next hk => exact hbufs.never_made fun hb => hk ((ItemLog.mem_bufs hitems.nodup he).mp hb)

/-- A client whose keep-alive options fail sends a byte, `getpeername` fails, and the
client leaves: six messages carry its three items. -/
theorem items_released_once_errors :
    ∃ w, (itemWatched ⟨1000, 0⟩).Reachable w ∧
      w.notes = [(0, .accept), (1, .recv), (2, .close), (10, .accept)] ∧
      w.state.queue.taken.length = 6 ∧ w.state.holders = [10] ∧
      w.state.freedItems.count 1 = 1 ∧ w.state.freedBufs.count 1 = 1 := by
  obtain ⟨w, hr, hnotes, htaken, hheld, hwait, hmain⟩ := Machine.exists_reachable
    (M := itemWatched ⟨1000, 0⟩)
    (p := fun w => w.notes = [(0, .accept), (1, .recv), (2, .close), (10, .accept)] ∧
      w.state.queue.taken.length = 6 ∧ w.state.holders = [10] ∧ w.state.queue.waiting = [] ∧
      w.state.mainPc = .get)
    ((connectActs 0 4).take 5 ++ [.accept (.ret (some 10042)), .accept (.ret (some 10042)),
      .accept .go] ++ pollActs 1 [4] ++ [.worker (.received (.data [65])), .worker (.clock 0),
      .worker (.peer (.error 10057)), .worker .go, .worker .go] ++ pollActs 1 [4] ++ closeActs ++
      (List.replicate 6 dispatchActs).flatten ++ [.accept (.clock 0)]) (by decide)
  have honce := (items_released_once hr).2.2.2.2 hwait hmain (1, .recv) (by simp [hnotes]) (by simp [hheld])
  exact ⟨w, hr, hnotes, htaken, hheld, honce.1, honce.2⟩

end WingPhp.Select
