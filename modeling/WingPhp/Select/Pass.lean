import WingPhp.Select.Events
import WingPhp.Select.Registry
import WingPhp.Select.Steps

/-!
# One pass of the worker's receive loop

What `select` and each `recv` of a pass answered, and what the worker did about it,
written down by an observer (`PassLog`).  A pass does what its answers ask for
(`PassLog.Ok`) exactly if `select` did not fail, no `recv` failed with anything but
`WSAECONNRESET`, and no client accepted since was met under a reported handle value
(`PassLog.Clean`): the results go into an `unsigned long`, where `SOCKET_ERROR` is
neither `< 0` nor `<= 0`, so after a failed `select` the worker goes on to call `recv`,
and after a failed `recv` it copies 4294967295 bytes; and `FD_ISSET` knows values only.
-/

namespace WingPhp.Select

open Transition Sclient

/-! ## The record of a pass -/

/-- The three things that happen to a client that went offline: its socket goes on the
close list, its `WM_ONCLOSE` into the queue, and itself out of the client array. -/
inductive CloseDeed where
  | listed (socket : Sock)
  | announced (socket : Sock)
  | unregistered (socket : Sock)
  deriving DecidableEq, Repr

/-- A call of `recv` with its answer, the sizes of the copies made of the buffer, the
items posted with `WM_ONRECV`, and what was done of the close path. -/
structure Visit where
  socket : Sock
  result : Option RecvResult
  copied : List Nat
  posted : List SelectItem
  closePath : List CloseDeed
  deriving DecidableEq, Repr

/-- `recv` has been called and has not returned. -/
def Visit.start (k : Sock) : Visit := ⟨k, none, [], [], []⟩

/-- The answer of `select` and the clients registered then, whether `FD_ISSET` has found the
value of a client accepted since, and the visits, the latest first. -/
structure PassLog where
  selected : Option SelectResult
  polled : List Sock
  reused : Bool
  visits : List Visit
  deriving DecidableEq, Repr

def PassLog.empty : PassLog := ⟨none, [], false, []⟩

/-- Changes the record of the visit the worker is in. -/
def PassLog.update (log : PassLog) (f : Visit → Visit) : PassLog :=
  match log.visits with
  | v :: vs => { log with visits := f v :: vs }
  | [] => log

/-- The sockets a successful `select` reported: those of the clients then registered. -/
def PassLog.reported (log : PassLog) : List Sock :=
  match log.selected with
  | some (.ready fds) => log.polled.filter fun k => decide (k.value ∈ fds)
  | _ => []

def passNote (s : State) (a : Act) (log : PassLog) : PassLog :=
  match a with
  | .worker input =>
    match s.workerPc, input with
    | .check, .go => if s.clients.num ≤ 0 then log else .empty
    | .select _, .selected r => { log with selected := some r, polled := s.clients.registered }
    | .isSet i, .go =>
      if (s.clients.arr.get i).value ∈ s.fdread ∧ s.clients.arr.get i ∉ log.polled then
        { log with reused := true }
      else log
    | .recv i, .go => { log with visits := .start (s.clients.arr.get i) :: log.visits }
    | .recvWait _ _, .received r => log.update fun v => { v with result := some r }
    | .pushClose _ _ _ closeItem, .go =>
      log.update fun v => { v with closePath := v.closePath ++ [.listed closeItem.socket] }
    | .postClose _ _ item, .go =>
      log.update fun v => { v with closePath := v.closePath ++ [.announced item.socket] }
    | .remove i _, .go =>
      log.update fun v => { v with closePath := v.closePath ++ [.unregistered (s.clients.arr.get i)] }
    | .recvItem _ _ r, .clock _ => log.update fun v => { v with copied := v.copied ++ [r.ret] }
    | .postRecv _ _ item, .go => log.update fun v => { v with posted := v.posted ++ [item] }
    | _, _ => log
  | _ => log

/-- The server, with a record of the worker's pass. -/
def passWatched (cfg : Config) : Machine (Watched State PassLog) Act :=
  (server cfg).watch .empty passNote

/-! ## What a pass should do -/

/-- `recv` was called on a socket that `select` reported, and only received bytes are
copied and posted, all of them, within the buffer. -/
structure Visit.Safe (reported : List Sock) (v : Visit) : Prop where
  reported : v.socket ∈ reported
  copied : ∀ n ∈ v.copied, ∃ bytes, v.result = some (.data bytes) ∧ n = bytes.length ∧ n ≤ msgSize
  posted : ∀ item ∈ v.posted, ∃ bytes, v.result = some (.data bytes) ∧ 0 < bytes.length ∧
    item.recvBytes = bytes.length ∧ item.recv = bytes

/-- Besides, the close path is run once for an offline client, and nothing is done after
another error. -/
structure Visit.Ok (reported : List Sock) (v : Visit) : Prop extends v.Safe reported where
  offline : v.result = some .closed ∨ v.result = some (.error wsaeConnReset) →
    v.closePath = [.listed v.socket, .announced v.socket, .unregistered v.socket]
  failed : ∀ e, v.result = some (.error e) → e ≠ wsaeConnReset → v.posted = [] ∧ v.closePath = []

def PassLog.Ok (log : PassLog) : Prop := ∀ v ∈ log.visits, v.Ok log.reported

/-- `select` did not fail, nor any `recv` with anything but `WSAECONNRESET`, and the handle values
`FD_ISSET` found were not those of clients accepted since. -/
def PassLog.Clean (log : PassLog) : Prop :=
  (∀ e, log.selected ≠ some (.error e)) ∧
  (∀ v ∈ log.visits, ∀ e, v.result = some (.error e) → e = wsaeConnReset) ∧ log.reused = false

/-! ## What a pass does -/

/-- The visits the loop goes on after. -/
inductive Visit.Settled : Visit → Prop
  | received {k : Sock} {bytes : List UInt8} {item : SelectItem} :
      0 < bytes.length → bytes.length ≤ msgSize → item.recv = bytes →
      item.recvBytes = bytes.length → Settled ⟨k, some (.data bytes), [bytes.length], [item], []⟩
  | offline {k : Sock} {r : RecvResult} : r.Offline →
      Settled ⟨k, some r, [], [], [.listed k, .announced k, .unregistered k]⟩

/-- The visit the worker is in, as far as it has come. -/
inductive Visit.At : WorkerPc → Visit → Prop
  | recvWait {i : Nat} {k : Sock} : At (.recvWait i k) (.start k)
  | closeItem {i : Nat} {k : Sock} {r : RecvResult} : r.Offline →
      At (.closeItem i k) ⟨k, some r, [], [], []⟩
  | shutdown {i : Nat} {k : Sock} {item : SelectItem} {r : RecvResult} : r.Offline →
      At (.shutdown i k item) ⟨k, some r, [], [], []⟩
  | closeTime {i : Nat} {k : Sock} {item : SelectItem} {r : RecvResult} : r.Offline →
      At (.closeTime i k item) ⟨k, some r, [], [], []⟩
  | pushClose {i : Nat} {k : Sock} {item : SelectItem} {c : CloseItem} {r : RecvResult} :
      r.Offline → At (.pushClose i k item c) ⟨k, some r, [], [], []⟩
  | postClose {i : Nat} {k : Sock} {item : SelectItem} {r : RecvResult} : r.Offline →
      At (.postClose i k item) ⟨k, some r, [], [], [.listed k]⟩
  | remove {i : Nat} {k : Sock} {r : RecvResult} : r.Offline →
      At (.remove i k) ⟨k, some r, [], [], [.listed k, .announced k]⟩
  | recvItem {i : Nat} {k : Sock} {r : RecvResult} : r.Allowed → ¬ r.Offline →
      At (.recvItem i k r) ⟨k, some r, [], [], []⟩
  | getpeername {i : Nat} {k : Sock} {item : SelectItem} {bytes : List UInt8} :
      0 < bytes.length → bytes.length ≤ msgSize → item.recv = bytes →
      item.recvBytes = bytes.length →
      At (.getpeername i k item) ⟨k, some (.data bytes), [bytes.length], [], []⟩
  | postRecv {i : Nat} {k : Sock} {item : SelectItem} {bytes : List UInt8} :
      0 < bytes.length → bytes.length ≤ msgSize → item.recv = bytes →
      item.recvBytes = bytes.length →
      At (.postRecv i k item) ⟨k, some (.data bytes), [bytes.length], [], []⟩

/-- The copy that crashed the process. -/
inductive Visit.Overrun : Visit → Prop
  | error {k : Sock} {e : Nat} : e ≠ wsaeConnReset →
      Overrun ⟨k, some (.error e), [socketErrorUlong], [], []⟩

/-- `select` has answered with something the loop goes on after. -/
def PassLog.Selected (log : PassLog) : Prop :=
  (∃ fds, log.selected = some (.ready fds)) ∨ ∃ e, log.selected = some (.error e)

def PassLog.Settled (log : PassLog) : Prop := ∀ v ∈ log.visits, v.Settled

/-- The worker is in the latest visit. -/
def PassLog.Visiting (log : PassLog) (pc : WorkerPc) : Prop :=
  log.Selected ∧ ∃ v vs, log.visits = v :: vs ∧ v.At pc ∧ ∀ v ∈ vs, v.Settled

/-- How far the pass has come. -/
def PassLog.At (g : Clients) (fdread : List Nat) (log : PassLog) : WorkerPc → Prop
  | .check => log.Settled ∧ (log.visits ≠ [] → log.Selected)
  | .fdTest i | .fdSet i =>
    log = .empty ∧ 0 < g.num ∧ if i = 0 then fdread = [] else (g.arr.get 0).value ∈ fdread
  | .select _ => log = .empty ∧ 0 < g.num ∧ (g.arr.get 0).value ∈ fdread
  | .recvTest _ | .isSet _ => log.Settled ∧ log.Selected
  | .recv i => log.Settled ∧ log.Selected ∧ (g.arr.get i).value ∈ fdread
  | pc => log.Visiting pc

/-- At the first client of the receive loop. -/
def WorkerPc.AtFirst : WorkerPc → Prop
  | .recvTest i | .isSet i | .recv i => i = 0
  | _ => False

/-- The client `recv` is about to be called on. -/
def WorkerPc.callee (g : Clients) : WorkerPc → Option Sock
  | .recv i => some (g.arr.get i)
  | _ => none

/-- The pass: the set is what `select` left in it, `recv` is called on its members
only, and after a failed `select` it is called on the first client at least. -/
structure PassAt (g : Clients) (fdread : List Nat) (pc : WorkerPc) (log : PassLog) : Prop where
  ready : ∀ fds, log.selected = some (.ready fds) → fdread = fds
  marked : ∀ v ∈ log.visits, v.socket.value ∈ fdread
  reused : log.reused = true ↔
    ∃ k ∈ log.visits.map Visit.socket ++ (pc.callee g).toList, k ∉ log.polled
  failed : ∀ e, log.selected = some (.error e) →
    log.visits ≠ [] ∨ pc.AtFirst ∧ 0 < g.num ∧ (g.arr.get 0).value ∈ fdread
  phase : log.At g fdread pc

structure PassInv (s : State) (log : PassLog) : Prop where
  running : s.crashed = false → PassAt s.clients s.fdread s.workerPc log
  crashed : s.crashed = true → ∃ v ∈ log.visits, v.Overrun

theorem PassInv.of_running {s : State} {log : PassLog} (hrun : s.crashed = false)
    (h : PassAt s.clients s.fdread s.workerPc log) : PassInv s log where
  running _ := h
  crashed hc := by
    rw [hrun] at hc
    cases hc

namespace PassAt

variable {g g' : Clients} {fdread : List Nat} {pc pc' : WorkerPc} {log : PassLog}

/-- The worker moves on without calling, receiving or posting. -/
theorem move (h : PassAt g fdread pc log) (hcallee : pc'.callee g = pc.callee g)
    (hfirst : log.visits ≠ [] ∨
      (pc.AtFirst → 0 < g.num → (g.arr.get 0).value ∈ fdread → pc'.AtFirst))
    (hat : log.At g fdread pc') : PassAt g fdread pc' log where
  ready := h.ready
  marked := h.marked
  reused := by rw [hcallee]; exact h.reused
  failed e he := by
    rcases h.failed e he with hv | ⟨hpc, hg⟩
    · exact .inl hv
    · rcases hfirst with hv | hpc'
      · exact .inl hv
      · exact .inr ⟨hpc' hpc hg.1 hg.2, hg⟩
  phase := hat

theorem callee_eq_none {v : Visit} (hv : v.At pc) : pc.callee g = none := by
  cases hv <;> rfl

theorem visits_ne_nil (hv : log.Visiting pc) : log.visits ≠ [] := by
  obtain ⟨-, v, vs, hvs, -⟩ := hv
  rw [hvs]
  exact List.cons_ne_nil v vs

/-- Within a visit. -/
theorem visit (h : PassAt g fdread pc log) (hv : log.Visiting pc) (hat : ∀ v : Visit, v.At pc → v.At pc')
    (hpc' : log.Visiting pc' → log.At g fdread pc') : PassAt g fdread pc' log := by
  have hne := visits_ne_nil hv
  obtain ⟨hsel, v, vs, hvs, hpc, hset⟩ := hv
  have hcallee : pc'.callee g = pc.callee g := by
    rw [callee_eq_none hpc, callee_eq_none (hat v hpc)]
  exact h.move hcallee (.inl hne) (hpc' ⟨hsel, v, vs, hvs, hat v hpc, hset⟩)

/-- Something is done in a visit. -/
theorem update (h : PassAt g fdread pc log) (hv : log.Visiting pc) {f : Visit → Visit}
    (hf : ∀ v, (f v).socket = v.socket) (hcallee : pc'.callee g' = none)
    (hat : ∀ v vs, log.visits = v :: vs → log.Selected → v.At pc → (∀ v ∈ vs, v.Settled) →
      PassLog.At g' fdread { log with visits := f v :: vs } pc') :
    PassAt g' fdread pc' (log.update f) := by
  obtain ⟨hsel, v, vs, hvs, hpc, hset⟩ := hv
  have hlog : log.update f = { log with visits := f v :: vs } := by
    unfold PassLog.update
    rw [hvs]
  rw [hlog]
  have hmarked := h.marked
  have hreused := h.reused
  rw [hvs] at hmarked
  rw [hvs, callee_eq_none hpc, List.map_cons] at hreused
  constructor
  · exact h.ready
  · intro v' hv'
    rcases List.mem_cons.mp hv' with rfl | hv'
    · rw [hf]
      exact hmarked v (List.mem_cons_self ..)
    · exact hmarked v' (List.mem_cons_of_mem v hv')
  · rw [hcallee, List.map_cons, hf]
    exact hreused
  · exact fun _ _ => .inl (List.cons_ne_nil _ _)
  · exact hat v vs hvs hsel hpc hset

/-- A visit goes on with its record brought up to date. -/
theorem advance (h : PassAt g fdread pc log) (hv : log.Visiting pc) {f : Visit → Visit}
    (hf : ∀ v, (f v).socket = v.socket) (hat : ∀ v, v.At pc → (f v).At pc')
    (hpc' : ∀ log : PassLog, log.Visiting pc' → log.At g fdread pc') :
    PassAt g fdread pc' (log.update f) := by
  have hcallee : pc'.callee g = none := by
    obtain ⟨-, v, -, -, hpc, -⟩ := hv
    exact callee_eq_none (hat v hpc)
  exact h.update hv hf hcallee fun v vs _ hsel hpc hset => hpc' _ ⟨hsel, f v, vs, rfl, hat v hpc, hset⟩

/-- A visit ends. -/
theorem settle (h : PassAt g fdread pc log) (hv : log.Visiting pc) {f : Visit → Visit}
    (hf : ∀ v, (f v).socket = v.socket) (hat : ∀ v, v.At pc → (f v).Settled) {j : Nat} :
    PassAt g' fdread (.recvTest j) (log.update f) := by
  refine h.update hv hf rfl fun v vs _ hsel hpc hset => ⟨?_, hsel⟩
  intro v' hv'
  rcases List.mem_cons.mp hv' with rfl | hv'
  · exact hat v hpc
  · exact hset v' hv'

/-- `FD_ISSET` has found the value of the client at the index. -/
theorem found {i : Nat} (h : PassAt g fdread (.isSet i) log) (hmem : (g.arr.get i).value ∈ fdread) :
    PassAt g fdread (.recv i)
      (if (g.arr.get i).value ∈ fdread ∧ g.arr.get i ∉ log.polled then { log with reused := true } else log) := by
  obtain ⟨hset, hsel⟩ := h.phase
  have hreused : log.reused = true ↔ ∃ k ∈ log.visits.map Visit.socket, k ∉ log.polled := by
    rw [h.reused]
    show (∃ k ∈ log.visits.map Visit.socket ++ [], k ∉ log.polled) ↔ _
    rw [List.append_nil]
  by_cases hk : g.arr.get i ∈ log.polled
  · rw [if_neg fun hn => hn.2 hk]
    refine ⟨h.ready, h.marked, ?_, h.failed, hset, hsel, hmem⟩
    rw [hreused]
    constructor
    · rintro ⟨k, hk, hnew⟩
      exact ⟨k, List.mem_append_left _ hk, hnew⟩
    · rintro ⟨k, hk', hnew⟩
      rcases List.mem_append.mp hk' with hk' | hk'
      · exact ⟨k, hk', hnew⟩
      · rw [List.mem_singleton.mp hk'] at hnew
        exact absurd hk hnew
  · rw [if_pos ⟨hmem, hk⟩]
    refine ⟨h.ready, h.marked, ?_, h.failed, hset, hsel, hmem⟩
    exact ⟨fun _ => ⟨_, List.mem_append_right _ (List.mem_singleton_self _), hk⟩, fun _ => rfl⟩

/-- `recv` is called on the client of the worker's index. -/
theorem call {i : Nat} (h : PassAt g fdread (.recv i) log) :
    PassAt g fdread (.recvWait i (g.arr.get i)) { log with visits := .start (g.arr.get i) :: log.visits } := by
  obtain ⟨hset, hsel, hmem⟩ := h.phase
  refine ⟨h.ready, ?_, ?_, fun _ _ => .inl (List.cons_ne_nil _ _), hsel, _, _, rfl, .recvWait, hset⟩
  · intro v hv
    rcases List.mem_cons.mp hv with rfl | hv
    · exact hmem
    · exact h.marked v hv
  · -- the client about to be called is the latest one called
    show log.reused = true ↔ ∃ k ∈ g.arr.get i :: log.visits.map Visit.socket ++ [], k ∉ log.polled
    rw [h.reused, List.append_nil]
    refine exists_congr fun k => and_congr_left fun _ => ?_
    show k ∈ log.visits.map Visit.socket ++ [g.arr.get i] ↔ _
    rw [List.mem_append, List.mem_singleton, List.mem_cons, or_comm]

/-- The client array matters only in its first cell and the cell of the worker's index. -/
theorem congr (h : PassAt g fdread pc log) (hok : WorkerOk g pc)
    (hnum : g.num ≤ g'.num) (hget : ∀ i, i < g.num → g'.arr.get i = g.arr.get i) :
    PassAt g' fdread pc log := by
  obtain ⟨hready, hmarked, hreused, hfailed, hphase⟩ := h
  have hfirst : 0 < g.num → 0 < g'.num ∧ g'.arr.get 0 = g.arr.get 0 := fun h =>
    ⟨Nat.lt_of_lt_of_le h hnum, hget 0 h⟩
  have hcallee : pc.callee g' = pc.callee g := by
    cases pc with
    | recv i => exact congrArg some (hget i hok)
    | _ => rfl
  refine ⟨hready, hmarked, hcallee ▸ hreused, fun e he => ?_, ?_⟩
  · rcases hfailed e he with hv | ⟨hpc, hpos, hmem⟩
    · exact .inl hv
    · obtain ⟨hpos', h0⟩ := hfirst hpos
      exact .inr ⟨hpc, hpos', h0 ▸ hmem⟩
  · cases pc with
    | fdTest i | fdSet i | select i =>
      obtain ⟨hlog, hpos, hmem⟩ := hphase
      obtain ⟨hpos', h0⟩ := hfirst hpos
      exact ⟨hlog, hpos', h0 ▸ hmem⟩
    | recv i =>
      obtain ⟨hset, hsel, hmem⟩ := hphase
      exact ⟨hset, hsel, by rw [hget i hok]; exact hmem⟩
    | _ => exact hphase

end PassAt

/-! ## Every step keeps the invariant -/

theorem accept_pass {s s' : State} {input : Input} {log : PassLog} (hok : WorkerOk s.clients s.workerPc)
    (hi : PassInv s log) (h : AcceptStep s input s') : PassInv s' log := by
  cases h with
  | append hpc =>
    refine ⟨fun hrun => (hi.running hrun).congr hok (Nat.le_succ _) fun i hlt => ?_, hi.crashed⟩
    show (s.clients.arr.set s.clients.num _).get i = _
    rw [CArray.get_set, if_neg (by omega)]
  | _ => exact ⟨hi.running, hi.crashed⟩

theorem main_pass {s s' : State} {input : Input} {log : PassLog} (hi : PassInv s log)
    (h : MainStep s input s') : PassInv s' log := by
  cases h <;> exact ⟨hi.running, hi.crashed⟩

theorem close_pass {s s' : State} {input : Input} {log : PassLog} (hi : PassInv s log)
    (h : CloseStep s input s') : PassInv s' log := by
  cases h <;> exact ⟨hi.running, hi.crashed⟩

theorem pool_pass {s s' : State} {k : Nat} {input : Input} {log : PassLog} (hi : PassInv s log)
    (h : PoolStep s k input s') : PassInv s' log := by
  cases h <;> exact ⟨hi.running, hi.crashed⟩

/-- Only `SOCKET_ERROR` is more than the buffer holds. -/
theorem RecvResult.error_of_overrun {r : RecvResult} (hallowed : r.Allowed) (hlt : msgSize < r.ret)
    (hoff : ¬ r.Offline) : ∃ e, r = .error e ∧ e ≠ wsaeConnReset := by
  cases r with
  | data bytes => exact absurd hlt (Nat.not_lt_of_le hallowed.2)
  | closed => exact absurd (.inl rfl) hoff
  | error e => exact ⟨e, rfl, fun he => hoff (.inr ⟨rfl, he⟩)⟩

theorem RecvResult.data_of_fit {r : RecvResult} (hle : ¬ msgSize < r.ret) (hoff : ¬ r.Offline) :
    ∃ bytes, r = .data bytes := by
  cases r with
  | data bytes => exact ⟨bytes, rfl⟩
  | closed => exact absurd (.inl rfl) hoff
  | error e => exact absurd (show msgSize < socketErrorUlong by decide) hle

/-- The first client's value is put into the empty set, and stays. -/
theorem mem_fdSet_first {g : Clients} {fdread : List Nat} {i : Nat}
    (h : if i = 0 then fdread = [] else (g.arr.get 0).value ∈ fdread) :
    (g.arr.get 0).value ∈ fdSet fdread (g.arr.get i).value := by
  by_cases hi : i = 0
  · rw [if_pos hi] at h
    subst hi h
    exact List.mem_singleton_self _
  · rw [if_neg hi] at h
    unfold fdSet
    split
    · exact h
    · split
      · exact List.mem_append_left _ h
      · exact h

namespace Visit.At

variable {i : Nat} {k : Sock} {item : SelectItem} {r : RecvResult} {v : Visit}

theorem listed {c : CloseItem} (h : v.At (.pushClose i k item c)) :
    ({ v with closePath := v.closePath ++ [.listed k] } : Visit).At (.postClose i k item) := by
  cases h with
  | pushClose hoff => exact .postClose hoff

theorem announced (h : v.At (.postClose i k item)) :
    ({ v with closePath := v.closePath ++ [.announced k] } : Visit).At (.remove i k) := by
  cases h with
  | postClose hoff => exact .remove hoff

theorem unregistered (h : v.At (.remove i k)) :
    ({ v with closePath := v.closePath ++ [.unregistered k] } : Visit).Settled := by
  cases h with
  | remove hoff => exact .offline hoff

theorem copied (h : v.At (.recvItem i k r)) (hle : ¬ msgSize < r.ret) (ptr : Nat) (socket : Sock) (now : Int) :
    ({ v with copied := v.copied ++ [r.ret] } : Visit).At
      (.getpeername i k (recvSelectItem ptr socket now r)) := by
  cases h with
  | recvItem hallowed hoff =>
    obtain ⟨bytes, rfl⟩ := RecvResult.data_of_fit hle hoff
    exact .getpeername hallowed.1 hallowed.2 (List.take_of_length_le (Nat.le_refl _)) rfl

theorem overrun (h : v.At (.recvItem i k r)) (hlt : msgSize < r.ret) :
    ({ v with copied := v.copied ++ [r.ret] } : Visit).Overrun := by
  cases h with
  | recvItem hallowed hoff =>
    obtain ⟨e, rfl, he⟩ := RecvResult.error_of_overrun hallowed hlt hoff
    exact .error he

/-- Whatever `getpeername` says. -/
theorem answered (h : v.At (.getpeername i k item)) (addr : SockAddrIn) :
    v.At (.postRecv i k { item with addr }) := by
  cases h with
  | getpeername hpos hle hrecv hbytes => exact .postRecv hpos hle hrecv hbytes

theorem posted (h : v.At (.postRecv i k item)) :
    ({ v with posted := v.posted ++ [item] } : Visit).Settled := by
  cases h with
  | postRecv hpos hle hrecv hbytes => exact .received hpos hle hrecv hbytes

end Visit.At

/-- Nothing is visited yet. -/
theorem unpolled_reused {g : Clients} {pc : WorkerPc} {log : PassLog}
    (h : log.reused = false ∧ log.visits = [] ∧ pc.callee g = none) :
    log.reused = true ↔ ∃ k ∈ log.visits.map Visit.socket ++ (pc.callee g).toList, k ∉ log.polled := by
  obtain ⟨hr, hv, hc⟩ := h
  simp [hr, hv, hc]

theorem worker_pass {s s' : State} {input : Input} {log : PassLog} (hok : WorkerOk s.clients s.workerPc)
    (hrun : s.crashed = false) (hi : PassAt s.clients s.fdread s.workerPc log)
    (h : WorkerStep s input s') : PassInv s' (passNote s (.worker input) log) := by
  unfold passNote
  cases h with
  | idle hpc hnum =>
    simp only [hpc, hnum, Nat.le_refl, if_true]
    exact .of_running hrun hi
  | begin hpc hnum =>
    simp only [hpc, if_neg (Nat.not_le_of_lt hnum)]
    exact .of_running hrun ⟨nofun, nofun, unpolled_reused ⟨rfl, rfl, rfl⟩, nofun, rfl, hnum, rfl⟩
  | fdTest hpc hlt =>
    rw [hpc] at hi
    simp only [hpc]
    exact .of_running hrun (hi.move rfl (.inr fun h _ _ => h) hi.phase)
  | @fdDone i hpc hge =>
    rw [hpc] at hi
    simp only [hpc]
    obtain ⟨hlog, hpos, hmem⟩ := hi.phase
    rw [if_neg (by omega)] at hmem
    exact .of_running hrun (hi.move rfl (.inr fun h _ _ => h) ⟨hlog, hpos, hmem⟩)
  | fdSet hpc =>
    rw [hpc] at hi
    simp only [hpc]
    obtain ⟨rfl, hpos, hmem⟩ := hi.phase
    exact .of_running hrun ⟨nofun, nofun, hi.reused, nofun, rfl, hpos, mem_fdSet_first hmem⟩
  | timeout hpc =>
    rw [hpc] at hi
    simp only [hpc]
    obtain ⟨rfl, -⟩ := hi.phase
    exact .of_running hrun
      ⟨nofun, nofun, unpolled_reused ⟨rfl, rfl, rfl⟩, nofun, nofun, fun hne => absurd rfl hne⟩
  | @ready i fds hpc _ _ =>
    rw [hpc] at hi
    simp only [hpc]
    obtain ⟨rfl, -⟩ := hi.phase
    refine .of_running hrun ⟨?_, nofun, unpolled_reused ⟨rfl, rfl, rfl⟩, nofun, nofun, .inl ⟨fds, rfl⟩⟩
    rintro _ ⟨⟩
    rfl
  | @selectError i e hpc =>
    rw [hpc] at hi
    simp only [hpc]
    obtain ⟨rfl, hpos, hmem⟩ := hi.phase
    exact .of_running hrun
      ⟨nofun, nofun, unpolled_reused ⟨rfl, rfl, rfl⟩, fun _ _ => .inr ⟨rfl, hpos, hmem⟩, nofun, .inr ⟨e, rfl⟩⟩
  | recvTest hpc hlt =>
    rw [hpc] at hi
    simp only [hpc]
    exact .of_running hrun (hi.move rfl (.inr fun h _ _ => h) hi.phase)
  | passDone hpc hge =>
    rw [hpc] at hi
    simp only [hpc]
    obtain ⟨hset, hsel⟩ := hi.phase
    refine .of_running hrun (hi.move rfl (.inr ?_) ⟨hset, fun _ => hsel⟩)
    rintro rfl hpos -
    exact absurd hpos hge
  | isSet hpc hmem =>
    rw [hpc] at hi
    simp only [hpc]
    exact .of_running hrun (hi.found hmem)
  | notSet hpc hmem =>
    rw [hpc] at hi
    simp only [hpc]
    rw [if_neg fun hn => hmem hn.1]
    refine .of_running hrun (hi.move rfl (.inr ?_) hi.phase)
    rintro rfl - hmem'
    exact absurd hmem' hmem
  | @recv i hpc =>
    rw [hpc] at hi
    simp only [hpc]
    exact .of_running hrun hi.call
  | offline hpc _ hoff =>
    rw [hpc] at hi
    simp only [hpc]
    refine .of_running hrun (hi.advance hi.phase (fun _ => rfl) ?_ fun _ h => h)
    rintro _ ⟨⟩
    exact .closeItem hoff
  | received hpc hallowed hoff =>
    rw [hpc] at hi
    simp only [hpc]
    refine .of_running hrun (hi.advance hi.phase (fun _ => rfl) ?_ fun _ h => h)
    rintro _ ⟨⟩
    exact .recvItem hallowed hoff
  | closeItem hpc =>
    rw [hpc] at hi
    simp only [hpc]
    refine .of_running hrun (hi.visit hi.phase ?_ id)
    intro v hv
    cases hv with
    | closeItem hoff => exact .shutdown hoff
  | shutdown hpc =>
    rw [hpc] at hi
    simp only [hpc]
    refine .of_running hrun (hi.visit hi.phase ?_ id)
    intro v hv
    cases hv with
    | shutdown hoff => exact .closeTime hoff
  | closeTime hpc =>
    rw [hpc] at hi
    simp only [hpc]
    refine .of_running hrun (hi.visit hi.phase ?_ id)
    intro v hv
    cases hv with
    | closeTime hoff => exact .pushClose hoff
  | pushClose hpc _ =>
    rw [hpc] at hi hok
    simp only [hpc]
    obtain ⟨-, -, -, rfl⟩ := hok
    exact .of_running hrun (hi.advance hi.phase (fun _ => rfl) (fun _ hv => hv.listed) fun _ h => h)
  | postClose hpc =>
    rw [hpc] at hi hok
    simp only [hpc]
    obtain ⟨-, -, rfl⟩ := hok
    exact .of_running hrun (hi.advance hi.phase (fun _ => rfl) (fun _ hv => hv.announced) fun _ h => h)
  | @remove i k hpc =>
    rw [hpc] at hi hok
    simp only [hpc]
    obtain ⟨-, rfl⟩ := hok
    refine .of_running hrun (hi.settle hi.phase ?_ ?_)
    · exact fun _ => rfl
    · exact fun _ hv => hv.unregistered
  | overrun hpc hlt =>
    rw [hpc] at hi
    simp only [hpc]
    refine ⟨nofun, fun _ => ?_⟩
    obtain ⟨-, v, vs, hvs, hv, -⟩ := hi.phase
    unfold PassLog.update
    rw [hvs]
    exact ⟨_, List.mem_cons_self .., hv.overrun hlt⟩
  | @recvItem i k r now hpc hle =>
    rw [hpc] at hi
    simp only [hpc]
    refine .of_running hrun (hi.advance hi.phase (fun _ => rfl) ?_ fun _ h => h)
    exact fun _ hv => hv.copied hle _ _ now
  | getpeername hpc =>
    rw [hpc] at hi
    simp only [hpc]
    exact .of_running hrun (hi.visit hi.phase (fun _ hv => hv.answered _) id)
  | peerError hpc =>
    rw [hpc] at hi
    simp only [hpc]
    exact .of_running hrun (hi.visit hi.phase (fun _ hv => hv.answered _) id)
  | postRecv hpc =>
    rw [hpc] at hi
    simp only [hpc]
    refine .of_running hrun (hi.settle hi.phase ?_ ?_)
    · exact fun _ => rfl
    · exact fun _ hv => hv.posted

theorem start_pass (cfg : Config) : PassInv (start cfg) .empty :=
  .of_running rfl ⟨nofun, nofun, unpolled_reused ⟨rfl, rfl, rfl⟩, nofun, nofun, fun hne => absurd rfl hne⟩

theorem step_running {s s' : State} {a : Act} (h : step s a = some s') : s.crashed = false := by
  unfold step at h
  split at h
  · cases h
  · next hc => exact (Bool.not_eq_true _).mp hc

/-- **Run lemma.** -/
theorem watched_pass {cfg : Config} {w : Watched State PassLog} (h : (passWatched cfg).Reachable w) :
    PassInv w.state w.notes := by
  refine h.watch_invariant (I := PassInv) (start_pass cfg) ?_
  intro s a s' log hr hi hs
  have hok := (reachable_registry hr).worker
  have hrun : s.crashed = false := step_running (show step s a = some s' from hs)
  cases runsStep hs with
  | accept ht => exact accept_pass hok hi ht
  | worker ht => exact worker_pass hok hrun (hi.running hrun) ht
  | close ht => exact close_pass hi ht
  | main ht => exact main_pass hi ht
  | pool ht => exact pool_pass hi ht

/-! ## What a pass comes to -/

theorem Visit.Settled.safe {reported : List Sock} {v : Visit} (h : v.Settled)
    (hmem : v.socket ∈ reported) : v.Safe reported := by
  cases h with
  | @received k bytes item hpos hle hrecv hbytes =>
    refine ⟨hmem, ?_, ?_⟩
    · intro n hn
      obtain rfl := List.mem_singleton.mp hn
      exact ⟨bytes, rfl, rfl, hle⟩
    · intro item' hitem
      obtain rfl := List.mem_singleton.mp hitem
      exact ⟨bytes, rfl, hpos, hbytes, hrecv⟩
  | offline => exact ⟨hmem, nofun, nofun⟩

theorem Visit.Settled.ok {reported : List Sock} {v : Visit} (h : v.Settled)
    (hmem : v.socket ∈ reported) : v.Ok reported := by
  refine ⟨h.safe hmem, ?_, ?_⟩
  · cases h with
    | received => rintro (h | h) <;> cases h
    | offline => exact fun _ => rfl
  · cases h with
    | received => exact nofun
    | offline hoff =>
      rintro e ⟨⟩ hne
      rcases hoff with h0 | ⟨-, he⟩
      · cases h0
      · exact absurd he hne

/-- A visit is within its bounds at any moment. -/
theorem Visit.At.safe {reported : List Sock} {pc : WorkerPc} {v : Visit} (h : v.At pc)
    (hmem : v.socket ∈ reported) : v.Safe reported := by
  cases h with
  | getpeername _ hle | postRecv _ hle =>
    refine ⟨hmem, ?_, nofun⟩
    intro n hn
    obtain rfl := List.mem_singleton.mp hn
    exact ⟨_, rfl, rfl, hle⟩
  | _ => exact ⟨hmem, nofun, nofun⟩

namespace PassLog

variable {log : PassLog}

theorem reported_of_ready {fds : List Nat} (h : log.selected = some (.ready fds)) :
    log.reported = log.polled.filter fun k => decide (k.value ∈ fds) := by
  unfold reported
  rw [h]

theorem reported_of_error {e : Nat} (h : log.selected = some (.error e)) : log.reported = [] := by
  unfold reported
  rw [h]

theorem mem_polled_of_reported {k : Sock} (h : k ∈ log.reported) : k ∈ log.polled := by
  unfold reported at h
  split at h
  · exact (List.mem_filter.mp h).1
  · cases h

/-- After a clean answer of `select` the visits are to reported sockets. -/
theorem mem_reported {g : Clients} {fdread : List Nat} {pc : WorkerPc} (h : PassAt g fdread pc log)
    (hclean : log.Clean) (hsel : log.Selected) {v : Visit} (hv : v ∈ log.visits) :
    v.socket ∈ log.reported := by
  rcases hsel with ⟨fds, hfds⟩ | ⟨e, he⟩
  · rw [reported_of_ready hfds, ← h.ready fds hfds, List.mem_filter]
    refine ⟨?_, decide_eq_true (h.marked v hv)⟩
    have hnot := mt h.reused.mpr (Bool.eq_false_iff.mp hclean.2.2)
    by_contra hnew
    exact hnot ⟨v.socket, List.mem_append_left _ (List.mem_map_of_mem hv), hnew⟩
  · exact absurd he (hclean.1 e)

/-- At any moment all visits are within their bounds, if the answers so far are clean. -/
theorem safe_of_clean {g : Clients} {fdread : List Nat} {pc : WorkerPc}
    (h : PassAt g fdread pc log) (hclean : log.Clean) : ∀ v ∈ log.visits, v.Safe log.reported := by
  intro v hv
  have hphase := h.phase
  have hsettled : log.Selected → v.Settled → v.Safe log.reported := fun hsel hset =>
    hset.safe (mem_reported h hclean hsel hv)
  cases pc with
  | check => exact hsettled (hphase.2 (List.ne_nil_of_mem hv)) (hphase.1 v hv)
  | fdTest | fdSet | select =>
    obtain ⟨rfl, -⟩ := hphase
    cases hv
  | recvTest | isSet => exact hsettled hphase.2 (hphase.1 v hv)
  | recv => exact hsettled hphase.2.1 (hphase.1 v hv)
  | _ =>
    obtain ⟨hsel, v', vs, hvs, hat, hset⟩ := hphase
    have hv' := hv
    rw [hvs] at hv'
    rcases List.mem_cons.mp hv' with rfl | hv'
    · exact hat.safe (mem_reported h hclean hsel hv)
    · exact hsettled hsel (hset v hv')

theorem clean_of_settled {g : Clients} {fdread : List Nat} (h : PassAt g fdread .check log)
    (hok : log.Ok) : log.Clean := by
  obtain ⟨hset, hsel⟩ := h.phase
  refine ⟨?_, ?_, ?_⟩
  · intro e he
    rcases h.failed e he with hne | ⟨hfirst, -⟩
    · obtain ⟨v, hv⟩ := List.exists_mem_of_ne_nil _ hne
      have hmem := (hok v hv).reported
      rw [reported_of_error he] at hmem
      cases hmem
    · exact hfirst
  · intro v hv e he
    cases hset v hv with
    | received => cases he
    | offline hoff =>
      cases he
      rcases hoff with h0 | ⟨-, he⟩
      · cases h0
      · exact he
  · apply Bool.eq_false_iff.mpr
    intro hreused
    obtain ⟨k, hk, hnew⟩ := h.reused.mp hreused
    obtain ⟨v, hv, rfl⟩ := List.mem_map.mp (List.append_nil _ ▸ hk)
    exact hnew (mem_polled_of_reported (hok v hv).reported)

end PassLog

theorem Visit.Overrun.not_ok {reported : List Sock} {v : Visit} (h : v.Overrun) : ¬ v.Ok reported := by
  intro hok
  cases h with
  | error =>
    obtain ⟨bytes, hdata, -⟩ := hok.copied socketErrorUlong (List.mem_singleton_self _)
    cases hdata

theorem Visit.Overrun.not_clean {log : PassLog} {v : Visit} (h : v.Overrun) (hv : v ∈ log.visits) :
    ¬ log.Clean := by
  intro hclean
  cases h with
  | error he => exact he (hclean.2.1 _ hv _ rfl)

/-- **A pass does what its answers ask for exactly if they are clean.**  Until it is
over it stays within its bounds as long as they are. -/
theorem pass_ok_iff {cfg : Config} {w : Watched State PassLog} (h : (passWatched cfg).Reachable w) :
    (w.state.workerPc = .check ∨ w.state.crashed = true → (w.notes.Ok ↔ w.notes.Clean)) ∧
    (w.notes.Clean → w.state.crashed = false ∧ ∀ v ∈ w.notes.visits, v.Safe w.notes.reported) := by
  have hi : PassInv w.state w.notes := watched_pass h
  by_cases hc : w.state.crashed = true
  · obtain ⟨v, hv, hover⟩ := hi.crashed hc
    refine ⟨fun _ => ⟨fun hok => ?_, fun hclean => ?_⟩, fun hclean => ?_⟩
    · exact absurd (hok v hv) hover.not_ok
    · exact absurd hclean (hover.not_clean hv)
    · exact absurd hclean (hover.not_clean hv)
  · have hrun := (Bool.not_eq_true _).mp hc
    have hat := hi.running hrun
    refine ⟨fun hpc => ?_, fun hclean => ⟨hrun, PassLog.safe_of_clean hat hclean⟩⟩
    rcases hpc with hpc | hc'
    · rw [hpc] at hat
      refine ⟨PassLog.clean_of_settled hat, fun hclean v hv => ?_⟩
      obtain ⟨hset, hsel⟩ := hat.phase
      exact (hset v hv).ok (PassLog.mem_reported hat hclean (hsel (List.ne_nil_of_mem hv)) hv)
    · exact absurd hc' hc

/-- One client has sent a byte, the other has left. -/
theorem pass_ok_iff_two_clients :
    ∃ w, (passWatched ⟨1000, 0⟩).Reachable w ∧
      w.notes.visits.map Visit.result = [some .closed, some (.data [65])] ∧ w.notes.Ok := by
  obtain ⟨w, hr, hpc, hsel, hreused, hres⟩ := Machine.exists_reachable (M := passWatched ⟨1000, 0⟩)
    (p := fun w => w.state.workerPc = .check ∧ w.notes.selected = some (.ready [4, 8]) ∧
      w.notes.reused = false ∧ w.notes.visits.map Visit.result = [some .closed, some (.data [65])])
    (connectActs 0 4 ++ connectActs 0 8 ++ pollActs 2 [4, 8] ++ receiveActs [65] ++
      List.replicate 3 (.worker .go) ++ closeActs ++ [.worker .go]) (by decide)
  have hclean : w.notes.Clean := by
    refine ⟨by simp [hsel], fun v hv e he => ?_, hreused⟩
    have hmem := List.mem_map_of_mem (f := Visit.result) hv
    rw [hres, he] at hmem
    simp at hmem
  exact ⟨w, hr, hres, ((pass_ok_iff hr).1 (.inl hpc)).mpr hclean⟩

/-- `select` fails, and the worker calls `recv` all the same; `recv` runs into the
receive timeout, and the worker copies; the client on socket 4 has left and been closed
before the pass is over, and `recv` is called on the next one to get the value. -/
theorem pass_after_errors :
    (∃ w, (passWatched ⟨1000, 0⟩).Reachable w ∧ w.state.workerPc = .check ∧ ¬ w.notes.Ok) ∧
    (∃ w, (passWatched ⟨1000, 0⟩).Reachable w ∧ w.state.crashed = true ∧ ¬ w.notes.Ok) ∧
    ∃ w, (passWatched ⟨1000, 0⟩).Reachable w ∧ w.state.workerPc = .check ∧
      w.notes.reported = [⟨4, 0⟩] ∧ ⟨4, 2⟩ ∈ w.notes.visits.map Visit.socket ∧ ¬ w.notes.Ok := by
  refine ⟨?_, ?_, ?_⟩
  · obtain ⟨w, hr, hpc, hnotes⟩ := Machine.exists_reachable (M := passWatched ⟨1000, 0⟩)
      (p := fun w => w.state.workerPc = .check ∧
        w.notes = ⟨some (.error 10038), [⟨4, 0⟩], false, [⟨⟨4, 0⟩, some .closed, [], [],
          [.listed ⟨4, 0⟩, .announced ⟨4, 0⟩, .unregistered ⟨4, 0⟩]⟩]⟩)
      (connectActs 0 4 ++ List.replicate 4 (.worker .go) ++ [.worker (.selected (.error 10038))] ++
        List.replicate 3 (.worker .go) ++ closeActs ++ [.worker .go]) (by decide)
    refine ⟨w, hr, hpc, fun hok => ?_⟩
    rw [hnotes] at hok
    exact absurd (hok _ (List.mem_singleton_self _)).reported (by decide)
  · obtain ⟨w, hr, hcrash, hnotes⟩ := Machine.exists_reachable (M := passWatched ⟨1000, 0⟩)
      (p := fun w => w.state.crashed = true ∧
        w.notes = ⟨some (.ready [4]), [⟨4, 0⟩], false,
          [⟨⟨4, 0⟩, some (.error 10060), [4294967295], [], []⟩]⟩)
      (connectActs 0 4 ++ pollActs 1 [4] ++ [.worker (.received (.error 10060)), .worker (.clock 0)])
      (by decide)
    refine ⟨w, hr, hcrash, fun hok => ?_⟩
    rw [hnotes] at hok
    obtain ⟨bytes, hdata, -⟩ := (hok _ (List.mem_singleton_self _)).copied _ (List.mem_singleton_self _)
    cases hdata
  · obtain ⟨w, hr, hpc, hreported, hmem⟩ := Machine.exists_reachable (M := passWatched ⟨1000, 0⟩)
      (p := fun w => w.state.workerPc = .check ∧ w.notes.reported = [⟨4, 0⟩] ∧
        ⟨4, 2⟩ ∈ w.notes.visits.map Visit.socket)
      (connectActs 0 4 ++ pollActs 1 [4] ++ closeActs ++ [.close .go, .close (.clock 5), .close (.clock 5)] ++
        connectActs 0 8 ++ connectActs 0 4 ++ List.replicate 3 (.worker .go) ++ receiveActs [65] ++
        [.worker .go]) (by decide)
    refine ⟨w, hr, hpc, hreported, hmem, fun hok => ?_⟩
    obtain ⟨v, hv, hsocket⟩ := List.mem_map.mp hmem
    have hv' := (hok v hv).reported
    rw [hreported, hsocket] at hv'
    exact absurd hv' (by decide)

end WingPhp.Select
