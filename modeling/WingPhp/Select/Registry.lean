import WingPhp.Lib.Roster
import WingPhp.Select.Steps

/-!
# The client array under both threads

`RegistryInv` is what the accept thread and the worker keep of the client
array, whatever their order:

* `RegistryAt.exact`: the registered prefix, followed by the socket the accept
  thread has accepted but not yet appended, is the list of the accepted sockets
  whose close the worker has not processed, in accept order;
* `room`: from its limit test to its append the accept thread finds room, since
  nobody else makes the count grow;
* `worker`: the index the worker holds stays below the count and keeps
  indexing the socket it called `recv` on, since the accept thread only appends.

The bound on the number of clients (`clients_bounded_iff`) and the exactness of
the registry (`registry_exact`) are read off it.
-/

namespace WingPhp.Select

open Transition Sclient

/-! ## The invariant -/

/-- The socket accepted but not yet appended. -/
def AcceptPc.inHand : AcceptPc → List Sock
  | .appendTest item | .append item => [item.socket]
  | _ => []

/-- Between the limit test of the accept loop and the append. -/
def AcceptPc.Admitting : AcceptPc → Prop
  | .accept _ | .appendTest _ | .append _ => True
  | _ => False

structure RegistryAt (g : Clients) (inHand accepted : List Sock) (closed : List Nat)
    (nextConn : Nat) : Prop where
  num_le : g.num ≤ g.maxConnection
  length : g.arr.length = g.maxConnection
  limit : g.maxConnection = 65534
  exact : g.registered ++ inHand = Roster.present Sock.conn accepted closed
  accepted_lt : ∀ k ∈ accepted, k.conn < nextConn
  closed_lt : ∀ c ∈ closed, c < nextConn
  nodup : (accepted.map Sock.conn).Nodup

/-- What the worker's index and its item say about the array. -/
def WorkerOk (g : Clients) : WorkerPc → Prop
  | .fdSet i | .isSet i | .recv i => i < g.num
  | .recvWait i k | .closeItem i k | .remove i k | .recvItem i k _ => i < g.num ∧ g.arr.get i = k
  | .shutdown i k item | .closeTime i k item | .postClose i k item
  | .getpeername i k item | .postRecv i k item =>
    i < g.num ∧ g.arr.get i = k ∧ item.socket = k
  | .pushClose i k item c => i < g.num ∧ g.arr.get i = k ∧ item.socket = k ∧ c.socket = k
  | .check | .fdTest _ | .select _ | .recvTest _ => True

structure RegistryInv (s : State) : Prop where
  reg : RegistryAt s.clients s.acceptPc.inHand s.accepted s.closed s.nextConn
  room : s.acceptPc.Admitting → s.clients.num < s.clients.maxConnection
  worker : WorkerOk s.clients s.workerPc

/-! ## What the operations do to the registry -/

theorem registered_append (g : Clients) (k : Sock) :
    (wingSelectServerClientsAppend g k).registered = g.registered ++ [k] :=
  CArray.take_set_succ g.arr g.num k

theorem num_remove {g : Clients} {i : Nat} (hi : i < g.num) :
    (wingSelectServerClientsRemove g i).num = g.num - 1 :=
  ulongPred_of_pos (by omega)

/-- `wing_select_server_clients_remove` deletes the `i`-th client. -/
theorem registered_remove {g : Clients} {i : Nat} (hi : i < g.num) :
    (wingSelectServerClientsRemove g i).registered = g.registered.eraseIdx i := by
  unfold Clients.registered
  rw [num_remove hi]
  simp only [wingSelectServerClientsRemove, ulongPred_of_pos (show 0 < g.num by omega)]
  rw [CArray.take_set_of_le _ _ (Nat.le_refl _), CArray.take_shiftFrom _ hi]
  -- the cell overwritten before the loop is the one that goes
  apply List.ext_getElem?
  intro j
  rw [List.getElem?_eraseIdx, List.getElem?_eraseIdx]
  by_cases hj : j < i
  · rw [if_pos hj, if_pos hj, CArray.getElem?_take _ (by omega), CArray.getElem?_take _ (by omega),
      CArray.get_set, if_neg (by omega)]
  · rw [if_neg hj, if_neg hj]
    by_cases hn : j + 1 < g.num
    · rw [CArray.getElem?_take _ hn, CArray.getElem?_take _ hn, CArray.get_set, if_neg (by omega)]
    · rw [List.getElem?_eq_none (by simp; omega), List.getElem?_eq_none (by simp; omega)]

theorem getElem?_registered (g : Clients) {i : Nat} (hi : i < g.num) :
    g.registered[i]? = some (g.arr.get i) :=
  CArray.getElem?_take g.arr hi

namespace RegistryAt

variable {g : Clients} {hand accepted : List Sock} {closed : List Nat} {n : Nat}

/-- A registered socket is accepted and its close is not processed. -/
theorem mem_present (h : RegistryAt g hand accepted closed n) {i : Nat} (hi : i < g.num) :
    g.arr.get i ∈ Roster.present Sock.conn accepted closed := by
  rw [← h.exact]
  exact List.mem_append_left _ (CArray.get_mem_take g.arr hi)

theorem accept (h : RegistryAt g [] accepted closed n) (v : Nat) :
    RegistryAt g [⟨v, n⟩] (accepted ++ [⟨v, n⟩]) closed (n + 1) where
  num_le := h.num_le
  length := h.length
  limit := h.limit
  exact := by
    have hn : n ∉ closed := fun hc => Nat.lt_irrefl n (h.closed_lt n hc)
    have := h.exact
    rw [List.append_nil] at this
    rw [Roster.present_join Sock.conn (k := ⟨v, n⟩) hn, this]
  accepted_lt := by
    intro k hk
    rcases List.mem_append.mp hk with hk | hk
    · have := h.accepted_lt k hk
      omega
    · obtain rfl := List.mem_singleton.mp hk
      exact Nat.lt_succ_self n
  closed_lt c hc := Nat.lt_succ_of_lt (h.closed_lt c hc)
  nodup := by
    rw [List.map_append, List.nodup_append]
    refine ⟨h.nodup, List.nodup_singleton _, ?_⟩
    intro c hc c' hc'
    obtain ⟨k, hk, rfl⟩ := List.mem_map.mp hc
    obtain rfl := List.mem_singleton.mp hc'
    exact Nat.ne_of_lt (h.accepted_lt k hk)

theorem append {k : Sock} (h : RegistryAt g [k] accepted closed n) (hroom : g.num < g.maxConnection) :
    RegistryAt (wingSelectServerClientsAppend g k) [] accepted closed n where
  num_le := hroom
  length := h.length
  limit := h.limit
  exact := by rw [registered_append, List.append_nil, h.exact]
  accepted_lt := h.accepted_lt
  closed_lt := h.closed_lt
  nodup := h.nodup

theorem remove (h : RegistryAt g hand accepted closed n) {i : Nat} (hi : i < g.num) :
    RegistryAt (wingSelectServerClientsRemove g i) hand accepted
      (closed ++ [(g.arr.get i).conn]) n where
  num_le := by
    rw [num_remove hi]
    exact Nat.le_trans (Nat.sub_le _ _) h.num_le
  length := by
    simp only [wingSelectServerClientsRemove, CArray.length_set, CArray.length_shiftFrom]
    exact h.length
  limit := h.limit
  exact := by
    have hk : (Roster.present Sock.conn accepted closed)[i]? = some (g.arr.get i) := by
      rw [← h.exact, List.getElem?_append_left (by simpa [Clients.registered] using hi)]
      exact getElem?_registered g hi
    rw [registered_remove hi, Roster.present_leave Sock.conn h.nodup hk, ← h.exact,
      List.eraseIdx_append_of_lt_length (by simpa [Clients.registered] using hi)]
  accepted_lt := h.accepted_lt
  closed_lt := by
    intro c hc
    rcases List.mem_append.mp hc with hc | hc
    · exact h.closed_lt c hc
    · obtain rfl := List.mem_singleton.mp hc
      exact h.accepted_lt _ ((Roster.mem_present _).mp (h.mem_present hi)).1
  nodup := h.nodup

end RegistryAt

/-- Appending moves no registered client. -/
theorem WorkerOk.append {g : Clients} {pc : WorkerPc} (h : WorkerOk g pc) (k : Sock) :
    WorkerOk (wingSelectServerClientsAppend g k) pc := by
  have hnum : (wingSelectServerClientsAppend g k).num = g.num + 1 := rfl
  have hget : ∀ i, i < g.num → (wingSelectServerClientsAppend g k).arr.get i = g.arr.get i := by
    intro i hi
    simp only [wingSelectServerClientsAppend, CArray.get_set]
    rw [if_neg (by omega)]
  cases pc <;> simp only [WorkerOk, hnum] at h ⊢
  case fdSet | isSet | recv => omega
  case recvWait | closeItem | remove | recvItem =>
    exact ⟨by omega, (hget _ h.1).trans h.2⟩
  case shutdown | closeTime | pushClose | postClose | getpeername | postRecv =>
    exact ⟨by omega, (hget _ h.1).trans h.2.1, h.2.2⟩

/-! ## Every step keeps the invariant -/

theorem accept_registry {s s' : State} {input : Input} (hi : RegistryInv s)
    (h : AcceptStep s input s') : RegistryInv s' := by
  have ⟨hreg, hroom, hworker⟩ := hi
  cases h with
  | full => exact hi
  | new hpc hfull =>
    rw [hpc] at hreg
    exact ⟨hreg, fun _ => Nat.lt_of_not_le hfull, hworker⟩
  | accepted hpc =>
    rw [hpc] at hreg hroom
    exact ⟨hreg.accept _, fun _ => hroom trivial, hworker⟩
  | noRoom hpc hfull =>
    -- the loop has found room, and nobody else appends
    rw [hpc] at hroom
    exact absurd hfull (Nat.not_le_of_lt (hroom trivial))
  | room hpc =>
    rw [hpc] at hreg hroom
    exact ⟨hreg, fun _ => hroom trivial, hworker⟩
  | append hpc =>
    rw [hpc] at hreg hroom
    exact ⟨hreg.append (hroom trivial), False.elim, hworker.append _⟩
  | refused hpc | stamp hpc | stampOnly hpc | sndTimeo hpc | rcvTimeo hpc | keepAlive hpc
  | keepAliveVals hpc | post hpc =>
    rw [hpc] at hreg
    exact ⟨hreg, False.elim, hworker⟩

theorem worker_registry {s s' : State} {input : Input} (hi : RegistryInv s)
    (h : WorkerStep s input s') : RegistryInv s' := by
  have ⟨hreg, hroom, hworker⟩ := hi
  cases h with
  | idle => exact hi
  | begin | fdDone | fdSet | timeout | ready | selectError | passDone | notSet | postRecv =>
    exact ⟨hreg, hroom, trivial⟩
  | fdTest _ hlt | recvTest _ hlt => exact ⟨hreg, hroom, hlt⟩
  | isSet hpc | offline hpc | received hpc | shutdown hpc | getpeername hpc | peerError hpc =>
    rw [hpc] at hworker
    exact ⟨hreg, hroom, hworker⟩
  | recv hpc =>
    rw [hpc] at hworker
    exact ⟨hreg, hroom, hworker, rfl⟩
  | closeItem hpc | recvItem hpc =>
    -- the item is made for the cell the index still denotes
    rw [hpc] at hworker
    exact ⟨hreg, hroom, hworker.1, hworker.2, hworker.2⟩
  | closeTime hpc =>
    rw [hpc] at hworker
    exact ⟨hreg, hroom, hworker.1, hworker.2.1, hworker.2.2, hworker.2.2⟩
  | pushClose hpc =>
    rw [hpc] at hworker
    exact ⟨hreg, hroom, hworker.1, hworker.2.1, hworker.2.2.1⟩
  | postClose hpc =>
    rw [hpc] at hworker
    exact ⟨hreg, hroom, hworker.1, hworker.2.1⟩
  | remove hpc =>
    rw [hpc] at hworker
    obtain ⟨hlt, rfl⟩ := hworker
    refine ⟨hreg.remove hlt, fun hadm => ?_, trivial⟩
    have := hroom hadm
    show (wingSelectServerClientsRemove s.clients _).num < s.clients.maxConnection
    rw [num_remove hlt]
    omega
  | overrun => exact ⟨hreg, hroom, hworker⟩

theorem RegistryInv.sameFront {s s' : State} (hi : RegistryInv s) (hf : SameFront s s') :
    RegistryInv s' := by
  have ⟨hreg, hroom, hworker⟩ := hi
  constructor
  · rw [hf.clients, hf.acceptPc, hf.accepted, hf.closed, hf.nextConn]
    exact hreg
  · rw [hf.clients, hf.acceptPc]
    exact hroom
  · rw [hf.clients, hf.workerPc]
    exact hworker

theorem start_registry (cfg : Config) : RegistryInv (start cfg) where
  reg := {
    num_le := Nat.zero_le _
    length := rfl
    limit := rfl
    exact := rfl
    accepted_lt := by intro k hk; cases hk
    closed_lt := by intro c hc; cases hc
    nodup := List.nodup_nil }
  room := False.elim
  worker := trivial

/-- **Run lemma.**  The registry invariant holds in every reachable state. -/
theorem reachable_registry {cfg : Config} {s : State} (h : (server cfg).Reachable s) :
    RegistryInv s := by
  refine h.invariant (start_registry cfg) ?_
  intro s a s' _ hi _ hs
  cases runsStep hs with
  | accept ht => exact accept_registry hi ht
  | worker ht => exact worker_registry hi ht
  | close ht => exact hi.sameFront ht.sameFront
  | main ht => exact hi.sameFront ht.same.1
  | pool ht => exact hi.sameFront ht.same.1

/-- No connection is registered twice. -/
theorem RegistryInv.conns_nodup {s : State} (h : RegistryInv s) :
    ((s.clients.registered ++ s.acceptPc.inHand).map Sock.conn).Nodup := by
  rw [h.reg.exact]
  exact Roster.nodup_present Sock.conn h.reg.nodup

theorem RegistryInv.registered_conns_nodup {s : State} (h : RegistryInv s) :
    (s.clients.registered.map Sock.conn).Nodup := by
  have hnd := h.conns_nodup
  rw [List.map_append] at hnd
  exact (List.nodup_append.mp hnd).1

/-- The socket in hand is not registered, and its close was not processed. -/
theorem RegistryInv.inHand_new {s : State} (h : RegistryInv s) {k : Sock}
    (hk : k ∈ s.acceptPc.inHand) : k ∉ s.clients.registered ∧ k.conn ∉ s.closed := by
  have hnd := h.conns_nodup
  rw [List.map_append, List.nodup_append] at hnd
  refine ⟨fun hm => hnd.2.2 _ (List.mem_map_of_mem hm) _ (List.mem_map_of_mem hk) rfl, ?_⟩
  have hp : k ∈ Roster.present Sock.conn s.accepted s.closed := by
    rw [← h.reg.exact]
    exact List.mem_append_right _ hk
  exact ((Roster.mem_present Sock.conn).mp hp).2

/-! ## The registry is exact -/

theorem registry_exact {cfg : Config} {s : State} (h : (server cfg).Reachable s) :
    s.clients.registered ++ s.acceptPc.inHand = s.accepted.filter (fun k => k.conn ∉ s.closed) ∧
    (s.accepted.map Sock.conn).Nodup ∧
    s.clients.num ≤ s.clients.arr.length ∧
    (∀ i k, s.workerPc = .remove i k → i < s.clients.num ∧ s.clients.arr.get i = k) ∧
    (∀ item, s.acceptPc = .appendTest item → ¬ s.clients.Full) := by
  obtain ⟨hreg, hroom, hworker⟩ := reachable_registry h
  refine ⟨hreg.exact, hreg.nodup, hreg.length ▸ hreg.num_le, ?_, ?_⟩
  · intro i k hpc
    rw [hpc] at hworker
    exact hworker
  · intro item hpc
    rw [hpc] at hroom
    exact Nat.not_le_of_lt (hroom trivial)

/-- The accept thread takes one client, with handle value `v`, whose socket
options are all set without an error. -/
def connectActs (recvAndSendTimeout v : Nat) : List Act :=
  let timeouts := if 0 < recvAndSendTimeout then [.accept (.ret none), .accept (.ret none)] else []
  [.accept (.clock 0), .accept (.accepted v .zero), .accept .go, .accept .go, .accept (.clock 0)]
    ++ timeouts ++ [.accept (.ret none), .accept (.ret none), .accept .go]

/-- One pass of the worker's receive loop up to its first `recv`. -/
def pollActs (n : Nat) (fds : List Nat) : List Act :=
  [.worker .go] ++ (List.replicate (2 * n + 1) (.worker .go))
    ++ [.worker (.selected (.ready fds)), .worker .go, .worker .go, .worker .go]

/-- `recv` reports the close of the socket at the worker's index. -/
def closeActs : List Act :=
  [.worker (.received .closed), .worker .go, .worker (.ret none), .worker (.clock 0),
    .worker .go, .worker .go, .worker .go]

/-- Two clients, the first of which has left while a third is in the accept
thread's hand. -/
theorem registry_exact_third_accepted :
    ∃ s, (server ⟨1000, 0⟩).Reachable s ∧
      s.clients.registered = [⟨8, 1⟩] ∧ s.acceptPc.inHand = [⟨12, 2⟩] ∧
      s.clients.registered ++ s.acceptPc.inHand = s.accepted.filter (fun k => k.conn ∉ s.closed) := by
  obtain ⟨s, hr, hreg, hhand⟩ := Machine.exists_reachable (M := server ⟨1000, 0⟩)
    (p := fun s => s.clients.registered = [⟨8, 1⟩] ∧ s.acceptPc.inHand = [⟨12, 2⟩])
    (connectActs 0 4 ++ connectActs 0 8 ++ pollActs 2 [4] ++ closeActs ++
      [.accept (.clock 0), .accept (.accepted 12 .zero)]) (by decide)
  exact ⟨s, hr, hreg, hhand, (registry_exact hr).1⟩

/-! ## The limit the user configured -/

/-- `n` clients are registered, the accept thread is at the top of its loop and
handle values above `n` are unused. -/
structure Crowd (s : State) (n : Nat) : Prop where
  crashed : s.crashed = false
  acceptPc : s.acceptPc = .check
  workerPc : s.workerPc = .check
  num : s.clients.num = n
  limit : s.clients.maxConnection = 65534
  free : ∀ v, n < v → s.handles v = none

theorem Crowd.connect (cfg : Config) {s : State} {n : Nat} (h : Crowd s n) (hn : n < 65534) :
    ∃ s', (server cfg).exec s (connectActs s.recvAndSendTimeout (n + 1)) = some s' ∧
      Crowd s' (n + 1) := by
  obtain ⟨hc, ha, hw, hnum, hlim, hfree⟩ := h
  have hnotFull : ¬ s.clients.Full := by
    unfold Clients.Full
    omega
  have hvalue : 0 < n + 1 ∧ n + 1 < invalidSocketValue ∧ s.handles (n + 1) = none :=
    ⟨by omega, by unfold invalidSocketValue; omega, hfree _ (by omega)⟩
  have hother : ∀ v, n + 1 < v → (s.handles.give (n + 1) s.nextConn) v = none := by
    intro v hv
    simp [Handles.give, show v ≠ n + 1 by omega, hfree v (by omega)]
  by_cases ht : 0 < s.recvAndSendTimeout
  · refine ⟨_, by simp [connectActs, Machine.exec, server, step, wingSelectServerAccept, hc, ha, ht,
      hnotFull, hvalue, State.postError]; rfl, ?_⟩
    constructor <;> simp_all [wingSelectServerClientsAppend, State.post]
  · refine ⟨_, by simp [connectActs, Machine.exec, server, step, wingSelectServerAccept, hc, ha, ht,
      hnotFull, hvalue, State.postError]; rfl, ?_⟩
    constructor <;> simp_all [wingSelectServerClientsAppend, State.post]

/-- Up to 65534 clients, every number of them is reached, whatever the
configured limit. -/
theorem crowd_reachable (cfg : Config) : ∀ n, n ≤ 65534 → ∃ s, (server cfg).Reachable s ∧ Crowd s n := by
  intro n
  induction n with
  | zero => exact fun _ => ⟨start cfg, .init, rfl, rfl, rfl, rfl, rfl, fun _ _ => rfl⟩
  | succ n ih =>
    intro hn
    obtain ⟨s, hr, hs⟩ := ih (by omega)
    obtain ⟨s', hexec, hs'⟩ := hs.connect cfg (by omega)
    exact ⟨s', hr.exec hexec, hs'⟩

/-- **The configured limit holds only from 65534 on**: `start` stores it in
`max_connection`, and `wing_select_server_init` then overwrites it with its own
default. -/
theorem clients_bounded_iff (cfg : Config) :
    (∀ s, (server cfg).Reachable s → (s.clients.num : Int) ≤ cfg.maxConnect.toInt) ↔
      65534 ≤ cfg.maxConnect.toInt := by
  constructor
  · intro h
    obtain ⟨s, hr, hs⟩ := crowd_reachable cfg 65534 (Nat.le_refl _)
    have := h s hr
    rw [hs.num] at this
    exact this
  · intro hM s hr
    obtain ⟨hreg, -, -⟩ := reachable_registry hr
    have := hreg.num_le
    have := hreg.limit
    omega

/-- Two clients on a server configured for one. -/
theorem clients_exceed_limit :
    ¬ ∀ (cfg : Config) (s : State), (server cfg).Reachable s →
      (s.clients.num : Int) ≤ cfg.maxConnect.toInt := by
  intro h
  obtain ⟨s, hr, hnum⟩ := Machine.exists_reachable (M := server ⟨1, 0⟩)
    (p := fun s => s.clients.num = 2) (connectActs 0 4 ++ connectActs 0 8) (by decide)
  have hle := h ⟨1, 0⟩ s hr
  rw [hnum] at hle
  exact absurd hle (by decide)

end WingPhp.Select
