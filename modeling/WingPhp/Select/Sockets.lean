import WingPhp.Select.CloseList

/-!
# Where the open sockets are

The accept thread opens sockets, the worker moves them from the client array to the close list, and
`wing_close_socket_thread` closes them.  `SocketsInv` says what the steps keep of Winsock's table: what it
holds was accepted, for the same connection, and not closed, and the clients the worker has unregistered
went over the close list.  `sockets_accounted` puts it together with the registry and the close list: an
open socket is in one of the three places, what is there is open, and `recv` is called on open sockets only.
-/

namespace WingPhp.Select

open Transition Sclient

/-- The connections `closesocket` was called for. -/
def State.closedConns (s : State) : List Nat := s.closedItems.map fun c => c.socket.conn

/-! ## The invariant -/

structure SocketsInv (s : State) : Prop where
  given : ∀ v c, s.handles v = some c → (⟨v, c⟩ : Sock) ∈ s.accepted ∧ c ∉ s.closedConns
  pushed_accepted : ∀ e ∈ s.pushedItems, e.socket ∈ s.accepted
  closed_pushed : ∀ c ∈ s.closed, ∃ e ∈ s.pushedItems, e.socket.conn = c
  window_pushed : ∀ k, s.workerPc.window = some k → ∃ e ∈ s.pushedItems, e.socket = k

/-- One connection was accepted once. -/
theorem RegistryInv.accepted_inj {s : State} (h : RegistryInv s) {k k' : Sock} (hk : k ∈ s.accepted)
    (hk' : k' ∈ s.accepted) (heq : k.conn = k'.conn) : k = k' :=
  List.inj_on_of_nodup_map h.reg.nodup hk hk' heq

section Steps

variable {s s' : State} {input : Input} {log : CloseLog}

theorem accept_sockets (hreg : RegistryInv s) (hlist : ListInv s log) (hi : SocketsInv s)
    (h : AcceptStep s input s') : SocketsInv s' := by
  cases h with
  | @accepted item value addr _ hfree =>
    refine ⟨?_, fun e he => List.mem_append_left _ (hi.pushed_accepted e he), hi.closed_pushed, hi.window_pushed⟩
    intro v c hv
    by_cases hvv : v = value
    · -- the new connection: nobody has closed it
      subst hvv
      have hc : s.nextConn = c := by simpa [Handles.give] using hv
      subst hc
      refine ⟨List.mem_append_right _ (List.mem_singleton_self _), fun hm => ?_⟩
      obtain ⟨e, he, hconn⟩ := List.mem_map.mp hm
      have hlt := hreg.reg.accepted_lt _ (hi.pushed_accepted e (hlist.closed_pushed e he))
      omega
    · have hold : s.handles v = some c := by simpa [Handles.give, hvv] using hv
      exact ⟨List.mem_append_left _ (hi.given v c hold).1, (hi.given v c hold).2⟩
  | _ => exact ⟨hi.given, hi.pushed_accepted, hi.closed_pushed, hi.window_pushed⟩

theorem worker_sockets (hreg : RegistryInv s) (hi : SocketsInv s) (h : WorkerStep s input s') :
    SocketsInv s' := by
  have hworker := hreg.worker
  have hwindow := hi.window_pushed
  cases h with
  | idle | overrun => exact ⟨hi.given, hi.pushed_accepted, hi.closed_pushed, hi.window_pushed⟩
  | @pushClose i k item closeItem hpc =>
    rw [hpc] at hworker
    obtain ⟨hlt, rfl, -, hc⟩ := hworker
    have hacc := ((Roster.mem_present _).mp (hreg.reg.mem_present hlt)).1
    refine ⟨hi.given, ?_, ?_, ?_⟩
    · intro e he
      rcases List.mem_append.mp he with he | he
      · exact hi.pushed_accepted e he
      · obtain rfl := List.mem_singleton.mp he
        rw [hc]
        exact hacc
    · intro c hclosed
      obtain ⟨e, he, hconn⟩ := hi.closed_pushed c hclosed
      exact ⟨e, List.mem_append_left _ he, hconn⟩
    · intro k hk
      cases hk
      exact ⟨closeItem, List.mem_append_right _ (List.mem_singleton_self _), hc⟩
  | @remove i k hpc =>
    rw [hpc] at hwindow
    obtain ⟨e, he, hsock⟩ := hwindow k rfl
    refine ⟨hi.given, hi.pushed_accepted, ?_, fun k' hk' => by cases hk'⟩
    intro c hclosed
    rcases List.mem_append.mp hclosed with hclosed | hclosed
    · exact hi.closed_pushed c hclosed
    · obtain rfl := List.mem_singleton.mp hclosed
      exact ⟨e, he, congrArg Sock.conn hsock⟩
  | postClose hpc =>
    rw [hpc] at hwindow
    exact ⟨hi.given, hi.pushed_accepted, hi.closed_pushed, hwindow⟩
  | _ => exact ⟨hi.given, hi.pushed_accepted, hi.closed_pushed, fun k hk => by cases hk⟩

theorem close_sockets (hreg : RegistryInv s) (hown : OwnInv s) (hi : SocketsInv s) (h : CloseStep s input s') :
    SocketsInv s' := by
  cases h with
  | @due i now _ hlt _ =>
    refine ⟨?_, hi.pushed_accepted, hi.closed_pushed, hi.window_pushed⟩
    have hitem : s.closeList.arr.get i ∈ s.closeList.items := CArray.get_mem_take _ hlt
    have hacc := hi.pushed_accepted _ (hown.items_pushed _ hitem)
    intro v c hv
    have hne : v ≠ (s.closeList.arr.get i).socket.value := by
      rintro rfl
      simp [Handles.drop] at hv
    have hold : s.handles v = some c := by simpa [Handles.drop, hne] using hv
    obtain ⟨hgiven, hopen⟩ := hi.given v c hold
    refine ⟨hgiven, ?_⟩
    show c ∉ (s.closedItems ++ [s.closeList.arr.get i]).map fun c => c.socket.conn
    rw [List.map_append, List.mem_append, not_or]
    refine ⟨hopen, fun hc => hne ?_⟩
    have hconn : c = (s.closeList.arr.get i).socket.conn := by simpa using hc
    exact congrArg Sock.value (hreg.accepted_inj hgiven hacc hconn)
  | _ => exact ⟨hi.given, hi.pushed_accepted, hi.closed_pushed, hi.window_pushed⟩

theorem main_sockets (hi : SocketsInv s) (h : MainStep s input s') : SocketsInv s' := by
  cases h <;> exact ⟨hi.given, hi.pushed_accepted, hi.closed_pushed, hi.window_pushed⟩

theorem pool_sockets {k : Nat} (hi : SocketsInv s) (h : PoolStep s k input s') : SocketsInv s' := by
  cases h <;> exact ⟨hi.given, hi.pushed_accepted, hi.closed_pushed, hi.window_pushed⟩

end Steps

theorem start_sockets (cfg : Config) : SocketsInv (start cfg) where
  given v c h := by cases h
  pushed_accepted e he := by cases he
  closed_pushed c hc := by cases hc
  window_pushed k hk := by cases hk

/-- **Run lemma.** -/
theorem reachable_sockets {cfg : Config} {s : State} (h : (server cfg).Reachable s) : SocketsInv s := by
  refine h.invariant (start_sockets cfg) ?_
  intro s a s' hr hi _ hs
  have hreg := reachable_registry hr
  cases runsStep hs with
  | accept ht =>
    obtain ⟨log, hlist⟩ := reachable_list hr
    exact accept_sockets hreg hlist hi ht
  | worker ht => exact worker_sockets hreg hi ht
  | close ht => exact close_sockets hreg (reachable_own hr) hi ht
  | main ht => exact main_sockets hi ht
  | pool ht => exact pool_sockets hi ht

/-! ## The three places -/

section

variable {cfg : Config} {s : State}

/-- A pushed entry is waiting, or closed. -/
theorem pushed_waiting (h : (server cfg).Reachable s) {e : CloseItem} (he : e ∈ s.pushedItems)
    (hopen : e.socket.conn ∉ s.closedConns) : e ∈ s.closeList.items := by
  obtain ⟨log, hlist⟩ := reachable_list h
  rw [hlist.items]
  refine (Roster.mem_present _).mpr ⟨he, fun hm => hopen ?_⟩
  obtain ⟨e', he', hptr⟩ := List.mem_map.mp hm
  have heq : e' = e := List.inj_on_of_nodup_map hlist.pushed_nodup (hlist.closed_pushed e' he') he hptr
  exact heq ▸ List.mem_map_of_mem he'

/-- In hand or registered, and not the one the worker is closing, it is not pushed yet. -/
theorem not_pushed (h : (server cfg).Reachable s) {k : Sock}
    (hk : k ∈ s.clients.registered ++ s.acceptPc.inHand) (hw : s.workerPc.window ≠ some k) :
    ∀ e ∈ s.pushedItems, e.socket.conn ≠ k.conn := by
  have hreg := reachable_registry h
  have hpresent : k ∈ Roster.present Sock.conn s.accepted s.closed := hreg.reg.exact ▸ hk
  obtain ⟨hacc, hopen⟩ := (Roster.mem_present _).mp hpresent
  intro e he hconn
  have hsock : e.socket = k := hreg.accepted_inj ((reachable_sockets h).pushed_accepted e he) hacc hconn
  rcases (reachable_own h).pushed_closed e he with hclosed | hwindow
  · exact hopen (hconn ▸ hclosed)
  · exact hw (hsock ▸ hwindow)

/-- **Every open socket is accounted for.**  Winsock's table holds the sockets in the accept thread's hand,
the registered ones and those on the close list, each for its own connection, and nothing else: none is
leaked and none of these is stale (only the one the worker is about to unregister may be closed already).
An accepted connection is open until `closesocket` is called for it, which happens once at most, and `recv`
is called on open sockets only. -/
theorem sockets_accounted (h : (server cfg).Reach PushInside s) :
    (∀ v c, s.handles v = some c ↔
      (⟨v, c⟩ ∈ s.clients.registered ++ s.acceptPc.inHand ∧ s.workerPc.window ≠ some ⟨v, c⟩) ∨
        ∃ e ∈ s.closeList.items, e.socket = ⟨v, c⟩) ∧
    (∀ k ∈ s.accepted, s.handles.Denotes k ↔ k.conn ∉ s.closedConns) ∧
    s.closedConns.Nodup ∧
    (∀ i k, s.workerPc = .recvWait i k → s.handles.Denotes k) := by
  have hr : (server cfg).Reachable s := h.reachable
  have hreg := reachable_registry hr
  have hown := reachable_own hr
  have hsock := reachable_sockets hr
  obtain ⟨log, hlist⟩ := reachable_list hr
  -- an accepted connection that was not closed is in one of the places
  have hplace : ∀ k ∈ s.accepted, k.conn ∉ s.closedConns →
      (k ∈ s.clients.registered ++ s.acceptPc.inHand ∧ s.workerPc.window ≠ some k) ∨
        ∃ e ∈ s.closeList.items, e.socket = k := by
    intro k hacc hopen
    have hpushed : ∀ e ∈ s.pushedItems, e.socket.conn = k.conn → ∃ e ∈ s.closeList.items, e.socket = k := by
      intro e he hconn
      have heq : e.socket = k := hreg.accepted_inj (hsock.pushed_accepted e he) hacc hconn
      exact ⟨e, pushed_waiting hr he (hconn ▸ hopen), heq⟩
    by_cases hclosed : k.conn ∈ s.closed
    · obtain ⟨e, he, hconn⟩ := hsock.closed_pushed _ hclosed
      exact .inr (hpushed e he hconn)
    · by_cases hw : s.workerPc.window = some k
      · obtain ⟨e, he, rfl⟩ := hsock.window_pushed k hw
        exact .inr (hpushed e he rfl)
      · refine .inl ⟨?_, hw⟩
        rw [hreg.reg.exact]
        exact (Roster.mem_present _).mpr ⟨hacc, hclosed⟩
  -- what is in one of the places is open
  have hdenotes : ∀ k, (k ∈ s.clients.registered ++ s.acceptPc.inHand ∧ s.workerPc.window ≠ some k) ∨
      (∃ e ∈ s.closeList.items, e.socket = k) → s.handles.Denotes k := by
    rintro k (⟨hk, hw⟩ | ⟨e, he, rfl⟩)
    · have hpresent : k ∈ Roster.present Sock.conn s.accepted s.closed := hreg.reg.exact ▸ hk
      exact hown.accepted_denotes k ((Roster.mem_present _).mp hpresent).1 (not_pushed hr hk hw)
    · exact hown.items_denote e he
  refine ⟨fun v c => ⟨fun hv => ?_, hdenotes ⟨v, c⟩⟩, fun k hk => ⟨fun hden => ?_, fun hopen => ?_⟩, ?_, ?_⟩
  · obtain ⟨hacc, hopen⟩ := hsock.given v c hv
    exact hplace ⟨v, c⟩ hacc hopen
  · exact (hsock.given k.value k.conn hden).2
  · exact hdenotes k (hplace k hk hopen)
  · have hsub : ∀ e ∈ s.closedItems, e ∈ s.pushedItems := hlist.closed_pushed
    refine List.Nodup.map_on ?_ hlist.closed_nodup.of_map
    intro e he e' he' hconn
    exact List.inj_on_of_nodup_map (reachable_pushed_nodup hr) (hsub e he) (hsub e' he') hconn
  · intro i k hpc
    have hworker := hreg.worker
    rw [hpc] at hworker
    obtain ⟨hlt, rfl⟩ := hworker
    have hwindow : s.workerPc.window = none := by rw [hpc]; rfl
    exact registered_denotes hr hwindow (CArray.get_mem_take _ hlt)

end

/-- One client waits for its close, another is connected, a third is in the accept thread's hand. -/
theorem sockets_accounted_three :
    ∃ s, (server ⟨1000, 0⟩).Reach PushInside s ∧ s.handles 4 = some 0 ∧ s.handles 8 = some 1 ∧ s.handles 12 = some 2 ∧
      s.closedConns.Nodup := by
  obtain ⟨s, hr, hp⟩ := Machine.exists_reach (M := server ⟨1000, 0⟩) PushInside
    (p := fun s => s.handles 4 = some 0 ∧ s.handles 8 = some 1 ∧ s.handles 12 = some 2)
    (connectActs 0 4 ++ connectActs 0 8 ++ pollActs 2 [4] ++ closeActs ++
      [.accept (.clock 0), .accept (.accepted 12 .zero)]) (by decide)
  exact ⟨s, hr, hp.1, hp.2.1, hp.2.2, (sockets_accounted hr).2.2.1⟩

end WingPhp.Select
