import Mathlib.Data.List.Induction
import WingPhp.Select.Registry

/-!
# The set handed to `select`

`FD_SET` drops what does not fit, so the set the worker passes to `select` is
the first `FD_SETSIZE` values of the clients its loop went over
(`fdread_at_select`), provided these values are all different.  They are:
`OwnInv` says that a registered client's variable still denotes its own
connection, because `closesocket` is only called on entries of the close list,
which holds every closed connection once.

`poll_complete_iff`: every registered client is in the set exactly when there
are at most `FD_SETSIZE` of them and none was appended after the loop.
-/

namespace WingPhp.Select

open Transition Sclient

/-! ## Handles of open connections -/

theorem CloseList.items_push (l : CloseList) (c : CloseItem) : (l.push c).items = l.items ++ [c] :=
  CArray.take_set_succ l.arr l.count c

theorem CloseList.items_remove {l : CloseList} {i : Nat} (hi : i < l.count) :
    (l.remove i).items = l.items.eraseIdx i := by
  unfold CloseList.items
  simp only [CloseList.remove, ulongPred_of_pos (show 0 < l.count by omega)]
  rw [CArray.take_set_of_le _ _ (Nat.le_refl _), CArray.take_shiftFrom _ hi]

/-- The socket on the close list whose client is not yet unregistered. -/
def WorkerPc.window : WorkerPc → Option Sock
  | .postClose _ k _ | .remove _ k => some k
  | _ => none

structure OwnAt (accepted : List Sock) (pushed : List CloseItem) (closed : List Nat)
    (items : List CloseItem) (handles : Handles) (window : Option Sock) : Prop where
  accepted_denotes : ∀ k ∈ accepted, (∀ c ∈ pushed, c.socket.conn ≠ k.conn) → handles.Denotes k
  items_denote : ∀ c ∈ items, handles.Denotes c.socket
  items_pushed : ∀ c ∈ items, c ∈ pushed
  items_nodup : (items.map fun c => c.socket.conn).Nodup
  pushed_closed : ∀ c ∈ pushed, c.socket.conn ∈ closed ∨ window = some c.socket

def OwnInv (s : State) : Prop :=
  OwnAt s.accepted s.pushedItems s.closed s.closeList.items s.handles s.workerPc.window

namespace OwnAt

variable {accepted : List Sock} {pushed : List CloseItem} {closed : List Nat}
  {items : List CloseItem} {handles : Handles} {window : Option Sock}

theorem accept (h : OwnAt accepted pushed closed items handles window) {v : Nat} (n : Nat)
    (hv : handles v = none) :
    OwnAt (accepted ++ [⟨v, n⟩]) pushed closed items (handles.give v n) window where
  accepted_denotes := by
    intro k hk hnp
    rcases List.mem_append.mp hk with hk | hk
    · exact (h.accepted_denotes k hk hnp).give n hv
    · obtain rfl := List.mem_singleton.mp hk
      exact Handles.denotes_give_self handles v n
  items_denote c hc := (h.items_denote c hc).give n hv
  items_pushed := h.items_pushed
  items_nodup := h.items_nodup
  pushed_closed := h.pushed_closed

/-- `select_onclose` puts an open, not yet pushed socket on the close list. -/
theorem push (h : OwnAt accepted pushed closed items handles none) {c : CloseItem}
    (hc : c.socket ∈ accepted) (hopen : c.socket.conn ∉ closed) :
    OwnAt accepted (pushed ++ [c]) closed (items ++ [c]) handles (some c.socket) := by
  have hnew : ∀ c' ∈ pushed, c'.socket.conn ≠ c.socket.conn := by
    intro c' hc' e
    rcases h.pushed_closed c' hc' with hcl | hw
    · exact hopen (e ▸ hcl)
    · cases hw
  constructor
  · intro k hk hnp
    exact h.accepted_denotes k hk fun c' hc' => hnp c' (List.mem_append_left _ hc')
  · intro c' hc'
    rcases List.mem_append.mp hc' with hc' | hc'
    · exact h.items_denote c' hc'
    · obtain rfl := List.mem_singleton.mp hc'
      exact h.accepted_denotes _ hc hnew
  · intro c' hc'
    rcases List.mem_append.mp hc' with hc' | hc'
    · exact List.mem_append_left _ (h.items_pushed c' hc')
    · exact List.mem_append_right _ hc'
  · rw [List.map_append, List.nodup_append]
    refine ⟨h.items_nodup, List.nodup_singleton _, ?_⟩
    intro x hx y hy
    obtain ⟨c', hc', rfl⟩ := List.mem_map.mp hx
    obtain rfl := List.mem_singleton.mp hy
    exact hnew c' (h.items_pushed c' hc')
  · intro c' hc'
    rcases List.mem_append.mp hc' with hc' | hc'
    · rcases h.pushed_closed c' hc' with hcl | hw
      · exact .inl hcl
      · cases hw
    · obtain rfl := List.mem_singleton.mp hc'
      exact .inr rfl

/-- The worker unregisters the client it has pushed. -/
theorem unregister {k : Sock} (h : OwnAt accepted pushed closed items handles (some k)) :
    OwnAt accepted pushed (closed ++ [k.conn]) items handles none where
  accepted_denotes := h.accepted_denotes
  items_denote := h.items_denote
  items_pushed := h.items_pushed
  items_nodup := h.items_nodup
  pushed_closed := by
    intro c hc
    left
    rcases h.pushed_closed c hc with hcl | hw
    · exact List.mem_append_left _ hcl
    · rw [Option.some.inj hw]
      exact List.mem_append_right _ (List.mem_singleton_self _)

/-- `closesocket` on the `i`-th entry of the close list. -/
theorem close (h : OwnAt accepted pushed closed items handles window) {i : Nat} {c : CloseItem}
    (hc : items[i]? = some c) :
    OwnAt accepted pushed closed (items.eraseIdx i) (handles.drop c.socket.value) window := by
  have hmem : c ∈ items := List.mem_of_getElem? hc
  have hden := h.items_denote c hmem
  have herase := Roster.filter_key_ne (fun c : CloseItem => c.socket.conn) h.items_nodup hc
  constructor
  · intro k hk hnp
    have hk' := h.accepted_denotes k hk hnp
    exact hk'.drop (hk'.value_ne hden (hnp c (h.items_pushed c hmem)).symm)
  · intro c' hc'
    rw [← herase, List.mem_filter] at hc'
    have hk' := h.items_denote c' hc'.1
    exact hk'.drop (hk'.value_ne hden (of_decide_eq_true hc'.2))
  · intro c' hc'
    exact h.items_pushed c' (List.mem_of_mem_eraseIdx hc')
  · exact h.items_nodup.sublist ((List.eraseIdx_sublist items i).map _)
  · exact h.pushed_closed

end OwnAt

theorem accept_own {s s' : State} {input : Input} (hi : OwnInv s)
    (h : AcceptStep s input s') : OwnInv s' := by
  cases h with
  | accepted _ hv => exact OwnAt.accept hi s.nextConn hv
  | _ => exact hi

theorem worker_own {s s' : State} {input : Input} (hreg : RegistryInv s) (hi : OwnInv s)
    (h : WorkerStep s input s') : OwnInv s' := by
  have hworker := hreg.worker
  have hown := hi
  unfold OwnInv at hi
  cases h with
  | idle | overrun => exact hown
  | pushClose hpc =>
    rw [hpc] at hi hworker
    obtain ⟨hlt, rfl, -, hc⟩ := hworker
    have hmem := (Roster.mem_present _).mp (hreg.reg.mem_present hlt)
    unfold OwnInv
    rw [CloseList.items_push, ← hc]
    exact hi.push (hc ▸ hmem.1) (hc ▸ hmem.2)
  | remove hpc =>
    rw [hpc] at hi
    exact hi.unregister
  | _ hpc =>
    rw [hpc] at hi
    exact hi

theorem close_own {s s' : State} {input : Input} (hi : OwnInv s)
    (h : CloseStep s input s') : OwnInv s' := by
  cases h with
  | due _ hlt =>
    unfold OwnInv
    rw [CloseList.items_remove hlt]
    exact OwnAt.close hi (CArray.getElem?_take _ hlt)
  | _ => exact hi

theorem OwnInv.same {s s' : State} (hi : OwnInv s) (hf : SameFront s s') (hk : SameSockets s s') :
    OwnInv s' := by
  unfold OwnInv
  rw [hf.accepted, hf.pushedItems, hf.closed, hf.workerPc, hk.closeList, hk.handles]
  exact hi

theorem start_own (cfg : Config) : OwnInv (start cfg) where
  accepted_denotes := by intro k hk; cases hk
  items_denote := by intro c hc; cases hc
  items_pushed := by intro c hc; cases hc
  items_nodup := List.nodup_nil
  pushed_closed := by intro c hc; cases hc

theorem reachable_own {cfg : Config} {s : State} (h : (server cfg).Reachable s) : OwnInv s := by
  refine h.invariant (start_own cfg) ?_
  intro s a s' hr hi _ hs
  cases runsStep hs with
  | accept ht => exact accept_own hi ht
  | worker ht => exact worker_own (reachable_registry hr) hi ht
  | close ht => exact close_own hi ht
  | main ht => exact hi.same ht.same.1 ht.same.2
  | pool ht => exact hi.same ht.same.1 ht.same.2

/-! ## The values in the array are all different -/

/-- Outside of the window every registered client's variable denotes its own
connection. -/
theorem registered_denotes {cfg : Config} {s : State} (h : (server cfg).Reachable s)
    (hw : s.workerPc.window = none) {k : Sock} (hk : k ∈ s.clients.registered) :
    s.handles.Denotes k := by
  have hreg := (reachable_registry h).reg
  have hown : OwnInv s := reachable_own h
  have hmem : k ∈ Roster.present Sock.conn s.accepted s.closed := by
    rw [← hreg.exact]
    exact List.mem_append_left _ hk
  obtain ⟨hacc, hopen⟩ := (Roster.mem_present _).mp hmem
  refine hown.accepted_denotes k hacc fun c hc e => ?_
  rcases hown.pushed_closed c hc with hcl | hwin
  · exact hopen (e ▸ hcl)
  · rw [hw] at hwin
    cases hwin

theorem registered_values_nodup {cfg : Config} {s : State} (h : (server cfg).Reachable s)
    (hw : s.workerPc.window = none) : (s.clients.registered.map Sock.value).Nodup := by
  refine (reachable_registry h).registered_conns_nodup.of_map.map_on ?_
  intro k hk k' hk' e
  have hd := registered_denotes h hw hk
  have hd' := registered_denotes h hw hk'
  rw [Handles.Denotes, e, hd'] at hd
  cases k
  cases k'
  simp_all

theorem registered_values_subset {g : Clients} {l : List Nat}
    (h : ∀ j, j < g.num → (g.arr.get j).value ∈ l) : g.registered.map Sock.value ⊆ l := by
  intro v hv
  obtain ⟨k, hk, rfl⟩ := List.mem_map.mp hv
  obtain ⟨j, hj, rfl⟩ := List.mem_map.mp hk
  exact h j (List.mem_range.mp hj)

/-! ## What `FD_SET` makes of them -/

/-- Adding values that are all different fills the set with the first
`FD_SETSIZE` of them. -/
theorem foldl_fdSet {l : List Nat} (h : l.Nodup) : l.foldl fdSet [] = l.take fdSetSize := by
  induction l using List.reverseRecOn with
  | nil => rfl
  | append_singleton l v ih =>
    rw [List.nodup_append] at h
    have hv : v ∉ l.take fdSetSize := fun hm =>
      h.2.2 v (List.mem_of_mem_take hm) v (List.mem_singleton_self v) rfl
    rw [List.foldl_append, ih h.1, List.foldl_cons, List.foldl_nil, fdSet, if_neg hv]
    by_cases hlen : l.length < fdSetSize
    · rw [if_pos (by simp; omega), List.take_of_length_le (by omega),
        List.take_of_length_le (by simp; omega)]
    · rw [if_neg (by simp; omega), List.take_append_of_le_length (by omega)]

/-- What the loop over `FD_SET` has built when it is at index `i`. -/
def FdInv (s : State) : Prop :=
  match s.workerPc with
  | .fdTest i | .select i =>
    i ≤ s.clients.num ∧ s.fdread = ((s.clients.registered.take i).map Sock.value).foldl fdSet []
  | .fdSet i =>
    i < s.clients.num ∧ s.fdread = ((s.clients.registered.take i).map Sock.value).foldl fdSet []
  | _ => True

theorem FdInv.congr {s s' : State} (h : FdInv s) (hpc : s'.workerPc = s.workerPc)
    (hfd : s'.fdread = s.fdread) (hnum : s.clients.num ≤ s'.clients.num)
    (hreg : s.clients.registered <+: s'.clients.registered) : FdInv s' := by
  have htake : ∀ i, i ≤ s.clients.num →
      s'.clients.registered.take i = s.clients.registered.take i := by
    intro i hi
    obtain ⟨rest, hrest⟩ := hreg
    rw [← hrest, List.take_append_of_le_length (by simpa [Clients.registered] using hi)]
  unfold FdInv at h ⊢
  rw [hpc, hfd]
  generalize s.workerPc = pc at h
  cases pc with
  | fdTest | select => exact ⟨by omega, by rw [htake _ h.1]; exact h.2⟩
  | fdSet => exact ⟨by omega, by rw [htake _ (by omega)]; exact h.2⟩
  | _ => trivial

theorem accept_fd {s s' : State} {input : Input} (hi : FdInv s)
    (h : AcceptStep s input s') : FdInv s' := by
  cases h with
  | append => exact hi.congr rfl rfl (Nat.le_succ _) ⟨_, (registered_append _ _).symm⟩
  | _ => exact hi

theorem worker_fd {s s' : State} {input : Input} (hi : FdInv s)
    (h : WorkerStep s input s') : FdInv s' := by
  have hfd := hi
  unfold FdInv at hi
  cases h with
  | idle | overrun => exact hfd
  | begin => exact ⟨Nat.zero_le _, rfl⟩
  | fdTest hpc hlt =>
    rw [hpc] at hi
    exact ⟨hlt, hi.2⟩
  | fdDone hpc =>
    rw [hpc] at hi
    exact hi
  | fdSet hpc =>
    rw [hpc] at hi
    refine ⟨hi.1, ?_⟩
    have hget := getElem?_registered s.clients hi.1
    rw [List.take_add_one, hget]
    simp [List.foldl_append, hi.2]
  | _ => trivial

theorem FdInv.sameFront {s s' : State} (hi : FdInv s) (hf : SameFront s s') : FdInv s' := by
  have hsame : s.clients.registered <+: s'.clients.registered := hf.clients ▸ List.prefix_rfl
  exact hi.congr hf.workerPc hf.fdread (Nat.le_of_eq (by rw [hf.clients])) hsame

theorem reachable_fd {cfg : Config} {s : State} (h : (server cfg).Reachable s) : FdInv s := by
  have hstart : FdInv (start cfg) := trivial
  refine h.invariant hstart ?_
  intro s a s' _ hi _ hs
  cases runsStep hs with
  | accept ht => exact accept_fd hi ht
  | worker ht => exact worker_fd hi ht
  | close ht => exact hi.sameFront ht.sameFront
  | main ht => exact hi.sameFront ht.same.1
  | pool ht => exact hi.sameFront ht.same.1

/-- The set handed to `select`: the first `FD_SETSIZE` of the `i` clients the
loop went over. -/
theorem fdread_at_select {cfg : Config} {s : State} {i : Nat} (h : (server cfg).Reachable s)
    (hpc : s.workerPc = .select i) :
    i ≤ s.clients.num ∧ s.fdread = ((s.clients.registered.map Sock.value).take i).take fdSetSize := by
  have hfd : FdInv s := reachable_fd h
  have hnd := registered_values_nodup h (by rw [hpc]; rfl)
  unfold FdInv at hfd
  rw [hpc] at hfd
  rw [hfd.2, List.map_take]
  exact ⟨hfd.1, foldl_fdSet (hnd.sublist (List.take_sublist _ _))⟩

/-! ## Who is polled -/

/-- **Every registered client is polled exactly when they all fit** and none
was appended after the loop had ended. -/
theorem poll_complete_iff {cfg : Config} {s : State} {i : Nat} (h : (server cfg).Reachable s)
    (hpc : s.workerPc = .select i) :
    (∀ j, j < s.clients.num → (s.clients.arr.get j).value ∈ s.fdread) ↔
      i = s.clients.num ∧ s.clients.num ≤ fdSetSize := by
  obtain ⟨hi, hfd⟩ := fdread_at_select h hpc
  have hnd := registered_values_nodup h (by rw [hpc]; rfl)
  have hlen : (s.clients.registered.map Sock.value).length = s.clients.num := by
    simp [Clients.registered]
  constructor
  · intro hall
    have hle := hnd.length_le_of_subset (registered_values_subset hall)
    rw [hfd, List.length_take, List.length_take, hlen] at hle
    omega
  · rintro ⟨rfl, hcap⟩ j hj
    rw [hfd, List.take_of_length_le (l := List.map _ _) (by omega), List.take_of_length_le (by omega)]
    exact List.mem_map_of_mem (CArray.get_mem_take _ hj)

/-- Two clients, both in the set. -/
theorem poll_complete_iff_two_clients :
    ∃ s, (server ⟨1000, 0⟩).Reachable s ∧ s.workerPc = .select 2 ∧ s.clients.num = 2 ∧
      ∀ j, j < s.clients.num → (s.clients.arr.get j).value ∈ s.fdread := by
  obtain ⟨s, hr, hpc, hnum⟩ := Machine.exists_reachable (M := server ⟨1000, 0⟩)
    (p := fun s => s.workerPc = .select 2 ∧ s.clients.num = 2)
    (connectActs 0 4 ++ connectActs 0 8 ++ List.replicate 6 (.worker .go)) (by decide)
  refine ⟨s, hr, hpc, hnum, (poll_complete_iff hr hpc).mpr ⟨hnum.symm, ?_⟩⟩
  rw [hnum]
  decide

/-! ## More clients than the set can hold -/

/-- The rest of the loop over `FD_SET`, from index `i` on. -/
theorem fdLoop (cfg : Config) (k : Nat) : ∀ {s : State} {i : Nat}, s.crashed = false →
    s.workerPc = .fdTest i → i + k = s.clients.num →
    ∃ s', (server cfg).exec s (List.replicate (2 * k + 1) (.worker .go)) = some s' ∧
      s'.workerPc = .select s.clients.num ∧ s'.clients = s.clients := by
  induction k with
  | zero =>
    intro s i hc hpc hk
    refine ⟨{ s with workerPc := .select i }, ?_, by simp [← hk], rfl⟩
    simp [Machine.exec, server, step, wingSelectServerWorder, hc, hpc, show ¬ i < s.clients.num by omega]
  | succ k ih =>
    intro s i hc hpc hk
    have hlt : i < s.clients.num := by omega
    let t : State := { s with
      workerPc := .fdTest (i + 1), fdread := fdSet s.fdread (s.clients.arr.get i).value }
    have htest : (server cfg).step s (.worker .go) = some { s with workerPc := .fdSet i } := by
      simp [server, step, wingSelectServerWorder, hc, hpc, hlt]
    have hset : (server cfg).step { s with workerPc := .fdSet i } (.worker .go) = some t := by
      simp [server, step, wingSelectServerWorder, hc, t]
    obtain ⟨s', hexec, hpc', hcl⟩ := ih (s := t) hc rfl (show i + 1 + k = s.clients.num by omega)
    refine ⟨s', ?_, hpc', hcl⟩
    rw [show 2 * (k + 1) + 1 = 2 * k + 1 + 1 + 1 by omega, List.replicate_succ, List.replicate_succ,
      Machine.exec_cons _ htest, Machine.exec_cons _ hset]
    exact hexec

theorem Crowd.polled {cfg : Config} {s : State} {n : Nat} (hr : (server cfg).Reachable s)
    (h : Crowd s n) (hn : 0 < n) :
    ∃ s', (server cfg).Reachable s' ∧ s'.workerPc = .select n ∧ s'.clients.num = n := by
  have hstep : (server cfg).step s (.worker .go) =
      some { s with workerPc := .fdTest 0, fdread := [] } := by
    simp [server, step, wingSelectServerWorder, h.crashed, h.workerPc, h.num, show n ≠ 0 by omega]
  obtain ⟨s', hexec, hpc, hcl⟩ := fdLoop cfg n (i := 0)
    (s := { s with workerPc := .fdTest 0, fdread := [] }) h.crashed rfl (by simp [h.num])
  refine ⟨s', ?_, by rw [hpc]; exact congrArg _ h.num, by rw [hcl]; exact h.num⟩
  exact Machine.Reachable.exec (.step hr trivial hstep) hexec

/-- With one client more than `FD_SETSIZE` somebody is left out. -/
theorem client_unpolled :
    ¬ ∀ (cfg : Config) (s : State) (i : Nat), (server cfg).Reachable s → s.workerPc = .select i →
      ∀ j, j < s.clients.num → (s.clients.arr.get j).value ∈ s.fdread := by
  intro hall
  obtain ⟨s, hr, hs⟩ := crowd_reachable ⟨1000, 0⟩ (fdSetSize + 1) (by decide)
  obtain ⟨s', hr', hpc, hnum⟩ := hs.polled hr (by decide)
  have hnd := registered_values_nodup hr' (by rw [hpc]; rfl)
  have hle := hnd.length_le_of_subset (registered_values_subset (hall _ s' _ hr' hpc))
  rw [(fdread_at_select hr' hpc).2, List.length_map, List.length_take] at hle
  have hlen : s'.clients.registered.length = fdSetSize + 1 := by simp [Clients.registered, hnum]
  omega

end WingPhp.Select
