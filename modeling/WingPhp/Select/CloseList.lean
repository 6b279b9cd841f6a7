import Mathlib.Data.List.InsertIdx
import WingPhp.Select.Poll
import WingPhp.Select.Steps

/-!
# The sockets waiting to be closed

The worker puts a closed client's socket on a list, and `wing_close_socket_thread`
takes it off five seconds later, deleting from the array it walks over.

`close_list_exact`: whatever the clock says and wherever the pushes fall, the list
holds the pushed entries that are not closed yet, in push order, and the life of an
entry is: pushed, looked at some times, then `closesocket` and `delete` together, and
nothing after that.  What the threads do to the entries is written down by an observer
(`CloseLog`).
-/

namespace WingPhp.Select

open Transition Sclient

/-! ## The history of the entries -/

/-- What happens to an entry of the list. -/
inductive CloseEvent where
  | pushed
  | read
  | closesocket
  | deleted
  deriving DecidableEq, Repr

abbrev CloseLog := List (CloseItem × CloseEvent)

/-- What the threads do to the entries in one step. -/
def closeNote (s : State) (a : Act) (log : CloseLog) : CloseLog :=
  match a, s.workerPc, s.closePc with
  | .worker .go, .pushClose _ _ _ closeItem, _ => log ++ [(closeItem, .pushed)]
  | .close (.clock now), _, .scan i =>
    if i < s.closeList.count then
      let closeItem := s.closeList.arr.get i
      if closeItem.Due now then
        log ++ [(closeItem, .read), (closeItem, .closesocket), (closeItem, .deleted)]
      else log ++ [(closeItem, .read)]
    else log
  | _, _, _ => log

/-- The server, with a record of what is done to the entries of the close list. -/
def closeWatched (cfg : Config) : Machine (Watched State CloseLog) Act :=
  (server cfg).watch [] closeNote

/-- What happened to `c`. -/
def CloseLog.about (c : CloseItem) (log : CloseLog) : List CloseEvent :=
  (log.filter fun e => e.1 = c).map Prod.snd

/-- Pushed, read `n` times, and once closed deleted at once. -/
def closeLifetime (n : Nat) (closed : Bool) : List CloseEvent :=
  .pushed :: List.replicate n .read ++ if closed then [.closesocket, .deleted] else []

theorem CloseLog.about_append (c : CloseItem) (log log' : CloseLog) :
    CloseLog.about c (log ++ log') = CloseLog.about c log ++ CloseLog.about c log' := by
  simp [CloseLog.about]

/-! ## The invariant -/

/-- The entry the worker has made and not pushed yet. -/
def WorkerPc.closeItem? : WorkerPc → Option CloseItem
  | .pushClose _ _ _ c => some c
  | _ => none

structure ListAt (l : CloseList) (pushed closed : List CloseItem) (live : List Nat)
    (hand : Option CloseItem) (nextPtr : Nat) (log : CloseLog) : Prop where
  items : l.items = Roster.present CloseItem.ptr pushed (closed.map CloseItem.ptr)
  pushed_lt : ∀ c ∈ pushed, c.ptr < nextPtr
  pushed_nodup : (pushed.map CloseItem.ptr).Nodup
  closed_pushed : ∀ c ∈ closed, c ∈ pushed
  closed_nodup : (closed.map CloseItem.ptr).Nodup
  hand_new : ∀ c, hand = some c → c.ptr < nextPtr ∧ ∀ c' ∈ pushed, c'.ptr ≠ c.ptr
  length : l.arr.length = 65534
  count : l.count + closed.length = pushed.length
  live : live = l.items.map CloseItem.ptr ++ (hand.map CloseItem.ptr).toList
  log_pushed : ∀ e ∈ log, e.1 ∈ pushed
  lives : ∀ c ∈ pushed, ∃ n, CloseLog.about c log = closeLifetime n (c ∈ closed)

def ListInv (s : State) (log : CloseLog) : Prop :=
  ListAt s.closeList s.pushedItems s.closedItems s.liveCloseItems s.workerPc.closeItem? s.nextPtr log

namespace ListAt

variable {l : CloseList} {pushed closed : List CloseItem} {live : List Nat} {hand : Option CloseItem}
  {n : Nat} {log : CloseLog}

/-- Nothing of the list changes. -/
theorem congr (h : ListAt l pushed closed live hand n log) {n' : Nat} {hand' : Option CloseItem}
    (hn : n ≤ n') (hh : hand' = hand) : ListAt l pushed closed live hand' n' log where
  items := h.items
  pushed_lt c hc := Nat.lt_of_lt_of_le (h.pushed_lt c hc) hn
  pushed_nodup := h.pushed_nodup
  closed_pushed := h.closed_pushed
  closed_nodup := h.closed_nodup
  hand_new c hc := by
    subst hh
    exact ⟨Nat.lt_of_lt_of_le (h.hand_new c hc).1 hn, (h.hand_new c hc).2⟩
  length := h.length
  count := h.count
  live := hh ▸ h.live
  log_pushed := h.log_pushed
  lives := h.lives

/-- `new CLOSE_ITEM()`. -/
theorem new (h : ListAt l pushed closed live none n log) (socket : Sock) (now : Int) :
    ListAt l pushed closed (live ++ [n]) (some ⟨socket, now, n⟩) (n + 1) log where
  items := h.items
  pushed_lt c hc := Nat.lt_succ_of_lt (h.pushed_lt c hc)
  pushed_nodup := h.pushed_nodup
  closed_pushed := h.closed_pushed
  closed_nodup := h.closed_nodup
  hand_new c hc := by
    obtain rfl := Option.some.inj hc
    exact ⟨Nat.lt_succ_self n, fun c' hc' => Nat.ne_of_lt (h.pushed_lt c' hc')⟩
  length := h.length
  count := h.count
  live := by
    have hlive := h.live
    rw [Option.map_none, Option.toList_none, List.append_nil] at hlive
    rw [hlive]
    rfl
  log_pushed := h.log_pushed
  lives := h.lives

theorem push {c : CloseItem} (h : ListAt l pushed closed live (some c) n log) :
    ListAt (l.push c) (pushed ++ [c]) closed live none n (log ++ [(c, .pushed)]) := by
  obtain ⟨hlt, hnew⟩ := h.hand_new c rfl
  have hnotin : c ∉ pushed := fun hc => hnew c hc rfl
  have hopen : c.ptr ∉ closed.map CloseItem.ptr := by
    intro hc
    obtain ⟨c', hc', he⟩ := List.mem_map.mp hc
    exact hnew c' (h.closed_pushed c' hc') he
  have hsilent : CloseLog.about c log = [] := by
    unfold CloseLog.about
    rw [List.filter_eq_nil_iff.mpr, List.map_nil]
    intro e he
    have := h.log_pushed e he
    simp only [decide_eq_true_eq]
    rintro rfl
    exact hnotin this
  constructor
  · rw [CloseList.items_push, h.items, Roster.present_join CloseItem.ptr hopen]
  · intro c' hc'
    rcases List.mem_append.mp hc' with hc' | hc'
    · exact h.pushed_lt c' hc'
    · obtain rfl := List.mem_singleton.mp hc'
      exact hlt
  · rw [List.map_append, List.nodup_append]
    refine ⟨h.pushed_nodup, List.nodup_singleton _, ?_⟩
    intro p hp q hq
    obtain ⟨c', hc', rfl⟩ := List.mem_map.mp hp
    obtain rfl := List.mem_singleton.mp hq
    exact hnew c' hc'
  · exact fun c' hc' => List.mem_append_left _ (h.closed_pushed c' hc')
  · exact h.closed_nodup
  · nofun
  · exact h.length
  · have := h.count
    simp only [CloseList.push, List.length_append, List.length_singleton]
    omega
  · rw [h.live, CloseList.items_push, List.map_append, Option.map_none, Option.toList_none, List.append_nil]
    rfl
  · intro e he
    rcases List.mem_append.mp he with he | he
    · exact List.mem_append_left _ (h.log_pushed e he)
    · obtain rfl := List.mem_singleton.mp he
      exact List.mem_append_right _ (List.mem_singleton_self _)
  · intro c' hc'
    rw [CloseLog.about_append]
    rcases List.mem_append.mp hc' with hc' | hc'
    · have hne : c ≠ c' := fun e => hnotin (e ▸ hc')
      obtain ⟨k, hk⟩ := h.lives c' hc'
      exact ⟨k, by rw [hk]; simp [CloseLog.about, hne]⟩
    · obtain rfl := List.mem_singleton.mp hc'
      refine ⟨0, ?_⟩
      have hncl : c' ∉ closed := fun hc => hnotin (h.closed_pushed c' hc)
      rw [hsilent]
      simp [CloseLog.about, closeLifetime, hncl]

/-- The scan finds an entry that is pushed and not closed. -/
theorem read_open (h : ListAt l pushed closed live hand n log) {i : Nat} (hi : i < l.count) :
    l.arr.get i ∈ pushed ∧ (l.arr.get i).ptr ∉ closed.map CloseItem.ptr := by
  have hmem : l.arr.get i ∈ l.items := CArray.get_mem_take _ hi
  rw [h.items] at hmem
  exact (Roster.mem_present _).mp hmem

/-- The history goes on with a look at `c`, which may be its last. -/
theorem lives_read (h : ListAt l pushed closed live hand n log) {c : CloseItem}
    (hopen : c ∉ closed) {c' : CloseItem} (hc' : c' ∈ pushed) :
    (∃ k, CloseLog.about c' (log ++ [(c, .read)]) = closeLifetime k (c' ∈ closed)) ∧
    ∃ k, CloseLog.about c' (log ++ [(c, .read), (c, .closesocket), (c, .deleted)]) =
      closeLifetime k (c' ∈ closed ++ [c]) := by
  obtain ⟨k, hk⟩ := h.lives c' hc'
  rw [CloseLog.about_append, CloseLog.about_append, hk]
  by_cases hcc : c = c'
  · subst hcc
    constructor
    · refine ⟨k + 1, ?_⟩
      simp [CloseLog.about, closeLifetime, hopen, List.replicate_succ']
    · refine ⟨k + 1, ?_⟩
      simp [CloseLog.about, closeLifetime, hopen, List.replicate_succ']
  · constructor
    · exact ⟨k, by simp [CloseLog.about, hcc]⟩
    · refine ⟨k, ?_⟩
      simp [CloseLog.about, closeLifetime, hcc, Ne.symm hcc]

theorem notDue (h : ListAt l pushed closed live hand n log) {i : Nat} (hi : i < l.count) :
    ListAt l pushed closed live hand n (log ++ [(l.arr.get i, .read)]) := by
  obtain ⟨hmem, hopen⟩ := h.read_open hi
  have hopen' : l.arr.get i ∉ closed := fun hc => hopen (List.mem_map_of_mem hc)
  refine { h with log_pushed := ?_, lives := ?_ }
  · intro e he
    rcases List.mem_append.mp he with he | he
    · exact h.log_pushed e he
    · obtain rfl := List.mem_singleton.mp he
      exact hmem
  · exact fun c' hc' => (h.lives_read hopen' hc').1

/-- The entries are at different addresses. -/
theorem items_nodup (h : ListAt l pushed closed live hand n log) : (l.items.map CloseItem.ptr).Nodup := by
  rw [h.items]
  exact Roster.nodup_present CloseItem.ptr h.pushed_nodup

theorem due (h : ListAt l pushed closed live hand n log) {i : Nat} (hi : i < l.count) :
    ListAt (l.remove i) pushed (closed ++ [l.arr.get i]) (live.erase (l.arr.get i).ptr) hand n
      (log ++ [(l.arr.get i, .read), (l.arr.get i, .closesocket), (l.arr.get i, .deleted)]) := by
  obtain ⟨hmem, hopen⟩ := h.read_open hi
  have hopen' : l.arr.get i ∉ closed := fun hc => hopen (List.mem_map_of_mem hc)
  constructor
  · have hk : (Roster.present CloseItem.ptr pushed (closed.map CloseItem.ptr))[i]? =
        some (l.arr.get i) := by
      rw [← h.items]
      exact CArray.getElem?_take _ hi
    rw [CloseList.items_remove hi, List.map_append, List.map_cons, List.map_nil,
      Roster.present_leave CloseItem.ptr h.pushed_nodup hk, h.items]
  · exact h.pushed_lt
  · exact h.pushed_nodup
  · intro c hc
    rcases List.mem_append.mp hc with hc | hc
    · exact h.closed_pushed c hc
    · obtain rfl := List.mem_singleton.mp hc
      exact hmem
  · rw [List.map_append, List.nodup_append]
    refine ⟨h.closed_nodup, List.nodup_singleton _, ?_⟩
    rintro p hp q hq rfl
    obtain rfl := List.mem_singleton.mp hq
    exact hopen hp
  · exact h.hand_new
  · simp only [CloseList.remove, CArray.length_set, CArray.length_shiftFrom]
    exact h.length
  · have := h.count
    simp only [CloseList.remove, ulongPred_of_pos (show 0 < l.count by omega), List.length_append,
      List.length_singleton]
    omega
  · have hget : l.items[i]? = some (l.arr.get i) := CArray.getElem?_take _ hi
    obtain ⟨hlt, hgetElem⟩ := List.getElem?_eq_some_iff.mp hget
    have hlt' : i < (l.items.map CloseItem.ptr).length := by rwa [List.length_map]
    have hptr : (l.arr.get i).ptr = (l.items.map CloseItem.ptr)[i] := by rw [List.getElem_map, hgetElem]
    rw [h.live, hptr, List.erase_append_left _ (List.getElem_mem hlt'), h.items_nodup.erase_getElem,
      CloseList.items_remove hi, List.eraseIdx_map]
  · intro e he
    rcases List.mem_append.mp he with he | he
    · exact h.log_pushed e he
    · have : e.1 = l.arr.get i := by
        simp only [List.mem_cons, List.not_mem_nil, or_false] at he
        rcases he with rfl | rfl | rfl <;> rfl
      rw [this]
      exact hmem
  · exact fun c' hc' => (h.lives_read hopen' hc').2

theorem live_nodup (h : ListAt l pushed closed live hand n log) : live.Nodup := by
  rw [h.live, List.nodup_append]
  refine ⟨h.items_nodup, ?_, ?_⟩
  · cases hand <;> simp
  · rintro p hp q hq rfl
    obtain ⟨c, hc, rfl⟩ := List.mem_map.mp hp
    rw [h.items] at hc
    rw [Option.mem_toList, Option.map_eq_some_iff] at hq
    obtain ⟨c', hhand, heq⟩ := hq
    exact (h.hand_new c' hhand).2 c ((Roster.mem_present _).mp hc).1 heq.symm

end ListAt

/-! ## Every step keeps the invariant -/

theorem worker_list {s s' : State} {input : Input} {log : CloseLog} (hi : ListInv s log)
    (h : WorkerStep s input s') : ListInv s' (closeNote s (.worker input) log) := by
  unfold ListInv at hi
  cases h with
  | closeTime hpc =>
    rw [hpc] at hi
    unfold closeNote
    rw [hpc]
    exact hi.new _ _
  | pushClose hpc hlock =>
    rw [hpc] at hi
    unfold closeNote
    rw [hpc]
    exact hi.push
  | idle hpc =>
    unfold closeNote
    rw [hpc]
    exact hi
  | begin hpc | fdTest hpc | fdDone hpc | fdSet hpc | recvTest hpc | passDone hpc
  | isSet hpc | notSet hpc | recv hpc | postClose hpc | remove hpc | postRecv hpc =>
    unfold closeNote
    rw [hpc]
    exact hi.congr (Nat.le_refl _) (by rw [hpc]; rfl)
  | closeItem hpc =>
    unfold closeNote
    rw [hpc]
    exact hi.congr (Nat.le_succ _) (by rw [hpc]; rfl)
  | recvItem hpc => exact hi.congr (Nat.le_succ _) (by rw [hpc]; rfl)
  | overrun hpc => exact hi
  | timeout hpc | ready hpc | selectError hpc | offline hpc | received hpc | shutdown hpc
  | getpeername hpc | peerError hpc => exact hi.congr (Nat.le_refl _) (by rw [hpc]; rfl)

theorem accept_list {s s' : State} {input : Input} {log : CloseLog} (hi : ListInv s log)
    (h : AcceptStep s input s') : ListInv s' log := by
  cases h with
  | new => exact ListAt.congr hi (Nat.le_succ _) rfl
  | _ => exact hi

theorem close_list {s s' : State} {input : Input} {log : CloseLog} (hi : ListInv s log)
    (h : CloseStep s input s') : ListInv s' (closeNote s (.close input) log) := by
  unfold closeNote
  cases h with
  | idle => exact hi
  | begin => exact hi
  | due hpc hlt hdue =>
    rw [hpc]
    dsimp only
    rw [if_pos hlt, if_pos hdue]
    exact ListAt.due hi hlt
  | notDue hpc hlt hdue =>
    rw [hpc]
    dsimp only
    rw [if_pos hlt, if_neg hdue]
    exact ListAt.notDue hi hlt
  | scanned hpc hlt =>
    rw [hpc]
    dsimp only
    rw [if_neg hlt]
    exact hi

theorem main_list {s s' : State} {input : Input} {log : CloseLog} (hi : ListInv s log)
    (h : MainStep s input s') : ListInv s' log := by
  cases h with
  | handle => exact ListAt.congr hi (Nat.le_succ _) rfl
  | _ => exact hi

theorem pool_list {s s' : State} {k : Nat} {input : Input} {log : CloseLog} (hi : ListInv s log)
    (h : PoolStep s k input s') : ListInv s' log := by
  cases h <;> exact hi

theorem start_list (cfg : Config) : ListInv (start cfg) [] where
  items := rfl
  pushed_lt := nofun
  pushed_nodup := List.nodup_nil
  closed_pushed := nofun
  closed_nodup := List.nodup_nil
  hand_new := nofun
  length := rfl
  count := rfl
  live := rfl
  log_pushed := nofun
  lives := nofun

theorem step_list {s s' : State} {a : Act} {log : CloseLog} (hi : ListInv s log)
    (h : step s a = some s') : ListInv s' (closeNote s a log) := by
  cases runsStep h with
  | accept ht => exact accept_list hi ht
  | worker ht => exact worker_list hi ht
  | close ht => exact close_list hi ht
  | main ht => exact main_list hi ht
  | pool ht => exact pool_list hi ht

/-- **Run lemma.** -/
theorem watched_list {cfg : Config} {ok : State → Act → Prop} {w : Watched State CloseLog}
    (h : (closeWatched cfg).Reach (fun w a => ok w.state a) w) : ListInv w.state w.notes :=
  Machine.Reach.watch_invariant (I := ListInv) (start_list cfg)
    (fun _ _ _ _ _ hi _ hs => step_list hi hs) h

theorem reachable_list {cfg : Config} {s : State} (h : (server cfg).Reachable s) :
    ∃ log, ListInv s log := by
  obtain ⟨log, hw⟩ := Machine.Reach.watched [] closeNote h
  change (closeWatched cfg).Reach _ _ at hw
  exact ⟨log, watched_list hw⟩

/-! ## No connection is pushed twice -/

/-- The worker's socket is that of a registered, hence open, client. -/
theorem reachable_pushed_nodup {cfg : Config} {s : State} (h : (server cfg).Reachable s) :
    (s.pushedItems.map fun c => c.socket.conn).Nodup := by
  refine h.invariant (I := fun s => (s.pushedItems.map fun c => c.socket.conn).Nodup)
    List.nodup_nil ?_
  intro s a s' hr hi _ hs
  have hreg := reachable_registry hr
  have hown := reachable_own hr
  cases runsStep hs with
  | accept ht => cases ht <;> exact hi
  | close ht => cases ht <;> exact hi
  | main ht => cases ht <;> exact hi
  | pool ht => cases ht <;> exact hi
  | worker ht =>
    cases ht with
    | @pushClose i k item closeItem hpc hlock =>
      have hworker := hreg.worker
      unfold OwnInv at hown
      rw [hpc] at hworker hown
      obtain ⟨hlt, rfl, -, hc⟩ := hworker
      have hopen := ((Roster.mem_present _).mp (hreg.reg.mem_present hlt)).2
      show ((s.pushedItems ++ [closeItem]).map fun c => c.socket.conn).Nodup
      rw [List.map_append, List.nodup_append]
      refine ⟨hi, List.nodup_singleton _, ?_⟩
      rintro p hp q hq rfl
      obtain ⟨c', hc', hconn⟩ := List.mem_map.mp hp
      have hq' : p = closeItem.socket.conn := List.mem_singleton.mp hq
      rcases hown.pushed_closed c' hc' with hcl | hw
      · rw [hconn, hq', hc] at hcl
        exact hopen hcl
      · cases hw
    | _ => exact hi

/-! ## The list is exact -/

/-- The worker is about to store into the list. -/
def WorkerPc.pushing : WorkerPc → Bool
  | .pushClose _ _ _ _ => true
  | _ => false

/-- The store of `select_onclose` falls inside the array. -/
def PushInside (s : State) : Act → Prop
  | .worker _ => s.workerPc.pushing = true → s.closeList.count < s.closeList.arr.length
  | _ => True

instance (s : State) (a : Act) : Decidable (PushInside s a) :=
  match a with
  | .worker _ => inferInstanceAs (Decidable (_ = true → _ < _))
  | .accept _ | .close _ | .main _ | .pool _ _ => .isTrue trivial

/-- In the runs that stay inside the array: the list holds the pushed entries not yet
closed in push order, every entry lives one life, the `CLOSE_ITEM`s that exist are those of
the listed entries and the one in the worker's hand, and what an entry denotes is the
connection it was pushed for. -/
theorem close_list_exact {cfg : Config} {w : Watched State CloseLog}
    (h : (closeWatched cfg).Reach (fun w a => PushInside w.state a) w) :
    w.state.closeList.items = w.state.pushedItems.filter (fun c => c ∉ w.state.closedItems) ∧
    (∀ c ∈ w.state.pushedItems, ∃ n,
      CloseLog.about c w.notes = closeLifetime n (c ∈ w.state.closedItems)) ∧
    (∀ e ∈ w.notes, e.1 ∈ w.state.pushedItems) ∧
    (∀ c ∈ w.state.closedItems, c ∈ w.state.pushedItems) ∧
    (w.state.liveCloseItems = w.state.closeList.items.map CloseItem.ptr ++
      (w.state.workerPc.closeItem?.map CloseItem.ptr).toList ∧ w.state.liveCloseItems.Nodup) ∧
    (w.state.pushedItems.map fun c => c.socket.conn).Nodup ∧
    (∀ c ∈ w.state.closeList.items, w.state.handles.Denotes c.socket) := by
  have hr : (server cfg).Reachable w.state := h.unwatched.reachable
  have hi : ListInv w.state w.notes := watched_list h
  have hown : OwnInv w.state := reachable_own hr
  refine ⟨?_, hi.lives, hi.log_pushed, hi.closed_pushed, ⟨hi.live, hi.live_nodup⟩,
    reachable_pushed_nodup hr, hown.items_denote⟩
  rw [hi.items, Roster.present]
  apply List.filter_congr
  intro c hc
  congr 1
  rw [eq_iff_iff, not_iff_not]
  constructor
  · intro hm
    obtain ⟨c', hc', he⟩ := List.mem_map.mp hm
    exact List.inj_on_of_nodup_map hi.pushed_nodup (hi.closed_pushed c' hc') hc he ▸ hc'
  · exact fun hm => List.mem_map_of_mem hm

/-- Two clients leave one after the other; the first pass comes too early for both, the
second, at the tenth second, closes the first of them. -/
theorem close_list_exact_two_clients :
    ∃ w, (closeWatched ⟨1000, 0⟩).Reach (fun w a => PushInside w.state a) w ∧
      w.state.pushedItems = [⟨⟨4, 0⟩, 0, 3⟩, ⟨⟨8, 1⟩, 0, 5⟩] ∧
      w.state.closedItems = [⟨⟨4, 0⟩, 0, 3⟩] ∧
      w.state.closeList.items = w.state.pushedItems.filter (fun c => c ∉ w.state.closedItems) := by
  obtain ⟨w, hr, hp, hc⟩ := Machine.exists_reach (M := closeWatched ⟨1000, 0⟩)
    (fun w a => PushInside w.state a)
    (p := fun w => w.state.pushedItems = [⟨⟨4, 0⟩, 0, 3⟩, ⟨⟨8, 1⟩, 0, 5⟩] ∧
      w.state.closedItems = [⟨⟨4, 0⟩, 0, 3⟩])
    (connectActs 0 4 ++ connectActs 0 8 ++ pollActs 2 [4] ++ closeActs ++ [.worker .go] ++ pollActs 1 [8] ++
      closeActs ++ [.close .go, .close (.clock 4), .close (.clock 4),
      .close (.clock 4), .close .go, .close (.clock 10)]) (by decide)
  exact ⟨w, hr, hp, hc, (close_list_exact hr).1⟩

end WingPhp.Select
