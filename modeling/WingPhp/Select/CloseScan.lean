import WingPhp.Lib.SkipScan
import WingPhp.Select.Poll

/-!
# One pass of the closing thread

`wing_close_socket_thread` scans the list under `close_socket_lock`, so nobody else changes
it meanwhile (`scan_undisturbed`), and closes an entry whose age, computed in an `unsigned
long`, is at least 5.  With one clock reading `T` for the whole pass it is a `SkipScan`: what
it closes and leaves is `dropped` and `kept` of the list (`ScanInv`).  `scan_closes_iff` says for
which lists that is right, also for entries stamped later than `T`, whose age wraps around.
-/

namespace WingPhp.Select

open Transition Sclient SkipScan

/-- The entry has waited 5 seconds at `T`. -/
def CloseItem.Waited (c : CloseItem) (T : Int) : Prop := 5 ≤ T - c.time

instance (c : CloseItem) (T : Int) : Decidable (c.Waited T) := inferInstanceAs (Decidable (_ ≤ _))

/-- The test of the thread at `T`. -/
def dueAt (T : Int) (c : CloseItem) : Bool := decide (c.Due T)

def waitedAt (T : Int) (c : CloseItem) : Bool := decide (c.Waited T)

/-- A step during a pass whose clock readings are all `T`: of the closing thread, or of any other
thread while the pass is on. -/
def ScanStep (T : Int) (s : State) : Act → Prop
  | .close (.clock now) => s.closePc ≠ .check ∧ now = T
  | .close _ => False
  | .accept _ | .worker _ | .main _ | .pool _ _ => s.closePc ≠ .check

instance (T : Int) (s : State) (a : Act) : Decidable (ScanStep T s a) :=
  match a with
  | .close input =>
    match input with
    | .clock now => inferInstanceAs (Decidable (s.closePc ≠ .check ∧ now = T))
    | .go | .ret _ | .accepted _ _ | .refused | .selected _ | .received _ | .peer _
    | .clockAndPeer _ _ | .phpSend _ _ _ | .sent _ => .isFalse id
  | .accept _ | .worker _ | .main _ | .pool _ _ => inferInstanceAs (Decidable (s.closePc ≠ .check))

/-- **The lock.**  While the closing thread scans, the others leave the list alone. -/
theorem scan_undisturbed {s s' : State} {a : Act} (h : step s a = some s')
    (hpc : s.closePc ≠ .check) (hother : ∀ input, a ≠ .close input) :
    s'.closePc = s.closePc ∧ s'.closeList = s.closeList ∧ s'.closedItems = s.closedItems := by
  cases runsStep h with
  | accept ht => cases ht <;> exact ⟨rfl, rfl, rfl⟩
  | worker ht =>
    cases ht with
    | pushClose _ hcheck => exact absurd hcheck hpc
    | _ => exact ⟨rfl, rfl, rfl⟩
  | close ht => exact absurd rfl (hother _)
  | main ht => exact ⟨ht.same.2.closePc, ht.same.2.closeList, ht.same.2.closedItems⟩
  | pool ht => exact ⟨ht.same.2.closePc, ht.same.2.closeList, ht.same.2.closedItems⟩

/-- How far the pass that began with the list `items` has come.  After the last entry is closed
the index is one past the end. -/
def ScanAt (T : Int) (items closed : List CloseItem) (items' closed' : List CloseItem) :
    ClosePc → Prop
  | .check => closed' = closed ++ dropped (dueAt T) items ∧ items' = kept (dueAt T) items
  | .scan i => ∃ front rest, items' = front ++ rest ∧
      (front.length = i ∨ rest = [] ∧ front.length ≤ i) ∧
      closed' ++ dropped (dueAt T) rest = closed ++ dropped (dueAt T) items ∧
      front ++ kept (dueAt T) rest = kept (dueAt T) items

def ScanInv (T : Int) (s t : State) : Prop :=
  ScanAt T s.closeList.items s.closedItems t.closeList.items t.closedItems t.closePc

theorem length_items (l : CloseList) : l.items.length = l.count := CArray.length_take _ _

theorem getElem?_items {l : CloseList} {i : Nat} (hi : i < l.count) :
    l.items[i]? = some (l.arr.get i) := CArray.getElem?_take l.arr hi

/-- Below the count the entry at the index heads what is left to scan. -/
theorem rest_at {l : CloseList} {i : Nat} (hi : i < l.count) {front rest : List CloseItem}
    (hitems : l.items = front ++ rest) (hfront : front.length = i ∨ rest = [] ∧ front.length ≤ i) :
    front.length = i ∧ ∃ rest', rest = l.arr.get i :: rest' := by
  have hlen := length_items l
  rw [hitems, List.length_append] at hlen
  have hi' : front.length = i := by
    rcases hfront with h | ⟨rfl, hle⟩
    · exact h
    · rw [List.length_nil] at hlen
      omega
  refine ⟨hi', ?_⟩
  have hget := getElem?_items hi
  rw [hitems, List.getElem?_append_right (by omega), hi', Nat.sub_self, ← List.head?_eq_getElem?] at hget
  exact ⟨rest.tail, (List.cons_head?_tail hget).symm⟩

theorem close_scan {T : Int} {s t t' : State} {now : Int} (hi : ScanInv T s t)
    (hok : ScanStep T t (.close (.clock now))) (h : CloseStep t (.clock now) t') :
    ScanInv T s t' := by
  obtain ⟨-, rfl⟩ := hok
  unfold ScanInv at hi ⊢
  cases h with
  | @due i _ hpc hlt hdue =>
    rw [hpc] at hi
    obtain ⟨front, rest, hitems, hfront, hclosed, hkept⟩ := hi
    obtain ⟨rfl, rest', rfl⟩ := rest_at hlt hitems hfront
    have hp : dueAt now (t.closeList.arr.get front.length) = true := decide_eq_true hdue
    have hitems' : (t.closeList.remove front.length).items = front ++ rest' := by
      rw [CloseList.items_remove hlt, hitems, List.eraseIdx_append_of_length_le (Nat.le_refl _),
        Nat.sub_self, List.eraseIdx_cons_zero]
    cases rest' with
    | nil =>
      refine ⟨front, [], hitems', .inr ⟨rfl, Nat.le_succ _⟩, ?_, ?_⟩
      · rw [← hclosed]
        simp [dropped, hp]
      · rw [← hkept]
        simp [kept, hp]
    | cons next rest' =>
      refine ⟨front ++ [next], rest', ?_, .inl (by simp), ?_, ?_⟩
      · rw [hitems', List.append_assoc]
        rfl
      · rw [← hclosed]
        simp [dropped, hp]
      · rw [← hkept]
        simp [kept, hp]
  | @notDue i _ hpc hlt hdue =>
    rw [hpc] at hi
    obtain ⟨front, rest, hitems, hfront, hclosed, hkept⟩ := hi
    obtain ⟨rfl, rest', rfl⟩ := rest_at hlt hitems hfront
    have hp : dueAt now (t.closeList.arr.get front.length) = false := decide_eq_false hdue
    refine ⟨front ++ [t.closeList.arr.get front.length], rest', ?_, .inl (by simp), ?_, ?_⟩
    · rw [hitems, List.append_assoc]
      rfl
    · rw [← hclosed]
      cases rest' <;> simp [dropped, hp]
    · rw [← hkept]
      cases rest' <;> simp [kept, hp]
  | @scanned i _ hpc hend =>
    rw [hpc] at hi
    obtain ⟨front, rest, hitems, hfront, hclosed, hkept⟩ := hi
    have hlen := length_items t.closeList
    rw [hitems, List.length_append] at hlen
    have hrest : rest = [] := by
      rcases hfront with h | ⟨h, -⟩
      · exact List.eq_nil_of_length_eq_zero (by omega)
      · exact h
    subst hrest
    refine ⟨?_, ?_⟩
    · rw [← hclosed]
      simp [dropped]
    · rw [← hkept, ← hitems.symm]
      simp [kept]

/-- **Run lemma.**  It holds all through a pass, whatever the other threads do. -/
theorem scanInv_of_reach {cfg : Config} {T : Int} {s t : State} (hpc : s.closePc = .scan 0)
    (h : ((server cfg).startingAt s).Reach (ScanStep T) t) : ScanInv T s t := by
  refine h.invariant ?_ ?_
  · unfold ScanInv
    show ScanAt T _ _ s.closeList.items s.closedItems s.closePc
    rw [hpc]
    exact ⟨[], s.closeList.items, rfl, .inl rfl, rfl, rfl⟩
  · intro t a t' _ hi hok hstep
    have hs : step t a = some t' := hstep
    have hother : ∀ hne : (∀ input, a ≠ .close input), t.closePc ≠ .check → ScanInv T s t' := by
      intro hne hcheck
      obtain ⟨hpc', hlist, hclosed⟩ := scan_undisturbed hs hcheck hne
      unfold ScanInv
      rw [hpc', hlist, hclosed]
      exact hi
    cases a with
    | close input =>
      cases input with
      | clock now =>
        cases runsStep hs with
        | close ht => exact close_scan hi hok ht
      | _ => exact absurd hok id
    | accept input => exact hother (by simp) hok
    | worker input => exact hother (by simp) hok
    | main input => exact hother (by simp) hok
    | pool k input => exact hother (by simp) hok

/-- The pass goes on until the index has reached the count, and then ends. -/
theorem scan_step (cfg : Config) (T : Int) {s : State} {i : Nat} (hpc : s.closePc = .scan i)
    (hrun : s.crashed = false) :
    ∃ s', (server cfg).step s (.close (.clock T)) = some s' ∧ s'.crashed = false ∧
      s'.closeList.count ≤ s.closeList.count ∧
      s'.closePc = if i < s.closeList.count then .scan (i + 1) else .check := by
  by_cases hlt : i < s.closeList.count
  · by_cases hdue : (s.closeList.arr.get i).Due T
    · refine ⟨{ s with
          closePc := .scan (i + 1)
          closeList := s.closeList.remove i
          handles := s.handles.drop (s.closeList.arr.get i).socket.value
          closedItems := s.closedItems ++ [s.closeList.arr.get i]
          liveCloseItems := s.liveCloseItems.erase (s.closeList.arr.get i).ptr }, ?_, hrun, ?_, ?_⟩
      · simp [server, step, hrun, wingCloseSocketThread, hpc, hlt, hdue]
      · show ulongPred s.closeList.count ≤ s.closeList.count
        rw [ulongPred_of_pos (by omega)]
        omega
      · rw [if_pos hlt]
    · refine ⟨{ s with closePc := .scan (i + 1) }, ?_, hrun, Nat.le_refl _, ?_⟩
      · simp [server, step, hrun, wingCloseSocketThread, hpc, hlt, hdue]
      · rw [if_pos hlt]
  · refine ⟨{ s with closePc := .check }, ?_, hrun, Nat.le_refl _, ?_⟩
    · simp [server, step, hrun, wingCloseSocketThread, hpc, hlt]
    · rw [if_neg hlt]

/-- The pass comes to its end.  The induction is on how far the index is from the count. -/
theorem scan_ends {cfg : Config} (T : Int) : ∀ (m : Nat) (s : State) (i : Nat), s.closePc = .scan i →
    s.crashed = false → s.closeList.count ≤ m + i →
    ∃ t, ((server cfg).startingAt s).Reach (ScanStep T) t ∧ t.closePc = .check := by
  intro m
  induction m with
  | zero =>
    intro s i hpc hrun hle
    obtain ⟨s', hstep, -, -, hpc'⟩ := scan_step cfg T hpc hrun
    rw [if_neg (by omega)] at hpc'
    exact ⟨s', .of_step hstep ⟨by simp [hpc], rfl⟩ .init, hpc'⟩
  | succ m ih =>
    intro s i hpc hrun hle
    have hok : ScanStep T s (.close (.clock T)) := ⟨by simp [hpc], rfl⟩
    obtain ⟨s', hstep, hrun', hcount, hpc'⟩ := scan_step cfg T hpc hrun
    by_cases hlt : i < s.closeList.count
    · rw [if_pos hlt] at hpc'
      obtain ⟨t, ht, hend⟩ := ih s' (i + 1) hpc' hrun' (by omega)
      exact ⟨t, .of_step hstep hok ht, hend⟩
    · rw [if_neg hlt] at hpc'
      exact ⟨s', .of_step hstep hok .init, hpc'⟩

/-- **A pass ends, and closes just the entries that have waited 5 seconds at `T`** and leaves
the others in their order, exactly when no such entry follows another, an entry that is due
without having waited follows one that has, and those that have waited are due. -/
theorem scan_closes_iff {cfg : Config} {T : Int} {s : State} (hpc : s.closePc = .scan 0)
    (hrun : s.crashed = false) :
    (∃ t, ((server cfg).startingAt s).Reach (ScanStep T) t ∧ t.closePc = .check) ∧
    ∀ t, ((server cfg).startingAt s).Reach (ScanStep T) t → t.closePc = .check →
      ((t.closedItems = s.closedItems ++ s.closeList.items.filter (fun c => decide (c.Waited T)) ∧
        t.closeList.items = s.closeList.items.filter (fun c => decide (¬ c.Waited T))) ↔
        Spaced (dueAt T) (waitedAt T) s.closeList.items) := by
  refine ⟨scan_ends T s.closeList.count s 0 hpc hrun (Nat.le_refl _), ?_⟩
  intro t h hend
  have hi := scanInv_of_reach hpc h
  unfold ScanInv at hi
  rw [hend] at hi
  obtain ⟨hclosed, hitems⟩ := hi
  rw [← scan_exact_iff, hclosed, hitems, List.append_cancel_left_eq]
  simp only [decide_not]
  exact Iff.rfl

/-- A pass about to begin over a list with these entries. -/
def scanState (items : List CloseItem) : State :=
  { start ⟨1000, 0⟩ with
    closePc := .scan 0
    closeList := ⟨items.length, ⟨items.length, fun i => items.getD i .null⟩⟩ }

/-- Stamps 95, 98 and 90, at 100: the first entry and the third are closed. -/
theorem scan_closes_spaced :
    ∃ t, ((server ⟨1000, 0⟩).startingAt
        (scanState [⟨⟨4, 0⟩, 95, 1⟩, ⟨⟨8, 1⟩, 98, 2⟩, ⟨⟨12, 2⟩, 90, 3⟩])).Reach (ScanStep 100) t ∧
      t.closedItems = [⟨⟨4, 0⟩, 95, 1⟩, ⟨⟨12, 2⟩, 90, 3⟩] ∧ t.closeList.items = [⟨⟨8, 1⟩, 98, 2⟩] := by
  obtain ⟨t, ht, hend⟩ := Machine.exists_reach
    (M := (server ⟨1000, 0⟩).startingAt
      (scanState [⟨⟨4, 0⟩, 95, 1⟩, ⟨⟨8, 1⟩, 98, 2⟩, ⟨⟨12, 2⟩, 90, 3⟩]))
    (ScanStep 100) (p := fun t => t.closePc = .check)
    [.close (.clock 100), .close (.clock 100), .close (.clock 100)] (by decide)
  obtain ⟨hclosed, hleft⟩ := ((scan_closes_iff rfl rfl).2 t ht hend).mpr
    ⟨by decide, by decide, by decide⟩
  exact ⟨t, ht, hclosed, hleft⟩

/-- At 100, an entry that has waited behind one that has is left; and the entry stamped 101,
before the clock was set back, is closed. -/
theorem scan_misses :
    (∃ t, ((server ⟨1000, 0⟩).startingAt (scanState [⟨⟨4, 0⟩, 95, 1⟩, ⟨⟨8, 1⟩, 95, 2⟩])).Reach
        (ScanStep 100) t ∧ t.closePc = .check ∧
      t.closedItems = [⟨⟨4, 0⟩, 95, 1⟩] ∧ t.closeList.items = [⟨⟨8, 1⟩, 95, 2⟩] ∧
      (⟨⟨8, 1⟩, 95, 2⟩ : CloseItem).Waited 100) ∧
    ∃ t, ((server ⟨1000, 0⟩).startingAt (scanState [⟨⟨4, 0⟩, 101, 1⟩])).Reach (ScanStep 100) t ∧
      t.closePc = .check ∧ t.closedItems = [⟨⟨4, 0⟩, 101, 1⟩] ∧ t.closeList.items = [] ∧
      ¬ (⟨⟨4, 0⟩, 101, 1⟩ : CloseItem).Waited 100 := by
  constructor
  · exact Machine.exists_reach (ScanStep 100)
      (p := fun t => t.closePc = .check ∧ t.closedItems = [⟨⟨4, 0⟩, 95, 1⟩] ∧
        t.closeList.items = [⟨⟨8, 1⟩, 95, 2⟩] ∧ (⟨⟨8, 1⟩, 95, 2⟩ : CloseItem).Waited 100)
      [.close (.clock 100), .close (.clock 100)] (by decide)
  · exact Machine.exists_reach (ScanStep 100)
      (p := fun t => t.closePc = .check ∧ t.closedItems = [⟨⟨4, 0⟩, 101, 1⟩] ∧ t.closeList.items = [] ∧
        ¬ (⟨⟨4, 0⟩, 101, 1⟩ : CloseItem).Waited 100)
      [.close (.clock 100), .close (.clock 100)] (by decide)

end WingPhp.Select
