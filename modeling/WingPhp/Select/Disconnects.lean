import Mathlib.Algebra.Group.Nat.Defs
import Mathlib.Data.List.NodupEquivFin
import Mathlib.Data.List.TakeWhile
import WingPhp.Select.CloseList

/-!
# When the array behind the close list is long enough

`close_socket_arr` has 65534 cells, and unlike the client array it is not guarded.  How many
are in use depends on how fast the clients leave, on the clock, and on how often the closing
thread gets to run.  An observer counts, for every client put on the list, the passes of that
thread in which each reading of the clock was late for the client and for all before it
(`Departures`).  Such a pass deletes every other entry up to the client's, so it halves the
place the client has on the list (`PlacesAt`), and whoever has been through 16 of them is gone.
`close_list_within`: the array suffices in the runs in which the client that left 65534
disconnects ago always has been.
-/

namespace WingPhp.Select

open Transition Sclient

/-! ## The record of the disconnects -/

/-- A client put on the list: the clock then, and the passes it has been late in. -/
structure Departure where
  time : Int
  passes : Nat
  deriving DecidableEq, Repr

/-- Five seconds later, in `unsigned long` arithmetic. -/
def Departure.Late (d : Departure) (now : Int) : Prop := 5 ≤ (now - d.time) % 0x100000000

instance (d : Departure) (now : Int) : Decidable (d.Late now) := inferInstanceAs (Decidable (_ ≤ _))

/-- The clients in the order they were put on the list, and how many of them, from the first on,
every reading of the clock in the pass that is on has found late. -/
structure Departures where
  all : List Departure
  late : Nat
  deriving DecidableEq, Repr

/-- The closing thread reads the clock. -/
def Departures.read (n : Departures) (now : Int) : Departures :=
  { n with late := ((n.all.take n.late).takeWhile fun d => decide (d.Late now)).length }

/-- A pass of the closing thread is over. -/
def Departures.passOver (n : Departures) : Departures :=
  { n with all := n.all.mapIdx fun m d => if m < n.late then { d with passes := d.passes + 1 } else d }

def departureNote (s : State) (a : Act) (n : Departures) : Departures :=
  match a, s.workerPc, s.closePc with
  | .worker .go, .pushClose _ _ _ closeItem, _ => { n with all := n.all ++ [⟨closeItem.time, 0⟩] }
  | .close .go, _, .check => { n with late := n.all.length }
  | .close (.clock now), _, .scan i => if i < s.closeList.count then n.read now else n.passOver
  | _, _, _ => n

/-- The server, with a record of the disconnects. -/
def departureWatched (cfg : Config) : Machine (Watched State Departures) Act :=
  (server cfg).watch ⟨[], 0⟩ departureNote

/-- The client that left 65534 disconnects ago has been through the passes that bring the place
it had at most to nothing. -/
def Departures.InTime (n : Departures) : Prop :=
  65534 ≤ n.all.length →
    ∀ d ∈ n.all[n.all.length - 65534]?, min (n.all.length - 65533) 65534 < 2 ^ d.passes

instance (n : Departures) : Decidable n.InTime := inferInstanceAs (Decidable (_ → _))

/-- The worker puts one more client on the list in time. -/
def InTime (w : Watched State Departures) : Act → Prop
  | .worker _ => w.state.workerPc.pushing = true → w.notes.InTime
  | _ => True

instance (w : Watched State Departures) (a : Act) : Decidable (InTime w a) :=
  match a with
  | .worker _ => inferInstanceAs (Decidable (_ = true → _))
  | .accept _ | .close _ | .main _ | .pool _ _ => .isTrue trivial

/-! ## The places on the list -/

/-- What the place `p` of the `m`-th client comes to: in a pass it is late in, the deletions
before it are counted back. -/
def ClosePc.place (late m p : Nat) : ClosePc → Nat
  | .check => p + 1
  | .scan i => if m < late then p + 1 + min i (p + 1) else p + 1

theorem ClosePc.place_pos (pc : ClosePc) (late m p : Nat) : 0 < pc.place late m p := by
  cases pc with
  | check => exact Nat.succ_pos p
  | scan i =>
    show 0 < if m < late then p + 1 + min i (p + 1) else p + 1
    split <;> omega

/-- Each late pass halves the place of a client, which was at most its number and within the
array. -/
structure PlacesAt (items pushed : List CloseItem) (pc : ClosePc) (n : Departures) : Prop where
  times : n.all.map Departure.time = pushed.map CloseItem.time
  place : ∀ m c d p, pushed[m]? = some c → n.all[m]? = some d → items[p]? = some c →
    pc.place n.late m p * 2 ^ d.passes ≤ min (m + 1) 65534
  early : ∀ m d, n.all[m]? = some d → m + 65534 < n.all.length → min (m + 1) 65534 < 2 ^ d.passes

theorem late_of_lt_read {n : Departures} {now : Int} {m : Nat} (hm : m < (n.read now).late) :
    m < n.late ∧ ∀ e ≤ m, ∀ d, n.all[e]? = some d → d.Late now := by
  have hprefix := List.takeWhile_prefix (l := n.all.take n.late) (fun d => decide (d.Late now))
  have hle := hprefix.length_le
  have hlt : m < ((n.all.take n.late).takeWhile fun d => decide (d.Late now)).length := hm
  rw [List.length_take] at hle
  refine ⟨by omega, fun e he d hd => ?_⟩
  have helt : e < ((n.all.take n.late).takeWhile fun d => decide (d.Late now)).length := by omega
  have hget := hprefix.getElem helt
  rw [List.getElem_take] at hget
  obtain ⟨_, hd'⟩ := List.getElem?_eq_some_iff.mp hd
  have hmem := List.getElem_mem helt
  rw [hget, hd'] at hmem
  have htrue := List.mem_takeWhile_imp hmem
  exact of_decide_eq_true htrue

namespace PlacesAt

variable {items pushed : List CloseItem} {pc : ClosePc} {n : Departures}

theorem length_all (h : PlacesAt items pushed pc n) : n.all.length = pushed.length := by
  have hlen := congrArg List.length h.times
  rwa [List.length_map, List.length_map] at hlen

/-- The client that the entry is of. -/
theorem late_iff (h : PlacesAt items pushed pc n) {m : Nat} {c : CloseItem} {d : Departure}
    (hc : pushed[m]? = some c) (hd : n.all[m]? = some d) (now : Int) : d.Late now ↔ c.Due now := by
  have hm : (n.all.map Departure.time)[m]? = (pushed.map CloseItem.time)[m]? := by rw [h.times]
  rw [List.getElem?_map, List.getElem?_map, hc, hd, Option.map_some, Option.map_some] at hm
  unfold Departure.Late CloseItem.Due
  rw [Option.some.inj hm]

/-- **In time the list has a free cell.**  Whoever left 65534 disconnects ago is off the list, and all
before it are. -/
theorem length_lt (h : PlacesAt items pushed pc n) (hin : n.InTime) (hnodup : items.Nodup)
    (hsub : ∀ c ∈ items, c ∈ pushed) : items.length < 65534 := by
  by_contra hge
  have hlen := h.length_all
  have hle : items.length ≤ pushed.length := (List.subperm_of_subset hnodup hsub).length_le
  -- nobody up to that client is on the list
  have hdrop : ∀ c ∈ items, c ∈ pushed.drop (pushed.length - 65533) := by
    intro c hc
    obtain ⟨p, hp⟩ := List.getElem?_of_mem hc
    obtain ⟨m, hm⟩ := List.getElem?_of_mem (hsub c hc)
    obtain ⟨hmlt, -⟩ := List.getElem?_eq_some_iff.mp hm
    obtain ⟨d, hd⟩ : ∃ d, n.all[m]? = some d := ⟨_, List.getElem?_eq_getElem (by omega)⟩
    by_cases hcase : m < pushed.length - 65533
    · have hbig : min (m + 1) 65534 < 2 ^ d.passes := by
        rcases Nat.lt_or_eq_of_le (show m + 65534 ≤ n.all.length by omega) with hlt | heq
        · exact h.early m d hd hlt
        · have hd' : d ∈ n.all[n.all.length - 65534]? := by
            rw [← heq, Nat.add_sub_cancel]
            exact hd
          have hmin := hin (by omega) d hd'
          rwa [show n.all.length - 65533 = m + 1 by omega] at hmin
      have hplace := h.place m c d p hm hd hp
      have hpos := Nat.mul_le_mul_right (2 ^ d.passes) (pc.place_pos n.late m p)
      omega
    · have hback : pushed.length - 65533 + (m - (pushed.length - 65533)) = m := by omega
      apply List.mem_of_getElem? (i := m - (pushed.length - 65533))
      rw [List.getElem?_drop, hback]
      exact hm
  have hfew : items.length ≤ (pushed.drop (pushed.length - 65533)).length :=
    (List.subperm_of_subset hnodup hdrop).length_le
  rw [List.length_drop] at hfew
  omega

/-- `select_onclose` stores one more entry. -/
theorem push (h : PlacesAt items pushed .check n) (hin : n.InTime) (hnodup : items.Nodup)
    (hsub : ∀ c ∈ items, c ∈ pushed) {c : CloseItem} (hnew : c ∉ pushed) :
    PlacesAt (items ++ [c]) (pushed ++ [c]) .check { n with all := n.all ++ [⟨c.time, 0⟩] } := by
  have hlen := h.length_all
  have hroom := h.length_lt hin hnodup hsub
  have hle : items.length ≤ pushed.length := (List.subperm_of_subset hnodup hsub).length_le
  refine ⟨?_, ?_, ?_⟩
  · rw [List.map_append, List.map_append, h.times]
    rfl
  · intro m c' d p hm hd hp
    rw [List.getElem?_append] at hm hd hp
    by_cases hmlt : m < pushed.length
    · rw [if_pos hmlt] at hm
      rw [if_pos (by omega)] at hd
      by_cases hplt : p < items.length
      · rw [if_pos hplt] at hp
        exact h.place m c' d p hm hd hp
      · rw [if_neg hplt] at hp
        rw [List.mem_singleton.mp (List.mem_of_getElem? hp)] at hm
        exact absurd (List.mem_of_getElem? hm) hnew
    · rw [if_neg hmlt] at hm
      rw [if_neg (by omega)] at hd
      rw [List.mem_singleton.mp (List.mem_of_getElem? hm)] at hp
      rw [List.mem_singleton.mp (List.mem_of_getElem? hd)]
      have hplt : ¬ p < items.length := by
        intro hplt
        rw [if_pos hplt] at hp
        exact hnew (hsub c (List.mem_of_getElem? hp))
      rw [if_neg hplt] at hp
      obtain ⟨hp', -⟩ := List.getElem?_eq_some_iff.mp hp
      rw [List.length_singleton] at hp'
      show (p + 1) * 1 ≤ min (m + 1) 65534
      omega
  · intro m d hd hm
    rw [List.length_append, List.length_singleton] at hm
    rw [List.getElem?_append_left (by omega)] at hd
    rcases Nat.lt_or_eq_of_le (show m + 65534 ≤ n.all.length by omega) with hlt | heq
    · exact h.early m d hd hlt
    · have hd' : d ∈ n.all[n.all.length - 65534]? := by
        rw [← heq, Nat.add_sub_cancel]
        exact hd
      have hmin := hin (by omega) d hd'
      rwa [show n.all.length - 65533 = m + 1 by omega] at hmin

/-- The closing thread begins a pass. -/
theorem begin (h : PlacesAt items pushed .check n) :
    PlacesAt items pushed (.scan 0) { n with late := n.all.length } := by
  refine ⟨h.times, fun m c d p hm hd hp => ?_, h.early⟩
  have hplace := h.place m c d p hm hd hp
  show (if m < n.all.length then p + 1 + min 0 (p + 1) else p + 1) * 2 ^ d.passes ≤ _
  rw [Nat.zero_min, Nat.add_zero, ite_self]
  exact hplace

/-- It deletes the entry at the index: those behind it come one place nearer, and the index one
farther. -/
theorem due {i : Nat} (h : PlacesAt items pushed (.scan i) n) (now : Int) :
    PlacesAt (items.eraseIdx i) pushed (.scan (i + 1)) (n.read now) := by
  refine ⟨h.times, fun m c d p hm hd hp => ?_, h.early⟩
  rw [List.getElem?_eraseIdx] at hp
  have hlate : m < (n.read now).late → m < n.late := fun hlt => (late_of_lt_read hlt).1
  refine Nat.le_trans (Nat.mul_le_mul_right _ ?_) (h.place m c d (if p < i then p else p + 1) hm hd ?_)
  · simp only [ClosePc.place]
    split <;> split <;> split <;> omega
  · split
    · next hlt => rwa [if_pos hlt] at hp
    · next hge => rwa [if_neg hge] at hp

/-- It goes past an entry that is not due: nobody from that client on has been late all through. -/
theorem notDue {i : Nat} (h : PlacesAt items pushed (.scan i) n) {now : Int} {c : CloseItem}
    (hdue : ¬ c.Due now)
    (horder : ∀ (m : Nat) (c' : CloseItem) (p : Nat), pushed[m]? = some c' → items[p]? = some c' → i ≤ p →
      ∃ e ≤ m, pushed[e]? = some c) :
    PlacesAt items pushed (.scan (i + 1)) (n.read now) := by
  refine ⟨h.times, fun m c' d p hm hd hp => ?_, h.early⟩
  refine Nat.le_trans (Nat.mul_le_mul_right _ ?_) (h.place m c' d p hm hd hp)
  simp only [ClosePc.place]
  by_cases hlt : m < (n.read now).late
  · obtain ⟨hlate, hall⟩ := late_of_lt_read hlt
    have hbefore : p < i := by
      by_contra hge
      obtain ⟨e, hem, he⟩ := horder m c' p hm hp (by omega)
      obtain ⟨helt, -⟩ := List.getElem?_eq_some_iff.mp he
      have hlen := h.length_all
      have hd' : n.all[e]? = some n.all[e] := List.getElem?_eq_getElem (by omega)
      exact hdue ((h.late_iff he hd' now).mp (hall e hem _ hd'))
    rw [if_pos hlt, if_pos hlate]
    omega
  · rw [if_neg hlt]
    split <;> omega

/-- The pass is over: whoever is still there and was late all through has half its place. -/
theorem passOver {i : Nat} (h : PlacesAt items pushed (.scan i) n) (hend : items.length ≤ i) :
    PlacesAt items pushed .check n.passOver := by
  have hget : ∀ m d, n.passOver.all[m]? = some d → ∃ d₀, n.all[m]? = some d₀ ∧
      d = if m < n.late then { d₀ with passes := d₀.passes + 1 } else d₀ := by
    intro m d hd
    rw [Departures.passOver, List.getElem?_mapIdx] at hd
    obtain ⟨d₀, hd₀, rfl⟩ := Option.map_eq_some_iff.mp hd
    exact ⟨d₀, hd₀, rfl⟩
  refine ⟨?_, fun m c d p hm hd hp => ?_, fun m d hd hlt => ?_⟩
  · rw [← h.times, Departures.passOver]
    apply List.ext_getElem?
    intro m
    rw [List.getElem?_map, List.getElem?_mapIdx, List.getElem?_map, Option.map_map]
    congr 1
    funext d
    show Departure.time (if m < n.late then { d with passes := d.passes + 1 } else d) = d.time
    split <;> rfl
  · obtain ⟨d₀, hd₀, rfl⟩ := hget m d hd
    obtain ⟨hplt, -⟩ := List.getElem?_eq_some_iff.mp hp
    have hplace := h.place m c d₀ p hm hd₀ hp
    show (p + 1) * _ ≤ _
    simp only [ClosePc.place] at hplace
    by_cases hlate : m < n.late
    · rw [if_pos hlate, Nat.min_eq_right (by omega)] at hplace
      rw [if_pos hlate]
      show (p + 1) * 2 ^ (d₀.passes + 1) ≤ _
      rw [Nat.pow_succ, Nat.mul_comm (2 ^ d₀.passes) 2, ← Nat.mul_assoc]
      rwa [show (p + 1) * 2 = p + 1 + (p + 1) by omega]
    · rw [if_neg hlate] at hplace ⊢
      exact hplace
  · obtain ⟨d₀, hd₀, rfl⟩ := hget m d hd
    have hlen : n.passOver.all.length = n.all.length := List.length_mapIdx
    rw [hlen] at hlt
    have hbig := h.early m d₀ hd₀ hlt
    refine Nat.lt_of_lt_of_le hbig (Nat.pow_le_pow_right (by decide) ?_)
    split
    · exact Nat.le_succ _
    · exact Nat.le_refl _

end PlacesAt

/-! ## Every step keeps them -/

def PlacesInv (s : State) (n : Departures) : Prop :=
  PlacesAt s.closeList.items s.pushedItems s.closePc n

theorem worker_places {s s' : State} {input : Input} {n : Departures} {log : CloseLog} (hlist : ListInv s log)
    (hin : InTime ⟨s, n⟩ (.worker input)) (hi : PlacesInv s n) (h : WorkerStep s input s') :
    PlacesInv s' (departureNote s (.worker input) n) := by
  cases h with
  | @pushClose i k item c hpc hlock =>
    have hsub : ∀ c' ∈ s.closeList.items, c' ∈ s.pushedItems := by
      intro c' hc'
      rw [hlist.items] at hc'
      exact ((Roster.mem_present _).mp hc').1
    have hnew : c ∉ s.pushedItems := fun hc =>
      (hlist.hand_new c (by rw [hpc]; rfl)).2 c hc rfl
    unfold PlacesInv at hi
    unfold PlacesInv departureNote
    rw [hlock] at hi
    rw [hpc]
    dsimp only
    rw [CloseList.items_push, hlock]
    exact hi.push (hin (by rw [hpc]; rfl)) hlist.items_nodup.of_map hsub hnew
  | idle hpc | begin hpc | fdTest hpc | fdDone hpc | fdSet hpc | recvTest hpc | passDone hpc
  | isSet hpc | notSet hpc | recv hpc | closeItem hpc | postClose hpc | remove hpc | postRecv hpc =>
    unfold departureNote
    rw [hpc]
    exact hi
  | _ => exact hi

theorem close_places {s s' : State} {input : Input} {n : Departures} {log : CloseLog} (hlist : ListInv s log)
    (hi : PlacesInv s n) (h : CloseStep s input s') : PlacesInv s' (departureNote s (.close input) n) := by
  unfold PlacesInv at hi
  unfold PlacesInv departureNote
  cases h with
  | idle hpc =>
    rw [hpc] at hi ⊢
    exact ⟨hi.times, hi.place, hi.early⟩
  | begin hpc =>
    rw [hpc] at hi ⊢
    exact hi.begin
  | @due i now hpc hlt hdue =>
    rw [hpc] at hi ⊢
    dsimp only
    rw [if_pos hlt, CloseList.items_remove hlt]
    exact hi.due now
  | @notDue i now hpc hlt hdue =>
    rw [hpc] at hi ⊢
    dsimp only
    rw [if_pos hlt]
    have hget : s.closeList.items[i]? = some (s.closeList.arr.get i) := CArray.getElem?_take _ hlt
    rw [hlist.items] at hget
    refine hi.notDue hdue fun m c' p hm hp hle => ?_
    rw [hlist.items] at hp
    exact Roster.present_order CloseItem.ptr hlist.pushed_nodup hget hp hm hle
  | @scanned i now hpc hge =>
    rw [hpc] at hi ⊢
    dsimp only
    rw [if_neg hge]
    refine hi.passOver ?_
    rw [CloseList.items, CArray.length_take]
    omega

theorem step_places {s s' : State} {a : Act} {n : Departures} {log : CloseLog} (hlist : ListInv s log)
    (hin : InTime ⟨s, n⟩ a) (hi : PlacesInv s n) (h : step s a = some s') :
    PlacesInv s' (departureNote s a n) := by
  cases runsStep h with
  | worker ht => exact worker_places hlist hin hi ht
  | close ht => exact close_places hlist hi ht
  | accept ht => cases ht <;> exact hi
  | main ht => cases ht <;> exact hi
  | pool ht => cases ht <;> exact hi

theorem start_places (cfg : Config) : PlacesInv (start cfg) ⟨[], 0⟩ where
  times := rfl
  place m c d p hm := by cases hm
  early m d hm := by cases hm

theorem departureWatched_reachable {cfg : Config} {w : Watched State Departures}
    (h : (departureWatched cfg).Reach InTime w) : (server cfg).Reachable w.state := by
  have hr : (departureWatched cfg).Reach (fun w a => Machine.anyStep w.state a) w := h.mono fun _ _ _ => trivial
  exact hr.unwatched

/-- **Run lemma.** -/
theorem watched_places {cfg : Config} {w : Watched State Departures}
    (h : (departureWatched cfg).Reach InTime w) : PlacesInv w.state w.notes := by
  refine h.invariant (I := fun w => PlacesInv w.state w.notes) ?_ ?_
  · exact start_places cfg
  · intro w a w' hr hi hin hs
    obtain ⟨log, hlist⟩ := reachable_list (departureWatched_reachable hr)
    obtain ⟨hs', hnotes⟩ := Machine.watch_step hs
    rw [hnotes]
    exact step_places hlist hin hi hs'

/-! ## The array suffices -/

theorem waiting_length {cfg : Config} {s : State} (h : (server cfg).Reachable s) :
    s.closeList.count + s.closedItems.length = s.pushedItems.length ∧
      s.closeList.arr.length = 65534 := by
  obtain ⟨log, hi⟩ := reachable_list h
  exact ⟨hi.count, hi.length⟩

/-- A store that is made in time is inside the array. -/
theorem pushInside_of_inTime {cfg : Config} {w : Watched State Departures}
    (h : (departureWatched cfg).Reach InTime w) {a : Act} (hin : InTime w a) : PushInside w.state a := by
  have hr := departureWatched_reachable h
  obtain ⟨log, hlist⟩ := reachable_list hr
  cases a with
  | worker input =>
    intro hpush
    have hlt := (watched_places h).length_lt (hin hpush) hlist.items_nodup.of_map fun c hc => by
      rw [hlist.items] at hc
      exact ((Roster.mem_present _).mp hc).1
    rw [hlist.length]
    rwa [CloseList.items, CArray.length_take] at hlt
  | _ => trivial

theorem count_le_step {s s' : State} {a : Act} (hlen : s.closeList.arr.length = 65534)
    (hi : s.closeList.count ≤ 65534) (hinside : PushInside s a) (h : step s a = some s') :
    s'.closeList.count ≤ 65534 := by
  cases runsStep h with
  | accept ht => cases ht <;> exact hi
  | main ht => cases ht <;> exact hi
  | pool ht => cases ht <;> exact hi
  | close ht =>
    cases ht with
    | due hpc hlt =>
      show ulongPred s.closeList.count ≤ 65534
      rw [ulongPred_of_pos (by omega)]
      omega
    | _ => exact hi
  | worker ht =>
    cases ht with
    | pushClose hpc hlock =>
      have hlt := hinside (by rw [hpc]; rfl)
      rw [hlen] at hlt
      exact hlt
    | _ => exact hi

/-- **The list fits as long as the clients leave slowly enough for the closing thread.** -/
theorem close_list_within {cfg : Config} {w : Watched State Departures}
    (h : (departureWatched cfg).Reach InTime w) :
    w.state.closeList.count ≤ w.state.closeList.arr.length ∧ ∀ a, InTime w a → PushInside w.state a := by
  refine ⟨?_, fun a hin => pushInside_of_inTime h hin⟩
  rw [(waiting_length (departureWatched_reachable h)).2]
  refine h.invariant (I := fun w => w.state.closeList.count ≤ 65534) (Nat.zero_le _) ?_
  intro w a w' hr hi hin hs
  exact count_le_step (waiting_length (departureWatched_reachable hr)).2 hi (pushInside_of_inTime hr hin)
    (Machine.watch_step hs).1

theorem close_list_within_two_clients :
    ∃ w, (departureWatched ⟨1000, 0⟩).Reach InTime w ∧ w.state.closeList.count = 2 ∧
      w.state.closeList.count ≤ w.state.closeList.arr.length := by
  obtain ⟨w, hr, hc⟩ := Machine.exists_reach (M := departureWatched ⟨1000, 0⟩) InTime
    (p := fun w => w.state.closeList.count = 2)
    (connectActs 0 4 ++ connectActs 0 8 ++ pollActs 2 [4] ++ closeActs ++ [.worker .go] ++ pollActs 1 [8] ++
      closeActs) (by decide)
  exact ⟨w, hr, hc, (close_list_within hr).1⟩

/-! ## More disconnects than the list has cells -/

/-- `n` clients have come and gone, `m` of `0` and `1` are connected, and the closing
thread has not run. -/
structure Churned (s : State) (n m : Nat) : Prop where
  crashed : s.crashed = false
  acceptPc : s.acceptPc = .check
  workerPc : s.workerPc = .check
  closePc : s.closePc = .check
  num : s.clients.num = m
  limit : s.clients.maxConnection = 65534
  count : s.closeList.count = n
  free : ∀ v, n + m < v → s.handles v = none
  client : m = 1 → (s.clients.arr.get 0).value = n + 1

theorem Churned.connect (cfg : Config) {s : State} {n : Nat} (h : Churned s n 0) (hn : n < 65535) :
    ∃ s', (server cfg).exec s (connectActs s.recvAndSendTimeout (n + 1)) = some s' ∧
      Churned s' n 1 := by
  obtain ⟨hc, ha, hw, hcl, hnum, hlim, hcount, hfree, -⟩ := h
  have hnotFull : ¬ s.clients.Full := by
    unfold Clients.Full
    omega
  have hvalue : 0 < n + 1 ∧ n + 1 < invalidSocketValue ∧ s.handles (n + 1) = none :=
    ⟨by omega, by unfold invalidSocketValue; omega, hfree _ (by omega)⟩
  have hother : ∀ v, n + 1 < v → (s.handles.give (n + 1) s.nextConn) v = none := by
    intro v hv
    simp [Handles.give, show v ≠ n + 1 by omega, hfree v (by omega)]
  by_cases ht : 0 < s.recvAndSendTimeout
  · refine ⟨_, by simp [connectActs, Machine.exec, server, step, wingSelectServerAccept, hc, ha, ht,
      hnotFull, hvalue, State.postError]; rfl, ?_⟩
    constructor <;> simp_all [wingSelectServerClientsAppend, State.post, CArray.get_set]
  · refine ⟨_, by simp [connectActs, Machine.exec, server, step, wingSelectServerAccept, hc, ha, ht,
      hnotFull, hvalue, State.postError]; rfl, ?_⟩
    constructor <;> simp_all [wingSelectServerClientsAppend, State.post, CArray.get_set]

theorem Churned.leave (cfg : Config) {s : State} {n : Nat} (h : Churned s n 1) :
    ∃ s', (server cfg).exec s (pollActs 1 [n + 1] ++ closeActs ++ [.worker .go]) = some s' ∧
      Churned s' (n + 1) 0 := by
  obtain ⟨hc, ha, hw, hcl, hnum, hlim, hcount, hfree, hclient⟩ := h
  refine ⟨_, by simp [pollActs, closeActs, Machine.exec, server, step, wingSelectServerWorder, hc, hw,
    hcl, hnum, hclient rfl, fdSet, fdSetSize, RecvResult.Allowed, RecvResult.Offline, RecvResult.ret,
    State.postError, wingSelectServerClientsRemove, ulongPred, State.post, List.replicate]; rfl, ?_⟩
  constructor <;> simp_all [CloseList.push]

theorem churned_reachable (cfg : Config) :
    ∀ n, n ≤ 65535 → ∃ s, (server cfg).Reachable s ∧ Churned s n 0 := by
  intro n
  induction n with
  | zero =>
    exact fun _ => ⟨start cfg, .init, rfl, rfl, rfl, rfl, rfl, rfl, rfl, fun _ _ => rfl, by simp⟩
  | succ n ih =>
    intro hn
    obtain ⟨s, hr, hs⟩ := ih (by omega)
    obtain ⟨s₁, hexec₁, hs₁⟩ := hs.connect cfg (by omega)
    obtain ⟨s₂, hexec₂, hs₂⟩ := hs₁.leave cfg
    exact ⟨s₂, (hr.exec hexec₁).exec hexec₂, hs₂⟩

/-- 65535 clients come and go before the closing thread has closed one. -/
theorem close_list_overruns :
    ¬ ∀ (cfg : Config) (s : State), (server cfg).Reachable s →
      s.closeList.count ≤ s.closeList.arr.length := by
  intro hall
  obtain ⟨s, hr, hs⟩ := churned_reachable ⟨1000, 0⟩ 65535 (Nat.le_refl _)
  have hle := hall _ s hr
  rw [hs.count, (waiting_length hr).2] at hle
  omega

end WingPhp.Select
