import WingPhp.Select.Registry

/-!
# The sockets one pass of the receive loop calls `recv` on

When `select` has reported, an observer writes down the clients then registered and the
values reported, and from there on every call of `recv` (`RecvPass`).  Each client whose
value was reported should be called once and nobody else (`RecvPass.Exact`).

The loop counts its index up over the array that it deletes from: a deletion at the index
moves the next client under it, and the loop goes past that client.  `InLoop` keeps that
what was called, followed by what is wanted from the index on, is what is wanted; once a
wanted client is passed over it never gets under the index again.  A client accepted during
the pass is called only when its handle value is a reported one given out again.
-/

namespace WingPhp.Select

open Transition Sclient

/-! ## The record of a pass -/

/-- The clients registered when `select` reported, the values reported, the sockets `recv` was
called on since, whether a deletion made the index pass a client to be called, whether the
test of the loop met a client accepted since with a reported value, and whether the
pass follows a report at all. -/
structure RecvPass where
  polled : List Sock
  fds : List Nat
  called : List Sock
  passedOver : Bool
  reused : Bool
  reported : Bool
  deriving DecidableEq

namespace RecvPass

/-- A registered client whose socket is in the reported set. -/
def Wanted (n : RecvPass) (k : Sock) : Prop := k ∈ n.polled ∧ k.value ∈ n.fds

instance (n : RecvPass) (k : Sock) : Decidable (n.Wanted k) := inferInstanceAs (Decidable (_ ∧ _))

/-- **The pass was right**: one call of `recv` on each wanted client, and no other. -/
def Exact (n : RecvPass) : Prop := n.called.Nodup ∧ ∀ k, k ∈ n.called ↔ n.Wanted k

end RecvPass

def noteRecvPass (s : State) (a : Act) (n : RecvPass) : RecvPass :=
  match a with
  | .worker input =>
    match s.workerPc, input with
    | .select _, .selected (.ready fds) => ⟨s.clients.registered, fds, [], false, false, true⟩
    | .select _, .selected (.error _) => { n with reported := false }
    | .isSet i, .go =>
      if (s.clients.arr.get i).value ∈ s.fdread ∧ s.clients.arr.get i ∉ n.polled then
        { n with reused := true }
      else n
    | .recv i, .go => { n with called := n.called ++ [s.clients.arr.get i] }
    | .remove i _, .go =>
      if s.clients.registered[i + 1]?.any (fun k => decide (n.Wanted k)) then
        { n with passedOver := true }
      else n
    | _, _ => n
  | _ => n

/-- The server, with a record of the worker's passes. -/
def recvPassWatched (cfg : Config) : Machine (Watched State RecvPass) Act :=
  (server cfg).watch ⟨[], [], [], false, false, false⟩ noteRecvPass

/-! ## What the loop keeps -/

/-- In the loop, with everything from `idx` on still to be tested. -/
structure InLoop (reg : List Sock) (closed fdread : List Nat) (idx : Nat) (n : RecvPass) :
    Prop where
  fdread : fdread = n.fds
  nodup : n.polled.Nodup
  known : ∀ k ∈ n.polled ++ n.called, k ∈ reg ∨ k.conn ∈ closed
  behind : ∀ k ∈ n.called, k ∉ reg.drop idx
  clean : n.passedOver = false → n.reused = false →
    n.called ++ (reg.drop idx).filter (fun k => decide (n.Wanted k)) =
      n.polled.filter (fun k => decide (n.Wanted k))
  lost : n.passedOver = true → ∃ k, n.Wanted k ∧ k ∉ n.called ∧ k ∉ reg.drop idx

/-- The client met with a reused value was called. -/
def RecvPass.StrangerCalled (n : RecvPass) : Prop :=
  n.reused = true → ∃ k ∈ n.called, k ∉ n.polled

/-- What holds of the record where the worker is. -/
def RecvPass.At (g : Clients) (closed fdread : List Nat) (n : RecvPass) : WorkerPc → Prop
  | .check | .fdTest _ | .fdSet _ | .select _ =>
    n.Exact ↔ n.passedOver = false ∧ n.reused = false
  | .recvTest i | .isSet i => InLoop g.registered closed fdread i n ∧ n.StrangerCalled
  | .recv i =>
    InLoop g.registered closed fdread i n ∧ (g.arr.get i).value ∈ n.fds ∧
      (g.arr.get i ∈ n.polled ∧ n.StrangerCalled ∨ g.arr.get i ∉ n.polled ∧ n.reused = true)
  | .recvWait i _ | .closeItem i _ | .shutdown i _ _ | .closeTime i _ _ | .pushClose i _ _ _
  | .postClose i _ _ | .remove i _ | .recvItem i _ _ | .getpeername i _ _ | .postRecv i _ _ =>
    InLoop g.registered closed fdread (i + 1) n ∧ n.StrangerCalled

namespace InLoop

variable {reg : List Sock} {closed fdread : List Nat} {idx : Nat} {n : RecvPass}

/-- At the report everything is still to be tested. -/
theorem start (hreg : reg.Nodup) (closed : List Nat) (fds : List Nat) :
    InLoop reg closed fds 0 ⟨reg, fds, [], false, false, true⟩ where
  fdread := rfl
  nodup := hreg
  known := by
    intro k hk
    rw [List.append_nil] at hk
    exact .inl hk
  behind := by
    intro k hk
    cases hk
  clean _ _ := rfl
  lost h := by cases h

/-- A client appended is not a wanted one. -/
theorem append (h : InLoop reg closed fdread idx n) {k : Sock} (hreg : k ∉ reg)
    (hclosed : k.conn ∉ closed) : InLoop (reg ++ [k]) closed fdread idx n := by
  have hnew : k ∉ n.polled ++ n.called := by
    intro hk
    rcases h.known k hk with hk | hk
    · exact hreg hk
    · exact hclosed hk
  rw [List.mem_append, not_or] at hnew
  have hdrop : ∀ k', k' ∈ (reg ++ [k]).drop idx → k' ∈ reg.drop idx ∨ k' = k := by
    intro k' hk'
    rw [List.drop_append, List.mem_append] at hk'
    exact hk'.imp id fun hk' => List.mem_singleton.mp (List.mem_of_mem_drop hk')
  refine ⟨h.fdread, h.nodup, ?_, ?_, ?_, ?_⟩
  · intro k' hk'
    exact (h.known k' hk').imp (List.mem_append_left _) id
  · intro k' hk' hmem
    rcases hdrop k' hmem with hmem | rfl
    · exact h.behind k' hk' hmem
    · exact hnew.2 hk'
  · intro hp hr
    have hfilter : ([k].drop (idx - reg.length)).filter (fun k => decide (n.Wanted k)) = [] := by
      rw [List.filter_eq_nil_iff]
      intro k' hk'
      rw [List.mem_singleton.mp (List.mem_of_mem_drop hk'), decide_eq_true_iff]
      exact fun hw => hnew.1 hw.1
    rw [List.drop_append, List.filter_append, hfilter, List.append_nil, h.clean hp hr]
  · intro hp
    obtain ⟨k', hw, hcalled, hk'⟩ := h.lost hp
    refine ⟨k', hw, hcalled, fun hmem => ?_⟩
    rcases hdrop k' hmem with hmem | rfl
    · exact hk' hmem
    · exact hnew.1 hw.1

theorem drop_at {i : Nat} {k : Sock} (hk : reg[i]? = some k) :
    reg.drop i = k :: reg.drop (i + 1) := by
  obtain ⟨hi, rfl⟩ := List.getElem?_eq_some_iff.mp hk
  exact List.drop_eq_getElem_cons hi

/-- A client whose value was not reported is gone past. -/
theorem next {i : Nat} (h : InLoop reg closed fdread i n) {k : Sock} (hk : reg[i]? = some k)
    (hv : k.value ∉ n.fds) : InLoop reg closed fdread (i + 1) n := by
  have hsub : ∀ k', k' ∈ reg.drop (i + 1) → k' ∈ reg.drop i := by
    intro k' hk'
    rw [drop_at hk]
    exact List.mem_cons_of_mem _ hk'
  refine ⟨h.fdread, h.nodup, h.known, fun k' hk' hm => h.behind k' hk' (hsub k' hm), ?_, ?_⟩
  · intro hp hr
    have hclean := h.clean hp hr
    have hskip : ¬ decide (n.Wanted k) = true := by
      rw [decide_eq_true_iff]
      exact fun hw => hv hw.2
    rwa [drop_at hk, List.filter_cons, if_neg hskip] at hclean
  · intro hp
    obtain ⟨k', hw, hcalled, hm⟩ := h.lost hp
    exact ⟨k', hw, hcalled, fun hm' => hm (hsub k' hm')⟩

/-- The client at the index is called. -/
theorem call {i : Nat} (h : InLoop reg closed fdread i n) (hreg : reg.Nodup) {k : Sock}
    (hk : reg[i]? = some k) (hv : k.value ∈ n.fds) (hpolled : n.reused = false → k ∈ n.polled) :
    InLoop reg closed fdread (i + 1) { n with called := n.called ++ [k] } := by
  have hcons := drop_at hk
  have hnot : k ∉ reg.drop (i + 1) := by
    have := hreg.sublist (List.drop_sublist i reg)
    rw [hcons] at this
    exact (List.nodup_cons.mp this).1
  refine ⟨h.fdread, h.nodup, ?_, ?_, ?_, ?_⟩
  · intro k' hk'
    rw [← List.append_assoc, List.mem_append] at hk'
    rcases hk' with hk' | hk'
    · exact h.known k' hk'
    · rw [List.mem_singleton.mp hk']
      exact .inl (List.mem_of_getElem? hk)
  · intro k' hk' hm
    rcases List.mem_append.mp hk' with hk' | hk'
    · exact h.behind k' hk' (by rw [hcons]; exact List.mem_cons_of_mem _ hm)
    · rw [List.mem_singleton.mp hk'] at hm
      exact hnot hm
  · intro hp hr
    have hclean := h.clean hp hr
    have hw : decide (n.Wanted k) = true := decide_eq_true ⟨hpolled hr, hv⟩
    rw [hcons, List.filter_cons, if_pos hw] at hclean
    show n.called ++ [k] ++ (reg.drop (i + 1)).filter (fun k => decide (n.Wanted k)) = _
    rw [List.append_assoc]
    exact hclean
  · intro hp
    obtain ⟨k', hw, hcalled, hm⟩ := h.lost hp
    rw [hcons, List.mem_cons, not_or] at hm
    refine ⟨k', hw, ?_, hm.2⟩
    rw [List.mem_append, List.mem_singleton, not_or]
    exact ⟨hcalled, hm.1⟩

theorem drop_eraseIdx (reg : List Sock) (i : Nat) :
    (reg.eraseIdx i).drop (i + 1) = reg.drop (i + 2) := by
  apply List.ext_getElem?
  intro j
  rw [List.getElem?_drop, List.getElem?_drop, List.getElem?_eraseIdx_of_ge (by omega)]
  congr 1
  omega

/-- The client at `i` is deleted after its call, and the index goes on: the client that stood
next is passed over. -/
theorem remove {i : Nat} (h : InLoop reg closed fdread (i + 1) n) (hreg : reg.Nodup) {k : Sock}
    (hk : reg[i]? = some k) :
    InLoop (reg.eraseIdx i) (closed ++ [k.conn]) fdread (i + 1)
      (if reg[i + 1]?.any (fun k => decide (n.Wanted k)) then { n with passedOver := true } else n) := by
  have hsub : ∀ k', k' ∈ (reg.eraseIdx i).drop (i + 1) → k' ∈ reg.drop (i + 1) := by
    intro k' hk'
    rw [drop_eraseIdx, show i + 2 = i + 1 + 1 from rfl, ← List.drop_drop] at hk'
    exact List.mem_of_mem_drop hk'
  have hknown : ∀ k' ∈ n.polled ++ n.called, k' ∈ reg.eraseIdx i ∨ k'.conn ∈ closed ++ [k.conn] := by
    intro k' hk'
    rcases h.known k' hk' with hm | hc
    · obtain ⟨j, hj⟩ := List.getElem?_of_mem hm
      by_cases hji : j = i
      · rw [hji, hk] at hj
        cases hj
        exact .inr (List.mem_append_right _ (List.mem_singleton.mpr rfl))
      · exact .inl (List.mem_eraseIdx_iff_getElem?.mpr ⟨j, hji, hj⟩)
    · exact .inr (List.mem_append_left _ hc)
  have hbehind : ∀ k' ∈ n.called, k' ∉ (reg.eraseIdx i).drop (i + 1) := fun k' hk' hm =>
    h.behind k' hk' (hsub k' hm)
  by_cases hover : reg[i + 1]?.any (fun k => decide (n.Wanted k)) = true
  · -- a wanted client stands under the index now
    obtain ⟨next, hnext, hw⟩ := Option.any_eq_true .. |>.mp hover
    rw [if_pos hover]
    refine ⟨h.fdread, h.nodup, hknown, hbehind, fun hp _ => absurd hp (by simp), fun _ => ?_⟩
    have hcons := drop_at hnext
    refine ⟨next, of_decide_eq_true hw, fun hc => ?_, ?_⟩
    · refine h.behind next hc ?_
      rw [hcons]
      exact List.mem_cons_self
    · rw [drop_eraseIdx]
      have := hreg.sublist (List.drop_sublist (i + 1) reg)
      rw [hcons] at this
      exact (List.nodup_cons.mp this).1
  · rw [if_neg hover]
    refine ⟨h.fdread, h.nodup, hknown, hbehind, fun hp hr => ?_, fun hp => ?_⟩
    · rw [← h.clean hp hr, drop_eraseIdx]
      cases hnext : reg[i + 1]? with
      | none =>
        have hlen := List.getElem?_eq_none_iff.mp hnext
        rw [List.drop_of_length_le hlen, List.drop_of_length_le (by omega)]
      | some next =>
        rw [hnext, Option.any_some] at hover
        rw [drop_at hnext, List.filter_cons, if_neg hover]
    · obtain ⟨k', hw, hcalled, hm⟩ := h.lost hp
      exact ⟨k', hw, hcalled, fun hm' => hm (hsub k' hm')⟩

/-- At the end of the array the record decides. -/
theorem finish (h : InLoop reg closed fdread idx n) (hstranger : n.StrangerCalled)
    (hend : reg.length ≤ idx) : n.Exact ↔ n.passedOver = false ∧ n.reused = false := by
  constructor
  · intro hexact
    constructor
    · apply Bool.eq_false_iff.mpr
      intro hp
      obtain ⟨k, hw, hcalled, -⟩ := h.lost hp
      exact hcalled ((hexact.2 k).mpr hw)
    · apply Bool.eq_false_iff.mpr
      intro hr
      obtain ⟨k, hcalled, hk⟩ := hstranger hr
      exact hk ((hexact.2 k).mp hcalled).1
  · rintro ⟨hp, hr⟩
    have hclean := h.clean hp hr
    rw [List.drop_of_length_le hend, List.filter_nil, List.append_nil] at hclean
    rw [RecvPass.Exact, hclean]
    refine ⟨h.nodup.filter _, fun k => ?_⟩
    rw [List.mem_filter, decide_eq_true_iff, RecvPass.Wanted, and_self_left]

end InLoop

/-! ## Every step keeps it -/

/-- The record is right about the pass that is on, or about the last one. -/
def RecvInv (s : State) (n : RecvPass) : Prop :=
  n.reported = true → n.At s.clients s.closed s.fdread s.workerPc

theorem RecvPass.At.append {g : Clients} {closed fdread : List Nat} {n : RecvPass} {pc : WorkerPc}
    (h : n.At g closed fdread pc) (hpc : WorkerOk g pc) {k : Sock} (hreg : k ∉ g.registered)
    (hclosed : k.conn ∉ closed) :
    n.At (wingSelectServerClientsAppend g k) closed fdread pc := by
  have hloop : ∀ {idx}, InLoop g.registered closed fdread idx n →
      InLoop (wingSelectServerClientsAppend g k).registered closed fdread idx n := by
    intro idx hin
    rw [registered_append]
    exact hin.append hreg hclosed
  cases pc with
  | check | fdTest | fdSet | select => exact h
  | recv i =>
    have hget : (wingSelectServerClientsAppend g k).arr.get i = g.arr.get i := by
      have hi : i < g.num := hpc
      simp only [wingSelectServerClientsAppend, CArray.get_set]
      rw [if_neg (by omega)]
    show InLoop _ closed fdread i n ∧ _ ∧ _
    rw [hget]
    exact ⟨hloop h.1, h.2⟩
  | _ => exact ⟨hloop h.1, h.2⟩

theorem accept_recv {s s' : State} {input : Input} {n : RecvPass} (hreg : RegistryInv s)
    (hi : RecvInv s n) (h : AcceptStep s input s') : RecvInv s' n := by
  cases h with
  | append hpc =>
    intro hr
    have hnew := hreg.inHand_new (k := _) (by rw [hpc]; exact List.mem_singleton.mpr rfl)
    exact (hi hr).append hreg.worker hnew.1 hnew.2
  | _ => exact hi

theorem worker_recv {s s' : State} {input : Input} {n : RecvPass} (hreg : RegistryInv s)
    (hi : RecvInv s n) (h : WorkerStep s input s') :
    RecvInv s' (noteRecvPass s (.worker input) n) := by
  have hnodup := hreg.registered_conns_nodup.of_map
  have hworker := hreg.worker
  unfold RecvInv at hi ⊢
  cases h with
  | idle hpc | begin hpc | fdTest hpc | fdDone hpc | fdSet hpc | timeout hpc | recvTest hpc
  | offline hpc | received hpc | closeItem hpc | shutdown hpc | closeTime hpc | pushClose hpc
  | postClose hpc | recvItem hpc | getpeername hpc | peerError hpc | postRecv hpc =>
    simp only [noteRecvPass, hpc] at hi ⊢
    exact hi
  | overrun hpc =>
    simp only [noteRecvPass, hpc] at hi ⊢
    exact hi
  | ready hpc =>
    simp only [noteRecvPass, hpc]
    intro _
    exact ⟨InLoop.start hnodup s.closed _, fun hr => absurd hr (by simp)⟩
  | selectError hpc =>
    simp only [noteRecvPass, hpc]
    intro hr
    cases hr
  | passDone hpc hend =>
    simp only [noteRecvPass, hpc] at hi ⊢
    intro hr
    obtain ⟨hin, hstranger⟩ := hi hr
    exact hin.finish hstranger (by simp [Clients.registered]; omega)
  | @isSet i hpc hv =>
    simp only [noteRecvPass, hpc] at hi ⊢
    by_cases hpolled : s.clients.arr.get i ∈ n.polled
    · rw [if_neg (fun hn => hn.2 hpolled)]
      intro hr
      obtain ⟨hin, hstranger⟩ := hi hr
      exact ⟨hin, hin.fdread ▸ hv, .inl ⟨hpolled, hstranger⟩⟩
    · rw [if_pos ⟨hv, hpolled⟩]
      intro hr
      obtain ⟨hin, -⟩ := hi hr
      exact ⟨⟨hin.fdread, hin.nodup, hin.known, hin.behind, fun _ he => absurd he (by simp), hin.lost⟩,
        hin.fdread ▸ hv, .inr ⟨hpolled, rfl⟩⟩
  | @notSet i hpc hv =>
    simp only [noteRecvPass, hpc] at hi ⊢
    rw [hpc] at hworker
    rw [if_neg (fun hn => hv hn.1)]
    intro hr
    obtain ⟨hin, hstranger⟩ := hi hr
    exact ⟨hin.next (getElem?_registered s.clients hworker) (hin.fdread ▸ hv), hstranger⟩
  | @recv i hpc =>
    simp only [noteRecvPass, hpc] at hi ⊢
    rw [hpc] at hworker
    intro hr
    obtain ⟨hin, hv, hcase⟩ := hi hr
    refine ⟨hin.call hnodup (getElem?_registered s.clients hworker) hv ?_, fun hre => ?_⟩
    · intro hre
      rcases hcase with ⟨hp, -⟩ | ⟨-, hre'⟩
      · exact hp
      · rw [hre] at hre'
        cases hre'
    · rcases hcase with ⟨-, hstranger⟩ | ⟨hp, -⟩
      · obtain ⟨k, hk, hkp⟩ := hstranger hre
        exact ⟨k, List.mem_append_left _ hk, hkp⟩
      · exact ⟨_, List.mem_append_right _ (List.mem_singleton.mpr rfl), hp⟩
  | @remove i k hpc =>
    simp only [noteRecvPass, hpc] at hi ⊢
    rw [hpc] at hworker
    obtain ⟨hlt, rfl⟩ := hworker
    have hgo : n.reported = true →
        InLoop (wingSelectServerClientsRemove s.clients i).registered
          (s.closed ++ [(s.clients.arr.get i).conn]) s.fdread (i + 1)
          (if s.clients.registered[i + 1]?.any (fun k => decide (n.Wanted k)) then
            { n with passedOver := true } else n) := by
      intro hr
      rw [registered_remove hlt]
      exact (hi hr).1.remove hnodup (getElem?_registered s.clients hlt)
    split
    · next hover =>
      rw [if_pos hover] at hgo
      intro hr
      exact ⟨hgo hr, (hi hr).2⟩
    · next hover =>
      rw [if_neg hover] at hgo
      intro hr
      exact ⟨hgo hr, (hi hr).2⟩

theorem RecvInv.sameFront {s s' : State} {n : RecvPass} (hi : RecvInv s n) (h : SameFront s s') :
    RecvInv s' n := by
  unfold RecvInv
  rw [h.clients, h.closed, h.fdread, h.workerPc]
  exact hi

/-- **Run lemma.** -/
theorem recvInv_of_reachable {cfg : Config} {w : Watched State RecvPass}
    (h : (recvPassWatched cfg).Reachable w) : RecvInv w.state w.notes := by
  refine h.watch_invariant (fun hr => by cases hr) ?_
  intro s a s' n hreach hi hs
  have hreg := reachable_registry hreach
  cases runsStep hs with
  | accept ht => exact accept_recv hreg hi ht
  | worker ht => exact worker_recv hreg hi ht
  | close ht => exact hi.sameFront ht.sameFront
  | main ht => exact hi.sameFront ht.same.1
  | pool ht => exact hi.sameFront ht.same.1

/-- **One pass of the receive loop** calls `recv` exactly once on each registered client that
`select` reported, and on nobody else, exactly when no deletion moved such a client under the
index the loop then went past, and no test met a client accepted during the pass under a
reported value. -/
theorem recv_once_iff {cfg : Config} {w : Watched State RecvPass}
    (h : (recvPassWatched cfg).Reachable w) (hpc : w.state.workerPc = .check)
    (hreported : w.notes.reported = true) :
    w.notes.Exact ↔ w.notes.passedOver = false ∧ w.notes.reused = false := by
  have hi := recvInv_of_reachable h hreported
  rw [hpc] at hi
  exact hi

/-- `recv` returns one byte, and the pass goes on. -/
def dataActs : List Act :=
  [.worker (.received (.data [0x41])), .worker (.clock 0), .worker (.peer (.ok .zero)), .worker .go]

/-- Two readable clients send data: both are called. -/
theorem recv_once_two_send :
    ∃ w, (recvPassWatched ⟨1000, 0⟩).Reachable w ∧ w.notes.called = [⟨4, 0⟩, ⟨8, 1⟩] ∧
      w.notes.Exact := by
  obtain ⟨w, hr, hpc, hreported, hcalled, hover, hreused⟩ :=
    Machine.exists_reachable (M := recvPassWatched ⟨1000, 0⟩)
      (p := fun w => w.state.workerPc = .check ∧ w.notes.reported = true ∧
        w.notes.called = [⟨4, 0⟩, ⟨8, 1⟩] ∧ w.notes.passedOver = false ∧ w.notes.reused = false)
      (connectActs 0 4 ++ connectActs 0 8 ++ pollActs 2 [4, 8] ++ dataActs ++
        [.worker .go, .worker .go, .worker .go] ++ dataActs ++ [.worker .go]) (by decide)
  exact ⟨w, hr, hcalled, (recv_once_iff hr hpc hreported).mpr ⟨hover, hreused⟩⟩

/-- Two readable clients, and the first one closes: the second is not called. -/
theorem second_not_called :
    ∃ w, (recvPassWatched ⟨1000, 0⟩).Reachable w ∧ w.state.workerPc = .check ∧
      w.notes.polled = [⟨4, 0⟩, ⟨8, 1⟩] ∧ w.notes.fds = [4, 8] ∧ w.notes.called = [⟨4, 0⟩] ∧
      ¬ w.notes.Exact := by
  obtain ⟨w, hr, hpc, hpolled, hfds, hcalled⟩ :=
    Machine.exists_reachable (M := recvPassWatched ⟨1000, 0⟩)
      (p := fun w => w.state.workerPc = .check ∧ w.notes.polled = [⟨4, 0⟩, ⟨8, 1⟩] ∧
        w.notes.fds = [4, 8] ∧ w.notes.called = [⟨4, 0⟩])
      (connectActs 0 4 ++ connectActs 0 8 ++ pollActs 2 [4, 8] ++ closeActs ++ [.worker .go])
      (by decide)
  refine ⟨w, hr, hpc, hpolled, hfds, hcalled, fun hexact => ?_⟩
  have hw : w.notes.Wanted ⟨8, 1⟩ := by
    rw [RecvPass.Wanted, hpolled, hfds]
    decide
  have hmem := (hexact.2 ⟨8, 1⟩).mpr hw
  rw [hcalled] at hmem
  exact absurd hmem (by decide)

end WingPhp.Select
