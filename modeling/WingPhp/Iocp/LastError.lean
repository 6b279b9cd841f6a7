import WingPhp.Iocp.Server

/-!
# What the dispatcher reads out of `WSAGetLastError()`

`icop_worker_thread` is given an error code and a byte count, and it also asks for the
last error of the thread it runs on, which is whatever an earlier callback left there.
`WingIOCP::worker`, which this one was written after, clears it with `WSASetLastError(0)`
before it returns; here nothing does.  `dispatch_lastError` says between which values of
it the dispatcher can tell.
-/

namespace WingPhp.Iocp

/-- What the dispatcher does about a completion: `iocp_onconnect`, `iocp_onrecv`,
`iocp_onclose`, or none of them. -/
inductive Dispatched where
  | connect
  | deliver
  | close
  | nothing
  deriving DecidableEq, Repr

/-- The function a callback is about to enter. -/
def Pc.dispatched : Pc → Option Dispatched
  | .online => some .connect
  | .recvCopy => some .deliver
  | .postClose => some .close
  | _ => none

/-- What a step of the dispatcher comes to; `none` if the dispatcher goes on. -/
def Effect.dispatched (e : Effect) : Option Dispatched :=
  match e.next with
  | some cb => cb.pc.dispatched
  | none => some .nothing

/-- `icop_worker_thread` from its entry on, for a completion with these parameters on a
thread with this last error. -/
def icopDispatch (povl : Nat) (ol : IocpOverlapped) (kind : OpKind) (conn errorCode bytesTrans lastError : Nat) :
    Option Dispatched :=
  match icopWorkerThread povl ol ⟨kind, conn, errorCode, bytesTrans, lastError, false, .beat⟩ .go with
  | some e =>
    match e.dispatched, e.next with
    | none, some cb => (icopWorkerThread povl e.ol cb .go).bind Effect.dispatched
    | d, _ => d
  | none => none

/-- The two codes a thread takes for a lost client. -/
def TakenForLost (lastError : Nat) : Prop := lastError = wsaeConnReset ∨ lastError = errorNetnameDeleted

instance (lastError : Nat) : Decidable (TakenForLost lastError) := inferInstanceAs (Decidable (_ ∨ _))

/-- The dispatcher finds the same in both last errors. -/
def SameReading (ol : IocpOverlapped) (errorCode bytesTrans l l' : Nat) : Prop :=
  errorCode ≠ 0 ∨
  if ol.iOpType = .recv ∧ bytesTrans = 0 then (l = wsaIoPending ↔ l' = wsaIoPending)
  else (TakenForLost l ↔ TakenForLost l')

variable {povl : Nat} {ol : IocpOverlapped} {kind : OpKind} {conn errorCode bytesTrans l l' : Nat}

/-! ## One run of the dispatcher -/

theorem icopDispatch_lost (h : errorCode ≠ 0 ∨ TakenForLost l) :
    icopDispatch povl ol kind conn errorCode bytesTrans l = some .close := by
  have hlost : (⟨kind, conn, errorCode, bytesTrans, l, false, .beat⟩ : Callback).Lost := h
  simp only [icopDispatch, icopWorkerThread, if_pos hlost]
  rfl

/-- Past the first test it comes to the switch. -/
theorem icopDispatch_switch (h : ¬ TakenForLost l) :
    icopDispatch povl ol kind conn 0 bytesTrans l =
      (icopWorkerThread povl ol ⟨kind, conn, 0, bytesTrans, l, false, .opSwitch⟩ .go).bind
        Effect.dispatched := by
  have hlost : ¬ (⟨kind, conn, 0, bytesTrans, l, false, .beat⟩ : Callback).Lost := by
    rintro (hne | hr)
    · exact hne rfl
    · exact h hr
  simp only [icopDispatch, icopWorkerThread, if_neg hlost]
  rfl

theorem icopDispatch_accept (ht : ol.iOpType = .accept) :
    icopDispatch povl ol kind conn 0 bytesTrans l = some (if TakenForLost l then .close else .connect) := by
  by_cases hl : TakenForLost l
  · rw [if_pos hl]
    exact icopDispatch_lost (.inr hl)
  · rw [if_neg hl, icopDispatch_switch hl]
    simp only [icopWorkerThread, ht]
    rfl

theorem icopDispatch_data (ht : ol.iOpType = .recv) (hb : bytesTrans ≠ 0) :
    icopDispatch povl ol kind conn 0 bytesTrans l = some (if TakenForLost l then .close else .deliver) := by
  by_cases hl : TakenForLost l
  · rw [if_pos hl]
    exact icopDispatch_lost (.inr hl)
  · have hgo : ¬ (bytesTrans = 0 ∨
        (⟨kind, conn, 0, bytesTrans, l, false, .opSwitch⟩ : Callback).ConnReset) := by
      rintro (h0 | hr)
      · exact hb h0
      · exact hl hr
    rw [if_neg hl, icopDispatch_switch hl]
    simp only [icopWorkerThread, ht, if_neg hgo]
    rfl

/-- The one place where `ERROR_IO_PENDING` counts. -/
theorem icopDispatch_empty (ht : ol.iOpType = .recv) :
    icopDispatch povl ol kind conn 0 0 l = some (if l = wsaIoPending then .nothing else .close) := by
  by_cases hl : TakenForLost l
  · have hne : l ≠ wsaIoPending := by
      rintro rfl
      exact absurd hl (by decide)
    rw [if_neg hne]
    exact icopDispatch_lost (.inr hl)
  · rw [icopDispatch_switch hl]
    by_cases hp : l = wsaIoPending
    · subst hp
      simp only [icopWorkerThread, ht]
      rfl
    · simp only [icopWorkerThread, ht, true_or, if_true, ne_eq, hp, not_false_eq_true, if_false]
      rfl

/-! ## Two runs of it -/

/-- What is chosen by a test differs exactly where the test does. -/
theorem chosen_eq_iff {p q : Prop} [Decidable p] [Decidable q] {a b : Dispatched} (hab : a ≠ b) :
    some (if p then a else b) = some (if q then a else b) ↔ (p ↔ q) := by
  by_cases hp : p <;> by_cases hq : q <;> simp [hp, hq, hab, hab.symm]

theorem icopDispatch_eq_iff :
    icopDispatch povl ol kind conn errorCode bytesTrans l =
        icopDispatch povl ol kind conn errorCode bytesTrans l' ↔
      SameReading ol errorCode bytesTrans l l' := by
  unfold SameReading
  by_cases herr : errorCode = 0
  · subst herr
    simp only [ne_eq, not_true_eq_false, false_or]
    cases ht : ol.iOpType with
    | accept =>
      rw [icopDispatch_accept ht, icopDispatch_accept ht, chosen_eq_iff (by decide), if_neg (by simp)]
    | recv =>
      by_cases hb : bytesTrans = 0
      · subst hb
        rw [icopDispatch_empty ht, icopDispatch_empty ht, chosen_eq_iff (by decide), if_pos ⟨rfl, rfl⟩]
      · rw [icopDispatch_data ht hb, icopDispatch_data ht hb, chosen_eq_iff (by decide),
          if_neg fun h => hb h.2]
  · rw [icopDispatch_lost (.inl herr), icopDispatch_lost (.inl herr)]
    simp [herr]

/-- **The dispatcher depends on what the thread did before.**  Two last errors lead to
the same action exactly if it finds the same in them: both or neither a lost
client, for a receive of nothing both or neither `ERROR_IO_PENDING`.  A receive of
bytes is delivered unless the thread was left with one of the two codes, and a receive
of nothing closes the connection unless it was left with `ERROR_IO_PENDING`. -/
theorem dispatch_lastError (povl : Nat) (ol : IocpOverlapped) (kind : OpKind)
    (conn errorCode bytesTrans : Nat) :
    (∀ l l', icopDispatch povl ol kind conn errorCode bytesTrans l =
        icopDispatch povl ol kind conn errorCode bytesTrans l' ↔
      SameReading ol errorCode bytesTrans l l') ∧
    (ol.iOpType = .recv → errorCode = 0 → 0 < bytesTrans → ∀ l,
      icopDispatch povl ol kind conn errorCode bytesTrans l = some .deliver ↔ ¬ TakenForLost l) ∧
    (ol.iOpType = .recv → bytesTrans = 0 → ∀ l,
      icopDispatch povl ol kind conn errorCode bytesTrans l = some .close ↔
        errorCode ≠ 0 ∨ l ≠ wsaIoPending) := by
  refine ⟨fun l l' => icopDispatch_eq_iff, ?_, ?_⟩
  · rintro ht rfl hb l
    rw [icopDispatch_data ht (by omega)]
    by_cases hl : TakenForLost l <;> simp [hl]
  · rintro ht rfl l
    by_cases herr : errorCode = 0
    · subst herr
      rw [icopDispatch_empty ht]
      by_cases hp : l = wsaIoPending <;> simp [hp]
    · rw [icopDispatch_lost (.inl herr)]
      simp [herr]

/-- A last error that neither test knows. -/
theorem dispatch_lastError_unknown :
    icopDispatch 0 { IocpOverlapped.new 100 4 0 with iOpType := .recv } .recv 0 0 5 10057 = some .deliver ∧
      icopDispatch 0 { IocpOverlapped.new 100 4 0 with iOpType := .recv } .recv 0 0 0 10057 =
        some .close :=
  ⟨((dispatch_lastError 0 _ .recv 0 0 5).2.1 rfl rfl (by decide) 10057).mpr (by decide),
    ((dispatch_lastError 0 _ .recv 0 0 0).2.2 rfl rfl 10057).mpr (.inr (by decide))⟩

/-- Five bytes have been received, on a thread whose last callback lost another client. -/
theorem dispatch_reset_left_over :
    icopDispatch 0 { IocpOverlapped.new 100 4 0 with iOpType := .recv } .recv 0 0 5 0 ≠
      icopDispatch 0 { IocpOverlapped.new 100 4 0 with iOpType := .recv } .recv 0 0 5 wsaeConnReset := by
  decide

end WingPhp.Iocp
