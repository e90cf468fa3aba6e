import ActorSystem.Proofs.Bookkeeping

set_option autoImplicit false

namespace ActorSystem.System

variable {κ : Type} {s : System κ} {r : ActorRef} {a : Actor κ} {c : CallRef}

theorem settle_fst (s : System κ) (c : CallRef) (state : CallState) :
    (s.settle c state).1 = s.isWaiting c := by
  unfold settle isWaiting
  rcases s.calls[c]? with _ | ⟨rpc, _ | vs | _ | _ | _⟩ <;> rfl

theorem isWaiting_iff :
    s.isWaiting c = true ↔ ∃ call, s.calls[c]? = some call ∧ call.state.isWaiting = true := by
  unfold isWaiting
  rcases s.calls[c]? with _ | ⟨rpc, _ | vs | _ | _ | _⟩ <;> simp [CallState.isWaiting]

theorem isWaiting_eq_false {call : Call} (hcall : s.calls[c]? = some call) :
    s.isWaiting c = false ↔ call.state.isWaiting = false := by
  rw [Bool.eq_false_iff, Ne, isWaiting_iff, hcall]
  simp

theorem result?_eq {call : Call} (hcall : s.calls[c]? = some call) :
    s.result? c = match call.state with
      | .answered vs => some (.ok vs)
      | .dropped => some (.error (.rpcDropped call.rpc))
      | .timedOut => some (.error (.rpcTimeout call.rpc))
      | _ => none := by
  obtain ⟨rpc, state⟩ := call
  cases state <;> simp [result?, hcall]

theorem result?_ok {vs : List Value} :
    s.result? c = some (.ok vs) ↔ ∃ call, s.calls[c]? = some call ∧ call.state = .answered vs := by
  cases hcall : s.calls[c]? with
  | none => simp [result?, hcall]
  | some call =>
    rw [result?_eq hcall]
    cases hstate : call.state <;> simp [hstate]

theorem result?_rpcDropped {rpc : String} (h : s.result? c = some (.error (.rpcDropped rpc))) :
    ∃ call, s.calls[c]? = some call ∧ call.state = .dropped := by
  cases hcall : s.calls[c]? with
  | none => simp [result?, hcall] at h
  | some call =>
    rw [result?_eq hcall] at h
    cases hstate : call.state <;> simp [hstate] at h
    exact ⟨call, rfl, hstate⟩

theorem settle_waiting (h : s.isWaiting c = true) (state : CallState) :
    ∃ rpc, (s.settle c state).2.calls[c]? = some ⟨rpc, state⟩ := by
  obtain ⟨⟨rpc, before⟩, hcall, hw⟩ := isWaiting_iff.1 h
  obtain ⟨hlt, -⟩ := Array.getElem?_eq_some_iff.1 hcall
  cases before <;> simp [CallState.isWaiting] at hw
  refine ⟨rpc, ?_⟩
  unfold settle
  rw [hcall]
  simp [hlt]

/-- Values that are sent to a waiting caller are what it gets. -/
theorem settle_answered (h : s.isWaiting c = true) (vs : List Value) :
    (s.settle c (.answered vs)).2.result? c = some (.ok vs) := by
  obtain ⟨rpc, hcall⟩ := settle_waiting h (.answered vs)
  rw [result?_eq hcall]

theorem settle_timedOut (h : s.isWaiting c = true) :
    ∃ rpc, (s.settle c .timedOut).2.result? c = some (.error (.rpcTimeout rpc)) := by
  obtain ⟨rpc, hcall⟩ := settle_waiting h .timedOut
  exact ⟨rpc, by rw [result?_eq hcall]⟩

theorem request_ok (h : s.accepts r = true) (name : String) (args : Args) :
    (s.request r name args).1 = .ok s.calls.size := by
  cases ha : s.actor? r with
  | none => simp [accepts_absent ha] at h
  | some a => rw [request_open ha (by simpa [accepts_eq ha] using h)]

theorem perform_answer_none (h : s.actor? r = some a) (hr : a.dispatch.reply = none)
    (vs : List Value) : perform r (.answer vs) s = (false, s) := by
  have hsame : ({ a with dispatch.reply := none } : Actor κ) = a :=
    calc ({ a with dispatch.reply := none } : Actor κ)
      _ = { a with dispatch.reply := a.dispatch.reply } := by rw [hr]
      _ = a := rfl
  change s.answerCurrent r vs = _
  rw [answerCurrent, takeReply, atActor_eq h, hsame, put_self h, hr]

/-- An answer takes the reply, and tells whether the caller still waits; if it does, it gets the
values. -/
theorem perform_answer_some (h : s.actor? r = some a) (hr : a.dispatch.reply = some c)
    (vs : List Value) :
    (perform r (.answer vs) s).1 = s.isWaiting c ∧
      (perform r (.answer vs) s).2.actor? r = some { a with dispatch.reply := none } ∧
      (s.isWaiting c = true → (perform r (.answer vs) s).2.result? c = some (.ok vs)) := by
  change (s.answerCurrent r vs).1 = _ ∧ (s.answerCurrent r vs).2.actor? r = _ ∧
    (_ → (s.answerCurrent r vs).2.result? c = _)
  have ht := Turns.put h { a with dispatch.reply := none }
  rw [answerCurrent, takeReply, atActor_eq h, hr]
  dsimp only [answer]
  rw [settle_fst, settle_actor?]
  refine ⟨rfl, ht.actor?_self, fun hw => ?_⟩
  exact settle_answered (s := s.put r _) hw vs

theorem perform_answerKept_none {slot : String} (h : s.actor? r = some a)
    (hk : a.kept.get? slot = none) (vs : List Value) :
    perform r (.answerKept slot vs) s = (none, s) := by
  have hsame : ({ a with kept := a.kept.erase slot } : Actor κ) = a := by
    rw [Table.erase_of_get?_none hk]
  change s.answerKept r slot vs = _
  rw [answerKept, takeKept, atActor_eq h, hsame, put_self h, hk]

theorem perform_answerKept_some {slot : String} (h : s.actor? r = some a)
    (hk : a.kept.get? slot = some c) (vs : List Value) :
    (perform r (.answerKept slot vs) s).1 = some (s.isWaiting c) ∧
      (perform r (.answerKept slot vs) s).2.actor? r = some { a with kept := a.kept.erase slot } ∧
      (s.isWaiting c = true → (perform r (.answerKept slot vs) s).2.result? c = some (.ok vs)) := by
  change (s.answerKept r slot vs).1 = _ ∧ (s.answerKept r slot vs).2.actor? r = _ ∧
    (_ → (s.answerKept r slot vs).2.result? c = _)
  have ht := Turns.put h { a with kept := a.kept.erase slot }
  rw [answerKept, takeKept, atActor_eq h, hk]
  dsimp only [answer]
  rw [settle_fst, settle_actor?]
  refine ⟨rfl, ht.actor?_self, fun hw => ?_⟩
  exact settle_answered (s := s.put r _) hw vs

end ActorSystem.System
