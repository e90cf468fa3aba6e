import ActorSystem.Proofs.Told
import ActorSystem.Proofs.Courses
import ActorSystem.Proofs.Enrolling

set_option autoImplicit false

namespace ActorSystem

variable {κ : Type}

def Ledger.Told (l : Ledger κ) : Prop := l.closing = true ∧ l.dormant = false

theorem Ledger.Ages.told {l l' : Ledger κ} (h : l.Ages l') (ht : l.Told) : l'.Told :=
  ⟨h.closing ht.1, h.roused ht.2⟩

namespace Machine

variable {code : κ → Invocation → Prog κ Unit} {m m' : Machine κ} {r : ActorRef} {l : Ledger κ}

theorem Reaches.fit (h : m.Reaches code m') (hf : m.books.Fit) : m'.books.Fit := by
  obtain ⟨mvs, rfl⟩ := h
  exact (play_induction (P := fun _ _ => True) (fun _ _ _ _ _ _ _ _ => trivial) mvs hf (h := [])
    trivial).1

theorem Reaches.ages (h : m.Reaches code m') (hf : m.books.Fit)
    (hl : m.system.ledger r = some l) : ∃ l', m'.system.ledger r = some l' ∧ l.Ages l' := by
  obtain ⟨mvs, rfl⟩ := h
  induction mvs generalizing m l with
  | nil => exact ⟨l, hl, id, id, id⟩
  | cons mv mvs ih =>
    have hstep := step_books code m mv hf
    obtain ⟨l₁, hl₁, hages⟩ := hstep.ages hf hl
    obtain ⟨l', hl', hages'⟩ := ih (hstep.fit hf) hl₁
    exact ⟨l', hl', hages'.roused ∘ hages.roused, hages'.closing ∘ hages.closing,
      hages'.closed ∘ hages.closed⟩

end Machine

namespace System

open Machine (resting Reaches)

variable {code : κ → Invocation → Prog κ Unit} {limit : Nat} {s s' : System κ} {r : ActorRef}

def Told (s : System κ) : Prop := ∀ r l, s.ledger r = some l → l.Told

def Closed (s : System κ) (r : ActorRef) : Prop := ∃ l, s.ledger r = some l ∧ l.closed = true

theorem exists_ledger (hr : r < s.actors.size) : ∃ l, s.ledger r = some l :=
  ⟨s.actors[r].ledger, by simp [ledger, actor?, hr]⟩

theorem lt_of_ledger {l : Ledger κ} (hl : s.ledger r = some l) : r < s.actors.size := by
  obtain ⟨a, ha, -⟩ := ledger_elim hl
  exact (Array.getElem?_eq_some_iff.1 ha).1

theorem Shrinks.size (h : Shrinks s s') : s'.actors.size = s.actors.size := by
  refine Nat.le_antisymm (Nat.not_lt.1 fun hlt => ?_) (Nat.not_lt.1 fun hlt => ?_)
  · obtain ⟨l', hl'⟩ := exists_ledger hlt
    have hrel := h s.actors.size
    rw [hl'] at hrel
    cases hl : s.ledger s.actors.size with
    | none =>
      rw [hl] at hrel
      cases hrel
    | some l => exact Nat.lt_irrefl _ (lt_of_ledger hl)
  · obtain ⟨l, hl⟩ := exists_ledger hlt
    obtain ⟨l', hl', -⟩ := h.some hl
    exact Nat.lt_irrefl _ (lt_of_ledger hl')

theorem told_of_reaches (h : (resting s).Reaches code (resting s')) (hf : (resting s).books.Fit)
    (hsize : s'.actors.size = s.actors.size) (ht : s.Told) : s'.Told := by
  intro r l' hl'
  obtain ⟨l, hl⟩ := exists_ledger (hsize ▸ lt_of_ledger hl')
  obtain ⟨l₁, hl₁, hages⟩ := h.ages hf hl
  obtain rfl := Option.some.inj (hl₁.symm.trans hl')
  exact hages.told (ht r l hl)

theorem closed_of_reaches (h : (resting s).Reaches code (resting s')) (hf : (resting s).books.Fit)
    (hc : s.Closed r) : s'.Closed r := by
  obtain ⟨l, hl, hclosed⟩ := hc
  obtain ⟨l', hl', hages⟩ := h.ages hf hl
  exact ⟨l', hl', hages.closed hclosed⟩

theorem Told.alive_or (ht : s.Told) (hr : r < s.actors.size) :
    s.Closed r ∨ s.hasTurn true r = true := by
  obtain ⟨l, hl⟩ := exists_ledger hr
  obtain ⟨a, ha, rfl⟩ := ledger_elim hl
  have hdormant : a.dormant = false := (ht r _ hl).2
  cases hclosed : a.ledger.closed with
  | true => exact .inl ⟨_, hl, hclosed⟩
  | false =>
    refine .inr ?_
    have hopen : a.phase ≠ .closed := fun h => by simp [Actor.ledger, h] at hclosed
    simp [hasTurn, ask_eq ha, Actor.alive, hdormant, hopen]

theorem turn_size (hend : turn code limit r s = some s') : s'.actors.size = s.actors.size := by
  have hbeats : Beats (fun _ => True) r s s' := turn_beats limit (fun _ _ _ _ => trivial) hend
  exact hbeats.keeps (P := fun t => t.actors.size = s.actors.size)
    (fun _ _ hp hb => (Machine.size_of_outline hb.outline).trans hp) rfl

theorem close_ledger {a : Actor κ} (ha : s.actor? r = some a) :
    ∃ l, (s.close r).ledger = Function.update s.ledger r (some l) ∧ l.Told := by
  cases hd : a.dormant with
  | true =>
    rw [close_dormant ha hd]
    have hput := Turns.put ha { a with
      dormant := false, closing := true, stirred := true, phase := .closed }
    have hdiscard := discard_turns hput.actor?_self
    exact ⟨_, (hput.trans hdiscard).ledger, rfl, rfl⟩
  | false =>
    rw [close_awake ha hd]
    exact ⟨_, (Turns.put ha _).ledger, rfl, hd⟩

theorem closes_told (rs : List ActorRef) (s : System κ) {l : Ledger κ}
    (hl : s.ledger r = some l) (h : r ∈ rs ∨ l.Told) :
    ∃ l', (rs.foldl close s).ledger r = some l' ∧ l'.Told := by
  induction rs generalizing s l with
  | nil => exact ⟨l, hl, h.resolve_left List.not_mem_nil⟩
  | cons r' rs ih =>
    cases ha : s.actor? r' with
    | none =>
      have hsame : s.close r' = s := close_absent ha
      have hne : r ≠ r' := fun heq => by
        obtain ⟨a, ha', -⟩ := ledger_elim hl
        rw [heq, ha] at ha'
        cases ha'
      rw [List.foldl_cons, hsame]
      exact ih s hl (h.imp_left fun hmem => (List.mem_cons.1 hmem).resolve_left hne)
    | some a =>
      obtain ⟨l₁, hledger, ht⟩ := close_ledger ha
      by_cases hr : r = r'
      · subst hr
        exact ih _ (by rw [hledger, Function.update_self]) (.inr ht)
      · refine ih _ (by rw [hledger, Function.update_of_ne hr]; exact hl) ?_
        exact h.imp_left fun hmem => (List.mem_cons.1 hmem).resolve_left hr

theorem closeAll_told (s : System κ) : s.closeAll.Told := by
  intro r l hl
  have hsize := Machine.size_of_outline s.closeAll_outline
  obtain ⟨l₀, hl₀⟩ := exists_ledger (hsize ▸ lt_of_ledger hl)
  obtain ⟨l', hl', ht⟩ := closes_told s.refs s hl₀ (.inl (List.mem_range.2 (lt_of_ledger hl₀)))
  obtain rfl := Option.some.inj (hl'.symm.trans hl)
  exact ht

/-- The turn of an actor that has been told to close ends, and closes it. -/
theorem turn_of_told (hlimit : 0 < limit) (hf : (resting s).books.Fit) (hq : s.Quiet)
    {l : Ledger κ} (hl : s.ledger r = some l) (ht : l.Told) (hopen : l.closed = false) :
    ∃ s', turn code limit r s = some s' ∧ (resting s).Reaches code (resting s') ∧ s'.Quiet ∧
      s'.actors.size = s.actors.size ∧ s'.Closed r := by
  have halive : s.Alive r := ⟨l, hl, by simp [Ledger.alive, ht.2, hopen]⟩
  obtain ⟨a, ha, rfl⟩ := ledger_elim hl
  obtain ⟨s', hs'⟩ : ∃ s', turn code limit r s = some s' :=
    Option.isSome_iff_exists.1 (turn_ends limit hq halive ha ht.1 hlimit)
  obtain ⟨hreach, hq'⟩ := turn_leads limit s halive hs' hq
  obtain ⟨l', hl', hages⟩ := hreach.ages hf hl
  obtain ⟨a', ha', rfl⟩ := ledger_elim hl'
  have hphase := turn_closes limit hq halive hs' ha' (hages.closing ht.1)
  exact ⟨s', hs', hreach, hq', turn_size hs', _, hl', Actor.ledger_closed.2 hphase⟩

/-- A pass over actors that have all been told to close ends, and closes them. -/
theorem pass_closes (hlimit : 0 < limit) (rs : List ActorRef) (hf : (resting s).books.Fit)
    (hq : s.Quiet) (ht : s.Told) :
    ∃ s', pass (turn code limit) true rs s = some s' ∧ (resting s).Reaches code (resting s') ∧
      s'.Quiet ∧ s'.actors.size = s.actors.size ∧ (∀ r, s.Closed r → s'.Closed r) ∧
      ∀ r ∈ rs, r < s.actors.size → s'.Closed r := by
  induction rs generalizing s with
  | nil => exact ⟨s, rfl, .refl _, hq, rfl, fun _ h => h, by simp⟩
  | cons r rs ih =>
    have hpass : pass (turn code limit) true (r :: rs) s =
        if s.hasTurn true r then (turn code limit r s).bind (pass (turn code limit) true rs)
        else pass (turn code limit) true rs s := rfl
    rw [hpass]
    cases hturn : s.hasTurn true r with
    | false =>
      obtain ⟨s', hend, hreach, hq', hsize, hkeep, hclosed⟩ := ih hf hq ht
      refine ⟨s', by simpa using hend, hreach, hq', hsize, hkeep, fun r' hr' hlt => ?_⟩
      rcases List.mem_cons.1 hr' with rfl | hmem
      · rcases ht.alive_or hlt with h | h
        · exact hkeep _ h
        · rw [hturn] at h
          cases h
      · exact hclosed r' hmem hlt
    | true =>
      obtain ⟨l, hl, halive⟩ := alive_of_hasTurn hturn
      obtain ⟨s₁, hs₁, hreach₁, hq₁, hsize₁, hfirst⟩ :=
        turn_of_told hlimit hf hq hl (ht r l hl) (Ledger.alive_elim halive).2
      have ht₁ : s₁.Told := told_of_reaches hreach₁ hf hsize₁ ht
      obtain ⟨s', hend, hreach, hq', hsize, hkeep, hclosed⟩ := ih (hreach₁.fit hf) hq₁ ht₁
      refine ⟨s', by simpa [hs₁] using hend, hreach₁.trans hreach, hq', hsize.trans hsize₁,
        fun r' h => hkeep r' (closed_of_reaches hreach₁ hf h), fun r' hr' hlt => ?_⟩
      rcases List.mem_cons.1 hr' with rfl | hmem
      · exact hkeep _ hfirst
      · exact hclosed r' hmem (hsize₁ ▸ hlt)

/-- Once everybody has been told to close, a run pass ends, and it ends everybody. -/
theorem run_closes (hlimit : 0 < limit) (hf : (resting s).books.Fit) (hq : s.Quiet) (ht : s.Told) :
    ∃ s', s.run code limit = some s' ∧ (resting s).Reaches code (resting s') ∧
      s'.actors.size = s.actors.size ∧ ∀ r < s.actors.size, s'.Closed r := by
  obtain ⟨s', hend, hreach, hq', hsize, -, hclosed⟩ := pass_closes hlimit s.refs hf hq ht
  have hall : ∀ r < s.actors.size, s'.Closed r := fun r hr => hclosed r (List.mem_range.2 hr) hr
  refine ⟨s', ?_, hreach, hsize, hall⟩
  have hcalm : s'.restless = false := by
    rw [restless, List.any_eq_false]
    intro r hr
    obtain ⟨l, hl, hc⟩ := hall r (hsize ▸ List.mem_range.1 hr)
    obtain ⟨a, ha, rfl⟩ := ledger_elim hl
    simp [ask_eq ha, Actor.alive, Actor.ledger_closed.1 hc]
  obtain ⟨limit, rfl⟩ := Nat.exists_eq_succ_of_ne_zero (Nat.ne_of_gt hlimit)
  rw [run, takeTurns, hend, Option.bind_some, settleDown, hcalm]
  rfl

theorem dispatches_batches (code : κ → Invocation → Prog κ Unit) (rs : List ActorRef)
    (s : System κ) :
    ∃ s', (resting s).Reaches code (resting s') ∧ Shrinks s s' ∧
      ∀ r ∈ rs, ∀ l, s'.ledger r = some l → l.batch = [] := by
  induction rs generalizing s with
  | nil => exact ⟨s, .refl _, .refl s, by simp⟩
  | cons r rs ih =>
    cases hl : s.ledger r with
    | none =>
      obtain ⟨s', hreach, hs, hempty⟩ := ih s
      refine ⟨s', hreach, hs, fun r' hr' l hl' => ?_⟩
      rcases List.mem_cons.1 hr' with rfl | hmem
      · have hrel := hs r'
        rw [hl, hl'] at hrel
        cases hrel
      · exact hempty r' hmem l hl'
    | some l =>
      let s₁ := s.dispatchMany code r l.batch.length
      obtain ⟨hs₁, l₁, hl₁, hbatch⟩ := dispatchMany_shrinks code l.batch.length s hl
      obtain ⟨s', hreach, hs, hempty⟩ := ih s₁
      refine ⟨s', (Machine.dispatchMany_reaches _ s r).trans hreach, hs₁.trans hs,
        fun r' hr' l' hl' => ?_⟩
      rcases List.mem_cons.1 hr' with rfl | hmem
      · obtain ⟨l₂, hl₂, hshrinks⟩ := hs.some hl₁
        obtain rfl := Option.some.inj (hl₂.symm.trans hl')
        have hnone := hshrinks.batch
        rw [Nat.sub_self, Nat.le_zero] at hbatch
        rw [hbatch] at hnone
        exact List.length_eq_zero_iff.1 (Nat.le_zero.1 hnone)
      · exact hempty r' hmem l' hl'

end System

namespace Machine

open ActorSystem.System (Shrinks)

variable {code : κ → Invocation → Prog κ Unit} {m : Machine κ}

def Parked (m : Machine κ) : Prop := ∀ r, m.mode r = .ready → m.todo r = .pure ()

theorem Parked.runs (hp : m.Parked) {self : ActorRef} {mode : Mode κ} {p : Prog κ Unit}
    {s : System κ} (hself : mode = .ready → p = .pure ()) : (m.runs self mode p s).Parked := by
  intro r h
  by_cases hr : r = self
  · subst hr
    simp only [Machine.runs, Function.update_self] at h ⊢
    exact hself h
  · simp only [Machine.runs, Function.update_of_ne hr] at h ⊢
    exact hp r h

theorem Parked.step (code : κ → Invocation → Prog κ Unit) (hp : m.Parked) (mv : Move κ) :
    (m.step code mv).2.Parked := by
  cases mv with
  | wake self | take self =>
    simp only [Machine.step]
    split <;> exact hp
  | dispatch self =>
    simp only [Machine.step, begin]
    split
    · split
      · exact hp
      · exact hp.runs (by simp)
    · exact hp
  | proceed self =>
    simp only [Machine.step, proceed]
    split
    · exact hp
    · rename_i o next htodo hnot
      exact hp.runs fun h => absurd h hnot
    all_goals exact hp.runs fun _ => rfl
  | fire self =>
    simp only [Machine.step, fire]
    split
    · generalize m.system.atActor self none _ = p
      obtain ⟨_ | e, s⟩ := p
      · exact hp
      · exact hp.runs (by simp)
    · exact hp
  | dismantle self =>
    simp only [Machine.step, dismantle]
    split <;> exact hp
  | _ => exact hp

def closure (mode : Mode κ) (r : ActorRef) (returned : Bool) (s : System κ) : System κ :=
  match mode with
  | .ready => s
  | .handling _ => s.afterEvent r returned
  | .firing => s.afterTimer r returned

theorem closure_shrinks (mode : Mode κ) {r : ActorRef} {a : Actor κ} (returned : Bool)
    {s : System κ} (ha : s.actor? r = some a) : Shrinks s (closure mode r returned s) := by
  have hevent : Shrinks s ((s.reset r).update r fun a => { a with processed := a.processed + 1 }) :=
    (System.reset_shrinks ha).trans (System.update_shrinks r _ fun _ => .of_same rfl rfl rfl rfl)
  have htimers := System.Turns.update ha fun a => { a with timers := a.timers.finish }
  have hfinish := Shrinks.turns ha htimers (.of_same rfl rfl rfl rfl)
  cases mode with
  | ready => exact .refl s
  | handling e =>
    cases returned with
    | false => exact System.recover_shrinks ha
    | true => exact hevent
  | firing =>
    cases returned with
    | false => exact System.recover_shrinks ha
    | true => exact hfinish.trans (System.reset_shrinks htimers.actor?_self)

theorem finishes (code : κ → Invocation → Prog κ Unit) (hf : m.books.Fit) (hp : m.Parked)
    (r : ActorRef) : ∃ s, m.Reaches code (m.halts r s) ∧ Shrinks m.system s := by
  have hself : m.runs r (m.mode r) (m.todo r) m.system = m := by
    unfold Machine.runs
    rw [Function.update_eq_self, Function.update_eq_self]
  by_cases hmode : m.mode r = .ready
  · refine ⟨m.system, ?_, .refl _⟩
    rw [hmode, hp r hmode] at hself
    rw [halts, hself]
    exact .refl m
  · obtain ⟨l, hl⟩ : ∃ l, m.system.ledger r = some l := by
      refine Option.ne_none_iff_exists'.1 fun hnone => hmode (hf.absent r hnone)
    have hrun : Shrinks m.system (System.exec r (m.todo r) m.system).2 := .exec _ _
    obtain ⟨l₁, hl₁, -⟩ := hrun.some hl
    obtain ⟨a₁, ha₁, -⟩ := System.ledger_elim hl₁
    have hexec : (m.runs r (m.mode r) (m.todo r) m.system).Reaches code _ :=
      exec_reaches (m.todo r) hmode m.system
    rw [hself] at hexec
    generalize System.exec r (m.todo r) m.system = q at hrun ha₁ hexec
    obtain ⟨result, s₁⟩ := q
    refine ⟨closure (m.mode r) r result.isSome s₁, hexec.trans (.step (.proceed r) ?_),
      hrun.trans (closure_shrinks _ _ ha₁)⟩
    cases hm : m.mode r with
    | ready => exact absurd hm hmode
    | handling e =>
      cases result <;>
        simp [step, proceed, ending, halts, Machine.runs, closure, System.afterEvent]
    | firing =>
      cases result <;>
        simp [step, proceed, ending, halts, Machine.runs, closure, System.afterTimer]

theorem all_finish (code : κ → Invocation → Prog κ Unit) (rs : List ActorRef) (hf : m.books.Fit)
    (hp : m.Parked) :
    ∃ m', m.Reaches code m' ∧ Shrinks m.system m'.system ∧ m'.Parked ∧
      (∀ r, m.mode r = .ready → m'.mode r = .ready) ∧ ∀ r ∈ rs, m'.mode r = .ready := by
  induction rs generalizing m with
  | nil => exact ⟨m, .refl m, .refl _, hp, fun _ h => h, by simp⟩
  | cons r rs ih =>
    obtain ⟨s, hreach, hs⟩ := finishes code hf hp r
    have hhalts : (m.halts r s).Parked := hp.runs fun _ => rfl
    obtain ⟨m', hreach', hs', hp', hkeep, hready⟩ := ih (hreach.fit hf) hhalts
    have hsome : ∀ r', r' = r ∨ m.mode r' = .ready → (m.halts r s).mode r' = .ready := by
      intro r' h
      by_cases hr : r' = r
      · subst hr
        simp [halts, Machine.runs]
      · simpa [halts, Machine.runs, Function.update_of_ne hr] using h.resolve_left hr
    refine ⟨m', hreach.trans hreach', hs.trans hs', hp', fun r' h => hkeep r' (hsome r' (.inr h)),
      fun r' hr' => ?_⟩
    rcases List.mem_cons.1 hr' with rfl | hmem
    · exact hkeep _ (hsome _ (.inl rfl))
    · exact hready r' hmem

/-- Every machine can come to rest, with the code that runs and the batches brought to their ends. -/
theorem comes_to_rest (code : κ → Invocation → Prog κ Unit) (hf : m.books.Fit) (hp : m.Parked) :
    ∃ s, m.Reaches code (resting s) ∧ s.Quiet ∧ Shrinks m.system s := by
  obtain ⟨m₁, hreach₁, hs₁, hp₁, hkeep, hready⟩ := all_finish code m.system.refs hf hp
  have hall : ∀ r, m₁.mode r = .ready := by
    intro r
    by_cases hr : r < m.system.actors.size
    · exact hready r (List.mem_range.2 hr)
    · refine hkeep r (hf.absent r ?_)
      simp [books, booksWith, System.books, System.actor?, hr]
  have hrest : m₁ = resting m₁.system := by
    have hmode : m₁.mode = fun _ => .ready := funext hall
    have htodo : m₁.todo = fun _ => .pure () := funext fun r => hp₁ r (hall r)
    obtain ⟨s, mode, todo⟩ := m₁
    dsimp only at hmode htodo
    rw [hmode, htodo]
    rfl
  rw [hrest] at hreach₁
  obtain ⟨s, hreach, hs, hbatch⟩ := System.dispatches_batches code m₁.system.refs m₁.system
  refine ⟨s, hreach₁.trans hreach, fun r l hl => ?_, hs₁.trans hs⟩
  refine hbatch r (List.mem_range.2 ?_) l hl
  have hrel := hs r
  rw [hl] at hrel
  cases hl₁ : m₁.system.ledger r with
  | none =>
    rw [hl₁] at hrel
    cases hrel
  | some l₁ => exact System.lt_of_ledger hl₁

end Machine

end ActorSystem
