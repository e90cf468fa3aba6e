import ActorSystem.Proofs.Batching
import ActorSystem.Proofs.Told
import ActorSystem.Proofs.Strides

/-!
The last events of an actor. Once it is told to close nothing comes in any more, so that the loops
that empty its batch and its queue come to their ends, however its code tries to keep them busy.
-/

set_option autoImplicit false

namespace ActorSystem

variable {κ : Type}

/-- A loop comes to its end: its body is run as long as the test holds. -/
inductive LoopEnds {σ : Type} (test : σ → Bool) (body : σ → σ) : σ → σ → Prop where
  | done {s : σ} (h : test s = false) : LoopEnds test body s s
  | again {s t : σ} (h : test s = true) (rest : LoopEnds test body (body s) t) :
    LoopEnds test body s t

namespace EventQueue

variable {α : Type} {q : EventQueue α}

@[simp] theorem take_zero (q : EventQueue α) : q.take 0 = (.nothing, q) := by
  unfold take
  split
  · rfl
  · simp [lift, uncount, DoubleBuffer.take, Taken.nothing]

theorem pending_take_eq (hpending : q.pending = q.toList.length) (max : Nat) :
    (q.take max).2.pending = (q.take max).2.toList.length := by
  have hlength := congrArg List.length (q.take_append_toList max)
  rw [List.length_append] at hlength
  rw [pending_take, hpending]
  omega

theorem empty_of_nil {b : DoubleBuffer α} (h : b.toList = []) : b = .empty := by
  obtain ⟨read, write⟩ := b
  obtain ⟨rfl, hwrite⟩ : read = [] ∧ write.toList = [] := List.append_eq_nil_iff.1 h
  obtain rfl : write = #[] := by simpa using hwrite
  rfl

theorem take_rest (q : EventQueue α) (max : Nat) :
    (q.take max).2 =
      { q with buffer := (q.take max).2.buffer, pending := (q.take max).2.pending } := by
  unfold take
  split <;> rfl

theorem sweep_rest (n : Nat) (q : EventQueue α) :
    (q.sweep n).2 = { q with buffer := (q.sweep n).2.buffer, pending := (q.sweep n).2.pending } := by
  induction n generalizing q with
  | zero => rfl
  | succ n ih =>
    have htake := q.take_rest unlimited
    rcases sweep_cases n q with ⟨-, heq⟩ | ⟨-, heq⟩ <;> rw [heq]
    · exact htake
    · dsimp only
      rw [ih, htake]

theorem discard_empties (hpending : q.pending = q.toList.length) :
    q.discard.2 = { q with buffer := .empty, pending := 0 } := by
  obtain ⟨-, hnil, hzero⟩ := discard_eq hpending
  have hbuffer : q.discard.2.buffer = .empty := empty_of_nil hnil
  have hrest := sweep_rest (q.toList.length + 1) q
  change q.discard.2 = { q with buffer := q.discard.2.buffer, pending := q.discard.2.pending } at hrest
  rw [hrest, hbuffer, hzero]

theorem discard_take (hpending : q.pending = q.toList.length) (max : Nat) :
    (q.take max).2.discard.2 = q.discard.2 := by
  rw [discard_empties hpending, discard_empties (pending_take_eq hpending max), q.take_rest max]

theorem discard_of_nil (hpending : q.pending = q.toList.length) (hnil : q.toList = []) :
    q.discard.2 = q := by
  rw [discard_empties hpending]
  have hzero : q.pending = 0 := by rw [hpending, hnil]; rfl
  have hbuffer : q.buffer = .empty := empty_of_nil hnil
  rw [← hzero, ← hbuffer]

/-- A queue is emptied by taking from it until nothing comes, as much at a time as may be. -/
theorem discard_ends {max : Nat} (hmax : 0 < max) (hpending : q.pending = q.toList.length) :
    ∃ last, last.items = [] ∧
      LoopEnds (fun p : Taken α × EventQueue α => !p.1.items.isEmpty) (fun p => p.2.take max)
        (q.take max) (last, q.discard.2) := by
  induction hn : q.toList.length using Nat.strongRecOn generalizing q with
  | ind n ih =>
    subst hn
    cases hitems : (q.take max).1.items with
    | nil =>
      have hnil : q.toList = [] := by
        rcases take_nothing hitems with hneg | hzero | hnil
        · omega
        · omega
        · exact hnil
      refine ⟨(q.take max).1, hitems, ?_⟩
      have hsame : q.take max = ((q.take max).1, q.discard.2) := by
        rw [discard_of_nil hpending hnil]
        exact Prod.ext rfl (take_of_nil hnil max).2
      rw [← hsame]
      exact .done (by simp [hitems])
    | cons x xs =>
      have hlength := congrArg List.length (q.take_append_toList max)
      rw [hitems, List.length_append, List.length_cons] at hlength
      obtain ⟨last, hlast, hends⟩ :=
        ih _ (by omega) (pending_take_eq hpending max) rfl
      rw [discard_take hpending] at hends
      exact ⟨last, hlast, .again (by simp [hitems]) hends⟩

end EventQueue

def RestartPolicy.spared (policy : RestartPolicy) (returned : Bool) (rest : List (Event κ)) :
    List (Event κ) :=
  match returned, policy with
  | false, .dropBatch => []
  | _, _ => rest

theorem RestartPolicy.length_spared (policy : RestartPolicy) (returned : Bool)
    (rest : List (Event κ)) : (policy.spared returned rest).length ≤ rest.length := by
  unfold spared
  split <;> simp

namespace System

variable {s : System κ} {r : ActorRef} {a : Actor κ}

theorem afterEvent_batch (ha : s.actor? r = some a) (returned : Bool) :
    ∃ a', (s.afterEvent r returned).actor? r = some a' ∧
      a'.batch = s.config.restartPolicy.spared returned a.batch := by
  cases returned with
  | true => exact ⟨_, (afterEvent_does s r).self ha, rfl⟩
  | false =>
    refine ⟨_, (recover_does s r).self ha, ?_⟩
    cases s.config.restartPolicy <;> rfl

/-- A dispatch takes one event off the batch, also when it panics. -/
theorem dispatchNext_batch (code : κ → Invocation → Prog κ Unit) {e : Event κ}
    {rest : List (Event κ)} (ha : s.actor? r = some a) (hb : a.batch = e :: rest) :
    let p := (s.put r { a with batch := rest }).receive r e
    ∃ a', (s.dispatchNext code r).actor? r = some a' ∧
      a'.batch = s.config.restartPolicy.spared (exec r (p.1.prog code) p.2).1.isSome rest := by
  intro p
  have hput := Turns.put ha { a with batch := rest }
  have hreceive : Spares Actor.batch (s.put r { a with batch := rest }) p.2 :=
    receive_spares _ r e fun a => congrArg Ledger.batch (a.react_ledger e [])
  have hrun := hreceive.trans ((exec_spares r (p.1.prog code) p.2).coarsen Actor.batch)
  obtain ⟨a₁, ha₁, hb₁⟩ := hrun.some hput.actor?_self
  obtain ⟨a', ha', hb'⟩ := afterEvent_batch ha₁ (exec r (p.1.prog code) p.2).1.isSome
  rw [hrun.config, hb₁] at hb'
  refine ⟨a', ?_, hb'⟩
  rw [dispatchNext_cons code ha hb]
  exact ha'

theorem execute_refused (ha : s.actor? r = some a) (h : a.refuses = true) (self : ActorRef)
    (action : κ) (owned : List String) :
    s.execute self r action owned =
      (s.takeOwned self owned).2.giveUpAll (s.takeOwned self owned).1.values := by
  obtain ⟨a', ha', hrefuses⟩ : ∃ a', (s.takeOwned self owned).2.actor? r = some a' ∧
      a'.refuses = true := by
    have hdoes := takeOwned_does s self owned
    by_cases hr : r = self
    · subst hr
      exact ⟨_, hdoes.self ha, h⟩
    · exact ⟨a, (hdoes.other hr).trans ha, h⟩
  exact push_refused (accepts_refused ha' hrefuses) _

def hasBatch (r : ActorRef) (s : System κ) : Bool := s.ask r false fun a => !a.batch.isEmpty

/-- The loop over a batch ends with none left, in no more passes than there are events in it. -/
theorem dispatchMany_ends (code : κ → Invocation → Prog κ Unit) (n : Nat) (ha : s.actor? r = some a)
    (hn : a.batch.length ≤ n) :
    LoopEnds (hasBatch r) (dispatchNext code r) s (dispatchMany code r n s) ∧
      ∃ a', (dispatchMany code r n s).actor? r = some a' ∧ a'.batch = [] := by
  induction n generalizing s a with
  | zero =>
    have hnil : a.batch = [] := List.length_eq_zero_iff.1 (Nat.le_zero.1 hn)
    exact ⟨.done (by simp [hasBatch, ask_eq ha, hnil]), a, ha, hnil⟩
  | succ n ih =>
    cases hb : a.batch with
    | nil =>
      have hsame : s.dispatchNext code r = s := by simp only [dispatchNext, ha, hb]
      rw [dispatchMany, hsame]
      exact ih ha (by simp [hb])
    | cons e rest =>
      obtain ⟨a₁, ha₁, hb₁⟩ := dispatchNext_batch code ha hb
      have hless : a₁.batch.length ≤ n := by
        rw [hb₁]
        refine Nat.le_trans (RestartPolicy.length_spared _ _ rest) ?_
        simpa [hb] using hn
      obtain ⟨hends, hlast⟩ := ih ha₁ hless
      exact ⟨.again (by simp [hasBatch, ask_eq ha, hb]) hends, hlast⟩

structure BatchEnds (code : κ → Invocation → Prog κ Unit) (s : System κ) (r : ActorRef)
    (a : Actor κ) : Prop where
  pass : ∀ e rest, a.batch = e :: rest →
    let p := (s.put r { a with batch := rest }).receive r e
    ∃ a', (s.dispatchNext code r).actor? r = some a' ∧
      a'.batch = s.config.restartPolicy.spared (exec r (p.1.prog code) p.2).1.isSome rest
  loop : LoopEnds (hasBatch r) (dispatchNext code r) (s.takeBatch r).2 (s.processBatch code r).2
  empty : ∃ a', (s.processBatch code r).2.actor? r = some a' ∧ a'.batch = []

theorem batchEnds (code : κ → Invocation → Prog κ Unit) (ha : s.actor? r = some a) :
    BatchEnds code s r a := by
  have htaken := (takeBatch_does s r).self ha
  have hbatch : (s.processBatch code r).2 = dispatchMany code r
      (Act.take s.config.batchSize a).1.batch.length (s.takeBatch r).2 := by
    unfold processBatch
    dsimp only
    rw [ask_eq htaken]
  obtain ⟨hloop, hempty⟩ := dispatchMany_ends code _ htaken (Nat.le_refl _)
  rw [← hbatch] at hloop hempty
  exact ⟨fun e rest => dispatchNext_batch code ha, hloop, hempty⟩

end System

structure Actor.Sealed (q : EventQueue (Event κ)) (a : Actor κ) : Prop where
  mailbox : a.mailbox = q
  closing : a.closing = true
  dormant : a.dormant = false

theorem Op.Outcome.sealed {o : Op κ} {a a' : Actor κ} {q : EventQueue (Event κ)}
    (h : o.Outcome a a') (hs : a.Sealed q) : a'.Sealed q := by
  obtain ⟨hmailbox, hclosing, hdormant⟩ := hs
  cases h with
  | accept p hopen => simp [Actor.refuses, hclosing] at hopen
  | enlist hand e ho hopen => simp [Actor.refuses, hclosing] at hopen
  | close => exact ⟨hmailbox, rfl, hdormant⟩
  | start timers hnot => simp [hdormant] at hnot
  | cancel hnot => simp [hdormant] at hnot
  | _ => exact ⟨hmailbox, hclosing, hdormant⟩

namespace System

variable {s s' : System κ} {r r' : ActorRef} {a : Actor κ} {q : EventQueue (Event κ)}

def Sealed (s : System κ) (r : ActorRef) (q : EventQueue (Event κ)) : Prop :=
  ∃ a, s.actor? r = some a ∧ a.Sealed q

theorem Does.sealed {act : Act κ} (hd : Does act r' s s') (h : s.Sealed r q)
    (hact : ∀ a, a.Sealed q → (act a).1.Sealed q) : s'.Sealed r q := by
  obtain ⟨a, ha, hsealed⟩ := h
  by_cases hr : r = r'
  · subst hr
    exact ⟨_, hd.self ha, hact a hsealed⟩
  · exact ⟨a, (hd.other hr).trans ha, hsealed⟩

theorem push_sealed (h : s.Sealed r q) (e : Event κ) : (s.push r' e).Sealed r q := by
  obtain ⟨a, ha, hsealed⟩ := h
  by_cases hr : r = r'
  · subst hr
    have hrefuses : s.accepts r = false := by simp [accepts_eq ha, Actor.refuses, hsealed.closing]
    rw [push_refused hrefuses, giveUpAll_eq]
    exact ⟨a, ha, hsealed⟩
  · exact ⟨a, (push_other hr s e).trans ha, hsealed⟩

theorem perform_sealed (h : s.Sealed r q) (o : Op κ) : (perform r' o s).2.Sealed r q := by
  cases hcross : o.crosses r' with
  | true =>
    cases o with
    | execute target action owned =>
      have htaken : (s.takeOwned r' owned).2.Sealed r q :=
        (takeOwned_does s r' owned).sealed h fun _ hs => ⟨hs.mailbox, hs.closing, hs.dormant⟩
      exact push_sealed htaken _
    | _ => cases hcross
  | false => exact (perform_does r' hcross s).sealed h fun a => (o.act_outcome _ _ _ a).sealed

theorem exec_sealed {α : Type} (p : Prog κ α) (h : s.Sealed r q) :
    (exec r' p s).2.Sealed r q := by
  induction p generalizing s with
  | pure x => exact h
  | panic => exact h
  | op o next ih => exact ih _ (perform_sealed h o)

theorem afterEvent_sealed (h : s.Sealed r q) (returned : Bool) :
    (s.afterEvent r returned).Sealed r q := by
  cases returned with
  | true => exact (afterEvent_does s r).sealed h fun _ hs => ⟨hs.mailbox, hs.closing, hs.dormant⟩
  | false =>
    refine (recover_does s r).sealed h fun _ hs => ?_
    cases s.config.restartPolicy <;> exact ⟨hs.mailbox, hs.closing, hs.dormant⟩

theorem dispatchNext_sealed (code : κ → Invocation → Prog κ Unit) (h : s.Sealed r q) :
    (s.dispatchNext code r).Sealed r q := by
  obtain ⟨a, ha, hsealed⟩ := h
  cases hb : a.batch with
  | nil =>
    simp only [dispatchNext, ha, hb]
    exact ⟨a, ha, hsealed⟩
  | cons e rest =>
    obtain ⟨hdoes, -⟩ := opening_does ha hb
    rw [dispatchNext_cons code ha hb]
    refine afterEvent_sealed (exec_sealed _ ⟨_, hdoes.self ha, ?_⟩) _
    simp only [Act.begin, Act.opening, hb]
    rw [Actor.react_eq]
    exact ⟨hsealed.mailbox, hsealed.closing, hsealed.dormant⟩

theorem dispatchMany_sealed (code : κ → Invocation → Prog κ Unit) (n : Nat) (h : s.Sealed r q) :
    (s.dispatchMany code r n).Sealed r q := by
  induction n generalizing s with
  | zero => exact h
  | succ n ih => exact ih (dispatchNext_sealed code h)

/-- A batch takes from the queue what one look at it gives, and nothing else becomes of it. -/
theorem processBatch_sealed (code : κ → Invocation → Prog κ Unit) (h : s.Sealed r q) :
    (s.processBatch code r).1 = (q.take s.config.batchSize).1.items.length ∧
      (s.processBatch code r).2.Sealed r (q.take s.config.batchSize).2 ∧
      (s.processBatch code r).2.config = s.config := by
  obtain ⟨a, ha, rfl, hclosing, hdormant⟩ := h
  have htaken : (s.takeBatch r).2.Sealed r (a.mailbox.take s.config.batchSize).2 :=
    ⟨_, (takeBatch_does s r).self ha, rfl, hclosing, hdormant⟩
  refine ⟨?_, dispatchMany_sealed code _ htaken, ?_⟩
  · show (s.takeBatch r).1 = _
    rw [takeBatch_eq ha]
  · exact (dispatchMany_config code r _ _).trans (takeBatch_spares s r).config

/-- The drain of an actor that has been told to close ends: each batch but the last takes something
from a queue that does not grow. -/
theorem drain_ends (code : κ → Invocation → Prog κ Unit) (n : Nat) (h : s.Sealed r q)
    (hpending : q.pending = q.toList.length) (hn : q.toList.length < n) :
    LoopEnds (fun p : Nat × System κ => decide (0 < p.1)) (fun p => p.2.processBatch code r)
        (s.processBatch code r) (0, s.drain code r n) ∧
      ∃ a, (s.drain code r n).actor? r = some a ∧ a.batch = [] ∧
        a.mailbox.pending = a.mailbox.toList.length ∧
        (1 ≤ s.config.batchSize → a.mailbox.toList = []) := by
  induction n generalizing s q with
  | zero => exact absurd hn (Nat.not_lt_zero _)
  | succ n ih =>
    obtain ⟨hcount, hsealed, hconfig⟩ := processBatch_sealed code h
    obtain ⟨a₀, ha₀, -⟩ := h
    obtain ⟨a, ha, hbatch⟩ := (batchEnds code ha₀).empty
    have hpending' := EventQueue.pending_take_eq hpending s.config.batchSize
    have hlength := congrArg List.length (q.take_append_toList s.config.batchSize)
    rw [List.length_append, ← hcount] at hlength
    unfold drain
    generalize s.processBatch code r = p at hcount hsealed hconfig hlength ha ⊢
    obtain ⟨taken, s₁⟩ := p
    dsimp only at hcount hsealed hconfig hlength ha
    cases taken with
    | zero =>
      obtain ⟨a₁, ha₁, hmailbox, -⟩ := hsealed
      obtain rfl := Option.some.inj (ha₁.symm.trans ha)
      refine ⟨.done rfl, a₁, ha, hbatch, ?_, fun hsize => ?_⟩
      · rw [hmailbox, hpending']
      · have hitems := List.length_eq_zero_iff.1 hcount.symm
        have hnil : q.toList = [] := by
          rcases EventQueue.take_nothing hitems with hneg | hzero | hnil
          · omega
          · omega
          · exact hnil
        rw [hnil, List.length_nil] at hlength
        rw [hmailbox]
        exact List.length_eq_zero_iff.1 (by omega)
    | succ taken =>
      obtain ⟨hends, a', ha', hrest⟩ := ih hsealed hpending' (by omega)
      rw [hconfig] at hrest
      exact ⟨.again (by simp) hends, a', ha', hrest⟩

theorem processBatch_unbatched (code : κ → Invocation → Prog κ Unit) (ha : s.actor? r = some a)
    (hb : a.batch = []) (hsize : s.config.batchSize = 0) : s.processBatch code r = (0, s) := by
  have htake : s.takeBatch r = (0, s) := by
    rw [takeBatch_eq ha, hsize, EventQueue.take_zero]
    simp only [Taken.nothing, List.append_nil, List.length_nil]
    rw [put_self ha]
  unfold processBatch
  rw [htake]
  dsimp only
  rw [ask_eq ha, hb]
  rfl

/-- How an actor shuts down: `t` is what the drain leaves, with `a` the actor in it, and `a'` is the
actor at the end. -/
structure Shutdown (code : κ → Invocation → Prog κ Unit) (s t : System κ) (r : ActorRef)
    (a a' : Actor κ) : Prop where
  drain : LoopEnds (fun p : Nat × System κ => decide (0 < p.1)) (fun p => p.2.processBatch code r)
    (s.processBatch code r) (0, t)
  actor : t.actor? r = some a
  batch : a.batch = []
  drained : 1 ≤ s.config.batchSize → a.mailbox.toList = []
  undrained : s.config.batchSize = 0 → t = s
  discard : ∀ max, 0 < max → ∃ last, last.items = [] ∧
    LoopEnds (fun p : Taken (Event κ) × EventQueue (Event κ) => !p.1.items.isEmpty)
      (fun p => p.2.take max) (a.mailbox.take max) (last, a'.mailbox)
  shutdown : s.shutdown code r = t.dismantle r
  last : (s.shutdown code r).actor? r = some a'
  phase : a'.phase = .closed
  queue : a'.batch = [] ∧ a'.mailbox.toList = [] ∧ a'.mailbox.pending = 0
  reaches : s.Quiet → s.Alive r → (Machine.resting s).Reaches code (Machine.resting t)

theorem exists_shutdown (code : κ → Invocation → Prog κ Unit) (ha : s.actor? r = some a)
    (hclosing : a.closing = true) (hdormant : a.dormant = false) (hbatch : a.batch = [])
    (hpending : a.mailbox.pending = a.mailbox.toList.length) :
    ∃ t a₁ a', Shutdown code s t r a₁ a' := by
  let t := s.drain code r (a.mailbox.toList.length + 1)
  obtain ⟨hdrain, a₁, ha₁, hbatch₁, hpending₁, hnil⟩ :=
    drain_ends code _ ⟨a, ha, rfl, hclosing, hdormant⟩ hpending (Nat.lt_succ_self _)
  have hshutdown : s.shutdown code r = t.dismantle r := by
    unfold shutdown
    rw [ask_eq ha]
  have hlast : (s.shutdown code r).actor? r = some
      { a₁ with
        phase := .closed, agents := .empty, components := .empty, managers := .empty, kept := .empty,
        purses := [], mailbox := a₁.mailbox.discard.2 } := by
    rw [hshutdown, dismantle_actor? ha₁, Function.update_self]
  refine ⟨t, a₁, _, hdrain, ha₁, hbatch₁, hnil, fun hsize => ?_,
    fun max hmax => EventQueue.discard_ends hmax hpending₁, hshutdown, hlast, rfl,
    ⟨hbatch₁, (EventQueue.discard_eq hpending₁).2⟩, fun hq halive => ?_⟩
  · show s.drain code r (a.mailbox.toList.length + 1) = s
    rw [drain, processBatch_unbatched code ha hbatch hsize]
  · exact (drain_follows code _ s hq halive (ledger_intro ha) hclosing (Nat.lt_succ_self _)).1

end System

open Happening

def Happening.thrown : Happening κ → List (Event κ)
  | cancelled es => es
  | ended es => es
  | discarded es => es
  | _ => []

theorem Ledger.afterPanic_batch (config : Config) (l : Ledger κ) :
    (l.afterPanic config).batch.Sublist l.batch := by
  rcases Ledger.dropped_or config l with ⟨-, hb⟩ | ⟨-, hb⟩ <;> simp [hb]

/-- What a closing actor has left can only become less, by what comes to its code at least. -/
def Ledger.Dwindles (mode : Mode κ) (l : Ledger κ) (mode' : Mode κ) (l' : Ledger κ) : Prop :=
  (Mode.begun mode mode' ++ l'.batch ++ l'.inbox).Sublist (l.batch ++ l.inbox)

section

variable {config : Config} {mode mode' : Mode κ} {l l' : Ledger κ} {hs : List (Happening κ)}
  {xs : List (CallRef × CallState)} {ins outs : List CallRef}

theorem Ledger.Dwindles.same (hbatch : l'.batch = l.batch) (hinbox : l'.inbox.Sublist l.inbox) :
    l.Dwindles mode mode l' := by
  simpa [Ledger.Dwindles, hbatch] using hinbox

theorem Change.dwindles (hc : Change config mode l hs xs mode' l')
    (hnone : ∀ e, .put e ∉ l.legs) : l.Dwindles mode mode' l' := by
  cases hc with
  | begin e batch reply gone hfree hbatch hcall => simp [Ledger.Dwindles, Mode.begun, hbatch]
  | take items inbox halive hfree hbatch hinbox hsize hnone =>
    simp [Ledger.Dwindles, hbatch, hinbox]
  | panic e => exact (l.afterPanic_batch config).append_right l.inbox
  | timerPanic => exact (l.afterPanic_batch config).append_right l.inbox
  | dismantle gone rest halive hfree hbatch hclosing hnone hswept =>
    exact .same rfl (by simp [hswept.inbox])
  | fly before leg after next hlegs h =>
    cases h with
    | put e => exact absurd (by simp [hlegs]) (hnone e)
    | lift own es rest hinbox hes => exact .same rfl (by simp [hinbox])
    | _ => exact .same rfl (.refl _)
  | _ => simp [Ledger.Dwindles, Mode.begun, Ledger.board]

theorem Effect.dwindles (he : Effect mode l ins hs xs outs l') (hclosing : l.closing = true) :
    l.Dwindles mode mode l' := by
  have hrefuses : l.refuses = true := by simp [Ledger.refuses, hclosing]
  cases he with
  | accept e hcall hopen => simp [hrefuses] at hopen
  | cancel gone rest hd hswept => exact .same rfl (by simp [hswept.inbox])
  | _ => exact .same rfl (.refl _)

theorem pervades_dwindles (config : Config) :
    Pervades config fun mode (l : Ledger κ) _ mode' l' => l.closing = true →
      (∀ e, .put e ∉ l.legs) →
        l'.closing = true ∧ (∀ e, .put e ∉ l'.legs) ∧ l.Dwindles mode mode' l' where
  refl _ _ hclosing hnone := ⟨hclosing, hnone, .same rfl (.refl _)⟩
  trans h h' hclosing hnone := by
    obtain ⟨hclosing', hnone', hsub⟩ := h hclosing hnone
    obtain ⟨hclosing'', hnone'', hsub'⟩ := h' hclosing' hnone'
    refine ⟨hclosing'', hnone'', ?_⟩
    simp only [Ledger.Dwindles, Mode.begun_self, List.nil_append] at hsub hsub' ⊢
    exact hsub'.trans hsub
  reply _ _ _ _ hclosing hnone := ⟨hclosing, hnone, .same rfl (.refl _)⟩
  effect hf he hclosing hnone := by
    obtain ⟨hclosing', hshuts⟩ := (pervades_shuts config).effect hf he hclosing
    exact ⟨hclosing', fun e he => hnone e (hshuts.legs e he), he.dwindles hclosing⟩
  call e hopen := by
    have hrefuses : ∀ {l : Ledger κ}, l.closing = true → l.refuses = true := by
      intro l hclosing
      simp [Ledger.refuses, hclosing]
    constructor <;> exact fun hclosing => absurd (hopen.symm.trans (hrefuses hclosing)) Bool.noConfusion
  change hf hc hclosing hnone := by
    obtain ⟨hclosing', hshuts⟩ := (pervades_shuts config).change hf hc hclosing
    exact ⟨hclosing', fun e he => hnone e (hshuts.legs e he), hc.dwindles hnone⟩

end

theorem Books.Step.dwindles {b b' : Books κ} {forgets : Option (CallRef × CallState)}
    {h : History κ} {r : ActorRef} {l : Ledger κ} (hs : b.Step forgets h b') (hb : b.Fit)
    (hl : b.ledger r = some l) (hclosing : l.closing = true) (hnone : ∀ e, .put e ∉ l.legs) :
    ∃ l', b'.ledger r = some l' ∧ l'.closing = true ∧ (∀ e, .put e ∉ l'.legs) ∧
      (Mode.begun (b.mode r) (b'.mode r) ++ l'.batch ++ l'.inbox).Sublist (l.batch ++ l.inbox) := by
  obtain ⟨l', hl', hcase⟩ := hs.pervaded (pervades_dwindles b.config) hb hl
  exact ⟨l', hl', hcase hclosing hnone⟩

namespace Machine

variable {m : Machine κ} {h : History κ} {r : ActorRef}

theorem play_dwindles (code : κ → Invocation → Prog κ Unit) (mvs : List (Move κ)) (hf : m.books.Fit)
    {l : Ledger κ} (hl : m.books.ledger r = some l) (hclosing : l.closing = true)
    (hnone : ∀ e, .put e ∉ l.legs) (h : History κ) :
    ∃ es l', (play code mvs m).2.books.ledger r = some l' ∧ l'.closing = true ∧
      (play code mvs m).2.met (h ++ (play code mvs m).1) r = m.met h r ++ es ∧
      (es ++ l'.batch ++ l'.inbox).Sublist (l.batch ++ l.inbox) := by
  induction mvs generalizing m h l with
  | nil => exact ⟨[], l, hl, hclosing, by simp [play], by simp⟩
  | cons mv mvs ih =>
    have hstep := step_books code m mv hf
    obtain ⟨l₁, hl₁, hclosing₁, hnone₁, hsub₁⟩ := hstep.dwindles hf hl hclosing hnone
    obtain ⟨es, l', hl', hclosing', hmet, hsub⟩ :=
      ih (hstep.fit hf) hl₁ hclosing₁ hnone₁ (h ++ (m.step code mv).1)
    refine ⟨Mode.begun (m.mode r) ((m.step code mv).2.mode r) ++ es, l', hl', hclosing', ?_, ?_⟩
    · rw [play, ← List.append_assoc, hmet, met_step code mv hf, List.append_assoc]
    · have hrest := hsub.append_left (Mode.begun (m.mode r) ((m.step code mv).2.mode r))
      simp only [← List.append_assoc] at hrest
      exact hrest.trans hsub₁

/-- Without batches nothing ever comes to the code of an actor for an event. -/
theorem unbatched_seats (code : κ → Invocation → Prog κ Unit) (config : Config) (clock : Clock)
    (hsize : config.batchSize = 0) (mvs : List (Move κ)) :
    let run := play code mvs (resting (.new config clock))
    Seats (fun es _ => es = []) run.1 run.2 := by
  have hstart : Seats (fun es _ => es = []) [] (resting (.new config clock) : Machine κ) :=
    .start config clock
  refine hstart.play code (fun _ _ _ => rfl) ?_ mvs rfl
  rintro m r mv x y es hfit hstride rfl
  have hlength : x.actor.batch.length ≤ config.batchSize := hfit.batch
  rw [hsize, Nat.le_zero, List.length_eq_zero_iff] at hlength
  exact hstride.begun (.inr hlength)

/-- All that was taken in has been discarded, up to what is still queued. -/
theorem accepted_discarded {a : Actor κ} (ha : m.system.actor? r = some a) (hf : m.books.Fit)
    (hb : m.books.Accounted h) (hsize : m.system.config.batchSize = 0) (hmet : m.met h r = []) :
    acceptedIn (h.of r) = (h.of r).flatMap thrown ++ a.mailbox.toList := by
  have hl : m.books.ledger r = some a.ledger := System.ledger_intro ha
  have haccount := hb.account r _ hl
  have hbatch : a.ledger.batch = [] := by
    have hlength := (hf.ledger r _ hl).batch
    exact List.length_eq_zero_iff.1 (Nat.le_zero.1 (hsize ▸ hlength))
  obtain ⟨hhandled, hhand⟩ := List.append_eq_nil_iff.1 hmet
  have hhand' : (m.books.mode r).hand = [] := hhand
  have hconsumed : consumedIn (h.of r) = (h.of r).flatMap thrown := by
    refine List.flatMap_congr fun x hx => ?_
    have hnot : ∀ e, x.handled? ≠ some e := fun e he => by
      have hmem : e ∈ handledIn (h.of r) := List.mem_filterMap.2 ⟨x, hx, he⟩
      simp [hhandled] at hmem
    cases x with
    | completed e => exact absurd rfl (hnot e)
    | panicked e es => exact absurd rfl (hnot e)
    | timerPanicked es => exact haccount.timers es hx
    | _ => rfl
  rw [haccount.order, hhand', hbatch, hconsumed, List.append_nil, List.append_nil]
  rfl

/-- What is posted to the actor is dropped, and what is asked of it is refused. -/
structure Refuses (m : Machine κ) (r : ActorRef) (a : Actor κ) : Prop where
  post : ∀ self p, System.perform self (.post r p) m.system = ((), m.system)
  execute : ∀ self action owned, System.perform self (.execute r action owned) m.system =
    ((), (m.system.takeOwned self owned).2.giveUpAll (m.system.takeOwned self owned).1.values)
  call : ∀ self name args, System.perform self (.call r name args) m.system = ((), m.system)
  request : ∀ name args, m.system.request r name args = (.error (.actorClosed a.name), m.system)

/-- What a closing actor, here `a'`, dispatches in these moves are events that `a` had in its batch
and in its queue. -/
structure Dwindles (code : κ → Invocation → Prog κ Unit) (h : History κ) (m : Machine κ)
    (mvs : List (Move κ)) (r : ActorRef) (a a' : Actor κ) (es : List (Event κ)) : Prop where
  actor : (play code mvs m).2.system.actor? r = some a'
  closing : a'.closing = true
  met : (play code mvs m).2.met (h ++ (play code mvs m).1) r = m.met h r ++ es
  left : (es ++ a'.batch ++ a'.mailbox.toList).Sublist (a.batch ++ a.mailbox.toList)
  bound : es.length ≤ a.batch.length + a.mailbox.toList.length

structure RunsDry (code : κ → Invocation → Prog κ Unit) (h : History κ) (m : Machine κ) : Prop where
  refused : ∀ r a, m.system.actor? r = some a → a.closing = true → m.Refuses r a
  bounded : ∀ mvs r a, m.system.actor? r = some a → a.closing = true →
    ∃ a' es, Dwindles code h m mvs r a a' es
  batch : ∀ s r a, s.actor? r = some a → System.BatchEnds code s r a
  shutdown : ∀ r a, m.system.actor? r = some a → a.alive = true → a.closing = true → a.batch = [] →
    ∃ t a₁ a', System.Shutdown code m.system t r a₁ a'
  unbatched : ∀ r a, m.system.config.batchSize = 0 → m.system.actor? r = some a →
    m.met h r = [] ∧ acceptedIn (h.of r) = (h.of r).flatMap thrown ++ a.mailbox.toList
  runs : m.CoversRuns code

/-- Whatever the code of the actors tries, one that is told to close dispatches no more than it had
taken in by then, and its loops end with nothing left. -/
theorem runs_dry (code : κ → Invocation → Prog κ Unit) (config : Config) (clock : Clock)
    (mvs : List (Move κ)) :
    RunsDry code (play code mvs (resting (.new config clock))).1
      (play code mvs (resting (.new config clock))).2 := by
  obtain ⟨hf, hb, hconfig⟩ := books_accounted code config clock mvs
  have hseats := fun hsize => unbatched_seats code config clock hsize mvs
  generalize play code mvs (resting (.new config clock)) = run at hf hb hconfig hseats ⊢
  obtain ⟨h, m⟩ := run
  refine ⟨fun r a ha hclosing => ?_, fun mvs' r a ha hclosing => ?_, fun s r a => s.batchEnds code,
    ?_, fun r a hsize ha => ?_, m.coversRuns code⟩
  · have hrefuses : a.refuses = true := by simp [Actor.refuses, hclosing]
    have hclosed := System.accepts_refused ha hrefuses
    refine ⟨fun self p => ?_, fun self action owned => ?_, fun self name args => ?_,
      System.request_refused ha hrefuses⟩
    · exact Prod.ext rfl (System.post_refused hclosed p)
    · exact Prod.ext rfl (System.execute_refused ha hrefuses self action owned)
    · exact Prod.ext rfl (System.post_refused hclosed _)
  · obtain ⟨es, l', hl', hclosing', hmet, hsub⟩ :=
      play_dwindles code mvs' hf (System.ledger_intro ha) hclosing (by simp [Actor.ledger]) h
    obtain ⟨a', ha', rfl⟩ := System.ledger_elim hl'
    refine ⟨a', es, ha', hclosing', hmet, hsub, ?_⟩
    have hlength := hsub.length_le
    simp only [Actor.ledger, Actor.ledgerWith, List.length_append] at hlength
    omega
  · intro r a ha halive hclosing hbatch
    have hfit := hf.ledger r _ (System.ledger_intro ha)
    have hdormant : a.dormant = false := (Ledger.alive_elim (l := a.ledger) halive).1
    exact System.exists_shutdown code ha hclosing hdormant hbatch (pending_of_fit hfit)
  · have hmet := (hseats (hconfig ▸ hsize)).seat r _ (seat_eq ha)
    exact ⟨hmet, accepted_discarded ha hf hb hsize hmet⟩

end Machine

end ActorSystem
