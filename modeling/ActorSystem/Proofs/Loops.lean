import ActorSystem.Proofs.Ledgers
import ActorSystem.System.Watched
import Mathlib.Data.Option.Basic

/-!
The loops of the actors, each run to its end before the next begins, are plays of the machine.
-/

set_option autoImplicit false

namespace ActorSystem

/-- Neither the batch nor the mailbox of an actor that is told to close has grown, and the actor is
still alive. -/
structure Ledger.Shrinks {κ : Type} (l l' : Ledger κ) : Prop where
  batch : l'.batch.length ≤ l.batch.length
  alive : l.alive = true → l'.alive = true
  closing : l.closing = true → l'.closing = true ∧ l'.inbox.length ≤ l.inbox.length

namespace Ledger.Shrinks

variable {κ : Type} {l l' l'' : Ledger κ}

theorem refl (l : Ledger κ) : l.Shrinks l := ⟨Nat.le_refl _, id, fun hc => ⟨hc, Nat.le_refl _⟩⟩

theorem trans (h : l.Shrinks l') (h' : l'.Shrinks l'') : l.Shrinks l'' := by
  refine ⟨Nat.le_trans h'.batch h.batch, fun ha => h'.alive (h.alive ha), fun hc => ?_⟩
  obtain ⟨hc', hle⟩ := h.closing hc
  obtain ⟨hc'', hle'⟩ := h'.closing hc'
  exact ⟨hc'', Nat.le_trans hle' hle⟩

theorem of_same (hbatch : l'.batch = l.batch) (halive : l'.alive = l.alive)
    (hclosing : l'.closing = l.closing) (hinbox : l'.inbox = l.inbox) : l.Shrinks l' := by
  refine ⟨Nat.le_of_eq (congrArg _ hbatch), fun ha => halive.trans ha, fun hc => ?_⟩
  exact ⟨hclosing.trans hc, Nat.le_of_eq (congrArg _ hinbox)⟩

end Ledger.Shrinks

theorem Effect.shrinks {κ : Type} {mode : Mode κ} {l l' : Ledger κ} {ins outs : List CallRef}
    {hs : List (Happening κ)} {xs : List (CallRef × CallState)} (he : Effect mode l ins hs xs outs l') :
    l.Shrinks l' := by
  cases he with
  | cancel gone rest hd hswept =>
    have hlength := congrArg List.length hswept.inbox
    rw [List.length_append] at hlength
    refine ⟨Nat.le_refl _, fun ha => ?_, fun _ => ⟨rfl, by dsimp only; omega⟩⟩
    simp [Ledger.alive, hd] at ha
  | _ => constructor <;> simp_all [Ledger.accept, Ledger.board, Ledger.refuses, Ledger.alive]

section

variable {κ : Type}

variable {R : Ledger κ → Ledger κ → Prop}

theorem related_refl (hrefl : ∀ l, R l l) (x : Option (Ledger κ)) : Option.Rel R x x := by
  cases x with
  | none => exact .none
  | some l => exact .some (hrefl l)

theorem related_trans (htrans : ∀ l l' l'', R l l' → R l' l'' → R l l'') {x y z : Option (Ledger κ)}
    (h : Option.Rel R x y) (h' : Option.Rel R y z) : Option.Rel R x z := by
  cases h with
  | none =>
    cases h'
    exact .none
  | some h =>
    cases h' with
    | some h' => exact .some (htrans _ _ _ h h')

/-- What every effect does to the ledger that it is on, all that code does does to all ledgers. -/
theorem Books.Deal.relates (hrefl : ∀ l, R l l) (htrans : ∀ l l' l'', R l l' → R l' l'' → R l l'')
    (heffect : ∀ {mode l l' ins hs xs outs}, Effect mode l ins hs xs outs l' → R l l')
    {b b' : Books κ} {h : History κ} (hd : b.Deal h b') (r : ActorRef) :
    Option.Rel R (b.ledger r) (b'.ledger r) := by
  induction hd with
  | shuffle | waste | reply => exact related_refl hrefl _
  | @act b l _ _ _ _ l' r' taken abroad hl he =>
    by_cases hr : r = r'
    · subst hr
      simpa [Books.act, hl] using Option.Rel.some (heffect he)
    · simpa [Books.act, Function.update_of_ne hr] using related_refl hrefl _
  | both _ _ ih ih' => exact related_trans htrans ih ih'

end

namespace System

variable {κ : Type} {s s' s'' : System κ} {r : ActorRef}

/-- Every actor is the same or has shrunk, and none has come. -/
def Shrinks (s s' : System κ) : Prop := ∀ r, Option.Rel Ledger.Shrinks (s.ledger r) (s'.ledger r)

/-- No actor has a batch left. -/
def Quiet (s : System κ) : Prop := ∀ r l, s.ledger r = some l → l.batch = []

theorem quiet_new (config : Config) (clock : Clock) : (new config clock : System κ).Quiet := by
  intro r l hl
  simp [ledger, actor?, new] at hl

namespace Shrinks

theorem refl (s : System κ) : Shrinks s s := fun _ => related_refl .refl _

theorem trans (h : Shrinks s s') (h' : Shrinks s' s'') : Shrinks s s'' := fun r =>
  related_trans (fun _ _ _ => .trans) (h r) (h' r)

theorem some (h : Shrinks s s') {l : Ledger κ} (hl : s.ledger r = some l) :
    ∃ l', s'.ledger r = Option.some l' ∧ l.Shrinks l' := by
  have h₁ := h r
  rw [hl] at h₁
  generalize s'.ledger r = y at h₁
  cases h₁ with
  | some h₁ => exact ⟨_, rfl, h₁⟩

theorem quiet (h : Shrinks s s') (hq : s.Quiet) : s'.Quiet := by
  intro r l' hl'
  have h₁ := h r
  rw [hl'] at h₁
  generalize hx : s.ledger r = x at h₁
  cases h₁ with
  | some h₁ =>
    have hb := h₁.batch
    rw [hq r _ hx] at hb
    exact List.length_eq_zero_iff.1 (Nat.le_zero.1 hb)

theorem turns {a a' : Actor κ} {xs : List (CallRef × CallState)} (h : s.actor? r = Option.some a)
    (ht : Turns s s' r a' xs) (hl : a.ledger.Shrinks a'.ledger) : Shrinks s s' := by
  intro r'
  rw [ht.ledger]
  by_cases hr : r' = r
  · subst hr
    simpa [System.ledger, h] using Option.Rel.some hl
  · rw [Function.update_of_ne hr]
    exact refl s r'

theorem perform (s : System κ) (o : Op κ) : Shrinks s (System.perform r o s).2 := by
  have hd : (s.books (fun _ => .firing) fun _ => []).Deal (s.heard r o)
      ((System.perform r o s).2.books (fun _ => .firing) fun _ => []) :=
    perform_deal s (.inr (by simp)) o
  exact hd.relates .refl (fun _ _ _ => .trans) Effect.shrinks

theorem exec {α : Type} (p : Prog κ α) (s : System κ) : Shrinks s (System.exec r p s).2 := by
  induction p generalizing s with
  | pure x => exact refl s
  | panic => exact refl s
  | op o next ih => exact (perform s o).trans (ih _ _)

end Shrinks

end System

namespace System

variable {κ : Type} {s s' : System κ} {r : ActorRef} {a : Actor κ}

def Alive (s : System κ) (r : ActorRef) : Prop := ∃ l, s.ledger r = some l ∧ l.alive = true

theorem Shrinks.alive (h : Shrinks s s') (ha : s.Alive r) : s'.Alive r := by
  obtain ⟨l, hl, halive⟩ := ha
  obtain ⟨l', hl', hs⟩ := h.some hl
  exact ⟨l', hl', hs.alive halive⟩

theorem ledger_elim {l : Ledger κ} (h : s.ledger r = some l) :
    ∃ a, s.actor? r = some a ∧ a.ledger = l := by
  simpa [ledger] using h

theorem ledger_intro (h : s.actor? r = some a) : s.ledger r = some a.ledger := by
  simp [ledger, h]

theorem update_shrinks (r : ActorRef) (f : Actor κ → Actor κ)
    (hf : ∀ a : Actor κ, a.ledger.Shrinks (f a).ledger) : Shrinks s (s.update r f) := by
  cases h : s.actor? r with
  | none =>
    rw [update_absent h]
    exact .refl s
  | some a => exact .turns h (.update h f) (hf a)

theorem reset_shrinks (h : s.actor? r = some a) : Shrinks s (s.reset r) :=
  .turns h (reset_turns h) (.of_same rfl rfl rfl rfl)

theorem recover_shrinks (h : s.actor? r = some a) : Shrinks s (s.recover r) := by
  obtain ⟨a', hl, -, ht⟩ := recover_turns h
  refine .turns h ht ?_
  rw [hl]
  constructor
  · rcases Ledger.dropped_or s.config a.ledger with ⟨-, hb⟩ | ⟨-, hb⟩ <;> simp [hb]
  · intro halive
    simp [Ledger.alive, Ledger.afterPanic, (Ledger.alive_elim halive).1]
  · exact fun hc => ⟨hc, Nat.le_refl _⟩

theorem receive_shrinks (h : s.actor? r = some a) (e : Event κ) :
    Shrinks s (s.receive r e).2 := by
  have hledger := a.react_ledger e []
  refine .turns h (receive_turns h e) (.of_same ?_ ?_ ?_ ?_) <;>
    simp [Actor.ledger, hledger, Ledger.alive]

/-- A dispatch takes one event off the batch, if there is one. -/
theorem dispatchNext_shrinks (code : κ → Invocation → Prog κ Unit) (s : System κ) {l : Ledger κ}
    (hl : s.ledger r = some l) :
    Shrinks s (s.dispatchNext code r) ∧
      ∃ l', (s.dispatchNext code r).ledger r = some l' ∧
        l'.batch.length ≤ l.batch.length - 1 := by
  obtain ⟨a, ha, rfl⟩ := ledger_elim hl
  cases hbatch : a.batch with
  | nil =>
    simp only [dispatchNext, ha, hbatch]
    exact ⟨.refl s, a.ledger, hl, by simp [Actor.ledger, hbatch]⟩
  | cons e rest =>
    have h₀ := Turns.put ha { a with batch := rest }
    have hput : Shrinks s (s.put r { a with batch := rest }) :=
      .turns ha h₀ ⟨by simp [Actor.ledger, hbatch], id, fun hc => ⟨hc, Nat.le_refl _⟩⟩
    have hrest : Shrinks (s.put r { a with batch := rest }) (s.dispatchNext code r) := by
      simp only [dispatchNext, ha, hbatch, dispatch_eq]
      have hrun := (receive_shrinks h₀.actor?_self e).trans
        (.exec (r := r) (((s.put r { a with batch := rest }).receive r e).1.prog code) _)
      obtain ⟨l₁, hl₁, -⟩ := hrun.some (ledger_intro h₀.actor?_self)
      obtain ⟨a₁, ha₁, -⟩ := ledger_elim hl₁
      refine hrun.trans ?_
      generalize exec r _ _ = p at ha₁ ⊢
      obtain ⟨result, s₁⟩ := p
      cases result with
      | none => exact recover_shrinks ha₁
      | some u =>
        exact (reset_shrinks ha₁).trans
          (update_shrinks r _ fun a => .of_same rfl rfl rfl rfl)
    obtain ⟨l', hl', hs⟩ := hrest.some (ledger_intro h₀.actor?_self)
    refine ⟨hput.trans hrest, l', hl', ?_⟩
    simpa [Actor.ledger, hbatch] using hs.batch

theorem dispatchMany_shrinks (code : κ → Invocation → Prog κ Unit) (n : Nat) (s : System κ)
    {l : Ledger κ} (hl : s.ledger r = some l) :
    Shrinks s (s.dispatchMany code r n) ∧
      ∃ l', (s.dispatchMany code r n).ledger r = some l' ∧
        l'.batch.length ≤ l.batch.length - n := by
  induction n generalizing s l with
  | zero => exact ⟨.refl s, l, hl, Nat.le_refl _⟩
  | succ n ih =>
    obtain ⟨hnext, l₁, hl₁, hb₁⟩ := dispatchNext_shrinks code s hl
    obtain ⟨hmany, l₂, hl₂, hb₂⟩ := ih (s.dispatchNext code r) hl₁
    exact ⟨hnext.trans hmany, l₂, hl₂, by omega⟩

end System

namespace Machine

variable {κ : Type} {code : κ → Invocation → Prog κ Unit} {m m' m'' : Machine κ} {s : System κ}
  {r : ActorRef}

/-- Some moves lead from one machine to the other. -/
def Reaches (code : κ → Invocation → Prog κ Unit) (m m' : Machine κ) : Prop :=
  ∃ mvs, (play code mvs m).2 = m'

theorem Reaches.refl (m : Machine κ) : m.Reaches code m := ⟨[], rfl⟩

theorem Reaches.trans (h : m.Reaches code m') (h' : m'.Reaches code m'') : m.Reaches code m'' := by
  obtain ⟨xs, rfl⟩ := h
  obtain ⟨ys, rfl⟩ := h'
  exact ⟨xs ++ ys, by rw [play_append]⟩

theorem Reaches.step (mv : Move κ) (h : (m.step code mv).2 = m') : m.Reaches code m' :=
  ⟨[mv], by simpa [play] using h⟩

def ending : Option Unit → Prog κ Unit
  | some _ => .pure ()
  | none => .panic

theorem exec_reaches (p : Prog κ Unit) {mode : Mode κ} (hmode : mode ≠ .ready) (s : System κ) :
    (m.runs r mode p s).Reaches code
      (m.runs r mode (ending (System.exec r p s).1) (System.exec r p s).2) := by
  induction p generalizing s with
  | pure u => exact .refl _
  | panic => exact .refl _
  | op o next ih =>
    have hexec : System.exec r (.op o next) s =
        System.exec r (next (System.perform r o s).1) (System.perform r o s).2 := rfl
    rw [hexec]
    refine Reaches.trans (.step (.proceed r) ?_) (ih (System.perform r o s).1 (System.perform r o s).2)
    cases mode with
    | ready => exact absurd rfl hmode
    | handling e => simp [step, proceed, runs]
    | firing => simp [step, proceed, runs]

theorem dispatchNext_reaches (s : System κ) (r : ActorRef) :
    (resting s).Reaches code (resting (s.dispatchNext code r)) := by
  unfold System.dispatchNext
  cases ha : s.actor? r with
  | none => exact .refl _
  | some a =>
    dsimp only
    cases hbatch : a.batch with
    | nil => exact .refl _
    | cons e rest =>
      dsimp only
      rw [System.dispatch_eq]
      generalize hrec : (s.put r { a with batch := rest }).receive r e = p
      obtain ⟨w, s₁⟩ := p
      have hbegin : (resting s).Reaches code ((resting s).runs r (.handling e) (w.prog code) s₁) := by
        refine .step (.dispatch r) ?_
        simp [step, begin, resting, ha, hbatch, hrec]
      refine hbegin.trans ((exec_reaches _ (by simp) _).trans (.step (.proceed r) ?_))
      cases hexec : (System.exec r (w.prog code) s₁).1 with
      | none => simp [step, proceed, ending, halts, runs, resting]
      | some u => simp [step, proceed, ending, halts, runs, resting]

theorem dispatchMany_reaches (n : Nat) (s : System κ) (r : ActorRef) :
    (resting s).Reaches code (resting (s.dispatchMany code r n)) := by
  induction n generalizing s with
  | zero => exact .refl _
  | succ n ih => exact (dispatchNext_reaches s r).trans (ih _)

end Machine

namespace System

open Machine (resting Reaches)

variable {κ : Type} {code : κ → Invocation → Prog κ Unit} {s s' s'' : System κ} {r : ActorRef}
  {a : Actor κ}

def Keeps (code : κ → Invocation → Prog κ Unit) (s s' : System κ) : Prop :=
  (resting s).Reaches code (resting s') ∧ Shrinks s s'

/-- The loop of an actor that is alive gets from one system to the other. -/
def Follows (code : κ → Invocation → Prog κ Unit) (r : ActorRef) (s s' : System κ) : Prop :=
  s.Quiet → s.Alive r → Keeps code s s'

def Leads (code : κ → Invocation → Prog κ Unit) (s s' : System κ) : Prop :=
  s.Quiet → (resting s).Reaches code (resting s') ∧ s'.Quiet

theorem Keeps.follows (h : Keeps code s s') : Follows code r s s' := fun _ _ => h

theorem Keeps.leads (h : Keeps code s s') : Leads code s s' := fun hq => ⟨h.1, h.2.quiet hq⟩

theorem Leads.refl (s : System κ) : Leads code s s := fun hq => ⟨.refl _, hq⟩

theorem Leads.trans (h : Leads code s s') (h' : Leads code s' s'') : Leads code s s'' := by
  intro hq
  obtain ⟨hr, hq'⟩ := h hq
  obtain ⟨hr', hq''⟩ := h' hq'
  exact ⟨hr.trans hr', hq''⟩

theorem Follows.refl (s : System κ) : Follows code r s s := fun _ _ => ⟨.refl _, .refl s⟩

theorem Follows.trans (h : Follows code r s s') (h' : Follows code r s' s'') :
    Follows code r s s'' := by
  intro hq ha
  obtain ⟨hr, hs⟩ := h hq ha
  obtain ⟨hr', hs'⟩ := h' (hs.quiet hq) (hs.alive ha)
  exact ⟨hr.trans hr', hs.trans hs'⟩

theorem Follows.leads (h : Follows code r s s') (ha : s.Alive r)
    (h' : s'.Alive r → Leads code s' s'') : Leads code s s'' := by
  intro hq
  obtain ⟨hr, hs⟩ := h hq ha
  obtain ⟨hr', hq'⟩ := h' (hs.alive ha) (hs.quiet hq)
  exact ⟨hr.trans hr', hq'⟩

theorem idle_resting (h : s.actor? r = some a) (halive : a.ledger.alive = true)
    (hbatch : a.batch = []) : (resting s).idle r = true := by
  simp only [Machine.idle, resting, ask_eq h, hbatch, List.isEmpty_nil, Bool.and_true]
  exact halive

theorem idle_of_quiet (hq : s.Quiet) (ha : s.Alive r) :
    ∃ a, s.actor? r = some a ∧ a.ledger.alive = true ∧ a.batch = [] ∧
      (resting s).idle r = true := by
  obtain ⟨l, hl, halive⟩ := ha
  obtain ⟨a, ha, rfl⟩ := ledger_elim hl
  exact ⟨a, ha, halive, hq r _ hl, idle_resting ha halive (hq r _ hl)⟩

theorem takeBatch_ledger (h : s.actor? r = some a) (hbatch : a.batch = []) :
    ∃ l, (s.takeBatch r).2.ledger = Function.update s.ledger r (some l) ∧
      l.batch.length = (s.takeBatch r).1 ∧
      a.ledger.inbox.length = (s.takeBatch r).1 + l.inbox.length ∧
      l.alive = a.ledger.alive ∧ l.closing = a.ledger.closing := by
  rw [takeBatch_eq h, (Turns.put h _).ledger]
  refine ⟨_, rfl, ?_, ?_, rfl, rfl⟩
  · simp [Actor.ledger, hbatch]
  · have hlength := congrArg List.length (a.mailbox.take_append_toList s.config.batchSize)
    simpa [Actor.ledger] using hlength.symm

/-- A batch is taken and dispatched; the mailbox of an actor that is told to close loses it. -/
theorem processBatch_takes (code : κ → Invocation → Prog κ Unit) (s : System κ) (hq : s.Quiet)
    (ha : s.Alive r) :
    (resting s).Reaches code (resting (s.processBatch code r).2) ∧
      Shrinks s (s.processBatch code r).2 ∧
      ∀ l, s.ledger r = some l → l.closing = true →
        ∃ l', (s.processBatch code r).2.ledger r = some l' ∧
          l'.inbox.length + (s.processBatch code r).1 ≤ l.inbox.length := by
  obtain ⟨a, ha, halive, hbatch, hidle⟩ := idle_of_quiet hq ha
  obtain ⟨l, hl, hcount, hinbox, hlalive, hlclosing⟩ := takeBatch_ledger ha hbatch
  have hlr : (s.takeBatch r).2.ledger r = some l := by simp [hl]
  have hask : (s.takeBatch r).2.ask r 0 (fun a => a.batch.length) = l.batch.length := by
    obtain ⟨a₁, ha₁, rfl⟩ := ledger_elim hlr
    rw [ask_eq ha₁]
    rfl
  have hprocess : s.processBatch code r =
      ((s.takeBatch r).1, dispatchMany code r ((s.takeBatch r).2.ask r 0 fun a => a.batch.length)
        (s.takeBatch r).2) := rfl
  rw [hask] at hprocess
  have hfst : (s.processBatch code r).1 = (s.takeBatch r).1 := by rw [hprocess]
  have hsnd : (s.processBatch code r).2 = dispatchMany code r l.batch.length (s.takeBatch r).2 := by
    rw [hprocess]
  rw [hfst, hsnd]
  obtain ⟨hmany, l', hl', hb'⟩ := dispatchMany_shrinks code l.batch.length (s.takeBatch r).2 hlr
  obtain ⟨l₂, hl₂, hs⟩ := hmany.some hlr
  obtain rfl : l₂ = l' := Option.some.inj (hl₂.symm.trans hl')
  have hbatch' : l₂.batch = [] := List.length_eq_zero_iff.1 (by omega)
  have ha₀ := ledger_intro ha
  refine ⟨?_, ?_, ?_⟩
  · refine Reaches.trans (.step (.take r) ?_) (Machine.dispatchMany_reaches _ _ r)
    simp [Machine.step, hidle]
    rfl
  · intro r'
    by_cases hr : r' = r
    · subst hr
      rw [ha₀, hl₂]
      refine .some ⟨by simp [hbatch'], fun _ => hs.alive (hlalive.trans halive), fun hc => ?_⟩
      obtain ⟨hc', hle⟩ := hs.closing (hlclosing.trans hc)
      exact ⟨hc', by omega⟩
    · have hother := hmany r'
      rwa [hl, Function.update_of_ne hr] at hother
  · intro l₀ hl₀ hc
    obtain rfl : a.ledger = l₀ := Option.some.inj (ha₀.symm.trans hl₀)
    obtain ⟨-, hle⟩ := hs.closing (hlclosing.trans hc)
    exact ⟨l₂, hl₂, by omega⟩

def polled (s : System κ) (r : ActorRef) (a : Actor κ) : System κ :=
  s.put r (a.expire s.clock.now).2

theorem expire_shrinks (a : Actor κ) (now : UInt64) : a.ledger.Shrinks (a.expire now).2.ledger := by
  unfold Actor.expire
  generalize a.timers.poll now = p
  obtain ⟨_ | e, timers⟩ := p <;> exact .of_same rfl rfl rfl rfl

theorem fireNext_follows (s : System κ) : Follows code r s (s.fireNext code r).2 := by
  intro hq ha
  obtain ⟨a, ha, halive, hbatch, hidle⟩ := idle_of_quiet hq ha
  have ht : Turns s (s.polled r a) r _ [] := .put ha _
  have hpolled : Shrinks s (s.polled r a) := .turns ha ht (expire_shrinks a s.clock.now)
  have hat : (s.atActor r none fun a => a.expire s.clock.now) =
      ((a.expire s.clock.now).1, s.polled r a) := atActor_eq ha _ _
  unfold fireNext
  dsimp only
  rw [hat]
  cases hpoll : (a.expire s.clock.now).1 with
  | none =>
    refine ⟨.step (.fire r) ?_, hpolled⟩
    simp only [Machine.step, Machine.fire, hidle, if_true]
    simp only [resting, hat, hpoll]
  | some e =>
    dsimp only
    let p := code e.payload.callback (.timer e.payload.args)
    have hfire : (resting s).Reaches code ((resting s).runs r .firing p (s.polled r a)) := by
      refine .step (.fire r) ?_
      simp only [Machine.step, Machine.fire, hidle, if_true]
      simp only [resting, hat, hpoll]
      rfl
    have hrun := hpolled.trans (.exec (r := r) p (s.polled r a))
    obtain ⟨l₁, hl₁, -⟩ := hrun.some (ledger_intro ha)
    obtain ⟨a₁, ha₁, -⟩ := ledger_elim hl₁
    have hend := hfire.trans (Machine.exec_reaches p (by simp) (s.polled r a))
    generalize hexec : exec r p (s.polled r a) = q at ha₁ hrun hend
    obtain ⟨result, s₁⟩ := q
    cases result with
    | none =>
      refine ⟨hend.trans (.step (.proceed r) ?_), hrun.trans (recover_shrinks ha₁)⟩
      simp [Machine.step, Machine.proceed, Machine.ending, Machine.halts, Machine.runs, resting]
    | some u =>
      have htimers := Turns.update ha₁ fun a => { a with timers := a.timers.finish }
      have hfinish := Shrinks.turns ha₁ htimers (.of_same rfl rfl rfl rfl)
      refine ⟨hend.trans (.step (.proceed r) ?_),
        hrun.trans (hfinish.trans (reset_shrinks htimers.actor?_self))⟩
      simp [Machine.step, Machine.proceed, Machine.ending, Machine.halts, Machine.runs, resting]

theorem fireTimers_follows (max : Nat) (s : System κ) :
    Follows code r s (s.fireTimers code r max).2 := by
  induction max generalizing s with
  | zero => exact .refl s
  | succ max ih =>
    have hnext : Follows code r s (s.fireNext code r).2 := fireNext_follows s
    unfold fireTimers
    generalize s.fireNext code r = p at hnext ⊢
    obtain ⟨_ | _ | _, s₁⟩ := p
    · exact hnext
    · exact hnext
    · exact hnext.trans (ih s₁)

theorem processBatch_follows (s : System κ) : Follows code r s (s.processBatch code r).2 := by
  intro hq ha
  obtain ⟨hr, hs, -⟩ := processBatch_takes code s hq ha
  exact ⟨hr, hs⟩

theorem processBatch_nothing (code : κ → Invocation → Prog κ Unit) (s : System κ) (hq : s.Quiet)
    (ha : s.Alive r)
    (hnone : (s.processBatch code r).1 = 0) : ((s.processBatch code r).2.takeBatch r).1 = 0 := by
  obtain ⟨a, ha, -, hbatch, -⟩ := idle_of_quiet hq ha
  have htake : (s.takeBatch r).1 = 0 := hnone
  have hitems : (a.mailbox.take s.config.batchSize).1.items = [] := by
    rw [takeBatch_eq ha] at htake
    exact List.length_eq_zero_iff.1 htake
  have ht := Turns.put ha { a with
    mailbox := (a.mailbox.take s.config.batchSize).2
    batch := a.batch ++ (a.mailbox.take s.config.batchSize).1.items }
  have hsame : (s.processBatch code r).2 = (s.takeBatch r).2 := by
    unfold processBatch
    rw [takeBatch_eq ha]
    dsimp only
    rw [ask_eq ht.actor?_self]
    simp [hbatch, hitems, dispatchMany]
  rw [hsame, takeBatch_eq ha, takeBatch_eq ht.actor?_self]
  dsimp only
  rw [ht.config, EventQueue.take_again hitems]
  rfl

/-- The final drain: its fuel is enough, since a mailbox that takes no more events runs dry. -/
theorem drain_follows (code : κ → Invocation → Prog κ Unit) (n : Nat) (s : System κ) (hq : s.Quiet)
    (ha : s.Alive r) {l : Ledger κ} (hl : s.ledger r = some l) (hc : l.closing = true)
    (hn : l.inbox.length < n) :
    (resting s).Reaches code (resting (s.drain code r n)) ∧ Shrinks s (s.drain code r n) ∧
      ((s.drain code r n).takeBatch r).1 = 0 := by
  induction n generalizing s l with
  | zero => exact absurd hn (Nat.not_lt_zero _)
  | succ n ih =>
    obtain ⟨hr, hs, hless⟩ := processBatch_takes code s hq ha
    have hnothing := processBatch_nothing code s hq ha
    obtain ⟨l', hl', hle⟩ := hless l hl hc
    unfold drain
    generalize s.processBatch code r = p at hr hs hl' hle hnothing ⊢
    obtain ⟨taken, s₁⟩ := p
    cases taken with
    | zero => exact ⟨hr, hs, hnothing rfl⟩
    | succ taken =>
      obtain ⟨l₁, hl₁, hshrinks⟩ := hs.some hl
      obtain rfl : l₁ = l' := Option.some.inj (hl₁.symm.trans hl')
      dsimp only at hle
      obtain ⟨hr', hs', hnone⟩ := ih s₁ (hs.quiet hq) (hs.alive ha) hl'
        (hshrinks.closing hc).1 (by omega)
      exact ⟨hr.trans hr', hs.trans hs', hnone⟩

theorem dismantle_quiet (h : s.actor? r = some a) (hq : s.Quiet) : (s.dismantle r).Quiet := by
  have ht := dismantle_turns h
  intro r' l' hl'
  rw [ht.ledger] at hl'
  by_cases hr : r' = r
  · subst hr
    rw [Function.update_self, Option.some.injEq] at hl'
    exact hl' ▸ hq r' a.ledger (ledger_intro h)
  · rw [Function.update_of_ne hr] at hl'
    exact hq r' l' hl'

theorem shutdown_leads (ha : s.Alive r) (hc : s.ask r true Actor.closing = true) :
    Leads code s (s.shutdown code r) := by
  intro hq
  obtain ⟨l, hl, halive⟩ := ha
  obtain ⟨a, hactor, rfl⟩ := ledger_elim hl
  rw [ask_eq hactor] at hc
  unfold shutdown
  rw [ask_eq hactor]
  obtain ⟨hr, hs, hnone⟩ := drain_follows code (a.mailbox.toList.length + 1) s hq ⟨_, hl, halive⟩ hl hc
    (Nat.lt_succ_self _)
  obtain ⟨a₁, ha₁, halive₁, hbatch₁, hidle⟩ := idle_of_quiet (hs.quiet hq) (hs.alive ⟨_, hl, halive⟩)
  obtain ⟨l₁, hl₁, hshrinks⟩ := hs.some hl
  have hclosing : a₁.closing = true := by
    have heq : l₁ = a₁.ledger := Option.some.inj (hl₁.symm.trans (ledger_intro ha₁))
    have hc₁ := (hshrinks.closing hc).1
    rwa [heq] at hc₁
  refine ⟨hr.trans (.step (.dismantle r) ?_), dismantle_quiet ha₁ (hs.quiet hq)⟩
  have hask : (resting (s.drain code r (a.mailbox.toList.length + 1))).system.ask r false Actor.closing
      = true := (ask_eq ha₁ _ _).trans hclosing
  have hzero : ((resting (s.drain code r (a.mailbox.toList.length + 1))).system.takeBatch r).1 = 0 :=
    hnone
  simp only [Machine.step, Machine.dismantle, hidle, hask, hzero, beq_self_eq_true, Bool.and_true,
    if_true]
  rfl

/-- Bookkeeping that changes nothing in the ledger of an actor. -/
theorem tend_keeps (r : ActorRef) (f : Actor κ → Actor κ)
    (hf : ∀ a, ∃ stirred announced notified channel stage watch, f a =
      { a with
        mailbox := { a.mailbox with announced, notified, channel }, stirred, stage, watch })
    (s : System κ) : Keeps code s (s.update r f) := by
  refine ⟨?_, update_shrinks r f fun a => ?_⟩
  · obtain ⟨stirred, announced, notified, channel, stage, watch, heq⟩ :
        ∃ stirred announced notified channel stage watch, ∀ a, s.actor? r = some a →
          { a with
            mailbox := { a.mailbox with announced, notified, channel }, stirred, stage, watch } =
              f a := by
      cases h : s.actor? r with
      | none => exact ⟨false, 0, 0, .new 0, .batch, {}, by simp⟩
      | some a =>
        obtain ⟨stirred, announced, notified, channel, stage, watch, heq⟩ := hf a
        refine ⟨stirred, announced, notified, channel, stage, watch, fun a' ha' => ?_⟩
        obtain rfl : a = a' := Option.some.inj ha'
        exact heq.symm
    refine .step (.tend r stirred announced notified channel stage watch) ?_
    simpa [Machine.step, resting] using update_congr s r _ f heq
  · obtain ⟨stirred, announced, notified, channel, stage, watch, heq⟩ := hf a
    rw [heq]
    exact .of_same rfl rfl rfl rfl

theorem readClock_keeps (s : System κ) : Keeps code s (s.readClock r).2 := by
  unfold readClock
  rw [atActor_snd]
  exact tend_keeps r _ (fun _ => ⟨_, _, _, _, _, _, rfl⟩) s

def announced (s : System κ) (r : ActorRef) : System κ :=
  s.update r fun a => { a with mailbox := a.mailbox.announce.2 }

theorem announced_keeps (s : System κ) : Keeps code s (s.announced r) := by
  refine tend_keeps r _ (fun a => ?_) s
  unfold EventQueue.announce EventQueue.claim
  dsimp only
  split
  · split <;> exact ⟨_, _, _, _, _, _, rfl⟩
  · exact ⟨_, _, _, _, _, _, rfl⟩

theorem pause_eq (h : s.actor? r = some a) :
    s.pause r =
      if a.timers.nextWake s.clock.now = some 0 then (true, s)
      else (!a.mailbox.announce.1, s.announced r) := by
  rw [pause, atActor_eq h, announced, update_eq h]
  split
  · rw [put_self h]
  · rfl

theorem pause_keeps (s : System κ) : Keeps code s (s.pause r).2 := by
  cases h : s.actor? r with
  | none =>
    rw [pause, atActor_absent h]
    exact ⟨.refl _, .refl s⟩
  | some a =>
    rw [pause_eq h]
    split
    · exact ⟨.refl _, .refl s⟩
    · exact announced_keeps s

theorem sleep_keeps (s : System κ) : Keeps code s (s.sleep r) :=
  tend_keeps r _ (fun _ => ⟨_, _, _, _, _, _, rfl⟩) s

theorem hold_keeps (s : System κ) (stage : Stage) : Keeps code s (s.hold r stage) :=
  tend_keeps r _ (fun _ => ⟨_, _, _, _, _, _, rfl⟩) s

theorem wake_follows (s : System κ) : Follows code r s (s.wake r) := by
  intro hq ha
  obtain ⟨a, ha, halive, hbatch, hidle⟩ := idle_of_quiet hq ha
  refine ⟨.step (.wake r) ?_, .turns ha (.update ha _) (.of_same rfl ?_ rfl ?_)⟩
  · simp [Machine.step, hidle]
    rfl
  · obtain ⟨hdormant, hclosed⟩ := Ledger.alive_elim halive
    simp_all [Ledger.alive, Actor.ledger]
  · exact a.mailbox.recv.2.toList_claim

theorem round_follows (s : System κ) :
    Follows code r s (s.round code r).2 ∨
      (s.round code r).1 = false ∧ (s.Alive r → Leads code s (s.round code r).2) := by
  have hbatch : Follows code r s (s.processBatch code r).2 := processBatch_follows s
  unfold round
  generalize s.processBatch code r = p at hbatch ⊢
  obtain ⟨taken, s₁⟩ := p
  have htimers : Follows code r s₁ (s₁.fireTimers code r s₁.config.maxTimers).2 :=
    fireTimers_follows _ s₁
  dsimp only
  generalize s₁.fireTimers code r s₁.config.maxTimers = p at htimers ⊢
  obtain ⟨fired, s₂⟩ := p
  have hround := hbatch.trans htimers
  dsimp only at hround ⊢
  cases hc : s₂.ask r true Actor.closing with
  | true =>
    have hend : s₂.Alive r → Leads code s₂ (s₂.shutdown code r) := fun ha => shutdown_leads ha hc
    simp only [if_true]
    exact .inr ⟨trivial, fun ha => hround.leads ha hend⟩
  | false =>
    refine .inl ?_
    simp only [Bool.false_eq_true, if_false]
    split
    · exact hround
    · exact hround.trans (pause_keeps s₂).follows

theorem rounds_leads (limit : Nat) (s : System κ) (ha : s.Alive r)
    (h : s.rounds code r limit = some s') : Leads code s s' := by
  induction limit generalizing s with
  | zero => simp [rounds] at h
  | succ limit ih =>
    unfold rounds at h
    have hround : Follows code r s (s.round code r).2 ∨
        (s.round code r).1 = false ∧ (s.Alive r → Leads code s (s.round code r).2) := round_follows s
    generalize s.round code r = p at hround h
    obtain ⟨_ | _, s₁⟩ := p
    · obtain rfl : s₁ = s' := Option.some.inj h
      rcases hround with hround | ⟨-, hround⟩
      · exact hround.leads ha fun _ => .refl s₁
      · exact hround ha
    · rcases hround with hround | ⟨hfalse, -⟩
      · exact hround.leads ha fun ha₁ => ih s₁ ha₁ h
      · simp at hfalse

theorem turn_leads (limit : Nat) (s : System κ) (ha : s.Alive r)
    (h : s.turn code limit r = some s') : Leads code s s' := by
  obtain ⟨s₁, hrounds, rfl⟩ := Option.map_eq_some_iff.1 h
  exact (wake_follows s).leads ha fun ha₁ =>
    (rounds_leads limit _ ha₁ hrounds).trans (sleep_keeps s₁).leads

theorem watchedBatch_follows (s : System κ) : Follows code r s (s.watchedBatch code r).2 :=
  (processBatch_follows s).trans
    (tend_keeps r _ (fun _ => ⟨_, _, _, _, _, _, rfl⟩) _).follows

theorem watchedTimers_follows (s : System κ) : Follows code r s (s.watchedTimers code r) :=
  (fireTimers_follows _ s).trans
    (tend_keeps r _ (fun _ => ⟨_, _, _, _, _, _, rfl⟩) _).follows

theorem loop_leads (limit : Nat) (stage : Stage) (s : System κ) (ha : s.Alive r)
    (h : s.loop code r limit stage = some s') : Leads code s s' := by
  induction limit generalizing stage s with
  | zero => simp [loop] at h
  | succ limit ih =>
    cases stage with
    | batch =>
      unfold loop at h
      have hbatch : Follows code r s (s.watchedBatch code r).2 := watchedBatch_follows s
      generalize s.watchedBatch code r = p at hbatch h
      obtain ⟨taken, s₁⟩ := p
      dsimp only at hbatch h
      have hread : Keeps code s₁ (s₁.readClock r).2 := readClock_keeps s₁
      generalize s₁.readClock r = p at hread h
      obtain ⟨_ | _, s₂⟩ := p
      · exact (hbatch.trans hread.follows).leads ha fun ha₂ => ih _ s₂ ha₂ h
      · obtain rfl := Option.some.inj h
        exact (hbatch.trans hread.follows).leads ha fun _ => (hold_keeps s₂ _).leads
    | timers taken =>
      unfold loop at h
      have htimers : Follows code r s (s.watchedTimers code r) := watchedTimers_follows s
      generalize s.watchedTimers code r = s₁ at htimers h
      dsimp only at h
      split at h
      · rename_i hc
        obtain rfl := Option.some.inj h
        exact htimers.leads ha fun ha₁ => shutdown_leads ha₁ hc
      · split at h
        · exact htimers.leads ha fun ha₁ => ih _ s₁ ha₁ h
        · have hread : Keeps code s₁ (s₁.readClock r).2 := readClock_keeps s₁
          generalize s₁.readClock r = p at hread h
          obtain ⟨_ | _, s₂⟩ := p
          · exact (htimers.trans hread.follows).leads ha fun ha₂ => ih _ s₂ ha₂ h
          · obtain rfl := Option.some.inj h
            exact (htimers.trans hread.follows).leads ha fun _ =>
              (pause_keeps s₂).leads.trans (hold_keeps _ _).leads

theorem watchedTurn_leads (limit : Nat) (s : System κ) (ha : s.Alive r)
    (h : s.watchedTurn code limit r = some s') : Leads code s s' := by
  unfold watchedTurn at h
  split at h
  · exact (wake_follows s).leads ha fun ha₁ => loop_leads limit .batch _ ha₁ h
  · exact loop_leads limit _ s ha h

theorem pass_leads {turn : ActorRef → System κ → Option (System κ)}
    (hturn : ∀ r s s', s.Alive r → turn r s = some s' → Leads code s s') (all : Bool)
    (rs : List ActorRef) (s : System κ) (h : pass turn all rs s = some s') : Leads code s s' := by
  induction rs generalizing s with
  | nil =>
    obtain rfl := Option.some.inj h
    exact .refl _
  | cons r rs ih =>
    unfold pass at h
    split at h
    · rename_i hstirred
      obtain ⟨s₁, hs₁, hrest⟩ := Option.bind_eq_some_iff.1 h
      refine (hturn r s s₁ ?_ hs₁).trans (ih s₁ hrest)
      cases ha : s.actor? r with
      | none => simp [ask, ha] at hstirred
      | some a =>
        rw [ask_eq ha, Bool.and_eq_true] at hstirred
        exact ⟨a.ledger, ledger_intro ha, hstirred.1⟩
    · exact ih s h

theorem settleDown_leads {turn : ActorRef → System κ → Option (System κ)}
    (hturn : ∀ r s s', s.Alive r → turn r s = some s' → Leads code s s') (n : Nat) (s : System κ)
    (h : settleDown turn n s = some s') : Leads code s s' := by
  induction n generalizing s with
  | zero => simp [settleDown] at h
  | succ n ih =>
    unfold settleDown at h
    split at h
    · obtain ⟨s₁, hpass, hrest⟩ := Option.bind_eq_some_iff.1 h
      exact (pass_leads hturn false _ s hpass).trans (ih s₁ hrest)
    · obtain rfl := Option.some.inj h
      exact .refl _

theorem takeTurns_leads {turn : ActorRef → System κ → Option (System κ)}
    (hturn : ∀ r s s', s.Alive r → turn r s = some s' → Leads code s s') (limit : Nat)
    (s : System κ) (h : takeTurns turn limit s = some s') : Leads code s s' := by
  obtain ⟨s₁, hpass, hrest⟩ := Option.bind_eq_some_iff.1 h
  exact (pass_leads hturn true _ s hpass).trans (settleDown_leads hturn limit s₁ hrest)

theorem run_leads (limit : Nat) (s : System κ) (h : s.run code limit = some s') :
    Leads code s s' :=
  takeTurns_leads (fun _ s _ ha hturn => turn_leads limit s ha hturn) limit s h

theorem runWatched_leads (limit : Nat) (s : System κ) (h : s.runWatched code limit = some s') :
    Leads code s s' :=
  takeTurns_leads (fun _ s _ ha hturn => watchedTurn_leads limit s ha hturn) limit s h

end System

/-- With every actor between two dispatches and no batch left, the system may run in whole turns,
whichever of the two ways it takes them. -/
def Machine.CoversRuns {κ : Type} (code : κ → Invocation → Prog κ Unit) (m : Machine κ) : Prop :=
  ∀ limit s s', m = resting s → s.Quiet →
    s.run code limit = some s' ∨ s.runWatched code limit = some s' → m.Reaches code (resting s')

theorem Machine.coversRuns {κ : Type} (code : κ → Invocation → Prog κ Unit) (m : Machine κ) :
    m.CoversRuns code := by
  rintro limit s s' rfl hq (h | h)
  · exact (System.run_leads limit s h hq).1
  · exact (System.runWatched_leads limit s h hq).1

end ActorSystem
