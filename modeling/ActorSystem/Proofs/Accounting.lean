import ActorSystem.Proofs.Loops

/-!
Where every accepted event is, and what has become of those that are gone.
-/

set_option autoImplicit false

namespace ActorSystem

namespace Happening

variable {κ : Type}

def accepted? : Happening κ → Option (Event κ)
  | accepted e => some e
  | _ => none

/-- The events that have left batch and mailbox for good, in the order in which they stood there. -/
def consumed : Happening κ → List (Event κ)
  | accepted _ => []
  | replied _ _ => []
  | completed e => [e]
  | panicked e dropped => e :: dropped
  | timerPanicked dropped => dropped
  | cancelled es => es
  | ended es => es
  | discarded es => es

def discarded? : Happening κ → List (Event κ)
  | discarded es => es
  | _ => []

def isCompleted : Happening κ → Bool
  | completed _ => true
  | _ => false

def isPanic : Happening κ → Bool
  | panicked _ _ => true
  | timerPanicked _ => true
  | _ => false

def acceptedIn (hs : List (Happening κ)) : List (Event κ) := hs.filterMap accepted?

def consumedIn (hs : List (Happening κ)) : List (Event κ) := hs.flatMap consumed

def discardedIn (hs : List (Happening κ)) : List (Event κ) := hs.flatMap discarded?

def completionsIn (hs : List (Happening κ)) : Nat := hs.countP isCompleted

def panicsIn (hs : List (Happening κ)) : Nat := hs.countP isPanic

@[simp] theorem acceptedIn_nil : acceptedIn ([] : List (Happening κ)) = [] := rfl

@[simp] theorem consumedIn_nil : consumedIn ([] : List (Happening κ)) = [] := rfl

@[simp] theorem discardedIn_nil : discardedIn ([] : List (Happening κ)) = [] := rfl

@[simp] theorem completionsIn_nil : completionsIn ([] : List (Happening κ)) = 0 := rfl

@[simp] theorem panicsIn_nil : panicsIn ([] : List (Happening κ)) = 0 := rfl

@[simp] theorem acceptedIn_singleton (x : Happening κ) : acceptedIn [x] = x.accepted?.toList := by
  cases x <;> rfl

@[simp] theorem consumedIn_singleton (x : Happening κ) : consumedIn [x] = x.consumed := by
  simp [consumedIn]

@[simp] theorem discardedIn_singleton (x : Happening κ) : discardedIn [x] = x.discarded? := by
  simp [discardedIn]

@[simp] theorem completionsIn_singleton (x : Happening κ) :
    completionsIn [x] = if x.isCompleted then 1 else 0 := List.countP_singleton

@[simp] theorem panicsIn_singleton (x : Happening κ) :
    panicsIn [x] = if x.isPanic then 1 else 0 := List.countP_singleton

@[simp] theorem acceptedIn_append (hs hs' : List (Happening κ)) :
    acceptedIn (hs ++ hs') = acceptedIn hs ++ acceptedIn hs' := List.filterMap_append

@[simp] theorem consumedIn_append (hs hs' : List (Happening κ)) :
    consumedIn (hs ++ hs') = consumedIn hs ++ consumedIn hs' := List.flatMap_append

@[simp] theorem discardedIn_append (hs hs' : List (Happening κ)) :
    discardedIn (hs ++ hs') = discardedIn hs ++ discardedIn hs' := List.flatMap_append

@[simp] theorem completionsIn_append (hs hs' : List (Happening κ)) :
    completionsIn (hs ++ hs') = completionsIn hs + completionsIn hs' := List.countP_append

@[simp] theorem panicsIn_append (hs hs' : List (Happening κ)) :
    panicsIn (hs ++ hs') = panicsIn hs + panicsIn hs' := List.countP_append

end Happening

def Mode.hand {κ : Type} : Mode κ → List (Event κ)
  | handling e => [e]
  | _ => []

@[simp] theorem Mode.hand_ready {κ : Type} : (ready : Mode κ).hand = [] := rfl

@[simp] theorem Mode.hand_handling {κ : Type} (e : Event κ) : (handling e).hand = [e] := rfl

@[simp] theorem Mode.hand_firing {κ : Type} : (firing : Mode κ).hand = [] := rfl

open Happening

/-- What the history of an actor says of its ledger. -/
structure Account {κ : Type} (config : Config) (hs : List (Happening κ)) (mode : Mode κ)
    (l : Ledger κ) : Prop where
  order : acceptedIn hs = consumedIn hs ++ mode.hand ++ l.batch ++ l.inbox
  processed : l.processed = completionsIn hs
  restarts : l.restarts = panicsIn hs
  dormant : l.dormant = true → consumedIn hs = []
  panicked : ∀ e es, .panicked e es ∈ hs →
    es.length < config.batchSize ∧ (config.restartPolicy = .requeueRemaining → es = [])
  timers : ∀ es, .timerPanicked es ∈ hs → es = []
  cancelled : ∀ es, .cancelled es ∈ hs →
    l.closed = true ∧ l.dormant = false ∧ consumedIn hs = es ++ discardedIn hs
  ended : ∀ es, .ended es ∈ hs → es = [] ∨ config.batchSize = 0

section

variable {κ : Type} {config : Config} {mode mode' : Mode κ} {l l' : Ledger κ}
  {before hs : List (Happening κ)} {xs : List (CallRef × CallState)} {ins outs : List CallRef}

theorem Account.new (config : Config) : Account config ([] : List (Happening κ)) .ready .new := by
  constructor <;> simp [Ledger.new]

theorem Ledger.Fit.dropped_timer (h : l.Fit config .firing) : l.dropped config = [] := by
  rcases dropped_or config l with ⟨hd, -⟩ | ⟨hd, -⟩
  · rw [hd, h.firing rfl]
  · exact hd

/-- Values that are sent, and what is done to other parts of the ledger, are of no account. -/
theorem Account.inert (h : Account config before mode l) (hhs : ∀ x ∈ hs, ∃ c vs, x = .replied c vs)
    (hevents : mode'.hand ++ l'.batch ++ l'.inbox = mode.hand ++ l.batch ++ l.inbox)
    (hprocessed : l'.processed = l.processed) (hrestarts : l'.restarts = l.restarts)
    (hdormant : l'.dormant = true → l.dormant = true)
    (hclosed : l.closed = true → l.dormant = false → l'.closed = true ∧ l'.dormant = false) :
    Account config (before ++ hs) mode' l' := by
  have hnone : acceptedIn hs = [] ∧ consumedIn hs = [] ∧ discardedIn hs = [] ∧
      completionsIn hs = 0 ∧ panicsIn hs = 0 := by
    refine ⟨List.filterMap_eq_nil_iff.2 fun x hx => ?_, List.flatMap_eq_nil_iff.2 fun x hx => ?_,
      List.flatMap_eq_nil_iff.2 fun x hx => ?_, List.countP_eq_zero.2 fun x hx => ?_,
      List.countP_eq_zero.2 fun x hx => ?_⟩ <;> obtain ⟨c, vs, rfl⟩ := hhs x hx <;>
        simp [accepted?, consumed, discarded?, isCompleted, isPanic]
  obtain ⟨haccepted, hconsumed, hdiscarded, hcompletions, hpanics⟩ := hnone
  have hold : ∀ x, (∀ c vs, x ≠ .replied c vs) → x ∈ before ++ hs → x ∈ before := by
    intro x hx hmem
    refine (List.mem_append.1 hmem).resolve_right fun hmem => ?_
    obtain ⟨c, vs, rfl⟩ := hhs x hmem
    exact hx c vs rfl
  have horder := h.order
  simp only [List.append_assoc] at hevents horder
  refine ⟨?_, ?_, ?_, ?_, ?_, ?_, ?_, ?_⟩
  · simp [haccepted, hconsumed, horder, hevents]
  · simp [hprocessed, h.processed, hcompletions]
  · simp [hrestarts, h.restarts, hpanics]
  · intro hd
    simp [h.dormant (hdormant hd), hconsumed]
  · exact fun e es hmem => h.panicked e es (hold _ (by simp) hmem)
  · exact fun es hmem => h.timers es (hold _ (by simp) hmem)
  · intro es hmem
    obtain ⟨hc, hd, hes⟩ := h.cancelled es (hold _ (by simp) hmem)
    exact ⟨(hclosed hc hd).1, (hclosed hc hd).2, by simp [hes, hconsumed, hdiscarded]⟩
  · exact fun es hmem => h.ended es (hold _ (by simp) hmem)

theorem Account.accept (h : Account config before mode l) (e : Event κ)
    (hbox : l'.inbox = l.inbox ++ [e]) (hbatch : l'.batch = l.batch)
    (hprocessed : l'.processed = l.processed) (hrestarts : l'.restarts = l.restarts)
    (hdormant : l'.dormant = l.dormant) (hclosed : l'.closed = l.closed) :
    Account config (before ++ [.accepted e]) mode l' := by
  refine ⟨?_, ?_, ?_, ?_, ?_, ?_, ?_, ?_⟩
  · simp [h.order, accepted?, consumed, hbox, hbatch]
  · simp [h.processed, isCompleted, hprocessed]
  · simp [h.restarts, isPanic, hrestarts]
  · intro hd
    simp [h.dormant (hdormant ▸ hd), consumed]
  · simpa using h.panicked
  · simpa using h.timers
  · simpa [consumed, discarded?, hclosed, hdormant] using h.cancelled
  · simpa using h.ended

theorem Effect.account (he : Effect mode l ins hs xs outs l') (hf : l.Fit config mode)
    (h : Account config before mode l) : Account config (before ++ hs) mode l' := by
  cases he with
  | accept e => exact h.accept e rfl rfl rfl rfl rfl rfl
  | start => exact h.inert (by simp) rfl rfl rfl (by simp) fun hc hd => ⟨hc, rfl⟩
  | claim => exact h.inert (by simp) rfl rfl rfl (by simp [Ledger.board]) fun hc hd => ⟨hc, rfl⟩
  | cancel gone rest hd hswept =>
    obtain ⟨hmode, hbatch, -⟩ := hf.dormant hd
    have hnone : ∀ es, .cancelled es ∉ before := fun es hmem => by
      simp [(h.cancelled es hmem).2.1] at hd
    have hconsumed := h.dormant hd
    have hdiscarded : discardedIn before = [] := by
      refine List.flatMap_eq_nil_iff.2 fun x hx => ?_
      have hx' := List.flatMap_eq_nil_iff.1 hconsumed x hx
      cases x <;> simp_all [consumed, discarded?]
    refine ⟨?_, ?_, ?_, by simp, ?_, ?_, ?_, ?_⟩
    · simp [h.order, hmode, hbatch, hswept.inbox, accepted?, consumed]
    · simp [h.processed, isCompleted]
    · simp [h.restarts, isPanic]
    · simpa using h.panicked
    · simpa using h.timers
    · intro es hmem
      rcases List.mem_append.1 hmem with hmem | hmem
      · exact absurd hmem (hnone es)
      · obtain rfl : es = gone := by simpa using hmem
        exact ⟨rfl, rfl, by simp [hconsumed, hdiscarded, consumed, discarded?]⟩
    · simpa using h.ended
  | answer c vs hr =>
    exact h.inert (fun x hx => ⟨c, vs, by simpa using hx⟩) rfl rfl rfl id fun hc hd => ⟨hc, hd⟩
  | answerKept c slot vs hk =>
    exact h.inert (fun x hx => ⟨c, vs, by simpa using hx⟩) rfl rfl rfl id fun hc hd => ⟨hc, hd⟩
  | _ => exact h.inert (by simp) rfl rfl rfl id fun hc hd => ⟨hc, hd⟩

theorem Change.order (hc : Change config mode l hs xs mode' l') (hf : l.Fit config mode)
    (h : acceptedIn before = consumedIn before ++ mode.hand ++ l.batch ++ l.inbox) :
    acceptedIn (before ++ hs) = consumedIn (before ++ hs) ++ mode'.hand ++ l'.batch ++ l'.inbox := by
  cases hc with
  | take items inbox halive hfree hbatch hinbox hsize hnone => simp [h, hbatch, hinbox]
  | begin e batch reply gone hfree hbatch hcall => simp [h, hbatch]
  | panic e =>
    have hinbox : (l.afterPanic config).inbox = l.inbox := rfl
    rcases Ledger.dropped_or config l with ⟨hd, hb⟩ | ⟨hd, hb⟩ <;>
      simp [h, hd, hb, hinbox, accepted?, consumed]
  | timerPanic =>
    have hinbox : (l.afterPanic config).inbox = l.inbox := rfl
    rcases Ledger.dropped_or config l with ⟨hd, hb⟩ | ⟨hd, hb⟩ <;>
      simp [h, hd, hb, hinbox, accepted?, consumed]
  | dismantle gone rest halive hfree hbatch hclosing hnone hswept =>
    simp [h, hbatch, hswept.inbox, accepted?, consumed]
  | fly leading leg trailing next hlegs hflies =>
    cases hflies with
    | lift own es rest hinbox hes =>
      have hmem : .lift own ∈ l.legs := hlegs ▸ by simp
      obtain ⟨hmode, hbatch, -⟩ := hf.closed (hf.sweeps _ hmem rfl)
      simp [h, hmode, hbatch, hinbox, accepted?, consumed]
    | _ => simp [h, accepted?, consumed]
  | _ => simp [h, accepted?, consumed, Ledger.board]

theorem Change.counts (hc : Change config mode l hs xs mode' l')
    (hp : l.processed = completionsIn before) (hr : l.restarts = panicsIn before) :
    l'.processed = completionsIn (before ++ hs) ∧ l'.restarts = panicsIn (before ++ hs) := by
  cases hc with
  | fly leading leg trailing next hlegs hflies =>
    cases hflies <;> simp [hp, hr, isCompleted, isPanic]
  | _ => simp [hp, hr, isCompleted, isPanic, Ledger.board, Ledger.afterPanic]

theorem Change.closed (hc : Change config mode l hs xs mode' l') (hf : l.Fit config mode)
    (hclosed : l.closed = true) (hdormant : l.dormant = false) :
    l'.closed = true ∧ l'.dormant = false ∧ consumedIn hs = discardedIn hs := by
  obtain ⟨rfl, hbatch, -⟩ := hf.closed hclosed
  have hdead : l.alive = false := by simp [Ledger.alive, hclosed]
  cases hc with
  | begin e batch reply gone hfree hbatch' hcall => simp [hbatch] at hbatch'
  | fly leading leg trailing next hlegs hflies =>
    cases hflies <;> simp [hclosed, hdormant, consumed, discarded?]
  | _ => simp_all

theorem Change.dormant (hc : Change config mode l hs xs mode' l') (hf : l.Fit config mode)
    (hdormant : l'.dormant = true) : l.dormant = true ∧ consumedIn hs = [] := by
  have hrunning : mode ≠ .ready → l.dormant = false := fun hmode => (hf.running hmode).1
  cases hc with
  | fly leading leg trailing next hlegs hflies =>
    cases hflies with
    | lift own es rest hinbox hes =>
      have hmem : .lift own ∈ l.legs := hlegs ▸ by simp
      have hdead := (hf.closed (hf.sweeps _ hmem rfl)).2.2
      exact absurd (hdead.symm.trans hdormant) Bool.noConfusion
    | put => exact ⟨hdormant, by simp [consumed]⟩
    | _ => exact ⟨hdormant, rfl⟩
  | _ => simp_all [Ledger.alive, Ledger.board, Ledger.afterPanic]

theorem Change.panicked (hc : Change config mode l hs xs mode' l') (hf : l.Fit config mode)
    {e : Event κ} {es : List (Event κ)} (hmem : .panicked e es ∈ hs) :
    es.length < config.batchSize ∧ (config.restartPolicy = .requeueRemaining → es = []) := by
  cases hc with
  | panic =>
    obtain ⟨rfl, rfl⟩ : e = _ ∧ es = _ := by simpa using hmem
    have hlt := hf.handling e rfl
    constructor
    · rcases Ledger.dropped_or config l with ⟨hd, -⟩ | ⟨hd, -⟩ <;> rw [hd]
      · exact hlt
      · exact Nat.zero_lt_of_lt hlt
    · intro hp
      simp [Ledger.dropped, hp]
  | fly leading leg trailing next hlegs hflies => cases hflies <;> simp at hmem
  | _ => simp at hmem

theorem Change.timers (hc : Change config mode l hs xs mode' l') (hf : l.Fit config mode)
    {es : List (Event κ)} (hmem : .timerPanicked es ∈ hs) : es = [] := by
  cases hc with
  | timerPanic =>
    obtain rfl : es = _ := by simpa using hmem
    exact hf.dropped_timer
  | fly leading leg trailing next hlegs hflies => cases hflies <;> simp at hmem
  | _ => simp at hmem

theorem Change.cancelled (hc : Change config mode l hs xs mode' l') (es : List (Event κ)) :
    .cancelled es ∉ hs := by
  cases hc with
  | fly leading leg trailing next hlegs hflies => cases hflies <;> simp
  | _ => simp

theorem Change.ended (hc : Change config mode l hs xs mode' l')
    {es : List (Event κ)} (hmem : .ended es ∈ hs) : es = [] ∨ config.batchSize = 0 := by
  cases hc with
  | dismantle gone rest halive hfree hbatch hclosing hnone hswept =>
    obtain rfl : es = gone := by simpa using hmem
    rcases hnone with hneg | hsize | hinbox
    · exact .inl (hswept.outrun hneg)
    · exact .inr hsize
    · exact .inl (List.append_eq_nil_iff.1 (hswept.inbox.symm.trans hinbox)).1
  | retire => exact .inl (by simpa using hmem)
  | fly leading leg trailing next hlegs hflies => cases hflies <;> simp at hmem
  | _ => simp at hmem

theorem Change.account (hc : Change config mode l hs xs mode' l') (hf : l.Fit config mode)
    (h : Account config before mode l) : Account config (before ++ hs) mode' l' := by
  obtain ⟨hprocessed, hrestarts⟩ := hc.counts h.processed h.restarts
  refine ⟨hc.order hf h.order, hprocessed, hrestarts, ?_, ?_, ?_, ?_, ?_⟩
  · intro hd
    obtain ⟨hold, hnone⟩ := hc.dormant hf hd
    simp [h.dormant hold, hnone]
  · intro e es hmem
    exact (List.mem_append.1 hmem).elim (h.panicked e es) (hc.panicked hf)
  · intro es hmem
    exact (List.mem_append.1 hmem).elim (h.timers es) (hc.timers hf)
  · intro es hmem
    have hmem := (List.mem_append.1 hmem).resolve_right (hc.cancelled es)
    obtain ⟨hclosed, hdormant, hes⟩ := h.cancelled es hmem
    obtain ⟨hclosed', hdormant', hsame⟩ := hc.closed hf hclosed hdormant
    exact ⟨hclosed', hdormant', by simp [hes, hsame]⟩
  · intro es hmem
    exact (List.mem_append.1 hmem).elim (h.ended es) hc.ended

theorem pervades_account (config : Config) :
    Pervades config fun mode (l : Ledger κ) hs mode' l' => ∀ before,
      Account config before mode l → Account config (before ++ hs) mode' l' where
  refl mode l before h := by simpa using h
  trans h h' before ha := by simpa using h' _ (h before ha)
  reply mode l c vs before h :=
    h.inert (fun x hx => ⟨c, vs, by simpa using hx⟩) rfl rfl rfl id fun hc hd => ⟨hc, hd⟩
  effect hf he before h := he.account hf h
  call e hopen := by
    refine ⟨fun before h => h.accept e rfl rfl rfl rfl rfl rfl, fun before h => ?_⟩
    exact h.inert (by simp) rfl rfl rfl id fun hc hd => ⟨hc, hd⟩
  change hf hc before h := hc.account hf h

end

namespace Books

variable {κ : Type} {b b' : Books κ} {forgets : Option (CallRef × CallState)} {h h' : History κ}
  {r : ActorRef}

structure Accounted (b : Books κ) (h : History κ) : Prop where
  account : ∀ r l, b.ledger r = some l → Account b.config (h.of r) (b.mode r) l
  absent : ∀ r, b.ledger r = none → h.of r = []

theorem Deal.absent (hd : b.Deal h b') (hb : b.Fit) (hr : b.ledger r = none) :
    h.of r = [] ∧ b'.ledger r = none := by
  have hne : ∀ {b : Books κ} {r' l}, b.ledger r = none → b.ledger r' = some l → r' ≠ r := by
    rintro b r' l hr hl rfl
    cases hl.symm.trans hr
  induction hd with
  | shuffle | waste => exact ⟨rfl, hr⟩
  | @reply b x vs abroad habroad =>
    have hlt := hb.abroad x (habroad.mem_iff.2 List.mem_cons_self)
    have hx : x.1 ≠ r := fun heq => absurd ((hb.size r).1 hr) (Nat.not_le.2 (heq ▸ hlt))
    exact ⟨by simp [History.of, hx], hr⟩
  | act r' taken abroad hl he =>
    have hr' := hne hr hl
    refine ⟨by rw [History.of_map, if_neg hr'], ?_⟩
    simpa [Books.act, Function.update_of_ne (Ne.symm hr')] using hr
  | both hd hd' ih ih' =>
    obtain ⟨hnone, hr'⟩ := ih hb hr
    obtain ⟨hnone', hr''⟩ := ih' (hd.fit hb) hr'
    exact ⟨by rw [History.of_append, hnone, hnone', List.append_nil], hr''⟩

/-- Nothing is written down of an actor that is not there; it may come. -/
theorem Step.absent (hs : b.Step forgets h b') (hb : b.Fit) (hr : b.ledger r = none) :
    h.of r = [] ∧ (b'.ledger r = none ∨ b'.ledger r = some .new ∧ b'.mode r = .ready) := by
  have hne : ∀ {r' l}, b.ledger r' = some l → r' ≠ r := by
    rintro r' l hl rfl
    cases hl.symm.trans hr
  cases hs with
  | deal hd => exact ⟨(hd.absent hb hr).1, .inl (hd.absent hb hr).2⟩
  | forget => exact ⟨rfl, .inl hr⟩
  | spawn =>
    refine ⟨rfl, ?_⟩
    by_cases heq : r = b.size
    · exact .inr ⟨by simp [heq], hb.absent r hr⟩
    · exact .inl (by simpa [Function.update_of_ne heq] using hr)
  | request r' name args hl | book r' name args hl =>
    refine ⟨by simp [History.of, hne hl], .inl ?_⟩
    simpa [Books.call, Function.update_of_ne (Ne.symm (hne hl))] using hr
  | change r' hl hc =>
    refine ⟨by rw [History.of_map, if_neg (hne hl)], .inl ?_⟩
    simpa [Books.change, Function.update_of_ne (Ne.symm (hne hl))] using hr

theorem Step.accounted (hs : b.Step forgets h' b') (hf : b.Fit) (ha : b.Accounted h) :
    b'.Accounted (h ++ h') := by
  constructor
  · intro r l' hl'
    rw [History.of_append, hs.config]
    cases hl : b.ledger r with
    | some l =>
      obtain ⟨l₁, hl₁, haccount⟩ := hs.pervaded (pervades_account b.config) hf hl
      obtain rfl := Option.some.inj (hl₁.symm.trans hl')
      exact haccount _ (ha.account r l hl)
    | none =>
      obtain ⟨hnone, hcase⟩ := hs.absent hf hl
      rcases hcase with hr | ⟨hr, hmode⟩
      · cases hr.symm.trans hl'
      · obtain rfl := Option.some.inj (hr.symm.trans hl')
        rw [ha.absent r hl, hnone, hmode]
        exact .new b.config
  · intro r hr
    cases hl : b.ledger r with
    | some l =>
      obtain ⟨l₁, hl₁, -⟩ := hs.pervaded (pervades_account b.config) hf hl
      cases hl₁.symm.trans hr
    | none => rw [History.of_append, ha.absent r hl, (hs.absent hf hl).1, List.append_nil]

theorem Deal.heard (hd : b.Deal h b') : ∀ x ∈ h, (∃ e, x.2 = .accepted e) ∨
    (∃ c vs, x.2 = .replied c vs) ∨ ∃ es, x.2 = .cancelled es := by
  induction hd with
  | shuffle | waste => simp
  | reply x vs => simp
  | act r taken abroad hl he =>
    intro x hx
    obtain ⟨y, hy, rfl⟩ := List.mem_map.1 hx
    cases he <;> simp_all
  | both _ _ ih ih' => exact fun x hx => (List.mem_append.1 hx).elim (ih x) (ih' x)

/-- A panic takes its event, and of the batch what the policy says; the mailbox stays. -/
theorem Step.panicked (hs : b.Step forgets h' b') {e : Event κ} {es : List (Event κ)}
    (hmem : (r, .panicked e es) ∈ h') :
    ∃ l, b.ledger r = some l ∧ b'.ledger r = some (l.afterPanic b.config) ∧
      b.mode r = .handling e ∧ b'.mode r = .ready ∧ es = l.dropped b.config := by
  cases hs with
  | deal hd => simpa using hd.heard _ hmem
  | change r' hl hc =>
    obtain ⟨x, hx, heq⟩ := List.mem_map.1 hmem
    obtain ⟨rfl, rfl⟩ := Prod.mk.inj heq
    generalize hm : b.mode r' = mode at hc
    cases hc with
    | panic =>
      obtain ⟨rfl, rfl⟩ : e = _ ∧ es = _ := by simpa using hx
      exact ⟨_, hl, by simp [Books.change], rfl, by simp [Books.change], rfl⟩
    | fly leading leg trailing next hlegs hflies => cases hflies <;> simp at hx
    | _ => simp at hx
  | _ => simp at hmem

end Books

structure Actor.Accounted {κ : Type} (config : Config) (hs : List (Happening κ)) (mode : Mode κ)
    (a : Actor κ) : Prop where
  order : acceptedIn hs =
    consumedIn hs ++ mode.hand ++ a.batch ++ a.mailbox.buffer.read ++ a.mailbox.buffer.write.toList
  pending : a.mailbox.pending = a.mailbox.buffer.size
  processed : a.processed = completionsIn hs
  restarts : a.restarts = panicsIn hs
  batch : a.batch.length ≤ config.batchSize
  /-- A panic drops less than a batch, and nothing under the policy that keeps the rest. -/
  panicked : ∀ e es, .panicked e es ∈ hs →
    es.length < config.batchSize ∧ (config.restartPolicy = .requeueRemaining → es = [])
  timers : ∀ es, .timerPanicked es ∈ hs → es = []
  cancelled : ∀ es, .cancelled es ∈ hs → a.phase = .closed ∧ consumedIn hs = es
  ended : ∀ es, .ended es ∈ hs → es = [] ∨ config.batchSize = 0

/-- What holds of all events in a machine with this history, and at the next move. -/
structure Machine.EventsAccounted {κ : Type} (code : κ → Invocation → Prog κ Unit) (config : Config)
    (h : History κ) (m : Machine κ) : Prop where
  actor : ∀ r a, m.system.actor? r = some a → a.Accounted config (h.of r) (m.mode r)
  panic : ∀ mv r e dropped, (r, .panicked e dropped) ∈ (m.step code mv).1 →
    ∃ a a', m.system.actor? r = some a ∧ (m.step code mv).2.system.actor? r = some a' ∧
      m.mode r = .handling e ∧ a'.mailbox.toList = a.mailbox.toList ∧
      match config.restartPolicy with
      | .dropBatch => dropped = a.batch ∧ a'.batch = []
      | .requeueRemaining => dropped = [] ∧ a'.batch = a.batch
  discard : ∀ mv r es,
    (r, .cancelled es) ∈ (m.step code mv).1 ∨ (r, .ended es) ∈ (m.step code mv).1 →
    ∃ a a', m.system.actor? r = some a ∧ (m.step code mv).2.system.actor? r = some a' ∧
      a'.phase = .closed ∧ es = a.mailbox.toList ∧ a'.mailbox.toList = [] ∧ a'.batch = a.batch
  runs : m.CoversRuns code

namespace Machine

variable {κ : Type}

/-- What can be written down of an actor, at a move after which the system is as is said. -/
inductive Writes (m : Machine κ) (s : System κ) (r : ActorRef) : Happening κ → Prop where
  | accepted (e : Event κ) : Writes m s r (.accepted e)
  | replied (c : CallRef) (vs : List Value) : Writes m s r (.replied c vs)
  | completed (e : Event κ) : Writes m s r (.completed e)
  | panicked (e : Event κ) (es : List (Event κ)) : Writes m s r (.panicked e es)
  | timerPanicked (es : List (Event κ)) : Writes m s r (.timerPanicked es)
  | cancelled (a : Actor κ) (hsystem : s = m.system.close r) (ha : m.system.actor? r = some a)
      (hd : a.dormant = true) : Writes m s r (.cancelled a.mailbox.discard.1)
  | ended (a : Actor κ) (hsystem : s = m.system.dismantle r) (hidle : m.idle r = true)
      (ha : m.system.actor? r = some a) : Writes m s r (.ended a.mailbox.discard.1)

theorem writes_heard (m : Machine κ) (self : ActorRef) (o : Op κ) {x : ActorRef × Happening κ}
    (hx : x ∈ m.system.heard self o) :
    Writes m (System.perform self o m.system).2 x.1 x.2 := by
  unfold System.heard at hx
  split at hx
  case h_1 | h_2 =>
    obtain ⟨c, -, rfl⟩ := List.mem_map.1 hx
    exact .replied c _
  case h_3 | h_4 | h_5 =>
    split at hx
    · exact List.mem_singleton.1 hx ▸ .accepted _
    · cases hx
  case h_6 =>
    split at hx
    · rename_i a ha
      split at hx
      · rename_i hd
        exact List.mem_singleton.1 hx ▸ .cancelled a rfl ha hd
      · cases hx
    · cases hx
  case h_7 => cases hx

theorem writes_step (code : κ → Invocation → Prog κ Unit) (m : Machine κ) (mv : Move κ)
    {x : ActorRef × Happening κ} (hx : x ∈ (m.step code mv).1) :
    Writes m (m.step code mv).2.system x.1 x.2 := by
  cases mv with
  | outside o => exact writes_heard m _ o hx
  | request r name args =>
    simp only [step] at hx
    split at hx
    · exact List.mem_singleton.1 hx ▸ .accepted _
    · cases hx
  | elsewhere c use =>
    simp only [step, System.elsewhere] at hx
    split at hx
    · cases hx
    · cases use with
      | answer vs => exact List.mem_singleton.1 hx ▸ .replied _ vs
      | drop => cases hx
      | pass slot target action =>
        dsimp only at hx
        split at hx
        · exact List.mem_singleton.1 hx ▸ .accepted _
        · cases hx
  | proceed r =>
    cases hmode : m.mode r with
    | ready =>
      simp only [step, proceed, hmode] at hx
      cases hx
    | handling e =>
      cases htodo : m.todo r with
      | op o next =>
        simp only [step, proceed, hmode, htodo] at hx ⊢
        exact writes_heard m r o hx
      | pure =>
        simp only [step, proceed, hmode, htodo] at hx
        obtain rfl := List.mem_singleton.1 hx
        exact .completed e
      | panic =>
        simp only [step, proceed, hmode, htodo] at hx
        obtain rfl := List.mem_singleton.1 hx
        exact .panicked e _
    | firing =>
      cases htodo : m.todo r with
      | op o next =>
        simp only [step, proceed, hmode, htodo] at hx ⊢
        exact writes_heard m r o hx
      | pure =>
        simp only [step, proceed, hmode, htodo] at hx
        cases hx
      | panic =>
        simp only [step, proceed, hmode, htodo] at hx
        obtain rfl := List.mem_singleton.1 hx
        exact .timerPanicked _
  | dismantle r =>
    simp only [step, dismantle] at hx ⊢
    split at hx
    · rename_i hcond
      rw [if_pos hcond]
      have hidle : m.idle r = true := by
        simp only [Bool.and_eq_true] at hcond
        exact hcond.1.1
      obtain ⟨-, a, ha, -⟩ := idle_elim hidle
      obtain rfl := List.mem_singleton.1 hx
      rw [System.ask_eq ha]
      exact .ended a rfl hidle ha
    · cases hx
  | _ => cases hx

/-- Whole operations throw away what is in a mailbox as they close its actor, and at no other time. -/
theorem step_undiscarded (code : κ → Invocation → Prog κ Unit) (m : Machine κ) (mv : Move κ) :
    ∀ x ∈ (m.step code mv).1, x.2.discarded? = [] := by
  rintro ⟨r, x⟩ hx
  have hwrites := writes_step code m mv hx
  cases hwrites <;> rfl

theorem play_undiscarded (code : κ → Invocation → Prog κ Unit) (mvs : List (Move κ)) (m : Machine κ)
    (r : ActorRef) : discardedIn (History.of (play code mvs m).1 r) = [] := by
  induction mvs generalizing m with
  | nil => rfl
  | cons mv mvs ih =>
    rw [play, History.of_append, discardedIn_append, ih, List.append_nil]
    refine List.flatMap_eq_nil_iff.2 fun y hy => ?_
    obtain ⟨x, hx, heq⟩ := List.mem_filterMap.1 hy
    split at heq
    · exact Option.some.inj heq ▸ step_undiscarded code m mv x hx
    · cases heq

theorem pending_of_fit {config : Config} {mode : Mode κ} {a : Actor κ}
    (hf : a.ledger.Fit config mode) : a.mailbox.pending = a.mailbox.toList.length := by
  have hpending := hf.pending
  simpa [Actor.ledger, Ledger.uncounted, Ledger.lifted] using hpending

theorem accounted_of_account {config : Config} {hs : List (Happening κ)} {mode : Mode κ}
    {a : Actor κ} (hf : a.ledger.Fit config mode) (h : Account config hs mode a.ledger)
    (hnone : discardedIn hs = []) : a.Accounted config hs mode := by
  refine ⟨?_, ?_, h.processed, h.restarts, hf.batch, h.panicked, h.timers, ?_, h.ended⟩
  · simpa [Actor.ledger, EventQueue.toList, DoubleBuffer.toList] using h.order
  · rw [pending_of_fit hf, EventQueue.toList, DoubleBuffer.length_toList]
  · intro es hmem
    obtain ⟨hclosed, -, hes⟩ := h.cancelled es hmem
    exact ⟨by simpa [Actor.ledger] using hclosed, by rw [hes, hnone, List.append_nil]⟩

theorem start_accounted (config : Config) (clock : Clock) :
    (resting (.new config clock) : Machine κ).books.Accounted [] := by
  refine ⟨fun r l hl => ?_, fun r _ => rfl⟩
  have hnone : (resting (.new config clock) : Machine κ).books.ledger r = none := rfl
  cases hnone.symm.trans hl

theorem books_accounted (code : κ → Invocation → Prog κ Unit) (config : Config) (clock : Clock)
    (mvs : List (Move κ)) :
    let run := play code mvs (resting (.new config clock))
    run.2.books.Fit ∧ run.2.books.Accounted run.1 ∧ run.2.system.config = config := by
  exact play_induction (P := fun h b => b.Accounted h ∧ b.config = config)
    (fun h b forgets h' b' hf hp hs => ⟨hs.accounted hf hp.1, hs.config.trans hp.2⟩) mvs
    (Books.start_fit config clock) ⟨start_accounted config clock, rfl⟩

/-- Events that are discarded are all that was queued, and their actor is closed after that. -/
theorem step_discards (code : κ → Invocation → Prog κ Unit) {m : Machine κ} (hf : m.books.Fit)
    (mv : Move κ) {r : ActorRef} {es : List (Event κ)}
    (hmem : (r, .cancelled es) ∈ (m.step code mv).1 ∨ (r, .ended es) ∈ (m.step code mv).1) :
    ∃ a a', m.system.actor? r = some a ∧ (m.step code mv).2.system.actor? r = some a' ∧
      a'.phase = .closed ∧ es = a.mailbox.toList ∧ a'.mailbox.toList = [] ∧ a'.batch = a.batch := by
  have hwrites : ∃ x, (x = .cancelled es ∨ x = .ended es) ∧
      Writes m (m.step code mv).2.system r x :=
    hmem.elim (fun hmem => ⟨_, .inl rfl, writes_step code m mv hmem⟩)
      fun hmem => ⟨_, .inr rfl, writes_step code m mv hmem⟩
  obtain ⟨x, hx, hwrites⟩ := hwrites
  cases hwrites with
  | cancelled a hsystem ha hd =>
    obtain ⟨hall, hnil, -⟩ :=
      EventQueue.discard_eq (pending_of_fit (hf.ledger r _ (System.ledger_intro ha)))
    obtain rfl : es = a.mailbox.discard.1 := by simpa [eq_comm] using hx
    have ht := System.Turns.put ha { a with
      dormant := false, closing := true, stirred := true, phase := .closed }
    have hactor := (System.discard_turns ht.actor?_self).actor?_self
    rw [← System.close_dormant ha hd, ← hsystem] at hactor
    exact ⟨a, _, ha, hactor, rfl, hall, hnil, rfl⟩
  | ended a hsystem hidle ha =>
    obtain ⟨hall, hnil, -⟩ :=
      EventQueue.discard_eq (pending_of_fit (hf.ledger r _ (System.ledger_intro ha)))
    obtain rfl : es = a.mailbox.discard.1 := by simpa [eq_comm] using hx
    have hactor := (System.dismantle_turns ha).actor?_self
    rw [← hsystem] at hactor
    exact ⟨a, _, ha, hactor, rfl, hall, hnil, rfl⟩
  | _ => simp at hx

/-- Every event that an actor has ever taken in is, in this order, consumed, in the hand of its
handler, in the batch or in the mailbox. -/
theorem events_accounted (code : κ → Invocation → Prog κ Unit) (config : Config) (clock : Clock)
    (mvs : List (Move κ)) :
    EventsAccounted code config (play code mvs (resting (.new config clock))).1
      (play code mvs (resting (.new config clock))).2 := by
  obtain ⟨hf, ha, hconfig⟩ := books_accounted code config clock mvs
  have hnone := play_undiscarded code mvs (resting (.new config clock))
  generalize play code mvs (resting (.new config clock)) = run at hf ha hconfig hnone ⊢
  obtain ⟨h, m⟩ := run
  subst hconfig
  refine ⟨?_, ?_, fun mv r es => step_discards code hf mv, m.coversRuns code⟩
  · intro r a hactor
    have hl : m.books.ledger r = some a.ledger := System.ledger_intro hactor
    exact accounted_of_account (hf.ledger r _ hl) (ha.account r _ hl) (hnone r)
  · intro mv r e dropped hmem
    obtain ⟨l, hl, hl', hmode, -, rfl⟩ := (step_books code m mv hf).panicked hmem
    obtain ⟨a, hactor, rfl⟩ := System.ledger_elim hl
    obtain ⟨a', hactor', hafter⟩ := System.ledger_elim hl'
    refine ⟨a, a', hactor, hactor', hmode, congrArg Ledger.inbox hafter, ?_⟩
    have hbatch : a'.batch = (a.ledger.afterPanic m.system.config).batch :=
      congrArg Ledger.batch hafter
    unfold Ledger.afterPanic at hbatch
    change match m.system.config.restartPolicy with
      | .dropBatch => a.ledger.dropped m.system.config = a.batch ∧ a'.batch = []
      | .requeueRemaining => a.ledger.dropped m.system.config = [] ∧ a'.batch = a.batch
    unfold Ledger.dropped
    cases hp : m.system.config.restartPolicy with
    | dropBatch => exact ⟨rfl, by simpa [hp] using hbatch⟩
    | requeueRemaining => exact ⟨rfl, by simpa [hp, Actor.ledger] using hbatch⟩

end Machine

end ActorSystem
