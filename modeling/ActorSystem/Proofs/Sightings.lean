import ActorSystem.Proofs.Beats
import ActorSystem.Proofs.Twins

set_option autoImplicit false

namespace ActorSystem

variable {κ : Type}

def Cause.renumber (f : CallRef → CallRef) : Cause κ → Cause κ
  | .event e => .event (e.renumber f)
  | .timer e => .timer e

/-- The deed with its calls under other numbers, and without looks at actors outside. -/
def Deed.seen (D : Division κ) (f : CallRef → CallRef) (d : Deed κ) : Deed κ :=
  { d with
    cause := d.cause.renumber f
    waiting := d.waiting.map (Event.renumber f)
    done := d.done.filter fun x => !x.op.reads D
    left := d.left.map (Event.renumber f) }

def sightings (D : Division κ) (f : CallRef → CallRef) (ds : List (Deed κ)) : List (Deed κ) :=
  (ds.filter fun d => D.inside d.actor).map (Deed.seen D f)

variable {D : Division κ} {f : CallRef → CallRef} {ds ds' : List (Deed κ)}

@[simp] theorem sightings_nil : sightings D f [] = [] := rfl

theorem sightings_append : sightings D f (ds ++ ds') = sightings D f ds ++ sightings D f ds' := by
  simp [sightings]

theorem sightings_eq_nil {r : ActorRef} (hr : D.inside r = false) (hds : ∀ d ∈ ds, d.actor = r) :
    sightings D f ds = [] := by
  have hnone : ds.filter (fun d => D.inside d.actor) = [] := by
    rw [List.filter_eq_nil_iff]
    exact fun d hd => by rw [hds d hd, hr]; simp
  rw [sightings, hnone, List.map_nil]

/-- Two kinds of code that are the same, and heedless, as far as they are that of the actors
inside. -/
structure Division.Agree (D : Division κ) (code code' : κ → Invocation → Prog κ Unit) : Prop where
  same : ∀ k, D.ours k → code' k = code k
  heedless : ∀ k, D.ours k → ∀ i, (code k i).Heedless D

theorem Division.Agree.work {code code' : κ → Invocation → Prog κ Unit} (h : D.Agree code code')
    {w : Work κ} (hw : ∀ k ∈ w.code?, D.ours k) :
    w.prog code' = w.prog code ∧ (w.prog code).Heedless D := by
  cases w with
  | nothing => exact ⟨rfl, trivial⟩
  | crash => exact ⟨rfl, trivial⟩
  | run k i => exact ⟨congrFun (h.same k (hw k rfl)) i, h.heedless k (hw k rfl) i⟩

namespace System

section

variable (code : κ → Invocation → Prog κ Unit) (r : ActorRef)

theorem nextDeeds_actor (s : System κ) : ∀ d ∈ nextDeeds code r s, d.actor = r := by
  intro d hd
  unfold nextDeeds at hd
  split at hd
  · simp at hd
  · split at hd
    · simp at hd
    · obtain rfl := List.mem_singleton.1 hd
      rfl

theorem manyDeeds_actor (n : Nat) (s : System κ) : ∀ d ∈ manyDeeds code r n s, d.actor = r := by
  induction n generalizing s with
  | zero => simp [manyDeeds]
  | succ n ih => exact List.forall_mem_append.2 ⟨nextDeeds_actor code r s, ih _⟩

theorem fireDeeds_actor (s : System κ) : ∀ d ∈ fireDeeds code r s, d.actor = r := by
  intro d hd
  unfold fireDeeds at hd
  split at hd
  · simp at hd
  · obtain rfl := List.mem_singleton.1 hd
    rfl

theorem timerDeeds_actor (max : Nat) (s : System κ) :
    ∀ d ∈ timerDeeds code r max s, d.actor = r := by
  induction max generalizing s with
  | zero => simp [timerDeeds]
  | succ max ih =>
    refine List.forall_mem_append.2 ⟨fireDeeds_actor code r s, ?_⟩
    split
    · exact ih _
    · simp

theorem drainDeeds_actor (n : Nat) (s : System κ) : ∀ d ∈ drainDeeds code r n s, d.actor = r := by
  induction n generalizing s with
  | zero => simp [drainDeeds]
  | succ n ih =>
    refine List.forall_mem_append.2 ⟨manyDeeds_actor code r _ _, ?_⟩
    split
    · simp
    · exact ih _

theorem roundDeeds_actor (s : System κ) : ∀ d ∈ roundDeeds code r s, d.actor = r := by
  refine List.forall_mem_append.2 ⟨List.forall_mem_append.2
    ⟨manyDeeds_actor code r _ _, timerDeeds_actor code r _ _⟩, ?_⟩
  split
  · exact drainDeeds_actor code r _ _
  · simp

theorem turnDeeds_actor (limit : Nat) (s : System κ) : ∀ d ∈ turnDeeds code limit r s, d.actor = r := by
  unfold turnDeeds
  generalize s.wake r = s
  induction limit generalizing s with
  | zero => simp [roundsDeeds]
  | succ limit ih =>
    refine List.forall_mem_append.2 ⟨roundDeeds_actor code r s, ?_⟩
    split
    · exact ih _
    · simp

end

variable {p q : Tally} {s s' t t' : System κ} {r : ActorRef} {a : Actor κ}
  {code code' : κ → Invocation → Prog κ Unit}

namespace Twins

theorem queue (h : Twins D p q s t) (hr : D.inside r = true) :
    (s.ask r [] Actor.queue).map (Event.renumber p.number) =
      (t.ask r [] Actor.queue).map (Event.renumber q.number) := by
  have hqueue : ∀ (f : CallRef → CallRef) (a : Actor κ),
      (a.renumber f).queue = a.queue.map (Event.renumber f) := fun f a => by
    rw [Actor.queue, Actor.queue, List.map_append, ← EventQueue.toList_map]
    rfl
  cases ha : s.actor? r with
  | none => simp [System.ask, ha, h.none hr ha]
  | some a =>
    obtain ⟨a', ha', heq⟩ := h.some hr ha
    rw [ask_eq ha, ask_eq ha', ← hqueue, ← hqueue, heq]

theorem deed (h : Twins D p q s t) (h' : Twins D p q s' t') (hr : D.inside r = true)
    {cause cause' : Cause κ} (hcause : cause.renumber p.number = cause'.renumber q.number)
    {x : Prog κ Unit} (hx : x.Heedless D) :
    sightings D p.number [System.deed r cause x s s'] =
      sightings D q.number [System.deed r cause' x t t'] := by
  obtain ⟨hdone, hresult, -⟩ := h.exec hr hx
  have hscene : (s.actor? r).map Actor.glimpse = (t.actor? r).map Actor.glimpse :=
    h.view hr fun _ _ => rfl
  unfold shown at hdone
  simp only [sightings, System.deed, List.filter_cons, hr, if_true, List.filter_nil, List.map_cons,
    List.map_nil, Deed.seen, hcause, hdone, hresult, hscene, h.clock, h.queue hr, h'.queue hr]

theorem afterEvent (h : Twins D p q s t) (hr : D.inside r = true) (returned : Bool) :
    Twins D p q (s.afterEvent r returned) (t.afterEvent r returned) := by
  cases returned with
  | true =>
    exact h.does hr (afterEvent_does s r) (afterEvent_does t r) Act.complete_blind Act.complete_keeping
  | false =>
    have ht := recover_does t r
    rw [h.config] at ht
    exact h.does hr (recover_does s r) ht (Act.recover_blind _) (Act.recover_keeping _)

theorem afterTimer (h : Twins D p q s t) (hr : D.inside r = true) (returned : Bool) :
    Twins D p q (s.afterTimer r returned) (t.afterTimer r returned) := by
  cases returned with
  | true => exact h.does hr (fired_does s r) (fired_does t r) Act.fired_blind Act.fired_keeping
  | false => exact h.afterEvent hr false

theorem dispatchNext (h : Twins D p q s t) (hr : D.inside r = true) (hcode : D.Agree code code') :
    sightings D p.number (nextDeeds code r s) = sightings D q.number (nextDeeds code' r t) ∧
      Twins D p q (System.dispatchNext code r s) (System.dispatchNext code' r t) := by
  cases ha : s.actor? r with
  | none => simp [nextDeeds, System.dispatchNext, ha, h.none hr ha, h]
  | some a =>
    obtain ⟨a', ha', heq⟩ := h.some hr ha
    have hbatch : a.batch.map (Event.renumber p.number) = a'.batch.map (Event.renumber q.number) :=
      congrArg Actor.batch heq
    cases hb : a.batch with
    | nil =>
      have hb' : a'.batch = [] := by simpa [hb] using hbatch.symm
      simp [nextDeeds, System.dispatchNext, ha, ha', hb, hb', h]
    | cons e rest =>
      rw [hb, List.map_cons] at hbatch
      obtain ⟨e', rest', hb', he, -⟩ := List.map_eq_cons_iff.1 hbatch.symm
      obtain ⟨hs, hw⟩ := opening_does ha hb
      obtain ⟨ht, hw'⟩ := opening_does ha' hb'
      -- What is to be run has nothing to do with the numbers of calls.
      have hwork : (Act.opening a).map Reaction.work = (Act.opening a').map Reaction.work := by
        have hopening := congrArg (fun a => (Act.opening a).map Reaction.work) heq
        simpa only [Act.opening_renumber, Option.map_map, Function.comp_def] using hopening
      have hreceived := h.does hr hs ht Act.begin_blind Act.begin_keeping
      have hours := h.keeps r a hr ha
      rw [dispatchNext_cons code ha hb, dispatchNext_cons code' ha' hb']
      simp only [nextDeeds, ha, hb, ha', hb', dispatchNext_cons code ha hb,
        dispatchNext_cons code' ha' hb']
      generalize (s.put r { a with batch := rest }).receive r e = x at hw hreceived ⊢
      generalize (t.put r { a' with batch := rest' }).receive r e' = y at hw' hreceived ⊢
      obtain ⟨w, s₁⟩ := x
      obtain ⟨w', t₁⟩ := y
      dsimp only at hw hw' hreceived ⊢
      obtain rfl : w = w' := Option.some.inj (hw.symm.trans (hwork.trans hw'))
      obtain ⟨x, hx, rfl⟩ := Option.map_eq_some_iff.1 hw
      obtain ⟨hprog, hheedless⟩ := hcode.work (hours.opening hx).2
      rw [hprog]
      obtain ⟨-, hresult, hexec⟩ := hreceived.exec hr hheedless
      have hafter := hexec.afterEvent hr (System.exec r (x.work.prog code) s₁).1.isSome
      rw [hresult] at hafter ⊢
      have hcause : (Cause.event e).renumber p.number = (Cause.event e').renumber q.number :=
        congrArg Cause.event he.symm
      exact ⟨hreceived.deed hafter hr hcause hheedless, hafter⟩

theorem dispatchMany (h : Twins D p q s t) (hr : D.inside r = true) (hcode : D.Agree code code')
    (n : Nat) :
    sightings D p.number (manyDeeds code r n s) = sightings D q.number (manyDeeds code' r n t) ∧
      Twins D p q (System.dispatchMany code r n s) (System.dispatchMany code' r n t) := by
  induction n generalizing s t with
  | zero => exact ⟨rfl, h⟩
  | succ n ih =>
    obtain ⟨hhere, hnext⟩ := h.dispatchNext hr hcode
    obtain ⟨hthere, hrest⟩ := ih hnext
    rw [manyDeeds, manyDeeds, sightings_append, sightings_append, hhere, hthere]
    exact ⟨rfl, hrest⟩

theorem takeBatch (h : Twins D p q s t) (hr : D.inside r = true) :
    (s.takeBatch r).1 = (t.takeBatch r).1 ∧ Twins D p q (s.takeBatch r).2 (t.takeBatch r).2 := by
  have ht := takeBatch_does t r
  rw [h.config] at ht
  refine ⟨?_, h.does hr (takeBatch_does s r) ht (Act.take_blind _) (Act.take_keeping _)⟩
  simp only [System.takeBatch, atActor_fst, h.config]
  refine h.ask hr 0 fun f a => ?_
  have hbox : (a.renumber f).mailbox = a.mailbox.map (Event.renumber f) := rfl
  rw [hbox, EventQueue.map_take, List.length_map]

theorem processBatch (h : Twins D p q s t) (hr : D.inside r = true) (hcode : D.Agree code code') :
    sightings D p.number (batchDeeds code r s) = sightings D q.number (batchDeeds code' r t) ∧
      (System.processBatch code r s).1 = (System.processBatch code' r t).1 ∧
      Twins D p q (System.processBatch code r s).2 (System.processBatch code' r t).2 := by
  obtain ⟨htaken, htake⟩ := h.takeBatch hr
  have hlength := htake.ask hr 0 (π := fun a => a.batch.length) fun f a => List.length_map _
  unfold System.processBatch batchDeeds
  dsimp only
  rw [hlength, htaken]
  obtain ⟨hdeeds, hmany⟩ := htake.dispatchMany hr hcode
    ((t.takeBatch r).2.ask r 0 fun a => a.batch.length)
  exact ⟨hdeeds, rfl, hmany⟩

theorem expire (h : Twins D p q s t) (hr : D.inside r = true) :
    (s.expire r).1 = (t.expire r).1 ∧ Twins D p q (s.expire r).2 (t.expire r).2 ∧
      ∀ e ∈ (s.expire r).1, D.ours e.payload.callback := by
  have ht := expire_does t r
  rw [h.clock] at ht
  refine ⟨?_, h.does hr (expire_does s r) ht (Act.poll_blind _) (Act.poll_keeping _), ?_⟩
  · simp only [System.expire, atActor_fst, h.clock, Actor.expire_fst]
    exact h.ask hr _ fun _ _ => rfl
  · cases ha : s.actor? r with
    | none => simp [System.expire, atActor_absent ha]
    | some a =>
      rw [System.expire, atActor_eq ha, a.expire_fst]
      exact ((h.keeps r a hr ha).timers.poll s.clock.now).2

theorem fireNext (h : Twins D p q s t) (hr : D.inside r = true) (hcode : D.Agree code code') :
    sightings D p.number (fireDeeds code r s) = sightings D q.number (fireDeeds code' r t) ∧
      (System.fireNext code r s).1 = (System.fireNext code' r t).1 ∧
      Twins D p q (System.fireNext code r s).2 (System.fireNext code' r t).2 := by
  obtain ⟨hexpired, hexpire, hours⟩ := h.expire hr
  unfold fireDeeds
  rw [fireNext_expire, fireNext_expire]
  generalize s.expire r = x at hexpired hexpire hours ⊢
  generalize t.expire r = y at hexpired hexpire ⊢
  obtain ⟨e, s₁⟩ := x
  obtain ⟨e', t₁⟩ := y
  dsimp only at hexpired hexpire hours ⊢
  subst hexpired
  cases e with
  | none => exact ⟨rfl, rfl, hexpire⟩
  | some e =>
    have hcallback := hours e rfl
    dsimp only
    rw [hcode.same _ hcallback]
    have hheedless := hcode.heedless _ hcallback (.timer e.payload.args)
    obtain ⟨-, hresult, hexec⟩ := hexpire.exec hr hheedless
    have hafter := hexec.afterTimer hr
      (System.exec r (code e.payload.callback (.timer e.payload.args)) s₁).1.isSome
    rw [hresult] at hafter ⊢
    exact ⟨hexpire.deed hafter hr rfl hheedless, rfl, hafter⟩

theorem fireTimers (h : Twins D p q s t) (hr : D.inside r = true) (hcode : D.Agree code code')
    (max : Nat) :
    sightings D p.number (timerDeeds code r max s) = sightings D q.number (timerDeeds code' r max t) ∧
      Twins D p q (System.fireTimers code r max s).2 (System.fireTimers code' r max t).2 := by
  induction max generalizing s t with
  | zero => exact ⟨rfl, h⟩
  | succ max ih =>
    obtain ⟨hdeeds, hanswer, hfire⟩ := h.fireNext hr hcode
    unfold timerDeeds System.fireTimers
    rw [sightings_append, sightings_append, hdeeds]
    generalize System.fireNext code r s = x at hanswer hfire ⊢
    generalize System.fireNext code' r t = y at hanswer hfire ⊢
    obtain ⟨e, s₁⟩ := x
    obtain ⟨e', t₁⟩ := y
    dsimp only at hanswer hfire
    subst hanswer
    cases e with
    | none => exact ⟨rfl, hfire⟩
    | some returned =>
      cases returned with
      | false => exact ⟨rfl, hfire⟩
      | true =>
        obtain ⟨hmore, hrest⟩ := ih hfire
        dsimp only
        rw [hmore]
        exact ⟨rfl, hrest⟩

theorem drain (h : Twins D p q s t) (hr : D.inside r = true) (hcode : D.Agree code code') (n : Nat) :
    sightings D p.number (drainDeeds code r n s) = sightings D q.number (drainDeeds code' r n t) ∧
      Twins D p q (System.drain code r n s) (System.drain code' r n t) := by
  induction n generalizing s t with
  | zero => exact ⟨rfl, h⟩
  | succ n ih =>
    obtain ⟨hdeeds, htaken, hbatch⟩ := h.processBatch hr hcode
    unfold drainDeeds System.drain
    rw [sightings_append, sightings_append, hdeeds]
    generalize System.processBatch code r s = x at htaken hbatch ⊢
    generalize System.processBatch code' r t = y at htaken hbatch ⊢
    obtain ⟨taken, s₁⟩ := x
    obtain ⟨taken', t₁⟩ := y
    dsimp only at htaken hbatch
    subst htaken
    cases taken with
    | zero => exact ⟨rfl, hbatch⟩
    | succ taken =>
      obtain ⟨hmore, hrest⟩ := ih hbatch
      dsimp only
      rw [hmore]
      exact ⟨rfl, hrest⟩

theorem shutdown (h : Twins D p q s t) (hr : D.inside r = true) (hcode : D.Agree code code') :
    sightings D p.number (shutdownDeeds code r s) = sightings D q.number (shutdownDeeds code' r t) ∧
      Twins D p q (System.shutdown code r s) (System.shutdown code' r t) := by
  have hlength := h.ask hr 0 (π := fun a => a.mailbox.toList.length + 1) fun f a => by
    have hlist : (a.renumber f).mailbox.toList = a.mailbox.toList.map (Event.renumber f) :=
      EventQueue.toList_map _ _
    rw [hlist, List.length_map]
  unfold shutdownDeeds System.shutdown
  rw [hlength]
  obtain ⟨hdeeds, hdrain⟩ := h.drain hr hcode (t.ask r 0 fun a => a.mailbox.toList.length + 1)
  exact ⟨hdeeds, hdrain.does hr (dismantle_does _ r) (dismantle_does _ r) Act.vacate_blind
    Act.vacate_keeping⟩

theorem pause (h : Twins D p q s t) (hr : D.inside r = true) :
    (s.pause r).1 = (t.pause r).1 ∧ Twins D p q (s.pause r).2 (t.pause r).2 := by
  have ht := pause_does t r
  rw [h.clock] at ht
  refine ⟨?_, h.does hr (pause_does s r) ht (Act.pause_blind _) (Act.pause_keeping _)⟩
  simp only [System.pause, atActor_fst, h.clock]
  refine h.ask hr _ fun f a => ?_
  have hwheel : (a.renumber f).timers = a.timers := rfl
  have hbox : (a.renumber f).mailbox = a.mailbox.map (Event.renumber f) := rfl
  rw [hwheel, hbox, EventQueue.map_announce]
  split <;> rfl

theorem round (h : Twins D p q s t) (hr : D.inside r = true) (hcode : D.Agree code code') :
    sightings D p.number (roundDeeds code r s) = sightings D q.number (roundDeeds code' r t) ∧
      (System.round code r s).1 = (System.round code' r t).1 ∧
      Twins D p q (System.round code r s).2 (System.round code' r t).2 := by
  obtain ⟨hdeeds, htaken, hbatch⟩ := h.processBatch hr hcode
  unfold roundDeeds System.round
  simp only [sightings_append]
  rw [hdeeds]
  generalize System.processBatch code r s = x at htaken hbatch ⊢
  generalize System.processBatch code' r t = y at htaken hbatch ⊢
  obtain ⟨taken, s₁⟩ := x
  obtain ⟨taken', t₁⟩ := y
  dsimp only at htaken hbatch ⊢
  subst htaken
  obtain ⟨htimers, hfire⟩ := hbatch.fireTimers hr hcode s₁.config.maxTimers
  rw [hbatch.config, htimers]
  generalize System.fireTimers code r s₁.config.maxTimers s₁ = x at hfire ⊢
  generalize System.fireTimers code' r s₁.config.maxTimers t₁ = y at hfire ⊢
  obtain ⟨n, s₂⟩ := x
  obtain ⟨n', t₂⟩ := y
  dsimp only at hfire ⊢
  rw [hfire.ask hr true (π := Actor.closing) fun _ _ => rfl]
  split
  · obtain ⟨hlast, hend⟩ := hfire.shutdown hr hcode
    dsimp only
    rw [hlast]
    exact ⟨rfl, rfl, hend⟩
  · split
    · exact ⟨rfl, rfl, hfire⟩
    · exact ⟨rfl, hfire.pause hr⟩

/-- The turns need not be equally limited, if only both end. -/
theorem rounds (h : Twins D p q s t) (hr : D.inside r = true) (hcode : D.Agree code code')
    {limit limit' : Nat} (hs : System.rounds code r limit s = Option.some s')
    (ht : System.rounds code' r limit' t = Option.some t') :
    sightings D p.number (roundsDeeds code r limit s) =
        sightings D q.number (roundsDeeds code' r limit' t) ∧
      Twins D p q s' t' := by
  induction limit generalizing s t limit' with
  | zero => cases hs
  | succ limit ih =>
    cases limit' with
    | zero => cases ht
    | succ limit' =>
      obtain ⟨hdeeds, hmore, hround⟩ := h.round hr hcode
      unfold System.rounds at hs ht
      unfold roundsDeeds
      rw [sightings_append, sightings_append, hdeeds]
      generalize System.round code r s = x at hmore hround hs ⊢
      generalize System.round code' r t = y at hmore hround ht ⊢
      obtain ⟨more, s₁⟩ := x
      obtain ⟨more', t₁⟩ := y
      dsimp only at hmore hround hs ht
      subst hmore
      cases more with
      | true =>
        obtain ⟨hrest, hend⟩ := ih hround hs ht
        dsimp only
        rw [hrest]
        exact ⟨rfl, hend⟩
      | false =>
        obtain rfl := Option.some.inj hs
        obtain rfl := Option.some.inj ht
        exact ⟨rfl, hround⟩

theorem turn (h : Twins D p q s t) (hr : D.inside r = true) (hcode : D.Agree code code')
    {limit limit' : Nat} (hs : System.turn code limit r s = Option.some s')
    (ht : System.turn code' limit' r t = Option.some t') :
    sightings D p.number (turnDeeds code limit r s) =
        sightings D q.number (turnDeeds code' limit' r t) ∧
      Twins D p q s' t' := by
  have hwake := h.does hr (wake_does s r) (wake_does t r) Act.wake_blind Act.wake_keeping
  obtain ⟨s₁, hs₁, rfl⟩ := Option.map_eq_some_iff.1 hs
  obtain ⟨t₁, ht₁, rfl⟩ := Option.map_eq_some_iff.1 ht
  obtain ⟨hdeeds, hrounds⟩ := hwake.rounds hr hcode hs₁ ht₁
  exact ⟨hdeeds, hrounds.does hr (sleep_does s₁ r) (sleep_does t₁ r) Act.sleep_blind
    Act.sleep_keeping⟩

end Twins

namespace Twins

/-- Whatever the loop of an actor outside does, as long as its code leaves those inside alone. -/
theorem beat (h : Twins D p q s t) (hr : D.inside r = false) (hb : Beat (Op.Harmless D) r s s') :
    Twins D p q s' t := by
  have hout : ∀ a, s.actor? r = Option.some a → D.inside r = false := fun _ _ => hr
  cases hb with
  | wake => exact h.aside (wake_does s r) Act.wake_blind hout
  | take => exact h.aside (takeBatch_does s r) (Act.take_blind _) hout
  | begin ha hbatch => exact h.aside (opening_does ha hbatch).1 Act.begin_blind hout
  | perform ho => exact h.perform_aside hout ho
  | complete => exact h.aside (afterEvent_does s r) Act.complete_blind hout
  | recover => exact h.aside (recover_does s r) (Act.recover_blind _) hout
  | poll => exact h.aside (expire_does s r) (Act.poll_blind _) hout
  | fired => exact h.aside (fired_does s r) Act.fired_blind hout
  | pause => exact h.aside (pause_does s r) (Act.pause_blind _) hout
  | dismantle => exact h.aside (dismantle_does s r) Act.vacate_blind hout
  | sleep => exact h.aside (sleep_does s r) Act.sleep_blind hout

theorem turn_aside (h : Twins D p q s t) (hr : D.inside r = false) {limit : Nat}
    (hs : System.turn code limit r s = Option.some s')
    (hds : Within (Op.Harmless D) (turnDeeds code limit r s)) :
    Twins D p q s' t ∧ sightings D p.number (turnDeeds code limit r s) = [] :=
  ⟨Beats.keeps (P := fun s => Twins D p q s t) (fun _ _ h hb => h.beat hr hb)
      (turn_beats limit hds hs) h,
    sightings_eq_nil hr (turnDeeds_actor code r limit s)⟩

end Twins

end System

end ActorSystem
