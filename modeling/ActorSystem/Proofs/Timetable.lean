import ActorSystem.Proofs.Chronicle
import ActorSystem.Proofs.Frames
import ActorSystem.Proofs.Loops
import ActorSystem.Proofs.Refinement

set_option autoImplicit false

namespace ActorSystem

open Timer (Agenda Expired Mirrors TimerId Wheel tickRange)

variable {κ : Type}

def Done.set? (limit : Nat) (now : UInt64) : Done κ → Option (Expired (Task κ))
  | ⟨.setTimer delay callback args _, id⟩ =>
    some ⟨id, min (now.toNat + min delay.toNat limit) (tickRange - 1), ⟨callback, args⟩⟩
  | _ => none

/-- The pending timer that has been cancelled. The running timer is not pending; to cancel it is
answered all the same, and has no effect. -/
def Done.cancelled? (running : Option TimerId) : Done κ → Option TimerId
  | ⟨.cancelTimer id, true⟩ => if running = some id then none else some id
  | _ => none

namespace Deed

def fired? (d : Deed κ) : Option (UInt64 × Expired (Task κ)) :=
  match d.cause with
  | .timer e => some (d.now, e)
  | .event _ => none

def running? (d : Deed κ) : Option TimerId := d.fired?.map fun f => f.2.id

def set (limit : Nat) (d : Deed κ) : List (Expired (Task κ)) := d.done.filterMap (Done.set? limit d.now)

def cancelled (d : Deed κ) : List TimerId := d.done.filterMap (Done.cancelled? d.running?)

def Spends (d d' : Deed κ) : Prop :=
  ∀ f, d.fired? = some f → ∀ b, ⟨.cancelTimer f.2.id, b⟩ ∈ d'.done → b = false

end Deed

section

variable (limit : Nat) (r : ActorRef) (ds ds' : List (Deed κ))

def deedsOf : List (Deed κ) := ds.filter fun d => d.actor == r

def setBy : List (Expired (Task κ)) := (deedsOf r ds).flatMap (Deed.set limit)

/-- The timers whose callbacks have been run, in this order, with the times. -/
def firedBy : List (UInt64 × Expired (Task κ)) := (deedsOf r ds).filterMap Deed.fired?

def cancelledBy : List TimerId := (deedsOf r ds).flatMap Deed.cancelled

def panicsOf : Nat := (deedsOf r ds).countP fun d => !d.returned

def pendingBy : List (Expired (Task κ)) :=
  (setBy limit r ds).filter fun e =>
    !((firedBy r ds).any fun f => f.2.id == e.id) && !(cancelledBy r ds).contains e.id

theorem deedsOf_append : deedsOf r (ds ++ ds') = deedsOf r ds ++ deedsOf r ds' :=
  List.filter_append ..

theorem setBy_append : setBy limit r (ds ++ ds') = setBy limit r ds ++ setBy limit r ds' := by
  rw [setBy, deedsOf_append, List.flatMap_append]
  rfl

theorem setBy_le {limit : Nat} {r : ActorRef} {ds xs ys : List (Deed κ)} {n : Nat}
    (h : (setBy limit r (ds ++ (xs ++ ys))).length ≤ n) : (setBy limit r (ds ++ xs)).length ≤ n := by
  rw [← List.append_assoc, setBy_append, List.length_append] at h
  omega

theorem firedBy_append : firedBy r (ds ++ ds') = firedBy r ds ++ firedBy r ds' := by
  rw [firedBy, deedsOf_append, List.filterMap_append]
  rfl

theorem cancelledBy_append : cancelledBy r (ds ++ ds') = cancelledBy r ds ++ cancelledBy r ds' := by
  rw [cancelledBy, deedsOf_append, List.flatMap_append]
  rfl

theorem panicsOf_append : panicsOf r (ds ++ ds') = panicsOf r ds + panicsOf r ds' := by
  rw [panicsOf, deedsOf_append, List.countP_append]
  rfl

end

/-- The timers in an agenda are told apart by their handles. -/
theorem filter_handle {α : Type} {ts : List (Expired α)} (hs : ts.Pairwise fun x y => x.id < y.id)
    (id : TimerId) :
    (ts.filter fun x => x.id == id).map Expired.id =
      if ts.any (fun x => x.id == id) then [id] else [] := by
  induction ts with
  | nil => rfl
  | cons x ts ih =>
    obtain ⟨hx, hs⟩ := List.pairwise_cons.1 hs
    rw [List.filter_cons, List.any_cons]
    by_cases hid : x.id = id
    · have hnone : ts.any (fun y => y.id == id) = false := by
        rw [List.any_eq_false]
        intro y hy heq
        exact absurd (hx y hy) (by rw [hid, beq_iff_eq.1 heq]; exact UInt64.lt_irrefl id)
      have hrest := ih hs
      rw [hnone] at hrest
      simp [hid, hrest]
    · simpa [hid] using ih hs

/-- The agenda after some operations at one time, as they have been answered. -/
structure Answers (now : UInt64) (a : Agenda (Task κ)) (xs : List (Done κ)) (a' : Agenda (Task κ)) :
    Prop where
  added : a'.added = a.added ++ xs.filterMap (Done.set? a.maxDelay now)
  fired : a'.fired = a.fired
  cancelled : a'.cancelled.map Expired.id =
    a.cancelled.map Expired.id ++ xs.filterMap (Done.cancelled? a.running)
  running : a'.running = a.running
  maxDelay : a'.maxDelay = a.maxDelay
  spent : ∀ f ∈ a.fired, a.running ≠ some f.2.id → ∀ b, ⟨.cancelTimer f.2.id, b⟩ ∈ xs → b = false

namespace Answers

variable {now : UInt64} {a a' a'' : Agenda (Task κ)} {xs ys : List (Done κ)}

theorem nil (a : Agenda (Task κ)) : Answers now a [] a :=
  ⟨by simp, rfl, by simp, rfl, rfl, by simp⟩

theorem append (h : Answers now a xs a') (h' : Answers now a' ys a'') :
    Answers now a (xs ++ ys) a'' := by
  refine ⟨?_, h'.fired.trans h.fired, ?_, h'.running.trans h.running,
    h'.maxDelay.trans h.maxDelay, fun f hf hrun b hb => ?_⟩
  · rw [h'.added, h.added, h.maxDelay, List.filterMap_append, List.append_assoc]
  · rw [h'.cancelled, h.cancelled, h.running, List.filterMap_append, List.append_assoc]
  · rcases List.mem_append.1 hb with hb | hb
    · exact h.spent f hf hrun b hb
    · exact h'.spent f (h.fired ▸ hf) (h.running ▸ hrun) b hb

theorem other {x : Done κ}
    (hset : ∀ delay callback args owned, x.op ≠ .setTimer delay callback args owned)
    (hcancel : ∀ id, x.op ≠ .cancelTimer id) : Answers now a [x] a := by
  obtain ⟨o, answer⟩ := x
  cases o with
  | setTimer delay callback args owned => exact absurd rfl (hset delay callback args owned)
  | cancelTimer id => exact absurd rfl (hcancel id)
  | _ => exact ⟨by simp [Done.set?], rfl, by simp [Done.cancelled?], rfl, rfl, by simp⟩

theorem set (now delay : UInt64) (callback : κ) (args : Args) (owned : List String) :
    Answers now a [⟨.setTimer delay callback args owned, (a.add now delay ⟨callback, args⟩).1⟩]
      (a.add now delay ⟨callback, args⟩).2 := by
  refine ⟨?_, rfl, by simp [Agenda.add, Done.cancelled?], rfl, rfl, by simp⟩
  simp [Agenda.add, Done.set?, Agenda.next]

theorem cancel {t : UInt64} (hk : a.Kept t) (id : TimerId) :
    Answers now a [⟨.cancelTimer id, (a.delete id).1⟩] (a.delete id).2 := by
  unfold Agenda.delete
  by_cases hrun : a.running = some id
  · rw [if_pos hrun]
    refine ⟨by simp [Done.set?], rfl, by simp [Done.cancelled?, hrun], rfl, rfl, ?_⟩
    intro f _ hne b hb
    cases List.mem_singleton.1 hb
    exact absurd hrun hne
  · rw [if_neg hrun]
    refine ⟨by simp [Done.set?], rfl, ?_, rfl, rfl, ?_⟩
    · rw [List.map_append, filter_handle hk.sorted]
      cases a.timers.any (fun x => x.id == id) <;> simp [Done.cancelled?, hrun]
    · intro f hf _ b hb
      cases List.mem_singleton.1 hb
      rw [List.any_eq_false]
      intro e he heq
      exact absurd (hk.before f hf e he) (by rw [beq_iff_eq.1 heq]; exact UInt64.lt_irrefl _)

end Answers

structure Actor.Spared (now limit : UInt64) (a a' : Actor κ) : Prop where
  restarts : a'.restarts = a.restarts
  timers :
    a'.timers = a.timers ∧ (a'.alive = true → a.alive = true) ∧
        (a'.dormant = true → a.dormant = true) ∨
      a.dormant = true ∧ a'.dormant = false ∧ a'.timers = .withMaxDelay now limit

theorem Actor.Spared.trans {now limit : UInt64} {a a' a'' : Actor κ} (h : a.Spared now limit a')
    (h' : a'.Spared now limit a'') : a.Spared now limit a'' := by
  refine ⟨h'.restarts.trans h.restarts, ?_⟩
  rcases h'.timers with ⟨heq', halive', hdormant'⟩ | ⟨hdormant', hstarted', heq'⟩
  · rcases h.timers with ⟨heq, halive, hdormant⟩ | ⟨hdormant, hstarted, heq⟩
    · exact .inl ⟨heq'.trans heq, fun hc => halive (halive' hc), fun hc => hdormant (hdormant' hc)⟩
    · refine .inr ⟨hdormant, ?_, heq'.trans heq⟩
      rw [← Bool.not_eq_true]
      intro hc
      rw [hdormant' hc] at hstarted
      cases hstarted
  · rcases h.timers with ⟨heq, halive, hdormant⟩ | ⟨hdormant, hstarted, heq⟩
    · exact .inr ⟨hdormant hdormant', hstarted', heq'⟩
    · rw [hdormant'] at hstarted
      cases hstarted

namespace System

variable {s s' s'' : System κ} {r self : ActorRef} {a a' : Actor κ}

/-- The clock is the same, and what becomes of the actor leaves its timers alone or starts them. -/
structure Leaves (r : ActorRef) (s s' : System κ) : Prop where
  clock : s'.clock = s.clock
  config : s'.config = s.config
  actor : Option.Rel (Actor.Spared s.clock.now s.config.maxDelayMs) (s.actor? r) (s'.actor? r)

/-- All that the loop of an actor has to do with, as far as its timers are concerned. -/
def clockwork (a : Actor κ) : Wheel (Task κ) × Bool × Bool × Nat :=
  (a.timers, a.alive, a.dormant, a.restarts)

namespace Leaves

theorem spares (h : Spares clockwork s s') : Leaves r s s' := by
  refine ⟨h.clock, h.config, ?_⟩
  have hr := h.actors r
  generalize s.actor? r = x at hr ⊢
  generalize s'.actor? r = y at hr ⊢
  cases x with
  | none =>
    cases y with
    | none => exact .none
    | some b => cases hr
  | some a =>
    cases y with
    | none => cases hr
    | some b =>
      simp only [Option.map_some, Option.some.injEq, clockwork, Prod.mk.injEq] at hr
      obtain ⟨htimers, halive, hdormant, hrestarts⟩ := hr
      exact .some ⟨hrestarts, .inl ⟨htimers, fun hc => halive ▸ hc, fun hc => hdormant ▸ hc⟩⟩

theorem refl (s : System κ) : Leaves r s s := spares (.refl s)

theorem trans (h : Leaves r s s') (h' : Leaves r s' s'') : Leaves r s s'' := by
  refine ⟨h'.clock.trans h.clock, h'.config.trans h.config, ?_⟩
  have h₁ := h.actor
  have h₂ := h'.actor
  rw [h.clock, h.config] at h₂
  generalize s.actor? r = x at h₁ ⊢
  generalize s'.actor? r = y at h₁ h₂
  generalize s''.actor? r = z at h₂ ⊢
  cases h₁ with
  | none =>
    cases h₂
    exact .none
  | some h₁ =>
    cases h₂ with
    | some h₂ => exact .some (h₁.trans h₂)

theorem still (h : Spares Actor.still s s') : Leaves r s s' := spares (h.coarsen clockwork)

theorem elsewhere (hclock : s'.clock = s.clock) (hconfig : s'.config = s.config)
    (hactor : s'.actor? r = s.actor? r) : Leaves r s s' := by
  refine ⟨hclock, hconfig, ?_⟩
  rw [hactor]
  cases s.actor? r with
  | none => exact .none
  | some a => exact .some ⟨rfl, .inl ⟨rfl, id, id⟩⟩

theorem restarts (h : Leaves r s s') : s'.ask r 0 Actor.restarts = s.ask r 0 Actor.restarts := by
  have hactor := h.actor
  unfold ask
  generalize s.actor? r = x at hactor ⊢
  generalize s'.actor? r = y at hactor ⊢
  cases hactor with
  | none => rfl
  | some hspared => exact hspared.restarts

theorem turns {xs : List (CallRef × CallState)} (ha : s.actor? self = some a)
    (ht : Turns s s' self a' xs) (hclock : s'.clock = s.clock)
    (hspared : a.Spared s.clock.now s.config.maxDelayMs a') : Leaves r s s' := by
  by_cases hr : r = self
  · subst hr
    refine ⟨hclock, ht.config, ?_⟩
    rw [ht.actor, Function.update_self, ha]
    exact .some hspared
  · exact elsewhere hclock ht.config (by rw [ht.actor, Function.update_of_ne hr])

end Leaves

theorem start_leaves (s : System κ) (target : ActorRef) : Leaves r s (s.start target).2 := by
  cases ha : s.actor? target with
  | none =>
    rw [start, atActor_absent ha]
    exact .refl s
  | some a =>
    rw [start, atActor_eq ha]
    refine .turns ha (.put ha _) rfl ?_
    unfold Actor.start
    cases hd : a.dormant with
    | true => exact ⟨rfl, .inr ⟨hd, rfl, rfl⟩⟩
    | false => exact ⟨rfl, .inl ⟨rfl, id, id⟩⟩

theorem close_leaves (s : System κ) (target : ActorRef) : Leaves r s (s.close target) := by
  cases ha : s.actor? target with
  | none =>
    rw [close_absent ha]
    exact .refl s
  | some a =>
    cases hd : a.dormant with
    | true =>
      rw [close_dormant ha hd]
      have hput : Leaves r s (s.put target
          { a with dormant := false, closing := true, stirred := true, phase := .closed }) :=
        .turns ha (.put ha _) rfl
          ⟨rfl, .inl ⟨rfl, fun halive => by simp [Actor.alive] at halive, fun h => by cases h⟩⟩
      exact hput.trans (.still (discard_spares _ target))
    | false =>
      rw [close_awake ha hd]
      exact .turns ha (.put ha _) rfl ⟨rfl, .inl ⟨rfl, id, id⟩⟩

/-- Code that is not the actor's own, and own code unless it has to do with timers. -/
theorem perform_leaves (o : Op κ)
    (h : (∀ a, s.actor? r = some a → self ≠ r) ∨
      (∀ delay callback args owned, o ≠ .setTimer delay callback args owned) ∧
        ∀ id, o ≠ .cancelTimer id) :
    Leaves r s (perform self o s).2 := by
  have hother : ∀ {α : Type} (absent : α) (f : Actor κ → α × Actor κ),
      (∀ a, s.actor? r = some a → self ≠ r) → Leaves r s (s.atActor self absent f).2 := by
    intro α absent f hne
    cases ha : s.actor? self with
    | none =>
      rw [atActor_absent ha]
      exact .refl s
    | some a =>
      rw [atActor_eq ha]
      refine .elsewhere rfl rfl ?_
      have hr : r ≠ self := by
        rintro rfl
        exact hne a ha rfl
      rw [actor?_put ha, Function.update_of_ne hr]
  cases o with
  | setTimer delay callback args owned =>
    rcases h with h | ⟨h, -⟩
    · exact hother 0 _ h
    · exact absurd rfl (h delay callback args owned)
  | cancelTimer id =>
    rcases h with h | ⟨-, h⟩
    · exact (hother (false, []) (fun a => a.cancel id) h).trans (.spares (.giveUpAll _ _))
    · exact absurd rfl (h id)
  | start target => exact start_leaves s target
  | close target => exact close_leaves s target
  | _ => exact .still (perform_calm self rfl s)

theorem exec_leaves {α : Type} (p : Prog κ α) (hself : self ≠ r) (s : System κ) :
    Leaves r s (exec self p s).2 := by
  induction p generalizing s with
  | pure x => exact .refl s
  | panic => exact .refl s
  | op o next ih => exact (perform_leaves o (.inl fun _ _ => hself)).trans (ih _ _)

/-- The agenda says what the wheel of the actor holds while it is alive; before that it is empty. -/
structure Minds (g : Agenda (Task κ)) (s : System κ) (r : ActorRef) : Prop where
  kept : g.Kept s.clock.now
  tick : s.clock.now.toNat < tickRange
  alive : ∀ a, s.actor? r = some a → a.alive = true → ∃ ps, Mirrors g a.timers ps s.clock.now
  dormant : (∀ a, s.actor? r = some a → a.dormant = true) → g = .start s.config.maxDelayMs

namespace Minds

variable {g g' : Agenda (Task κ)}

theorem leaves (h : Minds g s r) (hl : Leaves r s s') : Minds g s' r := by
  have hactor := hl.actor
  refine ⟨hl.clock ▸ h.kept, hl.clock ▸ h.tick, fun a' ha' halive => ?_, fun hdormant => ?_⟩
  · rw [ha'] at hactor
    generalize ha : s.actor? r = x at hactor
    cases hactor with
    | @some a _ hspared =>
    rw [hl.clock]
    rcases hspared.timers with ⟨heq, hback, -⟩ | ⟨hd, -, heq⟩
    · obtain ⟨ps, hm⟩ := h.alive a ha (hback halive)
      exact ⟨ps, heq ▸ hm⟩
    · have hstart := h.dormant fun b hb => by
        rw [ha] at hb
        obtain rfl := Option.some.inj hb
        exact hd
      rw [heq, hstart]
      exact ⟨[], .start _ _⟩
  · rw [hl.config]
    refine h.dormant fun _ ha => ?_
    rw [ha] at hactor
    generalize ha' : s'.actor? r = x at hactor
    cases hactor with
    | @some _ a' hspared =>
    rcases hspared.timers with ⟨-, -, hback⟩ | ⟨hd, -, -⟩
    · exact hback (hdormant a' ha')
    · exact hd

/-- The wheel of a living actor is replaced, with what is asked of the agenda. -/
theorem retime (h : Minds g s r) (hclock : s'.clock = s.clock) (ha' : s'.actor? r = some a')
    (hdormant : a'.dormant = false) (hk : g'.Kept s.clock.now)
    (hm : ∃ ps, Mirrors g' a'.timers ps s.clock.now) : Minds g' s' r := by
  refine ⟨hclock ▸ hk, hclock ▸ h.tick, fun b hb _ => ?_, fun hd => ?_⟩
  · rw [ha'] at hb
    obtain rfl := Option.some.inj hb
    rw [hclock]
    exact hm
  · have hd' := hd a' ha'
    rw [hdormant] at hd'
    cases hd'

theorem perform (h : Minds g s r) (ha : s.actor? r = some a) (halive : a.alive = true) (o : Op κ)
    (hfew : g.added.length + ([⟨o, (System.perform r o s).1⟩].filterMap
      (Done.set? g.maxDelay s.clock.now)).length ≤ 2 ^ 24 - 2) :
    ∃ g', Minds g' (System.perform r o s).2 r ∧
      Answers s.clock.now g [⟨o, (System.perform r o s).1⟩] g' := by
  obtain ⟨ps, hm⟩ := h.alive a ha halive
  have hdormant : a.dormant = false := (Ledger.alive_elim (l := a.ledger) halive).1
  cases o with
  | setTimer delay callback args owned =>
    obtain ⟨hans, qs, hq⟩ := hm.add h.tick (by simpa [Done.set?] using hfew) delay ⟨callback, args⟩
    have hk := h.kept.add h.tick (by simpa [Done.set?] using hfew) delay ⟨callback, args⟩
    refine ⟨(g.add s.clock.now delay ⟨callback, args⟩).2, ?_, ?_⟩
    · simp only [System.perform]
      rw [atActor_eq ha]
      exact h.retime rfl (Turns.put ha _).actor?_self hdormant hk ⟨qs, hq⟩
    · simp only [System.perform]
      rw [atActor_eq ha]
      dsimp only
      exact hans.symm ▸ .set _ _ _ _ _
  | cancelTimer id =>
    obtain ⟨hans, qs, hq⟩ := hm.delete id
    have ht := (Turns.put ha (a.cancel id).2).giveUpAll (a.cancel id).1.2
    have hcancel : s.cancelTimer r id =
        ((a.timers.delete id).1, (s.put r (a.cancel id).2).giveUpAll (a.cancel id).1.2) := by
      rw [cancelTimer_eq, atActor_eq ha, a.cancel_fst]
    refine ⟨(g.delete id).2, ?_, ?_⟩
    · change Minds _ (s.cancelTimer r id).2 r
      rw [hcancel]
      refine h.retime ?_ ht.actor?_self (a.cancel_dormant id ▸ hdormant) (h.kept.delete id)
        ⟨qs, a.cancel_timers id ▸ hq⟩
      rw [giveUpAll_eq]
      rfl
    · change Answers _ _ [⟨.cancelTimer id, (s.cancelTimer r id).1⟩] _
      rw [hcancel, hans]
      exact .cancel h.kept id
  | _ =>
    exact ⟨g, h.leaves (perform_leaves _ (.inr ⟨by simp, by simp⟩)), .other (by simp) (by simp)⟩

theorem exec {α : Type} (h : Minds g s r) (halive : s.Alive r) (p : Prog κ α)
    (hfew : g.added.length +
      ((doings r p s).filterMap (Done.set? g.maxDelay s.clock.now)).length ≤ 2 ^ 24 - 2) :
    ∃ g', Minds g' (System.exec r p s).2 r ∧ Answers s.clock.now g (doings r p s) g' := by
  induction p generalizing s g with
  | pure x => exact ⟨g, h, .nil g⟩
  | panic => exact ⟨g, h, .nil g⟩
  | op o next ih =>
    obtain ⟨l, hl, hlive⟩ := halive
    obtain ⟨a, ha, rfl⟩ := ledger_elim hl
    have hsplit : doings r (.op o next) s =
        [⟨o, (System.perform r o s).1⟩] ++
          doings r (next (System.perform r o s).1) (System.perform r o s).2 := rfl
    rw [hsplit, List.filterMap_append, List.length_append] at hfew
    obtain ⟨g₁, h₁, hans⟩ := h.perform ha hlive o (by omega)
    have hclock := (perform_spares r o s).clock
    have halive₁ := (Shrinks.perform (r := r) s o).alive ⟨_, hl, hlive⟩
    obtain ⟨g₂, h₂, hrest⟩ := ih (System.perform r o s).1 h₁ halive₁ (by
      rw [hans.added, hans.maxDelay, hclock, List.length_append]
      omega)
    rw [hclock] at hrest
    exact ⟨g₂, h₂, hsplit ▸ hans.append hrest⟩

end Minds

end System

/-- The timers in the chronicle are those of the agenda, and so are those gone. -/
structure Logged (limit : Nat) (r : ActorRef) (ds : List (Deed κ)) (g : Agenda (Task κ)) : Prop where
  added : g.added = setBy limit r ds
  fired : g.fired = firedBy r ds
  cancelled : g.cancelled.map Expired.id = cancelledBy r ds
  spent : (deedsOf r ds).Pairwise Deed.Spends

namespace Logged

variable {limit : Nat} {r : ActorRef} {ds : List (Deed κ)} {d : Deed κ} {g g₁ g' : Agenda (Task κ)}

theorem other (h : Logged limit r ds g) (hd : d.actor ≠ r) : Logged limit r (ds ++ [d]) g := by
  have hnone : deedsOf r [d] = [] := by simp [deedsOf, hd]
  have hdeeds : deedsOf r (ds ++ [d]) = deedsOf r ds := by
    rw [deedsOf_append, hnone, List.append_nil]
  refine ⟨?_, ?_, ?_, hdeeds ▸ h.spent⟩
  · rw [setBy, hdeeds, h.added, setBy]
  · rw [firedBy, hdeeds, h.fired, firedBy]
  · rw [cancelledBy, hdeeds, h.cancelled, cancelledBy]

/-- The actor's own code has run, and `g₁` was the agenda when it began. -/
theorem own (h : Logged limit r ds g) (hd : d.actor = r) (hlimit : g₁.maxDelay = limit)
    (hadded : g₁.added = g.added) (hcancelled : g₁.cancelled = g.cancelled)
    (hfired : g₁.fired = g.fired ++ d.fired?.toList) (hrunning : g₁.running = d.running?)
    (hnew : ∀ f ∈ g.fired, d.running? ≠ some f.2.id) (hans : Answers d.now g₁ d.done g') :
    Logged limit r (ds ++ [d]) g' := by
  have hone : deedsOf r [d] = [d] := by simp [deedsOf, hd]
  refine ⟨?_, ?_, ?_, ?_⟩
  · rw [hans.added, hadded, h.added, setBy_append, hlimit]
    simp [setBy, hone, Deed.set]
  · rw [hans.fired, hfired, h.fired, firedBy_append]
    cases hf : d.fired? <;> simp [firedBy, hone, hf]
  · rw [hans.cancelled, hcancelled, h.cancelled, cancelledBy_append, hrunning]
    simp [cancelledBy, hone, Deed.cancelled]
  · rw [deedsOf_append, hone, List.pairwise_append]
    refine ⟨h.spent, List.pairwise_singleton _ _, fun d₀ hd₀ d₁ hd₁ f hf => ?_⟩
    obtain rfl := List.mem_singleton.1 hd₁
    have hmem : f ∈ g.fired := by
      rw [h.fired]
      exact List.mem_filterMap.2 ⟨d₀, hd₀, hf⟩
    refine hans.spent f ?_ (hrunning ▸ hnew f hmem)
    rw [hfired]
    exact List.mem_append_left _ hmem

end Logged

end ActorSystem
