import ActorSystem.Proofs.Courses
import ActorSystem.Proofs.Punctual

/-!
The timers of an actor in the course of a scenario: each is fired once, in its turn, in the first
turn of the actor at which it is due, whatever code panics.
-/

set_option autoImplicit false

namespace ActorSystem

open Timer (Agenda Expired Mirrors TimerId tickRange)

variable {κ : Type}

def Config.delayLimit (config : Config) : Nat := min config.maxDelayMs.toNat Timer.maxDelay

def Stir.clock? : Stir κ → Option Clock
  | .arrange clock _ _ _ _ => some clock
  | _ => none

def Stir.turn? : Stir κ → Option ActorRef
  | .turn r => some r
  | _ => none

def clocks (xs : List (Stir κ)) : List Clock := xs.filterMap Stir.clock?

/-- From this time on time does not run backwards, and does not get past the last tick. -/
structure Timely (clock : Clock) (xs : List (Stir κ)) : Prop where
  forward : (clock :: clocks xs).Pairwise fun c c' => c.now ≤ c'.now
  within : ∀ c ∈ clock :: clocks xs, c.now.toNat < tickRange

namespace Timely

variable {clock : Clock} {x : Stir κ} {xs ys : List (Stir κ)}

theorem next (h : Timely clock (x :: xs)) :
    clock.now ≤ (x.clock?.getD clock).now ∧ (x.clock?.getD clock).now.toNat < tickRange := by
  cases hx : x.clock? with
  | none => exact ⟨UInt64.le_refl _, h.within clock List.mem_cons_self⟩
  | some c =>
    have hc : c ∈ clocks (x :: xs) := List.mem_filterMap.2 ⟨x, List.mem_cons_self, hx⟩
    exact ⟨(List.pairwise_cons.1 h.forward).1 c hc, h.within c (List.mem_cons_of_mem _ hc)⟩

theorem tail (h : Timely clock (x :: xs)) : Timely (x.clock?.getD clock) xs := by
  have hforward := h.forward
  have hwithin := h.within
  rw [clocks, List.filterMap_cons] at hforward hwithin
  cases hx : x.clock? with
  | none =>
    rw [hx] at hforward hwithin
    exact ⟨hforward, hwithin⟩
  | some c =>
    rw [hx] at hforward hwithin
    exact ⟨(List.pairwise_cons.1 hforward).2, fun c hc => hwithin c (List.mem_cons_of_mem _ hc)⟩

theorem before (h : Timely clock (xs ++ ys)) : Timely clock xs := by
  have hsub : (clock :: clocks xs).Sublist (clock :: clocks (xs ++ ys)) := by
    rw [clocks, clocks, List.filterMap_append]
    exact (List.sublist_append_left _ _).cons_cons clock
  exact ⟨h.forward.sublist hsub, fun c hc => h.within c (hsub.subset hc)⟩

end Timely

structure InTime (limit : Nat) (r : ActorRef) (ds : List (Deed κ)) : Prop where
  distinct : ((setBy limit r ds).map Expired.id).Nodup
  genuine : ∀ f ∈ firedBy r ds, f.2 ∈ setBy limit r ds
  /-- A timer that has been set is fired or cancelled or still pending, and only one of these. -/
  once : ((firedBy r ds).map (fun f => f.2.id) ++ cancelledBy r ds ++
    (pendingBy limit r ds).map Expired.id).Perm ((setBy limit r ds).map Expired.id)
  notEarly : ∀ f ∈ firedBy r ds, f.2.due ≤ f.1.toNat
  /-- Timers are fired as they are due, and those of one tick as they were set. -/
  inTurn : ((firedBy r ds).map Prod.snd).Pairwise fun x y =>
    x.due < y.due ∨ x.due = y.due ∧ [x, y].Sublist (setBy limit r ds)
  /-- Once its callback has been run, to the end or to a panic, a timer cannot be cancelled. -/
  spent : (deedsOf r ds).Pairwise Deed.Spends
  /-- No callback, not even one that panics, takes away an event that waits. -/
  undisturbed : ∀ d ∈ deedsOf r ds, d.fired?.isSome = true → d.waiting <+: d.left

/-- What picks out the second part of a list picks out the same of the list in another order. -/
theorem perm_filter {α : Type} {p : α → Bool} {xs ys zs : List α} (h : (xs ++ ys).Perm zs)
    (hxs : ∀ x ∈ xs, p x = false) (hys : ∀ y ∈ ys, p y = true) : ys.Perm (zs.filter p) := by
  have hperm := h.filter p
  have hnone : xs.filter p = [] :=
    List.filter_eq_nil_iff.2 fun x hx => by simp [hxs x hx]
  rwa [List.filter_append, hnone, List.filter_eq_self.2 hys, List.nil_append] at hperm

/-- The timers in the agenda are those that the chronicle has for pending. -/
theorem Logged.pending {limit : Nat} {r : ActorRef} {ds : List (Deed κ)} {g : Agenda (Task κ)}
    {t : UInt64} (h : Logged limit r ds g) (hk : g.Kept t) :
    g.timers.Perm (pendingBy limit r ds) := by
  have hids := (hk.once.map Expired.id).nodup_iff.2 hk.faithful.distinct
  rw [List.map_append, List.nodup_append] at hids
  obtain ⟨-, -, hapart⟩ := hids
  refine perm_filter (h.added ▸ hk.once) (fun e he => ?_) (fun e he => ?_)
  · obtain hfired | hcancelled := List.mem_append.1 he
    · obtain ⟨f, hf, rfl⟩ := List.mem_map.1 hfired
      have hany : ((firedBy r ds).any fun f' => f'.2.id == f.2.id) = true :=
        List.any_eq_true.2 ⟨f, h.fired ▸ hf, beq_self_eq_true _⟩
      simp [hany]
    · have hmem : e.id ∈ cancelledBy r ds := h.cancelled ▸ List.mem_map_of_mem hcancelled
      simp [hmem]
  · have hid : e.id ∈ g.timers.map Expired.id := List.mem_map_of_mem he
    have hnot : ∀ f ∈ firedBy r ds, f.2.id ≠ e.id := by
      intro f hf
      refine hapart f.2.id (List.mem_map_of_mem (List.mem_append_left _ ?_)) e.id hid
      exact List.mem_map_of_mem (h.fired ▸ hf)
    have hnot' : e.id ∉ cancelledBy r ds := by
      rw [← h.cancelled]
      intro hmem
      refine hapart e.id ?_ e.id hid rfl
      rw [List.map_append]
      exact List.mem_append_right _ hmem
    simpa [hnot'] using hnot

/-- A timer that is to be fired later has been pending all along. -/
theorem InTime.pending_of_fired {limit : Nat} {r : ActorRef} {ds ds' : List (Deed κ)}
    (h : InTime limit r (ds ++ ds')) {f : UInt64 × Expired (Task κ)} (hf : f ∈ firedBy r ds')
    (hset : f.2 ∈ setBy limit r ds) : f.2 ∈ pendingBy limit r ds := by
  have hids := (List.nodup_append.1 (h.once.nodup_iff.2 h.distinct)).1
  obtain ⟨hfired, -, hapart⟩ := List.nodup_append.1 hids
  rw [firedBy_append, List.map_append] at hfired hapart
  have hlater : f.2.id ∈ (firedBy r ds').map fun f => f.2.id := List.mem_map_of_mem hf
  have hnot : ∀ f' ∈ firedBy r ds, f'.2.id ≠ f.2.id := fun f' hf' =>
    (List.nodup_append.1 hfired).2.2 f'.2.id (List.mem_map_of_mem hf') f.2.id hlater
  have hnot' : f.2.id ∉ cancelledBy r ds := by
    intro hmem
    refine hapart f.2.id (List.mem_append_right _ hlater) f.2.id ?_ rfl
    rw [cancelledBy_append]
    exact List.mem_append_left _ hmem
  refine List.mem_filter.2 ⟨hset, ?_⟩
  simpa [hnot'] using hnot

theorem System.Timed.inTime {limit : Nat} {r : ActorRef} {c : Clock} {ds : List (Deed κ)}
    {s : System κ} {g : Agenda (Task κ)} (h : Timed limit r c ds s g) : InTime limit r ds := by
  have hk := h.minds.kept
  have hfaithful := hk.faithful
  have hadded := h.logged.added
  have hfired := h.logged.fired
  refine ⟨hadded ▸ hfaithful.distinct, fun f hf => ?_, ?_, fun f hf => ?_, ?_, h.logged.spent,
    h.undisturbed⟩
  · rw [← hadded]
    refine hk.once.subset (List.mem_append_left _ (List.mem_append_left _ ?_))
    exact List.mem_map_of_mem (hfired ▸ hf)
  · rw [← hadded, ← hfired, ← h.logged.cancelled]
    refine List.Perm.trans ?_ (hk.once.map Expired.id)
    rw [List.map_append, List.map_append, List.map_map]
    exact ((h.logged.pending hk).map Expired.id).symm.append_left _
  · exact hfaithful.notEarly f (hfired ▸ hf)
  · have hturn := hfaithful.inTurn
    rw [hfired] at hturn
    exact hturn.imp fun hxy => hadded ▸ hxy

/-- Nothing is left to do for an actor: no event waits for it, no timer runs, and none is due. -/
structure Waits (limit : Nat) (ds : List (Deed κ)) (s : System κ) (r : ActorRef) (a : Actor κ) :
    Prop where
  queue : a.queue = []
  idle : a.timers.running = none
  len : a.timers.len = (pendingBy limit r ds).length
  unfired : (a.timers.poll s.clock.now).1 = none
  later : ∀ e ∈ pendingBy limit r ds, s.clock.now.toNat < e.due

namespace System

variable {code : κ → Invocation → Prog κ Unit} {limit : Nat} {c : Clock} {s s' : System κ}
  {r : ActorRef} {a : Actor κ} {ds deeds : List (Deed κ)}

theorem Timed.waits {g : Agenda (Task κ)} (h : Timed limit r c ds s g) (ha : s.actor? r = some a)
    (halive : a.alive = true) (hlull : s.Lull r) : Waits limit ds s r a := by
  obtain ⟨b, hb, hqueue, hwake⟩ := hlull
  obtain rfl := Option.some.inj (ha.symm.trans hb)
  obtain ⟨ps, hm⟩ := h.minds.alive a ha halive
  have hpending := h.logged.pending h.minds.kept
  have hlater := hm.not_due h.minds.tick hwake
  have hpoll := (h.minds.kept.faithful.idle _).2 hlater
  refine ⟨hqueue, hm.running.trans h.idle, ?_, ?_, fun e he => hlater e (hpending.symm.subset he)⟩
  · rw [hm.sound.filed.len, ← hpending.length_eq, hm.perm.length_eq, List.length_map]
  · exact (hm.poll h.minds.kept h.minds.tick).1.trans hpoll

namespace OnTime

theorem start {config : Config} {clock : Clock} (htick : clock.now.toNat < tickRange) :
    OnTime config.delayLimit r clock [] (new config clock : System κ) := by
  have hnone : (new config clock : System κ).actor? r = none := by simp [actor?, new]
  refine ⟨.start config.maxDelayMs, rfl, ⟨Agenda.kept_start _ _, htick, ?_, fun _ => rfl⟩,
    ⟨rfl, rfl, rfl, .nil⟩, rfl, rfl, ?_, by simp [deedsOf]⟩
  · intro a ha
    rw [hnone] at ha
    cases ha
  · rw [ask, hnone]
    rfl

theorem spawn (h : OnTime limit r c ds s) (name : String) :
    OnTime limit r c ds (s.spawn name).2 := by
  obtain ⟨g, hg⟩ := h
  by_cases hr : r = s.actors.size
  · have hnone : s.actor? r = none := by simp [actor?, hr]
    obtain ⟨a, ha, hdormant, hrestarts⟩ : ∃ a, (s.spawn name).2.actor? r = some a ∧
        a.dormant = true ∧ a.restarts = 0 := by
      simp [System.spawn, actor?, hr, Actor.new]
    refine ⟨g, hg.clock, ⟨hg.minds.kept, hg.minds.tick, fun b hb halive => ?_, fun _ => ?_⟩,
      hg.logged, hg.maxDelay, hg.idle, ?_, hg.undisturbed⟩
    · obtain rfl := Option.some.inj (ha.symm.trans hb)
      have hstarted := (Ledger.alive_elim (l := a.ledger) halive).1
      have hdormant' : a.ledger.dormant = true := hdormant
      rw [hstarted] at hdormant'
      cases hdormant'
    · refine hg.minds.dormant fun b hb => ?_
      rw [hnone] at hb
      cases hb
    · rw [← hg.restarts, ask_eq ha, ask, hnone, hrestarts]
      rfl
  · refine OnTime.leaves ⟨g, hg⟩ (.elsewhere rfl rfl ?_)
    simp [System.spawn, actor?, Array.getElem?_push, hr]

theorem arrange (h : OnTime limit r c ds s) {clock : Clock} (hle : c.now ≤ clock.now)
    (htick : clock.now.toNat < tickRange) (ids : IdSource) (started : Bool)
    (names : Table String ActorRef) (pools : Table String Pool) :
    OnTime limit r clock ds { s with clock, ids, started, names, pools } := by
  obtain ⟨g, hg⟩ := h
  obtain rfl := hg.clock
  refine ⟨g, rfl, ⟨hg.minds.kept.later hle, htick, fun a ha halive => ?_, hg.minds.dormant⟩,
    hg.logged, hg.maxDelay, hg.idle, hg.restarts, hg.undisturbed⟩
  obtain ⟨ps, hm⟩ := hg.minds.alive a ha halive
  exact ⟨ps, hm.later hle⟩

theorem stir (n : Nat) {x : Stir κ} {xs : List (Stir κ)} (h : OnTime limit r c ds s)
    (hq : s.Quiet) (hx : x ≠ .run) (htime : Timely c (x :: xs))
    (hend : System.stir code n x s = some (deeds, s'))
    (hfew : (setBy limit r (ds ++ deeds)).length ≤ 2 ^ 24 - 2) :
    OnTime limit r (x.clock?.getD c) (ds ++ deeds) s' := by
  have hdone : ∀ {c' : Clock} {s₁ : System κ}, some ([], s₁) = some (deeds, s') →
      OnTime limit r c' ds s₁ → OnTime limit r c' (ds ++ deeds) s' := by
    intro c' s₁ heq h₁
    obtain ⟨rfl, rfl⟩ := Prod.mk.inj (Option.some.inj heq)
    rwa [List.append_nil]
  cases x with
  | outside o =>
    have hnobody : ∀ a, s.actor? r = some a → s.actors.size ≠ r := by
      rintro a ha rfl
      simp [actor?] at ha
    exact hdone hend (h.leaves (perform_leaves o (.inl hnobody)))
  | request r' name args => exact hdone hend (h.leaves (.still (request_spares s r' name args)))
  | expire c => exact hdone hend (h.leaves (.spares (.settle s c .timedOut)))
  | abandon c => exact hdone hend (h.leaves (.spares (.settle s c .abandoned)))
  | spawn name => exact hdone hend (h.spawn name)
  | arrange clock ids started names pools =>
    obtain ⟨hle, htick⟩ := htime.next
    exact hdone hend (h.arrange hle htick ids started names pools)
  | turn r' =>
    simp only [System.stir] at hend
    split at hend
    · rename_i halive
      obtain ⟨s₁, hturn, heq⟩ := Option.map_eq_some_iff.1 hend
      obtain ⟨rfl, rfl⟩ := Prod.mk.inj heq
      exact h.turn n hq (alive_of_ask halive) hturn hfew
    · exact hdone hend h
  | run => exact absurd rfl hx

theorem course (n : Nat) (xs : List (Stir κ)) (h : OnTime limit r c ds s) (hq : s.Quiet)
    (hno : .run ∉ xs) (htime : Timely c xs) (hend : System.course code n xs s = some (deeds, s'))
    (hfew : (setBy limit r (ds ++ deeds)).length ≤ 2 ^ 24 - 2) :
    ∃ c', OnTime limit r c' (ds ++ deeds) s' := by
  induction xs generalizing s c ds deeds with
  | nil =>
    obtain ⟨rfl, rfl⟩ := Prod.mk.inj (Option.some.inj hend)
    exact ⟨c, by rwa [List.append_nil]⟩
  | cons x xs ih =>
    obtain ⟨⟨here, s₁⟩, hhere, hrest⟩ := Option.bind_eq_some_iff.1 hend
    obtain ⟨⟨there, s₂⟩, hthere, heq⟩ := Option.map_eq_some_iff.1 hrest
    obtain ⟨rfl, rfl⟩ := Prod.mk.inj heq
    rw [List.mem_cons, not_or] at hno
    have h₁ := h.stir n hq (Ne.symm hno.1) htime hhere (setBy_le hfew)
    rw [← List.append_assoc] at hfew ⊢
    exact ih h₁ (stir_leads x hhere hq).2 hno.2 htime.tail hthere hfew

end OnTime

/-- Where a scenario ends with a turn of an actor, the actor has nothing left to do. -/
theorem course_lull {config : Config} {clock : Clock} (n : Nat) (init : List (Stir κ))
    (hend : course code n (init ++ [.turn r]) (.new config clock) = some (ds, s))
    (halive : s.Alive r) : s.Lull r := by
  obtain ⟨here, s₀, there, hhere, hthere, -⟩ := course_split hend
  obtain ⟨hreach, hq⟩ := course_leads init hhere (quiet_new config clock)
  obtain ⟨⟨d, s₁⟩, hturn, hrest⟩ := Option.bind_eq_some_iff.1 hthere
  obtain ⟨-, rfl⟩ := Prod.mk.inj (Option.some.inj hrest)
  simp only [System.stir] at hturn
  split at hturn
  · rename_i hask
    obtain ⟨s₂, hs₂, heq⟩ := Option.map_eq_some_iff.1 hturn
    obtain ⟨-, rfl⟩ := Prod.mk.inj heq
    exact turn_lull n hreach hq (alive_of_ask hask) hs₂ halive
  · rename_i hask
    obtain ⟨-, rfl⟩ := Prod.mk.inj (Option.some.inj hturn)
    obtain ⟨l, hl, hlive⟩ := halive
    obtain ⟨a, ha, rfl⟩ := ledger_elim hl
    rw [ask_eq ha] at hask
    exact absurd hlive hask

/-- However a scenario goes on, and whatever the code of the actors does, and wherever it panics,
as long as time does not run backwards: no timer of an actor is lost, fired twice, early or out of
turn. Cut between two of its turns, the scenario has got to where the actor, unless it has ended,
waits with no timer that is due; so those that are fired later are not due yet. -/
theorem course_punctual (code : κ → Invocation → Prog κ Unit) {config : Config} {clock : Clock}
    {n : Nat} {xs pre post : List (Stir κ)} {deeds : List (Deed κ)} {s : System κ} (r : ActorRef)
    (htime : Timely clock xs) (hend : course code n xs (.new config clock) = some (deeds, s))
    (hfew : (setBy config.delayLimit r deeds).length ≤ 2 ^ 24 - 2)
    (hsplit : turnByTurn code n xs (.new config clock) = pre ++ post) :
    ∃ before mid after,
      course code n pre (.new config clock) = some (before, mid) ∧
      course code n post mid = some (after, s) ∧ before ++ after = deeds ∧
      InTime config.delayLimit r before ∧ mid.ask r 0 Actor.restarts = panicsOf r before ∧
      ∀ init a, pre = init ++ [.turn r] → mid.actor? r = some a → a.alive = true →
        Waits config.delayLimit before mid r a ∧
          ∀ f ∈ firedBy r after, f.2 ∈ setBy config.delayLimit r before →
            mid.clock.now.toNat < f.2.due := by
  have hclocks : clocks (turnByTurn code n xs (.new config clock)) = clocks xs :=
    filterMap_turnByTurn Stir.clock? (fun _ => rfl) rfl xs hend
  have hno := run_not_mem_turnByTurn code n xs (.new config clock)
  have htimely : Timely clock (turnByTurn code n xs (.new config clock)) := by
    constructor
    · rw [hclocks]
      exact htime.forward
    · rw [hclocks]
      exact htime.within
  have hcourse := course_turnByTurn xs hend
  rw [hsplit] at hno htimely hcourse
  obtain ⟨before, mid, after, hpre, hpost, rfl⟩ := course_split hcourse
  have hquiet : (new config clock : System κ).Quiet := quiet_new config clock
  have hstart : OnTime config.delayLimit r clock [] (new config clock : System κ) :=
    .start (htime.within clock List.mem_cons_self)
  have hfew' := hfew
  rw [setBy_append, List.length_append] at hfew'
  obtain ⟨c, g, hg⟩ := hstart.course n pre hquiet (fun hmem => hno (List.mem_append_left _ hmem))
    htimely.before hpre (by rw [List.nil_append]; omega)
  rw [List.nil_append] at hg
  refine ⟨before, mid, after, hpre, hpost, rfl, hg.inTime, hg.restarts, fun init a hinit ha halive =>
    ?_⟩
  rw [hinit] at hpre
  have hlull : mid.Lull r := course_lull n init hpre ⟨a.ledger, ledger_intro ha, halive⟩
  have hwaits := hg.waits ha halive hlull
  refine ⟨hwaits, fun f hf hset => hwaits.later f.2 ?_⟩
  obtain ⟨c', g', hg'⟩ := hstart.course n (pre ++ post) hquiet hno htimely hcourse (by
    rwa [List.nil_append])
  have hall := hg'.inTime
  rw [List.nil_append] at hall
  exact hall.pending_of_fired hf hset

/-- Three timers that are due at tick 5 and one that is due at tick 9, fired one at a time at tick 7:
the callback of the second one panics. -/
theorem course_punctual_over_panic :
    let code : Nat → Invocation → Prog Nat Unit := fun k _ =>
      match k with
      | 0 => .op (.setTimer 5 1 .empty []) fun _ => .op (.setTimer 5 2 .empty []) fun _ =>
          .op (.setTimer 5 1 .empty []) fun _ => .op (.setTimer 9 1 .empty []) fun _ => .pure ()
      | 1 => .pure ()
      | _ => .panic
    let config : Config := { maxTimers := 1 }
    let xs : List (Stir Nat) :=
      [.spawn "server", .outside (.start 0), .outside (.post 0 (.custom 0)), .run,
        .arrange ⟨7⟩ .new true .empty .empty, .run]
    ∃ deeds s a, course code 6 xs (.new config ⟨0⟩) = some (deeds, s) ∧
      (firedBy 0 deeds).map (fun f => (f.1, f.2.due, f.2.payload.callback)) =
        [(7, 5, 1), (7, 5, 2), (7, 5, 1)] ∧
      s.ask 0 0 Actor.restarts = 1 ∧ InTime config.delayLimit 0 deeds ∧
      Waits config.delayLimit deeds s 0 a := by
  intro code config xs
  have hrun : ((course code 6 xs (.new config ⟨0⟩)).map fun p =>
      ((firedBy 0 p.1).map (fun f => (f.1, f.2.due, f.2.payload.callback)),
        p.2.ask 0 0 Actor.restarts, (setBy config.delayLimit 0 p.1).length,
        p.2.ask 0 false Actor.alive)) =
        some ([(7, 5, 1), (7, 5, 2), (7, 5, 1)], 1, 4, true) := by decide +kernel
  have hlast : ((turnByTurn code 6 xs (.new config ⟨0⟩)).getLast?.bind Stir.turn?) = some 0 := by
    decide +kernel
  obtain ⟨⟨deeds, s⟩, hend, heq⟩ := Option.map_eq_some_iff.1 hrun
  simp only [Prod.mk.injEq] at heq
  obtain ⟨hfired, hrestarts, hset, hask⟩ := heq
  obtain ⟨x, hx, hturn⟩ := Option.bind_eq_some_iff.1 hlast
  have hx' : x = .turn 0 := by
    cases x with
    | turn r => exact congrArg Stir.turn (Option.some.inj hturn)
    | _ => cases hturn
  subst hx'
  obtain ⟨init, hinit⟩ := List.getLast?_eq_some_iff.1 hx
  obtain ⟨l, hl, halive⟩ := alive_of_ask hask
  obtain ⟨a, ha, rfl⟩ := ledger_elim hl
  have htime : Timely ⟨0⟩ xs := ⟨by decide, by decide⟩
  obtain ⟨before, mid, after, -, hpost, happend, hintime, -, hwaits⟩ :=
    course_punctual code 0 htime hend (by rw [hset]; decide)
      (List.append_nil (turnByTurn code 6 xs (.new config ⟨0⟩))).symm
  obtain ⟨rfl, rfl⟩ := Prod.mk.inj (Option.some.inj hpost)
  rw [List.append_nil] at happend
  subst happend
  exact ⟨before, mid, a, hend, hfired, hrestarts, hintime, (hwaits init a hinit ha halive).1⟩

end System

end ActorSystem
