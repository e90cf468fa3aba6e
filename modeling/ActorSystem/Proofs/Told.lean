import ActorSystem.Proofs.Estates

set_option autoImplicit false

namespace ActorSystem

variable {κ : Type}

open Happening

structure Ledger.Ages (l l' : Ledger κ) : Prop where
  roused : l.dormant = false → l'.dormant = false
  closing : l.closing = true → l'.closing = true
  closed : l.closed = true → l'.closed = true

def Leg.isPush : Leg κ → Bool
  | put _ | count => true
  | _ => false

/-- An actor that has been told to close takes in only events that are half-way there. -/
structure Ledger.Shuts (l : Ledger κ) (hs : List (Happening κ)) (l' : Ledger κ) : Prop where
  legs : ∀ e, .put e ∈ l'.legs → .put e ∈ l.legs
  accepted : ∀ e, .accepted e ∈ hs → .put e ∈ l.legs
  landed : (∀ leg ∈ l.legs, leg.isPush = false) → ∀ leg ∈ l'.legs, leg.isPush = false

section

variable {mode mode' : Mode κ} {config : Config} {l l' : Ledger κ} {hs : List (Happening κ)}
  {xs : List (CallRef × CallState)} {ins outs : List CallRef}

theorem Change.ages (hc : Change config mode l hs xs mode' l') (hf : l.Fit config mode) :
    l.Ages l' := by
  cases hc with
  | panic e => exact ⟨id, id, fun hc => absurd (hf.closed hc).1 (by simp)⟩
  | timerPanic => exact ⟨id, id, fun hc => absurd (hf.closed hc).1 (by simp)⟩
  | dismantle => exact ⟨id, id, fun _ => rfl⟩
  | fly leading leg trailing next hlegs h =>
    cases h with
    | signal => exact ⟨id, fun _ => rfl, id⟩
    | mark => exact ⟨id, id, fun _ => rfl⟩
    | _ => exact ⟨id, id, id⟩
  | _ => exact ⟨id, id, id⟩

theorem pervades_ages (config : Config) :
    Pervades config fun _ (l : Ledger κ) _ _ l' => l.Ages l' where
  refl _ _ := ⟨id, id, id⟩
  trans h h' := ⟨h'.roused ∘ h.roused, h'.closing ∘ h.closing, h'.closed ∘ h.closed⟩
  reply _ _ _ _ := ⟨id, id, id⟩
  effect _ he := by
    cases he with
    | start | claim => exact ⟨fun _ => rfl, id, id⟩
    | close => exact ⟨id, fun _ => rfl, id⟩
    | cancel => exact ⟨fun _ => rfl, fun _ => rfl, fun _ => rfl⟩
    | _ => exact ⟨id, id, id⟩
  call _ _ := ⟨⟨id, id, id⟩, id, id, id⟩
  change hf hc := hc.ages hf

theorem Ledger.Shuts.same (hlegs : l'.legs = l.legs) (hnone : ∀ e, .accepted e ∉ hs) :
    l.Shuts hs l' :=
  ⟨fun _ he => hlegs ▸ he, fun e he => absurd he (hnone e), fun hlanded => hlegs ▸ hlanded⟩

theorem Ledger.Shuts.board (leg : Leg κ) (hleg : leg.isPush = false)
    (hlegs : l'.legs = l.legs ++ [leg]) (hnone : ∀ e, .accepted e ∉ hs) : l.Shuts hs l' := by
  refine ⟨fun e he => ?_, fun e he => absurd he (hnone e), fun hlanded leg' hmem => ?_⟩
  · rw [hlegs, List.mem_append, List.mem_singleton] at he
    refine he.resolve_right ?_
    rintro rfl
    cases hleg
  · rw [hlegs, List.mem_append, List.mem_singleton] at hmem
    exact hmem.elim (hlanded leg') fun h => h ▸ hleg

/-- Of the steps at an actor only that of a push goes on with a push. -/
theorem Flies.next_push {leg leg' : Leg κ} {next : Option (Leg κ)} (h : Flies l leg next hs xs l')
    (hnext : leg' ∈ next) (hpush : leg'.isPush = true) : leg.isPush = true ∧ leg' = .count := by
  cases h with
  | put => exact ⟨rfl, (Option.some.inj hnext).symm⟩
  | recheck => split at hnext <;> cases hnext; cases hpush
  | signal unstarted => cases unstarted <;> cases hnext; cases hpush
  | outrun own | void own => cases own <;> cases hnext; cases hpush
  | leave => cases hnext
  | _ => cases hnext; cases hpush

theorem Change.shuts (hc : Change config mode l hs xs mode' l') : l.Shuts hs l' := by
  cases hc with
  | retire => exact .board (.mark true) rfl rfl (by simp)
  | fly before leg after next hlegs h =>
    refine ⟨fun e he => ?_, fun e he => ?_, fun hlanded leg' hmem => ?_⟩
    · rw [hlegs]
      simp only [List.mem_append, List.mem_cons, Option.mem_toList] at he ⊢
      rcases he with (he | he) | he
      · exact .inl he
      · cases (h.next_push he rfl).2
      · exact .inr (.inr he)
    · rw [hlegs]
      cases h <;> simp_all
    · simp only [List.mem_append, Option.mem_toList] at hmem
      rw [hlegs] at hlanded
      rcases hmem with (hmem | hmem) | hmem
      · exact hlanded leg' (by simp [hmem])
      · rw [Bool.eq_false_iff]
        intro hpush
        have hsame := (h.next_push hmem hpush).1
        exact absurd ((hlanded leg (by simp)).symm.trans hsame) Bool.noConfusion
      · exact hlanded leg' (by simp [hmem])
  | _ => exact .same rfl (by simp)

theorem Effect.shuts (he : Effect mode l ins hs xs outs l') (hclosing : l.closing = true) :
    l.Shuts hs l' := by
  have hrefuses : l.refuses = true := by simp [Ledger.refuses, hclosing]
  cases he with
  | accept e hcall hopen => simp [hrefuses] at hopen
  | board e hcall hopen => simp [hrefuses] at hopen
  | claim => exact .board (.signal true) rfl rfl (by simp)
  | warn => exact .board (.signal false) rfl rfl (by simp)
  | _ => exact .same rfl (by simp)

theorem pervades_shuts (config : Config) :
    Pervades config fun _ (l : Ledger κ) hs _ l' =>
      l.closing = true → l'.closing = true ∧ l.Shuts hs l' where
  refl _ _ hclosing := ⟨hclosing, .same rfl (by simp)⟩
  trans h h' hclosing := by
    obtain ⟨hclosing', hs⟩ := h hclosing
    obtain ⟨hclosing'', hs'⟩ := h' hclosing'
    refine ⟨hclosing'', fun e he => hs.legs e (hs'.legs e he), fun e he => ?_,
      hs'.landed ∘ hs.landed⟩
    exact (List.mem_append.1 he).elim (hs.accepted e) fun he => hs.legs e (hs'.accepted e he)
  reply _ _ _ _ hclosing := ⟨hclosing, .same rfl (by simp)⟩
  effect hf he hclosing := ⟨((pervades_ages config).effect hf he).closing hclosing, he.shuts hclosing⟩
  call e hopen := by
    have hrefuses : ∀ {l : Ledger κ}, l.closing = true → l.refuses = true := by
      intro l hclosing
      simp [Ledger.refuses, hclosing]
    constructor <;> exact fun hclosing => absurd (hopen.symm.trans (hrefuses hclosing)) Bool.noConfusion
  change hf hc hclosing := ⟨(hc.ages hf).closing hclosing, hc.shuts⟩

end

namespace Books

variable {b b' : Books κ} {forgets : Option (CallRef × CallState)} {h : History κ} {r : ActorRef}
  {l : Ledger κ}

theorem Step.ages (hs : b.Step forgets h b') (hb : b.Fit) (hl : b.ledger r = some l) :
    ∃ l', b'.ledger r = some l' ∧ l.Ages l' :=
  hs.pervaded (pervades_ages b.config) hb hl

end Books

theorem Actor.ledger_closed {a : Actor κ} : a.ledger.closed = true ↔ a.phase = .closed := by
  simp [Actor.ledger]

namespace System

open Machine (resting)

variable {code : κ → Invocation → Prog κ Unit} {s s' : System κ} {r : ActorRef} {a a' : Actor κ}

theorem accepts_refused (ha : s.actor? r = some a) (h : a.refuses = true) : s.accepts r = false := by
  rw [accepts_eq ha, h]
  rfl

theorem request_refused (ha : s.actor? r = some a) (h : a.refuses = true) (name : String)
    (args : Args) : s.request r name args = (.error (.actorClosed a.name), s) := by
  simp [request, ha, h]

/-- A round after which an actor is told to close is its last one. -/
theorem round_closes (hq : s.Quiet) (halive : s.Alive r)
    (ha' : (s.round code r).2.actor? r = some a') (hclosing : a'.closing = true) :
    (s.round code r).1 = false ∧ a'.phase = .closed := by
  have hbatch : Follows code r s (s.processBatch code r).2 := processBatch_follows s
  unfold round at ha' ⊢
  generalize s.processBatch code r = p at hbatch ha' ⊢
  obtain ⟨taken, s₁⟩ := p
  have htimers : Follows code r s₁ (s₁.fireTimers code r s₁.config.maxTimers).2 :=
    fireTimers_follows _ s₁
  dsimp only at ha' ⊢
  generalize s₁.fireTimers code r s₁.config.maxTimers = p at htimers ha' ⊢
  obtain ⟨fired, s₂⟩ := p
  obtain ⟨-, hs⟩ := (hbatch.trans htimers) hq halive
  dsimp only at hs ha' ⊢
  cases hc : s₂.ask r true Actor.closing with
  | false =>
    have hwait : Spares Actor.closing s₂ (if 0 < taken then (true, s₂) else s₂.pause r).2 := by
      split
      · exact .refl s₂
      · exact pause_spares s₂ r fun _ => rfl
    simp only [hc, Bool.false_eq_true, if_false] at ha'
    obtain ⟨a₂, ha₂, heq⟩ := hwait.some_rev ha'
    rw [ask_eq ha₂, ← heq, hclosing] at hc
    cases hc
  | true =>
    refine ⟨by simp only [if_true], ?_⟩
    simp only [hc, if_true] at ha'
    obtain ⟨l, hl, -⟩ := hs.alive halive
    obtain ⟨a₂, ha₂, rfl⟩ := ledger_elim hl
    have hclosing₂ : a₂.closing = true := by rwa [ask_eq ha₂] at hc
    unfold shutdown at ha'
    rw [ask_eq ha₂] at ha'
    obtain ⟨-, hdrain, -⟩ := drain_follows code (a₂.mailbox.toList.length + 1) s₂ (hs.quiet hq)
      (hs.alive halive) hl hclosing₂ (Nat.lt_succ_self _)
    obtain ⟨l₃, hl₃, -⟩ := hdrain.some hl
    obtain ⟨a₃, ha₃, -⟩ := ledger_elim hl₃
    rw [dismantle_actor? ha₃, Function.update_self] at ha'
    exact Option.some.inj ha' ▸ rfl

theorem rounds_closes (limit : Nat) (hq : s.Quiet) (halive : s.Alive r)
    (h : s.rounds code r limit = some s') (ha' : s'.actor? r = some a')
    (hclosing : a'.closing = true) : a'.phase = .closed := by
  induction limit generalizing s with
  | zero => simp [rounds] at h
  | succ limit ih =>
    unfold rounds at h
    have hround : Follows code r s (s.round code r).2 ∨
        (s.round code r).1 = false ∧ (s.Alive r → Leads code s (s.round code r).2) := round_follows s
    have hlast : ∀ a', (s.round code r).2.actor? r = some a' → a'.closing = true →
        (s.round code r).1 = false ∧ a'.phase = .closed :=
      fun _ ha' hclosing => round_closes hq halive ha' hclosing
    generalize s.round code r = p at hround hlast h
    obtain ⟨_ | _, s₁⟩ := p
    · obtain rfl : s₁ = s' := Option.some.inj h
      exact (hlast a' ha' hclosing).2
    · rcases hround with hround | ⟨hfalse, -⟩
      · obtain ⟨-, hs⟩ := hround hq halive
        exact ih (hs.quiet hq) (hs.alive halive) h
      · cases hfalse

theorem turn_closes (limit : Nat) (hq : s.Quiet) (halive : s.Alive r)
    (h : s.turn code limit r = some s') (ha' : s'.actor? r = some a')
    (hclosing : a'.closing = true) : a'.phase = .closed := by
  obtain ⟨s₁, hrounds, rfl⟩ := Option.map_eq_some_iff.1 h
  obtain ⟨-, hs⟩ : Keeps code s (s.wake r) := wake_follows s hq halive
  have hsleep : Spares (fun a => (a.closing, a.phase)) s₁ (s₁.sleep r) :=
    .update s₁ r _ fun _ => rfl
  obtain ⟨a₁, ha₁, heq⟩ := hsleep.some_rev ha'
  obtain ⟨hclosing₁, hphase⟩ := Prod.mk.inj heq
  rw [hphase]
  exact rounds_closes limit (hs.quiet hq) (hs.alive halive) hrounds ha₁ (hclosing₁ ▸ hclosing)

theorem turn_ends (limit : Nat) (hq : s.Quiet) (halive : s.Alive r) (ha : s.actor? r = some a)
    (hclosing : a.closing = true) (hlimit : 0 < limit) : (s.turn code limit r).isSome = true := by
  obtain ⟨limit, rfl⟩ := Nat.exists_eq_succ_of_ne_zero (Nat.ne_of_gt hlimit)
  obtain ⟨-, hs⟩ : Keeps code s (s.wake r) := wake_follows s hq halive
  obtain ⟨l, hl, hshrinks⟩ := hs.some (ledger_intro ha)
  have hlast : ((s.wake r).round code r).1 = false := by
    have hround : Follows code r (s.wake r) ((s.wake r).round code r).2 ∨
        ((s.wake r).round code r).1 = false ∧
          ((s.wake r).Alive r → Leads code (s.wake r) ((s.wake r).round code r).2) :=
      round_follows (s.wake r)
    rcases hround with hround | ⟨hfalse, -⟩
    · obtain ⟨-, hs'⟩ := hround (hs.quiet hq) (hs.alive halive)
      obtain ⟨l', hl', hshrinks'⟩ := hs'.some hl
      obtain ⟨a', ha', rfl⟩ := ledger_elim hl'
      exact (round_closes (hs.quiet hq) (hs.alive halive) ha'
        (hshrinks'.closing (hshrinks.closing hclosing).1).1).1
    · exact hfalse
  unfold turn rounds
  generalize (s.wake r).round code r = p at hlast ⊢
  obtain ⟨_ | _, s₁⟩ := p
  · rfl
  · cases hlast

end System

end ActorSystem
