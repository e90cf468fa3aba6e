import ActorSystem.Proofs.Told

set_option autoImplicit false

namespace ActorSystem

variable {κ : Type}

open Happening

def Happening.isForeign : Happening κ → Bool
  | accepted _ | replied _ _ | discarded _ => true
  | _ => false

def Leg.weight : Leg κ → Nat
  | put _ => 10
  | count => 5
  | recheck => 4
  | signal _ => 0
  | mark _ => 4
  | look _ => 3
  | lift _ => 2
  | uncount _ _ => 5
  | shed _ _ => 4
  | leave => 1

def Leg.isSignal : Leg κ → Bool
  | signal _ => true
  | _ => false

namespace Ledger

def Leaving (l : Ledger κ) : Prop := l.closed = true ∨ .mark true ∈ l.legs

/-- The actor is being closed by somebody who has found it not yet started. -/
def Claimed (l : Ledger κ) : Prop := .signal true ∈ l.legs ∨ .mark false ∈ l.legs

structure Running (l : Ledger κ) : Prop where
  awake : l.dormant = false
  stays : ¬ l.Leaving
  unclaimed : ¬ l.Claimed

/-- What the threads that are at work at the actor have still to do, if nobody joins them. -/
def weight (l : Ledger κ) : Nat := 4 * l.inbox.length + (l.legs.map Leg.weight).sum

end Ledger

section

variable {mode mode' : Mode κ} {config : Config} {l l' : Ledger κ} {hs : List (Happening κ)}
  {xs : List (CallRef × CallState)} {ins outs : List CallRef}

theorem Ledger.Fit.leaving (hf : l.Fit config mode) (h : l.Leaving) :
    mode = .ready ∧ l.batch = [] ∧ l.dormant = false ∧ (l.closed = true ∨ l.halted = true) := by
  rcases h with hclosed | hmark
  · obtain ⟨hmode, hbatch, hdormant⟩ := hf.closed hclosed
    exact ⟨hmode, hbatch, hdormant, .inl hclosed⟩
  · have hhalted : l.halted = true := List.any_eq_true.2 ⟨_, hmark, rfl⟩
    obtain ⟨hmode, hbatch, hdormant, -⟩ := hf.halted hhalted
    exact ⟨hmode, hbatch, hdormant, .inr hhalted⟩

theorem Flies.next_final {leg leg' : Leg κ} {next : Option (Leg κ)} (h : Flies l leg next hs xs l')
    (hnext : leg' ∈ next) (hfinal : leg'.isFinal = true) : leg = .signal true := by
  have hnone : ∀ own, leg' ∉ Leg.rest own := by
    rintro (_ | _) hmem <;> cases hmem
    cases hfinal
  cases h with
  | recheck =>
    split at hnext <;> cases hnext
    cases hfinal
  | signal unstarted => cases unstarted <;> cases hnext; rfl
  | outrun own | void own => exact absurd hnext (hnone own)
  | leave => cases hnext
  | _ =>
    cases hnext
    cases hfinal

theorem Flies.leaving {before after : List (Leg κ)} {leg : Leg κ} {next : Option (Leg κ)}
    (hlegs : l.legs = before ++ leg :: after) (h : Flies l leg next hs xs l') (hl : l.Leaving) :
    Ledger.Leaving { l' with legs := before ++ next.toList ++ after } := by
  have hclosed : l.closed = true → l'.closed = true := by
    intro hclosed
    cases h with
    | mark => rfl
    | _ => exact hclosed
  rcases hl with hl | hmark
  · exact .inl (hclosed hl)
  · rw [hlegs] at hmark
    by_cases hleg : leg = .mark true
    · subst hleg
      cases h
      exact .inl rfl
    · refine .inr ?_
      rcases List.mem_append.1 hmark with hmark | hmark
      · simp [hmark]
      · simp [(List.mem_cons.1 hmark).resolve_left (Ne.symm hleg)]

theorem Change.leaving (hc : Change config mode l hs xs mode' l') (hf : l.Fit config mode)
    (hl : l.Leaving) : l'.Leaving ∧ mode' = mode ∧ ∀ x ∈ hs, x.isForeign = true := by
  obtain ⟨hmode, hbatch, -, hrest⟩ := hf.leaving hl
  have hdead : l.alive = true → l.halted = false → False := by
    intro halive hfree
    rcases hrest with hclosed | hhalted
    · simp [Ledger.alive, hclosed] at halive
    · simp [hfree] at hhalted
  cases hc with
  | take items inbox halive hfree => exact (hdead halive hfree).elim
  | begin e batch reply gone hfree hbatch' => simp [hbatch] at hbatch'
  | complete | panic | fired | timerPanic => cases hmode
  | fire id halive hfree => exact (hdead halive hfree).elim
  | dismantle gone rest halive hfree => exact (hdead halive hfree).elim
  | retire halive hfree => exact (hdead halive hfree).elim
  | fly before leg after next hlegs h =>
    refine ⟨h.leaving hlegs hl, rfl, ?_⟩
    cases h <;> simp [isForeign]

theorem Effect.leaving (he : Effect mode l ins hs xs outs l') (hf : l.Fit config mode)
    (hl : l.Leaving) : l'.Leaving ∧ ∀ x ∈ hs, x.isForeign = true := by
  have hdormant := (hf.leaving hl).2.2.1
  have hboard : ∀ leg, (l.board leg).Leaving := fun leg =>
    hl.imp id fun hmark => List.mem_append_left _ hmark
  cases he with
  | accept => exact ⟨hl, by simp [isForeign]⟩
  | board => exact ⟨hboard _, by simp⟩
  | warn => exact ⟨hboard _, by simp⟩
  | start hd => exact absurd (hdormant.symm.trans hd) Bool.noConfusion
  | cancel gone rest hd => exact absurd (hdormant.symm.trans hd) Bool.noConfusion
  | claim hd => exact absurd (hdormant.symm.trans hd) Bool.noConfusion
  | answer | answerKept => exact ⟨hl, by simp [isForeign]⟩
  | _ => exact ⟨hl, by simp⟩

/-- Nothing is run of an actor that leaves, and it goes on leaving. -/
theorem pervades_leaving (config : Config) :
    Pervades config fun (mode : Mode κ) l hs mode' l' =>
      l.Leaving → l'.Leaving ∧ mode' = mode ∧ ∀ x ∈ hs, x.isForeign = true where
  refl _ _ hl := ⟨hl, rfl, by simp⟩
  trans h h' hl := by
    obtain ⟨hl', -, hs⟩ := h hl
    obtain ⟨hl'', -, hs'⟩ := h' hl'
    exact ⟨hl'', rfl, fun x hx => (List.mem_append.1 hx).elim (hs x) (hs' x)⟩
  reply _ _ _ _ hl := ⟨hl, rfl, by simp [isForeign]⟩
  effect hf he hl := ⟨(he.leaving hf hl).1, rfl, (he.leaving hf hl).2⟩
  call e _ := by
    refine ⟨fun hl => ⟨hl, rfl, by simp [isForeign]⟩, fun hl => ⟨?_, rfl, by simp⟩⟩
    exact hl.imp id fun hmark => List.mem_append_left _ hmark
  change hf hc hl := hc.leaving hf hl

theorem Ledger.Running.carry (hl : l.Running) (hdormant : l'.dormant = false)
    (hclosed : l'.closed = true → l.closed = true)
    (hlegs : ∀ leg ∈ l'.legs, leg.isFinal = true → leg ∈ l.legs) : l'.Running := by
  refine ⟨hdormant, fun h => hl.stays (h.imp hclosed fun hmem => hlegs _ hmem rfl), fun h => ?_⟩
  exact hl.unclaimed (h.imp (fun hmem => hlegs _ hmem rfl) fun hmem => hlegs _ hmem rfl)

theorem Ledger.Running.board (hl : l.Running) {leg : Leg κ} (hleg : leg.isFinal = false) :
    (l.board leg).Running := by
  refine hl.carry hl.awake id fun leg' hmem hfinal => ?_
  rcases List.mem_append.1 hmem with hmem | hmem
  · exact hmem
  · rw [List.mem_singleton.1 hmem, hleg] at hfinal
    cases hfinal

theorem Flies.running {before after : List (Leg κ)} {leg : Leg κ} {next : Option (Leg κ)}
    (hlegs : l.legs = before ++ leg :: after) (h : Flies l leg next hs xs l') (hl : l.Running) :
    Ledger.Running { l' with legs := before ++ next.toList ++ after } := by
  have hleg : leg ∈ l.legs := by simp [hlegs]
  have hnosignal : leg ≠ .signal true := fun heq => hl.unclaimed (.inl (heq ▸ hleg))
  have hnomark : ∀ own, leg ≠ .mark own := by
    rintro (_ | _) rfl
    · exact hl.unclaimed (.inr hleg)
    · exact hl.stays (.inr hleg)
  refine hl.carry ?_ ?_ ?_
  · have hdormant := hl.awake
    cases h <;> exact hdormant
  · cases h with
    | mark own => exact absurd rfl (hnomark own)
    | _ => exact id
  · intro leg' hmem hfinal
    rw [hlegs]
    simp only [List.mem_append, Option.mem_toList, List.mem_cons] at hmem ⊢
    rcases hmem with (hmem | hmem) | hmem
    · exact .inl hmem
    · exact absurd (h.next_final hmem hfinal) hnosignal
    · exact .inr (.inr hmem)

theorem pervades_discarded (config : Config) :
    Pervades config fun (_ : Mode κ) l hs _ l' =>
      l.closed = true ∨ (∃ es, .discarded es ∈ hs) → l'.closed = true where
  refl _ _ h := by simpa using h
  trans h h' hcase := by
    rcases hcase with hclosed | ⟨es, hes⟩
    · exact h' (.inl (h (.inl hclosed)))
    · rcases List.mem_append.1 hes with hes | hes
      · exact h' (.inl (h (.inr ⟨es, hes⟩)))
      · exact h' (.inr ⟨es, hes⟩)
  reply _ _ _ _ h := by simpa using h
  effect hf he hcase := by
    refine ((pervades_ages config).effect hf he).closed (hcase.resolve_right ?_)
    rintro ⟨es, hes⟩
    cases he <;> simp at hes
  call _ _ := by
    constructor
    · exact fun h => h.resolve_right (by simp)
    · exact fun h => h.resolve_right (by simp)
  change hf hc hcase := by
    rcases hcase with hclosed | ⟨es, hes⟩
    · exact (hc.ages hf).closed hclosed
    · cases hc with
      | fly before leg after next hlegs h =>
        cases h with
        | lift own => exact hf.sweeps (.lift own) (by simp [hlegs]) rfl
        | _ => simp at hes
      | _ => simp at hes

theorem Flies.weight {before after : List (Leg κ)} {leg : Leg κ} {next : Option (Leg κ)}
    (hlegs : l.legs = before ++ leg :: after) (h : Flies l leg next hs xs l')
    (hopen : leg ≠ .signal true) :
    Ledger.weight { l' with legs := before ++ next.toList ++ after } ≤ l.weight ∧
      (leg.isSignal = false →
        Ledger.weight { l' with legs := before ++ next.toList ++ after } < l.weight) := by
  cases h with
  | put e => simp [Ledger.weight, hlegs, Leg.weight]; omega
  | count => simp [Ledger.weight, hlegs, Leg.weight]
  | recheck => cases l.closed <;> simp [Ledger.weight, hlegs, Leg.weight]
  | signal unstarted =>
    cases unstarted with
    | true => exact absurd rfl hopen
    | false => simp [Ledger.weight, hlegs, Leg.weight, Leg.isSignal]
  | mark own => simp [Ledger.weight, hlegs, Leg.weight]
  | look own => simp [Ledger.weight, hlegs, Leg.weight]
  | outrun own h => cases own <;> simp [Ledger.weight, hlegs, Leg.weight, Leg.rest]
  | lift own es rest hinbox hes =>
    have hpos := List.length_pos_iff.2 hes
    simp [Ledger.weight, hlegs, Leg.weight, hinbox]
    omega
  | void own hinbox => cases own <;> simp [Ledger.weight, hlegs, Leg.weight, Leg.rest]
  | uncount own es => simp [Ledger.weight, hlegs, Leg.weight]
  | shed own es => simp [Ledger.weight, hlegs, Leg.weight]
  | leave => simp [Ledger.weight, hlegs, Leg.weight]

theorem Change.weight (hc : Change config mode l hs xs mode' l') (hf : l.Fit config mode)
    (hclosed : l.closed = true) : l'.weight ≤ l.weight := by
  obtain ⟨hmode, hbatch, -⟩ := hf.closed hclosed
  have hdead : l.alive = false := by simp [Ledger.alive, hclosed]
  cases hc with
  | begin e batch reply gone hfree hbatch' => simp [hbatch] at hbatch'
  | complete | panic | fired | timerPanic => cases hmode
  | fly before leg after next hlegs h =>
    refine (h.weight hlegs fun hleg => ?_).1
    have hhalted : l.halted = true :=
      List.any_eq_true.2 ⟨.signal true, by simp [hlegs, hleg], rfl⟩
    exact absurd (hclosed.symm.trans (hf.halted hhalted).2.2.2.1) Bool.noConfusion
  | _ => simp_all

/-- Nobody adds to what is left to be done at a closed actor. -/
theorem pervades_weight (config : Config) :
    Pervades config fun (_ : Mode κ) l _ _ l' =>
      l.closed = true → l'.closed = true ∧ l'.weight ≤ l.weight where
  refl _ _ hclosed := ⟨hclosed, Nat.le_refl _⟩
  trans h h' hclosed :=
    ⟨(h' (h hclosed).1).1, Nat.le_trans (h' (h hclosed).1).2 (h hclosed).2⟩
  reply _ _ _ _ hclosed := ⟨hclosed, Nat.le_refl _⟩
  effect hf he hclosed := by
    refine ⟨((pervades_ages config).effect hf he).closed hclosed, ?_⟩
    have hawake := (hf.closed hclosed).2.2
    cases he with
    | accept e hcall hopen | board e hcall hopen => simp [Ledger.refuses, hclosed] at hopen
    | cancel gone rest hd | claim hd => exact absurd (hawake.symm.trans hd) Bool.noConfusion
    | warn => simp [Ledger.weight, Ledger.board, Leg.weight]
    | _ => exact Nat.le_refl _
  call e hopen := by
    constructor <;> exact fun hclosed => by simp [Ledger.refuses, hclosed] at hopen
  change hf hc hclosed := ⟨(hc.ages hf).closed hclosed, hc.weight hf hclosed⟩

/-- Once the threads at a closed actor have nothing left to do, nothing is left of the actor. -/
theorem Ledger.Fit.swept_out (hf : l.Fit config mode) (hclosed : l.closed = true)
    (hlegs : ∀ leg ∈ l.legs, leg.clears = false) : l.inbox = [] ∧ l.pending = 0 := by
  have hinbox : l.inbox = [] := by
    rcases hf.cleared hclosed with hinbox | ⟨leg, hmem, hclears⟩
    · exact hinbox
    · rw [hlegs leg hmem] at hclears
      cases hclears
  have hzero : l.uncounted = 0 ∧ l.lifted = 0 := by
    constructor <;>
    · refine List.sum_eq_zero fun n hn => ?_
      obtain ⟨leg, hmem, rfl⟩ := List.mem_map.1 hn
      have hclears := hlegs leg hmem
      cases leg with
      | count | uncount => cases hclears
      | _ => rfl
  have hpending := hf.pending
  rw [hinbox, hzero.1, hzero.2, List.length_nil] at hpending
  exact ⟨hinbox, by omega⟩

end

end ActorSystem
