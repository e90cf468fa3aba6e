import ActorSystem.Proofs.Errands
import ActorSystem.Proofs.Outside
import ActorSystem.Proofs.Replies

/-!
How the run of a whole system comes to its return. When the signal comes, the hook runs once, in a
system whose actors are all served, and there is no return before all of them have ended and given up
what they had in hand. When the signal fails, there is a return at once, with nothing closed.
-/

set_option autoImplicit false

namespace ActorSystem

variable {κ : Type}

/-- Only an actor that has been told to close is closed, or about to be. -/
def Ledger.Orderly (l : Ledger κ) : Prop :=
  l.closed = true ∨ (∃ own, .mark own ∈ l.legs) → l.closing = true

section

variable {mode mode' : Mode κ} {config : Config} {l l' : Ledger κ} {hs : List (Happening κ)}
  {xs : List (CallRef × CallState)} {ins outs : List CallRef}

theorem Ledger.Orderly.carry (hl : l.Orderly) (hclosed : l'.closed = true → l.closed = true)
    (hlegs : ∀ own, .mark own ∈ l'.legs → .mark own ∈ l.legs)
    (hclosing : l.closing = true → l'.closing = true) : l'.Orderly := fun h =>
  hclosing (hl (h.imp hclosed fun ⟨own, hmem⟩ => ⟨own, hlegs own hmem⟩))

theorem Flies.orderly {before after : List (Leg κ)} {leg : Leg κ} {next : Option (Leg κ)}
    (hlegs : l.legs = before ++ leg :: after) (h : Flies l leg next hs xs l') (hl : l.Orderly) :
    Ledger.Orderly { l' with legs := before ++ next.toList ++ after } := by
  have hthere : ∀ {next' : Option (Leg κ)}, (∀ own, .mark own ∉ next') → ∀ own,
      .mark own ∈ before ++ next'.toList ++ after → .mark own ∈ l.legs := by
    intro next' hnone own hmem
    rw [hlegs]
    simp only [List.mem_append, Option.mem_toList, List.mem_cons] at hmem ⊢
    rcases hmem with (hmem | hmem) | hmem
    · exact .inl hmem
    · exact absurd hmem (hnone own)
    · exact .inr (.inr hmem)
  cases h with
  | signal unstarted => exact fun _ => rfl
  | mark own => exact fun _ => hl (.inr ⟨own, by simp [hlegs]⟩)
  | recheck => exact hl.carry id (hthere (by cases l.closed <;> simp)) id
  | outrun own | void own => exact hl.carry id (hthere (by cases own <;> simp [Leg.rest])) id
  | _ => exact hl.carry id (hthere (by simp)) id

theorem Change.orderly (hc : Change config mode l hs xs mode' l') (hl : l.Orderly) : l'.Orderly := by
  cases hc with
  | dismantle gone rest halive hfree hbatch hclosing => exact fun _ => hclosing
  | retire halive hfree hbatch hclosing => exact fun _ => hclosing
  | fly before leg after next hlegs h => exact h.orderly hlegs hl
  | panic | timerPanic => exact hl.carry (by simp [Ledger.afterPanic]) (fun _ => id) id
  | _ => exact hl

theorem pervades_orderly (config : Config) :
    Pervades config fun _ (l : Ledger κ) _ _ l' => l.Orderly → l'.Orderly where
  refl _ _ := id
  trans h h' := h' ∘ h
  reply _ _ _ _ := id
  effect _ he hl := by
    cases he with
    | close | cancel => exact fun _ => rfl
    | board | warn | claim => exact hl.carry id (by simp [Ledger.board]) id
    | _ => exact hl
  call _ _ := ⟨id, fun hl => hl.carry id (by simp [Ledger.board]) id⟩
  change _ hc := hc.orderly

end

namespace Machine

variable {code : κ → Invocation → Prog κ Unit} {m m' : Machine κ} {config : Config} {clock : Clock}
  {r : ActorRef} {l : Ledger κ}

theorem Reaches.orderly (h : (resting (.new config clock)).Reaches code m) :
    ∀ r l, m.books.ledger r = some l → l.Orderly := by
  obtain ⟨mvs, rfl⟩ := h
  refine (play_induction (P := fun _ b => ∀ r l, b.ledger r = some l → l.Orderly) (h := [])
    (fun _ b _ _ b' hf hb hs r l' hl' => ?_) mvs (Books.start_fit config clock) ?_).2
  · cases hl : b.ledger r with
    | none =>
      obtain ⟨-, hnone | ⟨hnew, -⟩⟩ := hs.absent hf hl
      · cases hnone.symm.trans hl'
      · cases hnew.symm.trans hl'
        simp [Ledger.Orderly, Ledger.new]
    | some l =>
      obtain ⟨l₁, hl₁, hcase⟩ := hs.pervaded (pervades_orderly b.config) hf hl
      cases hl'.symm.trans hl₁
      exact hcase (hb r l hl)
  · intro r l hl
    have hnone : (resting (.new config clock) : Machine κ).books.ledger r = none := rfl
    cases hnone.symm.trans hl

theorem Reaches.linear (h : (resting (.new config clock)).Reaches code m) :
    m.books.Fit ∧ ∃ history, m.books.Linear history := by
  obtain ⟨mvs, rfl⟩ := h
  obtain ⟨hf, hL⟩ := play_induction (P := fun h b => b.Linear h)
    (fun _ _ _ _ _ hf hL hs => hs.linear hf hL) mvs (Books.start_fit config clock)
    (Books.Linear.start config clock)
  exact ⟨hf, _, hL⟩

/-- What an ended actor had in hand has been answered or given up. -/
theorem Reaches.released (h : (resting (.new config clock)).Reaches code m) {n : Nat}
    (hclosed : ∀ r < n, ∃ a, m.system.actor? r = some a ∧ a.phase = .closed) {c : CallRef}
    (hw : m.system.isWaiting c = true) :
    ∃ r p, (r, p, c) ∈ m.system.replies (fun _ => []) ∧ (n ≤ r ∨ p = .abroad) := by
  obtain ⟨hf, history, hL⟩ := h.linear
  obtain ⟨r, p, hp⟩ := Traffic.waiting_mem (t := .calm m) hL hw
  refine ⟨r, p, hp, (Nat.lt_or_ge r n).symm.imp_right fun hr => ?_⟩
  obtain ⟨a, ha, hphase⟩ := hclosed r hr
  exact Traffic.closed_abroad (t := .calm m) hf ha hphase rfl hp

end Machine

namespace System

open Machine (resting Reaches)

variable {code : κ → Invocation → Prog κ Unit} {limit : Nat} {s s' : System κ}

theorem callByName_leads {target name : String} {args : Args} {x : Except Error (List Value)}
    (h : s.callByName code limit target name args = some (x, s')) : Leads code s s' := by
  unfold callByName at h
  cases hr : s.require target with
  | error e =>
    simp only [hr, Option.some.injEq, Prod.mk.injEq] at h
    exact h.2 ▸ .refl s
  | ok r =>
    have hrequest : Leads code s (s.request r name args).2 := request_leads s r name args
    simp only [hr] at h
    generalize s.request r name args = out at h hrequest
    obtain ⟨e | c, s₁⟩ := out
    · simp only [Option.some.injEq, Prod.mk.injEq] at h
      exact h.2 ▸ hrequest
    · obtain ⟨s₂, hrun, hrest⟩ := Option.bind_eq_some_iff.1 h
      obtain ⟨y, -, hlast⟩ := Option.bind_eq_some_iff.1 hrest
      obtain ⟨-, rfl⟩ := Prod.mk.inj (Option.some.inj hlast)
      exact hrequest.trans (run_leads limit s₁ hrun)

theorem callEach_leads {calls : List (String × String × Args)}
    {xs : List (Except Error (List Value))} (h : s.callEach code limit calls = some (xs, s')) :
    Leads code s s' := by
  induction calls generalizing s xs with
  | nil =>
    obtain ⟨-, rfl⟩ := Prod.mk.inj (Option.some.inj h)
    exact .refl s
  | cons call calls ih =>
    obtain ⟨target, name, args⟩ := call
    obtain ⟨⟨x, s₁⟩, hcall, hrest⟩ := Option.bind_eq_some_iff.1 h
    obtain ⟨⟨ys, s₂⟩, hcalls, hlast⟩ := Option.bind_eq_some_iff.1 hrest
    obtain ⟨-, rfl⟩ := Prod.mk.inj (Option.some.inj hlast)
    exact (callByName_leads hcall).trans (ih hcalls)

section

variable {turn : ActorRef → System κ → Option (System κ)} {P : System κ → Prop}
  (hturn : ∀ r s s', P s → turn r s = some s' → P s')

include hturn

theorem pass_keeps (all : Bool) (rs : List ActorRef) (hp : P s) (h : pass turn all rs s = some s') :
    P s' := by
  induction rs generalizing s with
  | nil => exact Option.some.inj h ▸ hp
  | cons r rs ih =>
    unfold pass at h
    split at h
    · obtain ⟨s₁, hs₁, hrest⟩ := Option.bind_eq_some_iff.1 h
      exact ih (hturn r s s₁ hp hs₁) hrest
    · exact ih hp h

theorem settleDown_keeps (n : Nat) (hp : P s) (h : settleDown turn n s = some s') : P s' := by
  induction n generalizing s with
  | zero => cases h
  | succ n ih =>
    unfold settleDown at h
    split at h
    · obtain ⟨s₁, hpass, hrest⟩ := Option.bind_eq_some_iff.1 h
      exact ih (pass_keeps hturn false _ hp hpass) hrest
    · exact Option.some.inj h ▸ hp

theorem takeTurns_keeps (hp : P s) (h : takeTurns turn limit s = some s') : P s' := by
  obtain ⟨s₁, hpass, hrest⟩ := Option.bind_eq_some_iff.1 h
  exact settleDown_keeps hturn limit (pass_keeps hturn true _ hp hpass) hrest

end

theorem run_size (h : s.run code limit = some s') : s'.actors.size = s.actors.size :=
  takeTurns_keeps (P := fun t => t.actors.size = s.actors.size)
    (fun _ _ _ hp hturn => (turn_size hturn).trans hp) rfl h

/-- Every actor has been started, and runs and takes events unless it has been told to close. -/
def Serving (s : System κ) : Prop :=
  ∀ r a, s.actor? r = some a → a.dormant = false ∧
    (a.closing = false → a.alive = true ∧ a.refuses = false)

/-- All actors of `s` have ended in `s'`, with nothing queued, and a caller that still waits has its
reply with somebody outside. -/
structure Finished (s s' : System κ) : Prop where
  size : s'.actors.size = s.actors.size
  ended : ∀ r < s.actors.size, ∃ a, Errand.Over s' r a
  released : ∀ c, s'.isWaiting c = true → ∃ r, (r, c) ∈ s'.abroad

variable {config : Config} {clock : Clock}

theorem startAll_serving (hs : (resting s).Sane)
    (hreach : (resting (.new config clock)).Reaches code (resting s)) (hq : s.Quiet)
    (hrun : s.startAll.run code limit = some s') : s'.Serving := by
  intro r a ha
  have hleads : Leads code s s.startAll := startAll_leads s
  obtain ⟨hstart, hq₁⟩ := hleads hq
  obtain ⟨hran, -⟩ := run_leads limit s.startAll hrun hq₁
  have hstarted : s.startAll.started = true := congrArg Frame.started s.startAll_outline
  have hr : r < s.startAll.actors.size := run_size hrun ▸ lt_of_ledger (ledger_intro ha)
  obtain ⟨l, hl⟩ := Option.isSome_iff_exists.1 (isSome_life.2 hr)
  obtain ⟨a₁, ha₁, rfl⟩ := Machine.life_elim hl
  obtain ⟨l', hl', hages⟩ := hran.ages (hstart.fit hs.fit) (ledger_intro ha₁)
  have hdormant := hages.roused (s.startAll_awake hstarted r _ hl)
  obtain rfl : a.ledger = l' := Option.some.inj ((ledger_intro ha).symm.trans hl')
  refine ⟨hdormant, fun hopen => ?_⟩
  have hphase : a.phase ≠ .closed := fun hclosed => by
    have hclosing := ((hreach.trans hstart).trans hran).orderly r _ hl'
      (.inl (Actor.ledger_closed.2 hclosed))
    rw [show a.closing = true from hclosing] at hopen
    cases hopen
  have hdormant' : a.dormant = false := hdormant
  simp [Actor.alive, Actor.refuses, hdormant', hopen, hphase]

theorem closeDown_finished (hreach : (resting (.new config clock)).Reaches code (resting s))
    (hq : s.Quiet) (hlimit : 0 < limit) :
    ∃ s', s.closeDown code limit = some s' ∧ Finished s s' := by
  have hsize := Machine.size_of_outline s.closeAll_outline
  have hleads : Leads code s s.closeAll := closeAll_leads s
  obtain ⟨hclose, hq₁⟩ := hleads hq
  have hf := (hreach.trans hclose).fit (Books.start_fit config clock)
  obtain ⟨s', hend, hran, hsize', hclosed⟩ := run_closes hlimit hf hq₁ s.closeAll_told
  have hover : ∀ r < s.actors.size, ∃ a, Errand.Over s' r a := fun r hr =>
    Errand.over_of_reaches hf hran (hclosed r (hsize ▸ hr))
  refine ⟨s', hend, hsize'.trans hsize, hover, fun c hw => ?_⟩
  have hall : ∀ r < s'.actors.size, ∃ a, s'.actor? r = some a ∧ a.phase = .closed := by
    intro r hr
    obtain ⟨a, ha⟩ := hover r (by rwa [hsize', hsize] at hr)
    exact ⟨a, ha.actor, ha.phase⟩
  obtain ⟨r, p, hp, hcase⟩ := ((hreach.trans hclose).trans hran).released hall hw
  rcases hcase with hle | rfl
  · rcases mem_replies.1 hp with ⟨habroad, -⟩ | ⟨a, ha, -⟩
    · exact ⟨r, habroad⟩
    · exact absurd (lt_of_ledger (ledger_intro ha)) (Nat.not_lt_of_le hle)
  · exact ⟨r, mem_replies_abroad.1 hp⟩

end System

namespace Errand

open Machine (resting)
open ActorSystem.System (Leads Serving Finished)

/-- How a system that rests in `s` is run until the signal. A hook does what can be done to a system
from outside, and lets it run; calls by name, one after the other, are such a hook. -/
structure Exits (code : κ → Invocation → Prog κ Unit) (s : System κ) : Prop where
  returns : ∀ {ρ : Type} (hook : System κ → Option (ρ × System κ)) limit out, 0 < limit →
    (∀ t x t', hook t = some (x, t') → Leads code t t') →
    s.runUntil code limit (.ok ()) hook = some out →
    ∃ s₁ x s₂ s₃, s.startAll.run code limit = some s₁ ∧ Serving s₁ ∧ hook s₁ = some (x, s₂) ∧
      Finished s₂ s₃ ∧ out = (.ok (), some x, s₃)
  ends : ∀ {ρ : Type} (hook : System κ → Option (ρ × System κ)) limit s₁ x s₂, 0 < limit →
    (∀ t x t', hook t = some (x, t') → Leads code t t') →
    s.startAll.run code limit = some s₁ → hook s₁ = some (x, s₂) →
    (s.runUntil code limit (.ok ()) hook).isSome = true
  calls : ∀ limit calls t x t', System.callEach code limit calls t = some (x, t') → Leads code t t'
  fails : ∀ {ρ : Type} (hook : System κ → Option (ρ × System κ)) limit text out,
    s.runUntil code limit (.error text) hook = some out →
    ∃ s₁, s.startAll.run code limit = some s₁ ∧ Serving s₁ ∧ out = (.error (.io text), none, s₁)

/-- How all actors of `m` are closed, whatever they are at and whatever else goes on. -/
structure Joins (code : κ → Invocation → Prog κ Unit) (m : Machine κ) : Prop where
  ends : Ends code m
  /-- Once those that were told to close have ended, callers wait only for later ones, or for replies
  that are held outside. -/
  released : ∀ later m', m' = after code (.closeAll :: later) m →
    (∀ r < m.system.actors.size, ∃ a, m'.system.actor? r = some a ∧ a.phase = .closed) →
      (∀ r < m.system.actors.size, ∃ a, Over m'.system r a) ∧
      ∀ c, m'.system.isWaiting c = true →
        ∃ r p, (r, p, c) ∈ m'.system.replies (fun _ => []) ∧
          (m.system.actors.size ≤ r ∨ p = .abroad)

variable {code : κ → Invocation → Prog κ Unit} {s : System κ} {m : Machine κ} {config : Config}
  {clock : Clock}

theorem exits (hs : (resting s).Sane)
    (hreach : (resting (.new config clock)).Reaches code (resting s)) (hq : s.Quiet) :
    Exits code s := by
  have hclosed : ∀ {ρ : Type} {hook : System κ → Option (ρ × System κ)} {limit s₁ x s₂},
      0 < limit → (∀ t x t', hook t = some (x, t') → Leads code t t') →
      s.startAll.run code limit = some s₁ → hook s₁ = some (x, s₂) →
      ∃ s₃, s₂.closeDown code limit = some s₃ ∧ Finished s₂ s₃ := by
    intro ρ hook limit s₁ x s₂ hlimit hhook hrun hx
    have hleads : System.Leads code s s.startAll := System.startAll_leads s
    obtain ⟨hstart, hq₁⟩ := hleads hq
    obtain ⟨hran, hq₂⟩ := System.run_leads limit s.startAll hrun hq₁
    obtain ⟨hhooked, hq₃⟩ := hhook s₁ x s₂ hx hq₂
    exact System.closeDown_finished (((hreach.trans hstart).trans hran).trans hhooked) hq₃ hlimit
  refine ⟨fun hook limit out hlimit hhook h => ?_,
    fun hook limit s₁ x s₂ hlimit hhook hrun hx => ?_,
    fun limit calls t x t' h => System.callEach_leads h, fun hook limit text out h => ?_⟩
  · obtain ⟨s₁, hrun, h⟩ := Option.bind_eq_some_iff.1 h
    obtain ⟨⟨x, s₂⟩, hx, h⟩ := Option.bind_eq_some_iff.1 h
    obtain ⟨s₃, hend, h⟩ := Option.bind_eq_some_iff.1 h
    obtain ⟨s', hend', hfinished⟩ := hclosed hlimit hhook hrun hx
    obtain rfl : s₃ = s' := Option.some.inj (hend.symm.trans hend')
    exact ⟨s₁, x, s₂, s₃, hrun, System.startAll_serving hs hreach hq hrun, hx, hfinished,
      (Option.some.inj h).symm⟩
  · obtain ⟨s₃, hend, -⟩ := hclosed hlimit hhook hrun hx
    simp [System.runUntil, hrun, hx, hend]
  · obtain ⟨s₁, hrun, h⟩ := Option.bind_eq_some_iff.1 h
    exact ⟨s₁, hrun, System.startAll_serving hs hreach hq hrun, (Option.some.inj h).symm⟩

theorem joins (hs : m.Sane) (hreach : (resting (.new config clock)).Reaches code m) :
    Joins code m := by
  refine ⟨Errand.ends code hs, ?_⟩
  rintro later m' rfl hclosed
  refine ⟨fun r hr => ?_, fun c hw => ?_⟩
  · obtain ⟨a, ha, hphase⟩ := hclosed r hr
    exact ⟨a, over_of_closed (after_sane code (.closeAll :: later) hs).fit ha hphase⟩
  · exact (hreach.trans (after_serves code (.closeAll :: later) m)).released hclosed hw

/-- A system is run until the signal, whatever was asked of its registry before. If the signal
comes, the hook runs once, in a system whose actors are served, and the run returns when all of
them have ended, with no caller left but those whose replies are held outside. If the signal fails,
the run returns at once, with all actors still served. -/
theorem runUntil_exits (code : κ → Invocation → Prog κ Unit) (config : Config) (clock : Clock)
    (es : List (Errand κ)) :
    Joins code (after code es (resting (.new config clock))) ∧
      ∀ s, after code es (resting (.new config clock)) = resting s → s.Quiet → Exits code s := by
  have hs := after_sane code es (Machine.sane_new config clock)
  have hreach := after_serves code es (resting (.new config clock))
  refine ⟨joins hs hreach, fun s heq hq => ?_⟩
  rw [heq] at hs hreach
  exact exits hs hreach hq

/-- One actor is started, and the signal fails: the hook has not run. -/
theorem runUntil_leaves_running :
    let code : Unit → Invocation → Prog Unit Unit := fun _ _ => .pure ()
    ¬ ∀ (es : List (Errand Unit)) (s : System Unit) (signal : Except String Unit)
        (out : Except Error Unit × Option Unit × System Unit),
      after code es (resting (.new {} ⟨0⟩)) = resting s →
        s.runUntil code 9 signal (fun t => some ((), t)) = some out →
        out.2.1.isSome = true ∧ ∀ r a, out.2.2.actor? r = some a → a.phase = .closed := by
  intro code h
  let s : System Unit := ((System.new {} ⟨0⟩).getOrCreate "Main").2
  obtain ⟨s₁, hrun⟩ : ∃ s₁, s.startAll.run code 9 = some s₁ :=
    Option.isSome_iff_exists.1 (by decide +kernel)
  have hout : s.runUntil code 9 (.error "signal failed") (fun t => some ((), t)) =
      some (.error (.io "signal failed"), none, s₁) := by
    simp [System.runUntil, hrun]
  have hran := (h [.getOrCreate "Main"] s (.error "signal failed") _ rfl hout).1
  cases hran

end Errand

end ActorSystem
