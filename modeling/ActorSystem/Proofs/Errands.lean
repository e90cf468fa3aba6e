import ActorSystem.Proofs.Pools
import ActorSystem.Proofs.Resting
import ActorSystem.System.Lifetime
import Mathlib.Data.List.Chain

/-!
What is asked of a registry, in any order and mixed with everything that its actors do: a name
always means the same actor, identifiers grow, an actor is started once, its phases follow one
another, and closing everything ends everything.
-/

set_option autoImplicit false

namespace ActorSystem

variable {κ : Type}

/-- What is asked of a registry or of an actor, and everything else that goes on. Looking up a name
is left out, since it changes nothing. -/
inductive Errand (κ : Type) where
  | getOrCreate (name : String)
  | createWorkers (name : String) (size : Nat)
  | startAll
  | closeAll
  | draw
  | tick (clock : Clock)
  /-- One actor is started or closed, running code goes on, or anything else is done. -/
  | other (mv : Move κ)

namespace Machine

/-- Whether the move is none that is left to the registry, and does not come too early. -/
def admits (m : Machine κ) (mv : Move κ) : Bool := !builds mv && m.paced mv

end Machine

namespace Errand

variable (code : κ → Invocation → Prog κ Unit)

def step (m : Machine κ) : Errand κ → Machine κ
  | .getOrCreate name => { m with system := (m.system.getOrCreate name).2 }
  | .createWorkers name size => { m with system := (m.system.createWorkers name size).2 }
  | .startAll => { m with system := m.system.startAll }
  | .closeAll => { m with system := m.system.closeAll }
  | .draw => { m with system := { m.system with ids := m.system.ids.fresh.2 } }
  | .tick clock => { m with system := { m.system with clock } }
  | .other mv => if m.admits mv then (m.step code mv).2 else m

def after (es : List (Errand κ)) (m : Machine κ) : Machine κ := es.foldl (step code) m

def touches (m : Machine κ) (r : ActorRef) : Errand κ → Bool
  | .getOrCreate name => m.system.started && (m.system.getOrCreate name).1 == r
  | .createWorkers name size =>
    m.system.started && (m.system.createWorkers name size).1.members.contains r
  | .startAll => decide (r < m.system.actors.size)
  | .closeAll => decide (r < m.system.actors.size)
  | .draw => false
  | .tick _ => false
  | .other mv => m.admits mv && m.touches mv r

def touched (r : ActorRef) : List (Errand κ) → Machine κ → Bool
  | [], _ => false
  | e :: es, m => e.touches m r || touched r es (step code m e)

def sights (m : Machine κ) (e : Errand κ) : List (System κ) :=
  match e with
  | .other mv => if m.admits mv then m.sights code mv else [m.system]
  | _ => [(e.step code m).system]

def sightsOf : List (Errand κ) → Machine κ → List (System κ)
  | [], _ => []
  | e :: es, m => e.sights code m ++ sightsOf es (step code m e)

def draws (es : List (Errand κ)) : Nat :=
  es.countP fun e =>
    match e with
    | .draw => true
    | _ => false

end Errand

namespace System

variable {code : κ → Invocation → Prog κ Unit} {s s' s'' : System κ}

/-- One system becomes the other in moves from outside, whatever the actors are at. -/
def Serves (code : κ → Invocation → Prog κ Unit) (s s' : System κ) : Prop :=
  ∀ mode todo, Machine.Reaches code ⟨s, mode, todo⟩ ⟨s', mode, todo⟩

namespace Serves

theorem refl (s : System κ) : Serves code s s := fun _ _ => .refl _

theorem trans (h : Serves code s s') (h' : Serves code s' s'') : Serves code s s'' :=
  fun mode todo => (h mode todo).trans (h' mode todo)

theorem spawn (s : System κ) (name : String) : Serves code s (s.spawn name).2 :=
  fun _ _ => .step (.spawn name) rfl

theorem arrange (s : System κ) (clock : Clock) (ids : IdSource) (started : Bool)
    (names : Table String ActorRef) (pools : Table String Pool) :
    Serves code s { s with clock, ids, started, names, pools } :=
  fun _ _ => .step (.arrange clock ids started names pools) rfl

theorem outside (s : System κ) (o : Op κ) : Serves code s (perform s.actors.size o s).2 :=
  fun _ _ => .step (.outside o) rfl

theorem foldl {α : Type} (f : System κ → α → System κ) (hf : ∀ s x, Serves code s (f s x))
    (xs : List α) (s : System κ) : Serves code s (xs.foldl f s) := by
  induction xs generalizing s with
  | nil => exact .refl s
  | cons x xs ih => exact (hf s x).trans (ih _)

theorem ensureAll (s : System κ) (rs : List ActorRef) : Serves code s (s.ensureAll rs) :=
  foldl _ (fun s r => outside s (.start r)) rs s

theorem begun (s : System κ) (rs : List ActorRef) : Serves code s (s.begun rs) := by
  unfold System.begun
  split
  · exact ensureAll s rs
  · exact .refl s

theorem getOrCreate (s : System κ) (name : String) : Serves code s (s.getOrCreate name).2 := by
  have hnoted : Serves code s (s.noted name).2 := by
    unfold noted
    cases s.names.get? name with
    | some r => exact .refl s
    | none => exact (spawn s name).trans (arrange _ _ _ _ _ _)
  rw [getOrCreate_eq]
  exact hnoted.trans (begun _ _)

theorem spawnMembers (pool : String) (n : Nat) (s : System κ) :
    Serves code s (spawnMembers pool n s).2 :=
  spawnMembers_keeps (fun s' name h => h.trans (spawn s' name)) pool n (refl s)

theorem createWorkers (s : System κ) (name : String) (size : Nat) :
    Serves code s (s.createWorkers name size).2 := by
  have hpooled : Serves code s (s.pooled name size).2 := by
    unfold pooled
    cases s.pools.get? name with
    | some p => exact .refl s
    | none => exact (spawnMembers name size s).trans (arrange _ _ _ _ _ _)
  rw [createWorkers_eq]
  exact hpooled.trans (begun _ _)

theorem startAll (s : System κ) : Serves code s s.startAll :=
  (arrange s s.clock s.ids true s.names s.pools).trans (ensureAll _ _)

theorem closeAll (s : System κ) : Serves code s s.closeAll :=
  foldl _ (fun s r => outside s (.close r)) _ s

end Serves

theorem Calm.passes {t : ActorRef → Bool} (h : Calm t s s') : Passes s s' := by
  intro r
  rw [Machine.phase_of_life, Machine.phase_of_life]
  have hr := h r
  generalize t r = b at hr
  generalize s.life r = x at hr
  generalize s'.life r = y at hr
  cases hr with
  | absent => trivial
  | made => rfl
  | kept l => exact .stay _

theorem startAll_calm (s : System κ) : Calm (fun r => decide (r < s.actors.size)) s s.startAll := by
  have hnote : Calm (fun _ => false) s { s with started := true } := .of_life rfl
  have hall : Calm (fun r => s.refs.contains r) { s with started := true } s.startAll :=
    ensureAll_calm fun r hr => List.mem_range.1 hr
  refine (hnote.trans hall).congr fun r => ?_
  rw [Bool.false_or]
  exact Bool.eq_iff_iff.2 (by simp [refs])

theorem startAll_outline (s : System κ) :
    s.startAll.outline = { s with started := true }.outline :=
  ensureAll_outline { s with started := true } s.refs

theorem startAll_size (s : System κ) : s.startAll.actors.size = s.actors.size :=
  congrArg Frame.size s.startAll_outline

theorem startAll_remembers (s : System κ) : Remembers s s.startAll :=
  .of_eq (congrArg Frame.names s.startAll_outline) (congrArg Frame.pools s.startAll_outline)

theorem startAll_registered (h : s.Registered) : s.startAll.Registered := by
  have hnames : s.startAll.names = s.names := congrArg Frame.names s.startAll_outline
  have hpools : s.startAll.pools = s.pools := congrArg Frame.pools s.startAll_outline
  have hsize := s.startAll_size
  refine ⟨fun name r hname => ?_, fun name p hp => ?_⟩
  · exact s.startAll_calm.named (h.names name r (hnames ▸ hname))
  · rw [hsize]
    exact h.pools name p (hpools ▸ hp)

theorem startAll_awake (s : System κ) : s.startAll.Awake := by
  intro _ r l' hl'
  have hlt : r < s.actors.size := s.startAll_size ▸ isSome_life.1 (by rw [hl']; rfl)
  obtain ⟨l, hl⟩ := Option.isSome_iff_exists.1 (isSome_life.2 hlt)
  have hr : Life.Calm true (some l) (some l') := by
    simpa only [hl, hl', decide_eq_true hlt] using s.startAll_calm r
  cases hr
  simp

theorem closeAll_passes (hfresh : ∀ r l, s.life r = some l → l.dormant = true → l.phase = .created) :
    Passes s s.closeAll := by
  intro r
  rw [Machine.phase_of_life, Machine.phase_of_life, closeAll_life]
  cases hl : s.life r with
  | none => trivial
  | some l =>
    change l.phase.Passes l.told.phase
    unfold Life.told
    cases hd : l.dormant with
    | false => exact .stay _
    | true =>
      rw [hfresh r l hl hd]
      exact .cancel

end System

namespace Machine

variable {code : κ → Invocation → Prog κ Unit} {m m' : Machine κ} {mv : Move κ} {r : ActorRef}
  {l l' : Life}

/-- What is the same in all machines that are left to a registry and its actors. -/
structure Sane (m : Machine κ) : Prop where
  fit : m.books.Fit
  phased : m.Phased
  registered : m.system.Registered
  awake : m.system.Awake
  parked : m.Parked

theorem sane_new (config : Config) (clock : Clock) :
    (resting (.new config clock) : Machine κ).Sane := by
  have hnone : ∀ r, (System.new config clock : System κ).life r = none := by
    intro r
    simp [System.life, System.actor?, System.new]
  refine ⟨Books.start_fit config clock, ⟨?_, ?_, ?_⟩, ⟨?_, ?_⟩, ?_, fun _ _ => rfl⟩
  · exact fun r l hl => absurd hl (by simp [resting, hnone])
  · exact fun r l hl => absurd hl (by simp [resting, hnone])
  · exact fun r l hl => absurd hl (by simp [resting, hnone])
  · exact fun name r hr => absurd hr (by simp [resting, System.new])
  · exact fun name p hp => absurd hp (by simp [resting, System.new])
  · exact fun _ r l hl => absurd hl (by simp [resting, hnone])

theorem Phased.calm {t : ActorRef → Bool} {s : System κ} (hp : m.Phased) (hf : m.books.Fit)
    (hc : System.Calm t m.system s) : Phased { m with system := s } := by
  have hone : ∀ r l', s.life r = some l' → l'.phase ≠ .restarting ∧
      (l'.dormant = true → l'.phase = .created) ∧ (m.mode r ≠ .ready → l'.phase = .running) := by
    intro r l' hl'
    have hr := hc r
    generalize t r = b at hr
    cases hl : m.system.life r with
    | none =>
      have hready : m.mode r = .ready := by
        refine hf.absent r ?_
        rw [System.life, Option.map_eq_none_iff] at hl
        simp [books, booksWith, System.books, hl]
      rw [hl, hl'] at hr
      cases hr
      exact ⟨by simp, fun _ => rfl, fun h => absurd hready h⟩
    | some l =>
      rw [hl, hl'] at hr
      cases hr
      refine ⟨hp.steady r l hl, fun h => hp.fresh r l hl ?_, hp.busy r l hl⟩
      simp only [Bool.and_eq_true] at h
      exact h.1
  exact ⟨fun r l hl => (hone r l hl).1, fun r l hl => (hone r l hl).2.1,
    fun r l hl => (hone r l hl).2.2⟩

theorem Phased.closeAll (hp : m.Phased) (hf : m.books.Fit) :
    Phased { m with system := m.system.closeAll } := by
  have hone : ∀ r l', m.system.closeAll.life r = some l' →
      ∃ l, m.system.life r = some l ∧ l' = l.told := by
    intro r l' hl'
    rw [System.closeAll_life] at hl'
    obtain ⟨l, hl, rfl⟩ := Option.map_eq_some_iff.1 hl'
    exact ⟨l, hl, rfl⟩
  refine ⟨fun r l' hl' => ?_, fun r l' hl' hd => ?_, fun r l' hl' hmode => ?_⟩
  · obtain ⟨l, hl, rfl⟩ := hone r l' hl'
    unfold Life.told
    split
    · simp
    · exact hp.steady r l hl
  · obtain ⟨l, -, rfl⟩ := hone r l' hl'
    rw [l.told_dormant] at hd
    cases hd
  · obtain ⟨l, hl, rfl⟩ := hone r l' hl'
    obtain ⟨b, hb, hdormant, -⟩ := ledger_of_life hl
    have hrunning := ((hf.ledger r b hb).running hmode).1
    rw [Life.told_of_not_dormant (hdormant ▸ hrunning)]
    exact hp.busy r l hl hmode

theorem step_endures (code : κ → Invocation → Prog κ Unit) (hmv : builds mv = false) :
    System.Endures (m.touches mv) m.system (m.step code mv).2.system := by
  refine ⟨step_outline code m mv hmv, fun r l hl => ?_, fun r hnone => touches_of_absent hnone⟩
  obtain ⟨l', hl', ht⟩ := step_turnover code m mv hl
  exact ⟨l', hl', ht.identity.1, ht.identity.2, ht.dormant⟩

end Machine

namespace Errand

open Machine (resting Sane)
open ActorSystem.System (Calm Endures Remembers Counts)

variable {code : κ → Invocation → Prog κ Unit} {m : Machine κ} {r : ActorRef}

theorem admits_elim {mv : Move κ} (h : m.admits mv = true) :
    Machine.builds mv = false ∧ m.paced mv = true := by
  simpa [Machine.admits] using h

theorem step_admitted (code : κ → Invocation → Prog κ Unit) {mv : Move κ} (h : m.admits mv = true) :
    step code m (.other mv) = (m.step code mv).2 := if_pos h

theorem step_refused (code : κ → Invocation → Prog κ Unit) {mv : Move κ} (h : m.admits mv = false) :
    step code m (.other mv) = m := if_neg (Bool.eq_false_iff.1 h)

theorem step_lives (code : κ → Invocation → Prog κ Unit) (hs : m.system.Registered) (e : Errand κ) :
    Calm (e.touches m) m.system (e.step code m).system ∨
      Endures (e.touches m) m.system (e.step code m).system := by
  cases e with
  | getOrCreate name =>
    refine .inl (((System.noted_enrols hs name).begun_calm).congr fun r => ?_)
    rw [touches, System.getOrCreate_eq, List.contains_cons, List.contains_nil, Bool.or_false, BEq.comm]
  | createWorkers name size => exact .inl (System.pooled_enrols hs name size).begun_calm
  | startAll => exact .inl m.system.startAll_calm
  | closeAll => exact .inr m.system.closeAll_endures
  | draw => exact .inl (.of_life rfl)
  | tick clock => exact .inl (.of_life rfl)
  | other mv =>
    cases hadmits : m.admits mv with
    | true =>
      have hends := Machine.step_endures (m := m) code (admits_elim hadmits).1
      rw [step_admitted code hadmits]
      exact .inr (by simpa [touches, hadmits] using hends)
    | false =>
      rw [step_refused code hadmits]
      exact .inl (by simpa [touches, hadmits] using Calm.of_life rfl)

theorem step_serves (code : κ → Invocation → Prog κ Unit) (m : Machine κ) (e : Errand κ) :
    m.Reaches code (e.step code m) := by
  cases e with
  | getOrCreate name => exact System.Serves.getOrCreate m.system name m.mode m.todo
  | createWorkers name size => exact System.Serves.createWorkers m.system name size m.mode m.todo
  | startAll => exact System.Serves.startAll m.system m.mode m.todo
  | closeAll => exact System.Serves.closeAll m.system m.mode m.todo
  | draw => exact System.Serves.arrange m.system _ _ _ _ _ m.mode m.todo
  | tick clock => exact System.Serves.arrange m.system _ _ _ _ _ m.mode m.todo
  | other mv =>
    cases hadmits : m.admits mv with
    | true =>
      rw [step_admitted code hadmits]
      exact .step mv rfl
    | false =>
      rw [step_refused code hadmits]
      exact .refl m

theorem step_sane (code : κ → Invocation → Prog κ Unit) (hs : m.Sane) (e : Errand κ) :
    (e.step code m).Sane := by
  have hfit : (e.step code m).books.Fit := (step_serves code m e).fit hs.fit
  cases e with
  | getOrCreate name =>
    have henrols := System.noted_enrols hs.registered name
    exact ⟨hfit, hs.phased.calm hs.fit henrols.begun_calm, henrols.begun_registered,
      henrols.begun_awake hs.awake, hs.parked⟩
  | createWorkers name size =>
    have henrols := System.pooled_enrols hs.registered name size
    exact ⟨hfit, hs.phased.calm hs.fit henrols.begun_calm, henrols.begun_registered,
      henrols.begun_awake hs.awake, hs.parked⟩
  | startAll =>
    exact ⟨hfit, hs.phased.calm hs.fit m.system.startAll_calm,
      System.startAll_registered hs.registered, m.system.startAll_awake, hs.parked⟩
  | closeAll =>
    have hends := m.system.closeAll_endures
    exact ⟨hfit, hs.phased.closeAll hs.fit, hends.registered hs.registered, hends.awake hs.awake,
      hs.parked⟩
  | draw =>
    exact ⟨hfit, hs.phased.calm hs.fit (.of_life rfl), ⟨hs.registered.names, hs.registered.pools⟩,
      hs.awake, hs.parked⟩
  | tick clock =>
    exact ⟨hfit, hs.phased.calm hs.fit (.of_life rfl), ⟨hs.registered.names, hs.registered.pools⟩,
      hs.awake, hs.parked⟩
  | other mv =>
    cases hadmits : m.admits mv with
    | false =>
      rw [step_refused code hadmits]
      exact hs
    | true =>
      obtain ⟨hmv, hpaced⟩ := admits_elim hadmits
      have hends := Machine.step_endures (m := m) code hmv
      rw [step_admitted code hadmits] at hfit ⊢
      exact ⟨hfit, hs.phased.step code hs.fit hpaced, hends.registered hs.registered,
        hends.awake hs.awake, hs.parked.step code mv⟩

theorem step_remembers (code : κ → Invocation → Prog κ Unit) (hs : m.system.Registered)
    (e : Errand κ) : Remembers m.system (e.step code m).system := by
  cases e with
  | getOrCreate name => exact (System.noted_enrols hs name).begun_remembers
  | createWorkers name size => exact (System.pooled_enrols hs name size).begun_remembers
  | startAll => exact m.system.startAll_remembers
  | closeAll => exact .of_outline m.system.closeAll_outline
  | draw => exact .of_eq rfl rfl
  | tick clock => exact .of_eq rfl rfl
  | other mv =>
    cases hadmits : m.admits mv with
    | false =>
      rw [step_refused code hadmits]
      exact .of_eq rfl rfl
    | true =>
      rw [step_admitted code hadmits]
      exact .of_outline (Machine.step_outline code m mv (admits_elim hadmits).1)

theorem draws_cons (e : Errand κ) (es : List (Errand κ)) : draws (e :: es) = draws es + draws [e] := by
  simp [draws, List.countP_cons]

theorem step_counts (code : κ → Invocation → Prog κ Unit) (hs : m.system.Registered) {n : Nat}
    (h : Counts n m.system) (e : Errand κ) : Counts (n + draws [e]) (e.step code m).system := by
  cases e with
  | getOrCreate name =>
    exact System.begun_counts (System.noted_enrols hs name).there (System.noted_counts h name)
  | createWorkers name size =>
    exact System.begun_counts (System.pooled_enrols hs name size).there
      (System.pooled_counts h name size)
  | startAll =>
    have hnoted : Counts n { m.system with started := true } := fun hfew =>
      ⟨(h hfew).upcoming, (h hfew).drawn, (h hfew).rising⟩
    exact System.begun_counts (fun r hr => List.mem_range.1 hr) hnoted
  | closeAll => exact m.system.closeAll_endures.counts h
  | draw => exact h.draw
  | tick clock =>
    intro hfew
    have hnumbered := h hfew
    exact ⟨hnumbered.upcoming, hnumbered.drawn, hnumbered.rising⟩
  | other mv =>
    cases hadmits : m.admits mv with
    | false =>
      rw [step_refused code hadmits]
      exact h
    | true =>
      rw [step_admitted code hadmits]
      exact (Machine.step_endures code (admits_elim hadmits).1).counts h

theorem step_known (code : κ → Invocation → Prog κ Unit) (m : Machine κ) (e : Errand κ)
    (name : String) :
    ((e.step code m).system.names.get? name).isSome = true ↔
      (m.system.names.get? name).isSome = true ∨ e = .getOrCreate name := by
  have hsame : (e.step code m).system.names = m.system.names → e ≠ .getOrCreate name →
      (((e.step code m).system.names.get? name).isSome = true ↔
        (m.system.names.get? name).isSome = true ∨ e = .getOrCreate name) := by
    intro hnames hne
    simp [hnames, hne]
  cases e with
  | getOrCreate name' =>
    have hnames : (step code m (.getOrCreate name')).system.names = (m.system.noted name').2.names :=
      congrArg System.Frame.names (m.system.getOrCreate_outline name')
    rw [hnames]
    by_cases hname : name' = name
    · subst hname
      simp [System.noted_names]
    · have hne : (Errand.getOrCreate name' : Errand κ) ≠ .getOrCreate name := by simpa using hname
      have hget : (m.system.noted name').2.names.get? name = m.system.names.get? name := by
        unfold System.noted
        cases m.system.names.get? name' with
        | some r => rfl
        | none => simp [Table.get?_insert, hname, System.spawn]
      simp [hget, hname]
  | createWorkers name' size =>
    have hpooled : (m.system.pooled name' size).2.names = m.system.names := by
      unfold System.pooled
      cases m.system.pools.get? name' with
      | some p => rfl
      | none =>
        exact System.spawnMembers_keeps (P := fun s => s.names = m.system.names)
          (fun _ _ h => h) name' size rfl
    have hout := m.system.createWorkers_outline name' size
    exact hsame ((congrArg System.Frame.names hout).trans hpooled) (by simp)
  | startAll => exact hsame (congrArg System.Frame.names m.system.startAll_outline) (by simp)
  | closeAll => exact hsame (congrArg System.Frame.names m.system.closeAll_outline) (by simp)
  | draw => exact hsame rfl (by simp)
  | tick clock => exact hsame rfl (by simp)
  | other mv =>
    refine hsame ?_ (by simp)
    cases hadmits : m.admits mv with
    | false => rw [step_refused code hadmits]
    | true =>
      rw [step_admitted code hadmits]
      exact congrArg System.Frame.names (Machine.step_outline code m mv (admits_elim hadmits).1)

theorem step_started (code : κ → Invocation → Prog κ Unit) (hs : m.system.Registered) (e : Errand κ) :
    (e.step code m).system.started = true ↔ m.system.started = true ∨ e = .startAll := by
  have hsame : (e.step code m).system.started = m.system.started → e ≠ .startAll →
      ((e.step code m).system.started = true ↔ m.system.started = true ∨ e = .startAll) := by
    intro hstarted hne
    simp [hstarted, hne]
  cases e with
  | getOrCreate name =>
    exact hsame (System.noted_enrols hs name).begun_started (by simp)
  | createWorkers name size =>
    exact hsame (System.pooled_enrols hs name size).begun_started (by simp)
  | startAll => exact iff_of_true (congrArg System.Frame.started m.system.startAll_outline) (.inr rfl)
  | closeAll => exact hsame (congrArg System.Frame.started m.system.closeAll_outline) (by simp)
  | draw => exact hsame rfl (by simp)
  | tick clock => exact hsame rfl (by simp)
  | other mv =>
    refine hsame ?_ (by simp)
    cases hadmits : m.admits mv with
    | false => rw [step_refused code hadmits]
    | true =>
      rw [step_admitted code hadmits]
      exact congrArg System.Frame.started (Machine.step_outline code m mv (admits_elim hadmits).1)

theorem sights_end (code : κ → Invocation → Prog κ Unit) (m : Machine κ) (e : Errand κ) :
    ∃ seen, e.sights code m = seen ++ [(e.step code m).system] := by
  cases e with
  | other mv =>
    cases hadmits : m.admits mv with
    | false => exact ⟨[], by rw [step_refused code hadmits]; simp [sights, hadmits]⟩
    | true => exact ⟨_, by rw [step_admitted code hadmits]; simp [sights, hadmits, Machine.sights]; rfl⟩
  | _ => exact ⟨[], rfl⟩

theorem step_passes (code : κ → Invocation → Prog κ Unit) (hs : m.Sane) (e : Errand κ) :
    List.IsChain System.Passes (m.system :: e.sights code m) := by
  have hsingle : ∀ {s}, System.Passes m.system s → List.IsChain System.Passes [m.system, s] :=
    fun h => .cons_cons h (.singleton _)
  cases e with
  | getOrCreate name => exact hsingle (System.noted_enrols hs.registered name).begun_calm.passes
  | createWorkers name size =>
    exact hsingle (System.pooled_enrols hs.registered name size).begun_calm.passes
  | startAll => exact hsingle m.system.startAll_calm.passes
  | closeAll => exact hsingle (System.closeAll_passes hs.phased.fresh)
  | draw => exact hsingle (Calm.of_life (s := m.system) rfl).passes
  | tick clock => exact hsingle (Calm.of_life (s := m.system) rfl).passes
  | other mv =>
    cases hadmits : m.admits mv with
    | false => simpa [sights, hadmits] using hsingle (Calm.of_life (s := m.system) rfl).passes
    | true =>
      have hchain := hs.phased.passes code hs.fit (admits_elim hadmits).2
      simpa [sights, hadmits] using hchain

theorem after_sane (code : κ → Invocation → Prog κ Unit) (es : List (Errand κ)) (hs : m.Sane) :
    (after code es m).Sane := by
  induction es generalizing m with
  | nil => exact hs
  | cons e es ih => exact ih (step_sane code hs e)

theorem after_remembers (code : κ → Invocation → Prog κ Unit) (es : List (Errand κ)) (hs : m.Sane) :
    Remembers m.system (after code es m).system := by
  induction es generalizing m with
  | nil => exact .of_eq rfl rfl
  | cons e es ih =>
    exact (step_remembers code hs.registered e).trans (ih (step_sane code hs e))

theorem after_known (code : κ → Invocation → Prog κ Unit) (es : List (Errand κ)) (m : Machine κ)
    (name : String) :
    ((after code es m).system.names.get? name).isSome = true ↔
      (m.system.names.get? name).isSome = true ∨ .getOrCreate name ∈ es := by
  induction es generalizing m with
  | nil => simp [after]
  | cons e es ih =>
    have hrest := ih (step code m e)
    rw [step_known, or_assoc] at hrest
    rw [List.mem_cons, eq_comm (a := Errand.getOrCreate name)]
    exact hrest

theorem after_started (code : κ → Invocation → Prog κ Unit) (es : List (Errand κ)) (hs : m.Sane) :
    (after code es m).system.started = true ↔ m.system.started = true ∨ .startAll ∈ es := by
  induction es generalizing m with
  | nil => simp [after]
  | cons e es ih =>
    have hrest := ih (step_sane code hs e)
    rw [step_started code hs.registered, or_assoc] at hrest
    rw [List.mem_cons, eq_comm (a := Errand.startAll)]
    exact hrest

theorem after_counts (code : κ → Invocation → Prog κ Unit) (es : List (Errand κ)) (hs : m.Sane)
    {n : Nat} (h : Counts n m.system) : Counts (n + draws es) (after code es m).system := by
  induction es generalizing m n with
  | nil => exact h
  | cons e es ih =>
    have hrest := ih (step_sane code hs e) (step_counts code hs.registered h e)
    rw [draws_cons, Nat.add_comm (draws es), ← Nat.add_assoc]
    exact hrest

theorem step_identity (code : κ → Invocation → Prog κ Unit) (hs : m.system.Registered) (e : Errand κ)
    {l : Life} (hl : m.system.life r = some l) :
    ∃ l', (e.step code m).system.life r = some l' ∧ l'.id = l.id ∧ l'.name = l.name ∧
      l'.dormant = (l.dormant && !e.touches m r) := by
  rcases step_lives code hs e with hcalm | hends
  · have hr := hcalm r
    rw [hl] at hr
    exact ⟨_, hr.kept_elim, rfl, rfl, rfl⟩
  · exact hends.lives r l hl

theorem step_new (code : κ → Invocation → Prog κ Unit) (hs : m.system.Registered) (e : Errand κ)
    {l' : Life} (hl : m.system.life r = none) (hl' : (e.step code m).system.life r = some l') :
    l'.dormant = !e.touches m r := by
  rcases step_lives code hs e with hcalm | hends
  · have hr := hcalm r
    rw [hl, hl'] at hr
    exact hr.made_elim.2
  · obtain ⟨l, hsome, -⟩ := hends.rev hl'
    rw [hl] at hsome
    cases hsome

theorem after_identity (code : κ → Invocation → Prog κ Unit) (es : List (Errand κ)) (hs : m.Sane)
    {l : Life} (hl : m.system.life r = some l) :
    ∃ l', (after code es m).system.life r = some l' ∧ l'.id = l.id ∧ l'.name = l.name := by
  induction es generalizing m l with
  | nil => exact ⟨l, hl, rfl, rfl⟩
  | cons e es ih =>
    obtain ⟨l₁, hl₁, hid, hname, -⟩ := step_identity code hs.registered e hl
    obtain ⟨l', hl', hid', hname'⟩ := ih (step_sane code hs e) hl₁
    exact ⟨l', hl', hid'.trans hid, hname'.trans hname⟩

/-- An actor is dormant as long as nothing has started or closed it. -/
theorem after_dormant (code : κ → Invocation → Prog κ Unit) (es : List (Errand κ)) (hs : m.Sane)
    {l' : Life} (hl' : (after code es m).system.life r = some l') :
    l'.dormant = ((m.system.life r).elim true Life.dormant && !touched code r es m) := by
  induction es generalizing m with
  | nil =>
    have hl : m.system.life r = some l' := hl'
    simp [hl, touched]
  | cons e es ih =>
    rw [ih (step_sane code hs e) hl', touched]
    cases hl : m.system.life r with
    | some l =>
      obtain ⟨l₁, hl₁, -, -, hd⟩ := step_identity code hs.registered e hl
      simp [hl₁, hd, Bool.and_assoc]
    | none =>
      cases hl₁ : (e.step code m).system.life r with
      | some l₁ => simp [step_new code hs.registered e hl hl₁]
      | none =>
        have hnot : e.touches m r = false := by
          rcases step_lives code hs.registered e with hcalm | hends
          · have hr := hcalm r
            rw [hl, hl₁] at hr
            exact hr.absent_elim
          · exact hends.absent r hl
        simp [hnot]

theorem sightsOf_end (code : κ → Invocation → Prog κ Unit) (es : List (Errand κ)) (m : Machine κ) :
    (m.system :: sightsOf code es m).getLast? = some (after code es m).system := by
  induction es generalizing m with
  | nil => rfl
  | cons e es ih =>
    obtain ⟨seen, hseen⟩ := sights_end code m e
    have hrest := ih (step code m e)
    rw [sightsOf, hseen, List.append_assoc, List.singleton_append, ← List.cons_append,
      List.getLast?_append, hrest]
    rfl

theorem sightsOf_passes (code : κ → Invocation → Prog κ Unit) (es : List (Errand κ)) (hs : m.Sane) :
    List.IsChain System.Passes (m.system :: sightsOf code es m) := by
  induction es generalizing m with
  | nil => exact .singleton _
  | cons e es ih =>
    obtain ⟨seen, hseen⟩ := sights_end code m e
    have hfirst := step_passes code hs e
    have hrest := ih (step_sane code hs e)
    rw [sightsOf, hseen, List.append_assoc, List.singleton_append, ← List.cons_append]
    rw [hseen, ← List.cons_append] at hfirst
    exact List.isChain_split.2 ⟨hfirst, hrest⟩

theorem after_serves (code : κ → Invocation → Prog κ Unit) (es : List (Errand κ)) (m : Machine κ) :
    m.Reaches code (after code es m) := by
  induction es generalizing m with
  | nil => exact .refl m
  | cons e es ih => exact (step_serves code m e).trans (ih _)

structure Lasting (code : κ → Invocation → Prog κ Unit) (m : Machine κ) : Prop where
  actor : ∀ name later,
    let r := (m.system.getOrCreate name).1
    let s := (after code (.getOrCreate name :: later) m).system
    (s.getOrCreate name).1 = r ∧ s.find name = some r ∧ s.require name = .ok r ∧
      ∃ a, s.actor? r = some a ∧ a.name = name
  pool : ∀ name size later,
    let p := (m.system.createWorkers name size).1
    let s := (after code (.createWorkers name size :: later) m).system
    (∀ size', (s.createWorkers name size').1 = p) ∧ s.findPool name = some p ∧ p.name = name ∧
      (m.system.findPool name = none →
        p.size = size ∧ p.members.Nodup ∧ ∀ r ∈ p.members, m.system.actor? r = none) ∧
      ∀ r ∈ p.members, r < s.actors.size
  identity : ∀ later r a, m.system.actor? r = some a →
    ∃ a', (after code later m).system.actor? r = some a' ∧ a'.id = a.id ∧ a'.name = a.name

/-- The actor has come to its end, with nothing left to do. -/
structure Over (s : System κ) (r : ActorRef) (a : Actor κ) : Prop where
  actor : s.actor? r = some a
  phase : a.phase = .closed
  queue : a.queue = []
  pending : a.mailbox.pending = 0

/-- Closing everything, at whatever the actors are, can only end with everything closed. The code that
runs can come to its end, and wherever all is at rest, a turn ends any actor that was there and a run
pass ends all of them. -/
structure Ends (code : κ → Invocation → Prog κ Unit) (m : Machine κ) : Prop where
  comes : ∃ s, (step code m .closeAll).Reaches code (resting s) ∧ s.Quiet ∧
    s.actors.size = m.system.actors.size
  any : ∀ s, (step code m .closeAll).Reaches code (resting s) → s.Quiet → ∀ limit, 0 < limit →
    (∀ r < m.system.actors.size, (∃ a, Over s r a) ∨
      ∃ s', s.turn code limit r = some s' ∧ ∃ a, Over s' r a) ∧
    (s.actors.size = m.system.actors.size →
      ∃ s', s.run code limit = some s' ∧ ∀ r < s.actors.size, ∃ a, Over s' r a)
  rest : ∀ s, m = resting s → s.Quiet → ∀ limit, 0 < limit →
    ∃ s', s.closeDown code limit = some s' ∧ ∀ r < s.actors.size, ∃ a, Over s' r a
  final : ∀ r a, m.system.actor? r = some a → a.phase = .closed →
    Over m.system r a ∧ ∀ later, ∃ a', Over (after code later m).system r a'

/-- What holds after the errands `es`, which have led from `start` to `m`. -/
structure Governed (code : κ → Invocation → Prog κ Unit) (es : List (Errand κ)) (start m : Machine κ) :
    Prop where
  lasting : Lasting code m
  unknown : ∀ name, .getOrCreate name ∉ es →
    m.system.find name = none ∧ m.system.require name = .error (.actorNotFound name)
  ids : m.system.actors.size + draws es + 1 < UInt64.size → ∀ r a, m.system.actor? r = some a →
    a.id ≠ 0 ∧ ∀ r' a', r < r' → m.system.actor? r' = some a' → a.id < a'.id
  /-- An actor is started at the first attempt, unless it was closed before. -/
  starts : ∀ r a, m.system.actor? r = some a →
    (touched code r es start = false → (m.system.start r).1 = .ok ()) ∧
      (touched code r es start = true →
        m.system.start r = (.error (.alreadyStarted a.name), m.system))
  once : ∀ o later r a, m.system.actor? r = some a → Op.rouses o = some r →
    let s := (after code (.other (.outside o) :: later) m).system
    s.start r = (.error (.alreadyStarted a.name), s)
  started : .startAll ∈ es → ∀ r a, m.system.actor? r = some a →
    touched code r es start = true ∧ a.dormant = false
  phases : List.IsChain System.Passes (start.system :: sightsOf code es start) ∧
    (start.system :: sightsOf code es start).getLast? = some m.system
  ends : Ends code m

theorem life_of_actor {s : System κ} {a : Actor κ} (ha : s.actor? r = some a) :
    s.life r = some a.life := by
  simp [System.life, ha]

theorem lasting (code : κ → Invocation → Prog κ Unit) (hs : m.Sane) : Lasting code m := by
  refine ⟨fun name later => ?_, fun name size later => ?_, fun later r a ha => ?_⟩
  · have henrols := System.noted_enrols hs.registered name
    have hs₁ := step_sane code hs (.getOrCreate name)
    have hname : (step code m (.getOrCreate name)).system.names.get? name =
        some (m.system.getOrCreate name).1 :=
      (Remembers.of_outline (m.system.getOrCreate_outline name)).names name _
        (m.system.noted_names name)
    have hlater := (after_remembers code later hs₁).names name _ hname
    have hreg := (after_sane code later hs₁).registered
    have hget : ((after code later (step code m (.getOrCreate name))).system.noted name).1 =
        (m.system.getOrCreate name).1 := by
      simp only [System.noted, hlater]
    obtain ⟨l, hl, hlname⟩ := Option.map_eq_some_iff.1 (hreg.names name _ hlater)
    obtain ⟨a, ha, rfl⟩ := Machine.life_elim hl
    exact ⟨hget, hlater, by simp only [System.require, System.find]; exact hlater ▸ rfl, a, ha, hlname⟩
  · have henrols := System.pooled_enrols hs.registered name size
    have hs₁ := step_sane code hs (.createWorkers name size)
    have hpool : (step code m (.createWorkers name size)).system.pools.get? name =
        some (m.system.createWorkers name size).1 :=
      (Remembers.of_outline (m.system.createWorkers_outline name size)).pools name _
        (m.system.pooled_pools name size)
    have hlater := (after_remembers code later hs₁).pools name _ hpool
    obtain ⟨hname, hmembers⟩ := (after_sane code later hs₁).registered.pools name _ hlater
    have hget : ∀ size', ((after code later
        (step code m (.createWorkers name size))).system.pooled name size').1 =
          (m.system.createWorkers name size).1 := by
      intro size'
      simp only [System.pooled, hlater]
    refine ⟨hget, hlater, hname, fun hnone => ?_, hmembers⟩
    have hmanned := System.createWorkers_manned name size hnone
    exact ⟨hmanned.pool.2.2, hmanned.distinct, fun r hr => (hmanned.fresh r hr).1⟩
  · obtain ⟨l', hl', hid, hname⟩ := after_identity code later hs (life_of_actor ha)
    obtain ⟨a', ha', rfl⟩ := Machine.life_elim hl'
    exact ⟨a', ha', hid, hname⟩

theorem over_of_closed (hf : m.books.Fit) {a : Actor κ} (ha : m.system.actor? r = some a)
    (hc : a.phase = .closed) : Over m.system r a := by
  have hfit := hf.ledger r a.ledger (System.ledger_intro ha)
  have hclosed : a.ledger.closed = true := Actor.ledger_closed.2 hc
  have hbatch : a.batch = [] := (hfit.closed hclosed).2.1
  have hinbox : a.mailbox.toList = [] := (hfit.cleared hclosed).resolve_right fun ⟨_, hleg, _⟩ =>
    List.not_mem_nil hleg
  have hpending := Machine.pending_of_fit hfit
  rw [hinbox] at hpending
  exact ⟨ha, hc, by simp [Actor.queue, hbatch, hinbox], hpending⟩

theorem over_of_reaches (hf : m.books.Fit) {s : System κ} (h : m.Reaches code (resting s))
    (hc : s.Closed r) : ∃ a, Over s r a := by
  obtain ⟨l, hl, hclosed⟩ := hc
  obtain ⟨a, ha, rfl⟩ := System.ledger_elim hl
  exact ⟨a, over_of_closed (m := resting s) (h.fit hf) ha (Actor.ledger_closed.1 hclosed)⟩

theorem ends (code : κ → Invocation → Prog κ Unit) (hs : m.Sane) : Ends code m := by
  have hs₁ := step_sane code hs .closeAll
  have htold : (step code m .closeAll).system.Told := m.system.closeAll_told
  have hsize : (step code m .closeAll).system.actors.size = m.system.actors.size :=
    Machine.size_of_outline m.system.closeAll_outline
  refine ⟨?_, fun s hreach hq limit hlimit => ?_, ?_,
    fun r a ha hc => ⟨over_of_closed hs.fit ha hc, fun later => ?_⟩⟩
  · obtain ⟨s, hreach, hq, hshrinks⟩ := Machine.comes_to_rest code hs₁.fit hs₁.parked
    exact ⟨s, hreach, hq, hshrinks.size.trans hsize⟩
  · have hf : (resting s).books.Fit := hreach.fit hs₁.fit
    have ht : ∀ r < m.system.actors.size, ∃ l, s.ledger r = some l ∧ l.Told := by
      intro r hr
      obtain ⟨l₁, hl₁⟩ := System.exists_ledger (s := (step code m .closeAll).system) (hsize ▸ hr)
      obtain ⟨l, hl, hages⟩ := Machine.Reaches.ages hreach hs₁.fit hl₁
      exact ⟨l, hl, hages.told (htold r l₁ hl₁)⟩
    refine ⟨fun r hr => ?_, fun hsame => ?_⟩
    · obtain ⟨l, hl, hlt⟩ := ht r hr
      cases hclosed : l.closed with
      | true =>
        obtain ⟨a, ha, rfl⟩ := System.ledger_elim hl
        exact .inl ⟨a, over_of_closed hf ha (Actor.ledger_closed.1 hclosed)⟩
      | false =>
        obtain ⟨s', hs', hreach', -, -, hover⟩ := System.turn_of_told hlimit hf hq hl hlt hclosed
        exact .inr ⟨s', hs', over_of_reaches hf hreach' hover⟩
    · have hall : s.Told := by
        intro r l hl
        obtain ⟨l', hl', hlt⟩ := ht r (hsame ▸ System.lt_of_ledger hl)
        exact Option.some.inj (hl'.symm.trans hl) ▸ hlt
      obtain ⟨s', hend, hreach', -, hclosed⟩ := System.run_closes hlimit hf hq hall
      exact ⟨s', hend, fun r hr => over_of_reaches hf hreach' (hclosed r hr)⟩
  · rintro s rfl hq limit hlimit
    have hleads : System.Leads code s s.closeAll := System.closeAll_leads s
    have hq₁ : s.closeAll.Quiet := (hleads hq).2
    have hf₁ : (resting s.closeAll : Machine κ).books.Fit := hs₁.fit
    obtain ⟨s', hend, hreach, -, hclosed⟩ := System.run_closes hlimit hf₁ hq₁ htold
    exact ⟨s', hend, fun r hr => over_of_reaches hf₁ hreach (hclosed r (hsize ▸ hr))⟩
  · obtain ⟨l', hl', hages⟩ := Machine.Reaches.ages (after_serves code later m) hs.fit
      (System.ledger_intro ha)
    have hclosed := hages.closed (Actor.ledger_closed.2 hc)
    obtain ⟨a', ha', rfl⟩ := System.ledger_elim hl'
    exact ⟨a', over_of_closed (after_sane code later hs).fit ha'
      (Actor.ledger_closed.1 hclosed)⟩

theorem refused_of_not_dormant {s : System κ} {a : Actor κ} (ha : s.actor? r = some a)
    (hd : a.dormant = false) : s.start r = (.error (.alreadyStarted a.name), s) := by
  simp [System.start, System.atActor_eq ha, Actor.start, hd, System.put_self ha]

theorem once (code : κ → Invocation → Prog κ Unit) (hs : m.Sane) (o : Op κ) (later : List (Errand κ))
    {a : Actor κ} (ha : m.system.actor? r = some a) (ho : o.rouses = some r) :
    let s := (after code (.other (.outside o) :: later) m).system
    s.start r = (.error (.alreadyStarted a.name), s) := by
  obtain ⟨l', hl', -, hname⟩ :=
    after_identity code (.other (.outside o) :: later) hs (life_of_actor ha)
  have hd := after_dormant code (.other (.outside o) :: later) hs hl'
  obtain ⟨a', ha', rfl⟩ := Machine.life_elim hl'
  have htouch : touches m r (.other (.outside o)) = true := by
    simp [touches, Machine.admits, Machine.builds, Machine.paced, Machine.touches, Machine.asks, ha,
      ho]
  have hd' : a'.dormant = false := by
    simpa [touched, htouch, Actor.life] using hd
  have hsame : a'.name = a.name := hname
  have hrefused := refused_of_not_dormant ha' hd'
  rwa [hsame] at hrefused

/-- Whatever is asked of a registry, and whatever its actors do in between, a name always means the
same actor, identifiers grow in the order of creation, an actor is started once at most, its phases
follow one another, and after everything was closed everything ends. -/
theorem governs (code : κ → Invocation → Prog κ Unit) (config : Config) (clock : Clock)
    (es : List (Errand κ)) :
    Governed code es (resting (.new config clock)) (after code es (resting (.new config clock))) := by
  have hstart : (resting (.new config clock) : Machine κ).Sane := Machine.sane_new config clock
  have hs := after_sane code es hstart
  have hnone : ∀ r, (resting (.new config clock) : Machine κ).system.life r = none := by
    intro r
    simp [resting, System.life, System.actor?, System.new]
  have hdormant : ∀ r a, (after code es (resting (.new config clock))).system.actor? r = some a →
      a.dormant = !touched code r es (resting (.new config clock)) := by
    intro r a ha
    have hd : a.dormant = _ := after_dormant code es hstart (life_of_actor ha)
    rw [hnone] at hd
    simpa using hd
  refine ⟨lasting code hs, fun name hnot => ?_, fun hfew r a ha => ?_, fun r a ha => ⟨?_, ?_⟩,
    fun o later r a ha => once code hs o later ha, fun hmem r a ha => ?_,
    ⟨sightsOf_passes code es hstart, sightsOf_end code es _⟩, ends code hs⟩
  · have hfind : (after code es (resting (.new config clock))).system.names.get? name = none := by
      rw [← Option.not_isSome_iff_eq_none, after_known]
      simpa [resting, System.new, Table.get?_empty] using hnot
    exact ⟨hfind, by simp only [System.require, System.find, hfind]⟩
  · have hnew : System.Counts 0 (resting (.new config clock) : Machine κ).system := fun _ =>
      ⟨rfl, fun r l hl => absurd hl (by simp [hnone]),
        fun r _ l _ _ hl => absurd hl (by simp [hnone])⟩
    have hcounts := after_counts code es hstart hnew
    rw [Nat.zero_add] at hcounts
    have hnumbered := hcounts hfew
    refine ⟨fun hzero => ?_, fun r' a' hlt ha' => ?_⟩
    · have hpos := (hnumbered.drawn r _ (life_of_actor ha)).1
      simp [Actor.life, hzero] at hpos
    · exact hnumbered.rising r r' _ _ hlt (life_of_actor ha) (life_of_actor ha')
  · intro ht
    have hd := hdormant r a ha
    rw [ht] at hd
    simp [System.start, System.atActor_eq ha, Actor.start, hd]
  · intro ht
    have hd := hdormant r a ha
    rw [ht] at hd
    exact refused_of_not_dormant ha hd
  · have hawake := hs.awake ((after_started code es hstart).2 (.inr hmem)) r _ (life_of_actor ha)
    have hd := hdormant r a ha
    have ha' : a.dormant = false := hawake
    rw [ha'] at hd
    exact ⟨by simpa using hd.symm, ha'⟩

end Errand

end ActorSystem
