import ActorSystem.Proofs.Lifecycle
import ActorSystem.Proofs.Outside

set_option autoImplicit false

namespace ActorSystem

variable {κ : Type}

inductive Life.Calm : Bool → Option Life → Option Life → Prop where
  | absent : Calm false none none
  | made (touched : Bool) (id : ActorId) (name : String) :
    Calm touched none (some ⟨id, name, .created, !touched⟩)
  | kept (touched : Bool) (l : Life) :
    Calm touched (some l) (some { l with dormant := l.dormant && !touched })

namespace Life.Calm

variable {t t' : Bool} {x y z : Option Life} {l : Life}

theorem refl (x : Option Life) : Calm false x x := by
  cases x with
  | none => exact .absent
  | some l => simpa using Calm.kept false l

theorem trans (h : Calm t x y) (h' : Calm t' y z) : Calm (t || t') x z := by
  cases h with
  | absent => simpa using h'
  | made _ id name =>
    cases h' with
    | kept => simpa using Calm.made (t || t') id name
  | kept _ l =>
    cases h' with
    | kept => simpa [Bool.and_assoc] using Calm.kept (t || t') l

theorem absent_elim (h : Calm t none none) : t = false := by
  cases h
  rfl

theorem made_elim (h : Calm t none (some l)) : l.phase = .created ∧ l.dormant = !t := by
  cases h
  exact ⟨rfl, rfl⟩

theorem kept_elim (h : Calm t (some l) y) : y = some { l with dormant := l.dormant && !t } := by
  cases h
  rfl

end Life.Calm

def Life.told (l : Life) : Life :=
  if l.dormant then { l with dormant := false, phase := .closed } else l

theorem Life.told_dormant (l : Life) : l.told.dormant = false := by
  unfold told
  cases h : l.dormant <;> simp [h]

theorem Life.told_of_not_dormant {l : Life} (h : l.dormant = false) : l.told = l := by
  simp [told, h]

theorem Life.told_told (l : Life) : l.told.told = l.told := told_of_not_dormant l.told_dormant

namespace System

variable {s s' s'' : System κ} {r : ActorRef} {rs : List ActorRef} {name : String} {l : Life}

/-- Actors are only made and started, the latter those that are marked. -/
def Calm (touched : ActorRef → Bool) (s s' : System κ) : Prop :=
  ∀ r, Life.Calm (touched r) (s.life r) (s'.life r)

namespace Calm

variable {t t' : ActorRef → Bool}

theorem of_life (h : s'.life = s.life) : Calm (fun _ => false) s s' := by
  intro r
  rw [h]
  exact .refl _

theorem trans (h : Calm t s s') (h' : Calm t' s' s'') : Calm (fun r => t r || t' r) s s'' :=
  fun r => (h r).trans (h' r)

theorem congr (h : Calm t s s') (heq : ∀ r, t r = t' r) : Calm t' s s' := fun r => heq r ▸ h r

end Calm

theorem isSome_life : (s.life r).isSome = true ↔ r < s.actors.size := by
  simp [life, actor?]

theorem spawn_calm (s : System κ) (name : String) : Calm (fun _ => false) s (s.spawn name).2 := by
  intro r
  rw [Machine.spawn_life]
  by_cases hr : r = s.actors.size
  · subst hr
    rw [Function.update_self, Machine.life_eq_none_iff.2 (Nat.le_refl _)]
    exact .made false _ name
  · rw [Function.update_of_ne hr]
    exact .refl _

theorem ensureStarted_calm (hr : r < s.actors.size) :
    Calm (fun r' => r' == r) s (s.ensureStarted r) := by
  obtain ⟨l, hl⟩ := Option.isSome_iff_exists.1 (isSome_life.2 hr)
  intro r'
  rw [ensureStarted, start_life, hl]
  by_cases h : r' = r
  · subst h
    rw [Function.update_self, hl]
    simpa using Life.Calm.kept true l
  · have hne : (r' == r) = false := beq_false_of_ne h
    simp only [hne, Function.update_of_ne h]
    exact .refl _

theorem ensureStarted_outline (s : System κ) (r : ActorRef) :
    (s.ensureStarted r).outline = s.outline :=
  Beat.outline (.perform (o := .start r) (r := s.actors.size) trivial : Beat (fun _ => True) _ _ _)

theorem ensureAll_outline (s : System κ) (rs : List ActorRef) :
    (s.ensureAll rs).outline = s.outline := by
  induction rs generalizing s with
  | nil => rfl
  | cons r rs ih => exact (ih _).trans (ensureStarted_outline s r)

theorem ensureAll_calm (hrs : ∀ r ∈ rs, r < s.actors.size) :
    Calm (fun r => rs.contains r) s (s.ensureAll rs) := by
  induction rs generalizing s with
  | nil => exact .of_life rfl
  | cons r rs ih =>
    have hfirst := ensureStarted_calm (hrs r List.mem_cons_self)
    have hsize := Machine.size_of_outline (ensureStarted_outline s r)
    have hrest : Calm (fun r => rs.contains r) (s.ensureStarted r) _ :=
      ih fun r' hr' => hsize ▸ hrs r' (List.mem_cons_of_mem _ hr')
    exact (hfirst.trans hrest).congr fun r' => (List.contains_cons).symm

theorem closes_life (rs : List ActorRef) (s : System κ) (r : ActorRef) :
    (rs.foldl close s).life r = if r ∈ rs then (s.life r).map Life.told else s.life r := by
  induction rs generalizing s with
  | nil => simp
  | cons r' rs ih =>
    have hclose : (s.close r').life = Function.update s.life r' ((s.life r').map Life.told) :=
      s.close_life r'
    rw [List.foldl_cons, ih, hclose]
    by_cases hr : r = r'
    · subst hr
      simp [Function.comp_def, Life.told_told]
    · simp [hr]

theorem closeAll_life (s : System κ) (r : ActorRef) : s.closeAll.life r = (s.life r).map Life.told := by
  rw [closeAll, closes_life]
  split
  · rfl
  · rename_i hr
    rw [refs, List.mem_range, Nat.not_lt] at hr
    rw [Machine.life_eq_none_iff.2 hr]
    rfl

theorem close_outline (s : System κ) (r : ActorRef) : (s.close r).outline = s.outline :=
  Beat.outline (.perform (o := .close r) (r := s.actors.size) trivial : Beat (fun _ => True) _ _ _)

theorem closeAll_outline (s : System κ) : s.closeAll.outline = s.outline := by
  unfold closeAll
  generalize s.refs = rs
  induction rs generalizing s with
  | nil => rfl
  | cons r rs ih => exact (ih _).trans (close_outline s r)

structure Remembers (s s' : System κ) : Prop where
  names : ∀ name r, s.names.get? name = some r → s'.names.get? name = some r
  pools : ∀ name p, s.pools.get? name = some p → s'.pools.get? name = some p

namespace Remembers

theorem of_eq (hnames : s'.names = s.names) (hpools : s'.pools = s.pools) : Remembers s s' :=
  ⟨fun _ _ h => hnames ▸ h, fun _ _ h => hpools ▸ h⟩

theorem of_outline (h : s'.outline = s.outline) : Remembers s s' :=
  .of_eq (congrArg Frame.names h) (congrArg Frame.pools h)

theorem trans (h : Remembers s s') (h' : Remembers s' s'') : Remembers s s'' :=
  ⟨fun name r hr => h'.names name r (h.names name r hr),
    fun name p hp => h'.pools name p (h.pools name p hp)⟩

end Remembers

structure Registered (s : System κ) : Prop where
  names : ∀ name r, s.names.get? name = some r → (s.life r).map Life.name = some name
  pools : ∀ name p, s.pools.get? name = some p → p.name = name ∧ ∀ r ∈ p.members, r < s.actors.size

theorem Registered.name_lt (h : s.Registered) (hname : s.names.get? name = some r) :
    r < s.actors.size := by
  have hlife := h.names name r hname
  refine isSome_life.1 ?_
  cases hl : s.life r with
  | none => simp [hl] at hlife
  | some l => rfl

def Awake (s : System κ) : Prop := s.started = true → ∀ r l, s.life r = some l → l.dormant = false

theorem Calm.named {t : ActorRef → Bool} (h : Calm t s s') {name : String}
    (hl : (s.life r).map Life.name = some name) : (s'.life r).map Life.name = some name := by
  obtain ⟨l, hl, hname⟩ := Option.map_eq_some_iff.1 hl
  have hr := h r
  rw [hl] at hr
  rw [hr.kept_elim, Option.map_some, hname]

theorem Calm.size {t : ActorRef → Bool} (h : Calm t s s') : s.actors.size ≤ s'.actors.size := by
  refine Nat.le_of_not_lt fun hlt => ?_
  have hr := h s'.actors.size
  have hsome := isSome_life.2 hlt
  have hnone : s'.life s'.actors.size = none := Machine.life_eq_none_iff.2 (Nat.le_refl _)
  obtain ⟨l, hl⟩ := Option.isSome_iff_exists.1 hsome
  rw [hnone, hl] at hr
  cases hr.kept_elim

/-- The first half of finding or making something: what is made is not yet started. -/
structure Enrols (rs : List ActorRef) (s s' : System κ) : Prop where
  calm : Calm (fun _ => false) s s'
  fresh : ∀ r, s.actors.size ≤ r → r < s'.actors.size → r ∈ rs
  there : ∀ r ∈ rs, r < s'.actors.size
  started : s'.started = s.started
  remembers : Remembers s s'
  registered : s'.Registered

def begun (s : System κ) (rs : List ActorRef) : System κ := if s.started then s.ensureAll rs else s

theorem begun_outline (s : System κ) (rs : List ActorRef) : (s.begun rs).outline = s.outline := by
  unfold begun
  split
  · exact ensureAll_outline s rs
  · rfl

theorem begun_calm (hrs : ∀ r ∈ rs, r < s.actors.size) :
    Calm (fun r => s.started && rs.contains r) s (s.begun rs) := by
  unfold begun
  cases s.started with
  | false => exact .of_life rfl
  | true => exact ensureAll_calm hrs

namespace Enrols

variable (h : Enrols rs s s')

include h

theorem begun_calm : Calm (fun r => s.started && rs.contains r) s (s'.begun rs) := by
  refine (h.calm.trans (System.begun_calm h.there)).congr fun r => ?_
  rw [h.started, Bool.false_or]

theorem begun_registered : (s'.begun rs).Registered := by
  have hout := s'.begun_outline rs
  have hnames : (s'.begun rs).names = s'.names := congrArg Frame.names hout
  have hpools : (s'.begun rs).pools = s'.pools := congrArg Frame.pools hout
  refine ⟨fun name r hname => ?_, fun name p hp => ?_⟩
  · rw [hnames] at hname
    exact (System.begun_calm h.there).named (h.registered.names name r hname)
  · rw [hpools] at hp
    rw [Machine.size_of_outline hout]
    exact h.registered.pools name p hp

theorem begun_started : (s'.begun rs).started = s.started :=
  (congrArg Frame.started (s'.begun_outline rs)).trans h.started

theorem begun_awake (ha : s.Awake) : (s'.begun rs).Awake := by
  intro hstarted r l' hl'
  have hout := s'.begun_outline rs
  have hstarted' : s.started = true := h.begun_started.symm.trans hstarted
  have hr : Life.Calm (rs.contains r) (s.life r) (some l') := by
    simpa only [hstarted', Bool.true_and, hl'] using h.begun_calm r
  cases hl : s.life r with
  | none =>
    have hmem : r ∈ rs := by
      refine h.fresh r (Machine.life_eq_none_iff.1 hl) ?_
      rw [← Machine.size_of_outline hout]
      exact isSome_life.1 (by rw [hl']; rfl)
    rw [hl, List.contains_iff_mem.2 hmem] at hr
    exact hr.made_elim.2
  | some l =>
    rw [hl] at hr
    have hd := ha hstarted' r l hl
    rw [Option.some.inj hr.kept_elim]
    simp [hd]

theorem begun_remembers : Remembers s (s'.begun rs) :=
  h.remembers.trans (.of_outline (s'.begun_outline rs))

end Enrols

def noted (s : System κ) (name : String) : ActorRef × System κ :=
  match s.names.get? name with
  | some r => (r, s)
  | none =>
    let (r, s) := s.spawn name
    (r, { s with names := s.names.insert name r })

theorem getOrCreate_eq (s : System κ) (name : String) :
    s.getOrCreate name = ((s.noted name).1, (s.noted name).2.begun [(s.noted name).1]) := rfl

theorem getOrCreate_outline (s : System κ) (name : String) :
    (s.getOrCreate name).2.outline = (s.noted name).2.outline := by
  rw [getOrCreate_eq]
  exact begun_outline _ _

theorem Enrols.refl (h : s.Registered) (hrs : ∀ r ∈ rs, r < s.actors.size) : Enrols rs s s where
  calm := .of_life rfl
  fresh _ hle hlt := absurd hlt (Nat.not_lt.2 hle)
  there := hrs
  started := rfl
  remembers := .of_eq rfl rfl
  registered := h

theorem noted_enrols (h : s.Registered) (name : String) :
    Enrols [(s.noted name).1] s (s.noted name).2 := by
  unfold noted
  cases hname : s.names.get? name with
  | some r => exact .refl h (by simpa using h.name_lt hname)
  | none =>
    have hcalm := s.spawn_calm name
    refine ⟨hcalm, ?_, ?_, rfl, ⟨?_, fun _ _ hp => hp⟩, ⟨?_, ?_⟩⟩
    · intro r hle hlt
      simp only [spawn, Array.size_push] at hlt
      exact List.mem_singleton.2 (Nat.le_antisymm (Nat.le_of_lt_succ hlt) hle)
    · simp [spawn]
    · intro name' r hr
      have hne : name ≠ name' := fun heq => by simp [← heq, hname] at hr
      simpa [Table.get?_insert, hne, spawn] using hr
    · intro name' r hr
      change ((s.spawn name).2.life r).map Life.name = _
      simp only [Table.get?_insert] at hr
      split at hr
      · rename_i heq
        subst heq
        obtain rfl : s.actors.size = r := Option.some.inj hr
        rw [Machine.spawn_life, Function.update_self]
        rfl
      · exact hcalm.named (h.names name' r hr)
    · intro name' p hp
      obtain ⟨hn, hmembers⟩ := h.pools name' p hp
      exact ⟨hn, fun r hr => Nat.lt_of_lt_of_le (hmembers r hr) hcalm.size⟩

theorem noted_names (s : System κ) (name : String) :
    (s.noted name).2.names.get? name = some (s.noted name).1 := by
  unfold noted
  cases hname : s.names.get? name with
  | some r => exact hname
  | none => simp [Table.get?_insert]

def pooled (s : System κ) (name : String) (size : Nat) : Pool × System κ :=
  match s.pools.get? name with
  | some pool => (pool, s)
  | none =>
    let (members, s) := spawnMembers name size s
    let pool : Pool := ⟨name, members, s.config.routeHash⟩
    (pool, { s with pools := s.pools.insert name pool })

theorem createWorkers_eq (s : System κ) (name : String) (size : Nat) :
    s.createWorkers name size =
      ((s.pooled name size).1, (s.pooled name size).2.begun (s.pooled name size).1.members) := rfl

theorem createWorkers_outline (s : System κ) (name : String) (size : Nat) :
    (s.createWorkers name size).2.outline = (s.pooled name size).2.outline := by
  rw [createWorkers_eq]
  exact begun_outline _ _

theorem spawnMembers_fst (pool : String) (n : Nat) (s : System κ) :
    (spawnMembers pool n s).1 = List.range' s.actors.size n ∧
      (spawnMembers pool n s).2.actors.size = s.actors.size + n := by
  induction n with
  | zero => exact ⟨rfl, rfl⟩
  | succ n ih =>
    obtain ⟨hmembers, hsize⟩ := ih
    unfold spawnMembers
    generalize spawnMembers pool n s = p at hmembers hsize
    obtain ⟨rs, s₁⟩ := p
    dsimp only at hmembers hsize ⊢
    constructor
    · rw [List.range'_concat, hmembers]
      simp [spawn, hsize]
    · simp [spawn, hsize, Nat.add_assoc]

theorem spawnMembers_keeps {P : System κ → Prop} (hspawn : ∀ s name, P s → P (s.spawn name).2)
    (pool : String) (n : Nat) (hp : P s) : P (spawnMembers pool n s).2 := by
  induction n with
  | zero => exact hp
  | succ n ih => exact hspawn _ _ ih

theorem pooled_enrols (h : s.Registered) (name : String) (size : Nat) :
    Enrols (s.pooled name size).1.members s (s.pooled name size).2 := by
  unfold pooled
  cases hname : s.pools.get? name with
  | some p => exact .refl h (h.pools name p hname).2
  | none =>
    obtain ⟨hmembers, hsize⟩ := spawnMembers_fst name size s
    have hkeeps : Calm (fun _ => false) s (spawnMembers name size s).2 ∧
        (spawnMembers name size s).2.started = s.started ∧
        (spawnMembers name size s).2.names = s.names ∧
        (spawnMembers name size s).2.pools = s.pools :=
      spawnMembers_keeps (P := fun s' =>
          Calm (fun _ => false) s s' ∧ s'.started = s.started ∧ s'.names = s.names ∧
            s'.pools = s.pools)
        (fun s' name hp => ⟨hp.1.trans (s'.spawn_calm name), hp.2⟩) name size
        ⟨.of_life rfl, rfl, rfl, rfl⟩
    obtain ⟨hcalm, hstarted, hnames, hpools⟩ := hkeeps
    generalize spawnMembers name size s = p at hmembers hsize hcalm hstarted hnames hpools
    obtain ⟨rs, s₁⟩ := p
    dsimp only at hmembers hsize hcalm hstarted hnames hpools ⊢
    have hrange : ∀ r, r ∈ rs ↔ s.actors.size ≤ r ∧ r < s₁.actors.size := by
      intro r
      rw [hmembers, hsize, List.mem_range'_1]
    refine ⟨hcalm, fun r hle hlt => (hrange r).2 ⟨hle, hlt⟩, fun r hr => ((hrange r).1 hr).2,
      hstarted, ⟨fun _ _ hr => hnames ▸ hr, ?_⟩, ⟨?_, ?_⟩⟩
    · intro name' p hp
      have hne : name ≠ name' := fun heq => by simp [← heq, hname] at hp
      simpa [Table.get?_insert, hne, hpools] using hp
    · intro name' r hr
      exact hcalm.named (h.names name' r (hnames ▸ hr))
    · intro name' p hp
      simp only [Table.get?_insert] at hp
      split at hp
      · rename_i heq
        subst heq
        obtain rfl := Option.some.inj hp
        exact ⟨rfl, fun r hr => ((hrange r).1 hr).2⟩
      · obtain ⟨hn, hmem⟩ := h.pools name' p (hpools ▸ hp)
        exact ⟨hn, fun r hr => Nat.lt_of_lt_of_le (hmem r hr) hcalm.size⟩

theorem pooled_pools (s : System κ) (name : String) (size : Nat) :
    (s.pooled name size).2.pools.get? name = some (s.pooled name size).1 := by
  unfold pooled
  cases hname : s.pools.get? name with
  | some p => exact hname
  | none => simp [Table.get?_insert]

/-- With the actors so many identifiers were drawn, and `draws` others. -/
structure Numbered (draws : Nat) (s : System κ) : Prop where
  upcoming : s.ids.upcoming.toNat = s.actors.size + draws + 1
  drawn : ∀ r l, s.life r = some l → 0 < l.id.toNat ∧ l.id.toNat ≤ s.actors.size + draws
  rising : ∀ r r' l l', r < r' → s.life r = some l → s.life r' = some l' → l.id < l'.id

def Few (draws : Nat) (s : System κ) : Prop := s.actors.size + draws + 1 < UInt64.size

theorem fresh_of_few {draws : Nat} (h : Numbered draws s) (hfew : Few (draws + 1) s) :
    s.ids.fresh = (s.ids.upcoming, ⟨s.ids.upcoming + 1⟩) ∧
      (s.ids.upcoming + 1).toNat = s.actors.size + draws + 2 := by
  have hup := h.upcoming
  unfold Few at hfew
  constructor
  · unfold IdSource.fresh
    rw [if_neg]
    intro hzero
    rw [hzero] at hup
    simp at hup
  · rw [UInt64.toNat_add, hup]
    exact Nat.mod_eq_of_lt (by simp; omega)

theorem Numbered.of_outline {draws : Nat} (h : Numbered draws s) (hout : s'.outline = s.outline)
    (hid : ∀ r l', s'.life r = some l' → ∃ l, s.life r = some l ∧ l'.id = l.id) :
    Numbered draws s' := by
  have hsize := Machine.size_of_outline hout
  have hids : s'.ids = s.ids := congrArg Frame.ids hout
  refine ⟨by rw [hids, hsize, h.upcoming], fun r l' hl' => ?_, fun r r' l l' hlt hl hl' => ?_⟩
  · obtain ⟨l, hl, heq⟩ := hid r l' hl'
    rw [heq, hsize]
    exact h.drawn r l hl
  · obtain ⟨l₀, hl₀, heq⟩ := hid r l hl
    obtain ⟨l₀', hl₀', heq'⟩ := hid r' l' hl'
    rw [heq, heq']
    exact h.rising r r' l₀ l₀' hlt hl₀ hl₀'

theorem Numbered.spawn {draws : Nat} (h : Numbered draws s) (hfew : Few (draws + 1) s)
    (name : String) : Numbered draws (s.spawn name).2 := by
  obtain ⟨hfresh, hnext⟩ := fresh_of_few h hfew
  have hup := h.upcoming
  have hsize : (s.spawn name).2.actors.size = s.actors.size + 1 := by simp [System.spawn]
  have hids : (s.spawn name).2.ids.upcoming = s.ids.upcoming + 1 := by simp [System.spawn, hfresh]
  have hcases : ∀ r l, (s.spawn name).2.life r = some l →
      s.life r = some l ∨ r = s.actors.size ∧ l.id = s.ids.upcoming := by
    intro r l hl
    rw [Machine.spawn_life] at hl
    by_cases hr : r = s.actors.size
    · subst hr
      rw [Function.update_self, hfresh] at hl
      exact .inr ⟨rfl, by rw [← Option.some.inj hl]⟩
    · rw [Function.update_of_ne hr] at hl
      exact .inl hl
  refine ⟨by rw [hids, hnext, hsize]; omega, fun r l hl => ?_, fun r r' l l' hlt hl hl' => ?_⟩
  · rw [hsize]
    rcases hcases r l hl with hold | ⟨-, hid⟩
    · have hdrawn := h.drawn r l hold
      omega
    · rw [hid]
      omega
  · rcases hcases r l hl with hold | ⟨rfl, hid⟩ <;> rcases hcases r' l' hl' with hold' | ⟨rfl, hid'⟩
    · exact h.rising r r' l l' hlt hold hold'
    · have hdrawn := h.drawn r l hold
      rw [hid', UInt64.lt_iff_toNat_lt]
      omega
    · have hr' := isSome_life.1 (Option.isSome_iff_exists.2 ⟨l', hold'⟩)
      exact absurd hlt (Nat.lt_asymm hr')
    · exact absurd hlt (Nat.lt_irrefl _)

theorem Numbered.draw {draws : Nat} (h : Numbered draws s) (hfew : Few (draws + 1) s) :
    Numbered (draws + 1) { s with ids := s.ids.fresh.2 } := by
  obtain ⟨hfresh, hnext⟩ := fresh_of_few h hfew
  refine ⟨?_, fun r l hl => ?_, h.rising⟩
  · rw [hfresh]
    exact hnext
  · have hl := h.drawn r l hl
    exact ⟨hl.1, Nat.le_succ_of_le hl.2⟩

def Counts (draws : Nat) (s : System κ) : Prop := Few draws s → Numbered draws s

theorem Counts.spawn {draws : Nat} (h : Counts draws s) (name : String) :
    Counts draws (s.spawn name).2 := by
  intro hfew
  have hsize : (s.spawn name).2.actors.size = s.actors.size + 1 := by simp [System.spawn]
  unfold Few at hfew
  rw [hsize] at hfew
  exact (h (by unfold Few; omega)).spawn (by unfold Few; omega) name

theorem Counts.draw {draws : Nat} (h : Counts draws s) :
    Counts (draws + 1) { s with ids := s.ids.fresh.2 } := by
  intro hfew
  have hfew' : Few (draws + 1) s := hfew
  exact (h (by unfold Few at *; omega)).draw hfew'

/-- No actor is made, and all stay who they are; the marked ones are started or closed. -/
structure Endures (touched : ActorRef → Bool) (s s' : System κ) : Prop where
  outline : s'.outline = s.outline
  lives : ∀ r l, s.life r = some l → ∃ l', s'.life r = some l' ∧ l'.id = l.id ∧ l'.name = l.name ∧
    l'.dormant = (l.dormant && !touched r)
  absent : ∀ r, s.life r = none → touched r = false

namespace Endures

variable {t : ActorRef → Bool}

theorem rev (h : Endures t s s') {l' : Life} (hl' : s'.life r = some l') :
    ∃ l, s.life r = some l ∧ l'.id = l.id ∧ l'.name = l.name ∧
      l'.dormant = (l.dormant && !t r) := by
  cases hl : s.life r with
  | none =>
    have hle := Machine.life_eq_none_iff.1 hl
    rw [← Machine.size_of_outline h.outline] at hle
    rw [Machine.life_eq_none_iff.2 hle] at hl'
    cases hl'
  | some l =>
    obtain ⟨l₁, hl₁, hsame⟩ := h.lives r l hl
    obtain rfl := Option.some.inj (hl₁.symm.trans hl')
    exact ⟨l, rfl, hsame⟩

theorem of_calm (h : Calm t s s') (hout : s'.outline = s.outline) : Endures t s s' := by
  refine ⟨hout, fun r l hl => ?_, fun r hnone => ?_⟩
  · have hr := h r
    rw [hl] at hr
    exact ⟨_, hr.kept_elim, rfl, rfl, rfl⟩
  · have hr := h r
    have hle := Machine.life_eq_none_iff.1 hnone
    rw [← Machine.size_of_outline hout] at hle
    rw [hnone, Machine.life_eq_none_iff.2 hle] at hr
    exact hr.absent_elim

theorem registered (h : Endures t s s') (hs : s.Registered) : s'.Registered := by
  have hnames : s'.names = s.names := congrArg Frame.names h.outline
  have hpools : s'.pools = s.pools := congrArg Frame.pools h.outline
  have hsize := Machine.size_of_outline h.outline
  refine ⟨fun name r hname => ?_, fun name p hp => ?_⟩
  · obtain ⟨l, hl, hname'⟩ := Option.map_eq_some_iff.1 (hs.names name r (hnames ▸ hname))
    obtain ⟨l', hl', -, heq, -⟩ := h.lives r l hl
    rw [hl', Option.map_some, heq, hname']
  · rw [hsize]
    exact hs.pools name p (hpools ▸ hp)

theorem awake (h : Endures t s s') (hs : s.Awake) : s'.Awake := by
  intro hstarted r l' hl'
  obtain ⟨l, hl, -, -, hd⟩ := h.rev hl'
  have hstarted' : s.started = true := (congrArg Frame.started h.outline).symm.trans hstarted
  rw [hd, hs hstarted' r l hl, Bool.false_and]

theorem counts (h : Endures t s s') {draws : Nat} (hs : Counts draws s) : Counts draws s' := by
  intro hfew
  refine (hs ?_).of_outline h.outline fun r l' hl' => ?_
  · unfold Few at hfew ⊢
    rwa [Machine.size_of_outline h.outline] at hfew
  · obtain ⟨l, hl, hid, -⟩ := h.rev hl'
    exact ⟨l, hl, hid⟩

end Endures

theorem closeAll_endures (s : System κ) :
    Endures (fun r => decide (r < s.actors.size)) s s.closeAll := by
  refine ⟨s.closeAll_outline, fun r l hl => ⟨l.told, ?_, ?_, ?_, ?_⟩, fun r hnone =>
    decide_eq_false (Nat.not_lt.2 (Machine.life_eq_none_iff.1 hnone))⟩
  · rw [closeAll_life, hl]
    rfl
  · unfold Life.told
    split <;> rfl
  · unfold Life.told
    split <;> rfl
  · have hlt : r < s.actors.size := isSome_life.1 (by rw [hl]; rfl)
    rw [l.told_dormant, decide_eq_true hlt, Bool.not_true, Bool.and_false]

theorem begun_counts {draws : Nat} (hrs : ∀ r ∈ rs, r < s.actors.size) (h : Counts draws s) :
    Counts draws (s.begun rs) :=
  (Endures.of_calm (begun_calm hrs) (s.begun_outline rs)).counts h

theorem noted_counts {draws : Nat} (h : Counts draws s) (name : String) :
    Counts draws (s.noted name).2 := by
  unfold noted
  cases s.names.get? name with
  | some r => exact h
  | none =>
    intro hfew
    have hspawn := h.spawn name hfew
    exact ⟨hspawn.upcoming, hspawn.drawn, hspawn.rising⟩

theorem pooled_counts {draws : Nat} (h : Counts draws s) (name : String) (size : Nat) :
    Counts draws (s.pooled name size).2 := by
  unfold pooled
  cases s.pools.get? name with
  | some p => exact h
  | none =>
    intro hfew
    have hspawned := spawnMembers_keeps (P := Counts draws) (fun s name h => h.spawn name) name size h
    have hnumbered := hspawned hfew
    exact ⟨hnumbered.upcoming, hnumbered.drawn, hnumbered.rising⟩

end System

end ActorSystem
