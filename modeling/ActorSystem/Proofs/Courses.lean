import ActorSystem.Proofs.Chronicle
import ActorSystem.Proofs.Outside

set_option autoImplicit false

namespace ActorSystem.System

variable {κ : Type} {code : κ → Invocation → Prog κ Unit} {limit : Nat} {s s' : System κ}
  {r : ActorRef}

theorem alive_of_ask (h : s.ask r false Actor.alive = true) : s.Alive r := by
  cases ha : s.actor? r with
  | none => simp [ask, ha] at h
  | some a =>
    rw [ask_eq ha] at h
    exact ⟨a.ledger, ledger_intro ha, h⟩

theorem ask_of_hasTurn {all : Bool} (h : s.hasTurn all r = true) :
    s.ask r false Actor.alive = true := by
  unfold hasTurn at h
  cases ha : s.actor? r with
  | none => simp [ask, ha] at h
  | some a =>
    rw [ask_eq ha, Bool.and_eq_true] at h
    rw [ask_eq ha]
    exact h.1

theorem alive_of_hasTurn {all : Bool} (h : s.hasTurn all r = true) : s.Alive r :=
  alive_of_ask (ask_of_hasTurn h)

/-- Whatever is done with a system, it gets there in whole turns. -/
theorem stir_leads (x : Stir κ) {deeds : List (Deed κ)}
    (hend : stir code limit x s = some (deeds, s')) : Leads code s s' := by
  have hdone : ∀ {s₁ : System κ}, some ([], s₁) = some (deeds, s') → Leads code s s₁ →
      Leads code s s' := by
    intro s₁ heq hs
    rwa [← (Prod.mk.inj (Option.some.inj heq)).2]
  cases x with
  | outside o => exact hdone hend (outside_leads s o)
  | request r name args => exact hdone hend (request_leads s r name args)
  | expire c => exact hdone hend (expire_leads s c)
  | abandon c => exact hdone hend (abandon_leads s c)
  | spawn name => exact hdone hend (spawn_leads s name)
  | arrange clock ids started names pools =>
    exact hdone hend (arrange_leads s clock ids started names pools)
  | turn r =>
    simp only [stir] at hend
    split at hend
    · rename_i halive
      obtain ⟨s₁, hturn, heq⟩ := Option.map_eq_some_iff.1 hend
      obtain ⟨-, rfl⟩ := Prod.mk.inj heq
      exact turn_leads limit s (alive_of_ask halive) hturn
    · obtain ⟨-, rfl⟩ := Prod.mk.inj (Option.some.inj hend)
      exact .refl s
  | run =>
    obtain ⟨s₁, hrun, heq⟩ := Option.map_eq_some_iff.1 hend
    obtain ⟨-, rfl⟩ := Prod.mk.inj heq
    exact run_leads limit s hrun

theorem course_append (code : κ → Invocation → Prog κ Unit) (limit : Nat) (xs ys : List (Stir κ))
    (s : System κ) :
    course code limit (xs ++ ys) s =
      (course code limit xs s).bind fun p =>
        (course code limit ys p.2).map fun q => (p.1 ++ q.1, q.2) := by
  induction xs generalizing s with
  | nil => simp [course]
  | cons x xs ih =>
    rw [List.cons_append, course, course]
    cases stir code limit x s with
    | none => rfl
    | some p =>
      dsimp only [Option.bind_some]
      rw [ih]
      cases course code limit xs p.2 with
      | none => rfl
      | some q =>
        dsimp only [Option.bind_some, Option.map_some]
        cases course code limit ys q.2 with
        | none => rfl
        | some t => simp

theorem course_join {xs ys : List (Stir κ)} {here there : List (Deed κ)} {s₁ : System κ}
    (h : course code limit xs s = some (here, s₁)) (h' : course code limit ys s₁ = some (there, s')) :
    course code limit (xs ++ ys) s = some (here ++ there, s') := by
  rw [course_append, h, Option.bind_some, h']
  rfl

theorem course_split {xs ys : List (Stir κ)} {deeds : List (Deed κ)}
    (h : course code limit (xs ++ ys) s = some (deeds, s')) :
    ∃ here s₁ there, course code limit xs s = some (here, s₁) ∧
      course code limit ys s₁ = some (there, s') ∧ here ++ there = deeds := by
  rw [course_append] at h
  obtain ⟨⟨here, s₁⟩, hhere, hrest⟩ := Option.bind_eq_some_iff.1 h
  obtain ⟨⟨there, s₂⟩, hthere, heq⟩ := Option.map_eq_some_iff.1 hrest
  obtain ⟨rfl, rfl⟩ := Prod.mk.inj heq
  exact ⟨here, s₁, there, hhere, hthere, rfl⟩

theorem course_leads (xs : List (Stir κ)) {deeds : List (Deed κ)}
    (hend : course code limit xs s = some (deeds, s')) : Leads code s s' := by
  induction xs generalizing s deeds with
  | nil =>
    obtain ⟨-, rfl⟩ := Prod.mk.inj (Option.some.inj hend)
    exact .refl s
  | cons x xs ih =>
    obtain ⟨⟨here, s₁⟩, hhere, hrest⟩ := Option.bind_eq_some_iff.1 hend
    obtain ⟨⟨there, s₂⟩, hthere, heq⟩ := Option.map_eq_some_iff.1 hrest
    obtain ⟨-, rfl⟩ := Prod.mk.inj heq
    exact (stir_leads x hhere).trans (ih hthere)

def passTurns (code : κ → Invocation → Prog κ Unit) (limit : Nat) (all : Bool) :
    List ActorRef → System κ → List ActorRef
  | [], _ => []
  | r :: rs, s =>
    if s.hasTurn all r then
      r :: ((turn code limit r s).map (passTurns code limit all rs)).getD []
    else passTurns code limit all rs s

def settleTurns (code : κ → Invocation → Prog κ Unit) (limit : Nat) : Nat → System κ → List ActorRef
  | 0, _ => []
  | n + 1, s =>
    if s.restless then
      passTurns code limit false s.refs s ++
        ((pass (turn code limit) false s.refs s).map (settleTurns code limit n)).getD []
    else []

def runTurns (code : κ → Invocation → Prog κ Unit) (limit : Nat) (s : System κ) : List ActorRef :=
  passTurns code limit true s.refs s ++
    ((pass (turn code limit) true s.refs s).map (settleTurns code limit limit)).getD []

def apart (code : κ → Invocation → Prog κ Unit) (limit : Nat) : Stir κ → System κ → List (Stir κ)
  | .run, s => (runTurns code limit s).map .turn
  | x, _ => [x]

/-- The scenario as it goes on from a system, with the turns of the run passes one by one. -/
def turnByTurn (code : κ → Invocation → Prog κ Unit) (limit : Nat) :
    List (Stir κ) → System κ → List (Stir κ)
  | [], _ => []
  | x :: xs, s =>
    apart code limit x s ++
      ((stir code limit x s).map fun p => turnByTurn code limit xs p.2).getD []

theorem course_single {x : Stir κ} {deeds : List (Deed κ)}
    (h : stir code limit x s = some (deeds, s')) : course code limit [x] s = some (deeds, s') := by
  simp [course, h]

theorem course_turn (halive : s.ask r false Actor.alive = true)
    (hend : turn code limit r s = some s') :
    course code limit [.turn r] s = some (turnDeeds code limit r s, s') := by
  refine course_single ?_
  rw [stir, if_pos halive, hend]
  rfl

theorem pass_turnByTurn (all : Bool) (rs : List ActorRef)
    (hend : pass (turn code limit) all rs s = some s') :
    course code limit ((passTurns code limit all rs s).map .turn) s =
      some (passDeeds code limit all rs s, s') := by
  induction rs generalizing s with
  | nil =>
    obtain rfl := Option.some.inj hend
    rfl
  | cons r rs ih =>
    have hpass : pass (turn code limit) all (r :: rs) s =
        if s.hasTurn all r then (turn code limit r s).bind (pass (turn code limit) all rs)
        else pass (turn code limit) all rs s := rfl
    rw [hpass] at hend
    unfold passTurns passDeeds
    cases hturn : s.hasTurn all r with
    | false =>
      simp only [hturn, Bool.false_eq_true, if_false] at hend ⊢
      exact ih hend
    | true =>
      simp only [hturn, if_true] at hend ⊢
      obtain ⟨s₁, hs₁, hrest⟩ := Option.bind_eq_some_iff.1 hend
      rw [hs₁]
      exact course_join (course_turn (ask_of_hasTurn hturn) hs₁) (ih hrest)

theorem settle_turnByTurn (n : Nat) (hend : settleDown (turn code limit) n s = some s') :
    course code limit ((settleTurns code limit n s).map .turn) s =
      some (settleDeeds code limit n s, s') := by
  induction n generalizing s with
  | zero => cases hend
  | succ n ih =>
    unfold settleDown at hend
    unfold settleTurns settleDeeds
    cases hrestless : s.restless with
    | false =>
      simp only [hrestless, Bool.false_eq_true, if_false] at hend ⊢
      obtain rfl := Option.some.inj hend
      rfl
    | true =>
      simp only [hrestless, if_true] at hend ⊢
      obtain ⟨s₁, hs₁, hrest⟩ := Option.bind_eq_some_iff.1 hend
      rw [hs₁, List.map_append]
      exact course_join (pass_turnByTurn false s.refs hs₁) (ih hrest)

theorem run_turnByTurn (hend : s.run code limit = some s') :
    course code limit ((runTurns code limit s).map .turn) s = some (runDeeds code limit s, s') := by
  unfold run takeTurns at hend
  unfold runTurns runDeeds
  obtain ⟨s₁, hs₁, hrest⟩ := Option.bind_eq_some_iff.1 hend
  rw [hs₁, List.map_append]
  exact course_join (pass_turnByTurn true s.refs hs₁) (settle_turnByTurn limit hrest)

theorem stir_apart (x : Stir κ) {deeds : List (Deed κ)}
    (hend : stir code limit x s = some (deeds, s')) :
    course code limit (apart code limit x s) s = some (deeds, s') := by
  cases x with
  | run =>
    obtain ⟨s₁, hrun, heq⟩ := Option.map_eq_some_iff.1 hend
    obtain ⟨rfl, rfl⟩ := Prod.mk.inj heq
    exact run_turnByTurn hrun
  | _ => exact course_single hend

theorem course_turnByTurn (xs : List (Stir κ)) {deeds : List (Deed κ)}
    (hend : course code limit xs s = some (deeds, s')) :
    course code limit (turnByTurn code limit xs s) s = some (deeds, s') := by
  induction xs generalizing s deeds with
  | nil => exact hend
  | cons x xs ih =>
    obtain ⟨⟨here, s₁⟩, hhere, hrest⟩ := Option.bind_eq_some_iff.1 hend
    obtain ⟨⟨there, s₂⟩, hthere, heq⟩ := Option.map_eq_some_iff.1 hrest
    obtain ⟨rfl, rfl⟩ := Prod.mk.inj heq
    unfold turnByTurn
    rw [hhere]
    exact course_join (stir_apart x hhere) (ih hthere)

/-- What a scenario is made of besides run passes stays in it, and nothing is added but turns. -/
theorem filterMap_turnByTurn {α : Type} (f : Stir κ → Option α) (hturn : ∀ r, f (.turn r) = none)
    (hrun : f .run = none) (xs : List (Stir κ)) {deeds : List (Deed κ)}
    (hend : course code limit xs s = some (deeds, s')) :
    (turnByTurn code limit xs s).filterMap f = xs.filterMap f := by
  induction xs generalizing s s' deeds with
  | nil => rfl
  | cons x xs ih =>
    obtain ⟨⟨here, s₁⟩, hhere, hrest⟩ := Option.bind_eq_some_iff.1 hend
    obtain ⟨⟨there, s₂⟩, hthere, -⟩ := Option.map_eq_some_iff.1 hrest
    have hturns : ∀ rs : List ActorRef, (rs.map Stir.turn).filterMap f = [] := by
      intro rs
      rw [List.filterMap_eq_nil_iff]
      intro x hx
      obtain ⟨r, -, rfl⟩ := List.mem_map.1 hx
      exact hturn r
    unfold turnByTurn
    rw [hhere, List.filterMap_append, ← List.singleton_append, List.filterMap_append]
    dsimp only [Option.map_some, Option.getD_some]
    rw [ih hthere]
    cases x with
    | run => simp [apart, hturns, hrun]
    | _ => rfl

theorem run_not_mem_turnByTurn (code : κ → Invocation → Prog κ Unit) (limit : Nat)
    (xs : List (Stir κ)) (s : System κ) :
    .run ∉ turnByTurn code limit xs s := by
  induction xs generalizing s with
  | nil => exact List.not_mem_nil
  | cons x xs ih =>
    unfold turnByTurn
    rw [List.mem_append, not_or]
    constructor
    · cases x <;> simp [apart]
    · cases stir code limit x s with
      | none => simp
      | some p => exact ih p.2

end ActorSystem.System
