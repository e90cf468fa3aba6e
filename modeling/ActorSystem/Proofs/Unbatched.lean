import ActorSystem.Proofs.Batching
import ActorSystem.Proofs.Courses

/-!
Systems with batches of different sizes, run through the same scenario: they do the same.
-/

set_option autoImplicit false

namespace ActorSystem

variable {κ : Type}

namespace System

variable {code : κ → Invocation → Prog κ Unit} {s s' s₁ t : System κ} {r : ActorRef}

theorem Agrees.refl (h : Rests s t) : Agrees s s [] fun _ => some ([], t) := by
  refine ⟨rfl, t, h, ?_, 0, fun _ _ => rfl⟩
  rintro limit x hx
  exact (Option.some.inj hx).symm

theorem Agrees.andThen {f : Nat → Option (List (Deed κ) × System κ)}
    {g : Nat → System κ → Option (List (Deed κ) × System κ)} {here there : List (Deed κ)}
    (h : Agrees s s₁ here f)
    (h' : ∀ t₁, Rests s₁ t₁ → Agrees s₁ s' there fun limit => g limit t₁) :
    Agrees s s' (here ++ there) fun limit =>
      (f limit).bind fun p => (g limit p.2).map fun q => (p.1 ++ q.1, q.2) := by
  obtain ⟨hconfig, t₁, ht₁, honly, least, hleast⟩ := h
  obtain ⟨hconfig', t', ht', honly', least', hleast'⟩ := h' t₁ ht₁
  refine ⟨hconfig'.trans hconfig, t', ht', ?_, max least least', ?_⟩
  · intro limit x hx
    obtain ⟨p, hp, hmap⟩ := Option.bind_eq_some_iff.1 hx
    obtain rfl := honly limit p hp
    obtain ⟨q, hq, rfl⟩ := Option.map_eq_some_iff.1 hmap
    obtain rfl := honly' limit q hq
    rfl
  · intro limit hlimit
    obtain ⟨p, hp⟩ :=
      Option.isSome_iff_exists.1 (hleast limit (Nat.le_trans (Nat.le_max_left _ _) hlimit))
    obtain rfl := honly limit p hp
    have hsome := hleast' limit (Nat.le_trans (Nat.le_max_right _ _) hlimit)
    rwa [hp, Option.bind_some, Option.isSome_map]

/-- It makes no difference whether the record is kept along with the run or beside it. -/
theorem recorded_bind (x : Option (System κ)) (here : List (Deed κ))
    (g : System κ → Option (System κ)) (there : System κ → List (Deed κ)) :
    ((x.bind g).map fun u => (here ++ (x.map there).getD [], u)) =
      (x.map fun u => (here, u)).bind fun p =>
        ((g p.2).map fun u => (there p.2, u)).map fun q => (p.1 ++ q.1, q.2) := by
  cases x with
  | none => rfl
  | some u => simp [Function.comp_def]

theorem hasTurn_matches (h : Matches s t) (all : Bool) (r : ActorRef) :
    s.hasTurn all r = t.hasTurn all r := by
  refine h.ask r false fun a b hab => ?_
  cases hab
  rfl

theorem restless_matches (h : Matches s t) : s.restless = t.restless := by
  have hask : (fun r => s.ask r false fun a => a.alive && a.stirred) =
      fun r => t.ask r false fun a => a.alive && a.stirred := by
    funext r
    refine h.ask r false fun a b hab => ?_
    cases hab
    rfl
  unfold restless refs
  rw [hask, h.size]

theorem pass_comes (all : Bool) (rs : List ActorRef) (limit : Nat) (h : Rests s t)
    (hend : pass (turn code limit) all rs s = some s')
    (hplain : ∀ d ∈ passDeeds code limit all rs s, d.Plain s.config.restartPolicy) :
    Agrees s s' (passDeeds code limit all rs s) fun limit =>
      (pass (turn code limit) all rs t).map fun t' => (passDeeds code limit all rs t, t') := by
  induction rs generalizing s t with
  | nil =>
    obtain rfl := Option.some.inj hend
    exact .refl h
  | cons r rs ih =>
    have hsame : s.hasTurn all r = t.hasTurn all r := hasTurn_matches h.matching all r
    have hpass : ∀ limit (s : System κ), pass (turn code limit) all (r :: rs) s =
        if s.hasTurn all r then (turn code limit r s).bind (pass (turn code limit) all rs)
        else pass (turn code limit) all rs s := fun _ _ => rfl
    simp only [hpass, passDeeds, ← hsame] at hend hplain ⊢
    cases hturn : s.hasTurn all r with
    | false =>
      simp only [hturn, Bool.false_eq_true, if_false] at hend hplain ⊢
      exact ih h hend hplain
    | true =>
      simp only [hturn, if_true, recorded_bind] at hend hplain ⊢
      obtain ⟨s₁, hs₁, hrest⟩ := Option.bind_eq_some_iff.1 hend
      rw [hs₁] at hplain ⊢
      have hfirst := turn_comes h (alive_of_hasTurn hturn) limit hs₁ fun d hd =>
        hplain d (List.mem_append_left _ hd)
      refine hfirst.andThen fun t₁ ht₁ => ih ht₁ hrest fun d hd => ?_
      rw [hfirst.config]
      exact hplain d (List.mem_append_right _ hd)

/-- The passes may be as many as the limit allows, or fewer. -/
theorem settleDown_comes (n k : Nat) {limit : Nat} (h : Rests s t)
    (hend : settleDown (turn code limit) n s = some s')
    (hplain : ∀ d ∈ settleDeeds code limit n s, d.Plain s.config.restartPolicy) :
    Agrees s s' (settleDeeds code limit n s) fun limit =>
      (settleDown (turn code limit) (limit - k) t).map fun t' =>
        (settleDeeds code limit (limit - k) t, t') := by
  induction n generalizing s t k with
  | zero => cases hend
  | succ n ih =>
    have hsame := restless_matches h.matching
    have hrefs : t.refs = s.refs := congrArg List.range h.matching.size.symm
    -- With no pass left there is no result, so the limit is `k` and one more.
    suffices hnext : Agrees s s' (settleDeeds code limit (n + 1) s) fun limit =>
        (settleDown (turn code limit) (limit - (k + 1) + 1) t).map fun t' =>
          (settleDeeds code limit (limit - (k + 1) + 1) t, t') by
      obtain ⟨hconfig, t', ht', honly, least, hleast⟩ := hnext
      refine ⟨hconfig, t', ht', fun limit x hx => ?_, max least (k + 1), fun limit hlimit => ?_⟩
      · rcases Nat.lt_or_ge k limit with hlt | hge
        · rw [show limit - k = limit - (k + 1) + 1 by omega] at hx
          exact honly limit x hx
        · rw [Nat.sub_eq_zero_of_le hge] at hx
          cases hx
      · rw [show limit - k = limit - (k + 1) + 1 by omega]
        exact hleast limit (Nat.le_trans (Nat.le_max_left _ _) hlimit)
    simp only [settleDown, settleDeeds, ← hsame] at hend hplain ⊢
    cases hrestless : s.restless with
    | false =>
      simp only [hrestless, Bool.false_eq_true, if_false] at hend ⊢
      obtain rfl := Option.some.inj hend
      exact .refl h
    | true =>
      simp only [hrestless, if_true, recorded_bind, hrefs] at hend hplain ⊢
      obtain ⟨s₁, hs₁, hrest⟩ := Option.bind_eq_some_iff.1 hend
      rw [hs₁] at hplain ⊢
      have hfirst := pass_comes false s.refs limit h hs₁ fun d hd =>
        hplain d (List.mem_append_left _ hd)
      refine hfirst.andThen fun t₁ ht₁ => ih (k + 1) ht₁ hrest fun d hd => ?_
      rw [hfirst.config]
      exact hplain d (List.mem_append_right _ hd)

theorem run_comes (limit : Nat) (h : Rests s t) (hend : s.run code limit = some s')
    (hplain : ∀ d ∈ runDeeds code limit s, d.Plain s.config.restartPolicy) :
    Agrees s s' (runDeeds code limit s) fun limit =>
      (t.run code limit).map fun t' => (runDeeds code limit t, t') := by
  have hrefs : t.refs = s.refs := congrArg List.range h.matching.size.symm
  unfold run takeTurns at hend ⊢
  unfold runDeeds at hplain ⊢
  simp only [recorded_bind, hrefs]
  obtain ⟨s₁, hs₁, hrest⟩ := Option.bind_eq_some_iff.1 hend
  rw [hs₁] at hplain ⊢
  have hfirst := pass_comes true s.refs limit h hs₁ fun d hd =>
    hplain d (List.mem_append_left _ hd)
  refine hfirst.andThen fun t₁ ht₁ => settleDown_comes limit 0 ht₁ hrest fun d hd => ?_
  rw [hfirst.config]
  exact hplain d (List.mem_append_right _ hd)

theorem outside_matches (h : Matches s t) (o : Op κ) :
    Matches (perform s.actors.size o s).2 (perform t.actors.size o t).2 := by
  rw [← h.size]
  cases ho : o.plain with
  | true => exact (perform_matches s.actors.size o ho h).2
  | false =>
    have hs : s.actor? s.actors.size = none := by simp [actor?]
    -- Nobody's timers cannot be set, and the backlog is only looked at.
    cases o with
    | setTimer =>
      simp only [perform]
      rw [atActor_absent hs, atActor_absent (h.none hs)]
      exact h
    | backlog => exact h
    | _ => cases ho

theorem new_matches (id : ActorId) (name : String) {config config' : Config}
    (hwake : config'.wakeCapacity = config.wakeCapacity) :
    (Actor.new id name config : Actor κ).Matches (.new id name config') := by
  have hnew : (Actor.new id name config' : Actor κ) =
      (Actor.new id name config).holding (.new config.wakeCapacity) [] := by
    simp [Actor.new, Actor.holding, hwake]
  rw [hnew]
  exact .intro _ _ rfl ⟨rfl, rfl⟩ (fun _ => ⟨rfl, rfl⟩) ⟨rfl, rfl⟩

theorem spawn_matches (h : Matches s t) (name : String) :
    Matches (s.spawn name).2 (t.spawn name).2 := by
  have hids : t.ids = s.ids := (congrArg System.ids h.shell).symm
  have hwake : t.config.wakeCapacity = s.config.wakeCapacity :=
    (congrArg (fun s : System κ => s.config.wakeCapacity) h.shell).symm
  refine ⟨?_, by simp [spawn, h.size], fun r => ?_, h.batchSize⟩
  · simp only [spawn, hids]
    exact congrArg (fun u : System κ => { u with ids := s.ids.fresh.2 }) h.shell
  · have hr := h.actors r
    simp only [spawn, actor?, Array.getElem?_push, h.size, hids] at hr ⊢
    split
    · exact .some (new_matches _ name hwake)
    · exact hr

theorem stir_comes (x : Stir κ) (limit : Nat) {deeds : List (Deed κ)} (h : Rests s t)
    (hend : stir code limit x s = some (deeds, s'))
    (hplain : ∀ d ∈ deeds, d.Plain s.config.restartPolicy) :
    Agrees s s' deeds fun limit => stir code limit x t := by
  have hdone : ∀ {s₁ t₁ : System κ}, Matches s₁ t₁ → Leads code s s₁ → Leads code t t₁ →
      s₁.config = s.config → Agrees s s₁ [] fun _ => some ([], t₁) := by
    intro s₁ t₁ hmatch hs ht hconfig
    have hrefl : Agrees s₁ s₁ [] fun _ => some ([], t₁) :=
      .refl ⟨hmatch, (hs h.quiet.1).2, (ht h.quiet.2).2⟩
    exact ⟨hconfig, hrefl.comes⟩
  cases x with
  | outside o =>
    obtain ⟨rfl, rfl⟩ := Prod.mk.inj (Option.some.inj hend)
    exact hdone (outside_matches h.matching o) (outside_leads s o) (outside_leads t o)
      (perform_spares _ o s).config
  | request r name args =>
    obtain ⟨rfl, rfl⟩ := Prod.mk.inj (Option.some.inj hend)
    exact hdone (request_matches h.matching r name args) (request_leads s r name args)
      (request_leads t r name args) (request_spares s r name args).config
  | expire c =>
    obtain ⟨rfl, rfl⟩ := Prod.mk.inj (Option.some.inj hend)
    exact hdone (h.matching.settle c .timedOut).2 (expire_leads s c) (expire_leads t c)
      (Spares.settle (π := fun _ => ()) s c .timedOut).config
  | abandon c =>
    obtain ⟨rfl, rfl⟩ := Prod.mk.inj (Option.some.inj hend)
    exact hdone (h.matching.settle c .abandoned).2 (abandon_leads s c) (abandon_leads t c)
      (Spares.settle (π := fun _ => ()) s c .abandoned).config
  | spawn name =>
    obtain ⟨rfl, rfl⟩ := Prod.mk.inj (Option.some.inj hend)
    exact hdone (spawn_matches h.matching name) (spawn_leads s name) (spawn_leads t name) rfl
  | arrange clock ids started names pools =>
    obtain ⟨rfl, rfl⟩ := Prod.mk.inj (Option.some.inj hend)
    have hshell := congrArg (fun u : System κ => { u with clock, ids, started, names, pools })
      h.matching.shell
    exact hdone ⟨hshell, h.matching.size, h.matching.actors, h.matching.batchSize⟩
      (arrange_leads s clock ids started names pools)
      (arrange_leads t clock ids started names pools) rfl
  | turn r =>
    have hask : s.ask r false Actor.alive = t.ask r false Actor.alive := by
      refine h.matching.ask r false fun a b hab => ?_
      cases hab
      rfl
    simp only [stir, ← hask] at hend ⊢
    cases halive : s.ask r false Actor.alive with
    | false =>
      simp only [halive, Bool.false_eq_true, if_false] at hend ⊢
      obtain ⟨rfl, rfl⟩ := Prod.mk.inj (Option.some.inj hend)
      exact .refl h
    | true =>
      simp only [halive, if_true] at hend ⊢
      obtain ⟨s₁, hturn, heq⟩ := Option.map_eq_some_iff.1 hend
      obtain ⟨rfl, rfl⟩ := Prod.mk.inj heq
      have hall : s.hasTurn true r = true := by simpa [hasTurn] using halive
      exact turn_comes h (alive_of_hasTurn hall) limit hturn hplain
  | run =>
    obtain ⟨s₁, hrun, heq⟩ := Option.map_eq_some_iff.1 hend
    obtain ⟨rfl, rfl⟩ := Prod.mk.inj heq
    exact run_comes limit h hrun hplain

theorem course_comes (xs : List (Stir κ)) (limit : Nat) {deeds : List (Deed κ)} (h : Rests s t)
    (hend : course code limit xs s = some (deeds, s'))
    (hplain : ∀ d ∈ deeds, d.Plain s.config.restartPolicy) :
    Agrees s s' deeds fun limit => course code limit xs t := by
  induction xs generalizing s t deeds with
  | nil =>
    obtain ⟨rfl, rfl⟩ := Prod.mk.inj (Option.some.inj hend)
    exact .refl h
  | cons x xs ih =>
    obtain ⟨⟨here, s₁⟩, hhere, hrest⟩ := Option.bind_eq_some_iff.1 hend
    obtain ⟨⟨there, s₂⟩, hthere, heq⟩ := Option.map_eq_some_iff.1 hrest
    obtain ⟨rfl, rfl⟩ := Prod.mk.inj heq
    have hfirst := stir_comes x limit h hhere fun d hd => hplain d (List.mem_append_left _ hd)
    refine hfirst.andThen fun t₁ ht₁ => ih ht₁ hthere fun d hd => ?_
    rw [hfirst.config]
    exact hplain d (List.mem_append_right _ hd)

end System

/-- The actor with its queue in one piece: the batch is put back in front of the mailbox, and what
this remembers of its consumer's sleep is left out. -/
def Actor.unbatched (a : Actor κ) : Actor κ :=
  a.holding
    ⟨⟨a.batch ++ a.mailbox.toList, #[]⟩, a.batch.length + a.mailbox.pending, 0, 0, .new 0⟩ []

theorem Actor.Matches.unbatched {a b : Actor κ} (h : a.Matches b) : b.unbatched = a.unbatched := by
  cases h with
  | intro mailbox batch queue pending dormant timers =>
    have hlength := congrArg List.length queue
    rw [List.length_append, List.length_append] at hlength
    have hpending : (batch.length : Int) + mailbox.pending = a.batch.length + a.mailbox.pending := by
      rw [pending.1, pending.2]
      exact_mod_cast hlength
    simp only [Actor.unbatched, Actor.holding, queue, hpending]

namespace System

/-- The system as it would be with every queue in one piece and batches of one event. -/
def unbatched (s : System κ) : System κ :=
  { s with config.batchSize := 1, actors := s.actors.map Actor.unbatched }

theorem Matches.unbatched {s t : System κ} (h : Matches s t) : t.unbatched = s.unbatched := by
  have hactors : t.actors.map Actor.unbatched = s.actors.map Actor.unbatched := by
    refine Array.ext_getElem? fun r => ?_
    rw [Array.getElem?_map, Array.getElem?_map]
    have hr := h.actors r
    unfold actor? at hr
    generalize s.actors[r]? = x at hr ⊢
    generalize t.actors[r]? = y at hr ⊢
    cases hr with
    | none => rfl
    | some hab => exact congrArg Option.some hab.unbatched
  unfold System.unbatched
  rw [hactors]
  exact congrArg (fun u : System κ => { u with actors := s.actors.map Actor.unbatched })
    h.shell.symm

/-- Whatever the sizes of their batches, two systems that go through the same scenario, in which no
actor sets a timer or asks for a backlog and no panic makes a batch be dropped, do the same: the
same code is run for the same events in the same order, sees the same and is told the same, and
what comes out is one system, with the outcomes of all calls. The one system comes to an end where
the other does. -/
theorem course_unbatched (code : κ → Invocation → Prog κ Unit) {config : Config} {size limit : Nat}
    {clock : Clock} {xs : List (Stir κ)} {deeds : List (Deed κ)} {s : System κ}
    (hs : 1 ≤ config.batchSize) (ht : 1 ≤ size)
    (hend : course code limit xs (.new config clock) = some (deeds, s))
    (hplain : ∀ d ∈ deeds, d.Plain config.restartPolicy) :
    (∀ limit' deeds' t,
      course code limit' xs (.new { config with batchSize := size } clock) = some (deeds', t) →
        deeds' = deeds ∧ t.unbatched = s.unbatched) ∧
      ∃ least, ∀ limit', least ≤ limit' →
        (course code limit' xs (.new { config with batchSize := size } clock)).isSome = true := by
  have hrests : Rests (new config clock : System κ) (.new { config with batchSize := size } clock) := by
    refine ⟨⟨rfl, rfl, fun r => ?_, ⟨hs, ht⟩⟩, quiet_new _ _, quiet_new _ _⟩
    have hnone : ∀ config, (new config clock : System κ).actor? r = none := by simp [actor?, new]
    rw [hnone, hnone]
    exact .none
  obtain ⟨-, t', ht', honly, hends⟩ := course_comes xs limit hrests hend hplain
  refine ⟨fun limit' deeds' t hcourse => ?_, hends⟩
  obtain ⟨rfl, rfl⟩ := Prod.mk.inj (honly limit' (deeds', t) hcourse)
  exact ⟨rfl, ht'.matching.unbatched⟩

/-- Three posts, the second of which makes its handler panic, and a call: taken in batches of three
or one by one. -/
theorem course_unbatched_by_three :
    let code : Bool → Invocation → Prog Bool Unit := fun b i =>
      match b, i with
      | true, .action => .op (.post 0 (.custom false)) fun _ => .pure ()
      | true, _ => .op (.answer [.bool true]) fun _ => .pure ()
      | false, _ => .panic
    let config : Config := { batchSize := 3, restartPolicy := .requeueRemaining }
    let xs : List (Stir Bool) :=
      [.spawn "server", .outside (.registerRpc 0 "ask" true), .outside (.start 0),
        .outside (.post 0 (.custom true)), .outside (.post 0 (.custom false)),
        .outside (.post 0 (.custom true)), .request 0 "ask" .empty, .run]
    ∃ deeds s, course code 6 xs (.new config ⟨0⟩) = some (deeds, s) ∧
      deeds.map Deed.returned = [true, false, true, true, false, false] ∧
      (s.result? 0).map Except.isOk = some true ∧
      (∀ limit' deeds' t,
        course code limit' xs (.new { config with batchSize := 1 } ⟨0⟩) = some (deeds', t) →
          deeds' = deeds ∧ t.unbatched = s.unbatched) := by
  intro code config xs
  have hrun : ((course code 6 xs (.new config ⟨0⟩)).map fun p =>
      (p.1.map Deed.returned, p.1.all fun d => d.done.all fun x => x.op.plain,
        (p.2.result? 0).map Except.isOk)) =
        some ([true, false, true, true, false, false], true, some true) := by decide +kernel
  obtain ⟨⟨deeds, s⟩, hend, heq⟩ := Option.map_eq_some_iff.1 hrun
  obtain ⟨hreturned, hrest⟩ := Prod.mk.inj heq
  obtain ⟨hplain, hresult⟩ := Prod.mk.inj hrest
  refine ⟨deeds, s, hend, hreturned, hresult, ?_⟩
  refine (course_unbatched code (by decide) (Nat.le_refl 1) hend fun d hd => ?_).1
  exact ⟨List.all_eq_true.1 (List.all_eq_true.1 hplain d hd), .inl rfl⟩

end System

end ActorSystem
