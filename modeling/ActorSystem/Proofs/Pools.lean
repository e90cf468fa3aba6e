import ActorSystem.Proofs.Told
import ActorSystem.Proofs.Enrolling
import ActorSystem.Proofs.Handlers
import ActorSystem.Proofs.Outcomes

/-!
Pools. A registration through a pool reaches every member, also behind one that refuses it, and a
call goes to the one member that its name picks. So a name that was ever registered through the pool
has a handler wherever it goes.
-/

set_option autoImplicit false

namespace ActorSystem

open Happening (acceptedIn)

variable {κ : Type}

namespace Pool

variable {p : Pool} {s : System κ} {k : Key} {handler : κ}

def Staffed (p : Pool) (s : System κ) : Prop := ∀ r ∈ p.members, (s.actor? r).isSome

def register (p : Pool) (k : Key) (handler : κ) (s : System κ) : Except Error Unit × System κ :=
  match k with
  | .message proto => p.registerMessage proto handler s
  | .rpc name => p.registerRpc name handler s

theorem register_eq (p : Pool) (k : Key) (handler : κ) (s : System κ) :
    p.register k handler s = broadcast (fun r s => s.register r k handler) p.members s := by
  cases k <;> rfl

theorem route_eq_ok {name : String} {r : ActorRef} :
    p.route name = .ok r ↔ p.members[p.hash.index name p.size]? = some r := by
  unfold route
  cases p.members[p.hash.index name p.size]? with
  | none => simp
  | some r' => simp

/-- The member of the route is told by the name, the hash and the size. -/
theorem exists_route (hp : 0 < p.size) (name : String) :
    ∃ h : p.hash.index name p.size < p.members.length,
      p.route name = .ok p.members[p.hash.index name p.size] :=
  ⟨p.hash.index_lt name hp, route_eq_ok.2 (List.getElem?_eq_getElem _)⟩

theorem route_emptyPool {name : String} :
    p.route name = .error (.emptyPool p.name) ↔ p.size = 0 := by
  constructor
  · intro herror
    by_contra hne
    obtain ⟨hlt, hok⟩ := exists_route (Nat.pos_of_ne_zero hne) name
    rw [hok] at herror
    cases herror
  · intro hsize
    have hmembers : p.members = [] := List.length_eq_zero_iff.1 hsize
    simp [route, hmembers]

theorem mem_of_route {name : String} {r : ActorRef} (h : p.route name = .ok r) : r ∈ p.members :=
  List.mem_of_getElem? (route_eq_ok.1 h)

theorem handler?_broadcast (k k' : Key) (handler : κ) (r : ActorRef) (rs : List ActorRef)
    (s : System κ) (hrs : ∀ r ∈ rs, (s.actor? r).isSome) :
    (broadcast (fun r s => s.register r k handler) rs s).2.handler? r k' =
      (s.handler? r k').or (if r ∈ rs ∧ k = k' then some handler else none) := by
  induction rs generalizing s with
  | nil => simp [broadcast]
  | cons r₀ rs ih =>
    have hhere := s.handler?_register (hrs r₀ List.mem_cons_self) k k' handler r
    have hthere := ih (s.register r₀ k handler).2 fun r hr => by
      rw [System.isSome_register]
      exact hrs r (List.mem_cons_of_mem r₀ hr)
    rw [broadcast, hthere, hhere, Option.or_assoc]
    congr 1
    by_cases hk : k = k'
    · by_cases hr : r₀ = r
      · simp [hk, hr]
      · simp [hk, hr, Ne.symm hr]
    · simp [hk]

theorem broadcast_cons (register : ActorRef → System κ → Except Error Unit × System κ)
    (r : ActorRef) (rs : List ActorRef) (s : System κ) :
    (broadcast register (r :: rs) s).1 =
      match (register r s).1 with
      | .ok () => (broadcast register rs (register r s).2).1
      | .error e => .error e := rfl

/-- It is refused if a member had a handler; one that stands twice among the members refuses the
second time. -/
theorem broadcast_fst (k : Key) (handler : κ) (rs : List ActorRef) (s : System κ)
    (hrs : ∀ r ∈ rs, (s.actor? r).isSome) :
    (broadcast (fun r s => s.register r k handler) rs s).1 =
      if (∃ r ∈ rs, (s.handler? r k).isSome) ∨ ¬rs.Nodup then .error (.duplicateHandler k.shown)
      else .ok () := by
  induction rs generalizing s with
  | nil => simp [broadcast]
  | cons r₀ rs ih =>
    have hthere := ih (s.register r₀ k handler).2 fun r hr => by
      rw [System.isSome_register]
      exact hrs r (List.mem_cons_of_mem r₀ hr)
    have hhere := s.handler?_register (hrs r₀ List.mem_cons_self) k k handler
    have hsome : ∀ r, ((s.register r₀ k handler).2.handler? r k).isSome ↔
        (s.handler? r k).isSome ∨ r₀ = r := by
      intro r
      rw [hhere]
      by_cases hr : r₀ = r <;> simp [hr]
    rw [broadcast_cons, hthere, System.register_fst]
    -- The first member counts as one that has a handler now; this matters if it comes again.
    simp only [hsome]
    by_cases hfound : (s.handler? r₀ k).isSome
    · rw [if_pos hfound]
      exact (if_pos (.inl ⟨r₀, List.mem_cons_self, hfound⟩)).symm
    · rw [if_neg hfound]
      refine if_congr ?_ rfl rfl
      rw [List.nodup_cons]
      constructor
      · rintro (⟨r, hr, hold | rfl⟩ | htwice)
        · exact .inl ⟨r, List.mem_cons_of_mem r₀ hr, hold⟩
        · exact .inr fun h => h.1 hr
        · exact .inr fun h => htwice h.2
      · rintro (⟨r, hr, hold⟩ | htwice)
        · rcases List.mem_cons.1 hr with rfl | hr
          · exact absurd hold hfound
          · exact .inl ⟨r, hr, .inl hold⟩
        · by_cases hr : r₀ ∈ rs
          · exact .inl ⟨r₀, hr, .inr rfl⟩
          · exact .inr fun h => htwice ⟨hr, h⟩

/-- What a registration through the pool says, and what it leaves behind. -/
structure Registers (p : Pool) (k : Key) (handler : κ) (s : System κ)
    (out : Except Error Unit × System κ) : Prop where
  result : out.1 =
    if (∃ r ∈ p.members, (s.handler? r k).isSome) ∨ ¬p.members.Nodup then
      .error (.duplicateHandler k.shown)
    else .ok ()
  handlers : ∀ r k', out.2.handler? r k' =
    (s.handler? r k').or (if r ∈ p.members ∧ k = k' then some handler else none)
  everywhere : ∀ r ∈ p.members, (out.2.handler? r k).isSome

theorem registers (hp : p.Staffed s) (k : Key) (handler : κ) :
    p.Registers k handler s (p.register k handler s) := by
  rw [register_eq]
  have hhandlers := fun r k' => handler?_broadcast k k' handler r p.members s hp
  refine ⟨broadcast_fst k handler p.members s hp, hhandlers, fun r hr => ?_⟩
  rw [hhandlers, if_pos ⟨hr, rfl⟩]
  cases s.handler? r k <;> rfl

end Pool

namespace System

variable {s : System κ} {r : ActorRef} {k : Key}

theorem handler?_ensureAll (rs : List ActorRef) (s : System κ) :
    (s.ensureAll rs).handler? r k = s.handler? r k := by
  induction rs generalizing s with
  | nil => rfl
  | cons r' rs ih => exact (ih _).trans ((handler?_perform 0 (.start r') s r k).trans Option.or_none)

theorem handler?_begun (s : System κ) (rs : List ActorRef) :
    (s.begun rs).handler? r k = s.handler? r k := by
  unfold begun
  split
  · exact handler?_ensureAll rs s
  · rfl

/-- The pool is what was asked for; its members are new, and different from one another. -/
structure Manned (s : System κ) (name : String) (size : Nat) (p : Pool) (s' : System κ) : Prop where
  pool : p.name = name ∧ p.hash = s.config.routeHash ∧ p.size = size
  distinct : p.members.Nodup
  staffed : p.Staffed s'
  fresh : ∀ r ∈ p.members, s.actor? r = none ∧ ∀ k, s'.handler? r k = none

theorem createWorkers_manned (name : String) (size : Nat) (hnone : s.pools.get? name = none) :
    s.Manned name size (s.createWorkers name size).1 (s.createWorkers name size).2 := by
  obtain ⟨hmembers, hspawned⟩ := spawnMembers_fst name size s
  have hconfig : (spawnMembers name size s).2.config = s.config :=
    spawnMembers_keeps (P := fun s' => s'.config = s.config) (fun _ _ h => h) name size rfl
  have hhandlers : ∀ r k, (spawnMembers name size s).2.handler? r k = s.handler? r k := fun r k =>
    spawnMembers_keeps (P := fun s' => s'.handler? r k = s.handler? r k)
      (fun s' name h => (s'.handler?_spawn name r k).trans h) name size rfl
  have hsize := Machine.size_of_outline (createWorkers_outline s name size)
  rw [createWorkers_eq] at hsize ⊢
  simp only [pooled, hnone] at hsize ⊢
  generalize spawnMembers name size s = q at hmembers hspawned hconfig hhandlers hsize ⊢
  obtain ⟨rs, s₁⟩ := q
  dsimp only at hmembers hspawned hconfig hhandlers hsize ⊢
  have hrange : ∀ r ∈ rs, s.actors.size ≤ r ∧ r < s₁.actors.size := fun r hr => by
    rw [hmembers, List.mem_range'_1] at hr
    exact ⟨hr.1, hspawned ▸ hr.2⟩
  refine ⟨⟨rfl, by rw [hconfig], ?_⟩, ?_, fun r hr => ?_, fun r hr => ⟨?_, fun k => ?_⟩⟩
  · simp [Pool.size, hmembers]
  · simp [hmembers, List.nodup_range']
  · have hthere := isSome_life.2 (hsize.symm ▸ (hrange r hr).2)
    rwa [life, Option.isSome_map] at hthere
  · exact Array.getElem?_eq_none (hrange r hr).1
  · rw [handler?_begun]
    exact (hhandlers r k).trans (handler?_absent (Array.getElem?_eq_none (hrange r hr).1))

end System

/-- What is done to a machine: a move, or one thing done with a pool from outside. The reply of a
request is waited for, which only the outside may do. -/
inductive Order (κ : Type) where
  | move (mv : Move κ)
  | register (p : Pool) (k : Key) (handler : κ)
  | rpc (p : Pool) (name : String) (args : Args)
  | request (p : Pool) (name : String) (args : Args)

namespace Order

def does (code : κ → Invocation → Prog κ Unit) : Order κ → Machine κ → Machine κ
  | .move mv, m => (m.step code mv).2
  | .register p k handler, m => { m with system := (p.register k handler m.system).2 }
  | .rpc p name args, m => { m with system := (p.rpc name args m.system).2 }
  | .request p name args, m => { m with system := (p.request name args m.system).2 }

def moves : Order κ → List (Move κ)
  | .move mv => [mv]
  | .register p k handler => p.members.map fun r => .outside (.register r k handler)
  | .rpc p name args =>
    (p.route name).toOption.toList.map fun r => .outside (.post r (.rpc ⟨none, name, args⟩))
  | .request p name args => (p.route name).toOption.toList.map fun r => .request r name args

/-- The call of this name that goes through the pool. Running code makes it by a post to the member
of the route. -/
def call? (p : Pool) (name : String) (m : Machine κ) : Order κ → Option (Event κ)
  | .rpc q n args => if q = p ∧ n = name then some (.post (.rpc ⟨none, name, args⟩)) else none
  | .request q n args =>
    if q = p ∧ n = name then some (.awaitRpc ⟨none, name, args⟩ m.system.calls.size) else none
  | .move mv =>
    match m.operation? mv with
    | some (.post r (.rpc q)) =>
      if (p.route name).toOption = some r ∧ q.sender = none ∧ q.name = name then
        some (.post (.rpc q))
      else none
    | _ => none
  | .register .. => none

def through? (p : Pool) (k : Key) : Order κ → Option κ
  | .register q k' handler => if q = p ∧ k' = k then some handler else none
  | _ => none

end Order

namespace Machine

variable {code : κ → Invocation → Prog κ Unit} {m : Machine κ} {p : Pool} {name : String} {k : Key}

def carryOut (code : κ → Invocation → Prog κ Unit) (ds : List (Order κ)) (m : Machine κ) :
    History κ × Machine κ :=
  play code (ds.flatMap Order.moves) m

theorem carryOut_cons (code : κ → Invocation → Prog κ Unit) (d : Order κ) (ds : List (Order κ))
    (m : Machine κ) :
    m.carryOut code (d :: ds) =
      ((play code d.moves m).1 ++ ((play code d.moves m).2.carryOut code ds).1,
        ((play code d.moves m).2.carryOut code ds).2) := by
  unfold carryOut
  rw [List.flatMap_cons, play_append]

theorem play_register (code : κ → Invocation → Prog κ Unit) (k : Key) (handler : κ)
    (rs : List ActorRef) (m : Machine κ) :
    play code (rs.map fun r => .outside (.register r k handler)) m =
      ([], { m with
        system := (Pool.broadcast (fun r s => s.register r k handler) rs m.system).2 }) := by
  induction rs generalizing m with
  | nil => rfl
  | cons r rs ih =>
    rw [List.map_cons, play, step, System.heard_register, System.perform_register]
    dsimp only
    rw [ih]
    rfl

theorem play_moves (code : κ → Invocation → Prog κ Unit) (d : Order κ) (m : Machine κ) :
    (play code d.moves m).2 = d.does code m := by
  cases d with
  | move mv => rfl
  | register p k handler =>
    rw [Order.moves, play_register, Order.does, Pool.register_eq]
  | rpc p name args =>
    simp only [Order.moves, Order.does, Pool.rpc]
    cases p.route name <;> rfl
  | request p name args =>
    simp only [Order.moves, Order.does, Pool.request]
    cases p.route name <;> rfl

theorem step_operation (code : κ → Invocation → Prog κ Unit) (m : Machine κ) {mv : Move κ}
    {o : Op κ} (h : m.operation? mv = some o) :
    ∃ self, (m.step code mv).1 = m.system.heard self o := by
  cases mv with
  | outside o' =>
    obtain rfl : o' = o := Option.some.inj h
    exact ⟨_, rfl⟩
  | proceed r =>
    refine ⟨r, ?_⟩
    simp only [operation?] at h
    simp only [step, proceed]
    split at h
    · cases h
    · split <;> simp_all
    · cases h
  | _ => cases h

/-- A call is accepted by the member of the route, and that is all that happens. -/
theorem call_accepted (code : κ → Invocation → Prog κ Unit) {d : Order κ} {r : ActorRef}
    {e : Event κ} (hr : p.route name = .ok r) (hopen : ∀ r ∈ p.members, m.system.accepts r = true)
    (hcall : d.call? p name m = some e) : (play code d.moves m).1 = [(r, .accepted e)] := by
  have haccepts := hopen r (Pool.mem_of_route hr)
  cases d with
  | register q k handler => cases hcall
  | rpc q n args =>
    obtain ⟨⟨rfl, rfl⟩, he⟩ := Option.ite_none_right_eq_some.1 hcall
    obtain rfl := Option.some.inj he
    simp [Order.moves, hr, Except.toOption, play, step, System.heard, haccepts]
  | request q n args =>
    obtain ⟨⟨rfl, rfl⟩, he⟩ := Option.ite_none_right_eq_some.1 hcall
    obtain rfl := Option.some.inj he
    simp [Order.moves, hr, Except.toOption, play, step, haccepts]
  | move mv =>
    simp only [Order.call?] at hcall
    split at hcall
    · rename_i r' q hop
      obtain ⟨⟨hroute, -, -⟩, he⟩ := Option.ite_none_right_eq_some.1 hcall
      obtain rfl := Option.some.inj he
      obtain rfl : r = r' := by simpa [hr, Except.toOption] using hroute
      obtain ⟨self, hheard⟩ := m.step_operation code hop
      simp [Order.moves, play, hheard, System.heard, haccepts]
    · cases hcall

/-- The calls of this name that go through the pool while all its members take events. -/
def calls (code : κ → Invocation → Prog κ Unit) (p : Pool) (name : String) :
    List (Order κ) → Machine κ → List (Event κ)
  | [], _ => []
  | d :: ds, m =>
    ((d.call? p name m).filter fun _ => p.members.all m.system.accepts).toList ++
      calls code p name ds (d.does code m)

/-- They are queued at one member, in the order in which they are issued. -/
theorem calls_sublist (code : κ → Invocation → Prog κ Unit) {r : ActorRef}
    (hr : p.route name = .ok r) (ds : List (Order κ)) (m : Machine κ) :
    (calls code p name ds m).Sublist (acceptedIn ((m.carryOut code ds).1.of r)) := by
  induction ds generalizing m with
  | nil => exact List.nil_sublist _
  | cons d ds ih =>
    have hone : ((d.call? p name m).filter fun _ => p.members.all m.system.accepts).toList.Sublist
        (acceptedIn ((play code d.moves m).1.of r)) := by
      by_cases hopen : p.members.all m.system.accepts = true
      · cases hcall : d.call? p name m with
        | none => exact List.nil_sublist _
        | some e =>
          rw [call_accepted code hr (List.all_eq_true.1 hopen) hcall]
          simp [hopen, History.of, Happening.accepted?]
      · cases d.call? p name m <;> simp [hopen]
    rw [carryOut_cons, History.of_append, Happening.acceptedIn_append, play_moves]
    exact hone.append (ih _)

theorem handler?_carryOut (code : κ → Invocation → Prog κ Unit) (ds : List (Order κ))
    (m : Machine κ) {r : ActorRef} {handler : κ} (h : m.system.handler? r k = some handler) :
    (m.carryOut code ds).2.system.handler? r k = some handler := by
  unfold carryOut
  rw [handler?_play, h, Option.some_or]

theorem staffed_does (code : κ → Invocation → Prog κ Unit) (d : Order κ) (m : Machine κ)
    (hp : p.Staffed m.system) : p.Staffed (d.does code m).system := fun r hr => by
  rw [← play_moves]
  exact isSome_play code d.moves m r (hp r hr)

/-- What is registered under the key on members of the pool is registered through the pool. -/
def OnlyThrough (code : κ → Invocation → Prog κ Unit) (p : Pool) (k : Key) :
    List (Order κ) → Machine κ → Prop
  | [], _ => True
  | d :: ds, m =>
    ((∃ handler, d = .register p k handler) ∨
      ∀ x ∈ registrations code d.moves m, x.key = k → x.target ∉ p.members) ∧
    OnlyThrough code p k ds (d.does code m)

theorem handler?_through (code : κ → Invocation → Prog κ Unit) (ds : List (Order κ))
    (m : Machine κ) (hp : p.Staffed m.system) (honly : OnlyThrough code p k ds m) {r : ActorRef}
    (hr : r ∈ p.members) :
    (m.carryOut code ds).2.system.handler? r k =
      (m.system.handler? r k).or (ds.findSome? (Order.through? p k)) := by
  induction ds generalizing m with
  | nil => exact Option.or_none.symm
  | cons d ds ih =>
    obtain ⟨hd, hrest⟩ := honly
    have hone : (d.does code m).system.handler? r k =
        (m.system.handler? r k).or (d.through? p k) := by
      by_cases hpool : ∃ handler, d = .register p k handler
      · obtain ⟨handler, rfl⟩ := hpool
        have hbroadcast := Pool.handler?_broadcast k k handler r p.members m.system hp
        simpa [Order.does, Pool.register_eq, Order.through?, hr] using hbroadcast
      · have hthrough : d.through? p k = none := by
          cases d with
          | register q k' handler =>
            refine if_neg ?_
            rintro ⟨rfl, rfl⟩
            exact hpool ⟨handler, rfl⟩
          | _ => rfl
        have hnone : firstHandler (registrations code d.moves m) r k = none := by
          refine List.findSome?_eq_none_iff.2 fun x hx => if_neg ?_
          rintro ⟨rfl, hkey⟩
          exact hd.resolve_left hpool x hx hkey hr
        rw [← play_moves, handler?_play, hnone, hthrough]
    rw [carryOut_cons, play_moves, ih _ (staffed_does code d m hp) hrest, hone, Option.or_assoc,
      List.findSome?_cons]
    cases d.through? p k <;> rfl

/-- How registrations and calls through pools fit together in a machine that has come about by these
orders, and from there on. -/
structure PoolsFit (code : κ → Invocation → Prog κ Unit) (config : Config) (clock : Clock)
    (ds : List (Order κ)) (h : History κ) (m : Machine κ) : Prop where
  /-- Under a key stands what was first registered there, through whichever pool or directly. -/
  first : ∀ r k, m.system.handler? r k =
    firstHandler (registrations code (ds.flatMap Order.moves) (resting (.new config clock))) r k
  kept : ∀ es r k handler, m.system.handler? r k = some handler →
    (m.carryOut code es).2.system.handler? r k = some handler
  carriedOut : ∀ d, (m.carryOut code [d]).2 = d.does code m
  registered : ∀ (p : Pool) k handler, p.Staffed m.system →
    p.Registers k handler m.system (p.register k handler m.system)
  routed : ∀ (p : Pool) name, (p.route name = .error (.emptyPool p.name) ↔ p.size = 0) ∧
    (0 < p.size → ∃ h : p.hash.index name p.size < p.members.length,
      p.route name = .ok p.members[p.hash.index name p.size])
  answered : ∀ (p : Pool) name args, 0 < p.size → (∀ r ∈ p.members, m.system.accepts r = true) →
    (p.rpc name args m.system).1 = .ok () ∧
    (p.request name args m.system).1 = .ok m.system.calls.size
  /-- A call in that time is accepted by the member of the route, and nothing else happens. -/
  issued : ∀ (p : Pool) name r d e, p.route name = .ok r →
    (∀ r ∈ p.members, m.system.accepts r = true) → d.call? p name m = some e →
    (m.carryOut code [d]).1 = [(r, .accepted e)]
  /-- After a registration, whatever it says and whatever is done then, the calls of the name are
  queued at one member in the order of issue, and find one and the same handler there. -/
  served : ∀ (p : Pool) name handler, p.Staffed m.system → 0 < p.size →
    ∃ r ∈ p.members, p.route name = .ok r ∧ ∃ found, ∀ es,
      let start := (Order.register p (.rpc name) handler).does code m
      (calls code p name es start).Sublist (acceptedIn ((start.carryOut code es).1.of r)) ∧
      (start.carryOut code es).2.RunsHandler code r name found
  alike : ∀ (p : Pool) k es, p.Staffed m.system → OnlyThrough code p k es m → ∀ r ∈ p.members,
    (m.carryOut code es).2.system.handler? r k =
      (m.system.handler? r k).or (es.findSome? (Order.through? p k))
  dispatched : ∀ es r name handler,
    (m.carryOut code es).2.system.handler? r (.rpc name) = some handler →
    (m.carryOut code es).2.RunsHandler code r name handler
  made : ∀ name size, m.system.pools.get? name = none →
    m.system.Manned name size (m.system.createWorkers name size).1
      (m.system.createWorkers name size).2
  /-- What an actor has accepted stands in its queue in this order until it is consumed. -/
  queued : ∀ r a, m.system.actor? r = some a → a.Accounted config (h.of r) (m.mode r)
  runs : m.CoversRuns code

theorem pools_fit (code : κ → Invocation → Prog κ Unit) (config : Config) (clock : Clock)
    (ds : List (Order κ)) :
    PoolsFit code config clock ds (carryOut code ds (resting (.new config clock))).1
      (carryOut code ds (resting (.new config clock))).2 := by
  obtain ⟨hf, haccount, hconfig⟩ := books_accounted code config clock (ds.flatMap Order.moves)
  have hfirst := handler?_play code (ds.flatMap Order.moves) (resting (.new config clock))
  have hundiscarded := play_undiscarded code (ds.flatMap Order.moves) (resting (.new config clock))
  unfold carryOut
  generalize play code (ds.flatMap Order.moves) (resting (.new config clock)) = run at *
  obtain ⟨h, m⟩ := run
  refine ⟨hfirst, fun es r k handler hh => handler?_carryOut code es m hh, fun d => ?_,
    fun p k handler hp => p.registers hp k handler, fun p name => ⟨p.route_emptyPool, ?_⟩,
    fun p name args hsize hopen => ?_, fun p name r d e hr hopen hcall => ?_,
    fun p name handler hp hsize => ?_,
    fun p k es hp honly r hr => handler?_through code es m hp honly hr,
    fun es r name handler hh => runsHandler_of_handler? hh,
    fun name size hnone => System.createWorkers_manned name size hnone, fun r a ha => ?_,
    m.coversRuns code⟩
  · rw [carryOut_cons, play_moves]
    rfl
  · exact fun hsize => p.exists_route hsize name
  · obtain ⟨hlt, hroute⟩ := p.exists_route hsize name
    have haccepts := hopen _ (List.getElem_mem hlt)
    simp only [Pool.rpc, Pool.request, hroute, System.request_ok haccepts, true_and]
  · rw [carryOut_cons, call_accepted code hr hopen hcall]
    rfl
  · obtain ⟨hlt, hroute⟩ := p.exists_route hsize name
    have hr := List.getElem_mem hlt
    obtain ⟨found, hfound⟩ := Option.isSome_iff_exists.1
      ((p.registers hp (.rpc name) handler).everywhere _ hr)
    exact ⟨_, hr, hroute, found, fun es => ⟨calls_sublist code hroute es _,
      runsHandler_of_handler? (handler?_carryOut code es _ hfound)⟩⟩
  · have hl := System.ledger_intro ha
    have hsame : m.books.config = config := hconfig
    have hfit := hf.ledger r _ hl
    have haccount := haccount.account r _ hl
    rw [hsame] at hfit haccount
    exact accounted_of_account hfit haccount (hundiscarded r)

end Machine

end ActorSystem
