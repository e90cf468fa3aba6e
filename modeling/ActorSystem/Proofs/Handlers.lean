import ActorSystem.Proofs.Strides

set_option autoImplicit false

namespace ActorSystem

variable {κ : Type}

theorem Table.get?_enter {α β : Type} [DecidableEq α] (t : Table α β) (k k' : α) (v : β) :
    (if t.contains k then t else t.insert k v).get? k' =
      (t.get? k').or (if k = k' then some v else none) := by
  cases hfound : t.get? k with
  | some v' =>
    rw [if_pos (by rw [contains, hfound, Option.isSome_some])]
    by_cases hk : k = k'
    · rw [← hk, hfound, Option.some_or]
    · rw [if_neg hk, Option.or_none]
  | none =>
    rw [if_neg (by simp [contains, hfound]), get?_insert]
    by_cases hk : k = k'
    · rw [if_pos hk, if_pos hk, ← hk, hfound, Option.none_or]
    · rw [if_neg hk, if_neg hk, Option.or_none]

inductive Key where
  | message (proto : UInt32)
  | rpc (name : String)
  deriving DecidableEq, Repr

def Key.shown : Key → String
  | message proto => messageKey proto
  | rpc name => rpcKey name

structure Registration (κ : Type) where
  target : ActorRef
  key : Key
  handler : κ

def Op.registration? : Op κ → Option (Registration κ)
  | .registerMessage r proto handler => some ⟨r, .message proto, handler⟩
  | .registerRpc r name handler => some ⟨r, .rpc name, handler⟩
  | _ => none

def Op.register (r : ActorRef) (k : Key) (handler : κ) : Op κ :=
  match k with
  | .message proto => .registerMessage r proto handler
  | .rpc name => .registerRpc r name handler

def firstHandler (xs : List (Registration κ)) (r : ActorRef) (k : Key) : Option κ :=
  xs.findSome? fun x => if x.target = r ∧ x.key = k then some x.handler else none

@[simp] theorem firstHandler_nil (r : ActorRef) (k : Key) :
    firstHandler ([] : List (Registration κ)) r k = none := rfl

@[simp] theorem firstHandler_append (xs ys : List (Registration κ)) (r : ActorRef) (k : Key) :
    firstHandler (xs ++ ys) r k = (firstHandler xs r k).or (firstHandler ys r k) :=
  List.findSome?_append

@[simp] theorem firstHandler_singleton (x : Registration κ) (r : ActorRef) (k : Key) :
    firstHandler [x] r k = if x.target = r ∧ x.key = k then some x.handler else none := by
  unfold firstHandler
  split <;> simp_all

def Event.request? : Event κ → Option Request
  | .awaitRpc q _ => some q
  | .post (.rpc q) => some q
  | _ => none

namespace Actor

def handler? (a : Actor κ) : Key → Option κ
  | .message proto => a.onMessage.get? proto
  | .rpc name => a.onRpc.get? name

def register (a : Actor κ) (k : Key) (handler : κ) : Except Error Unit × Actor κ :=
  match k with
  | .message proto => a.registerMessage proto handler
  | .rpc name => a.registerRpc name handler

/-- A registration is refused for a handler that is there, and for nothing else. -/
theorem register_fst (a : Actor κ) (k : Key) (handler : κ) :
    (a.register k handler).1 =
      if (a.handler? k).isSome then .error (.duplicateHandler k.shown) else .ok () := by
  cases k with
  | message proto =>
    unfold register registerMessage
    exact apply_ite Prod.fst _ _ _
  | rpc name =>
    unfold register registerRpc
    exact apply_ite Prod.fst _ _ _

theorem handler?_register (a : Actor κ) (k k' : Key) (handler : κ) :
    (a.register k handler).2.handler? k' =
      (a.handler? k').or (if k = k' then some handler else none) := by
  cases k with
  | message proto =>
    have hown : (a.registerMessage proto handler).2.onMessage =
        if a.onMessage.contains proto then a.onMessage else a.onMessage.insert proto handler :=
      apply_ite (fun x : Except Error Unit × Actor κ => x.2.onMessage) _ _ _
    have hother : (a.registerMessage proto handler).2.onRpc = a.onRpc := by
      unfold registerMessage
      split <;> rfl
    cases k' with
    | message proto' => simp only [register, handler?, hown, Table.get?_enter, Key.message.injEq]
    | rpc name => simp [register, handler?, hother]
  | rpc name =>
    have hown : (a.registerRpc name handler).2.onRpc =
        if a.onRpc.contains name then a.onRpc else a.onRpc.insert name handler :=
      apply_ite (fun x : Except Error Unit × Actor κ => x.2.onRpc) _ _ _
    have hother : (a.registerRpc name handler).2.onMessage = a.onMessage := by
      unfold registerRpc
      split <;> rfl
    cases k' with
    | message proto => simp [register, handler?, hother]
    | rpc name' => simp only [register, handler?, hown, Table.get?_enter, Key.rpc.injEq]

theorem handler?_react (a : Actor κ) (e : Event κ) (k : Key) :
    (a.react e).actor.handler? k = a.handler? k :=
  (congrArg (fun a : Actor κ => a.handler? k) (a.react_eq e)).trans rfl

theorem react_request {a : Actor κ} {e : Event κ} {q : Request} (he : e.request? = some q)
    {handler : κ} (hh : a.handler? (.rpc q.name) = some handler) :
    (a.react e).work = .run handler (.rpc q.args) := by
  have hfound : a.onRpc.get? q.name = some handler := hh
  have hcall : ∀ reply, (a.onCall q reply).work = .run handler (.rpc q.args) := by
    intro reply
    simp only [onCall, hfound]
    rfl
  cases e with
  | errand => cases he
  | awaitRpc q' call =>
    obtain rfl : q' = q := Option.some.inj he
    exact hcall (some call)
  | post p =>
    cases p with
    | rpc q' =>
      obtain rfl : q' = q := Option.some.inj he
      exact hcall none
    | _ => cases he

end Actor

theorem Act.accept_handler? (e : Event κ) (a : Actor κ) (k : Key) :
    (accept e a).1.handler? k = a.handler? k := by
  unfold accept
  split <;> rfl

/-- Of all operations only a registration is about handlers. -/
theorem Op.handler?_act (now maxDelay : UInt64) (sender : Option ActorId) (o : Op κ) (a : Actor κ)
    (k : Key) :
    (o.act now maxDelay sender a).1.handler? k =
      (a.handler? k).or
        (o.registration?.bind fun x => if x.key = k then some x.handler else none) := by
  cases o with
  | registerMessage target proto handler => exact a.handler?_register (.message proto) k handler
  | registerRpc target name handler => exact a.handler?_register (.rpc name) k handler
  | keepReply slot =>
    simp only [registration?, Option.bind_none, Option.or_none, act, Act.keepReply]
    split <;> rfl
  | unshelve slot =>
    simp only [registration?, Option.bind_none, Option.or_none, act, Act.unshelve]
    split <;> rfl
  | shelve slot =>
    simp only [registration?, Option.bind_none, Option.or_none, act, Act.shelve]
    split <;> rfl
  | cancelTimer id =>
    simp only [registration?, Option.bind_none, Option.or_none, act, Act.cancel, Actor.cancel]
    split <;> rfl
  | post | call =>
    simp only [registration?, Option.bind_none, Option.or_none, act]
    exact Act.accept_handler? _ a k
  | execute target action owned =>
    simp only [registration?, Option.bind_none, Option.or_none, act, Act.enlist]
    exact Act.accept_handler? _ (Act.entrust owned a).1 k
  | start target =>
    simp only [registration?, Option.bind_none, Option.or_none, act, Act.write, Actor.start]
    split <;> rfl
  | close target =>
    simp only [registration?, Option.bind_none, Option.or_none, act, Act.close]
    split <;> rfl
  | _ => exact Option.or_none.symm

namespace System

variable {s s' : System κ} {r r' : ActorRef} {k : Key}

def handler? (s : System κ) (r : ActorRef) (k : Key) : Option κ :=
  (s.actor? r).bind fun a => a.handler? k

theorem handler?_eq {a : Actor κ} (ha : s.actor? r = some a) : s.handler? r k = a.handler? k := by
  rw [handler?, ha, Option.bind_some]

theorem handler?_absent (ha : s.actor? r = none) : s.handler? r k = none := by
  rw [handler?, ha, Option.bind_none]

/-- The registration that the operation asks of an actor which is there. -/
def registration? (s : System κ) (o : Op κ) : Option (Registration κ) :=
  o.registration?.filter fun x => (s.actor? x.target).isSome

theorem Does.handler? {act : Act κ} (h : Does act r' s s')
    (hact : ∀ a, (act a).1.handler? k = a.handler? k) : s'.handler? r k = s.handler? r k := by
  by_cases hr : r = r'
  · subst hr
    cases ha : s.actor? r with
    | none =>
      have ha' : s'.actor? r = none := by rw [h.actor, Function.update_self, ha, Option.map_none]
      rw [handler?_absent ha, handler?_absent ha']
    | some a => rw [handler?_eq (h.self ha), handler?_eq ha, hact]
  · rw [System.handler?, h.other hr, System.handler?]

theorem handler?_recover (s : System κ) (r' : ActorRef) :
    (s.recover r').handler? r k = s.handler? r k := by
  refine (recover_does s r').handler? fun a => ?_
  cases s.config.restartPolicy <;> rfl

theorem handler?_push (s : System κ) (target : ActorRef) (e : Event κ) :
    (s.push target e).handler? r k = s.handler? r k := by
  cases ha : s.actor? target with
  | none =>
    rw [push_refused (accepts_absent ha), giveUpAll_eq]
    rfl
  | some a => exact (push_does ha e).handler? fun a => Act.accept_handler? e a k

/-- An operation registers at most one handler, and none where there is one. -/
theorem handler?_perform (self : ActorRef) (o : Op κ) (s : System κ) (r : ActorRef) (k : Key) :
    (perform self o s).2.handler? r k =
      (s.handler? r k).or (firstHandler (s.registration? o).toList r k) := by
  cases ho : o.registration? with
  | none =>
    have hnone : s.registration? o = none := by rw [registration?, ho, Option.filter_none]
    rw [hnone, Option.toList_none, firstHandler_nil, Option.or_none]
    cases hcross : o.crosses self with
    | true =>
      cases o with
      | execute target action owned =>
        exact (handler?_push _ target _).trans
          ((takeOwned_does s self owned).handler? fun _ => rfl)
      | _ => cases hcross
    | false =>
      refine (perform_does self hcross s).handler? fun a => ?_
      rw [Op.handler?_act, ho, Option.bind_none, Option.or_none]
  | some x =>
    have hcross : o.crosses self = false := by cases o <;> cases ho <;> rfl
    have hd := perform_does self hcross s
    have hplace : o.place self = x.target := by
      unfold Op.place
      cases o <;> cases ho <;> rfl
    rw [hplace] at hd
    cases ha : s.actor? x.target with
    | none =>
      -- Nobody is asked, so the registration does not count.
      have hnone : s.registration? o = none := by simp [registration?, ho, ha]
      rw [hnone, Option.toList_none, firstHandler_nil, Option.or_none]
      have hsame : (perform self o s).2.actor? = s.actor? := by
        rw [hd.actor, ha, Option.map_none, ← ha, Function.update_eq_self]
      rw [System.handler?, hsame, System.handler?]
    | some a =>
      have hsome : s.registration? o = some x := by simp [registration?, ho, ha]
      rw [hsome, Option.toList_some, firstHandler_singleton]
      by_cases hr : r = x.target
      · subst hr
        rw [handler?_eq (hd.self ha), handler?_eq ha, Op.handler?_act, ho, Option.bind_some]
        simp
      · rw [System.handler?, hd.other hr, System.handler?, if_neg fun h => hr h.1.symm,
          Option.or_none]

def register (s : System κ) (r : ActorRef) (k : Key) (handler : κ) : Except Error Unit × System κ :=
  match k with
  | .message proto => s.registerMessage r proto handler
  | .rpc name => s.registerRpc r name handler

theorem perform_register (self r : ActorRef) (k : Key) (handler : κ) (s : System κ) :
    (perform self (.register r k handler) s).2 = (s.register r k handler).2 := by
  cases k <;> rfl

theorem heard_register (s : System κ) (self r : ActorRef) (k : Key) (handler : κ) :
    s.heard self (.register r k handler) = [] := by
  cases k <;> rfl

theorem register_fst (s : System κ) (r : ActorRef) (k : Key) (handler : κ) :
    (s.register r k handler).1 =
      if (s.handler? r k).isSome then .error (.duplicateHandler k.shown) else .ok () := by
  have hactor : s.register r k handler = s.atActor r (.ok ()) fun a => a.register k handler := by
    cases k <;> rfl
  rw [hactor]
  cases ha : s.actor? r with
  | none => simp [atActor_absent ha, handler?_absent ha]
  | some a => rw [atActor_eq ha, handler?_eq ha, Actor.register_fst]

theorem handler?_register (s : System κ) (hr : (s.actor? r).isSome) (k k' : Key) (handler : κ)
    (r' : ActorRef) :
    (s.register r k handler).2.handler? r' k' =
      (s.handler? r' k').or (if r = r' ∧ k = k' then some handler else none) := by
  have hasks : s.registration? (.register r k handler) = some ⟨r, k, handler⟩ := by
    cases k <;> simp [registration?, Op.registration?, Op.register, hr]
  rw [← perform_register r, handler?_perform, hasks, Option.toList_some, firstHandler_singleton]

theorem isSome_register (s : System κ) (r r' : ActorRef) (k : Key) (handler : κ) :
    ((s.register r k handler).2.actor? r').isSome = (s.actor? r').isSome := by
  have hcross : (Op.register r k handler).crosses r = false := by cases k <;> rfl
  have hd := (perform_does r hcross s).actor
  rw [← perform_register r, hd]
  by_cases hr : r' = (Op.register r k handler).place r
  · rw [← hr, Function.update_self, Option.isSome_map]
  · rw [Function.update_of_ne hr]

theorem handler?_spawn (s : System κ) (name : String) (r : ActorRef) (k : Key) :
    (s.spawn name).2.handler? r k = s.handler? r k := by
  unfold System.handler? spawn actor?
  dsimp only
  rw [Array.getElem?_push]
  split
  · rename_i hr
    subst hr
    rw [Array.getElem?_eq_none (Nat.le_refl _)]
    cases k <;> rfl
  · rfl

end System

namespace Machine

variable {code : κ → Invocation → Prog κ Unit} {m : Machine κ}

def operation? (m : Machine κ) : Move κ → Option (Op κ)
  | .outside o => some o
  | .proceed r =>
    match m.mode r, m.todo r with
    | .ready, _ => none
    | _, .op o _ => some o
    | _, _ => none
  | _ => none

def registration? (m : Machine κ) (mv : Move κ) : Option (Registration κ) :=
  (m.operation? mv).bind m.system.registration?

/-- All that is registered in the course of these moves, refused or not. -/
def registrations (code : κ → Invocation → Prog κ Unit) :
    List (Move κ) → Machine κ → List (Registration κ)
  | [], _ => []
  | mv :: mvs, m => (m.registration? mv).toList ++ registrations code mvs (m.step code mv).2

theorem handler?_proceed (m : Machine κ) (r' r : ActorRef) (k : Key) :
    (m.proceed r').2.system.handler? r k =
      (m.system.handler? r k).or (firstHandler (m.registration? (.proceed r')).toList r k) := by
  have hquiet : ∀ {m' : Machine κ}, m'.system.handler? r k = m.system.handler? r k →
      m.operation? (.proceed r') = none → m'.system.handler? r k =
        (m.system.handler? r k).or (firstHandler (m.registration? (.proceed r')).toList r k) := by
    intro m' hsame hnone
    rw [registration?, hnone, Option.bind_none, Option.toList_none, firstHandler_nil,
      Option.or_none, hsame]
  unfold proceed
  split
  · rename_i hready
    exact hquiet rfl (by simp [operation?, hready])
  · rename_i o next htodo hbusy
    have hop : m.operation? (.proceed r') = some o := by
      unfold operation?
      split <;> simp_all
    rw [registration?, hop, Option.bind_some]
    exact System.handler?_perform r' o m.system r k
  · rename_i e u hmode htodo
    exact hquiet ((System.afterEvent_does m.system r').handler? fun _ => rfl)
      (by simp [operation?, hmode, htodo])
  · rename_i e hmode htodo
    exact hquiet (m.system.handler?_recover r') (by simp [operation?, hmode, htodo])
  · rename_i u hmode htodo
    exact hquiet ((System.fired_does m.system r').handler? fun _ => rfl)
      (by simp [operation?, hmode, htodo])
  · rename_i hmode htodo
    exact hquiet (m.system.handler?_recover r') (by simp [operation?, hmode, htodo])

theorem handler?_begin (m : Machine κ) (r' r : ActorRef) (k : Key) :
    (m.begin code r').system.handler? r k = m.system.handler? r k := by
  unfold begin
  split
  · rename_i a hready ha
    split
    · rfl
    · rename_i e rest hbatch
      obtain ⟨hdoes, -⟩ := System.opening_does ha hbatch
      refine hdoes.handler? fun a => ?_
      unfold Act.begin Act.opening
      cases a.batch with
      | nil => rfl
      | cons e rest => exact Actor.handler?_react { a with batch := rest } e k
  · rfl

theorem handler?_fire (m : Machine κ) (r' r : ActorRef) (k : Key) :
    (m.fire code r').system.handler? r k = m.system.handler? r k := by
  unfold fire
  split
  · have hsame := (System.expire_does m.system r').handler? (r := r) (k := k) fun a => by
      simp only [Act.poll, Act.write, Actor.expire]
      split <;> rfl
    unfold System.expire at hsame
    dsimp only
    split <;> exact hsame
  · rfl

theorem handler?_request (m : Machine κ) (r' r : ActorRef) (name : String) (args : Args) (k : Key) :
    (m.system.request r' name args).2.handler? r k = m.system.handler? r k := by
  cases ha : m.system.actor? r' with
  | none => simp only [System.request, ha]
  | some a =>
    cases hopen : a.refuses with
    | true => simp only [System.request, ha, hopen, if_true]
    | false =>
      let s₁ : System κ := { m.system with calls := m.system.calls.push ⟨name, .waiting⟩ }
      have hput := System.Does.put (s := s₁) ha fun a =>
        a.enqueue (.awaitRpc ⟨none, name, args⟩ m.system.calls.size)
      rw [System.request_open ha hopen]
      exact hput.handler? fun _ => rfl

theorem handler?_elsewhere (m : Machine κ) (c : CallRef) (use : Fate κ) (r : ActorRef) (k : Key) :
    (m.system.elsewhere c use).2.handler? r k = m.system.handler? r k := by
  have hsettle : ∀ (s : System κ) state, (s.settle c state).2.handler? r k = s.handler? r k :=
    fun s state => congrArg (fun f : ActorRef → Option (Actor κ) => (f r).bind fun a => a.handler? k)
      (s.settle_actor? c state)
  unfold System.elsewhere
  split
  · rfl
  · cases use with
    | answer vs => exact hsettle _ _
    | drop => exact hsettle _ _
    | pass slot target action => exact System.handler?_push _ target _

theorem handler?_idle (m : Machine κ) {s : System κ} {r : ActorRef} {k : Key} {b : Bool}
    (h : s.handler? r k = m.system.handler? r k) :
    (if b then { m with system := s } else m).system.handler? r k = m.system.handler? r k := by
  cases b with
  | true => exact h
  | false => rfl

theorem handler?_dismantle (m : Machine κ) (r' r : ActorRef) (k : Key) :
    (m.dismantle r').2.system.handler? r k = m.system.handler? r k := by
  unfold dismantle
  split
  · exact (System.dismantle_does m.system r').handler? fun _ => rfl
  · rfl

/-- A move changes the handlers by its registration, and only where there was none. -/
theorem handler?_step (code : κ → Invocation → Prog κ Unit) (m : Machine κ) (mv : Move κ)
    (r : ActorRef) (k : Key) :
    (m.step code mv).2.system.handler? r k =
      (m.system.handler? r k).or (firstHandler (m.registration? mv).toList r k) := by
  cases mv with
  | outside o => exact System.handler?_perform m.system.actors.size o m.system r k
  | proceed r' => exact handler?_proceed m r' r k
  | request r' name args => exact (handler?_request m r' r name args k).trans Option.or_none.symm
  | expire c | abandon c =>
    refine Eq.trans ?_ Option.or_none.symm
    exact congrArg (fun f : ActorRef → Option (Actor κ) => (f r).bind fun a => a.handler? k)
      (System.settle_actor? m.system c _)
  | elsewhere c use => exact (handler?_elsewhere m c use r k).trans Option.or_none.symm
  | spawn name => exact (m.system.handler?_spawn name r k).trans Option.or_none.symm
  | arrange clock ids started names pools => exact Option.or_none.symm
  | tend r' stirred announced notified channel stage watch =>
    refine Eq.trans ?_ Option.or_none.symm
    exact (System.Does.update m.system r' _).handler? fun _ => rfl
  | wake r' =>
    refine Eq.trans ?_ Option.or_none.symm
    exact handler?_idle m ((System.wake_does m.system r').handler? fun _ => rfl)
  | take r' =>
    refine Eq.trans ?_ Option.or_none.symm
    exact handler?_idle m ((System.takeBatch_does m.system r').handler? fun _ => rfl)
  | dispatch r' => exact (handler?_begin m r' r k).trans Option.or_none.symm
  | fire r' => exact (handler?_fire m r' r k).trans Option.or_none.symm
  | dismantle r' => exact (handler?_dismantle m r' r k).trans Option.or_none.symm

/-- Whatever the moves are, an actor that had a handler keeps it, and any other comes to have the
one that is registered first. -/
theorem handler?_play (code : κ → Invocation → Prog κ Unit) (mvs : List (Move κ)) (m : Machine κ)
    (r : ActorRef) (k : Key) :
    (play code mvs m).2.system.handler? r k =
      (m.system.handler? r k).or (firstHandler (registrations code mvs m) r k) := by
  induction mvs generalizing m with
  | nil => exact Option.or_none.symm
  | cons mv mvs ih =>
    rw [play, ih, handler?_step, Option.or_assoc, registrations, firstHandler_append]

theorem isSome_play (code : κ → Invocation → Prog κ Unit) (mvs : List (Move κ)) (m : Machine κ)
    (r : ActorRef) (hr : (m.system.actor? r).isSome) :
    ((play code mvs m).2.system.actor? r).isSome := by
  induction mvs generalizing m with
  | nil => exact hr
  | cons mv mvs ih =>
    obtain ⟨a, ha⟩ := Option.isSome_iff_exists.1 hr
    obtain ⟨y, hy, -⟩ := step_stride code m mv (seat_eq ha)
    exact ih _ (Option.isSome_iff_exists.2 ⟨_, (seat_elim hy).1⟩)

/-- Whatever event with such a request comes to its code next, the actor runs the handler for it. -/
def RunsHandler (code : κ → Invocation → Prog κ Unit) (m : Machine κ) (r : ActorRef) (name : String)
    (handler : κ) : Prop :=
  ∀ mv e q, e.request? = some q → q.name = name → m.mode r = .ready →
    (m.step code mv).2.mode r = .handling e → (m.step code mv).2.todo r = code handler (.rpc q.args)

theorem Stride.request {mv : Move κ} {r : ActorRef} {x y : Seat κ} (h : Stride code m r mv x y)
    (hready : x.mode = .ready) {e : Event κ} (he : y.mode = .handling e) {q : Request}
    (hq : e.request? = some q) {handler : κ} (hh : x.actor.handler? (.rpc q.name) = some handler) :
    y.todo = code handler (.rpc q.args) := by
  cases h with
  | begin e' rest hbatch =>
    rename_i a p
    obtain rfl : e' = e := Mode.handling.inj he
    have hfound : ({ a with batch := rest } : Actor κ).handler? (.rpc q.name) = some handler := hh
    exact congrArg (Work.prog code) (Actor.react_request hq hfound)
  | same => simp [hready] at he
  | _ => simp_all

theorem runsHandler_of_handler? {r : ActorRef} {name : String} {handler : κ}
    (hh : m.system.handler? r (.rpc name) = some handler) : m.RunsHandler code r name handler := by
  rintro mv e q hq rfl hready he
  obtain ⟨a, ha, hh⟩ := Option.bind_eq_some_iff.1 hh
  obtain ⟨y, hy, hstride⟩ := step_stride code m mv (seat_eq ha)
  obtain ⟨-, hmode, htodo⟩ := seat_elim hy
  exact htodo.trans (hstride.request hready (hmode ▸ he) hq hh)

end Machine

end ActorSystem
