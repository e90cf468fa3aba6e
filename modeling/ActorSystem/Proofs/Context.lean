import ActorSystem.Proofs.Loops
import ActorSystem.Proofs.Strides

/-!
What running code finds said about its dispatch. It is told by the event alone and by the components
of the actor: whatever the dispatches before it were, how they ended and whether they used their
replies, nothing of them is left.
-/

set_option autoImplicit false

namespace ActorSystem

variable {κ : Type}

/-- What an event has to say to its code, in an actor with these components. -/
def Event.context (components : Table ComponentId Component) : Event κ → Dispatch
  | .awaitRpc q call => { Dispatch.idle with senderActor := q.sender, reply := some call }
  | .post (.rpc q) => { Dispatch.idle with senderActor := q.sender }
  | .post (.data _ agent _ _) => { Dispatch.idle with sender := agent }
  | .post (.session .tcpConnected agent via _) =>
    { Dispatch.idle with sender := agent, component := components.get? via }
  | .post (.session .tcpAccepted agent via _) =>
    { Dispatch.idle with sender := agent, component := components.get? via }
  | .post (.session .tcpClosed agent via extra) =>
    { Dispatch.idle with
      sender := agent, component := components.get? via,
      attachment := if extra.isEmpty then none else some (.list extra.values) }
  | .post (.session .tcpConnectFailed _ via extra) =>
    { Dispatch.idle with
      component := components.get? via,
      attachment := if extra.isEmpty then none else some (.list extra.values) }
  | .post (.component _ c _ _) => { Dispatch.idle with component := some c }
  | .post (.session ..) => .idle
  | .post (.custom _) => .idle
  | .errand _ replies => { Dispatch.idle with hand := replies }

/-- As far as the context is still there: the reply may have been taken, and of the replies that
are to be sent later some may have come and some may have gone. -/
def Dispatch.Rests (full d : Dispatch) : Prop :=
  (d.reply = full.reply ∨ d.reply = none) ∧ d = { full with reply := d.reply, hand := d.hand }

namespace Dispatch.Rests

variable {full d d' : Dispatch}

theorem refl (d : Dispatch) : d.Rests d := ⟨.inl rfl, rfl⟩

theorem trans (h : full.Rests d) (h' : d.Rests d') : full.Rests d' := by
  obtain ⟨hreply, hd⟩ := h
  obtain ⟨hreply', hd'⟩ := h'
  refine ⟨?_, ?_⟩
  · rcases hreply' with heq | hnone
    · rwa [heq]
    · exact .inr hnone
  · rw [hd', hd]

theorem idle (h : Dispatch.idle.Rests d) : d = { Dispatch.idle with hand := d.hand } := by
  obtain ⟨hreply, hd⟩ := h
  have hnone : d.reply = none := hreply.elim id id
  rw [hnone] at hd
  exact hd

theorem of_idle (hand : Replies) : Dispatch.idle.Rests { Dispatch.idle with hand } :=
  ⟨.inl rfl, rfl⟩

end Dispatch.Rests

namespace Actor

variable {a : Actor κ}

theorem onCall_context (hidle : a.dispatch = .idle) (q : Request) (reply : Option CallRef)
    (hwork : (a.onCall q reply).work ≠ .nothing) :
    (a.onCall q reply).actor.dispatch = { Dispatch.idle with senderActor := q.sender, reply } := by
  unfold onCall at hwork ⊢
  cases hh : a.onRpc.get? q.name with
  | none => simp [hh, ignore] at hwork
  | some h => simp [reaction, hidle]

/-- With nothing left from before, code is told what its event has to say, and no more. -/
theorem react_context (hidle : a.dispatch = .idle) (e : Event κ)
    (hwork : (a.react e).work ≠ .nothing) :
    (a.react e).actor.dispatch = e.context a.components := by
  cases e with
  | awaitRpc q call => exact onCall_context hidle q (some call) hwork
  | errand action replies => simp [react, reaction, hidle, Event.context]
  | post p =>
    cases p with
    | rpc q => exact onCall_context hidle q none hwork
    | custom action => exact hidle
    | data kind agent proto payload =>
      simp only [react, onPost, onData] at hwork ⊢
      cases hh : a.onMessage.get? proto with
      | none => simp [hh, ignore] at hwork
      | some h => simp [reaction, hidle, Event.context]
    | session kind agent via extra =>
      cases kind with
      | tcpConnectFailed =>
        simp [react, onPost, onConnectFailed, reaction, hidle, Event.context, attachment]
      | tcpConnected | tcpAccepted | tcpClosed =>
        cases agent with
        | none => simp [react, onPost, onEntered, onClosed, ignore] at hwork
        | some agent =>
          simp [react, onPost, onEntered, onClosed, connect, disconnect, reaction, hidle,
            Event.context, attachment]
      | _ => simp [react, onPost, ignore] at hwork
    | component kind c manager e =>
      cases kind with
      | componentError => simp [react, onPost, onFailed, reaction, hidle, Event.context]
      | componentCreate =>
        simp only [react, onPost, onCreated] at hwork ⊢
        cases hc : a.components.contains c.id with
        | true => simp [hc, ignore] at hwork
        | false => simp [reaction, hidle, Event.context]
      | _ => simp [react, onPost, ignore] at hwork

/-- An event that looks a component up does not change the components. -/
theorem react_context_components (a : Actor κ) (e : Event κ) :
    e.context (a.react e).actor.components = e.context a.components := by
  cases e with
  | awaitRpc q call | errand action replies => rfl
  | post p =>
    cases p with
    | session kind agent via extra => cases kind <;> cases agent <;> rfl
    | _ => rfl

end Actor

theorem Op.Outcome.estate {o : Op κ} {a a' : Actor κ} (h : o.Outcome a a') :
    a'.estate = a.estate ∧ a.dispatch.Rests a'.dispatch := by
  cases h with
  | own store timers purses kept hand reply ho hreply => exact ⟨rfl, hreply, rfl⟩
  | enlist hand e ho hopen => exact ⟨rfl, .inl rfl, rfl⟩
  | _ => exact ⟨rfl, .refl _⟩

/-- What comes from another actor leaves store and dispatch alone, and the timers once there are
any. -/
theorem Op.Outcome.apart {o : Op κ} {a a' : Actor κ} (h : o.Outcome a a') (ho : o.inward = false) :
    a'.store = a.store ∧ a'.dispatch = a.dispatch ∧ (a.dormant = false → a'.timers = a.timers) := by
  cases h with
  | own store timers purses kept hand reply hself hreply => simp [hself] at ho
  | enlist hand e hself hopen => simp [hself] at ho
  | start timers hdormant => exact ⟨rfl, rfl, fun hnot => by simp [hnot] at hdormant⟩
  | _ => exact ⟨rfl, rfl, fun _ => rfl⟩

theorem Act.recover_lasts (policy : RestartPolicy) (a : Actor κ) :
    (recover policy a).1.dispatch = .idle ∧ (recover policy a).1.store = a.store ∧
      (recover policy a).1.estate = a.estate ∧ (recover policy a).1.timers = a.timers.finish := by
  cases policy <;> exact ⟨rfl, rfl, rfl, rfl⟩

def Seat.Clear (x : Seat κ) : Prop :=
  match x.mode with
  | .handling e =>
    x.todo = .pure () ∨ (e.context x.actor.components).Rests x.actor.dispatch
  | .firing => Dispatch.idle.Rests x.actor.dispatch
  | .ready => x.actor.dispatch = .idle

namespace Machine

variable {code : κ → Invocation → Prog κ Unit} {m : Machine κ} {mv : Move κ} {r : ActorRef}
  {x y : Seat κ}

theorem clear_op {a a' : Actor κ} {mode : Mode κ} {p q : Prog κ Unit}
    (hx : Seat.Clear ⟨a, mode, p⟩) (hp : p = .pure () → q = .pure ())
    (hestate : a'.estate = a.estate) (hd : a.dispatch.Rests a'.dispatch)
    (hidle : mode = .ready → a'.dispatch = a.dispatch) : Seat.Clear ⟨a', mode, q⟩ := by
  have hcomponents : a'.components = a.components := congrArg Estate.components hestate
  cases mode with
  | handling e =>
    rcases hx with hdone | hrests
    · exact .inl (hp hdone)
    · exact .inr (hcomponents ▸ hrests.trans hd)
  | firing => exact Dispatch.Rests.trans hx hd
  | ready => exact (hidle rfl).trans hx

theorem Stride.clear (h : Stride code m r mv x y) (hx : x.Clear) : y.Clear := by
  cases h with
  | same => exact hx
  | told self o ho hmv =>
    obtain ⟨hestate, hd⟩ := (m.effect_outcome self o _).estate
    exact clear_op hx id hestate hd fun _ => ((m.effect_outcome self o _).apart ho).2.1
  | asked | tended | handed => exact clear_op hx id rfl (.refl _) fun _ => rfl
  | perform o next hmode ho =>
    obtain ⟨hestate, hd⟩ := (m.effect_outcome r o _).estate
    exact clear_op hx nofun hestate hd fun hready => absurd hready hmode
  | send o next hmode ho => exact clear_op hx nofun rfl (.refl _) fun _ => rfl
  | entrust target action owned next hmode =>
    exact clear_op hx nofun rfl ⟨.inl rfl, rfl⟩ fun hready => absurd hready hmode
  | wake | take | dismantle => exact hx
  | poll halive hbatch hnone =>
    rename_i a p
    have hidle : a.dispatch = .idle := hx
    simp only [Seat.Clear, Act.poll, Act.write, Actor.expire_none hnone]
    exact hidle
  | fire t halive hbatch ht =>
    rename_i a p
    have hidle : a.dispatch = .idle := hx
    simp only [Seat.Clear, Act.poll, Act.write, Actor.expire_some ht, hidle]
    exact .of_idle _
  | complete | fired => rfl
  | recover hmode => exact (Act.recover_lasts _ _).1
  | begin e rest hbatch =>
    rename_i a p
    by_cases hwork : ({ a with batch := rest }.react e).work = .nothing
    · exact .inl (by rw [hwork]; rfl)
    · have hidle : ({ a with batch := rest } : Actor κ).dispatch = .idle := hx
      refine .inr ?_
      rw [Actor.react_context_components, Actor.react_context hidle e hwork]
      exact .refl _

/-- What a move leaves of what lasts: only code, the timers that come up and the end of the actor
change anything. -/
structure Lasts (code : κ → Invocation → Prog κ Unit) (m : Machine κ) (mv : Move κ) (r : ActorRef)
    (a a' : Actor κ) : Prop where
  store : mv ≠ .proceed r → a'.store = a.store
  timers : mv ≠ .proceed r → mv ≠ .fire r → a'.timers = a.timers
  estate : mv ≠ .dispatch r → mv ≠ .dismantle r → a'.estate = a.estate
  ended : m.mode r ≠ .ready → (m.step code mv).2.mode r = .ready →
    a'.store = a.store ∧ (a'.timers = a.timers ∨ a'.timers = a.timers.finish)

theorem Stride.lasts (h : Stride code m r mv x y) (hdormant : x.actor.dormant = false)
    (hx : x.mode = m.mode r) (hy : y.mode = (m.step code mv).2.mode r) :
    Lasts code m mv r x.actor y.actor := by
  have hstay : x.mode = y.mode → m.mode r ≠ .ready → (m.step code mv).2.mode r = .ready → False :=
    fun hsame hbusy hready => hbusy (hx ▸ hsame ▸ hy ▸ hready)
  cases h with
  | same => exact ⟨fun _ => rfl, fun _ _ => rfl, fun _ _ => rfl, fun _ _ => ⟨rfl, .inl rfl⟩⟩
  | told self o ho hmv =>
    obtain ⟨hestate, -⟩ := (m.effect_outcome self o _).estate
    obtain ⟨hstore, -, htimers⟩ := (m.effect_outcome self o _).apart ho
    exact ⟨fun _ => hstore, fun _ _ => htimers hdormant, fun _ _ => hestate,
      fun _ _ => ⟨hstore, .inl (htimers hdormant)⟩⟩
  | asked | tended | handed | wake | take =>
    exact ⟨fun _ => rfl, fun _ _ => rfl, fun _ _ => rfl, fun _ _ => ⟨rfl, .inl rfl⟩⟩
  | begin e rest hbatch =>
    rename_i a p
    have hstore := Actor.react_store { a with batch := rest } e
    have htimers := Actor.react_timers { a with batch := rest } e
    exact ⟨fun _ => hstore, fun _ _ => htimers, fun hne => absurd rfl hne,
      fun hbusy _ => absurd hx.symm hbusy⟩
  | perform o next hmode ho =>
    exact ⟨fun hne => absurd rfl hne, fun hne => absurd rfl hne,
      fun _ _ => (m.effect_outcome r o _).estate.1, fun hbusy hready => (hstay rfl hbusy hready).elim⟩
  | send | entrust | complete =>
    exact ⟨fun _ => rfl, fun _ _ => rfl, fun _ _ => rfl, fun _ _ => ⟨rfl, .inl rfl⟩⟩
  | fired =>
    exact ⟨fun _ => rfl, fun hne => absurd rfl hne, fun _ _ => rfl, fun _ _ => ⟨rfl, .inr rfl⟩⟩
  | recover hmode =>
    rename_i a mode
    obtain ⟨-, hstore, hestate, htimers⟩ := Act.recover_lasts m.system.config.restartPolicy a
    exact ⟨fun _ => hstore, fun hne => absurd rfl hne, fun _ _ => hestate,
      fun _ _ => ⟨hstore, .inr htimers⟩⟩
  | poll halive hbatch hnone =>
    simp only [Act.poll, Act.write, Actor.expire_none hnone]
    exact ⟨fun _ => rfl, fun _ hne => absurd rfl hne, fun _ _ => rfl,
      fun hbusy _ => absurd hx.symm hbusy⟩
  | fire t halive hbatch ht =>
    simp only [Act.poll, Act.write, Actor.expire_some ht]
    exact ⟨fun _ => rfl, fun _ hne => absurd rfl hne, fun _ _ => rfl,
      fun hbusy _ => absurd hx.symm hbusy⟩
  | dismantle =>
    exact ⟨fun _ => rfl, fun _ _ => rfl, fun _ hne => absurd rfl hne,
      fun hbusy _ => absurd hx.symm hbusy⟩

/-- Code is told what its own event or timer has to say, and nothing of what was before. -/
structure Contextual (code : κ → Invocation → Prog κ Unit) (m : Machine κ) : Prop where
  between : ∀ r a, m.system.actor? r = some a → m.mode r = .ready → a.dispatch = .idle
  /-- An event is taken up: if there is code for it, this finds the context of the event. -/
  entry : ∀ mv r a e, m.system.actor? r = some a → m.mode r = .ready →
    (m.step code mv).2.mode r = .handling e →
    ∃ rest a', a.batch = e :: rest ∧ (m.step code mv).2.system.actor? r = some a' ∧
      let w := ({ a with batch := rest }.react e).work
      (m.step code mv).2.todo r = w.prog code ∧
      (w = .nothing ∨ a'.dispatch = e.context a.components)
  handling : ∀ r a e, m.system.actor? r = some a → m.mode r = .handling e → m.todo r ≠ .pure () →
    (e.context a.components).Rests a.dispatch
  /-- Code that is run for a timer is told nothing, and has what its timer has kept for it. -/
  fired : ∀ mv r a, m.system.actor? r = some a → m.mode r = .ready →
    (m.step code mv).2.mode r = .firing →
    ∃ t a', (a.timers.poll m.system.clock.now).1 = some t ∧
      (m.step code mv).2.system.actor? r = some a' ∧
      (m.step code mv).2.todo r = code t.payload.callback (.timer t.payload.args) ∧
      a'.dispatch = { Dispatch.idle with hand := a.purse t.id }
  firing : ∀ r a, m.system.actor? r = some a → m.mode r = .firing →
    a.dispatch = { Dispatch.idle with hand := a.dispatch.hand }
  lasts : ∀ mv r a, m.system.actor? r = some a → a.dormant = false →
    ∃ a', (m.step code mv).2.system.actor? r = some a' ∧ m.Lasts code mv r a a'
  runs : m.CoversRuns code

theorem Stride.entry (h : Stride code m r mv x y) (hx : x.Clear) (hready : x.mode = .ready)
    {e : Event κ} (he : y.mode = .handling e) :
    ∃ rest, x.actor.batch = e :: rest ∧
      let w := ({ x.actor with batch := rest }.react e).work
      y.todo = w.prog code ∧ (w = .nothing ∨ y.actor.dispatch = e.context x.actor.components) := by
  cases h with
  | begin e' rest hbatch =>
    rename_i a p
    obtain rfl : e' = e := Mode.handling.inj he
    refine ⟨rest, hbatch, rfl, or_iff_not_imp_left.2 fun hwork => ?_⟩
    have hidle : ({ a with batch := rest } : Actor κ).dispatch = .idle := hx
    exact Actor.react_context hidle e' hwork
  | same => simp [hready] at he
  | _ => simp_all

theorem Stride.callback (h : Stride code m r mv x y) (hx : x.Clear) (hready : x.mode = .ready)
    (hfiring : y.mode = .firing) :
    ∃ t, (x.actor.timers.poll m.system.clock.now).1 = some t ∧
      y.todo = code t.payload.callback (.timer t.payload.args) ∧
      y.actor.dispatch = { Dispatch.idle with hand := x.actor.purse t.id } := by
  cases h with
  | fire t halive hbatch ht =>
    rename_i a p
    have hidle : a.dispatch = .idle := hx
    refine ⟨t, ht, rfl, ?_⟩
    simp only [Act.poll, Act.write, Actor.expire_some ht, hidle]
  | same => simp [hready] at hfiring
  | _ => simp_all

/-- Whatever events and timers have come, whatever code has done to them, and however it ended: what
code is told of its dispatch is a matter of the event and of the components alone. -/
theorem dispatch_contextual (code : κ → Invocation → Prog κ Unit) (config : Config) (clock : Clock)
    (mvs : List (Move κ)) :
    Contextual code (play code mvs (resting (.new config clock))).2 := by
  have hstart : Seats (fun _ x => x.Clear) [] (resting (.new config clock) : Machine κ) :=
    .start config clock
  have hclear := hstart.play code (fun _ _ _ => rfl) (fun _ _ _ _ _ _ _ h hx => h.clear hx) mvs rfl
  generalize play code mvs (resting (.new config clock)) = run at hclear
  obtain ⟨h, m⟩ := run
  have hseat : ∀ {r a}, m.system.actor? r = some a → Seat.Clear ⟨a, m.mode r, m.todo r⟩ :=
    fun ha => hclear.seat _ _ (seat_eq ha)
  refine ⟨?_, ?_, ?_, ?_, ?_, ?_, m.coversRuns code⟩
  · intro r a ha hready
    have hx := hseat ha
    rw [hready] at hx
    exact hx
  · intro mv r a e ha hready he
    obtain ⟨y, hy, hstride⟩ := step_stride code m mv (seat_eq ha)
    obtain ⟨ha', hmode, htodo⟩ := seat_elim hy
    obtain ⟨rest, hbatch, hw, hcontext⟩ := hstride.entry (hseat ha) hready (hmode ▸ he)
    exact ⟨rest, y.actor, hbatch, ha', htodo.trans hw, hcontext⟩
  · intro r a e ha hmode hbusy
    have hx := hseat ha
    rw [hmode] at hx
    exact hx.resolve_left hbusy
  · intro mv r a ha hready hfiring
    obtain ⟨y, hy, hstride⟩ := step_stride code m mv (seat_eq ha)
    obtain ⟨ha', hmode, htodo⟩ := seat_elim hy
    obtain ⟨t, ht, hcode, hdispatch⟩ := hstride.callback (hseat ha) hready (hmode ▸ hfiring)
    exact ⟨t, y.actor, ht, ha', htodo.trans hcode, hdispatch⟩
  · intro r a ha hmode
    have hx := hseat ha
    rw [hmode] at hx
    exact Dispatch.Rests.idle hx
  · intro mv r a ha hdormant
    obtain ⟨y, hy, hstride⟩ := step_stride code m mv (seat_eq ha)
    obtain ⟨ha', hmode, -⟩ := seat_elim hy
    exact ⟨y.actor, ha', hstride.lasts hdormant rfl hmode.symm⟩

end Machine

end ActorSystem
