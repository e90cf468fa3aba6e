import ActorSystem.Proofs.Context

/-!
How components and agents live in an actor. Its maps, the components that it starts and the managers
that it calls are all told by the events that have come to its code; what this code does, and whether
it panics, has no say in it.
-/

set_option autoImplicit false

namespace ActorSystem

variable {κ : Type}

/-- The component with its manager, if the event brings one under this number. -/
def Event.creates? (id : ComponentId) : Event κ → Option (Component × Option κ)
  | .post (.component .componentCreate c manager _) => if c.id = id then some (c, manager) else none
  | _ => none

/-- What a number stands for is settled by the first event that brings a component under it. -/
def firstCreate (es : List (Event κ)) (id : ComponentId) : Option (Component × Option κ) :=
  es.findSome? (Event.creates? id)

def managerOf (es : List (Event κ)) (id : ComponentId) : Option κ :=
  (firstCreate es id).bind Prod.snd

def starting (es : List (Event κ)) : Event κ → Option Component
  | .post (.component .componentCreate c _ _) =>
    if (firstCreate es c.id).isSome then none else some c
  | _ => none

/-- What there is to tell a manager of an event, and under which number the manager came. -/
def notice (es : List (Event κ)) : Event κ → Option (ComponentId × Invocation)
  | .post (.session .tcpConnected (some agent) via _) => some (via, .linkerConnected agent)
  | .post (.session .tcpAccepted (some agent) via _) => some (via, .linkerConnected agent)
  | .post (.session .tcpClosed (some agent) via extra) =>
    some (via, .linkerClosed agent ((extra.readStr 0).toOption.map fun reason => .closed via reason))
  | .post (.session .tcpConnectFailed _ via extra) =>
    some (via, .componentFailed
      (.connectFailed via ((extra.readStr 0).toOption.getD "connect failed")))
  | .post (.component .componentError c _ e) =>
    some (c.id, .componentFailed (e.getD (.closed c.id "unspecified")))
  | e =>
    match starting es e with
    | none => none
    | some c =>
      match c.start with
      | .started => some (c.id, .componentCreated c.id)
      | .failed e => some (c.id, .componentFailed e)
      | .panicked => none

/-- The callback of an event: only the manager that came first under the number is called. -/
def callback (es : List (Event κ)) (e : Event κ) : Option (κ × Invocation) :=
  (notice es e).bind fun n => (managerOf (es ++ [e]) n.1).map fun manager => (manager, n.2)

def Event.lifecycle : Event κ → Bool
  | .post (.session ..) => true
  | .post (.component ..) => true
  | _ => false

def errand (es : List (Event κ)) (e : Event κ) : Work κ :=
  match (starting es e).map Component.start with
  | some .panicked => .crash
  | _ =>
    match callback es e with
    | some (manager, i) => .run manager i
    | none => .nothing

def Invocation.isCallback : Invocation → Bool
  | componentCreated _ => true
  | componentFailed _ => true
  | linkerConnected _ => true
  | linkerClosed .. => true
  | _ => false

def Work.callback? : Work κ → Option (κ × Invocation)
  | .run k i => if i.isCallback then some (k, i) else none
  | _ => none

theorem firstCreate_append (es : List (Event κ)) (e : Event κ) (id : ComponentId) :
    firstCreate (es ++ [e]) id = (firstCreate es id).or (e.creates? id) := by
  simp [firstCreate, List.findSome?_append]

theorem firstCreate_keep {e : Event κ} (h : ∀ id, e.creates? id = none) (es : List (Event κ)) :
    firstCreate (es ++ [e]) = firstCreate es := by
  funext id
  rw [firstCreate_append, h, Option.or_none]

theorem firstCreate_again {es : List (Event κ)} {c : Component}
    (h : (firstCreate es c.id).isSome = true) (manager : Option κ) (e : Option ComponentError) :
    firstCreate (es ++ [.post (.component .componentCreate c manager e)]) = firstCreate es := by
  obtain ⟨first, hfirst⟩ := Option.isSome_iff_exists.1 h
  funext id
  rw [firstCreate_append]
  by_cases hid : c.id = id
  · rw [← hid, hfirst, Option.some_or]
  · simp [Event.creates?, hid]

theorem firstCreate_new {es : List (Event κ)} {c : Component} (h : firstCreate es c.id = none)
    (manager : Option κ) (e : Option ComponentError) (id : ComponentId) :
    firstCreate (es ++ [.post (.component .componentCreate c manager e)]) id =
      if c.id = id then some (c, manager) else firstCreate es id := by
  rw [firstCreate_append, Event.creates?]
  split
  · rename_i hid
    rw [← hid, h, Option.none_or]
  · rw [Option.or_none]

/-- The components that come in are those that are started, one for each number. -/
theorem registeredBy_starting (es : List (Event κ)) (e : Event κ)
    (hany : ∀ id, (registeredBy es).any (·.id == id) = (firstCreate es id).isSome) :
    registeredBy (es ++ [e]) = registeredBy es ++ (starting es e).toList := by
  rw [registeredBy_append]
  unfold register
  split
  · rename_i c manager err
    have hstart : starting es (.post (.component .componentCreate c manager err)) =
        if (firstCreate es c.id).isSome then none else some c := rfl
    rw [hany, hstart]
    by_cases h : (firstCreate es c.id).isSome = true
    · rw [if_pos h, if_pos h, Option.toList_none, List.append_nil]
    · rw [if_neg h, if_neg h, Option.toList_some]
  · rename_i hnot
    have hstart : starting es e = none := by
      unfold starting
      split
      · exact absurd rfl (hnot _ _ _)
      · rfl
    rw [hstart, Option.toList_none, List.append_nil]

theorem registeredBy_any (es : List (Event κ)) (id : ComponentId) :
    (registeredBy es).any (·.id == id) = (firstCreate es id).isSome := by
  induction es using List.reverseRecOn generalizing id with
  | nil => rfl
  | append_singleton es e ih =>
    rw [registeredBy_starting es e ih, List.any_append, ih, firstCreate_append, Option.isSome_or]
    unfold starting Event.creates?
    split
    · rename_i c manager err
      by_cases hid : c.id = id
      · subst hid
        cases h : (firstCreate es c.id).isSome <;> simp
      · cases h : (firstCreate es c.id).isSome <;> simp [hid]
    · simp

structure Actor.Follows (a : Actor κ) (es : List (Event κ)) : Prop where
  owns : a.Owns es
  components : ∀ id, a.components.get? id = (firstCreate es id).map Prod.fst
  managers : ∀ id, a.managers.get? id = managerOf es id

namespace Actor.Follows

variable {a a' : Actor κ} {es : List (Event κ)}

theorem new (id : ActorId) (name : String) (config : Config) :
    (Actor.new id name config : Actor κ).Follows [] :=
  ⟨Actor.owns_nothing rfl, fun _ => rfl, fun _ => rfl⟩

theorem congr (h : a.Follows es) (he : a'.estate = a.estate) : a'.Follows es := by
  have hcomponents : a'.components = a.components := congrArg Estate.components he
  have hmanagers : a'.managers = a.managers := congrArg Estate.managers he
  exact ⟨h.owns.congr he, hcomponents ▸ h.components, hmanagers ▸ h.managers⟩

theorem contains (h : a.Follows es) (id : ComponentId) :
    a.components.contains id = (firstCreate es id).isSome := by
  rw [Table.contains, h.components, Option.isSome_map]

theorem keep (h : a.Follows es) {e : Event κ} (hsame : firstCreate (es ++ [e]) = firstCreate es)
    (hc : (a.react e).actor.components = a.components)
    (hm : (a.react e).actor.managers = a.managers) : (a.react e).actor.Follows (es ++ [e]) := by
  refine ⟨h.owns.react e, fun id => ?_, fun id => ?_⟩
  · rw [hc, h.components, hsame]
  · rw [hm, h.managers, managerOf, managerOf, hsame]

theorem create (h : a.Follows es) (c : Component) (manager : Option κ) (e : Option ComponentError) :
    (a.react (.post (.component .componentCreate c manager e))).actor.Follows
      (es ++ [.post (.component .componentCreate c manager e)]) := by
  have hcontains := h.contains c.id
  cases hc : a.components.contains c.id with
  | true =>
    rw [hc] at hcontains
    refine h.keep (firstCreate_again hcontains.symm manager e) ?_ ?_ <;>
      simp [Actor.react, onPost, onCreated, hc, ignore]
  | false =>
    rw [hc] at hcontains
    have hnone : firstCreate es c.id = none := by simpa using hcontains.symm
    refine ⟨h.owns.react _, fun id => ?_, fun id => ?_⟩
    · simp only [Actor.react, onPost, onCreated, hc, Bool.false_eq_true, if_false, reaction]
      rw [Table.get?_insert, firstCreate_new hnone, h.components, apply_ite (Option.map Prod.fst)]
      rfl
    · have hold := h.managers id
      simp only [Actor.react, onPost, onCreated, hc, Bool.false_eq_true, if_false, reaction]
      rw [managerOf, firstCreate_new hnone]
      by_cases hid : c.id = id
      · subst hid
        cases manager with
        | none => simpa [managerOf, hnone] using hold
        | some k => simp [Table.get?_insert]
      · cases manager with
        | none => simpa [hid, managerOf] using hold
        | some k => simpa [Table.get?_insert, hid, managerOf] using hold

theorem react (h : a.Follows es) (e : Event κ) : (a.react e).actor.Follows (es ++ [e]) := by
  cases e with
  | errand action replies => exact h.keep (firstCreate_keep (fun _ => rfl) es) rfl rfl
  | awaitRpc q call =>
    refine h.keep (firstCreate_keep (fun _ => rfl) es) ?_ ?_ <;>
      (simp only [Actor.react, onCall]; cases a.onRpc.get? q.name <;> rfl)
  | post p =>
    cases p with
    | rpc q =>
      refine h.keep (firstCreate_keep (fun _ => rfl) es) ?_ ?_ <;>
        (simp only [Actor.react, onPost, onCall]; cases a.onRpc.get? q.name <;> rfl)
    | custom action => exact h.keep (firstCreate_keep (fun _ => rfl) es) rfl rfl
    | data kind agent proto payload =>
      refine h.keep (firstCreate_keep (fun _ => rfl) es) ?_ ?_ <;>
        (simp only [Actor.react, onPost, onData]; cases a.onMessage.get? proto <;> rfl)
    | session kind agent via extra =>
      cases kind <;> cases agent <;> exact h.keep (firstCreate_keep (fun _ => rfl) es) rfl rfl
    | component kind c manager e =>
      cases kind with
      | componentCreate => exact h.create c manager e
      | _ => exact h.keep (firstCreate_keep (fun _ => rfl) es) rfl rfl

theorem started (h : a.Follows es) (e : Event κ) : (a.react e).started = starting es e := by
  cases e with
  | errand action replies => rfl
  | awaitRpc q call =>
    simp only [Actor.react, onCall]
    cases a.onRpc.get? q.name <;> rfl
  | post p =>
    cases p with
    | rpc q =>
      simp only [Actor.react, onPost, onCall]
      cases a.onRpc.get? q.name <;> rfl
    | custom action => rfl
    | data kind agent proto payload =>
      simp only [Actor.react, onPost, onData]
      cases a.onMessage.get? proto <;> rfl
    | session kind agent via extra => cases kind <;> cases agent <;> rfl
    | component kind c manager e =>
      cases kind with
      | componentCreate =>
        simp only [Actor.react, onPost, onCreated, starting, ← h.contains]
        cases a.components.contains c.id <;> rfl
      | _ => rfl

theorem managed (h : a.Follows es) {e : Event κ} (hcreates : ∀ id, e.creates? id = none)
    (hstart : starting es e = none) {id : ComponentId} {i : Invocation}
    (hnotice : notice es e = some (id, i)) : a.managed id i = errand es e := by
  simp only [Actor.managed, errand, hstart, callback, hnotice, h.managers, managerOf,
    firstCreate_keep hcreates]
  simp only [Option.map_none, Option.bind_some]
  cases (firstCreate es id).bind Prod.snd <;> rfl

theorem work_create (h : a.Follows es) (c : Component) (manager : Option κ)
    (e : Option ComponentError) :
    (a.react (.post (.component .componentCreate c manager e))).work =
      errand es (.post (.component .componentCreate c manager e)) := by
  have hcontains := h.contains c.id
  simp only [Actor.react, onPost, onCreated]
  cases hc : a.components.contains c.id with
  | true =>
    rw [hc] at hcontains
    have hstart : starting es (.post (.component .componentCreate c manager e)) = none := by
      simp [starting, ← hcontains]
    simp [errand, callback, notice, hstart, ignore]
  | false =>
    rw [hc] at hcontains
    have hnone : firstCreate es c.id = none := by simpa using hcontains.symm
    have hstart : starting es (.post (.component .componentCreate c manager e)) = some c := by
      simp [starting, ← hcontains]
    have hmanager : managerOf (es ++ [.post (.component .componentCreate c manager e)]) c.id =
        manager := by
      simp [managerOf, firstCreate_new hnone]
    simp only [errand, callback, notice, hstart, reaction, Option.map_some]
    cases hr : c.start <;> cases manager <;> simp [hmanager]

theorem work (h : a.Follows es) {e : Event κ} (he : e.lifecycle = true) :
    (a.react e).work = errand es e := by
  cases e with
  | awaitRpc q call | errand action replies => cases he
  | post p =>
    cases p with
    | rpc | custom | data => cases he
    | session kind agent via extra =>
      cases kind with
      | tcpConnectFailed => exact h.managed (fun _ => rfl) rfl rfl
      | tcpConnected | tcpAccepted | tcpClosed =>
        cases agent with
        | none => rfl
        | some agent => exact h.managed (fun _ => rfl) rfl rfl
      | _ => rfl
    | component kind c manager e =>
      cases kind with
      | componentCreate => exact h.work_create c manager e
      | componentError => exact h.managed (fun _ => rfl) rfl rfl
      | _ => rfl

end Actor.Follows

theorem notice_of_starting {es : List (Event κ)} {e : Event κ} {c : Component}
    (h : starting es e = some c) (hpanic : c.start = .panicked) : notice es e = none := by
  have hcreate : ∃ manager err, e = .post (.component .componentCreate c manager err) := by
    unfold starting at h
    split at h
    · rename_i c' manager err
      split at h
      · cases h
      · exact ⟨manager, err, by rw [Option.some.inj h]⟩
    · cases h
  obtain ⟨manager, err, rfl⟩ := hcreate
  simp [notice, h, hpanic]

theorem notice_isCallback {es : List (Event κ)} {e : Event κ} {n : ComponentId × Invocation}
    (h : notice es e = some n) : n.2.isCallback = true := by
  unfold notice at h
  split at h
  all_goals try (obtain rfl := Option.some.inj h; rfl)
  split at h
  · cases h
  · split at h
    · obtain rfl := Option.some.inj h
      rfl
    · obtain rfl := Option.some.inj h
      rfl
    · cases h

theorem errand_callback (es : List (Event κ)) (e : Event κ) :
    (errand es e).callback? = callback es e := by
  unfold errand
  split
  · rename_i hpanic
    obtain ⟨c, hstart, hpanic⟩ := Option.map_eq_some_iff.1 hpanic
    simp [Work.callback?, callback, notice_of_starting hstart hpanic]
  · split
    · rename_i manager i hcallback
      obtain ⟨n, hn, hmap⟩ := Option.bind_eq_some_iff.1 hcallback
      obtain ⟨k, -, hk⟩ := Option.map_eq_some_iff.1 hmap
      obtain ⟨rfl, rfl⟩ := Prod.mk.inj hk
      simp [Work.callback?, notice_isCallback hn, hcallback]
    · rename_i hcallback
      exact hcallback.symm

theorem Actor.Follows.callback {a : Actor κ} {es : List (Event κ)} (h : a.Follows es)
    (e : Event κ) : (a.react e).work.callback? = ActorSystem.callback es e := by
  cases hl : e.lifecycle with
  | true => rw [h.work hl, errand_callback]
  | false =>
    have hnone : ActorSystem.callback es e = none := by
      cases e with
      | awaitRpc q call | errand action replies => rfl
      | post p =>
        cases p with
        | session | component => cases hl
        | _ => rfl
    rw [hnone]
    cases e with
    | errand action replies => rfl
    | awaitRpc q call =>
      simp only [Actor.react, Actor.onCall]
      cases a.onRpc.get? q.name <;> rfl
    | post p =>
      cases p with
      | session | component => cases hl
      | custom action => rfl
      | rpc q =>
        simp only [Actor.react, Actor.onPost, Actor.onCall]
        cases a.onRpc.get? q.name <;> rfl
      | data kind agent proto payload =>
        simp only [Actor.react, Actor.onPost, Actor.onData]
        cases a.onMessage.get? proto <;> rfl

def Entry.isStart : Entry → Bool
  | .componentStarted .. => true
  | _ => false

def Component.startEntry (c : Component) : Entry := .componentStarted c.id c.label

namespace System

variable {s s' : System κ} {r : ActorRef}

def starts (s : System κ) : List Entry := s.journal.toList.filter Entry.isStart

@[simp] theorem starts_put (s : System κ) (r : ActorRef) (a : Actor κ) :
    (s.put r a).starts = s.starts := rfl

@[simp] theorem starts_update (s : System κ) (r : ActorRef) (f : Actor κ → Actor κ) :
    (s.update r f).starts = s.starts := rfl

@[simp] theorem starts_atActor {α : Type} (s : System κ) (r : ActorRef) (absent : α)
    (f : Actor κ → α × Actor κ) : (s.atActor r absent f).2.starts = s.starts := by
  unfold atActor
  split <;> rfl

@[simp] theorem starts_settle (s : System κ) (c : CallRef) (state : CallState) :
    (s.settle c state).2.starts = s.starts := by
  unfold settle
  split <;> rfl

@[simp] theorem starts_giveUp (s : System κ) (c : CallRef) : (s.giveUp c).starts = s.starts :=
  starts_settle s c .dropped

@[simp] theorem starts_giveUpAll (s : System κ) (cs : List CallRef) :
    (s.giveUpAll cs).starts = s.starts := by
  induction cs generalizing s with
  | nil => rfl
  | cons c cs ih => exact (ih (s.giveUp c)).trans (starts_giveUp s c)

theorem starts_note (s : System κ) (e : Entry) :
    (s.note e).starts = s.starts ++ if e.isStart then [e] else [] := by
  cases he : e.isStart <;> simp [starts, note, he]

@[simp] theorem starts_takeReply (s : System κ) (r : ActorRef) :
    (s.takeReply r).2.starts = s.starts := starts_atActor s r none _

@[simp] theorem starts_takeKept (s : System κ) (r : ActorRef) (slot : String) :
    (s.takeKept r slot).2.starts = s.starts := starts_atActor s r none _

@[simp] theorem starts_dropKept (s : System κ) (r : ActorRef) (slot : String) :
    (s.dropKept r slot).2.starts = s.starts := by
  have htake := starts_takeKept s r slot
  unfold dropKept
  generalize s.takeKept r slot = p at htake ⊢
  obtain ⟨_ | c, s₁⟩ := p
  · exact htake
  · exact (starts_giveUp s₁ c).trans htake

@[simp] theorem starts_discard (s : System κ) (r : ActorRef) : (s.discard r).starts = s.starts := by
  unfold discard
  split <;> simp

@[simp] theorem starts_reset (s : System κ) (r : ActorRef) : (s.reset r).starts = s.starts :=
  (starts_giveUpAll _ _).trans
    (starts_atActor s r [] fun a => (a.dispatch.replies, { a with dispatch := .idle }))

@[simp] theorem starts_takeHeld (s : System κ) (r : ActorRef) (slot : String) :
    (s.takeHeld r slot).2.starts = s.starts := starts_atActor s r none _

@[simp] theorem starts_dropHeld (s : System κ) (r : ActorRef) (slot : String) :
    (s.dropHeld r slot).2.starts = s.starts := by
  have htake := starts_takeHeld s r slot
  unfold dropHeld
  generalize s.takeHeld r slot = p at htake ⊢
  obtain ⟨_ | c, s₁⟩ := p
  · exact htake
  · exact (starts_giveUp s₁ c).trans htake

@[simp] theorem starts_enqueue (s : System κ) (r : ActorRef) (e : Event κ) :
    (s.enqueue r e).starts = s.starts := by
  unfold enqueue recheck
  split <;> simp

@[simp] theorem starts_push (s : System κ) (r : ActorRef) (e : Event κ) :
    (s.push r e).starts = s.starts := by
  unfold push
  split <;> simp

@[simp] theorem starts_close (s : System κ) (r : ActorRef) : (s.close r).starts = s.starts := by
  have hclaim : (s.claim r).2.starts = s.starts := starts_atActor s r false _
  unfold close signal markClosed
  dsimp only
  split <;> simp [hclaim]

theorem starts_perform (self : ActorRef) (o : Op κ) (s : System κ) :
    (perform self o s).2.starts = s.starts := by
  cases o with
  | report what finding =>
    simp [perform, starts_note, Entry.isStart]
  | answer vs =>
    have htake := starts_takeReply s self
    simp only [perform, answerCurrent]
    generalize s.takeReply self = p at htake ⊢
    obtain ⟨_ | c, s₁⟩ := p
    · exact htake
    · exact (starts_settle s₁ c _).trans htake
  | keepReply slot =>
    have htake := starts_takeReply s self
    simp only [perform, keepReply]
    generalize s.takeReply self = p at htake ⊢
    obtain ⟨_ | c, s₁⟩ := p
    · exact htake
    · simpa using htake
  | answerKept slot vs =>
    have htake := starts_takeKept s self slot
    simp only [perform, answerKept]
    generalize s.takeKept self slot = p at htake ⊢
    obtain ⟨_ | c, s₁⟩ := p
    · exact htake
    · exact (starts_settle s₁ c _).trans htake
  | unshelve slot =>
    have htake := starts_takeKept s self slot
    simp only [perform, unshelve]
    generalize s.takeKept self slot = p at htake ⊢
    obtain ⟨_ | c, s₁⟩ := p
    · exact htake
    · simpa using htake
  | shelve slot =>
    have htake := starts_takeHeld s self slot
    simp only [perform, shelve]
    generalize s.takeHeld self slot = p at htake ⊢
    obtain ⟨_ | c, s₁⟩ := p
    · exact htake
    · simpa using htake
  | release slot =>
    have htake := starts_takeHeld s self slot
    simp only [perform, release]
    generalize s.takeHeld self slot = p at htake ⊢
    obtain ⟨_ | c, s₁⟩ := p <;> exact htake
  | dropKept slot => exact starts_dropKept s self slot
  | close target => exact starts_close s target
  | post target p => exact starts_push s target _
  | call target name args => exact starts_push s target _
  | execute target action owned =>
    have htake : (s.takeOwned self owned).2.starts = s.starts := by rw [takeOwned, starts_atActor]
    exact (starts_push _ target _).trans htake
  | cancelTimer id =>
    exact (starts_giveUpAll _ _).trans (starts_atActor s self (false, []) fun a => a.cancel id)
  | erase | setTimer | registerMessage | registerRpc | start => exact starts_atActor s _ _ _
  | _ => rfl

theorem starts_elsewhere (s : System κ) (c : CallRef) (use : Fate κ) :
    (s.elsewhere c use).2.starts = s.starts := by
  unfold elsewhere
  split
  · rfl
  · cases use with
    | answer vs => exact starts_settle _ c _
    | drop => exact starts_giveUp _ c
    | pass slot target action => exact starts_push _ target _

theorem starts_recover (s : System κ) (r : ActorRef) : (s.recover r).starts = s.starts := by
  unfold recover
  extract_lets s₁ s₂ s₃
  have h₂ : s₂.starts = s.starts := starts_reset s₁ r
  have h₃ : s₃.starts = s₂.starts := by
    simp only [s₃]
    split
    · unfold dropBatch
      rw [starts_giveUpAll, starts_atActor]
    · rfl
  exact (starts_update s₃ r _).trans (h₃.trans h₂)

theorem starts_dismantle (s : System κ) (r : ActorRef) : (s.dismantle r).starts = s.starts := by
  have hnotes : ∀ {α : Type} (entry : α → Entry) (xs : List α) (s : System κ),
      (∀ x, (entry x).isStart = false) →
      (xs.foldl (fun s x => s.note (entry x)) s).starts = s.starts := by
    intro α entry xs s hentry
    induction xs generalizing s with
    | nil => rfl
    | cons x xs ih =>
      rw [List.foldl_cons, ih, starts_note, hentry]
      simp
  have howned : (s.closeOwned r).starts = s.starts := by
    unfold closeOwned
    split
    · rfl
    · dsimp only
      rw [starts_put, hnotes _ _ _ fun _ => rfl, hnotes _ _ _ fun _ => rfl]
  have hleave : ∀ s : System κ, (s.leave r).starts = s.starts := fun s => by
    simp only [leave, starts_giveUpAll, starts_atActor]
  rw [dismantle, hleave, starts_discard, markClosed, starts_update, howned]

theorem starts_request (s : System κ) (r : ActorRef) (name : String) (args : Args) :
    (s.request r name args).2.starts = s.starts := by
  unfold request
  split
  · rfl
  · split
    · rfl
    · exact starts_enqueue _ r _

theorem starts_receive {a : Actor κ} (h : s.actor? r = some a) (e : Event κ) :
    (s.receive r e).2.starts =
      s.starts ++ ((a.react e).started.map Component.startEntry).toList := by
  simp only [receive, h]
  cases (a.react e).started with
  | none => cases (a.react e).unanswered <;> simp
  | some c =>
    cases (a.react e).unanswered <;>
      simp [starts_note, Entry.isStart, Component.startEntry]

end System

namespace Machine

variable {code : κ → Invocation → Prog κ Unit} {m : Machine κ} {mv : Move κ} {r : ActorRef}
  {x y : Seat κ}

theorem begin_ready (code : κ → Invocation → Prog κ Unit) {a : Actor κ} {e : Event κ}
    {rest : List (Event κ)} (hready : m.mode r = .ready) (ha : m.system.actor? r = some a)
    (hbatch : a.batch = e :: rest) :
    (m.begin code r).mode r = .handling e ∧
      (m.begin code r).todo r = ({ a with batch := rest }.react e).work.prog code ∧
      (m.begin code r).system.starts = m.system.starts ++
        (({ a with batch := rest }.react e).started.map Component.startEntry).toList := by
  have hput : (m.system.put r { a with batch := rest }).actor? r = some { a with batch := rest } := by
    rw [System.actor?_put ha, Function.update_self]
  have hwork : ((m.system.put r { a with batch := rest }).receive r e).1 =
      ({ a with batch := rest }.react e).work := by
    simp only [System.receive, hput]
  simp only [begin, hready, ha, hbatch, runs, Function.update_self]
  exact ⟨trivial, by rw [hwork], by rw [System.starts_receive hput, System.starts_put]⟩

theorem begin_idle (h : ∀ a e rest, m.mode r = .ready → m.system.actor? r = some a →
    a.batch ≠ e :: rest) : m.begin code r = m := by
  unfold begin
  split
  · rename_i a hready ha
    cases hbatch : a.batch with
    | nil => rfl
    | cons e rest => exact absurd hbatch (h a e rest hready ha)
  · rfl

theorem starts_step (code : κ → Invocation → Prog κ Unit) (m : Machine κ) (mv : Move κ)
    (hmv : ∀ r, mv ≠ .dispatch r) : (m.step code mv).2.system.starts = m.system.starts := by
  cases mv with
  | dispatch r => exact absurd rfl (hmv r)
  | outside o => exact System.starts_perform _ o m.system
  | request r name args => exact System.starts_request m.system r name args
  | expire c => exact System.starts_settle m.system c _
  | abandon c => exact System.starts_settle m.system c _
  | elsewhere c use => exact System.starts_elsewhere m.system c use
  | spawn | arrange | tend => rfl
  | wake r =>
    simp only [step]
    split <;> rfl
  | take r =>
    simp only [step]
    split
    · exact System.starts_atActor m.system r 0 _
    · rfl
  | proceed r =>
    simp only [step, proceed]
    split
    · rfl
    · exact System.starts_perform r _ m.system
    · exact System.starts_reset m.system r
    · exact System.starts_recover m.system r
    · exact System.starts_reset _ r
    · exact System.starts_recover m.system r
  | fire r =>
    simp only [step, fire]
    split
    · rename_i hidle
      obtain ⟨-, a, ha, -, -⟩ := idle_elim hidle
      rw [System.atActor_eq ha, a.expire_fst]
      cases (a.timers.poll m.system.clock.now).1 <;> rfl
    · rfl
  | dismantle r =>
    simp only [step, dismantle]
    split
    · exact System.starts_dismantle m.system r
    · rfl

end Machine

def Seat.Follows (es : List (Event κ)) (x : Seat κ) : Prop :=
  x.actor.phase ≠ .closed → x.actor.Follows es

theorem Actor.open_of_batch {config : Config} {mode : Mode κ} {a : Actor κ} {e : Event κ}
    {rest : List (Event κ)} (hf : a.ledger.Fit config mode) (hbatch : a.batch = e :: rest) :
    a.phase ≠ .closed := by
  intro hclosed
  have hnil := (hf.closed (by simp [Actor.ledger, hclosed])).2.1
  simp [Actor.ledger, hbatch] at hnil

theorem Actor.open_of_busy {config : Config} {mode : Mode κ} {a : Actor κ}
    (hf : a.ledger.Fit config mode) (hbusy : mode ≠ .ready) : a.phase ≠ .closed :=
  fun hclosed => hbusy (hf.closed (by simp [Actor.ledger, hclosed])).1

theorem Op.Outcome.closed {o : Op κ} {a a' : Actor κ} (h : o.Outcome a a')
    (hclosed : a.phase = .closed) : a'.phase = .closed := by
  cases h with
  | cancel => rfl
  | _ => exact hclosed

namespace Machine

variable {code : κ → Invocation → Prog κ Unit} {m : Machine κ} {mv : Move κ} {r : ActorRef}
  {x y : Seat κ}

theorem Stride.follows {config : Config} {es : List (Event κ)} (h : Stride code m r mv x y)
    (hf : x.actor.ledger.Fit config x.mode) (hx : x.Follows es) :
    y.Follows (es ++ Mode.begun x.mode y.mode) := by
  by_cases hmv : mv = .dispatch r
  · subst hmv
    cases h with
    | same => simpa using hx
    | told self o ho hmv => exact absurd rfl hmv
    | handed action replies hopen hmv => exact absurd rfl hmv
    | begin e rest hbatch =>
      rename_i a p
      have hpopped : ({ a with batch := rest } : Actor κ).Follows es :=
        (hx (Actor.open_of_batch hf hbatch)).congr rfl
      exact fun _ => hpopped.react e
  · rw [h.begun (.inl hmv), List.append_nil]
    cases h with
    | same => exact hx
    | told self o ho hmv =>
      have ho := m.effect_outcome self o
      exact fun hphase =>
        (hx fun hclosed => hphase ((ho _).closed hclosed)).congr (ho _).estate.1
    | perform o next hmode ho =>
      exact fun _ => (hx (Actor.open_of_busy hf hmode)).congr (m.effect_outcome r o _).estate.1
    | recover hmode =>
      exact fun _ => (hx (Actor.open_of_busy hf hmode)).congr (Act.recover_lasts _ _).2.2.1
    | wake halive => exact fun _ => (hx (by simp_all [Actor.alive])).congr rfl
    | begin => exact absurd rfl hmv
    | dismantle => exact fun hphase => absurd rfl hphase
    | poll halive hbatch hnone =>
      simp only [Act.poll, Act.write, Actor.expire_none hnone]
      exact fun hphase => (hx hphase).congr rfl
    | fire t halive hbatch ht =>
      simp only [Act.poll, Act.write, Actor.expire_some ht]
      exact fun hphase => (hx hphase).congr rfl
    | _ => exact fun hphase => (hx hphase).congr rfl

def startsBy (code : κ → Invocation → Prog κ Unit) (r : ActorRef) :
    List (Move κ) → Machine κ → List Entry
  | [], _ => []
  | mv :: mvs, m =>
    (if mv.maker = some r then (m.step code mv).2.system.starts.drop m.system.starts.length
      else []) ++
      startsBy code r mvs (m.step code mv).2

theorem started_step {h : History κ} (hs : Seats Seat.Follows h m) (mv : Move κ)
    (r : ActorRef) :
    (registeredBy ((m.step code mv).2.met (h ++ (m.step code mv).1) r)).map Component.startEntry =
      (registeredBy (m.met h r)).map Component.startEntry ++
        (if mv.maker = some r then (m.step code mv).2.system.starts.drop m.system.starts.length
          else []) := by
  rw [met_step code mv hs.fit]
  by_cases hmv : mv = .dispatch r
  · subst hmv
    by_cases hready : ∃ a e rest, m.mode r = .ready ∧ m.system.actor? r = some a ∧
        a.batch = e :: rest
    · obtain ⟨a, e, rest, hready, ha, hbatch⟩ := hready
      obtain ⟨hmode, -, hstarts⟩ := begin_ready code hready ha hbatch
      have hphase := Actor.open_of_batch (hs.fit.ledger r _ (System.ledger_intro ha)) hbatch
      have hfollows : ({ a with batch := rest } : Actor κ).Follows (m.met h r) :=
        (hs.seat r _ (seat_eq ha) hphase).congr rfl
      rw [hfollows.started] at hstarts
      simp only [step, hmode, hready, Mode.begun, hstarts, Move.maker, if_true, List.drop_left]
      rw [registeredBy_starting _ _ (registeredBy_any _), List.map_append]
      cases starting (m.met h r) e <;> rfl
    · have hidle : m.begin code r = m := begin_idle fun a e rest hr ha hb =>
        hready ⟨a, e, rest, hr, ha, hb⟩
      simp [step, hidle]
  · have hbegun : Mode.begun (m.mode r) ((m.step code mv).2.mode r) = [] := by
      cases hseat : m.seat r with
      | none =>
        rw [step_unseated code mv hs.fit hseat, ready_of_unseated hs.fit hseat]
        rfl
      | some x =>
        obtain ⟨y, hy, hstride⟩ := step_stride code m mv hseat
        rw [(seat_elim hseat).2.1, (seat_elim hy).2.1]
        exact hstride.begun (.inl hmv)
    rw [hbegun, List.append_nil]
    split
    · rename_i hmaker
      rw [starts_step code m mv ?_, List.drop_length, List.append_nil]
      rintro r' rfl
      exact hmv (congrArg _ (Option.some.inj hmaker))
    · rw [List.append_nil]

/-- Every component is started by the first event that brings one under its number. -/
theorem started_play (code : κ → Invocation → Prog κ Unit) (mvs : List (Move κ)) {h : History κ}
    (hs : Seats Seat.Follows h m) (r : ActorRef) :
    (registeredBy ((play code mvs m).2.met (h ++ (play code mvs m).1) r)).map Component.startEntry =
      (registeredBy (m.met h r)).map Component.startEntry ++ startsBy code r mvs m := by
  induction mvs generalizing m h with
  | nil => simp [play, startsBy]
  | cons mv mvs ih =>
    have hone : Seats Seat.Follows (h ++ (m.step code mv).1) (m.step code mv).2 :=
      hs.step (fun _ _ _ _ => .new _ _ _) (fun _ _ _ _ hf hstride => hstride.follows hf) mv
    have hrest := ih hone
    rw [started_step hs mv r, List.append_assoc] at hrest
    simpa [play, startsBy] using hrest

/-- What an actor owns, what it has started, and what its managers are told, is a matter of the
events that have come to its code. -/
structure Determined (code : κ → Invocation → Prog κ Unit) (h : History κ) (m : Machine κ)
    (started : ActorRef → List Entry) : Prop where
  agents : ∀ r a, m.system.actor? r = some a → a.phase ≠ .closed →
    a.agents = connectedBy (m.met h r)
  /-- An agent stays until another comes with its number, or one with that number goes. -/
  latest : ∀ r a id agent, m.system.actor? r = some a → a.phase ≠ .closed →
    (a.agents.get? id = some agent ↔
      ∃ before e after, m.met h r = before ++ e :: after ∧ e.entering = some agent ∧ agent.id = id ∧
        ∀ e' ∈ after, (e'.entering.or e'.leaving).map Agent.id ≠ some id)
  components : ∀ r a id, m.system.actor? r = some a → a.phase ≠ .closed →
    a.components.get? id = (firstCreate (m.met h r) id).map Prod.fst
  managers : ∀ r a id, m.system.actor? r = some a → a.phase ≠ .closed →
    a.managers.get? id = managerOf (m.met h r) id
  callback : ∀ mv r a e, m.system.actor? r = some a → m.mode r = .ready →
    (m.step code mv).2.mode r = .handling e →
    ∃ rest, a.batch = e :: rest ∧
      let w := ({ a with batch := rest }.react e).work
      (m.step code mv).2.todo r = w.prog code ∧ w.callback? = callback (m.met h r) e ∧
      (e.lifecycle = true → w = errand (m.met h r) e)
  entered : ∀ r a kind agent via extra, m.system.actor? r = some a →
    m.mode r = .handling (.post (.session kind (some agent) via extra)) →
    kind = .tcpConnected ∨ kind = .tcpAccepted → a.agents.get? agent.id = some agent
  left : ∀ r a agent via extra, m.system.actor? r = some a →
    m.mode r = .handling (.post (.session .tcpClosed (some agent) via extra)) →
    a.agents.get? agent.id = none
  starts : ∀ r, started r = (registeredBy (m.met h r)).map Component.startEntry
  once : ∀ r, ((registeredBy (m.met h r)).map Component.id).Nodup
  quiet : ∀ mv : Move κ, mv.maker = none →
    (m.step code mv).2.system.starts = m.system.starts
  runs : m.CoversRuns code

theorem Stride.errand {es : List (Event κ)} {config : Config} (h : Stride code m r mv x y)
    (hf : x.actor.ledger.Fit config x.mode) (hx : x.Follows es) (hready : x.mode = .ready)
    {e : Event κ} (he : y.mode = .handling e) :
    ∃ rest, x.actor.batch = e :: rest ∧
      let w := ({ x.actor with batch := rest }.react e).work
      y.todo = w.prog code ∧ w.callback? = ActorSystem.callback es e ∧
      (e.lifecycle = true → w = ActorSystem.errand es e) := by
  cases h with
  | begin e' rest hbatch =>
    rename_i a p
    obtain rfl : e' = e := Mode.handling.inj he
    have hpopped : ({ a with batch := rest } : Actor κ).Follows es :=
      (hx (Actor.open_of_batch hf hbatch)).congr rfl
    exact ⟨rest, hbatch, rfl, hpopped.callback e', hpopped.work⟩
  | same => simp [hready] at he
  | _ => simp_all

/-- Whatever events have come and whatever code has done, the agents of an actor that runs are those
that have come and not gone, its components and managers are those that came first under their
numbers, each of these components was started once, as it came, and managers are told of each event
what there is to tell, once and nothing else. -/
theorem lifecycle_determined (code : κ → Invocation → Prog κ Unit) (config : Config) (clock : Clock)
    (mvs : List (Move κ)) :
    Determined code (play code mvs (resting (.new config clock))).1
      (play code mvs (resting (.new config clock))).2
      (fun r => startsBy code r mvs (resting (.new config clock))) := by
  have hstart : Seats Seat.Follows [] (resting (.new config clock) : Machine κ) := .start config clock
  have hplay := hstart.play code (fun _ _ _ _ => .new _ _ _)
    (fun _ _ _ _ _ _ hf hstride => hstride.follows hf) mvs rfl
  have hstarted := fun r => started_play code mvs hstart r
  generalize hrun : play code mvs (resting (.new config clock)) = run at hplay hstarted ⊢
  obtain ⟨h, m⟩ := run
  rw [List.nil_append] at hplay
  have hfollows : ∀ r a, m.system.actor? r = some a → a.phase ≠ .closed → a.Follows (m.met h r) :=
    fun r a ha => hplay.seat r _ (seat_eq ha)
  have hbusy : ∀ r a e, m.system.actor? r = some a → m.mode r = .handling e →
      a.agents = connectedBy (Happening.handledIn (h.of r) ++ [e]) := by
    intro r a e ha hmode
    have hopen := Actor.open_of_busy (hplay.fit.ledger r _ (System.ledger_intro ha))
      (show m.mode r ≠ .ready by simp [hmode])
    have hagents := (hfollows r a ha hopen).owns.agents
    rwa [met, hmode] at hagents
  refine ⟨?_, ?_, ?_, ?_, ?_, ?_, ?_, fun r => ?_, fun r => nodup_registeredBy _, ?_, m.coversRuns code⟩
  · exact fun r a ha hopen => (hfollows r a ha hopen).owns.agents
  · intro r a id agent ha hopen
    rw [(hfollows r a ha hopen).owns.agents]
    exact get?_connectedBy
  · exact fun r a id ha hopen => (hfollows r a ha hopen).components id
  · exact fun r a id ha hopen => (hfollows r a ha hopen).managers id
  · intro mv r a e ha hready he
    have hseat := seat_eq ha
    obtain ⟨y, hy, hstride⟩ := step_stride code m mv hseat
    obtain ⟨-, hmode, htodo⟩ := seat_elim hy
    obtain ⟨rest, hbatch, hw, hcallback, herrand⟩ := hstride.errand (seat_fit hplay.fit hseat)
      (hplay.seat r _ hseat) hready (hmode ▸ he)
    exact ⟨rest, hbatch, htodo.trans hw, hcallback, herrand⟩
  · rintro r a kind agent via extra ha hmode (rfl | rfl) <;>
      simp [hbusy r a _ ha hmode, get?_link, Event.entering]
  · intro r a agent via extra ha hmode
    simp [hbusy r a _ ha hmode, get?_link, Event.entering, Event.leaving]
  · have hr := hstarted r
    rw [List.nil_append] at hr
    exact hr.symm
  · exact fun mv hmv => starts_step code m mv fun r hr => by simp [hr, Move.maker] at hmv

end Machine

end ActorSystem
