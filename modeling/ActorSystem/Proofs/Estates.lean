import ActorSystem.Proofs.Accounting
import ActorSystem.Proofs.Frames
import Mathlib.Data.List.Induction
import Mathlib.Data.List.Nodup

set_option autoImplicit false

namespace ActorSystem

variable {κ : Type}

def register (cs : List Component) : Event κ → List Component
  | .post (.component .componentCreate c _ _) => if cs.any (·.id == c.id) then cs else cs ++ [c]
  | _ => cs

/-- The components that these events bring, whatever becomes of their start. -/
def registeredBy (es : List (Event κ)) : List Component := es.foldl register []

def Event.entering : Event κ → Option Agent
  | .post (.session .tcpConnected agent _ _) => agent
  | .post (.session .tcpAccepted agent _ _) => agent
  | _ => none

def Event.leaving : Event κ → Option Agent
  | .post (.session .tcpClosed agent _ _) => agent
  | _ => none

def link (agents : Table AgentId Agent) (e : Event κ) : Table AgentId Agent :=
  match e.entering, e.leaving with
  | some agent, _ => agents.insert agent.id agent
  | none, some agent => agents.erase agent.id
  | none, none => agents

/-- The agents that have come with these events, each in the place of an earlier one with its
number, and have not gone with a later one. -/
def connectedBy (es : List (Event κ)) : Table AgentId Agent := es.foldl link .empty

@[simp] theorem registeredBy_append (es : List (Event κ)) (e : Event κ) :
    registeredBy (es ++ [e]) = register (registeredBy es) e := by
  simp [registeredBy]

@[simp] theorem connectedBy_append (es : List (Event κ)) (e : Event κ) :
    connectedBy (es ++ [e]) = link (connectedBy es) e := by
  simp [connectedBy]

theorem nodup_registeredBy (es : List (Event κ)) : ((registeredBy es).map Component.id).Nodup := by
  induction es using List.reverseRecOn with
  | nil => exact List.nodup_nil
  | append_singleton es e ih =>
    rw [registeredBy_append]
    unfold register
    split
    · split
      · exact ih
      · rename_i c _ _ hnew
        have hnot : c.id ∉ (registeredBy es).map Component.id := by simpa using hnew
        simpa using ih.concat hnot
    · exact ih

theorem get?_link (agents : Table AgentId Agent) (e : Event κ) (id : AgentId) :
    (link agents e).get? id =
      if (e.entering.or e.leaving).map Agent.id = some id then e.entering else agents.get? id := by
  unfold link
  cases e.entering <;> cases e.leaving <;> simp [Table.get?_insert, Table.get?_erase]

/-- Of the agents with one number the last to come counts, unless one has gone after it. -/
theorem get?_connectedBy {es : List (Event κ)} {id : AgentId} {agent : Agent} :
    (connectedBy es).get? id = some agent ↔
      ∃ before e after, es = before ++ e :: after ∧ e.entering = some agent ∧ agent.id = id ∧
        ∀ e' ∈ after, (e'.entering.or e'.leaving).map Agent.id ≠ some id := by
  induction es using List.reverseRecOn with
  | nil => simp [connectedBy, Table.get?_empty]
  | append_singleton es e ih =>
    rw [connectedBy_append, get?_link]
    constructor
    · split
      · rename_i hid
        intro he
        rw [he] at hid
        exact ⟨es, e, [], rfl, he, by simpa using hid, by simp⟩
      · rename_i hid
        rintro hold
        obtain ⟨before, e₁, after, rfl, he, hagent, hafter⟩ := ih.1 hold
        refine ⟨before, e₁, after ++ [e], by simp, he, hagent, fun e' he' => ?_⟩
        rcases List.mem_append.1 he' with he' | he'
        · exact hafter e' he'
        · exact List.mem_singleton.1 he' ▸ hid
    · rintro ⟨before, e₁, after, hes, he, rfl, hafter⟩
      rcases List.eq_nil_or_concat after with rfl | ⟨after, e', rfl⟩
      · obtain ⟨rfl, he₁⟩ := List.append_inj' hes rfl
        obtain rfl := List.singleton_inj.1 he₁
        simp [he]
      · rw [List.concat_eq_append, ← List.cons_append, ← List.append_assoc] at hes
        obtain ⟨rfl, he'⟩ := List.append_inj' hes rfl
        obtain rfl := List.singleton_inj.1 he'
        rw [if_neg (hafter e (by simp)), ih]
        exact ⟨before, e₁, after, rfl, he, rfl, fun e' he' => hafter e' (by simp [he'])⟩

theorem nodup_connectedBy (es : List (Event κ)) : ((connectedBy es).values.map Agent.id).Nodup := by
  have hkeyed : ∀ p ∈ (connectedBy es).entries, p.2.id = p.1 := by
    induction es using List.reverseRecOn with
    | nil => simp [connectedBy, Table.empty]
    | append_singleton es e ih =>
      rw [connectedBy_append]
      unfold link
      split
      · intro p hp
        rcases Table.mem_put hp with rfl | hp
        · rfl
        · exact ih p hp
      · exact fun p hp => ih p (List.mem_filter.1 hp).1
      · exact ih
  have hkeys : (connectedBy es).values.map Agent.id = (connectedBy es).entries.map Prod.fst := by
    rw [Table.values, List.map_map]
    exact List.map_congr_left hkeyed
  rw [hkeys]
  exact (connectedBy es).nodup

structure Actor.Owns (a : Actor κ) (es : List (Event κ)) : Prop where
  components : a.components.entries = (registeredBy es).map fun c => (c.id, c)
  agents : a.agents = connectedBy es

namespace Actor.Owns

variable {a a' : Actor κ} {es : List (Event κ)}

theorem congr (h : a.Owns es) (he : a'.estate = a.estate) : a'.Owns es :=
  ⟨(congrArg (fun o : Estate κ => o.components.entries) he).trans h.components,
    (congrArg Estate.agents he).trans h.agents⟩

theorem values (h : a.Owns es) : a.components.values = registeredBy es := by
  simp [Table.values, h.components, Function.comp_def]

theorem contains (h : a.Owns es) (id : ComponentId) :
    a.components.contains id = (registeredBy es).any (·.id == id) := by
  have hlookup : ∀ cs : List Component,
      (Table.lookup (cs.map fun c => (c.id, c)) id).isSome = cs.any (·.id == id) := by
    intro cs
    induction cs with
    | nil => rfl
    | cons c cs ih => by_cases hc : c.id = id <;> simp [Table.lookup, hc, ih]
  rw [Table.contains, Table.get?, h.components, hlookup]

theorem keep (h : a.Owns es) {e : Event κ} (hr : register (registeredBy es) e = registeredBy es)
    (hl : link (connectedBy es) e = connectedBy es) (he : a'.estate = a.estate) :
    a'.Owns (es ++ [e]) := by
  obtain ⟨hcomponents, hagents⟩ := h.congr he
  exact ⟨by rw [registeredBy_append, hr, hcomponents], by rw [connectedBy_append, hl, hagents]⟩

theorem create (h : a.Owns es) (c : Component) (manager : Option κ) (e : Option ComponentError) :
    (a.onCreated c manager).actor.Owns (es ++ [.post (.component .componentCreate c manager e)]) := by
  have hcontains := h.contains c.id
  have hagents := h.agents
  unfold onCreated
  cases hc : a.components.contains c.id with
  | true =>
    rw [hc] at hcontains
    exact h.keep (by simp [register, ← hcontains]) rfl rfl
  | false =>
    have hnone : a.components.get? c.id = none := by simpa [Table.contains] using hc
    rw [hc] at hcontains
    refine ⟨?_, by rw [connectedBy_append]; exact hagents⟩
    rw [registeredBy_append, register, ← hcontains]
    simp [reaction, Table.insert_entries hnone, h.components]

theorem react (h : a.Owns es) (e : Event κ) : (a.react e).actor.Owns (es ++ [e]) := by
  have hagents := h.agents
  have hcall : ∀ (q : Request) (reply : Option CallRef),
      (a.onCall q reply).actor.estate = a.estate := by
    intro q reply
    unfold onCall
    split <;> rfl
  cases e with
  | awaitRpc q call => exact h.keep rfl rfl (hcall q (some call))
  | errand action replies => exact h.keep rfl rfl rfl
  | post p =>
    cases p with
    | rpc q => exact h.keep rfl rfl (hcall q none)
    | custom action => exact h.keep rfl rfl rfl
    | data kind agent proto payload =>
      refine h.keep rfl rfl ?_
      simp only [Actor.react, onPost, onData]
      split <;> rfl
    | component kind c manager e =>
      cases kind with
      | componentCreate => exact h.create c manager e
      | _ => exact h.keep rfl rfl rfl
    | session kind agent via extra =>
      cases agent with
      | none => cases kind <;> exact h.keep rfl rfl rfl
      | some agent =>
        cases kind with
        | tcpConnected | tcpAccepted | tcpClosed =>
          refine ⟨by rw [registeredBy_append]; exact h.components, ?_⟩
          rw [connectedBy_append]
          simp [Actor.react, onPost, onEntered, onClosed, reaction, connect, disconnect, hagents, link,
            Event.entering, Event.leaving]
        | _ => exact h.keep rfl rfl rfl

end Actor.Owns

namespace Happening

def handled? : Happening κ → Option (Event κ)
  | completed e => some e
  | panicked e _ => some e
  | _ => none

def handledIn (hs : List (Happening κ)) : List (Event κ) := hs.filterMap handled?

@[simp] theorem handledIn_append (hs hs' : List (Happening κ)) :
    handledIn (hs ++ hs') = handledIn hs ++ handledIn hs' := List.filterMap_append

@[simp] theorem handledIn_nil : handledIn ([] : List (Happening κ)) = [] := rfl

@[simp] theorem handledIn_singleton (x : Happening κ) : handledIn [x] = x.handled?.toList := by
  cases x <;> rfl

end Happening

open Happening

/-- The event that comes to its handler when the mode changes in this way. -/
def Mode.begun : Mode κ → Mode κ → List (Event κ)
  | .ready, .handling e => [e]
  | _, _ => []

@[simp] theorem Mode.begun_self (mode : Mode κ) : Mode.begun mode mode = [] := by
  cases mode <;> rfl

theorem pervades_handled (config : Config) :
    Pervades config fun (mode : Mode κ) _ hs mode' _ =>
      handledIn hs ++ mode'.hand = mode.hand ++ Mode.begun mode mode' where
  refl mode l := by simp
  trans := by
    intro mode l hs l' hs' l'' h h'
    simp only [Mode.begun_self, List.append_nil, List.append_left_eq_self] at h h' ⊢
    rw [handledIn_append, h, h', List.append_nil]
  reply mode l c vs := by simp [handled?]
  effect hf he := by cases he <;> simp [handled?]
  call e hopen := by simp [handled?]
  change hf hc := by
    cases hc with
    | fly leading leg trailing next hlegs h => cases h <;> simp [handled?]
    | _ => simp [handled?, Mode.begun]

theorem Books.Step.handled {b b' : Books κ} {forgets : Option (CallRef × CallState)}
    {h : History κ} (hs : b.Step forgets h b') (hb : b.Fit) (r : ActorRef) :
    handledIn (h.of r) ++ (b'.mode r).hand =
      (b.mode r).hand ++ Mode.begun (b.mode r) (b'.mode r) := by
  cases hl : b.ledger r with
  | some l =>
    obtain ⟨l', -, h⟩ := hs.pervaded (pervades_handled b.config) hb hl
    exact h
  | none =>
    obtain ⟨hnone, hcase⟩ := hs.absent hb hl
    have hmode : b'.mode r = .ready := hcase.elim ((hs.fit hb).absent r) And.right
    rw [hnone, hmode, hb.absent r hl]
    rfl

theorem Actor.owns_nothing {a : Actor κ} (h : a.estate = .nothing) : a.Owns [] :=
  ⟨congrArg (fun o : Estate κ => o.components.entries) h, congrArg Estate.agents h⟩

namespace System

variable {s s' : System κ} {r : ActorRef} {a a' : Actor κ}

theorem receive_actor? (h : s.actor? r = some a) (e : Event κ) :
    (s.receive r e).2.actor? = Function.update s.actor? r (some (a.react e).actor) := by
  simp only [receive, h]
  have ht := Turns.put h (a.react e).actor
  cases (a.react e).started with
  | none => cases (a.react e).unanswered with
    | none => exact ht.actor
    | some c => exact (ht.giveUp? (some c)).actor
  | some i => cases (a.react e).unanswered with
    | none => exact (ht.note _).actor
    | some c => exact ((ht.note _).giveUp? (some c)).actor

theorem dismantle_actor? (h : s.actor? r = some a) :
    (s.dismantle r).actor? = Function.update s.actor? r (some
      { a with
        phase := .closed, agents := .empty, components := .empty, managers := .empty, kept := .empty,
        purses := [], mailbox := a.mailbox.discard.2 }) := by
  rw [dismantle_eq h]
  exact vacate_actor? h

end System

namespace Machine

variable {m : Machine κ} {r : ActorRef}

/-- Whose estate an actor has after a move. -/
inductive Heir (m m' : Machine κ) (r : ActorRef) (a' : Actor κ) : Prop where
  | fresh (h : m.system.actor? r = none) (he : a'.estate = .nothing)
    (hm : Mode.begun (m.mode r) (m'.mode r) = [])
  | same {a : Actor κ} (h : m.system.actor? r = some a) (he : a'.estate = a.estate)
    (hm : Mode.begun (m.mode r) (m'.mode r) = [])
  | begun {a : Actor κ} {e : Event κ} (h : m.system.actor? r = some a) (hb : a.batch ≠ [])
    (hm : Mode.begun (m.mode r) (m'.mode r) = [e]) (ho : ∀ es, a.Owns es → a'.Owns (es ++ [e]))
  | left (hp : a'.phase = .closed) (he : a'.estate = .nothing)

def Inherits (m m' : Machine κ) : Prop :=
  ∀ r a', m'.system.actor? r = some a' → Heir m m' r a'

theorem Inherits.refl (m : Machine κ) : m.Inherits m :=
  fun _ _ ha => .same ha rfl (Mode.begun_self _)

theorem inherits_system {s : System κ} (h : System.Spares Actor.estate m.system s) :
    m.Inherits { m with system := s } := by
  intro r a' ha'
  obtain ⟨a, ha, hestate⟩ := h.some_rev ha'
  exact .same ha hestate (Mode.begun_self _)

theorem inherits_runs {s : System κ} {mode : Mode κ} (p : Prog κ Unit)
    (h : System.Spares Actor.estate m.system s) (hmode : Mode.begun (m.mode r) mode = []) :
    m.Inherits (m.runs r mode p s) := by
  intro r' a' ha'
  obtain ⟨a, ha, hestate⟩ := h.some_rev ha'
  refine .same ha hestate ?_
  by_cases hr : r' = r
  · subst hr
    simpa [runs] using hmode
  · simp [runs, Function.update_of_ne hr]

theorem begin_inherits (code : κ → Invocation → Prog κ Unit) (m : Machine κ) (r : ActorRef) :
    m.Inherits (m.begin code r) := by
  unfold begin
  split
  · rename_i a hmode ha
    split
    · exact .refl m
    · rename_i e rest hbatch
      intro r' a' ha'
      let popped : Actor κ := { a with batch := rest }
      have hput : (m.system.put r popped).actor? r = some popped := by simp [System.actor?_put ha]
      have hactors : ((m.system.put r popped).receive r e).2.actor? =
          Function.update m.system.actor? r (some (popped.react e).actor) := by
        rw [System.receive_actor? hput e, System.actor?_put ha, Function.update_idem]
      simp only [runs] at ha'
      rw [hactors] at ha'
      by_cases hr : r' = r
      · subst hr
        simp only [Function.update_self, Option.some.injEq] at ha'
        refine .begun ha (by simp [hbatch]) (by simp [runs, hmode, Mode.begun]; rfl) fun es ho => ?_
        have hown : popped.Owns es := ho.congr rfl
        exact ha' ▸ hown.react e
      · rw [Function.update_of_ne hr] at ha'
        exact .same ha' rfl (by simp [runs, Function.update_of_ne hr])
  · exact .refl m

theorem dismantle_inherits (m : Machine κ) (r : ActorRef) : m.Inherits (m.dismantle r).2 := by
  unfold dismantle
  split
  · rename_i hguard
    simp only [Bool.and_eq_true] at hguard
    obtain ⟨-, a, ha, -, -⟩ := idle_elim hguard.1.1
    intro r' a' ha'
    simp only [System.dismantle_actor? ha] at ha'
    by_cases hr : r' = r
    · subst hr
      simp only [Function.update_self, Option.some.injEq] at ha'
      subst ha'
      exact .left rfl rfl
    · rw [Function.update_of_ne hr] at ha'
      exact .same ha' rfl (Mode.begun_self _)
  · exact .refl m

theorem spawn_inherits (m : Machine κ) (name : String) :
    m.Inherits { m with system := (m.system.spawn name).2 } := by
  intro r a' ha'
  by_cases hr : r = m.system.actors.size
  · subst hr
    have hnew : Actor.new m.system.ids.fresh.1 name m.system.config = a' := by
      simpa [System.spawn, System.actor?] using ha'
    exact .fresh (by simp [System.actor?]) (hnew ▸ rfl) (Mode.begun_self _)
  · refine .same (a := a') ?_ rfl (Mode.begun_self _)
    simpa [System.spawn, System.actor?, Array.getElem?_push, hr] using ha'

theorem proceed_inherits (m : Machine κ) (r : ActorRef) : m.Inherits (m.proceed r).2 := by
  have hprocessed : System.Spares Actor.estate m.system
      ((m.system.reset r).update r fun a => { a with processed := a.processed + 1 }) :=
    (System.reset_spares m.system r).trans (.update _ r _ fun _ => rfl)
  have hfinish : System.Spares Actor.estate m.system
      (m.system.update r fun a => { a with timers := a.timers.finish }) :=
    .update m.system r _ fun _ => rfl
  have hrecover := System.recover_spares m.system r
  unfold proceed
  split
  · exact .refl m
  · rename_i o next hnot htodo
    exact inherits_runs _ (System.perform_spares r o m.system).estate (Mode.begun_self _)
  · rename_i e u hm htodo
    exact inherits_runs _ hprocessed (by simp [hm, Mode.begun])
  · rename_i e hm htodo
    exact inherits_runs _ hrecover (by simp [hm, Mode.begun])
  · rename_i u hm htodo
    exact inherits_runs _ (hfinish.trans (System.reset_spares _ r)) (by simp [hm, Mode.begun])
  · rename_i hm htodo
    exact inherits_runs _ hrecover (by simp [hm, Mode.begun])

theorem fire_inherits (code : κ → Invocation → Prog κ Unit) (m : Machine κ) (r : ActorRef) :
    m.Inherits (m.fire code r) := by
  unfold fire
  split
  · rename_i hidle
    obtain ⟨hmode, a, ha, -, -⟩ := idle_elim hidle
    rw [System.atActor_eq ha]
    have hpolled : System.Spares Actor.estate m.system
        (m.system.put r (a.expire m.system.clock.now).2) :=
      .put ha (congrArg Actor.estate (a.expire_core _) :)
    cases (a.expire m.system.clock.now).1 with
    | none => exact inherits_system hpolled
    | some e => exact inherits_runs _ hpolled (by simp [hmode, Mode.begun])
  · exact .refl m

theorem step_inherits (code : κ → Invocation → Prog κ Unit) (m : Machine κ) (mv : Move κ) :
    m.Inherits (m.step code mv).2 := by
  cases mv with
  | outside o => exact inherits_system (System.perform_spares _ o m.system).estate
  | request r name args =>
    exact inherits_system (System.request_spares m.system r name args).core.estate
  | expire c => exact inherits_system (.settle m.system c .timedOut)
  | abandon c => exact inherits_system (.settle m.system c .abandoned)
  | elsewhere c use => exact inherits_system (System.elsewhere_spares m.system c use).core.estate
  | spawn name => exact spawn_inherits m name
  | arrange clock ids started names pools =>
    exact fun _ _ ha => .same ha rfl (Mode.begun_self _)
  | tend r stirred announced notified channel stage watch =>
    exact inherits_system (.update m.system r _ fun _ => rfl)
  | wake r =>
    simp only [step]
    split
    · exact inherits_system (.update m.system r _ fun _ => rfl)
    · exact .refl m
  | take r =>
    simp only [step]
    split
    · exact inherits_system (System.takeBatch_spares m.system r)
    · exact .refl m
  | dispatch r => exact begin_inherits code m r
  | proceed r => exact proceed_inherits m r
  | fire r => exact fire_inherits code m r
  | dismantle r => exact dismantle_inherits m r

end Machine

end ActorSystem
