import ActorSystem.Proofs.Flights
import ActorSystem.Proofs.Outcomes

/-!
Where the reply of every call is, and what its caller gets.
-/

set_option autoImplicit false

namespace ActorSystem

inductive Spot where
  | mailbox
  | batch
  /-- With a thread that is about to put it into the mailbox or to throw it away. -/
  | way
  deriving DecidableEq

inductive Place where
  | event (spot : Spot)
  | dispatch
  | parcel (spot : Spot) (slot : String)
  | hand (slot : String)
  | kept (slot : String)
  | timer (id : Timer.TimerId) (slot : String)
  | abroad
  deriving DecidableEq

def Place.isDeferred : Place → Bool
  | event _ | dispatch => false
  | _ => true

section

variable {κ : Type}

def Event.replies (spot : Spot) (e : Event κ) : List (Place × CallRef) :=
  e.call?.toList.map (fun c => (.event spot, c)) ++
    e.parcel.entries.map fun x => (.parcel spot x.1, x.2)

def Leg.replies : Leg κ → List (Place × CallRef)
  | put e => e.replies .way
  | uncount _ es | shed _ es => es.flatMap (Event.replies .way)
  | _ => []

def Actor.replies (a : Actor κ) (legs : List (Leg κ)) : List (Place × CallRef) :=
  a.mailbox.toList.flatMap (Event.replies .mailbox) ++ a.batch.flatMap (Event.replies .batch) ++
    a.dispatch.reply.toList.map (fun c => (.dispatch, c)) ++
    a.dispatch.hand.entries.map (fun x => (.hand x.1, x.2)) ++
    a.kept.entries.map (fun x => (.kept x.1, x.2)) ++
    (a.purses.flatMap fun p => p.2.entries.map fun x => (.timer p.1 x.1, x.2)) ++
    legs.flatMap Leg.replies

/-- Every reply that is still somewhere, with the actor that has it, or that let go of it. -/
def System.replies (s : System κ) (legs : ActorRef → List (Leg κ)) :
    List (ActorRef × Place × CallRef) :=
  s.abroad.map (fun x => (x.1, .abroad, x.2)) ++
    s.refs.flatMap fun r => (s.ask r [] fun a => a.replies (legs r)).map fun x => (r, x)

def Traffic.replies (t : Traffic κ) : List (ActorRef × Place × CallRef) := t.system.replies t.legs

def Traffic.boarding (t : Traffic κ) : List CallRef :=
  t.system.refs.flatMap fun r => (t.legs r).flatMap Leg.boarding

end

section

variable {κ : Type} {s : System κ} {legs : ActorRef → List (Leg κ)} {t : Traffic κ} {r : ActorRef}
  {a : Actor κ} {p : Place} {c : CallRef}

theorem Event.map_snd_replies (spot : Spot) (e : Event κ) :
    (e.replies spot).map Prod.snd = e.calls := by
  simp [replies, e.calls_eq, Table.values, Function.comp_def]

theorem map_snd_replies (spot : Spot) (es : List (Event κ)) :
    (es.flatMap (Event.replies spot)).map Prod.snd = callsOf es := by
  simp [callsOf, List.map_flatMap, Event.map_snd_replies]

theorem Leg.map_snd_replies (leg : Leg κ) : leg.replies.map Prod.snd = leg.calls := by
  cases leg with
  | put e => exact e.map_snd_replies .way
  | uncount own es | shed own es => exact ActorSystem.map_snd_replies .way es
  | _ => rfl

theorem Actor.map_snd_replies (a : Actor κ) (legs : List (Leg κ)) :
    (a.replies legs).map Prod.snd = (a.ledgerWith legs).senders := by
  have hpurses : (a.purses.flatMap fun p => p.2.entries.map fun x => (Place.timer p.1 x.1, x.2)).map
      Prod.snd = pursesOf a.purses := by
    simp [pursesOf, List.map_flatMap, Table.values, Function.comp_def]
  have hlegs : (legs.flatMap Leg.replies).map Prod.snd = legs.flatMap Leg.calls := by
    simp [List.map_flatMap, Leg.map_snd_replies]
  simp only [replies, List.map_append, ActorSystem.map_snd_replies, hpurses, hlegs, Ledger.senders,
    Ledger.stored, ledgerWith]
  simp [Table.values, Function.comp_def]

theorem System.mem_replies :
    (r, p, c) ∈ s.replies legs ↔ (r, c) ∈ s.abroad ∧ p = .abroad ∨
      ∃ a, s.actor? r = some a ∧ (p, c) ∈ a.replies (legs r) := by
  simp only [replies, List.mem_append, List.mem_map, List.mem_flatMap, refs, List.mem_range,
    Prod.mk.injEq]
  constructor
  · rintro (⟨⟨r', c'⟩, hx, rfl, rfl, rfl⟩ | ⟨r', hr', x, hx, rfl, rfl⟩)
    · exact .inl ⟨hx, rfl⟩
    · cases ha : s.actor? r' with
      | none => simp [ask_absent ha] at hx
      | some a => exact .inr ⟨a, rfl, by rwa [ask_eq ha] at hx⟩
  · rintro (⟨hx, rfl⟩ | ⟨a, ha, hx⟩)
    · exact .inl ⟨(r, c), hx, rfl, rfl, rfl⟩
    · exact .inr ⟨r, lt_of_actor? ha, (p, c), by rwa [ask_eq ha], rfl, rfl⟩

theorem System.map_replies (s : System κ) (mode : ActorRef → Mode κ) (legs : ActorRef → List (Leg κ)) :
    ((s.replies legs).map fun x => x.2.2) = (s.books mode legs).replies := by
  unfold replies Books.replies Books.gather
  rw [List.map_append, List.map_flatMap]
  congr 1
  · simp [books, Function.comp_def]
  · refine List.flatMap_congr fun r _ => ?_
    cases ha : s.actor? r with
    | none => simp [ask_absent ha, books, ha]
    | some a => simp [ask_eq ha, books, ha, ← a.map_snd_replies]

theorem Traffic.mem_books : c ∈ t.books.replies ↔ ∃ r p, (r, p, c) ∈ t.replies := by
  rw [books_eq, ← t.system.map_replies t.machine.mode t.legs]
  simp [replies]

theorem Traffic.boarding_eq (hs : t.Seated) : t.books.boarding = t.boarding := by
  unfold boarding Books.boarding Books.gather
  refine List.flatMap_congr fun r _ => ?_
  cases ha : t.system.actor? r with
  | none => simp [books_eq, System.books, ha, hs r ha]
  | some a => simp [books_eq, System.books, ha, Ledger.boarding]

theorem Event.mem_replies {spot : Spot} {e : Event κ} :
    (p, c) ∈ e.replies spot ↔
      p = .event spot ∧ e.call? = some c ∨ ∃ slot, p = .parcel spot slot ∧ (slot, c) ∈ e.parcel.entries := by
  simp only [replies, List.mem_append, List.mem_map, Option.mem_toList, Prod.mk.injEq, Prod.exists]
  constructor
  · rintro (⟨c', hc', rfl, rfl⟩ | ⟨slot, c', hx, rfl, rfl⟩)
    · exact .inl ⟨rfl, hc'⟩
    · exact .inr ⟨slot, rfl, hx⟩
  · rintro (⟨rfl, hc⟩ | ⟨slot, rfl, hx⟩)
    · exact .inl ⟨c, hc, rfl, rfl⟩
    · exact .inr ⟨slot, c, hx, rfl, rfl⟩

theorem Leg.mem_replies {leg : Leg κ} (h : (p, c) ∈ leg.replies) :
    p = .event .way ∨ ∃ slot, p = .parcel .way slot := by
  have hevent : ∀ e : Event κ, (p, c) ∈ e.replies .way → p = .event .way ∨ ∃ slot, p = .parcel .way slot := by
    intro e he
    exact (Event.mem_replies.1 he).imp And.left fun ⟨slot, hp, _⟩ => ⟨slot, hp⟩
  cases leg with
  | put e => exact hevent e h
  | uncount own es | shed own es =>
    obtain ⟨e, -, he⟩ := List.mem_flatMap.1 h
    exact hevent e he
  | _ => cases h

theorem Actor.mem_replies {legs : List (Leg κ)} :
    (p, c) ∈ a.replies legs ↔
      (∃ e ∈ a.mailbox.toList, (p, c) ∈ e.replies .mailbox) ∨
        (∃ e ∈ a.batch, (p, c) ∈ e.replies .batch) ∨ p = .dispatch ∧ a.dispatch.reply = some c ∨
          (∃ slot, p = .hand slot ∧ (slot, c) ∈ a.dispatch.hand.entries) ∨
            (∃ slot, p = .kept slot ∧ (slot, c) ∈ a.kept.entries) ∨
              (∃ id purse slot, p = .timer id slot ∧ (id, purse) ∈ a.purses ∧
                (slot, c) ∈ purse.entries) ∨
                ∃ leg ∈ legs, (p, c) ∈ leg.replies := by
  have hdispatch : (p, c) ∈ a.dispatch.reply.toList.map (fun c => (Place.dispatch, c)) ↔
      p = .dispatch ∧ a.dispatch.reply = some c := by
    cases a.dispatch.reply <;> simp [eq_comm]
  have htable : ∀ (place : String → Place) (rs : Replies),
      (p, c) ∈ rs.entries.map (fun x => (place x.1, x.2)) ↔
        ∃ slot, p = place slot ∧ (slot, c) ∈ rs.entries := by
    intro place rs
    simp only [List.mem_map, Prod.mk.injEq, Prod.exists]
    constructor
    · rintro ⟨slot, c', hx, rfl, rfl⟩
      exact ⟨slot, rfl, hx⟩
    · rintro ⟨slot, rfl, hx⟩
      exact ⟨slot, c, hx, rfl, rfl⟩
  have hpurses : (p, c) ∈ (a.purses.flatMap fun x => x.2.entries.map fun y => (Place.timer x.1 y.1, y.2)) ↔
      ∃ id purse slot, p = .timer id slot ∧ (id, purse) ∈ a.purses ∧ (slot, c) ∈ purse.entries := by
    simp only [List.mem_flatMap, Prod.exists]
    constructor
    · rintro ⟨id, purse, hpurse, hx⟩
      obtain ⟨slot, hp, hx⟩ := (htable (.timer id) purse).1 hx
      exact ⟨id, purse, slot, hp, hpurse, hx⟩
    · rintro ⟨id, purse, slot, hp, hpurse, hx⟩
      exact ⟨id, purse, hpurse, (htable (.timer id) purse).2 ⟨slot, hp, hx⟩⟩
  simp only [replies, List.mem_append, List.mem_flatMap, hdispatch, htable .hand, htable .kept,
    hpurses, or_assoc]

theorem Leg.notMem_replies {leg : Leg κ} (hevent : p ≠ .event .way)
    (hparcel : ∀ slot, p ≠ .parcel .way slot) : (p, c) ∉ leg.replies := fun h =>
  (mem_replies h).elim hevent fun ⟨slot, hp⟩ => hparcel slot hp

theorem System.mem_replies_abroad : (r, .abroad, c) ∈ s.replies legs ↔ (r, c) ∈ s.abroad := by
  simp [mem_replies, Actor.mem_replies, Event.mem_replies, Leg.notMem_replies]

end

section

variable {κ : Type}

inductive Traffic.Verdict (mv : Move κ) (h : History κ) (t : Traffic κ) (c : CallRef) : Prop where
  | waits (result : t.system.isWaiting c = true)
  | answered (r : ActorRef) (vs : List Value) (used : (r, .replied c vs) ∈ h)
      (result : t.system.result? c = some (.ok vs))
  | dropped (rpc : String) (gone : ∀ r p, (r, p, c) ∉ t.replies)
      (unused : ∀ r vs, (r, .replied c vs) ∉ h)
      (result : t.system.result? c = some (.error (.rpcDropped rpc)))
  | timedOut (rpc : String) (expired : mv = .whole (.expire c))
      (result : t.system.result? c = some (.error (.rpcTimeout rpc)))
  | abandoned (gone : mv = .whole (.abandon c)) (result : t.system.isWaiting c = false)

/-- Where the replies are, and what has been made of those that are gone. -/
structure Traffic.RepliesPlaced (h : History κ) (t : Traffic κ) : Prop where
  numbered : (h.called ++ t.boarding).Perm (List.range t.system.calls.size)
  once : (t.replies.map fun x => x.2.2).Nodup
  present : ∀ r p c, (r, p, c) ∈ t.replies → (∀ r' vs, (r', .replied c vs) ∉ h) ∧
    ∃ call, t.system.calls[c]? = some call ∧ call.state.isServed = false
  /-- A reply goes from one actor to another only after it has been taken out of its dispatch. -/
  home : ∀ r p c, p = .event .mailbox ∨ p = .event .batch ∨ p = .dispatch → (r, p, c) ∈ t.replies →
    ∃ q, (r, .accepted (.awaitRpc q c)) ∈ h
  waiting : ∀ c, t.system.isWaiting c = true → ∃ r p, (r, p, c) ∈ t.replies
  dispatch : ∀ r c, (r, .dispatch, c) ∈ t.replies →
    ∃ e, t.machine.mode r = .handling e ∧ e.call? = some c
  closed : ∀ r a, t.system.actor? r = some a → a.phase = .closed → t.legs r = [] →
    ∀ p c, (r, p, c) ∈ t.replies → p = .abroad
  finished : ∀ c, (∀ r spot, (r, .event spot, c) ∉ t.replies) →
    (∀ r e, t.machine.mode r = .handling e → e.call? ≠ some c) →
    t.system.isWaiting c = false ∨ ∃ r p, p.isDeferred = true ∧ (r, p, c) ∈ t.replies
  used : (h.sent.map Prod.fst).Nodup
  answered : ∀ c vs, t.system.result? c = some (.ok vs) → ∃ r, (r, .replied c vs) ∈ h
  dropped : ∀ c rpc, t.system.result? c = some (.error (.rpcDropped rpc)) →
    ∀ r vs, (r, .replied c vs) ∉ h

structure Traffic.RepliesMoved (code : κ → Invocation → Prog κ Unit) (t : Traffic κ) : Prop where
  verdict : ∀ mv c, t.system.isWaiting c = true →
    Verdict mv (t.step code mv).1 (t.step code mv).2 c
  deadline : ∀ c, t.system.isWaiting c = true →
    ∃ rpc, (t.step code (.whole (.expire c))).2.system.result? c = some (.error (.rpcTimeout rpc))
  settled : ∀ mv c, c < t.system.calls.size → t.system.isWaiting c = false →
    (t.step code mv).2.system.isWaiting c = false ∧
      (t.step code mv).2.system.result? c = t.system.result? c
  /-- A reply that has left the dispatch of its call does not come back to it. -/
  spent : ∀ mv r a a', t.system.actor? r = some a → (t.step code mv).2.system.actor? r = some a' →
    t.machine.mode r ≠ .ready → a.dispatch.reply = none → a'.dispatch.reply = none
  opened : ∀ r name args, t.system.accepts r = true →
    (t.step code (.request r name args)).2.system.isWaiting t.system.calls.size = true ∧
      (r, .event .way, t.system.calls.size) ∈ (t.step code (.request r name args)).2.replies

/-- What the operations that answer a call tell, and what a request does. -/
structure System.AnswersCalls (s : System κ) : Prop where
  done : ∀ r a vs, s.actor? r = some a →
    match a.dispatch.reply with
    | none => perform r (.answer vs) s = (false, s)
    | some c =>
      (perform r (.answer vs) s).1 = s.isWaiting c ∧
        (perform r (.answer vs) s).2.actor? r = some { a with dispatch.reply := none } ∧
        (s.isWaiting c = true → (perform r (.answer vs) s).2.result? c = some (.ok vs))
  kept : ∀ r a slot vs, s.actor? r = some a →
    match a.kept.get? slot with
    | none => perform r (.answerKept slot vs) s = (none, s)
    | some c =>
      (perform r (.answerKept slot vs) s).1 = some (s.isWaiting c) ∧
        (perform r (.answerKept slot vs) s).2.actor? r = some { a with kept := a.kept.erase slot } ∧
        (s.isWaiting c = true → (perform r (.answerKept slot vs) s).2.result? c = some (.ok vs))
  abroad : ∀ c vs,
    match s.abroad.find? fun x => x.2 == c with
    | none => s.elsewhere c (.answer vs) = ([], s)
    | some x =>
      (s.elsewhere c (.answer vs)).1 = [(x.1, .replied c vs)] ∧
        (s.elsewhere c (.answer vs)).2.abroad = s.abroad.erase x ∧
        (s.isWaiting c = true → (s.elsewhere c (.answer vs)).2.result? c = some (.ok vs))
  accepted : ∀ legs r name args, s.accepts r = true →
    (s.request r name args).1.toOption = some s.calls.size ∧
      (s.request r name args).2.isWaiting s.calls.size = true ∧
      (r, .event .mailbox, s.calls.size) ∈ (s.request r name args).2.replies legs
  refused : ∀ r name args, s.accepts r = false →
    (s.request r name args).1.toOption = none ∧ (s.request r name args).2 = s

structure Traffic.RepliesAccounted (code : κ → Invocation → Prog κ Unit) (h : History κ)
    (t : Traffic κ) : Prop where
  placed : t.RepliesPlaced h
  moved : t.RepliesMoved code
  answers : t.system.AnswersCalls
  runs : t.machine.CoversRuns code

variable {t : Traffic κ} {s : System κ} {h : History κ} {r : ActorRef} {a : Actor κ} {c : CallRef}

theorem System.elsewhere_answer_none (vs : List Value) (hx : (s.abroad.find? fun x => x.2 == c) = none) :
    s.elsewhere c (.answer vs) = ([], s) := by
  simp [elsewhere, hx]

theorem System.elsewhere_answer_some {x : ActorRef × CallRef} (vs : List Value)
    (hx : (s.abroad.find? fun x => x.2 == c) = some x) :
    (s.elsewhere c (.answer vs)).1 = [(x.1, .replied c vs)] ∧
      (s.elsewhere c (.answer vs)).2.abroad = s.abroad.erase x ∧
      (s.isWaiting c = true → (s.elsewhere c (.answer vs)).2.result? c = some (.ok vs)) := by
  rw [elsewhere, hx]
  refine ⟨rfl, ?_, fun hw => ?_⟩
  · exact congrArg System.abroad (settle_eq _ c (.answered vs))
  · exact settle_answered (s := { s with abroad := s.abroad.erase x }) hw vs

/-- A call is opened with its event in the mailbox, or it is refused. -/
theorem System.request_accepted (h : s.accepts r = true) (legs : ActorRef → List (Leg κ))
    (name : String) (args : Args) :
    (s.request r name args).1.toOption = some s.calls.size ∧
      (s.request r name args).2.isWaiting s.calls.size = true ∧
      (r, .event .mailbox, s.calls.size) ∈ (s.request r name args).2.replies legs := by
  cases ha : s.actor? r with
  | none => simp [accepts_absent ha] at h
  | some a =>
    have hopen : a.refuses = false := by simpa [accepts_eq ha] using h
    have ha' : { s with calls := s.calls.push ⟨name, .waiting⟩ }.actor? r = some a := ha
    rw [request_open ha hopen]
    refine ⟨by simp [Except.toOption], by simp [isWaiting, put], mem_replies.2 (.inr ⟨_, (Turns.put ha' _).actor?_self, ?_⟩)⟩
    exact Actor.mem_replies.2 (.inl ⟨.awaitRpc ⟨none, name, args⟩ s.calls.size,
      by simp [Actor.enqueue], Event.mem_replies.2 (.inl ⟨rfl, rfl⟩)⟩)

theorem System.answersCalls (s : System κ) : s.AnswersCalls := by
  refine ⟨fun r a vs ha => ?_, fun r a slot vs ha => ?_, fun c vs => ?_,
    fun legs r name args hs => request_accepted hs legs name args, fun r name args hs => ?_⟩
  · split
    · rename_i hr
      exact perform_answer_none ha hr vs
    · rename_i c hr
      exact perform_answer_some ha hr vs
  · split
    · rename_i hk
      exact perform_answerKept_none ha hk vs
    · rename_i c hk
      exact perform_answerKept_some ha hk vs
  · split
    · rename_i hx
      exact elsewhere_answer_none vs hx
    · rename_i x hx
      exact elsewhere_answer_some vs hx
  · cases ha : s.actor? r with
    | none => simp [request, ha, Except.toOption]
    | some a =>
      have hrefuses : a.refuses = true := by simpa [accepts_eq ha] using hs
      simp [request_refused ha hrefuses, Except.toOption]

namespace Traffic

theorem mem_event {spot : Spot} (hmem : (r, .event spot, c) ∈ t.replies) (hspot : spot ≠ .way) :
    ∃ a, t.system.actor? r = some a ∧ ∃ e, e.call? = some c ∧
      (spot = .mailbox ∧ e ∈ a.mailbox.toList ∨ spot = .batch ∧ e ∈ a.batch) := by
  have hleg : ∀ leg : Leg κ, (.event spot, c) ∉ leg.replies := fun leg =>
    Leg.notMem_replies (by simpa using hspot) (by simp)
  obtain ⟨-, hp⟩ | ⟨a, ha, hmem⟩ := System.mem_replies.1 hmem
  · cases hp
  refine ⟨a, ha, ?_⟩
  simp only [Actor.mem_replies, Event.mem_replies, hleg] at hmem
  cases spot <;> simp_all [and_comm]

theorem mem_dispatch (hmem : (r, .dispatch, c) ∈ t.replies) :
    ∃ a, t.system.actor? r = some a ∧ a.dispatch.reply = some c := by
  simpa [replies, System.mem_replies, Actor.mem_replies, Event.mem_replies, Leg.notMem_replies]
    using hmem

theorem waiting_mem (hL : t.books.Linear h) (hw : t.system.isWaiting c = true) :
    ∃ r p, (r, p, c) ∈ t.replies := by
  obtain ⟨call, hcall, hw⟩ := System.isWaiting_iff.1 hw
  exact mem_books.1 (hL.whole c call hcall hw)

theorem dispatch_handled (hf : t.books.Fit) (hmem : (r, .dispatch, c) ∈ t.replies) :
    ∃ e, t.machine.mode r = .handling e ∧ e.call? = some c := by
  obtain ⟨a, ha, hr⟩ := mem_dispatch hmem
  exact (hf.ledger r _ (System.books_intro ha t.machine.mode t.legs)).reply c hr

theorem home_of_mem (hf : t.books.Fit) (hacc : t.books.Accounted h) {p : Place}
    (hp : p = .event .mailbox ∨ p = .event .batch ∨ p = .dispatch) (hmem : (r, p, c) ∈ t.replies) :
    ∃ q, (r, .accepted (.awaitRpc q c)) ∈ h := by
  have hevent : ∀ {a : Actor κ} {e : Event κ}, t.system.actor? r = some a → e.call? = some c →
      e ∈ (t.machine.mode r).hand ++ a.batch ++ a.mailbox.toList →
      ∃ q, (r, .accepted (.awaitRpc q c)) ∈ h := by
    intro a e ha hcall he
    have horder := (hacc.account r _ (System.books_intro ha t.machine.mode t.legs)).order
    have hmem : e ∈ Happening.acceptedIn (h.of r) := by
      rw [horder, List.append_assoc, List.append_assoc]
      refine List.mem_append_right _ ?_
      rwa [← List.append_assoc]
    obtain ⟨x, hx, hacc⟩ := List.mem_filterMap.1 hmem
    cases x <;> cases hacc
    cases e <;> cases hcall
    exact ⟨_, History.mem_of.1 hx⟩
  rcases hp with rfl | rfl | rfl
  · obtain ⟨a, ha, e, hcall, ⟨-, he⟩ | ⟨hspot, -⟩⟩ := mem_event hmem (by simp)
    · exact hevent ha hcall (List.mem_append_right _ he)
    · cases hspot
  · obtain ⟨a, ha, e, hcall, ⟨hspot, -⟩ | ⟨-, he⟩⟩ := mem_event hmem (by simp)
    · cases hspot
    · exact hevent ha hcall (List.mem_append_left _ (List.mem_append_right _ he))
  · obtain ⟨a, ha, -⟩ := mem_dispatch hmem
    obtain ⟨e, hmode, hcall⟩ := dispatch_handled hf hmem
    exact hevent ha hcall (by simp [hmode])

theorem closed_abroad (hf : t.books.Fit) (ha : t.system.actor? r = some a)
    (hclosed : a.phase = .closed) (hlegs : t.legs r = []) {p : Place} (hmem : (r, p, c) ∈ t.replies) :
    p = .abroad := by
  have hfit := hf.ledger r _ (System.books_intro ha t.machine.mode t.legs)
  have hclosed' : (a.ledgerWith (t.legs r)).closed = true := by simp [hclosed]
  obtain ⟨hmode, hbatch, -⟩ := hfit.closed hclosed'
  have hinbox : a.mailbox.toList = [] := (hfit.cleared hclosed').resolve_right (by simp [hlegs])
  obtain ⟨hkept, hpurses⟩ : a.kept = .empty ∧ a.purses = [] :=
    (hfit.left hclosed').resolve_right (by simp [hlegs])
  have hhand : a.dispatch.hand = .empty := hfit.hand hmode
  have hreply : a.dispatch.reply = none := (hmode ▸ hfit).reply_ready
  have hb : a.batch = [] := hbatch
  obtain ⟨-, rfl⟩ | ⟨a', ha', hmem⟩ := System.mem_replies.1 hmem
  · rfl
  · obtain rfl := Option.some.inj (ha.symm.trans ha')
    simp [Actor.replies, hinbox, hb, hreply, hhand, hkept, hpurses, hlegs, Table.empty] at hmem

theorem repliesPlaced (hf : t.books.Fit) (hs : t.Seated) (hL : t.books.Linear h)
    (hacc : t.books.Accounted h) : t.RepliesPlaced h := by
  refine ⟨?_, ?_, ?_, fun r p c hp hmem => home_of_mem hf hacc hp hmem,
    fun c hw => waiting_mem hL hw, fun r c hmem => dispatch_handled hf hmem,
    fun r a ha hclosed hlegs p c hmem => closed_abroad hf ha hclosed hlegs hmem, ?_, hL.once, ?_, ?_⟩
  · rw [← boarding_eq hs]
    exact hL.numbered
  · have hnodup := hL.nodup
    rwa [books_eq, ← System.map_replies] at hnodup
  · intro r p c hmem
    have hbooks : c ∈ t.books.replies := mem_books.2 ⟨r, p, hmem⟩
    refine ⟨fun r' vs hused => ?_, hL.unserved c hbooks⟩
    exact (hL.sent (c, vs) (History.mem_sent.2 ⟨r', hused⟩)).1 hbooks
  · intro c hevent hmode
    cases hw : t.system.isWaiting c with
    | false => exact .inl rfl
    | true =>
      obtain ⟨r, p, hmem⟩ := waiting_mem hL hw
      cases hp : p.isDeferred with
      | true => exact .inr ⟨r, p, hp, hmem⟩
      | false =>
        cases p with
        | event spot => exact absurd hmem (hevent r spot)
        | dispatch =>
          obtain ⟨e, he, hcall⟩ := dispatch_handled hf hmem
          exact absurd hcall (hmode r e he)
        | _ => cases hp
  · intro c vs hresult
    obtain ⟨call, hcall, hstate⟩ := System.result?_ok.1 hresult
    exact History.mem_sent.1 (hL.answered c call vs hcall hstate)
  · intro c rpc hresult r vs hused
    obtain ⟨call, hcall, hstate⟩ := System.result?_rpcDropped hresult
    obtain ⟨-, call', hcall', -, hne⟩ := hL.sent (c, vs) (History.mem_sent.2 ⟨r, hused⟩)
    obtain rfl : call = call' := Option.some.inj (hcall.symm.trans hcall')
    exact hne hstate

theorem verdict (code : κ → Invocation → Prog κ Unit) (hf : t.books.Fit) (hs : t.Seated)
    (hL : t.books.Linear h) (mv : Move κ) (hw : t.system.isWaiting c = true) :
    Verdict mv (t.step code mv).1 (t.step code mv).2 c := by
  have hstep := step_books code t mv hf hs
  have hL' := hstep.linear hf hL
  obtain ⟨call, hcall, hstate⟩ := System.isWaiting_iff.1 hw
  obtain ⟨after, hafter, hcase⟩ := hstep.verdict hf hcall hstate
  have hresult := System.result?_eq (s := (t.step code mv).2.system) hafter
  rcases hcase with hwaits | hforgets | ⟨vs, hused, hanswered⟩ | hdropped
  · exact .waits (System.isWaiting_iff.2 ⟨after, hafter, hwaits⟩)
  · cases mv with
    | whole mv =>
      cases mv with
      | expire d =>
        obtain ⟨rfl, htimed⟩ := Prod.mk.inj (Option.some.inj hforgets)
        rw [← htimed] at hresult
        exact .timedOut after.rpc rfl hresult
      | abandon d =>
        obtain ⟨rfl, hgone⟩ := Prod.mk.inj (Option.some.inj hforgets)
        refine .abandoned rfl ((System.isWaiting_eq_false hafter).2 ?_)
        rw [← hgone]
        rfl
      | _ => cases hforgets
    | _ => cases hforgets
  · obtain ⟨r, hmem⟩ := History.mem_sent.1 hused
    rw [hanswered] at hresult
    exact .answered r vs hmem hresult
  · rw [hdropped] at hresult
    refine .dropped after.rpc (fun r p hp => ?_) (fun r vs hused => ?_) hresult
    · obtain ⟨call', hcall', hserved⟩ := hL'.unserved c (mem_books.2 ⟨r, p, hp⟩)
      obtain rfl : after = call' := Option.some.inj (hafter.symm.trans hcall')
      simp [hdropped, CallState.isServed] at hserved
    · obtain ⟨-, call', hcall', -, hne⟩ := hL'.sent (c, vs)
        (History.mem_sent.2 ⟨r, List.mem_append_right _ hused⟩)
      obtain rfl : after = call' := Option.some.inj (hafter.symm.trans hcall')
      exact hne hdropped

theorem request_opened (code : κ → Invocation → Prog κ Unit) (t : Traffic κ)
    (hopen : t.system.accepts r = true) (name : String) (args : Args) :
    (t.step code (.request r name args)).2.system.isWaiting t.system.calls.size = true ∧
      (r, .event .way, t.system.calls.size) ∈ (t.step code (.request r name args)).2.replies := by
  cases ha : t.system.actor? r with
  | none => simp [System.accepts_absent ha] at hopen
  | some a =>
    simp only [step, hopen, if_true]
    refine ⟨by simp [System.isWaiting, system, add, withSystem], ?_⟩
    refine System.mem_replies.2 (.inr ⟨a, ha, Actor.mem_replies.2 ?_⟩)
    refine .inr (.inr (.inr (.inr (.inr (.inr ⟨.put (.awaitRpc ⟨none, name, args⟩ t.system.calls.size),
      by simp [add, withSystem], Event.mem_replies.2 (.inl ⟨rfl, rfl⟩)⟩)))))

theorem repliesMoved (code : κ → Invocation → Prog κ Unit) (hf : t.books.Fit) (hs : t.Seated)
    (hL : t.books.Linear h) : t.RepliesMoved code := by
  refine ⟨fun mv c hw => verdict code hf hs hL mv hw, fun c hw => System.settle_timedOut hw, ?_, ?_,
    fun r name args hopen => request_opened code t hopen name args⟩
  · intro mv c hlt hw
    have hcall := Array.getElem?_eq_getElem hlt
    have hafter := (step_books code t mv hf hs).settled hf hcall
      ((System.isWaiting_eq_false hcall).1 hw)
    refine ⟨(System.isWaiting_eq_false hafter).2 ((System.isWaiting_eq_false hcall).1 hw), ?_⟩
    rw [System.result?_eq hcall, System.result?_eq (s := (t.step code mv).2.system) hafter]
  · intro mv r a a' ha ha' hmode hr
    obtain ⟨l', hl', hspent⟩ := (step_books code t mv hf hs).pervaded
      (Books.pervades_spent t.system.config) hf (System.books_intro ha t.machine.mode t.legs)
    obtain rfl := Option.some.inj (hl'.symm.trans
      (System.books_intro ha' (t.step code mv).2.machine.mode (t.step code mv).2.legs))
    exact hspent hmode hr

/-- No caller is lost or answered twice, however the steps of the threads are mixed: the reply of a
call is in one place until it is used or thrown away, and its caller gets one outcome. -/
theorem replies_accounted (code : κ → Invocation → Prog κ Unit) (config : Config) (clock : Clock)
    (mvs : List (Move κ)) :
    RepliesAccounted code (play code mvs (new config clock)).1
      (play code mvs (new config clock)).2 := by
  obtain ⟨hf, hs, hL, hacc⟩ := play_induction code
    (P := fun h t => t.books.Linear h ∧ t.books.Accounted h)
    (fun h t mv hf hs ⟨hL, hacc⟩ =>
      ⟨(step_books code t mv hf hs).linear hf hL, (step_books code t mv hf hs).accounted hf hacc⟩)
    mvs (new_fit config clock) (new_seated config clock)
    ⟨Books.Linear.start config clock, Machine.start_accounted config clock⟩
  generalize (play code mvs (new config clock)).2 = t at hf hs hL hacc ⊢
  exact ⟨repliesPlaced hf hs hL hacc, repliesMoved code hf hs hL, t.system.answersCalls,
    t.machine.coversRuns code⟩

end Traffic

end

end ActorSystem
