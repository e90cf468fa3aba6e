import ActorSystem.Proofs.Bookkeeping

set_option autoImplicit false

namespace ActorSystem

namespace DoubleBuffer

variable {α : Type}

def map (f : α → α) (q : DoubleBuffer α) : DoubleBuffer α := ⟨q.read.map f, q.write.map f⟩

theorem toList_map (f : α → α) (q : DoubleBuffer α) : (q.map f).toList = q.toList.map f := by
  simp [toList, map]

theorem map_push (f : α → α) (q : DoubleBuffer α) (x : α) : (q.push x).map f = (q.map f).push (f x) := by
  simp [push, map]

theorem map_refill (f : α → α) (q : DoubleBuffer α) : (q.map f).refill = q.refill.map f := by
  obtain ⟨read, write⟩ := q
  cases read <;> simp [refill, map]

theorem map_take (f : α → α) (q : DoubleBuffer α) (max : Nat) :
    (q.map f).take max =
      (⟨(q.take max).1.items.map f, (q.take max).1.left⟩, (q.take max).2.map f) := by
  unfold take
  split
  · rfl
  · rw [map_refill]
    simp [map]

end DoubleBuffer

namespace EventQueue

variable {α : Type}

def map (f : α → α) (q : EventQueue α) : EventQueue α := { q with buffer := q.buffer.map f }

theorem toList_map (f : α → α) (q : EventQueue α) : (q.map f).toList = q.toList.map f :=
  q.buffer.toList_map f

theorem map_claim (f : α → α) (q : EventQueue α) : (q.map f).claim = q.claim.map f := by
  have hwaiter : (q.map f).hasWaiter = q.hasWaiter := rfl
  unfold claim
  rw [hwaiter]
  split <;> rfl

theorem map_put (f : α → α) (q : EventQueue α) (x : α) : (q.put x).map f = (q.map f).put (f x) := by
  simp only [put, map, DoubleBuffer.map_push]

theorem map_notify (f : α → α) (q : EventQueue α) : (q.map f).notify = q.notify.map f := by
  have hwaiter : (q.map f).hasWaiter = q.hasWaiter := rfl
  unfold notify
  rw [hwaiter, map_claim]
  split <;> rfl

theorem map_push (f : α → α) (q : EventQueue α) (x : α) : (q.push x).map f = (q.map f).push (f x) := by
  have hcount : ∀ q : EventQueue α, q.count.map f = (q.map f).count := fun _ => rfl
  rw [push, push, ← map_notify, hcount, map_put]

theorem map_take (f : α → α) (q : EventQueue α) (max : Nat) :
    (q.map f).take max =
      (⟨(q.take max).1.items.map f, (q.take max).1.left⟩, (q.take max).2.map f) := by
  by_cases h : q.pending < 0
  · simp [take, map, h, Taken.nothing]
  · simp [take, lift, uncount, map, h, DoubleBuffer.map_take]

theorem map_sweep (f : α → α) (n : Nat) (q : EventQueue α) :
    (q.map f).sweep n = ((q.sweep n).1.map f, (q.sweep n).2.map f) := by
  induction n generalizing q with
  | zero => rfl
  | succ n ih =>
    rw [sweep, sweep, map_take]
    generalize q.take unlimited = p
    obtain ⟨⟨items, left⟩, q'⟩ := p
    cases items with
    | nil => rfl
    | cons x xs => simp [ih]

theorem map_discard (f : α → α) (q : EventQueue α) :
    (q.map f).discard = (q.discard.1.map f, q.discard.2.map f) := by
  rw [discard, discard, toList_map, List.length_map, map_sweep]

theorem map_announce (f : α → α) (q : EventQueue α) :
    (q.map f).announce = (q.announce.1, q.announce.2.map f) := by
  have hclaim := map_claim f { q with announced := q.announced + 1 }
  by_cases h : 0 < q.pending
  · simpa [announce, map, h] using hclaim
  · simp [announce, map, h]

theorem map_awake (f : α → α) (q : EventQueue α) :
    (q.map f).recv.2.rearm = q.recv.2.rearm.map f :=
  map_claim f q.recv.2

end EventQueue

namespace Table

variable {α β γ : Type}

def map (f : β → γ) (t : Table α β) : Table α γ where
  entries := t.entries.map fun e => (e.1, f e.2)
  nodup := by simpa only [List.map_map, Function.comp_def] using t.nodup

theorem values_map (f : β → γ) (t : Table α β) : (t.map f).values = t.values.map f := by
  simp [values, map]

variable [DecidableEq α]

theorem get?_map (f : β → γ) (t : Table α β) (k : α) : (t.map f).get? k = (t.get? k).map f := by
  change lookup (t.entries.map fun e => (e.1, f e.2)) k = (lookup t.entries k).map f
  induction t.entries with
  | nil => rfl
  | cons e rest ih =>
    rw [List.map_cons, lookup, lookup, ih]
    split <;> rfl

omit [DecidableEq α] in
theorem filter_map (f : β → γ) (t : Table α β) (p : α → Bool) :
    (t.map f).filter p = (t.filter p).map f :=
  Table.ext (by simp [filter, map, List.filter_map, Function.comp_def])

theorem erase_map (f : β → γ) (t : Table α β) (k : α) : (t.map f).erase k = (t.erase k).map f :=
  t.filter_map f _

omit [DecidableEq α] in
theorem map_eq_iff {f g : β → γ} {t : Table α β} : t.map f = t.map g ↔ ∀ x ∈ t.values, f x = g x := by
  simp only [map, Table.mk.injEq, List.map_inj_left, Prod.mk.injEq, true_and, values, List.mem_map]
  constructor
  · rintro h x ⟨e, he, rfl⟩
    exact h e he
  · exact fun h e he => h _ ⟨e, he, rfl⟩

theorem insert_map (f : β → γ) (t : Table α β) (k : α) (v : β) :
    (t.map f).insert k (f v) = (t.insert k v).map f := by
  refine Table.ext ?_
  change put (t.entries.map fun e => (e.1, f e.2)) k (f v) = (put t.entries k v).map fun e => (e.1, f e.2)
  induction t.entries with
  | nil => rfl
  | cons e rest ih =>
    rw [List.map_cons, put, put, ih]
    split <;> rfl

end Table

variable {κ : Type}

def Event.renumber (f : CallRef → CallRef) : Event κ → Event κ
  | .post p => .post p
  | .awaitRpc q c => .awaitRpc q (f c)
  | .errand action replies => .errand action (replies.map f)

theorem Event.calls_renumber (f : CallRef → CallRef) (e : Event κ) :
    (e.renumber f).calls = e.calls.map f := by
  cases e with
  | post | awaitRpc => rfl
  | errand action replies => exact replies.values_map f

theorem callsOf_renumber (f : CallRef → CallRef) (es : List (Event κ)) :
    callsOf (es.map (Event.renumber f)) = (callsOf es).map f := by
  simp only [callsOf, List.flatMap_map, List.map_flatMap, Event.calls_renumber]

theorem Event.renumber_eq_iff {f g : CallRef → CallRef} {e : Event κ} :
    e.renumber f = e.renumber g ↔ ∀ c ∈ e.calls, f c = g c := by
  cases e with
  | post | awaitRpc => simp [renumber, calls]
  | errand action replies => simp only [renumber, calls, Event.errand.injEq, true_and, Table.map_eq_iff]

theorem renumber_events_eq_iff {f g : CallRef → CallRef} {es : List (Event κ)} :
    es.map (Event.renumber f) = es.map (Event.renumber g) ↔ ∀ c ∈ callsOf es, f c = g c := by
  simp only [List.map_inj_left, Event.renumber_eq_iff, callsOf, List.mem_flatMap]
  constructor
  · rintro h c ⟨e, he, hc⟩
    exact h e he c hc
  · exact fun h e he c hc => h c ⟨e, he, hc⟩

def renumberPurses (f : CallRef → CallRef) (ps : List (Timer.TimerId × Replies)) :
    List (Timer.TimerId × Replies) := ps.map fun p => (p.1, p.2.map f)

theorem pursesOf_renumber (f : CallRef → CallRef) (ps : List (Timer.TimerId × Replies)) :
    pursesOf (renumberPurses f ps) = (pursesOf ps).map f := by
  simp only [pursesOf, renumberPurses, List.flatMap_map, List.map_flatMap, Table.values_map]

theorem renumber_purses_eq_iff {f g : CallRef → CallRef} {ps : List (Timer.TimerId × Replies)} :
    renumberPurses f ps = renumberPurses g ps ↔ ∀ c ∈ pursesOf ps, f c = g c := by
  simp only [renumberPurses, List.map_inj_left, Prod.mk.injEq, true_and, Table.map_eq_iff, pursesOf,
    List.mem_flatMap]
  constructor
  · rintro h c ⟨p, hp, hc⟩
    exact h p hp c hc
  · exact fun h p hp c hc => h c ⟨p, hp, hc⟩

theorem eraseP_renumberPurses (f : CallRef → CallRef) (ps : List (Timer.TimerId × Replies))
    (id : Timer.TimerId) :
    (renumberPurses f ps).eraseP (fun p => p.1 == id) =
      renumberPurses f (ps.eraseP fun p => p.1 == id) := by
  simp only [renumberPurses, List.eraseP_map, Function.comp_def]

namespace Actor

def renumber (f : CallRef → CallRef) (a : Actor κ) : Actor κ :=
  { a with
    mailbox := a.mailbox.map (Event.renumber f), batch := a.batch.map (Event.renumber f),
    purses := renumberPurses f a.purses, kept := a.kept.map f,
    dispatch.reply := a.dispatch.reply.map f, dispatch.hand := a.dispatch.hand.map f }

/-- The numbers that matter are those of the calls whose replies it has. -/
theorem renumber_eq_iff {f g : CallRef → CallRef} {a : Actor κ} :
    a.renumber f = a.renumber g ↔ ∀ c ∈ a.ledger.senders, f c = g c := by
  have hbox : a.mailbox.map (Event.renumber f) = a.mailbox.map (Event.renumber g) ↔
      ∀ c ∈ callsOf a.mailbox.toList, f c = g c := by
    rw [EventQueue.toList, DoubleBuffer.toList, ← renumber_events_eq_iff, List.map_append,
      List.map_append]
    constructor
    · intro h
      have hbuffer := congrArg (fun q => q.buffer.toList) h
      simpa [EventQueue.map, DoubleBuffer.toList, DoubleBuffer.map] using hbuffer
    · intro h
      obtain ⟨hread, hwrite⟩ := List.append_inj h (by simp)
      simp only [← Array.toList_map] at hwrite
      simp [EventQueue.map, DoubleBuffer.map, hread, Array.toList_inj.1 hwrite]
  have hreply : a.dispatch.reply.map f = a.dispatch.reply.map g ↔
      ∀ c ∈ a.dispatch.reply.toList, f c = g c := by
    cases a.dispatch.reply <;> simp
  simp only [renumber, Actor.mk.injEq, Dispatch.mk.injEq, true_and, and_true, hbox, hreply,
    Table.map_eq_iff, renumber_events_eq_iff, renumber_purses_eq_iff, Ledger.senders, Ledger.stored,
    Actor.ledger, Actor.ledgerWith, List.flatMap_nil, List.append_nil, List.mem_append, or_imp,
    forall_and]
  constructor
  · rintro ⟨hmailbox, hbatch, hpurses, hkept, hreply, hhand⟩
    exact ⟨⟨⟨⟨⟨hmailbox, hbatch⟩, hreply⟩, hhand⟩, hkept⟩, hpurses⟩
  · rintro ⟨⟨⟨⟨⟨hmailbox, hbatch⟩, hreply⟩, hhand⟩, hkept⟩, hpurses⟩
    exact ⟨hmailbox, hbatch, hpurses, hkept, hreply, hhand⟩

theorem purse_renumber (f : CallRef → CallRef) (a : Actor κ) (id : Timer.TimerId) :
    (a.renumber f).purse id = (a.purse id).map f := by
  have hfind : (renumberPurses f a.purses).find? (fun p => p.1 == id) =
      (a.purses.find? fun p => p.1 == id).map fun p => (p.1, p.2.map f) := by
    simp only [renumberPurses, List.find?_map, Function.comp_def]
  change (((renumberPurses f a.purses).find? fun p => p.1 == id).map Prod.snd).getD .empty = _
  rw [hfind, purse]
  cases a.purses.find? fun p => p.1 == id <;> rfl

theorem enqueue_renumber (f : CallRef → CallRef) (a : Actor κ) (e : Event κ) :
    (a.enqueue e).renumber f = (a.renumber f).enqueue (e.renumber f) := by
  simp only [enqueue, renumber, EventQueue.map_push]

theorem onCall_renumber (f : CallRef → CallRef) (a : Actor κ) (q : Request) (reply : Option CallRef) :
    (a.renumber f).onCall q (reply.map f) =
      { a.onCall q reply with
        actor := (a.onCall q reply).actor.renumber f
        unanswered := (a.onCall q reply).unanswered.map f } := by
  have hget : (a.renumber f).onRpc.get? q.name = a.onRpc.get? q.name := rfl
  unfold onCall
  rw [hget]
  cases a.onRpc.get? q.name <;> rfl

theorem onPost_renumber (f : CallRef → CallRef) (a : Actor κ) (p : Post κ) :
    (a.renumber f).onPost p = { a.onPost p with
      actor := (a.onPost p).actor.renumber f
      unanswered := (a.onPost p).unanswered.map f } := by
  cases p with
  | rpc q => exact a.onCall_renumber f q none
  | custom action => rfl
  | data kind agent proto payload =>
    have hget : (a.renumber f).onMessage.get? proto = a.onMessage.get? proto := rfl
    unfold onPost onData
    dsimp only
    rw [hget]
    cases a.onMessage.get? proto <;> rfl
  | session kind agent via extra => cases kind <;> cases agent <;> rfl
  | component kind c manager e =>
    cases kind with
    | componentCreate =>
      have hcontains : (a.renumber f).components.contains c.id = a.components.contains c.id := rfl
      unfold onPost onCreated
      dsimp only
      rw [hcontains]
      cases a.components.contains c.id <;> rfl
    | _ => rfl

theorem react_renumber (f : CallRef → CallRef) (a : Actor κ) (e : Event κ) :
    (a.renumber f).react (e.renumber f) = { a.react e with
      actor := (a.react e).actor.renumber f
      unanswered := (a.react e).unanswered.map f } := by
  cases e with
  | post p => exact a.onPost_renumber f p
  | awaitRpc q c => exact a.onCall_renumber f q (some c)
  | errand action replies => rfl

end Actor

end ActorSystem
