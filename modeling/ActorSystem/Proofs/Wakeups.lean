import ActorSystem.Proofs.Bookkeeping

/-!
Producers push, and one consumer takes, announces its waits and sleeps. Whatever the order of their
operations, the consumer never sleeps on a queue that holds something, and no wait costs more than
one signal.
-/

set_option autoImplicit false

namespace ActorSystem.Wakeup

/-- What the consumer is at. -/
inductive Consumer where
  | working
  | waiting
  | woken
  | late
  deriving DecidableEq, Repr

def Consumer.inWait : Consumer → Bool
  | working => false
  | _ => true

def Consumer.unsignalled : Consumer → Bool
  | waiting | late => true
  | _ => false

/-- Whole operations. A push may be that of any producer. -/
inductive Act (α : Type) where
  | push (x : α)
  | take (max : Nat)
  | announce
  | receive
  | timeout
  | rearm

inductive Note where
  | pushed (signalled : Bool)
  | announced (granted : Bool)
  deriving DecidableEq, Repr

namespace Note

def isPush : Note → Bool
  | pushed _ => true
  | _ => false

def isSignal : Note → Bool
  | pushed signalled => signalled
  | _ => false

def isAnnouncement : Note → Bool
  | announced _ => true
  | _ => false

def isGrant : Note → Bool
  | announced granted => granted
  | _ => false

end Note

/-- What has been written down since the last announcement, the latest first. -/
def lastWait (log : List Note) : List Note := log.reverse.takeWhile fun n => !n.isAnnouncement

def untouched (log : List Note) : Bool := (lastWait log).all fun n => !n.isPush

def signalsSince (log : List Note) : Nat := (lastWait log).countP Note.isSignal

structure State (α : Type) where
  queue : EventQueue α
  consumer : Consumer

namespace State

variable {α : Type}

def start (capacity : Nat) : State α := ⟨.new capacity, .working⟩

def unclaimed (s : State α) (log : List Note) : Bool := s.consumer.inWait && untouched log

/-- What cannot be done, such as receiving where no signal is, changes nothing. -/
def step (s : State α) : Act α → List Note × State α
  | .push x => ([.pushed s.queue.hasWaiter], { s with queue := s.queue.push x })
  | .take max =>
    ([], if s.consumer = .working then { s with queue := (s.queue.take max).2 } else s)
  | .announce =>
    if s.consumer = .working then
      let (granted, queue) := s.queue.announce
      ([.announced granted], ⟨queue, if granted then .waiting else .working⟩)
    else ([], s)
  | .receive =>
    ([], if s.consumer = .waiting ∧ s.queue.recv.1 = .signal then ⟨s.queue.recv.2, .woken⟩ else s)
  | .timeout => ([], if s.consumer = .waiting then { s with consumer := .late } else s)
  | .rearm => ([], if s.consumer = .waiting then s else ⟨s.queue.rearm, .working⟩)

def play (s : State α) : List (Act α) → List Note × State α
  | [] => ([], s)
  | a :: as => ((s.step a).1 ++ ((s.step a).2.play as).1, ((s.step a).2.play as).2)

end State

section

variable (log : List Note) (n : Note)

theorem lastWait_append :
    lastWait (log ++ [n]) = if n.isAnnouncement then [] else n :: lastWait log := by
  cases h : n.isAnnouncement <;> simp [lastWait, h]

@[simp] theorem untouched_append :
    untouched (log ++ [n]) = (n.isAnnouncement || !n.isPush && untouched log) := by
  cases h : n.isAnnouncement <;> simp [untouched, lastWait_append, h]

@[simp] theorem signalsSince_append :
    signalsSince (log ++ [n]) =
      if n.isAnnouncement then 0 else signalsSince log + if n.isSignal then 1 else 0 := by
  cases h : n.isAnnouncement <;> simp [signalsSince, lastWait_append, h, List.countP_cons]

end

section

variable {α : Type} {q : EventQueue α} {b : Bool}

def Owes (q : EventQueue α) (b : Bool) : Prop := q.announced = q.notified + if b then 1 else 0

theorem Owes.hasWaiter (h : Owes q b) : q.hasWaiter = b := by
  unfold Owes at h
  cases b <;> simp [EventQueue.hasWaiter, h]

theorem Owes.difference (h : Owes q b) : q.announced - q.notified = if b then 1 else 0 := by
  unfold Owes at h
  grind

theorem Owes.claim (h : Owes q b) : Owes q.claim false := by
  have hwaiter := h.hasWaiter
  unfold Owes at h ⊢
  cases b <;> simp_all [EventQueue.claim]

theorem Owes.announce (h : Owes q false) :
    q.announce.1 = decide (q.pending ≤ 0) ∧ Owes q.announce.2 q.announce.1 := by
  have howes : Owes { q with announced := q.announced + 1 } true := by
    unfold Owes at h ⊢
    simp_all
  unfold EventQueue.announce
  by_cases hp : 0 < q.pending
  · simp only [hp, if_true]
    exact ⟨by simp [hp], howes.claim⟩
  · simp only [hp, if_false]
    exact ⟨by simp; omega, howes⟩

theorem push_eq (q : EventQueue α) (x : α) :
    q.push x =
      { q.claim with
        buffer := q.buffer.push x
        pending := q.pending + 1
        channel := if q.hasWaiter then q.channel.send else q.channel } := by
  have hwaiter : (q.put x).count.hasWaiter = q.hasWaiter := rfl
  unfold EventQueue.push EventQueue.notify EventQueue.claim
  rw [hwaiter]
  cases q.hasWaiter <;> rfl

end

theorem signals_send {c : WakeChannel} (h : 0 < c.capacity) : 0 < c.send.signals := by
  unfold WakeChannel.send
  split
  · exact Nat.succ_pos _
  · omega

section

variable {α : Type} {log : List Note} {s : State α}

structure Kept (log : List Note) (s : State α) : Prop where
  room : 0 < s.queue.channel.capacity
  pending : s.queue.pending = s.queue.toList.length
  owes : Owes s.queue (s.unclaimed log)
  empty : s.unclaimed log = true → s.queue.toList = []
  /-- A wait that a push has touched holds its signal until the consumer takes it. -/
  awake : s.consumer.unsignalled = true → untouched log = false → 0 < s.queue.channel.signals
  fresh : s.unclaimed log = true → signalsSince log = 0
  once : signalsSince log ≤ 1
  granted :
    log.countP Note.isSignal + (if s.unclaimed log then 1 else 0) ≤ log.countP Note.isGrant

theorem kept_start (capacity : Nat) : Kept [] (State.start capacity : State α) := by
  constructor
  case room => exact Nat.lt_of_lt_of_le Nat.one_pos (Nat.le_max_right capacity 1)
  all_goals
    simp [State.start, State.unclaimed, Consumer.inWait, Consumer.unsignalled, EventQueue.new,
      EventQueue.toList, WakeChannel.new, Owes, signalsSince, lastWait]

theorem unsignalled_inWait {c : Consumer} (h : c.unsignalled = true) : c.inWait = true := by
  cases c <;> simp_all [Consumer.unsignalled, Consumer.inWait]

theorem Kept.push (h : Kept log s) (x : α) :
    Kept (log ++ [.pushed s.queue.hasWaiter]) { s with queue := s.queue.push x } := by
  have hwaiter := h.owes.hasWaiter
  have hnot : State.unclaimed ⟨s.queue.push x, s.consumer⟩ (log ++ [.pushed s.queue.hasWaiter]) =
      false := by
    simp [State.unclaimed, Note.isAnnouncement, Note.isPush]
  have hqueue := push_eq s.queue x
  have howes := h.owes.claim
  refine ⟨?_, by simp [h.pending], ?_, by simp [hnot], ?_, by simp [hnot], ?_, ?_⟩
  · rw [hqueue]
    dsimp only
    split
    · unfold WakeChannel.send
      split <;> exact h.room
    · exact h.room
  · rw [hnot, hqueue]
    exact howes
  · intro hwait _
    rw [hqueue, hwaiter]
    dsimp only
    cases hclaimed : s.unclaimed log with
    | true => exact signals_send h.room
    | false =>
      have htouched : untouched log = false := by
        simpa [State.unclaimed, unsignalled_inWait hwait] using hclaimed
      exact h.awake hwait htouched
  · have hfresh := h.fresh
    have honce := h.once
    rw [hwaiter, signalsSince_append]
    cases hclaimed : s.unclaimed log <;> simp_all [Note.isAnnouncement, Note.isSignal]
  · have hgranted := h.granted
    rw [hnot, hwaiter]
    cases hclaimed : s.unclaimed log <;> simp_all [Note.isSignal, Note.isGrant]

theorem Kept.take (h : Kept log s) (hworking : s.consumer = .working) (max : Nat) :
    Kept log { s with queue := (s.queue.take max).2 } := by
  have hnot : ∀ q : EventQueue α, State.unclaimed ⟨q, s.consumer⟩ log = false := by
    simp [State.unclaimed, Consumer.inWait, hworking]
  have hold : s.unclaimed log = false := hnot s.queue
  have howes := h.owes
  have hrest : (s.queue.take max).2.announced = s.queue.announced ∧
      (s.queue.take max).2.notified = s.queue.notified ∧
      (s.queue.take max).2.channel = s.queue.channel := by
    unfold EventQueue.take
    split <;> exact ⟨rfl, rfl, rfl⟩
  obtain ⟨hannounced, hnotified, hchannel⟩ := hrest
  refine ⟨hchannel ▸ h.room, ?_, ?_, by simp [hnot], by simp [Consumer.unsignalled, hworking],
    by simp [hnot], h.once, ?_⟩
  · have hlist := congrArg List.length (s.queue.take_append_toList max)
    rw [List.length_append] at hlist
    have hpending := h.pending
    rw [EventQueue.pending_take]
    dsimp only
    omega
  · rw [hold] at howes
    unfold Owes at howes ⊢
    rw [hnot, hannounced, hnotified]
    exact howes
  · rw [hnot]
    simpa [hold] using h.granted

theorem Kept.announce (h : Kept log s) (hworking : s.consumer = .working) :
    Kept (log ++ [.announced s.queue.announce.1])
      ⟨s.queue.announce.2, if s.queue.announce.1 then .waiting else .working⟩ := by
  have howes := h.owes
  have hold : s.unclaimed log = false := by simp [State.unclaimed, Consumer.inWait, hworking]
  rw [hold] at howes
  obtain ⟨hgrant, howes⟩ := howes.announce
  have hrest : s.queue.announce.2.toList = s.queue.toList ∧
      s.queue.announce.2.pending = s.queue.pending ∧
      s.queue.announce.2.channel = s.queue.channel := by
    unfold EventQueue.announce EventQueue.claim
    dsimp only
    split
    · split <;> exact ⟨rfl, rfl, rfl⟩
    · exact ⟨rfl, rfl, rfl⟩
  obtain ⟨hlist, hpending, hchannel⟩ := hrest
  have hcount := h.pending
  have hgranted := h.granted
  rw [hold] at hgranted
  have hnew : ∀ q : EventQueue α,
      State.unclaimed ⟨q, if s.queue.announce.1 then .waiting else .working⟩
        (log ++ [.announced s.queue.announce.1]) = s.queue.announce.1 := by
    intro q
    cases s.queue.announce.1 <;> simp [State.unclaimed, Consumer.inWait, Note.isAnnouncement]
  refine ⟨hchannel ▸ h.room, ?_, ?_, ?_, ?_, ?_, ?_, ?_⟩
  · rw [hlist, hpending, hcount]
  · rw [hnew]
    exact howes
  · rw [hnew, hlist]
    intro hg
    rw [hgrant] at hg
    have hle := of_decide_eq_true hg
    exact List.length_eq_zero_iff.1 (by omega)
  · simp [Note.isAnnouncement]
  · simp [Note.isAnnouncement]
  · simp [Note.isAnnouncement]
  · rw [hnew]
    cases s.queue.announce.1 <;> simpa [Note.isSignal, Note.isGrant] using hgranted

theorem Kept.receive (h : Kept log s) (hwaiting : s.consumer = .waiting) :
    Kept log ⟨s.queue.recv.2, .woken⟩ := by
  have hsame : ∀ q : EventQueue α, State.unclaimed ⟨q, .woken⟩ log = s.unclaimed log := by
    simp [State.unclaimed, Consumer.inWait, hwaiting]
  have hroom : s.queue.recv.2.channel.capacity = s.queue.channel.capacity := by
    unfold EventQueue.recv WakeChannel.recv
    dsimp only
    split <;> rfl
  exact ⟨hroom ▸ h.room, h.pending, by rw [hsame]; exact h.owes, by rw [hsame]; exact h.empty,
    by simp [Consumer.unsignalled], by rw [hsame]; exact h.fresh, h.once,
    by rw [hsame]; exact h.granted⟩

theorem Kept.timeout (h : Kept log s) (hwaiting : s.consumer = .waiting) :
    Kept log { s with consumer := .late } := by
  have hsame : State.unclaimed ⟨s.queue, .late⟩ log = s.unclaimed log := by
    simp [State.unclaimed, Consumer.inWait, hwaiting]
  have hawake := h.awake
  rw [hwaiting] at hawake
  exact ⟨h.room, h.pending, by rw [hsame]; exact h.owes, by rw [hsame]; exact h.empty,
    fun _ => hawake rfl, by rw [hsame]; exact h.fresh, h.once, by rw [hsame]; exact h.granted⟩

theorem Kept.rearm (h : Kept log s) : Kept log ⟨s.queue.rearm, .working⟩ := by
  have hnot : ∀ q : EventQueue α, State.unclaimed ⟨q, .working⟩ log = false := by
    simp [State.unclaimed, Consumer.inWait]
  have hchannel : s.queue.rearm.channel = s.queue.channel := by
    unfold EventQueue.rearm EventQueue.claim
    split <;> rfl
  have hgranted := h.granted
  refine ⟨hchannel ▸ h.room, ?_, ?_, by simp [hnot], by simp [Consumer.unsignalled], by simp [hnot],
    h.once, ?_⟩
  · rw [EventQueue.rearm, EventQueue.pending_claim, EventQueue.toList_claim]
    exact h.pending
  · rw [hnot]
    exact h.owes.claim
  · rw [hnot]
    simp only [Bool.false_eq_true, if_false]
    omega

theorem Kept.step (h : Kept log s) (a : Act α) : Kept (log ++ (s.step a).1) (s.step a).2 := by
  cases a with
  | push x => exact h.push x
  | take max =>
    simp only [State.step, List.append_nil]
    split
    · exact h.take ‹_› max
    · exact h
  | announce =>
    simp only [State.step]
    split
    · exact h.announce ‹_›
    · simpa using h
  | receive =>
    simp only [State.step, List.append_nil]
    split
    · rename_i hrecv
      exact h.receive hrecv.1
    · exact h
  | timeout =>
    simp only [State.step, List.append_nil]
    split
    · exact h.timeout ‹_›
    · exact h
  | rearm =>
    simp only [State.step, List.append_nil]
    split
    · exact h
    · exact h.rearm

theorem Kept.play (h : Kept log s) (acts : List (Act α)) :
    Kept (log ++ (s.play acts).1) (s.play acts).2 := by
  induction acts generalizing log s with
  | nil => simpa [State.play] using h
  | cons a acts ih => simpa [State.play] using ih (h.step a)

/-- What holds after any operations. -/
structure Sound (log : List Note) (s : State α) : Prop where
  /-- While something is queued, a wait whose signal has not been taken finds one at once. -/
  awake : s.consumer.unsignalled = true → s.queue.toList ≠ [] →
    0 < s.queue.channel.signals ∧ s.queue.recv.1 = .signal
  difference : s.queue.announced - s.queue.notified = if s.unclaimed log then 1 else 0
  once : signalsSince log ≤ 1
  granted : log.countP Note.isSignal ≤ log.countP Note.isGrant
  /-- A push sends a signal in an unclaimed wait, which is lost if the channel is full, and touches
  the channel at no other time. -/
  push : ∀ x, (s.step (.push x)).1 = [.pushed (s.unclaimed log)] ∧
    (s.queue.push x).channel =
      if s.unclaimed log then s.queue.channel.send else s.queue.channel
  pending : s.queue.pending = s.queue.toList.length
  announce : s.queue.announce.1 = false ↔ s.queue.toList ≠ []

theorem Kept.sound (h : Kept log s) : Sound log s := by
  have hwaiter := h.owes.hasWaiter
  have hpending := h.pending
  refine ⟨?_, h.owes.difference, h.once, ?_, ?_, hpending, ?_⟩
  · intro hwait hne
    have htouched : untouched log = false := by
      by_contra huntouched
      refine hne (h.empty ?_)
      simpa [State.unclaimed, unsignalled_inWait hwait] using huntouched
    have hsignals := h.awake hwait htouched
    exact ⟨hsignals, by simp [EventQueue.recv, WakeChannel.recv, hsignals]⟩
  · have hgranted := h.granted
    omega
  · intro x
    rw [push_eq, State.step, hwaiter]
    exact ⟨rfl, rfl⟩
  · have hannounce : s.queue.announce.1 = decide (s.queue.pending ≤ 0) := by
      unfold EventQueue.announce
      dsimp only
      split <;> simp <;> omega
    rw [hannounce, hpending, decide_eq_false_iff_not, ← List.length_pos_iff]
    omega

/-- The consumer never sleeps on a queue that holds something, however the pushes of its producers
fall between its own operations. -/
theorem play_sound (capacity : Nat) (acts : List (Act α)) :
    Sound ((State.start capacity).play acts).1 ((State.start capacity).play acts).2 := by
  simpa using ((kept_start capacity).play acts).sound

/-- A late wait leaves its signal behind, which fills the channel, so that the next one is lost; the
old one wakes the consumer all the same. -/
example :
    ((State.start 1).play
        [.announce, .push 'a', .timeout, .rearm, .take 1, .announce, .push 'b', .receive, .rearm,
          .take 1]).1 =
      [.announced true, .pushed true, .announced true, .pushed true] := by
  decide

end

end ActorSystem.Wakeup
