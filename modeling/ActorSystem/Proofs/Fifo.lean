import ActorSystem.Proofs.Draining

/-!
The queue of two lists beside a plain line of items. Whatever the order in which they are pushed and
taken, the two give the same answers. A queue that its consumer may sleep on takes its items from
such a queue and counts them right.
-/

set_option autoImplicit false

namespace ActorSystem.Fifo

inductive Use (α : Type) where
  | push (x : α)
  | take (max : Nat)
  | takeOne

inductive Answer (α : Type) where
  | pushed
  | taken (t : Taken α)
  | one (x : Option α)

inductive WakefulUse (α : Type) where
  | push (x : α)
  | take (max : Nat)
  | announce
  | rearm
  | receive
  | drain

section

variable {α : Type}

def Use.pushed? : Use α → Option α
  | push x => some x
  | _ => none

def Answer.items : Answer α → List α
  | pushed => []
  | taken t => t.items
  | one x => x.toList

def WakefulUse.plain? : WakefulUse α → Option (Use α)
  | push x => some (.push x)
  | take max => some (.take max)
  | _ => none

def pushedIn (uses : List (Use α)) : List α := uses.filterMap Use.pushed?

def handedIn (answers : List (Answer α)) : List α := answers.flatMap Answer.items

end

/-- The answers to some inputs, one after the other, and the state after them. -/
def serve {σ β γ : Type} (step : σ → β → γ × σ) : σ → List β → List γ × σ
  | s, [] => ([], s)
  | s, x :: xs =>
    ((step s x).1 :: (serve step (step s x).2 xs).1, (serve step (step s x).2 xs).2)

/-- A plain line of items. The generation that is handed out stands in front, `current` of it are
left; what comes later is not part of it. -/
structure Line (α : Type) where
  waiting : List α
  current : Nat

namespace Line

variable {α : Type}

def empty : Line α := ⟨[], 0⟩

def opened (l : Line α) : Line α :=
  if l.current = 0 then { l with current := l.waiting.length } else l

/-- Hands out the first items, `max` if the generation has so many left. -/
def handOut (l : Line α) (max : Nat) : Taken α × Line α :=
  if max = 0 then (.nothing, l)
  else
    let n := min max l.opened.current
    (⟨l.waiting.take n, l.opened.current - n⟩, ⟨l.waiting.drop n, l.opened.current - n⟩)

def step (l : Line α) : Use α → Answer α × Line α
  | .push x => (.pushed, { l with waiting := l.waiting ++ [x] })
  | .take max => (.taken (l.handOut max).1, (l.handOut max).2)
  | .takeOne => (.one (l.handOut 1).1.items.head?, (l.handOut 1).2)

end Line

end Fifo

open Fifo

variable {α : Type}

namespace DoubleBuffer

variable {q : DoubleBuffer α} {max : Nat}

def step (q : DoubleBuffer α) : Use α → Answer α × DoubleBuffer α
  | .push x => (.pushed, q.push x)
  | .take max => (.taken (q.take max).1, (q.take max).2)
  | .takeOne => (.one q.takeOne.1, q.takeOne.2)

/-- What is handed out next: the read side, or all of the write side after it has run dry. -/
def generation (q : DoubleBuffer α) : List α := if q.read.isEmpty then q.write.toList else q.read

/-- As many items as may be come from the front of the generation, and the rest of it stays on the
read side. What was pushed after the generation was opened is left where it is. -/
structure HandsOut (q : DoubleBuffer α) (max : Nat) (items : List α) (q' : DoubleBuffer α) :
    Prop where
  cut : items ++ q'.read = q.generation
  length : items.length = min max q.generation.length
  write : q'.write.toList = if q.read.isEmpty then [] else q.write.toList

theorem read_refill (q : DoubleBuffer α) : q.refill.read = q.generation := by
  unfold refill generation
  split <;> rfl

theorem write_refill (q : DoubleBuffer α) :
    q.refill.write.toList = if q.read.isEmpty then [] else q.write.toList := by
  unfold refill
  split <;> rfl

theorem take_handsOut (q : DoubleBuffer α) (hmax : 1 ≤ max) :
    q.HandsOut max (q.take max).1.items (q.take max).2 ∧
      (q.take max).1.left = (q.take max).2.read.length := by
  have hnot : max ≠ 0 := Nat.one_le_iff_ne_zero.1 hmax
  simp only [take, if_neg hnot]
  refine ⟨⟨?_, ?_, q.write_refill⟩, by rw [List.length_drop]⟩
  · rw [List.take_append_drop, read_refill]
  · rw [List.length_take, read_refill]

theorem takeOne_handsOut (q : DoubleBuffer α) :
    q.HandsOut 1 q.takeOne.1.toList q.takeOne.2 := by
  simp only [takeOne]
  refine ⟨?_, ?_, q.write_refill⟩
  · rw [← q.read_refill]
    cases q.refill.read <;> rfl
  · rw [← q.read_refill]
    cases q.refill.read with
    | nil => rfl
    | cons x xs => simp

theorem generation_eq_nil_iff : q.generation = [] ↔ q.read = [] ∧ q.write.toList = [] := by
  unfold generation
  cases q.read <;> simp

theorem HandsOut.nothing_iff {items : List α} {q' : DoubleBuffer α} (h : q.HandsOut max items q')
    (hmax : 1 ≤ max) : items = [] ↔ q.read = [] ∧ q.write.toList = [] := by
  have hlength := h.length
  rw [← generation_eq_nil_iff, ← List.length_eq_zero_iff, ← List.length_eq_zero_iff]
  omega

/-- The line shows the items of both sides, and how many of them are on the read side. -/
def Shows (q : DoubleBuffer α) (l : Line α) : Prop :=
  l.waiting = q.toList ∧ l.current = q.read.length

theorem Shows.opened {l : Line α} (h : q.Shows l) : l.opened.current = q.generation.length := by
  obtain ⟨hwaiting, hcurrent⟩ := h
  unfold Line.opened generation
  cases hr : q.read with
  | nil => simp [hwaiting, hcurrent, hr, toList]
  | cons x xs => simp [hcurrent, hr]

theorem toList_eq_generation (q : DoubleBuffer α) :
    q.toList = q.generation ++ if q.read.isEmpty then [] else q.write.toList := by
  unfold toList generation
  cases q.read <;> simp

theorem HandsOut.shows {l : Line α} {items : List α} {q' : DoubleBuffer α}
    (h : q.HandsOut max items q') (hl : q.Shows l) (hmax : 1 ≤ max) :
    (l.handOut max).1 = ⟨items, q'.read.length⟩ ∧ q'.Shows (l.handOut max).2 := by
  have hnot : max ≠ 0 := Nat.one_le_iff_ne_zero.1 hmax
  have hlist : l.waiting = items ++ q'.toList := by
    rw [hl.1, toList_eq_generation, ← h.cut, ← h.write, List.append_assoc, toList]
  have hcount : min max l.opened.current = items.length := by rw [hl.opened, h.length]
  have hrest : l.opened.current - items.length = q'.read.length := by
    rw [hl.opened, ← h.cut, List.length_append, Nat.add_sub_cancel_left]
  simp only [Line.handOut, if_neg hnot, hcount, hrest, hlist, List.take_left', List.drop_left']
  exact ⟨trivial, rfl, rfl⟩

theorem step_shows {l : Line α} (h : q.Shows l) (use : Use α) :
    (q.step use).1 = (l.step use).1 ∧ (q.step use).2.Shows (l.step use).2 := by
  cases use with
  | push x =>
    refine ⟨rfl, ?_, h.2⟩
    simp [Line.step, step, h.1]
  | take max =>
    rcases Nat.eq_zero_or_pos max with rfl | hmax
    · exact ⟨rfl, h⟩
    · obtain ⟨hout, hleft⟩ := q.take_handsOut hmax
      obtain ⟨htaken, hrest⟩ := hout.shows h hmax
      simp only [step, Line.step, htaken, ← hleft]
      exact ⟨trivial, hrest⟩
  | takeOne =>
    obtain ⟨htaken, hrest⟩ := q.takeOne_handsOut.shows h (Nat.le_refl 1)
    simp only [step, Line.step, htaken]
    refine ⟨?_, hrest⟩
    cases q.takeOne.1 <;> rfl

end DoubleBuffer

namespace Fifo

/-- Two machines that answer alike, and stay alike, answer all inputs alike. -/
theorem serve_alike {σ τ β γ : Type} {f : σ → β → γ × σ} {g : τ → β → γ × τ} {alike : σ → τ → Prop}
    (hstep : ∀ s t x, alike s t → (f s x).1 = (g t x).1 ∧ alike (f s x).2 (g t x).2) {s : σ} {t : τ}
    (h : alike s t) (xs : List β) :
    (serve f s xs).1 = (serve g t xs).1 ∧ alike (serve f s xs).2 (serve g t xs).2 := by
  induction xs generalizing s t with
  | nil => exact ⟨rfl, h⟩
  | cons x xs ih =>
    obtain ⟨hanswer, hrest⟩ := hstep s t x h
    obtain ⟨hanswers, hlast⟩ := ih hrest
    exact ⟨by rw [serve, serve, hanswer, hanswers], hlast⟩

theorem step_order (q : DoubleBuffer α) (use : Use α) :
    (q.step use).1.items ++ (q.step use).2.toList = q.toList ++ use.pushed?.toList := by
  cases use with
  | push x => simp [DoubleBuffer.step, Answer.items, Use.pushed?]
  | take max =>
    simpa [DoubleBuffer.step, Answer.items, Use.pushed?] using q.take_append_toList max
  | takeOne => simpa [DoubleBuffer.step, Answer.items, Use.pushed?] using q.takeOne_append_toList

theorem serve_order (q : DoubleBuffer α) (uses : List (Use α)) :
    handedIn (serve DoubleBuffer.step q uses).1 ++ (serve DoubleBuffer.step q uses).2.toList =
      q.toList ++ pushedIn uses := by
  induction uses generalizing q with
  | nil => simp [serve, handedIn, pushedIn]
  | cons use uses ih =>
    have hcons : pushedIn (use :: uses) = use.pushed?.toList ++ pushedIn uses := by
      unfold pushedIn
      cases h : use.pushed? <;> simp [h]
    calc handedIn (serve DoubleBuffer.step q (use :: uses)).1 ++
          (serve DoubleBuffer.step q (use :: uses)).2.toList
        = (q.step use).1.items ++ (handedIn (serve DoubleBuffer.step (q.step use).2 uses).1 ++
            (serve DoubleBuffer.step (q.step use).2 uses).2.toList) := by
          simp [serve, handedIn]
      _ = ((q.step use).1.items ++ (q.step use).2.toList) ++ pushedIn uses := by
          rw [ih, List.append_assoc]
      _ = q.toList ++ pushedIn (use :: uses) := by
          rw [step_order, hcons, List.append_assoc]

/-- What is so of a queue after these operations, which had these answers. -/
structure Faithful (uses : List (Use α)) (answers : List (Answer α)) (q : DoubleBuffer α) :
    Prop where
  line : answers = (serve Line.step Line.empty uses).1
  order : handedIn answers ++ (q.read ++ q.write.toList) = pushedIn uses
  some : ∀ mine : α → Bool, (handedIn answers).filter mine <+: (pushedIn uses).filter mine
  size : q.size = q.read.length + q.write.toList.length ∧
    (handedIn answers).length + q.size = (pushedIn uses).length
  none : q.take 0 = (.nothing, q)
  take : ∀ max, 1 ≤ max → q.HandsOut max (q.take max).1.items (q.take max).2 ∧
    (q.take max).1.left = (q.take max).2.read.length ∧
    ((q.take max).1.items = [] ↔ q.read = [] ∧ q.write.toList = [])
  takeOne : q.HandsOut 1 q.takeOne.1.toList q.takeOne.2 ∧
    (q.takeOne.1 = Option.none ↔ q.read = [] ∧ q.write.toList = [])

theorem serve_faithful (uses : List (Use α)) :
    Faithful uses (serve DoubleBuffer.step .empty uses).1
      (serve DoubleBuffer.step .empty uses).2 := by
  have hline := (serve_alike (fun _ _ use h => DoubleBuffer.step_shows h use)
    (show DoubleBuffer.empty.Shows (Line.empty : Line α) from ⟨rfl, rfl⟩) uses).1
  have horder := serve_order (.empty : DoubleBuffer α) uses
  generalize serve DoubleBuffer.step .empty uses = run at hline horder ⊢
  obtain ⟨answers, q⟩ := run
  rw [DoubleBuffer.toList_empty, List.nil_append] at horder
  refine ⟨hline, horder, fun mine => ?_, ⟨rfl, ?_⟩, rfl, fun max hmax => ?_, ?_⟩
  · rw [← horder, List.filter_append]
    exact List.prefix_append _ _
  · rw [← horder, List.length_append, q.length_toList]
  · obtain ⟨hout, hleft⟩ := q.take_handsOut hmax
    exact ⟨hout, hleft, hout.nothing_iff hmax⟩
  · have hout := q.takeOne_handsOut
    refine ⟨hout, Iff.trans ?_ (hout.nothing_iff (Nat.le_refl 1))⟩
    cases q.takeOne.1 <;> simp

end Fifo

namespace EventQueue

variable {q : EventQueue α}

def step (q : EventQueue α) : WakefulUse α → Option (Answer α) × EventQueue α
  | .push x => (some .pushed, q.push x)
  | .take max => (some (.taken (q.take max).1), (q.take max).2)
  | .announce => (none, q.announce.2)
  | .rearm => (none, q.rearm)
  | .receive => (none, q.recv.2)
  | .drain => (none, q.drain.2)

def Counted (q : EventQueue α) : Prop := q.pending = q.buffer.size

theorem Counted.pending (h : q.Counted) : q.pending = q.toList.length :=
  h.trans (congrArg Nat.cast q.buffer.length_toList.symm)

theorem buffer_claim (q : EventQueue α) : q.claim.buffer = q.buffer := by
  unfold claim
  split <;> rfl

theorem buffer_notify (q : EventQueue α) : q.notify.buffer = q.buffer := by
  unfold notify
  split
  · exact buffer_claim _
  · rfl

theorem buffer_push (q : EventQueue α) (x : α) : (q.push x).buffer = q.buffer.push x :=
  buffer_notify _

theorem buffer_announce (q : EventQueue α) : q.announce.2.buffer = q.buffer := by
  unfold announce
  dsimp only
  split
  · exact buffer_claim _
  · rfl

/-- A look at a queue whose count is right is never turned away. -/
theorem Counted.take_eq (h : q.Counted) (max : Nat) :
    (q.take max).1 = (q.buffer.take max).1 ∧ (q.take max).2.buffer = (q.buffer.take max).2 := by
  have hpos : ¬ q.pending < 0 := by
    rw [h]
    omega
  rw [take, if_neg hpos]
  exact ⟨rfl, rfl⟩

theorem Counted.step (h : q.Counted) (use : WakefulUse α) : (q.step use).2.Counted := by
  cases use with
  | push x =>
    have hsize : (q.buffer.push x).size = q.buffer.size + 1 := by
      simp [DoubleBuffer.size, DoubleBuffer.push, Nat.add_assoc]
    rw [EventQueue.step, Counted, pending_push, buffer_push, hsize, h]
    rfl
  | take max =>
    have hpending := pending_take_eq h.pending max
    rwa [toList, DoubleBuffer.length_toList] at hpending
  | announce =>
    rw [EventQueue.step, Counted, pending_announce, buffer_announce]
    exact h
  | rearm =>
    rw [EventQueue.step, rearm, Counted, pending_claim, buffer_claim]
    exact h
  | receive => exact h
  | drain => exact h

/-- Apart from the answers about its items, a step leaves them alone. -/
theorem Counted.step_buffer (h : q.Counted) (use : WakefulUse α) :
    (q.step use).1 = use.plain?.map (fun u => (q.buffer.step u).1) ∧
      (q.step use).2.buffer = (use.plain?.map fun u => (q.buffer.step u).2).getD q.buffer := by
  cases use with
  | push x => exact ⟨rfl, buffer_push q x⟩
  | take max =>
    obtain ⟨htaken, hbuffer⟩ := h.take_eq max
    exact ⟨congrArg (fun t => some (Answer.taken t)) htaken, hbuffer⟩
  | announce => exact ⟨rfl, buffer_announce q⟩
  | rearm => exact ⟨rfl, buffer_claim q⟩
  | receive => exact ⟨rfl, rfl⟩
  | drain => exact ⟨rfl, rfl⟩

theorem Counted.serve (h : q.Counted) (uses : List (WakefulUse α)) :
    (Fifo.serve EventQueue.step q uses).1.reduceOption =
        (Fifo.serve DoubleBuffer.step q.buffer (uses.filterMap WakefulUse.plain?)).1 ∧
      (Fifo.serve EventQueue.step q uses).2.buffer =
        (Fifo.serve DoubleBuffer.step q.buffer (uses.filterMap WakefulUse.plain?)).2 ∧
      (Fifo.serve EventQueue.step q uses).2.Counted := by
  induction uses generalizing q with
  | nil => exact ⟨rfl, rfl, h⟩
  | cons use uses ih =>
    obtain ⟨hanswer, hbuffer⟩ := h.step_buffer use
    obtain ⟨hanswers, hlast, hcounted⟩ := ih (h.step use)
    simp only [Fifo.serve]
    rw [hbuffer] at hanswers hlast
    cases hplain : use.plain? with
    | none =>
      rw [hplain] at hanswer hanswers hlast
      refine ⟨?_, ?_, hcounted⟩
      · rw [List.filterMap_cons_none hplain, hanswer]
        exact hanswers
      · rw [List.filterMap_cons_none hplain]
        exact hlast
    | some use =>
      rw [hplain] at hanswer hanswers hlast
      refine ⟨?_, ?_, hcounted⟩
      · rw [List.filterMap_cons_some hplain, hanswer]
        exact congrArg ((q.buffer.step use).1 :: ·) hanswers
      · rw [List.filterMap_cons_some hplain]
        exact hlast

end EventQueue

namespace Fifo

/-- What is so of a queue with a sleeping consumer after these operations, which had these answers:
it has done as a queue without one, and will do so. -/
structure Concurs (uses : List (WakefulUse α)) (answers : List (Option (Answer α)))
    (q : EventQueue α) : Prop where
  answers : answers.reduceOption =
    (serve DoubleBuffer.step .empty (uses.filterMap WakefulUse.plain?)).1
  buffer : q.buffer = (serve DoubleBuffer.step .empty (uses.filterMap WakefulUse.plain?)).2
  pending : q.pending = q.buffer.size
  guard : ¬ q.pending < 0
  take : ∀ max, (q.take max).1 = (q.buffer.take max).1 ∧
    (q.take max).2.buffer = (q.buffer.take max).2

/-- Two lists that change places are a line: first in, first out, one generation at a time. -/
theorem serve_fifo (uses : List (Use α)) (capacity : Nat) (wakeful : List (WakefulUse α)) :
    Faithful uses (serve DoubleBuffer.step .empty uses).1
        (serve DoubleBuffer.step .empty uses).2 ∧
      Concurs wakeful (serve EventQueue.step (.new capacity) wakeful).1
        (serve EventQueue.step (.new capacity) wakeful).2 := by
  have hcounted : (EventQueue.new capacity : EventQueue α).Counted := rfl
  obtain ⟨hanswers, hbuffer, hlast⟩ := hcounted.serve wakeful
  refine ⟨serve_faithful uses, hanswers, hbuffer, hlast, ?_, hlast.take_eq⟩
  rw [hlast]
  omega

/-- A generation is not topped up, and what is left of it is told. -/
example :
    (serve DoubleBuffer.step .empty
        [.push 'a', .push 'b', .push 'c', .take 2, .push 'd', .take 9, .takeOne, .take 1]).1 =
      [.pushed, .pushed, .pushed, .taken ⟨['a', 'b'], 1⟩, .pushed, .taken ⟨['c'], 0⟩,
        .one (some 'd'), .taken ⟨[], 0⟩] :=
  rfl

end Fifo

end ActorSystem
