import ActorSystem.Proofs.Traffic
import Mathlib.Algebra.GroupWithZero.Nat
import Mathlib.Tactic.Simps.Basic

/-!
The ways of events and of replies. A ledger is what they have to do with in one actor, and in the
threads that are at work at it. An effect is what an operation can have on a ledger, a change what the
actor itself can do; both come with what is written down, and with the calls that are settled. The
books are the ledgers of all actors, the calls, and the replies that are on no ledger.
-/

set_option autoImplicit false

namespace ActorSystem

def CallState.isWaiting : CallState → Bool
  | waiting => true
  | _ => false

def CallState.isServed : CallState → Bool
  | answered _ => true
  | dropped => true
  | _ => false

def Call.settle (state : CallState) (call : Call) : Call :=
  if call.state.isWaiting then { call with state } else call

def settleAll (calls : Array Call) (xs : List (CallRef × CallState)) : Array Call :=
  xs.foldl (fun calls x => calls.modify x.1 (Call.settle x.2)) calls

def drops (cs : List CallRef) : List (CallRef × CallState) := cs.map fun c => (c, .dropped)

def Move.forgets? {κ : Type} : Move κ → Option (CallRef × CallState)
  | .expire c => some (c, .timedOut)
  | .abandon c => some (c, .abandoned)
  | _ => none

def callsOf {κ : Type} (es : List (Event κ)) : List CallRef := es.flatMap Event.calls

def Event.parcel {κ : Type} : Event κ → Replies
  | errand _ replies => replies
  | _ => .empty

namespace Leg

variable {κ : Type}

def calls : Leg κ → List CallRef
  | put e => e.calls
  | uncount _ es | shed _ es => callsOf es
  | _ => []

def boarding : Leg κ → List CallRef
  | put e => e.call?.toList
  | _ => []

def uncounted : Leg κ → Nat
  | count => 1
  | _ => 0

def lifted : Leg κ → Nat
  | uncount _ es => es.length
  | _ => 0

def clears : Leg κ → Bool
  | count | recheck | look _ | lift _ | uncount .. | shed .. => true
  | _ => false

def leaves : Leg κ → Bool
  | look own | lift own | uncount own _ | shed own _ => own
  | leave => true
  | _ => false

def sweeps : Leg κ → Bool
  | look _ | lift _ | uncount .. | shed .. | leave => true
  | _ => false

end Leg

structure Ledger (κ : Type) where
  dormant : Bool
  closing : Bool
  closed : Bool
  inbox : List (Event κ)
  pending : Int
  batch : List (Event κ)
  reply : Option CallRef
  hand : Replies
  kept : Replies
  purses : List (Timer.TimerId × Replies)
  restarts : Nat
  processed : Nat
  legs : List (Leg κ)

@[simps] def Actor.ledgerWith {κ : Type} (a : Actor κ) (legs : List (Leg κ)) : Ledger κ where
  dormant := a.dormant
  closing := a.closing
  closed := a.phase == .closed
  inbox := a.mailbox.toList
  pending := a.mailbox.pending
  batch := a.batch
  reply := a.dispatch.reply
  hand := a.dispatch.hand
  kept := a.kept
  purses := a.purses
  restarts := a.restarts
  processed := a.processed
  legs

def Actor.ledger {κ : Type} (a : Actor κ) : Ledger κ := a.ledgerWith []

def pursesOf (purses : List (Timer.TimerId × Replies)) : List CallRef :=
  purses.flatMap fun p => p.2.values

namespace Ledger

variable {κ : Type}

def new : Ledger κ := ⟨true, false, false, [], 0, [], none, .empty, .empty, [], 0, 0, []⟩

def refuses (l : Ledger κ) : Bool := l.closing || l.closed

def alive (l : Ledger κ) : Bool := !l.dormant && !l.closed

/-- A thread is about to close the actor, so that nobody runs it any more. -/
def halted (l : Ledger κ) : Bool := l.legs.any Leg.isFinal

def accept (l : Ledger κ) (e : Event κ) : Ledger κ :=
  { l with inbox := l.inbox ++ [e], pending := l.pending + 1 }

def board (l : Ledger κ) (leg : Leg κ) : Ledger κ := { l with legs := l.legs ++ [leg] }

def purse (l : Ledger κ) (id : Timer.TimerId) : Replies :=
  ((l.purses.find? fun p => p.1 == id).map Prod.snd).getD .empty

def stored (l : Ledger κ) : List CallRef :=
  callsOf l.inbox ++ callsOf l.batch ++ l.reply.toList ++ l.hand.values ++ l.kept.values ++
    pursesOf l.purses

/-- Every place in which the actor, or a thread that is at work at it, has the reply of a call. -/
def senders (l : Ledger κ) : List CallRef := l.stored ++ l.legs.flatMap Leg.calls

def boarding (l : Ledger κ) : List CallRef := l.legs.flatMap Leg.boarding

def uncounted (l : Ledger κ) : Nat := (l.legs.map Leg.uncounted).sum

def lifted (l : Ledger κ) : Nat := (l.legs.map Leg.lifted).sum

def TakesNothing (config : Config) (l : Ledger κ) : Prop :=
  l.pending < 0 ∨ config.batchSize = 0 ∨ l.inbox = []

/-- The events that a sweep throws away, and those that it leaves: none, unless more events have
been taken than were counted. -/
structure Swept (l : Ledger κ) (gone rest : List (Event κ)) : Prop where
  inbox : l.inbox = gone ++ rest
  rest : rest = [] ∨ l.pending - gone.length < 0
  outrun : l.pending < 0 → gone = []

def dropped (config : Config) (l : Ledger κ) : List (Event κ) :=
  match config.restartPolicy with
  | .dropBatch => l.batch
  | .requeueRemaining => []

def afterPanic (config : Config) (l : Ledger κ) : Ledger κ :=
  { l with
    closed := false, reply := none, hand := .empty, restarts := l.restarts + 1
    batch :=
      match config.restartPolicy with
      | .dropBatch => []
      | .requeueRemaining => l.batch }

/-- What holds of the ledger of an actor at every moment, whatever the code does. -/
structure Fit (config : Config) (mode : Mode κ) (l : Ledger κ) : Prop where
  pending : l.pending + l.uncounted = l.inbox.length + l.lifted
  reply : ∀ c, l.reply = some c → ∃ e, mode = .handling e ∧ e.call? = some c
  hand : mode = .ready → l.hand = .empty
  dormant : l.dormant = true → mode = .ready ∧ l.batch = [] ∧ l.kept = .empty ∧ l.purses = []
  closed : l.closed = true → mode = .ready ∧ l.batch = [] ∧ l.dormant = false
  cleared : l.closed = true → l.inbox = [] ∨ ∃ leg ∈ l.legs, leg.clears = true
  left : l.closed = true → l.kept = .empty ∧ l.purses = [] ∨ ∃ leg ∈ l.legs, leg.leaves = true
  halted : l.halted = true →
    mode = .ready ∧ l.batch = [] ∧ l.dormant = false ∧ l.closed = false ∧
      (l.kept = .empty ∧ l.purses = [] ∨ .mark true ∈ l.legs)
  single : l.legs.countP Leg.isFinal ≤ 1
  sweeps : ∀ leg ∈ l.legs, leg.sweeps = true → l.closed = true
  batch : l.batch.length ≤ config.batchSize
  handling : ∀ e, mode = .handling e → l.batch.length < config.batchSize
  firing : mode = .firing → l.batch = []

end Ledger

section

variable {κ : Type}

/-- What an operation can do to one actor. Replies come from threads that are no actor's, or from
other actors, and replies go there; some calls are settled. -/
inductive Effect (mode : Mode κ) (l : Ledger κ) : List CallRef → List (Happening κ) →
    List (CallRef × CallState) → List CallRef → Ledger κ → Prop where
  | accept (e : Event κ) (hcall : e.call? = none) (h : l.refuses = false) :
    Effect mode l e.calls [.accepted e] [] [] (l.accept e)
  | board (e : Event κ) (hcall : e.call? = none) (h : l.refuses = false) :
    Effect mode l e.calls [] [] [] (l.board (.put e))
  | start (h : l.dormant = true) : Effect mode l [] [] [] [] { l with dormant := false }
  | close (h : l.dormant = false) : Effect mode l [] [] [] [] { l with closing := true }
  | cancel (gone rest : List (Event κ)) (h : l.dormant = true) (hswept : l.Swept gone rest) :
    Effect mode l [] [.cancelled gone] (drops (callsOf gone)) []
      { l with
        dormant := false, closing := true, closed := true, inbox := rest
        pending := l.pending - gone.length }
  | claim (h : l.dormant = true) :
    Effect mode l [] [] [] [] ({ l with dormant := false }.board (.signal true))
  | warn (h : l.dormant = false) : Effect mode l [] [] [] [] (l.board (.signal false))
  | answer (c : CallRef) (vs : List Value) (h : l.reply = some c) :
    Effect mode l [] [.replied c vs] [(c, .answered vs)] [] { l with reply := none }
  | keep (c : CallRef) (slot : String) (h : l.reply = some c) :
    Effect mode l [] [] (drops (l.kept.get? slot).toList) []
      { l with reply := none, kept := (l.kept.erase slot).insert slot c }
  | answerKept (c : CallRef) (slot : String) (vs : List Value) (h : l.kept.get? slot = some c) :
    Effect mode l [] [.replied c vs] [(c, .answered vs)] [] { l with kept := l.kept.erase slot }
  | dropKept (slot : String) :
    Effect mode l [] [] (drops (l.kept.get? slot).toList) [] { l with kept := l.kept.erase slot }
  | unshelve (c : CallRef) (slot : String) (hmode : mode ≠ .ready) (h : l.kept.get? slot = some c) :
    Effect mode l [] [] (drops (l.hand.get? slot).toList) []
      { l with kept := l.kept.erase slot, hand := (l.hand.erase slot).insert slot c }
  | shelve (c : CallRef) (slot : String) (hmode : mode ≠ .ready) (h : l.hand.get? slot = some c) :
    Effect mode l [] [] (drops (l.kept.get? slot).toList) []
      { l with hand := l.hand.erase slot, kept := (l.kept.erase slot).insert slot c }
  | release (c : CallRef) (slot : String) (h : l.hand.get? slot = some c) :
    Effect mode l [] [] [] [c] { l with hand := l.hand.erase slot }
  | entrust (owned : List String) :
    Effect mode l [] [] [] (l.hand.only owned).values { l with hand := l.hand.without owned }
  | stow (id : Timer.TimerId) (owned : List String) (hmode : mode ≠ .ready) :
    Effect mode l [] [] [] []
      { l with hand := l.hand.without owned, purses := l.purses ++ [(id, l.hand.only owned)] }
  | tear (id : Timer.TimerId) :
    Effect mode l [] [] (drops (l.purse id).values) []
      { l with purses := l.purses.eraseP fun p => p.1 == id }

/-- A step of a thread that is at work at one actor: what is left of its work, what is written down,
the calls that are settled. -/
inductive Flies (l : Ledger κ) : Leg κ → Option (Leg κ) → List (Happening κ) →
    List (CallRef × CallState) → Ledger κ → Prop where
  | put (e : Event κ) :
    Flies l (.put e) (some .count) [.accepted e] [] { l with inbox := l.inbox ++ [e] }
  | count : Flies l .count (some .recheck) [] [] { l with pending := l.pending + 1 }
  | recheck : Flies l .recheck (if l.closed then some (.look false) else none) [] [] l
  | signal (unstarted : Bool) :
    Flies l (.signal unstarted) (if unstarted then some (.mark false) else none) [] []
      { l with closing := true }
  | mark (own : Bool) : Flies l (.mark own) (some (.look own)) [] [] { l with closed := true }
  | look (own : Bool) : Flies l (.look own) (some (.lift own)) [] [] l
  | outrun (own : Bool) (h : l.pending < 0) : Flies l (.look own) (Leg.rest own) [] [] l
  | lift (own : Bool) (es rest : List (Event κ)) (hinbox : l.inbox = es ++ rest) (hes : es ≠ []) :
    Flies l (.lift own) (some (.uncount own es)) [.discarded es] [] { l with inbox := rest }
  | void (own : Bool) (hinbox : l.inbox = []) : Flies l (.lift own) (Leg.rest own) [] [] l
  | uncount (own : Bool) (es : List (Event κ)) :
    Flies l (.uncount own es) (some (.shed own es)) [] [] { l with pending := l.pending - es.length }
  | shed (own : Bool) (es : List (Event κ)) :
    Flies l (.shed own es) (some (.look own)) [] (drops (callsOf es)) l
  | leave :
    Flies l .leave none [] (drops (l.kept.values ++ pursesOf l.purses))
      { l with kept := .empty, purses := [] }

/-- What an actor itself, or a thread that is at work at it, can do to its ledger. -/
inductive Change (config : Config) : Mode κ → Ledger κ → List (Happening κ) →
    List (CallRef × CallState) → Mode κ → Ledger κ → Prop where
  | take {l} (items inbox : List (Event κ)) (halive : l.alive = true) (hfree : l.halted = false)
      (hbatch : l.batch = []) (hinbox : l.inbox = items ++ inbox)
      (hsize : items.length ≤ config.batchSize) (hnone : items = [] → l.TakesNothing config) :
    Change config .ready l [] [] .ready
      { l with inbox, pending := l.pending - items.length, batch := items }
  | begin {l} (e : Event κ) (batch : List (Event κ)) (reply gone : Option CallRef)
      (hfree : l.halted = false) (hbatch : l.batch = e :: batch)
      (hcall : (reply.toList ++ gone.toList).Perm (l.reply.toList ++ e.call?.toList)) :
    Change config .ready l [] (drops gone.toList) (.handling e)
      { l with batch, reply, hand := e.parcel }
  | complete {l} (e : Event κ) :
    Change config (.handling e) l [.completed e] (drops (l.hand.values ++ l.reply.toList)) .ready
      { l with reply := none, hand := .empty, processed := l.processed + 1 }
  | panic {l} (e : Event κ) :
    Change config (.handling e) l [.panicked e (l.dropped config)]
      (drops (l.hand.values ++ l.reply.toList ++ callsOf (l.dropped config))) .ready
      (l.afterPanic config)
  | fire {l} (id : Timer.TimerId) (halive : l.alive = true) (hfree : l.halted = false)
      (hbatch : l.batch = []) :
    Change config .ready l [] [] .firing
      { l with purses := l.purses.eraseP fun p => p.1 == id, hand := l.purse id }
  | fired {l} :
    Change config .firing l [] (drops (l.hand.values ++ l.reply.toList)) .ready
      { l with reply := none, hand := .empty }
  | timerPanic {l} :
    Change config .firing l [.timerPanicked (l.dropped config)]
      (drops (l.hand.values ++ l.reply.toList ++ callsOf (l.dropped config))) .ready
      (l.afterPanic config)
  | dismantle {l} (gone rest : List (Event κ)) (halive : l.alive = true) (hfree : l.halted = false)
      (hbatch : l.batch = []) (hclosing : l.closing = true) (hnone : l.TakesNothing config)
      (hswept : l.Swept gone rest) :
    Change config .ready l [.ended gone]
      (drops (callsOf gone ++ (l.kept.values ++ pursesOf l.purses))) .ready
      { l with
        closed := true, kept := .empty, purses := [], inbox := rest
        pending := l.pending - gone.length }
  | retire {l} (halive : l.alive = true) (hfree : l.halted = false) (hbatch : l.batch = [])
      (hclosing : l.closing = true) (hnone : l.TakesNothing config) :
    Change config .ready l [.ended []] [] .ready (l.board (.mark true))
  | fly {mode l l' hs xs} (before : List (Leg κ)) (leg : Leg κ) (after : List (Leg κ))
      (next : Option (Leg κ)) (hlegs : l.legs = before ++ leg :: after)
      (h : Flies l leg next hs xs l') :
    Change config mode l hs xs mode { l' with legs := before ++ next.toList ++ after }

structure Books (κ : Type) where
  config : Config
  size : Nat
  ledger : ActorRef → Option (Ledger κ)
  mode : ActorRef → Mode κ
  abroad : List (ActorRef × CallRef)
  calls : Array Call

def System.ledger (s : System κ) (r : ActorRef) : Option (Ledger κ) :=
  (s.actor? r).map Actor.ledger

def System.books (s : System κ) (mode : ActorRef → Mode κ) (legs : ActorRef → List (Leg κ)) :
    Books κ :=
  ⟨s.config, s.actors.size, fun r => (s.actor? r).map fun a => a.ledgerWith (legs r), mode, s.abroad,
    s.calls⟩

def Machine.booksWith (m : Machine κ) (legs : ActorRef → List (Leg κ)) : Books κ :=
  m.system.books m.mode legs

def Machine.books (m : Machine κ) : Books κ := m.booksWith fun _ => []

def Traffic.books (t : Traffic κ) : Books κ := t.machine.booksWith t.legs

namespace Books

def gather (b : Books κ) (g : Ledger κ → List CallRef) : List CallRef :=
  (List.range b.size).flatMap fun r => ((b.ledger r).map g).getD []

def replies (b : Books κ) : List CallRef := b.abroad.map Prod.snd ++ b.gather Ledger.senders

def boarding (b : Books κ) : List CallRef := b.gather Ledger.boarding

structure Fit (b : Books κ) : Prop where
  ledger : ∀ r l, b.ledger r = some l → l.Fit b.config (b.mode r)
  absent : ∀ r, b.ledger r = none → b.mode r = .ready
  size : ∀ r, b.ledger r = none ↔ b.size ≤ r
  abroad : ∀ x ∈ b.abroad, x.1 < b.size

def act (b : Books κ) (r : ActorRef) (l : Ledger κ) (abroad : List (ActorRef × CallRef))
    (xs : List (CallRef × CallState)) : Books κ :=
  { b with
    ledger := Function.update b.ledger r (some l), abroad, calls := settleAll b.calls xs }

def change (b : Books κ) (r : ActorRef) (mode : Mode κ) (l : Ledger κ)
    (xs : List (CallRef × CallState)) : Books κ :=
  { b with
    ledger := Function.update b.ledger r (some l)
    mode := Function.update b.mode r mode
    calls := settleAll b.calls xs }

def call (b : Books κ) (r : ActorRef) (l : Ledger κ) (name : String) : Books κ :=
  { b with
    ledger := Function.update b.ledger r (some l), calls := b.calls.push ⟨name, .waiting⟩ }

inductive Deal : Books κ → History κ → Books κ → Prop where
  | shuffle {b} (abroad : List (ActorRef × CallRef)) (habroad : b.abroad.Perm abroad) :
    Deal b [] { b with abroad }
  | act {b l ins hs xs outs l'} (r : ActorRef) (taken abroad : List (ActorRef × CallRef))
      (hl : b.ledger r = some l) (h : Effect (b.mode r) l ins hs xs outs l')
      (habroad : (b.abroad ++ outs.map fun c => (r, c)).Perm (taken ++ abroad))
      (hins : taken.map Prod.snd = ins) :
    Deal b (hs.map fun x => (r, x)) (b.act r l' abroad xs)
  | waste {b} (x : ActorRef × CallRef) (abroad : List (ActorRef × CallRef))
      (habroad : b.abroad.Perm (x :: abroad)) :
    Deal b [] { b with abroad, calls := settleAll b.calls [(x.2, .dropped)] }
  | reply {b} (x : ActorRef × CallRef) (vs : List Value) (abroad : List (ActorRef × CallRef))
      (habroad : b.abroad.Perm (x :: abroad)) :
    Deal b [(x.1, .replied x.2 vs)] { b with abroad, calls := settleAll b.calls [(x.2, .answered vs)] }
  | both {b b' b'' h h'} (hb : Deal b h b') (hb' : Deal b' h' b'') : Deal b (h ++ h') b''

/-- What a move can do to the books; a caller may be told to forget its call. -/
inductive Step : Books κ → Option (CallRef × CallState) → History κ → Books κ → Prop where
  | deal {b b' h} (hd : Deal b h b') : Step b none h b'
  | forget {b} (c : CallRef) (state : CallState) (h : state.isServed = false) :
    Step b (some (c, state)) [] { b with calls := settleAll b.calls [(c, state)] }
  | spawn {b} :
    Step b none []
      { b with size := b.size + 1, ledger := Function.update b.ledger b.size (some .new) }
  | request {b l} (r : ActorRef) (name : String) (args : Args) (hl : b.ledger r = some l)
      (h : l.refuses = false) :
    Step b none [(r, .accepted (.awaitRpc ⟨none, name, args⟩ b.calls.size))]
      (b.call r (l.accept (.awaitRpc ⟨none, name, args⟩ b.calls.size)) name)
  | book {b l} (r : ActorRef) (name : String) (args : Args) (hl : b.ledger r = some l)
      (h : l.refuses = false) :
    Step b none []
      (b.call r (l.board (.put (.awaitRpc ⟨none, name, args⟩ b.calls.size))) name)
  | change {b l mode l' hs xs} (r : ActorRef) (hl : b.ledger r = some l)
      (h : Change b.config (b.mode r) l hs xs mode l') :
    Step b none (hs.map fun x => (r, x)) (b.change r mode l' xs)

theorem Deal.same (b : Books κ) : b.Deal [] b := .shuffle b.abroad (.refl _)

theorem Deal.config {b b' : Books κ} {h : History κ} (hd : b.Deal h b') : b'.config = b.config := by
  induction hd with
  | both _ _ ih ih' => exact ih'.trans ih
  | _ => rfl

theorem Deal.mode {b b' : Books κ} {h : History κ} (hd : b.Deal h b') : b'.mode = b.mode := by
  induction hd with
  | both _ _ ih ih' => exact ih'.trans ih
  | _ => rfl

theorem Step.config {b b' : Books κ} {forgets : Option (CallRef × CallState)} {h : History κ}
    (hs : b.Step forgets h b') : b'.config = b.config := by
  cases hs with
  | deal hd => exact hd.config
  | _ => rfl

end Books

end

end ActorSystem
