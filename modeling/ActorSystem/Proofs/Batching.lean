import ActorSystem.Proofs.Loops
import ActorSystem.Proofs.Matching

set_option autoImplicit false

namespace ActorSystem

variable {κ : Type}

namespace System

variable {code : κ → Invocation → Prog κ Unit} {s s' t : System κ} {r : ActorRef} {a : Actor κ}

def topUp (s : System κ) (r : ActorRef) : System κ :=
  if s.ask r false fun a => !a.dormant && a.batch.isEmpty then (s.takeBatch r).2 else s

def serve (code : κ → Invocation → Prog κ Unit) (r : ActorRef) (s : System κ) : System κ :=
  dispatchNext code r (s.topUp r)

def serveMany (code : κ → Invocation → Prog κ Unit) (r : ActorRef) : Nat → System κ → System κ
  | 0, s => s
  | n + 1, s => serveMany code r n (serve code r s)

def serveDeeds (code : κ → Invocation → Prog κ Unit) (r : ActorRef) :
    Nat → System κ → List (Deed κ)
  | 0, _ => []
  | n + 1, s => nextDeeds code r (s.topUp r) ++ serveDeeds code r n (serve code r s)

theorem serveMany_add (n m : Nat) (s : System κ) :
    serveMany code r (n + m) s = serveMany code r m (serveMany code r n s) := by
  induction n generalizing s with
  | zero => rw [Nat.zero_add]; rfl
  | succ n ih =>
    rw [Nat.succ_add]
    exact ih (serve code r s)

theorem serveDeeds_add (n m : Nat) (s : System κ) :
    serveDeeds code r (n + m) s =
      serveDeeds code r n s ++ serveDeeds code r m (serveMany code r n s) := by
  induction n generalizing s with
  | zero => rw [Nat.zero_add]; rfl
  | succ n ih =>
    rw [Nat.succ_add, serveDeeds, serveDeeds, List.append_assoc, ih (serve code r s)]
    rfl

theorem topUp_taking (ha : s.actor? r = some a) (hd : a.dormant = false) (hb : a.batch = []) :
    s.topUp r = (s.takeBatch r).2 := by
  simp [topUp, ask_eq ha, hd, hb]

theorem topUp_same (ha : s.actor? r = some a) (hb : a.dormant = true ∨ a.batch ≠ []) :
    s.topUp r = s := by
  unfold topUp
  rw [ask_eq ha]
  rcases hb with hb | hb <;> simp [hb]

def taken (s : System κ) (a : Actor κ) : Actor κ :=
  { a with
    mailbox := (a.mailbox.take s.config.batchSize).2
    batch := (a.mailbox.take s.config.batchSize).1.items }

theorem takeBatch_taken (ha : s.actor? r = some a) (hb : a.batch = []) :
    s.takeBatch r = ((s.taken a).batch.length, s.put r (s.taken a)) := by
  rw [takeBatch_eq ha]
  simp [taken, hb]

theorem taken_matches {b : Actor κ} (hab : a.Matches b) (hd : a.dormant = false)
    (hb : a.batch = []) : (s.taken a).Matches b := by
  have hqueue := a.mailbox.take_append_toList s.config.batchSize
  cases hab with
  | intro mailbox batch queue pending dormant timers =>
    refine .intro (a := s.taken a) mailbox batch ?_ ⟨?_, pending.2⟩ (fun hd' => ?_) timers
    · rw [queue, hb, ← hqueue]
      rfl
    · have hlength := congrArg List.length hqueue
      rw [List.length_append] at hlength
      simp only [taken, EventQueue.pending_take, pending.1]
      omega
    · have hd'' : a.dormant = true := hd'
      rw [hd] at hd''
      cases hd''

theorem topUp_matches (h : Matches s t) (r : ActorRef) :
    Matches (s.topUp r) t ∧ (s.topUp r).Topped r := by
  cases ha : s.actor? r with
  | none =>
    have hsame : s.topUp r = s := by simp [topUp, ask, ha]
    rw [hsame]
    exact ⟨h, fun a ha' => by rw [ha] at ha'; cases ha'⟩
  | some a =>
    obtain ⟨b, hb, hab⟩ := h.some ha
    by_cases hkeep : a.dormant = true ∨ a.batch ≠ []
    · rw [topUp_same ha hkeep]
      refine ⟨h, fun a' ha' hd hbatch => ?_⟩
      obtain rfl := Option.some.inj (ha.symm.trans ha')
      rcases hkeep with hd' | hne
      · rw [hd] at hd'
        cases hd'
      · exact absurd hbatch hne
    · obtain ⟨hd, hbatch⟩ : a.dormant = false ∧ a.batch = [] := by simpa using hkeep
      rw [topUp_taking ha hd hbatch, takeBatch_taken ha hbatch]
      have hput := h.put ha (taken_matches (s := s) hab hd hbatch)
      rw [put_self hb] at hput
      refine ⟨hput, fun a' ha' _ hnone => ?_⟩
      have hself : (s.put r (s.taken a)).actor? r = some (s.taken a) := by simp [actor?_put ha]
      obtain rfl := Option.some.inj (hself.symm.trans ha')
      have hsize := h.batchSize.1
      have hpending : 0 ≤ a.mailbox.pending := by
        cases hab with
        | intro mailbox batch queue pending dormant timers => omega
      have hall := a.mailbox.take_append_toList s.config.batchSize
      rcases EventQueue.take_nothing hnone with hneg | hzero | hnil
      · omega
      · omega
      · rw [hnil] at hall
        exact (List.append_eq_nil_iff.1 hall).2

/-- The first event of the queue is the same in both systems, and so is what becomes of it. -/
theorem serve_matches (h : Matches s t)
    (hplain : ∀ d ∈ nextDeeds code r (s.topUp r), d.Plain s.config.restartPolicy) :
    nextDeeds code r (s.topUp r) = nextDeeds code r (t.topUp r) ∧
      Matches (serve code r s) (serve code r t) := by
  obtain ⟨hs, htopped⟩ := topUp_matches h r
  obtain ⟨ht, htopped'⟩ := topUp_matches hs.symm r
  have hpolicy : (s.topUp r).config.restartPolicy = s.config.restartPolicy :=
    hs.policy.symm.trans h.policy
  exact dispatchNext_matches ht.symm htopped htopped' (hpolicy ▸ hplain)

theorem recover_keeps_batch (hp : s.config.restartPolicy = .requeueRemaining) (r : ActorRef) :
    Spares Actor.batch s (s.recover r) := by
  have hrestart : Spares Actor.batch s (s.update r fun a =>
      { a with phase := .restarting, restarts := a.restarts + 1, timers := a.timers.finish }) :=
    .update s r _ fun _ => rfl
  have hreset := hrestart.trans (reset_spares_of _ r fun _ _ => rfl)
  unfold recover
  dsimp only
  rw [hreset.config, hp]
  exact hreset.trans (.update _ r _ fun _ => rfl)

/-- A plain dispatch takes one event off the batch and leaves the rest alone. -/
theorem dispatchNext_keeps_batch {e : Event κ} {rest : List (Event κ)} (ha : s.actor? r = some a)
    (hb : a.batch = e :: rest)
    (hplain : ∀ d ∈ nextDeeds code r s, d.Plain s.config.restartPolicy) :
    Spares Actor.batch (s.put r { a with batch := rest }) (dispatchNext code r s) := by
  have hreceive : Spares Actor.batch (s.put r { a with batch := rest })
      ((s.put r { a with batch := rest }).receive r e).2 :=
    receive_spares _ r e fun a => congrArg Ledger.batch (a.react_ledger e [])
  rw [dispatchNext_cons code ha hb]
  simp only [nextDeeds, ha, hb] at hplain
  generalize (s.put r { a with batch := rest }).receive r e = p at hplain hreceive ⊢
  obtain ⟨w, s₁⟩ := p
  dsimp only at hplain hreceive ⊢
  obtain ⟨-, hpolicy⟩ := hplain _ (List.mem_singleton_self _)
  have hexec : Spares Actor.batch s₁ (exec r (w.prog code) s₁).2 :=
    (exec_spares r (w.prog code) s₁).coarsen Actor.batch
  refine (hreceive.trans hexec).trans ?_
  unfold afterEvent
  split
  · exact (reset_spares_of _ r fun _ _ => rfl).trans (.update _ r _ fun _ => rfl)
  · rename_i hfailed
    refine recover_keeps_batch ?_ r
    rw [(hreceive.trans hexec).config]
    exact hpolicy.resolve_right hfailed

theorem dispatchMany_serves (n : Nat) {s : System κ} {a : Actor κ} (ha : s.actor? r = some a)
    (hlength : a.batch.length = n)
    (hplain : (∀ d ∈ manyDeeds code r n s, d.Plain s.config.restartPolicy) ∨
      ∀ d ∈ serveDeeds code r n s, d.Plain s.config.restartPolicy) :
    dispatchMany code r n s = serveMany code r n s ∧
      manyDeeds code r n s = serveDeeds code r n s := by
  induction n generalizing s a with
  | zero => exact ⟨rfl, rfl⟩
  | succ n ih =>
    obtain ⟨e, rest, hb⟩ := List.exists_cons_of_length_eq_add_one hlength
    have hsame : s.topUp r = s := topUp_same ha (.inr (by simp [hb]))
    have hserve : serve code r s = dispatchNext code r s := by rw [serve, hsame]
    simp only [manyDeeds, serveDeeds, hsame] at hplain ⊢
    have hfirst : ∀ d ∈ nextDeeds code r s, d.Plain s.config.restartPolicy := by
      rcases hplain with hplain | hplain <;>
        exact fun d hd => hplain d (List.mem_append_left _ hd)
    have hnext := dispatchNext_keeps_batch ha hb hfirst
    obtain ⟨a', ha', hbatch⟩ := hnext.some (r := r) (a := { a with batch := rest }) (by
      simp [actor?_put ha])
    have hconfig : (dispatchNext code r s).config = s.config := hnext.config
    have hrest := ih ha' (by rw [hbatch]; simpa [hb] using hlength) (by
      rw [hconfig]
      rcases hplain with hplain | hplain
      · exact .inl fun d hd => hplain d (List.mem_append_right _ hd)
      · rw [hserve] at hplain
        exact .inr fun d hd => hplain d (List.mem_append_right _ hd))
    rw [hserve, dispatchMany, serveMany, hserve, hrest.1, hrest.2]
    exact ⟨rfl, rfl⟩

def Spent (s : System κ) (r : ActorRef) : Prop :=
  ∃ a, s.actor? r = some a ∧ a.batch = [] ∧ a.mailbox.toList = []

theorem taken_of_nil (hb : a.batch = []) (hnil : a.mailbox.toList = []) : s.taken a = a := by
  obtain ⟨hitems, hrest⟩ := EventQueue.take_of_nil hnil s.config.batchSize
  unfold taken
  rw [hitems, hrest, ← hb]

theorem Spent.serve (h : s.Spent r) (code : κ → Invocation → Prog κ Unit) :
    System.serve code r s = s ∧ nextDeeds code r (s.topUp r) = [] := by
  obtain ⟨a, ha, hb, hnil⟩ := h
  have hsame : s.topUp r = s := by
    cases hd : a.dormant with
    | true => exact topUp_same ha (.inl hd)
    | false => rw [topUp_taking ha hd hb, takeBatch_taken ha hb, taken_of_nil hb hnil, put_self ha]
  unfold System.serve
  rw [hsame]
  simp [dispatchNext, nextDeeds, ha, hb]

theorem Spent.serveMany (h : s.Spent r) (code : κ → Invocation → Prog κ Unit) (n : Nat) :
    System.serveMany code r n s = s ∧ serveDeeds code r n s = [] := by
  obtain ⟨hserve, hdeeds⟩ := h.serve code
  induction n with
  | zero => exact ⟨rfl, rfl⟩
  | succ n ih =>
    rw [System.serveMany, serveDeeds, hserve, hdeeds]
    exact ih

/-- However far a queue is served behind its end, the outcome is one. -/
theorem serveMany_end {n m : Nat} (hn : (serveMany code r n s).Spent r)
    (hm : (serveMany code r m s).Spent r) :
    serveMany code r m s = serveMany code r n s ∧ serveDeeds code r m s = serveDeeds code r n s := by
  obtain ⟨hstate, hdeeds⟩ := hn.serveMany code m
  obtain ⟨hstate', hdeeds'⟩ := hm.serveMany code n
  have hstates : serveMany code r (n + m) s = serveMany code r m (serveMany code r n s) :=
    serveMany_add n m s
  have hlogs : serveDeeds code r (n + m) s =
      serveDeeds code r n s ++ serveDeeds code r m (serveMany code r n s) := serveDeeds_add n m s
  rw [hstate] at hstates
  rw [hdeeds, List.append_nil] at hlogs
  rw [Nat.add_comm, serveMany_add, hstate'] at hstates
  rw [Nat.add_comm, serveDeeds_add, hdeeds', List.append_nil] at hlogs
  exact ⟨hstates, hlogs⟩

def ServesPlainly (code : κ → Invocation → Prog κ Unit) (r : ActorRef) (s : System κ) : Prop :=
  ∀ n, ∀ d ∈ serveDeeds code r n s, d.Plain s.config.restartPolicy

theorem topUp_config (s : System κ) (r : ActorRef) : (s.topUp r).config = s.config := by
  unfold topUp
  split
  · exact (takeBatch_spares s r).config
  · rfl

theorem dispatchNext_config (code : κ → Invocation → Prog κ Unit) (r : ActorRef) (s : System κ) :
    (dispatchNext code r s).config = s.config := by
  cases ha : s.actor? r with
  | none => simp [dispatchNext, ha]
  | some a =>
    cases hb : a.batch with
    | nil => simp [dispatchNext, ha, hb]
    | cons e rest =>
      have hreceive : Spares (fun _ => ()) (s.put r { a with batch := rest })
          ((s.put r { a with batch := rest }).receive r e).2 := receive_spares _ r e fun _ => rfl
      rw [dispatchNext_cons code ha hb]
      generalize (s.put r { a with batch := rest }).receive r e = p at hreceive ⊢
      obtain ⟨w, s₁⟩ := p
      dsimp only at hreceive ⊢
      have hexec := (exec_spares r (w.prog code) s₁).config.trans hreceive.config
      unfold afterEvent
      split
      · exact (reset_spares _ r).config.trans hexec
      · exact (recover_spares _ r).config.trans hexec

theorem dispatchMany_config (code : κ → Invocation → Prog κ Unit) (r : ActorRef) (n : Nat)
    (s : System κ) : (dispatchMany code r n s).config = s.config := by
  induction n generalizing s with
  | zero => rfl
  | succ n ih => exact (ih _).trans (dispatchNext_config code r s)

theorem serveMany_config (code : κ → Invocation → Prog κ Unit) (r : ActorRef) (n : Nat)
    (s : System κ) : (serveMany code r n s).config = s.config := by
  induction n generalizing s with
  | zero => rfl
  | succ n ih =>
    exact (ih (serve code r s)).trans ((dispatchNext_config code r _).trans (topUp_config s r))

theorem ServesPlainly.later (h : ServesPlainly code r s) (n : Nat) :
    ServesPlainly code r (serveMany code r n s) := by
  intro m d hd
  rw [serveMany_config]
  exact h (n + m) d (by rw [serveDeeds_add]; exact List.mem_append_right _ hd)

theorem serveMany_matches (n : Nat) (h : Matches s t)
    (hplain : ∀ d ∈ serveDeeds code r n s, d.Plain s.config.restartPolicy) :
    serveDeeds code r n s = serveDeeds code r n t ∧
      Matches (serveMany code r n s) (serveMany code r n t) := by
  induction n generalizing s t with
  | zero => exact ⟨rfl, h⟩
  | succ n ih =>
    obtain ⟨hdeeds, hserve⟩ := serve_matches h fun d hd => hplain d (List.mem_append_left _ hd)
    have hconfig : (serve code r s).config = s.config := serveMany_config code r 1 s
    obtain ⟨hrest, hmany⟩ := ih hserve fun d hd => by
      rw [hconfig]
      exact hplain d (List.mem_append_right _ hd)
    rw [serveDeeds, serveDeeds, hdeeds, hrest]
    exact ⟨rfl, hmany⟩

theorem Spent.of_matches (hs : s.Spent r) (h : Matches s t) : t.Spent r := by
  obtain ⟨a, ha, hbatch, hnil⟩ := hs
  obtain ⟨b, hb, hab⟩ := h.some ha
  have hqueue := hab.queue_eq
  rw [hbatch, hnil] at hqueue
  obtain ⟨hbatch', hnil'⟩ := List.append_eq_nil_iff.1 hqueue
  exact ⟨b, hb, hbatch', hnil'⟩

structure Ready (s : System κ) (r : ActorRef) : Prop where
  matches_self : Matches s s
  quiet : s.Quiet
  alive : s.Alive r

theorem Ready.actor (h : s.Ready r) :
    ∃ a, s.actor? r = some a ∧ a.dormant = false ∧ a.batch = [] ∧
      a.mailbox.pending = a.mailbox.toList.length ∧ a.timers.Idle := by
  obtain ⟨a, ha, halive, hb, -⟩ := idle_of_quiet h.quiet h.alive
  obtain ⟨b, -, hab⟩ := h.matches_self.some ha
  refine ⟨a, ha, (Ledger.alive_elim halive).1, hb, ?_⟩
  cases hab with
  | intro mailbox batch queue pending dormant timers => exact ⟨pending.1, timers⟩

theorem processBatch_taken (code : κ → Invocation → Prog κ Unit) (ha : s.actor? r = some a)
    (hb : a.batch = []) :
    processBatch code r s =
        ((s.taken a).batch.length,
          dispatchMany code r (s.taken a).batch.length (s.put r (s.taken a))) ∧
      batchDeeds code r s =
        manyDeeds code r (s.taken a).batch.length (s.put r (s.taken a)) := by
  have hself : (s.put r (s.taken a)).actor? r = some (s.taken a) := by simp [actor?_put ha]
  rw [processBatch, batchDeeds, takeBatch_taken ha hb]
  dsimp only
  rw [ask_eq hself]
  exact ⟨rfl, rfl⟩

theorem Ready.taken_nothing_iff (h : s.Ready r) (ha : s.actor? r = some a) :
    (s.taken a).batch.length = 0 ↔ s.Spent r := by
  obtain ⟨a', ha', -, hb, hpending, -⟩ := h.actor
  obtain rfl := Option.some.inj (ha.symm.trans ha')
  constructor
  · intro hzero
    have hsize := h.matches_self.batchSize.1
    refine ⟨a, ha, hb, ?_⟩
    rcases EventQueue.take_nothing (List.length_eq_zero_iff.1 hzero) with hneg | hnone | hnil
    · omega
    · omega
    · exact hnil
  · rintro ⟨a'', ha'', -, hnil⟩
    obtain rfl := Option.some.inj (ha.symm.trans ha'')
    rw [taken_of_nil hb hnil, hb]
    rfl

/-- A batch serves the queue, and it takes nothing only if there is nothing. -/
theorem Ready.processBatch_serves (h : s.Ready r)
    (hplain : (∀ d ∈ batchDeeds code r s, d.Plain s.config.restartPolicy) ∨ ServesPlainly code r s) :
    (processBatch code r s).2 = serveMany code r (processBatch code r s).1 s ∧
      batchDeeds code r s = serveDeeds code r (processBatch code r s).1 s ∧
      ((processBatch code r s).1 = 0 ↔ s.Spent r) := by
  obtain ⟨a, ha, hd, hb, -⟩ := h.actor
  have hself : (s.put r (s.taken a)).actor? r = some (s.taken a) := by simp [actor?_put ha]
  obtain ⟨hprocess, hdeeds⟩ := processBatch_taken code ha hb
  have hspent := h.taken_nothing_iff ha
  rw [hdeeds] at hplain ⊢
  rw [hprocess]
  generalize hn : (s.taken a).batch.length = n at hplain hspent ⊢
  dsimp only
  cases n with
  | zero =>
    obtain ⟨a', ha', -, hnil⟩ := hspent.1 rfl
    obtain rfl := Option.some.inj (ha.symm.trans ha')
    refine ⟨?_, rfl, hspent⟩
    rw [taken_of_nil hb hnil, put_self ha]
    rfl
  | succ n =>
    -- With a batch in it, the actor is served as it is when it still has to look for one.
    have htop : s.topUp r = s.put r (s.taken a) := by rw [topUp_taking ha hd hb, takeBatch_taken ha hb]
    have hsame : (s.put r (s.taken a)).topUp r = s.put r (s.taken a) :=
      topUp_same hself (.inr fun hnil => by simp [hnil] at hn)
    have hmany : ∀ k, serveMany code r (k + 1) s = serveMany code r (k + 1) (s.put r (s.taken a)) := by
      intro k
      simp only [serveMany, serve, htop, hsame]
    have hserve : ∀ k, serveDeeds code r (k + 1) s =
        serveDeeds code r (k + 1) (s.put r (s.taken a)) := by
      intro k
      simp only [serveDeeds, serve, htop, hsame]
    rw [hmany, hserve]
    have hplain' : (∀ d ∈ manyDeeds code r (n + 1) (s.put r (s.taken a)),
          d.Plain s.config.restartPolicy) ∨
        ∀ d ∈ serveDeeds code r (n + 1) (s.put r (s.taken a)), d.Plain s.config.restartPolicy :=
      hplain.imp_right fun hplain => hserve n ▸ hplain (n + 1)
    obtain ⟨hstate, hlog⟩ := dispatchMany_serves (n + 1) hself hn hplain'
    exact ⟨hstate, hlog, hspent⟩

theorem Ready.processBatch (h : s.Ready r)
    (hplain : (∀ d ∈ batchDeeds code r s, d.Plain s.config.restartPolicy) ∨ ServesPlainly code r s) :
    (System.processBatch code r s).2.Ready r := by
  obtain ⟨hstate, hdeeds, -⟩ := h.processBatch_serves hplain
  obtain ⟨-, hs⟩ : Keeps code s (System.processBatch code r s).2 :=
    processBatch_follows s h.quiet h.alive
  refine ⟨?_, hs.quiet h.quiet, hs.alive h.alive⟩
  rw [hstate]
  refine (serveMany_matches _ h.matches_self ?_).2
  rcases hplain with hplain | hplain
  · exact hdeeds ▸ hplain
  · exact hplain _

theorem Ready.fireTimers (h : s.Ready r) (code : κ → Invocation → Prog κ Unit) (max : Nat) :
    System.fireTimers code r max s = (0, s) ∧ timerDeeds code r max s = [] := by
  obtain ⟨a, ha, -, -, -, hidle⟩ := h.actor
  cases max with
  | zero => exact ⟨rfl, rfl⟩
  | succ max =>
    have hexpire : a.expire s.clock.now = (none, a) := by
      simp only [Actor.expire, hidle.poll]
    simp only [System.fireTimers, timerDeeds, fireDeeds, fireNext, expire, atActor_eq ha, hexpire,
      put_self ha]
    exact ⟨trivial, rfl⟩

theorem Ready.pause (h : s.Ready r) (hs : s.Spent r) : s.pause r = (false, s.announced r) := by
  obtain ⟨a, ha, -, -, hpending, hidle⟩ := h.actor
  obtain ⟨a', ha', -, hnil⟩ := hs
  obtain rfl := Option.some.inj (ha.symm.trans ha')
  have hwake : a.timers.nextWake s.clock.now ≠ some 0 := by simp [hidle.nextWake]
  have hready : a.mailbox.announce.1 = true := by
    rw [hnil] at hpending
    simp [EventQueue.announce, hpending]
  rw [pause_eq ha, if_neg hwake, hready]
  rfl

def conclude (s : System κ) (r : ActorRef) : System κ :=
  if s.ask r true Actor.closing then s.dismantle r else s.announced r

theorem drain_serves (n : Nat) {s : System κ} (h : s.Ready r) {l : Ledger κ}
    (hl : s.ledger r = some l) (hc : l.closing = true) (hn : l.inbox.length < n)
    (hplain : (∀ d ∈ drainDeeds code r n s, d.Plain s.config.restartPolicy) ∨
      ServesPlainly code r s) :
    ∃ m, drain code r n s = serveMany code r m s ∧ drainDeeds code r n s = serveDeeds code r m s ∧
      (drain code r n s).Spent r := by
  induction n generalizing s l with
  | zero => exact absurd hn (Nat.not_lt_zero _)
  | succ n ih =>
    have hbatch : (∀ d ∈ batchDeeds code r s, d.Plain s.config.restartPolicy) ∨
        ServesPlainly code r s :=
      hplain.imp_left fun hplain d hd => hplain d (List.mem_append_left _ hd)
    obtain ⟨hstate, hdeeds, hspent⟩ := h.processBatch_serves hbatch
    have hready := h.processBatch hbatch
    obtain ⟨-, hs, hless⟩ := processBatch_takes code s h.quiet h.alive
    obtain ⟨l', hl', hle⟩ := hless l hl hc
    unfold drain
    unfold drainDeeds at hplain ⊢
    generalize hp : System.processBatch code r s = p at hstate hdeeds hspent hready hs hl' hle hplain ⊢
    obtain ⟨taken, s₁⟩ := p
    dsimp only at hstate hdeeds hspent hready hs hl' hle
    cases taken with
    | zero =>
      refine ⟨0, hstate, by simp [hdeeds, serveDeeds], ?_⟩
      rw [hstate]
      exact hspent.1 rfl
    | succ taken =>
      obtain ⟨l₁, hl₁, hshrinks⟩ := hs.some hl
      obtain rfl : l₁ = l' := Option.some.inj (hl₁.symm.trans hl')
      have hconfig : s₁.config = s.config := by rw [hstate, serveMany_config]
      obtain ⟨m, hrest, hlog, hend⟩ := ih hready hl' (hshrinks.closing hc).1 (by omega) (by
        rcases hplain with hplain | hplain
        · left
          rw [hconfig]
          exact fun d hd => hplain d (List.mem_append_right _ hd)
        · right
          rw [hstate]
          exact hplain.later _)
      refine ⟨taken + 1 + m, ?_, ?_, hend⟩
      · rw [serveMany_add, ← hstate]
        exact hrest
      · rw [serveDeeds_add, ← hstate, ← hdeeds]
        exact congrArg _ hlog

theorem shutdown_serves (h : s.Ready r) (hc : s.ask r true Actor.closing = true)
    (hplain : (∀ d ∈ shutdownDeeds code r s, d.Plain s.config.restartPolicy) ∨
      ServesPlainly code r s) :
    ∃ m, shutdown code r s = conclude (serveMany code r m s) r ∧
      shutdownDeeds code r s = serveDeeds code r m s ∧ (serveMany code r m s).Spent r := by
  obtain ⟨a, ha, -⟩ := h.actor
  have hl := ledger_intro ha
  have hclosing : a.ledger.closing = true := by rwa [ask_eq ha] at hc
  unfold shutdown
  unfold shutdownDeeds at hplain ⊢
  rw [ask_eq ha] at hplain ⊢
  obtain ⟨m, hstate, hdeeds, hspent⟩ :=
    drain_serves (a.mailbox.toList.length + 1) h hl hclosing (Nat.lt_succ_self _) hplain
  refine ⟨m, ?_, hdeeds, hstate ▸ hspent⟩
  obtain ⟨-, hs, -⟩ := drain_follows code (a.mailbox.toList.length + 1) s h.quiet h.alive hl hclosing
    (Nat.lt_succ_self _)
  obtain ⟨l', hl', hshrinks⟩ := hs.some hl
  obtain ⟨a', ha', rfl⟩ := ledger_elim hl'
  have hclosing' : (drain code r (a.mailbox.toList.length + 1) s).ask r true Actor.closing = true := by
    rw [ask_eq ha']
    exact (hshrinks.closing hclosing).1
  rw [← hstate, conclude, if_pos hclosing']

theorem Ready.round_serves (h : s.Ready r)
    (hplain : (∀ d ∈ roundDeeds code r s, d.Plain s.config.restartPolicy) ∨ ServesPlainly code r s) :
    ∃ n, roundDeeds code r s = serveDeeds code r n s ∧
      (round code r s = (true, serveMany code r n s) ∧ 0 < n ∧ ¬s.Spent r ∧
          (serveMany code r n s).Ready r ∨
        round code r s = (false, conclude (serveMany code r n s) r) ∧
          (serveMany code r n s).Spent r) := by
  have hbatch : (∀ d ∈ batchDeeds code r s, d.Plain s.config.restartPolicy) ∨
      ServesPlainly code r s :=
    hplain.imp_left fun hplain d hd =>
      hplain d (List.mem_append_left _ (List.mem_append_left _ hd))
  obtain ⟨hstate, hdeeds, hspent⟩ := h.processBatch_serves hbatch
  have hready := h.processBatch hbatch
  unfold round
  unfold roundDeeds at hplain ⊢
  generalize System.processBatch code r s = p at hstate hdeeds hspent hready hplain ⊢
  obtain ⟨taken, s₁⟩ := p
  dsimp only at hstate hdeeds hspent hready hplain ⊢
  obtain ⟨hfire, hnone⟩ := hready.fireTimers code s₁.config.maxTimers
  rw [hfire, hnone] at hplain
  rw [hfire, hnone, hdeeds]
  rw [List.append_nil] at hplain ⊢
  have hconfig : s₁.config = s.config := by rw [hstate, serveMany_config]
  cases hc : s₁.ask r true Actor.closing with
  | true =>
    simp only [hc, if_true] at hplain ⊢
    obtain ⟨m, hend, hlog, hspent'⟩ := shutdown_serves hready hc (by
      rcases hplain with hplain | hplain
      · left
        rw [hconfig]
        exact fun d hd => hplain d (List.mem_append_right _ hd)
      · right
        rw [hstate]
        exact hplain.later _)
    refine ⟨taken + m, ?_, .inr ⟨?_, ?_⟩⟩
    · rw [serveDeeds_add, ← hstate, hlog]
    · rw [serveMany_add, ← hstate, hend]
    · rw [serveMany_add, ← hstate]
      exact hspent'
  | false =>
    simp only [Bool.false_eq_true, if_false, List.append_nil]
    refine ⟨taken, rfl, ?_⟩
    cases taken with
    | zero =>
      have hsame : s₁ = s := hstate
      have hs : s₁.Spent r := hsame ▸ hspent.1 rfl
      rw [← hstate]
      refine .inr ⟨?_, hs⟩
      rw [hready.pause hs, conclude, hc]
      rfl
    | succ taken =>
      refine .inl ⟨?_, Nat.succ_pos _, ?_, hstate ▸ hready⟩
      · rw [← hstate]
        simp
      · exact fun hs => absurd (hspent.2 hs) (Nat.succ_ne_zero _)

theorem Ready.rounds_serve (limit : Nat) (h : s.Ready r)
    (hend : rounds code r limit s = some s')
    (hplain : (∀ d ∈ roundsDeeds code r limit s, d.Plain s.config.restartPolicy) ∨
      ServesPlainly code r s) :
    ∃ n, roundsDeeds code r limit s = serveDeeds code r n s ∧
      s' = conclude (serveMany code r n s) r ∧ (serveMany code r n s).Spent r := by
  induction limit generalizing s with
  | zero => cases hend
  | succ limit ih =>
    obtain ⟨n, hdeeds, hcase⟩ := h.round_serves
      (hplain.imp_left fun hplain d hd => hplain d (List.mem_append_left _ hd))
    unfold rounds at hend
    unfold roundsDeeds at hplain ⊢
    rw [hdeeds] at hplain ⊢
    rcases hcase with ⟨hround, -, -, hready⟩ | ⟨hround, hspent⟩
    · rw [hround] at hend hplain ⊢
      dsimp only at hend hplain ⊢
      obtain ⟨m, hlog, hstate, hspent⟩ := ih hready hend (by
        rcases hplain with hplain | hplain
        · left
          rw [serveMany_config]
          exact fun d hd => hplain d (List.mem_append_right _ hd)
        · exact .inr (hplain.later n))
      refine ⟨n + m, ?_, ?_, ?_⟩
      · rw [serveDeeds_add, hlog]
      · rw [serveMany_add, hstate]
      · rw [serveMany_add]
        exact hspent
    · rw [hround] at hend ⊢
      exact ⟨n, List.append_nil _, (Option.some.inj hend).symm, hspent⟩

theorem Ready.rounds_end (limit : Nat) {n : Nat} (h : s.Ready r) (hplain : ServesPlainly code r s)
    (hspent : (serveMany code r n s).Spent r) (hn : n < limit) :
    (rounds code r limit s).isSome = true := by
  induction limit generalizing s n with
  | zero => exact absurd hn (Nat.not_lt_zero _)
  | succ limit ih =>
    obtain ⟨m, -, hcase⟩ := h.round_serves (.inr hplain)
    unfold rounds
    rcases hcase with ⟨hround, hpos, hnot, hready⟩ | ⟨hround, -⟩
    · rw [hround]
      dsimp only
      have hn₀ : n ≠ 0 := by
        rintro rfl
        exact hnot hspent
      refine ih (n := n - m) hready (hplain.later m) ?_ (by omega)
      rw [← serveMany_add]
      by_cases hle : m ≤ n
      · rwa [Nat.add_sub_cancel' hle]
      · have hsplit : m + (n - m) = n + (m - n) := by omega
        rw [hsplit, serveMany_add, (hspent.serveMany code _).1]
        exact hspent
    · rw [hround]
      rfl

theorem wake_matches (h : Matches s t) (r : ActorRef) : Matches (s.wake r) (t.wake r) := by
  refine h.update r fun a b hab => ?_
  have htend := hab.tend (fun q => q.recv.2.rearm) (fun q => q.recv.2.toList_claim)
    fun q => q.recv.2.pending_claim
  exact htend.alike (fun a => { a with phase := .running }) (fun _ _ _ => rfl) id id

theorem announced_matches (h : Matches s t) (r : ActorRef) :
    Matches (s.announced r) (t.announced r) :=
  h.update r fun _ _ hab => hab.tend (fun q => q.announce.2) EventQueue.toList_announce
    EventQueue.pending_announce

theorem sleep_matches (h : Matches s t) (r : ActorRef) : Matches (s.sleep r) (t.sleep r) :=
  h.update r fun _ _ hab =>
    hab.alike (fun a => { a with stirred := false }) (fun _ _ _ => rfl) id id

theorem leave_matches (h : Matches s t) (r : ActorRef) : Matches (s.leave r) (t.leave r) := by
  have htake := h.atActor r [] (f := fun a : Actor κ =>
      (a.kept.values ++ a.purses.flatMap fun p => p.2.values, { a with kept := .empty, purses := [] }))
    (g := fun a =>
      (a.kept.values ++ a.purses.flatMap fun p => p.2.values, { a with kept := .empty, purses := [] }))
    fun a b hab => ⟨by cases hab; rfl,
      hab.alike (fun a => { a with kept := .empty, purses := [] }) (fun _ _ _ => rfl) id id⟩
  unfold leave
  dsimp only
  rw [← htake.1]
  exact htake.2.giveUpAll _

theorem vacate_matches (h : Matches s t) (hs : s.Spent r) (ht : t.Spent r) :
    Matches (s.vacate r) (t.vacate r) := by
  obtain ⟨a, ha, hbatch, -⟩ := hs
  obtain ⟨b, hb, hbatch', -⟩ := ht
  have hempty := h.update r fun _ _ hab => hab.alike
    (fun a => { a with agents := .empty, components := .empty, managers := .empty })
    (fun _ _ _ => rfl) id id
  have hmarked := hempty.update r fun _ _ hab =>
    hab.alike (fun a => { a with phase := .closed }) (fun _ _ _ => rfl) id id
  have hleft : Turns s _ r _ [] := .update ha fun a =>
    { a with agents := .empty, components := .empty, managers := .empty }
  have hright : Turns t _ r _ [] := .update hb fun a =>
    { a with agents := .empty, components := .empty, managers := .empty }
  have hgone := discard_matches hmarked
    (Turns.update hleft.actor?_self fun a => { a with phase := .closed }).actor?_self
    (Turns.update hright.actor?_self fun a => { a with phase := .closed }).actor?_self hbatch hbatch'
  exact leave_matches hgone r

theorem dismantle_matches (h : Matches s t) (hs : s.Spent r) (ht : t.Spent r) :
    Matches (s.dismantle r) (t.dismantle r) := by
  obtain ⟨a, ha, hspent⟩ := hs
  obtain ⟨b, hb, hspent'⟩ := ht
  obtain ⟨b₁, hb₁, hab⟩ := h.some ha
  obtain rfl := Option.some.inj (hb.symm.trans hb₁)
  have hfarewell : farewell b.components.values b.agents.values =
      farewell a.components.values a.agents.values := by
    cases hab
    rfl
  have hjournal : Matches
      { s with journal := s.journal ++ (farewell a.components.values a.agents.values).toArray }
      { t with journal := t.journal ++ (farewell a.components.values a.agents.values).toArray } :=
    ⟨congrArg (fun u : System κ =>
      { u with journal := u.journal ++ (farewell a.components.values a.agents.values).toArray }) h.shell,
      h.size, h.actors, h.batchSize⟩
  rw [dismantle_eq ha, dismantle_eq hb, hfarewell]
  exact vacate_matches hjournal ⟨a, ha, hspent⟩ ⟨b, hb, hspent'⟩

theorem conclude_matches (h : Matches s t) (hs : s.Spent r) (ht : t.Spent r) :
    Matches (s.conclude r) (t.conclude r) := by
  have hclosing : s.ask r true Actor.closing = t.ask r true Actor.closing := by
    refine h.ask r true fun a b hab => ?_
    cases hab
    rfl
  unfold conclude
  rw [← hclosing]
  split
  · exact dismantle_matches h hs ht
  · exact announced_matches h r

theorem conclude_config (s : System κ) (r : ActorRef) : (s.conclude r).config = s.config := by
  unfold conclude
  split
  · cases ha : s.actor? r with
    | none => rw [dismantle_absent ha]
    | some a =>
      rw [dismantle_eq ha]
      exact (vacate_spares _ r).config
  · rfl

structure Rests (s t : System κ) : Prop where
  matching : Matches s t
  quiet : s.Quiet ∧ t.Quiet

theorem Matches.alive (h : Matches s t) (ha : s.Alive r) : t.Alive r := by
  obtain ⟨l, hl, halive⟩ := ha
  obtain ⟨a, ha, rfl⟩ := ledger_elim hl
  obtain ⟨b, hb, hab⟩ := h.some ha
  refine ⟨b.ledger, ledger_intro hb, ?_⟩
  cases hab
  exact halive

/-- This is all that can come out, and with limits that are large enough it does. -/
structure Comes (f : Nat → Option (List (Deed κ) × System κ)) (deeds : List (Deed κ)) (t : System κ) :
    Prop where
  only : ∀ limit x, f limit = some x → x = (deeds, t)
  ends : ∃ least, ∀ limit, least ≤ limit → (f limit).isSome = true

/-- The one system has got to `s'`, and the other, with limits that are large enough, gets to where
it matches, by the same deeds. -/
structure Agrees (s s' : System κ) (deeds : List (Deed κ))
    (other : Nat → Option (List (Deed κ) × System κ)) : Prop where
  config : s'.config = s.config
  comes : ∃ t', Rests s' t' ∧ Comes other deeds t'

theorem turn_comes (h : Rests s t) (halive : s.Alive r) (limit : Nat)
    (hend : s.turn code limit r = some s')
    (hplain : ∀ d ∈ turnDeeds code limit r s, d.Plain s.config.restartPolicy) :
    Agrees s s' (turnDeeds code limit r s)
      (fun limit => (t.turn code limit r).map fun t' => (turnDeeds code limit r t, t')) := by
  obtain ⟨s₁, hrounds, rfl⟩ := Option.map_eq_some_iff.1 hend
  have hwake := wake_matches h.matching r
  have halive' := h.matching.alive halive
  obtain ⟨-, hs⟩ : Keeps code s (s.wake r) := wake_follows s h.quiet.1 halive
  obtain ⟨-, ht⟩ : Keeps code t (t.wake r) := wake_follows t h.quiet.2 halive'
  have hready : (s.wake r).Ready r := ⟨hwake.left, hs.quiet h.quiet.1, hs.alive halive⟩
  have hready' : (t.wake r).Ready r := ⟨hwake.symm.left, ht.quiet h.quiet.2, ht.alive halive'⟩
  obtain ⟨n, hdeeds, rfl, hspent⟩ := hready.rounds_serve limit hrounds (.inl hplain)
  have hdeeds' : turnDeeds code limit r s = serveDeeds code r n (s.wake r) := hdeeds
  rw [hdeeds'] at hplain ⊢
  obtain ⟨hsame, hmany⟩ := serveMany_matches n hwake hplain
  have hspent' := hspent.of_matches hmany
  -- Both queues are served by the same deeds, and those of the one are plain to its end.
  have hplain' : ServesPlainly code r (t.wake r) := by
    have hpolicy : (t.wake r).config.restartPolicy = s.config.restartPolicy := hwake.policy
    intro m d hd
    rw [hpolicy]
    refine hplain d ?_
    rw [hsame]
    by_cases hle : m ≤ n
    · rw [← Nat.add_sub_cancel' hle, serveDeeds_add]
      exact List.mem_append_left _ hd
    · obtain ⟨k, rfl⟩ := Nat.exists_eq_add_of_le (Nat.le_of_not_le hle)
      rwa [serveDeeds_add, (hspent'.serveMany code k).2, List.append_nil] at hd
  have hends : ∀ limit', n < limit' → (t.turn code limit' r).isSome = true := fun limit' hlimit => by
    rw [System.turn, Option.isSome_map]
    exact hready'.rounds_end limit' hplain' hspent' hlimit
  have honly : ∀ limit' t', t.turn code limit' r = some t' →
      t' = (conclude (serveMany code r n (t.wake r)) r).sleep r ∧
        turnDeeds code limit' r t = serveDeeds code r n (s.wake r) := by
    intro limit' t' hturn
    obtain ⟨t₁, ht₁, rfl⟩ := Option.map_eq_some_iff.1 hturn
    obtain ⟨m, hlog, rfl, hm⟩ := hready'.rounds_serve limit' ht₁ (.inr hplain')
    obtain ⟨hstate, hdeeds₁⟩ := serveMany_end hspent' hm
    exact ⟨by rw [hstate], hlog.trans (hdeeds₁.trans hsame.symm)⟩
  refine ⟨(conclude_config _ r).trans (serveMany_config code r n _),
    (conclude (serveMany code r n (t.wake r)) r).sleep r, ⟨?_, ?_, ?_⟩, ⟨?_, n + 1, ?_⟩⟩
  · exact sleep_matches (conclude_matches hmany hspent hspent') r
  · exact (turn_leads limit s halive hend h.quiet.1).2
  · obtain ⟨t', hturn⟩ := Option.isSome_iff_exists.1 (hends (n + 1) (Nat.lt_succ_self n))
    have hq := (turn_leads (n + 1) t halive' hturn h.quiet.2).2
    rwa [(honly (n + 1) t' hturn).1] at hq
  · rintro limit' x hx
    obtain ⟨t', hturn, rfl⟩ := Option.map_eq_some_iff.1 hx
    rw [(honly limit' t' hturn).1, (honly limit' _ hturn).2]
  · intro limit' hlimit
    rw [Option.isSome_map]
    exact hends limit' hlimit

end System

end ActorSystem
