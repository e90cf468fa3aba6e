import ActorSystem.Proofs.Sightings

set_option autoImplicit false

namespace ActorSystem

variable {κ : Type} {D : Division κ}

def Division.Undisturbed (D : Division κ) (ds : List (Deed κ)) : Prop :=
  ∀ d ∈ ds, D.inside d.actor = false → ∀ x ∈ d.done, x.op.Harmless D

theorem Division.Undisturbed.append {ds ds' : List (Deed κ)} :
    D.Undisturbed (ds ++ ds') ↔ D.Undisturbed ds ∧ D.Undisturbed ds' := by
  simp only [Undisturbed, List.mem_append, or_imp, forall_and]

namespace System

variable {p q : Tally} {s s' t t' : System κ} {r : ActorRef} {limit limit' : Nat}
  {code code' : κ → Invocation → Prog κ Unit}

theorem passDeeds_turn {all : Bool} {rs : List ActorRef} (hturn : s.hasTurn all r = true)
    (hs : turn code limit r s = some s') :
    passDeeds code limit all (r :: rs) s =
      turnDeeds code limit r s ++ passDeeds code limit all rs s' := by
  simp only [passDeeds, hturn, if_true, hs, Option.map_some, Option.getD_some]

theorem pass_cons (code : κ → Invocation → Prog κ Unit) (limit : Nat) (all : Bool) (r : ActorRef)
    (rs : List ActorRef) (s : System κ) :
    pass (turn code limit) all (r :: rs) s =
      if s.hasTurn all r then (turn code limit r s).bind (pass (turn code limit) all rs)
      else pass (turn code limit) all rs s := rfl

def Astir (D : Division κ) (s : System κ) : Prop := ∃ r, D.inside r = true ∧ s.hasTurn false r = true

theorem Astir.restless (h : s.Astir D) : s.restless = true := by
  obtain ⟨r, -, hturn⟩ := h
  refine List.any_eq_true.2 ⟨r, ?_, by simpa [hasTurn] using hturn⟩
  refine List.mem_range.2 (Nat.lt_of_not_le fun hle => ?_)
  have hnone : s.actor? r = none := Array.getElem?_eq_none hle
  simp [hasTurn, ask, hnone] at hturn

namespace Twins

theorem hasTurn (h : Twins D p q s t) (hr : D.inside r = true) (all : Bool) :
    s.hasTurn all r = t.hasTurn all r :=
  h.ask hr false fun _ _ => rfl

theorem astir (h : Twins D p q s t) (hs : s.Astir D) : t.Astir D := by
  obtain ⟨r, hr, hturn⟩ := hs
  exact ⟨r, hr, h.hasTurn hr false ▸ hturn⟩

theorem pass_aside (h : Twins D p q s t) {all : Bool} {rs : List ActorRef}
    (hr : D.inside r = false)
    (hs : System.pass (System.turn code limit) all (r :: rs) s = Option.some s')
    (hds : D.Undisturbed (passDeeds code limit all (r :: rs) s)) :
    ∃ s₁, Twins D p q s₁ t ∧
      System.pass (System.turn code limit) all rs s₁ = Option.some s' ∧
      D.Undisturbed (passDeeds code limit all rs s₁) ∧
      sightings D p.number (passDeeds code limit all (r :: rs) s) =
        sightings D p.number (passDeeds code limit all rs s₁) := by
  rw [pass_cons] at hs
  cases hturn : s.hasTurn all r with
  | false =>
    have hdeeds : passDeeds code limit all (r :: rs) s = passDeeds code limit all rs s := by
      simp only [passDeeds, hturn, Bool.false_eq_true, if_false]
    rw [hturn] at hs
    rw [hdeeds] at hds ⊢
    exact ⟨s, h, hs, hds, rfl⟩
  | true =>
    rw [hturn, if_pos rfl] at hs
    obtain ⟨s₁, hs₁, hrest⟩ := Option.bind_eq_some_iff.1 hs
    rw [passDeeds_turn hturn hs₁] at hds ⊢
    obtain ⟨hhere, hthere⟩ := Division.Undisturbed.append.1 hds
    have hwithin : Within (Op.Harmless D) (turnDeeds code limit r s) := fun d hd =>
      hhere d hd (turnDeeds_actor code r limit s d hd ▸ hr)
    obtain ⟨hturned, hnone⟩ := h.turn_aside hr hs₁ hwithin
    exact ⟨s₁, hturned, hrest, hthere, by rw [sightings_append, hnone, List.nil_append]⟩

theorem pass (hcode : D.Agree code code') (all : Bool) (rs : List ActorRef) {s t : System κ}
    (h : Twins D p q s t) (hs : System.pass (System.turn code limit) all rs s = Option.some s')
    (ht : System.pass (System.turn code' limit') all rs t = Option.some t')
    (hds : D.Undisturbed (passDeeds code limit all rs s))
    (hdt : D.Undisturbed (passDeeds code' limit' all rs t)) :
    sightings D p.number (passDeeds code limit all rs s) =
        sightings D q.number (passDeeds code' limit' all rs t) ∧
      Twins D p q s' t' := by
  induction rs generalizing s t with
  | nil =>
    obtain rfl := Option.some.inj hs
    obtain rfl := Option.some.inj ht
    exact ⟨rfl, h⟩
  | cons r rs ih =>
    cases hr : D.inside r with
    | false =>
      obtain ⟨s₁, h₁, hs₁, hds₁, hseen⟩ := h.pass_aside hr hs hds
      obtain ⟨t₁, h₂, ht₁, hdt₁, hseen'⟩ := h₁.symm.pass_aside hr ht hdt
      rw [hseen, hseen']
      exact ih h₂.symm hs₁ ht₁ hds₁ hdt₁
    | true =>
      have hsame := h.hasTurn hr all
      rw [pass_cons] at hs ht
      cases hturn : t.hasTurn all r with
      | false =>
        rw [hturn] at hsame ht
        rw [hsame] at hs
        simp only [passDeeds, hsame, hturn, Bool.false_eq_true, if_false] at hds hdt ⊢
        exact ih h hs ht hds hdt
      | true =>
        rw [hturn] at hsame
        rw [hturn, if_pos rfl] at ht
        rw [hsame, if_pos rfl] at hs
        obtain ⟨s₁, hs₁, hrest⟩ := Option.bind_eq_some_iff.1 hs
        obtain ⟨t₁, ht₁, hrest'⟩ := Option.bind_eq_some_iff.1 ht
        rw [passDeeds_turn hsame hs₁] at hds ⊢
        rw [passDeeds_turn hturn ht₁] at hdt ⊢
        obtain ⟨hhere, hturned⟩ := h.turn hr hcode hs₁ ht₁
        obtain ⟨hthere, hend⟩ := ih hturned hrest hrest' (Division.Undisturbed.append.1 hds).2
          (Division.Undisturbed.append.1 hdt).2
        rw [sightings_append, sightings_append, hhere, hthere]
        exact ⟨rfl, hend⟩

/-- A pass over the stirred actors of one system, all of which are outside. -/
theorem pass_alone (rs : List ActorRef) {s : System κ} (h : Twins D p q s t) (hquiet : ¬t.Astir D)
    (hs : System.pass (System.turn code limit) false rs s = Option.some s')
    (hds : D.Undisturbed (passDeeds code limit false rs s)) :
    sightings D p.number (passDeeds code limit false rs s) = [] ∧ Twins D p q s' t := by
  induction rs generalizing s with
  | nil =>
    obtain rfl := Option.some.inj hs
    exact ⟨rfl, h⟩
  | cons r rs ih =>
    cases hr : D.inside r with
    | false =>
      obtain ⟨s₁, h₁, hs₁, hds₁, hseen⟩ := h.pass_aside hr hs hds
      rw [hseen]
      exact ih h₁ hs₁ hds₁
    | true =>
      have hturn : s.hasTurn false r = false :=
        Bool.eq_false_iff.2 fun hturn => hquiet (h.astir ⟨r, hr, hturn⟩)
      rw [pass_cons, hturn] at hs
      simp only [passDeeds, hturn, Bool.false_eq_true, if_false] at hds ⊢
      exact ih h hs hds

theorem settleDown_alone (n : Nat) {s : System κ} (h : Twins D p q s t) (hquiet : ¬t.Astir D)
    (hs : System.settleDown (System.turn code limit) n s = Option.some s')
    (hds : D.Undisturbed (settleDeeds code limit n s)) :
    sightings D p.number (settleDeeds code limit n s) = [] ∧ Twins D p q s' t := by
  induction n generalizing s with
  | zero => cases hs
  | succ n ih =>
    unfold System.settleDown at hs
    unfold settleDeeds at hds ⊢
    cases hrestless : s.restless with
    | false =>
      rw [hrestless] at hs
      obtain rfl := Option.some.inj hs
      exact ⟨rfl, h⟩
    | true =>
      simp only [hrestless, if_true] at hs hds ⊢
      obtain ⟨s₁, hs₁, hrest⟩ := Option.bind_eq_some_iff.1 hs
      rw [hs₁, Option.map_some, Option.getD_some] at hds ⊢
      obtain ⟨hhere, hthere⟩ := Division.Undisturbed.append.1 hds
      obtain ⟨hnone, hpass⟩ := h.pass_alone s.refs hquiet hs₁ hhere
      obtain ⟨hnone', hend⟩ := ih hpass hrest hthere
      rw [sightings_append, hnone, hnone']
      exact ⟨rfl, hend⟩

/-- With an actor inside stirred both systems go on, and else each by itself. -/
theorem settleDown (hcode : D.Agree code code') (n n' : Nat) {s t : System κ}
    (h : Twins D p q s t)
    (hs : System.settleDown (System.turn code limit) n s = Option.some s')
    (ht : System.settleDown (System.turn code' limit') n' t = Option.some t')
    (hds : D.Undisturbed (settleDeeds code limit n s))
    (hdt : D.Undisturbed (settleDeeds code' limit' n' t)) :
    sightings D p.number (settleDeeds code limit n s) =
        sightings D q.number (settleDeeds code' limit' n' t) ∧
      Twins D p q s' t' := by
  induction n generalizing s t n' with
  | zero => cases hs
  | succ n ih =>
    by_cases hastir : s.Astir D
    · cases n' with
      | zero => cases ht
      | succ n' =>
        have hrefs : t.refs = s.refs := congrArg List.range h.size
        unfold System.settleDown at hs ht
        unfold settleDeeds at hds hdt ⊢
        simp only [hastir.restless, (h.astir hastir).restless, if_true, hrefs] at hs ht hds hdt ⊢
        obtain ⟨s₁, hs₁, hrest⟩ := Option.bind_eq_some_iff.1 hs
        obtain ⟨t₁, ht₁, hrest'⟩ := Option.bind_eq_some_iff.1 ht
        rw [hs₁, Option.map_some, Option.getD_some] at hds ⊢
        rw [ht₁, Option.map_some, Option.getD_some] at hdt ⊢
        obtain ⟨hds₁, hds₂⟩ := Division.Undisturbed.append.1 hds
        obtain ⟨hdt₁, hdt₂⟩ := Division.Undisturbed.append.1 hdt
        obtain ⟨hhere, hpass⟩ := pass hcode false s.refs h hs₁ ht₁ hds₁ hdt₁
        obtain ⟨hthere, hend⟩ := ih n' hpass hrest hrest' hds₂ hdt₂
        rw [sightings_append, sightings_append, hhere, hthere]
        exact ⟨rfl, hend⟩
    · have hquiet : ¬t.Astir D := fun ht => hastir (h.symm.astir ht)
      obtain ⟨hnone, hleft⟩ := h.settleDown_alone (n + 1) hquiet hs hds
      have hquiet' : ¬s'.Astir D := fun hs' => hquiet (hleft.astir hs')
      obtain ⟨hnone', hboth⟩ := hleft.symm.settleDown_alone n' hquiet' ht hdt
      rw [hnone, hnone']
      exact ⟨rfl, hboth.symm⟩

theorem run (hcode : D.Agree code code') (h : Twins D p q s t)
    (hs : s.run code limit = Option.some s') (ht : t.run code' limit' = Option.some t')
    (hds : D.Undisturbed (runDeeds code limit s)) (hdt : D.Undisturbed (runDeeds code' limit' t)) :
    sightings D p.number (runDeeds code limit s) = sightings D q.number (runDeeds code' limit' t) ∧
      Twins D p q s' t' := by
  have hrefs : t.refs = s.refs := congrArg List.range h.size
  unfold System.run takeTurns at hs ht
  unfold runDeeds at hds hdt ⊢
  rw [hrefs] at ht hdt ⊢
  obtain ⟨s₁, hs₁, hrest⟩ := Option.bind_eq_some_iff.1 hs
  obtain ⟨t₁, ht₁, hrest'⟩ := Option.bind_eq_some_iff.1 ht
  rw [hs₁, Option.map_some, Option.getD_some] at hds ⊢
  rw [ht₁, Option.map_some, Option.getD_some] at hdt ⊢
  obtain ⟨hds₁, hds₂⟩ := Division.Undisturbed.append.1 hds
  obtain ⟨hdt₁, hdt₂⟩ := Division.Undisturbed.append.1 hdt
  obtain ⟨hhere, hpass⟩ := pass hcode true s.refs h hs₁ ht₁ hds₁ hdt₁
  obtain ⟨hthere, hend⟩ := settleDown hcode limit limit' hpass hrest hrest' hds₂ hdt₂
  rw [sightings_append, sightings_append, hhere, hthere]
  exact ⟨rfl, hend⟩

end Twins

theorem Owned.settle (h : Owned D p s) (c : CallRef) (state : CallState) :
    Owned D p (s.settle c state).2 :=
  h.of_same (settle_actor? s c state) (by rw [settle_calls, size_settleAll])

def opening (s : System κ) (r : ActorRef) (a : Actor κ) (name : String) (args : Args) : System κ :=
  { s with calls := s.calls.push ⟨name, .waiting⟩ }.put r
    (a.enqueue (.awaitRpc ⟨none, name, args⟩ s.calls.size))

theorem opening_actor? {a : Actor κ} (ha : s.actor? r = some a) (name : String) (args : Args) :
    (s.opening r a name args).actor? = Function.update s.actor? r
      (some (a.enqueue (.awaitRpc ⟨none, name, args⟩ s.calls.size))) :=
  actor?_put (s := { s with calls := s.calls.push ⟨name, .waiting⟩ }) ha _

theorem opening_outline (s : System κ) (a : Actor κ) (name : String) (args : Args) :
    (s.opening r a name args).outline = s.outline := by
  simp [outline, System.frame, System.opening, System.put, System.closings]

theorem spawn_outline (s : System κ) (name : String) : (s.spawn name).2.outline =
    { s.outline with ids := s.outline.ids.fresh.2, size := s.outline.size + 1 } := by
  simp [outline, System.frame, System.spawn, System.closings]

theorem request_eq {a : Actor κ} (ha : s.actor? r = some a) (name : String) (args : Args) :
    (s.request r name args).2 = if a.refuses then s else s.opening r a name args := by
  cases hopen : a.refuses with
  | true => simp [request, ha, hopen]
  | false =>
    rw [request_open ha hopen]
    rfl

theorem Owned.opening (h : Owned D p s) {a : Actor κ} (ha : s.actor? r = some a) {cs : List CallRef}
    (hcs : cs = if D.inside r then [s.calls.size] else [])
    (hnumber : cs = [s.calls.size] → p.number s.calls.size = p.own.length) (name : String)
    (args : Args) : Owned D (p.add cs) (s.opening r a name args) := by
  have hsize : (s.opening r a name args).calls.size = s.calls.size + 1 := Array.size_push _
  have hnew : ∀ c ∈ cs, c = s.calls.size := by
    intro c hc
    rw [hcs] at hc
    split at hc
    · exact List.mem_singleton.1 hc
    · simp at hc
  have hself : s.calls.size ∈ cs ↔ D.inside r = true := by
    rw [hcs]
    cases D.inside r <;> simp
  refine ⟨fun i c hi => ?_, fun c hc => ?_, fun r' a' ha' c hc => ?_⟩
  · rw [Tally.add, List.getElem?_append] at hi
    split at hi
    · exact h.numbered i c hi
    · rename_i hle
      have hmem := List.mem_of_getElem? hi
      obtain rfl := hnew c hmem
      have hone : cs = [s.calls.size] := by
        rw [hcs, if_pos (hself.1 hmem)]
      have hlt := (List.getElem?_eq_some_iff.1 hi).1
      rw [hone, List.length_singleton] at hlt
      have hlast : p.own.length = i := by omega
      exact (hnumber hone).trans hlast
  · rw [hsize]
    rcases List.mem_append.1 hc with hc | hc
    · exact Nat.lt_succ_of_lt (h.known c hc)
    · exact hnew c hc ▸ Nat.lt_succ_self _
  -- An actor has the replies that it had, and the one that is called has a new one.
  · have hold : ∀ r' a', s.actor? r' = some a' → c ∈ a'.ledger.senders →
        c < s.calls.size + 1 ∧ (c ∈ p.own ++ cs ↔ D.inside r' = true) := by
      intro r' a' ha' hc
      obtain ⟨hlt, hiff⟩ := h.held r' a' ha' c hc
      have hnot : c ∉ cs := fun hmem => Nat.lt_irrefl _ (hnew c hmem ▸ hlt)
      exact ⟨Nat.lt_succ_of_lt hlt, by rw [List.mem_append, or_iff_left hnot]; exact hiff⟩
    rw [hsize]
    rw [opening_actor? ha] at ha'
    by_cases hr : r' = r
    · subst hr
      rw [Function.update_self, Option.some.injEq] at ha'
      subst ha'
      rcases mem_senders_enqueue.1 hc with hc | hc
      · obtain rfl : c = s.calls.size := List.mem_singleton.1 hc
        have hnot : s.calls.size ∉ p.own := fun hmem => Nat.lt_irrefl _ (h.known _ hmem)
        exact ⟨Nat.lt_succ_self _, by
          rw [Tally.add, List.mem_append, or_iff_right hnot]
          exact hself⟩
      · exact hold r' a ha hc
    · rw [Function.update_of_ne hr] at ha'
      exact hold r' a' ha' hc

namespace Twins

theorem settle (h : Twins D p q s t) {c d : CallRef} (hc : c ∈ p.own) (hd : d ∈ q.own)
    (hcd : p.number c = q.number d) (state : CallState) :
    Twins D p q (s.settle c state).2 (t.settle d state).2 := by
  have hs := settle_actor? s c state
  have ht := settle_actor? t d state
  refine ⟨?_, fun r => ?_, fun r hr => ?_, fun r a hr ha => h.keeps r a hr (hs ▸ ha), ?_,
    h.left.settle c state, h.right.settle d state⟩
  · rw [(Spares.settle (π := fun _ => ()) s c state).outline,
      (Spares.settle (π := fun _ => ()) t d state).outline, h.outline]
  · rw [hs, ht, h.names]
  · rw [hs, ht, h.inside r hr]
  · rw [settle_calls, settle_calls]
    exact settleAll_same h.left.numbered h.right.numbered h.calls (by simpa using hc)
      (by simpa using hd) (by simp [hcd])

theorem settle_aside (h : Twins D p q s t) {c : CallRef} (hc : c ∉ p.own) (state : CallState) :
    Twins D p q (s.settle c state).2 t := by
  have hs := settle_actor? s c state
  refine ⟨?_, fun r => ?_, fun r hr => ?_, fun r a hr ha => h.keeps r a hr (hs ▸ ha), ?_,
    h.left.settle c state, h.right⟩
  · rw [(Spares.settle (π := fun _ => ()) s c state).outline, h.outline]
  · rw [hs, h.names]
  · rw [hs, h.inside r hr]
  · rw [settle_calls, ← h.calls]
    refine List.map_congr_left fun d hd => settleAll_other _ fun hmem => hc ?_
    obtain rfl : d = c := by simpa using hmem
    exact hd

theorem length (h : Twins D p q s t) : p.own.length = q.own.length := by
  simpa using congrArg List.length h.calls

theorem opening (h : Twins D p q s t) (hr : D.inside r = true) {a a' : Actor κ}
    (ha : s.actor? r = Option.some a) (ha' : t.actor? r = Option.some a')
    (hp : p.number s.calls.size = p.own.length) (hq : q.number t.calls.size = q.own.length)
    (name : String) (args : Args) :
    Twins D (p.add [s.calls.size]) (q.add [t.calls.size]) (s.opening r a name args)
      (t.opening r a' name args) := by
  have hs := opening_actor? ha name args
  have ht := opening_actor? ha' name args
  have hcalls : ∀ (s : System κ) (a : Actor κ) (c : CallRef), c < s.calls.size →
      (s.opening r a name args).calls[c]? = s.calls[c]? := by
    intro s a c hc
    exact (Array.getElem?_push).trans (if_neg (Nat.ne_of_lt hc))
  have hnew : ∀ (s : System κ) (a : Actor κ),
      (s.opening r a name args).calls[s.calls.size]? = Option.some ⟨name, .waiting⟩ := by
    intro s a
    exact Array.getElem?_push_size
  have hname : ∀ r', ((t.opening r a' name args).actor? r').map Actor.name =
      ((s.opening r a name args).actor? r').map Actor.name := by
    intro r'
    rw [hs, ht]
    by_cases heq : r' = r
    · subst heq
      have hname := h.names r'
      rw [ha, ha'] at hname
      simpa only [Function.update_self, Option.map_some, Actor.enqueue] using hname
    · rw [Function.update_of_ne heq, Function.update_of_ne heq, h.names]
  refine ⟨by rw [opening_outline, opening_outline, h.outline], hname, fun r' hr' => ?_,
    fun r' b hr' hb => ?_, ?_, h.left.opening ha (by rw [if_pos hr]) (fun _ => hp) name args,
    h.right.opening ha' (by rw [if_pos hr]) (fun _ => hq) name args⟩
  · rw [hs, ht]
    by_cases heq : r' = r
    · subst heq
      obtain ⟨b, hb, hab⟩ := h.some hr ha
      obtain rfl := Option.some.inj (ha'.symm.trans hb)
      have hevent : (Event.awaitRpc ⟨Option.none, name, args⟩ s.calls.size : Event κ).renumber p.number =
          (Event.awaitRpc ⟨Option.none, name, args⟩ t.calls.size).renumber q.number := by
        simp only [Event.renumber, hp, hq, h.length]
      simp only [Function.update_self, Option.map_some, Tally.add]
      rw [Actor.enqueue_renumber, Actor.enqueue_renumber, hab, hevent]
    · rw [Function.update_of_ne heq, Function.update_of_ne heq]
      exact h.inside r' hr'
  · rw [hs] at hb
    by_cases heq : r' = r
    · subst heq
      rw [Function.update_self, Option.some.injEq] at hb
      subst hb
      have hkeeps := h.keeps r' a hr ha
      refine ⟨hkeeps.message, hkeeps.rpc, hkeeps.manager, hkeeps.batch, fun e he => ?_, hkeeps.timers⟩
      rw [Actor.enqueue, EventQueue.toList_push, List.mem_append, List.mem_singleton] at he
      rcases he with he | rfl
      · exact hkeeps.mailbox e he
      · simp [Event.code?]
    · rw [Function.update_of_ne heq] at hb
      exact h.keeps r' b hr' hb
  · have hold : ∀ (p : Tally) (s : System κ) (a : Actor κ), (∀ c ∈ p.own, c < s.calls.size) →
        p.own.map (fun c => (s.opening r a name args).calls[c]?) = p.own.map fun c => s.calls[c]? :=
      fun p s a hp => List.map_congr_left fun c hc => hcalls s a c (hp c hc)
    simp only [Tally.add, List.map_append, List.map_cons, List.map_nil, hnew]
    rw [hold p s a h.left.known, hold q t a' h.right.known, h.calls]

theorem opening_aside (h : Twins D p q s t) (hr : D.inside r = false) {a : Actor κ}
    (ha : s.actor? r = Option.some a) (name : String) (args : Args) :
    Twins D p q (s.opening r a name args) t := by
  have hs := opening_actor? ha name args
  have hsame : ∀ r', D.inside r' = true → (s.opening r a name args).actor? r' = s.actor? r' := by
    intro r' hr'
    have hne : r' ≠ r := by
      rintro rfl
      rw [hr] at hr'
      cases hr'
    rw [hs, Function.update_of_ne hne]
  have hnil : ([] : List CallRef) = if D.inside r then [s.calls.size] else [] := by rw [hr]; rfl
  have howned := h.left.opening ha hnil (by simp) name args
  rw [show p.add [] = p by simp [Tally.add]] at howned
  refine ⟨h.outline.trans (opening_outline s a name args).symm, fun r' => ?_, fun r' hr' => ?_,
    fun r' b hr' hb => h.keeps r' b hr' (hsame r' hr' ▸ hb), ?_, howned, h.right⟩
  · rw [hs]
    by_cases heq : r' = r
    · subst heq
      rw [Function.update_self, h.names, ha]
      rfl
    · rw [Function.update_of_ne heq, h.names]
  · rw [hsame r' hr', h.inside r' hr']
  · rw [← h.calls]
    exact List.map_congr_left fun c hc =>
      (Array.getElem?_push).trans (if_neg (Nat.ne_of_lt (h.left.known c hc)))

theorem spawn (h : Twins D p q s t) (name : String) :
    Twins D p q (s.spawn name).2 (t.spawn name).2 := by
  have hids : t.ids = s.ids := congrArg Frame.ids h.outline
  have hactor : ∀ (s : System κ) r, (s.spawn name).2.actor? r =
      if r = s.actors.size then Option.some (.new s.ids.fresh.1 name s.config) else s.actor? r := by
    intro s r
    simp only [System.spawn, actor?, Array.getElem?_push]
  have hnew : ∀ (f : CallRef → CallRef) id, (Actor.new id name s.config : Actor κ).renumber f =
      Actor.new id name s.config := by
    intro f id
    simp [Actor.renumber, Actor.new, EventQueue.map, EventQueue.new, DoubleBuffer.map,
      DoubleBuffer.empty, Table.map, Table.empty, Dispatch.idle, renumberPurses]
  have howned : ∀ {p : Tally} {s : System κ}, Owned D p s → Owned D p (s.spawn name).2 := by
    intro p s h
    refine ⟨h.numbered, h.known, fun r a ha c hc => ?_⟩
    rw [hactor] at ha
    split at ha
    · obtain rfl := Option.some.inj ha
      simp [Ledger.senders, Ledger.stored, Actor.ledger, Actor.new, EventQueue.new, EventQueue.toList,
        Dispatch.idle, callsOf, pursesOf] at hc
    · exact h.held r a ha c hc
  refine ⟨?_, fun r => ?_, fun r hr => ?_, fun r a hr ha => ?_, h.calls, howned h.left,
    howned h.right⟩
  · rw [spawn_outline, spawn_outline, h.outline]
  · rw [hactor, hactor, h.size]
    split
    · rfl
    · exact h.names r
  · rw [hactor, hactor, h.size, hids, h.config]
    split
    · rw [Option.map_some, Option.map_some, hnew, hnew]
    · exact h.inside r hr
  · rw [hactor] at ha
    split at ha
    · obtain rfl := Option.some.inj ha
      exact .new _ _ _
    · exact h.keeps r a hr ha

theorem arrange (h : Twins D p q s t) (clock : Clock) (ids : IdSource) (started : Bool)
    (names : Table String ActorRef) (pools : Table String Pool) :
    Twins D p q { s with clock, ids, started, names, pools }
      { t with clock, ids, started, names, pools } := by
  have houtline := congrArg (fun f : Frame => { f with clock, ids, started, names, pools }) h.outline
  exact ⟨houtline, h.names, h.inside, h.keeps, h.calls, ⟨h.left.numbered, h.left.known, h.left.held⟩,
    ⟨h.right.numbered, h.right.known, h.right.held⟩⟩

end Twins

end System

end ActorSystem
