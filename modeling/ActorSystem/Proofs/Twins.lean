import ActorSystem.Proofs.Chronicle
import ActorSystem.Proofs.Custody
import ActorSystem.Proofs.Outcomes
import ActorSystem.Proofs.Provenance

/-!
Two systems that show the same inside. Some of the actors are inside, the others may be as they like
in each of the two; the calls made to those inside are known by the order in which they were made.
-/

set_option autoImplicit false

namespace ActorSystem

variable {κ : Type}

/-- Which actors are inside, and the code that is theirs. -/
structure Division (κ : Type) where
  inside : ActorRef → Bool
  ours : κ → Prop

/-- The calls made to the actors inside, with the numbers that they are to have. -/
structure Tally where
  number : CallRef → CallRef
  own : List CallRef

def Tally.add (p : Tally) (cs : List CallRef) : Tally := { p with own := p.own ++ cs }

@[simp] theorem Tally.add_nil (p : Tally) : p.add [] = p := by
  rw [Tally.add, List.append_nil]

theorem Tally.add_add (p : Tally) (cs ds : List CallRef) : (p.add cs).add ds = p.add (cs ++ ds) := by
  simp only [Tally.add, List.append_assoc]

def Op.reads (D : Division κ) : Op κ → Bool
  | .registerMessage r .. | .registerRpc r .. | .start r | .inspect r | .backlog r => !D.inside r
  | _ => false

def Op.leaks (D : Division κ) : Op κ → Bool
  | .execute r _ owned => !owned.isEmpty && !D.inside r
  | _ => false

def Op.Harmless (D : Division κ) (o : Op κ) : Prop := ∀ r ∈ o.aims, D.inside r = false

/-- It goes on in the same way whatever it is told of the actors outside, what it gives to those
inside is their code, and no reply goes to those outside. -/
def Prog.Heedless (D : Division κ) : Prog κ Unit → Prop
  | .pure _ => True
  | .panic => True
  | .op o next =>
    ((∀ r ∈ o.aims, D.inside r = true) → ∀ k ∈ o.hands, D.ours k) ∧
      o.leaks D = false ∧ (o.reads D = true → ∀ x y, next x = next y) ∧ ∀ x, (next x).Heedless D

theorem Op.inside_aims {D : Division κ} {self : ActorRef} {o : Op κ}
    (h : D.inside (o.place self) = true) : ∀ r ∈ o.aims, D.inside r = true := by
  intro r hr
  rw [Op.place, Option.mem_def.1 hr] at h
  exact h

namespace System

/-- Calls in two systems, one after the other in the order of their numbers. -/
theorem settle_same {p q : Tally} {calls calls' : Array Call} {x y : CallRef × CallState}
    (hp : ∀ i c, p.own[i]? = some c → p.number c = i)
    (hq : ∀ i c, q.own[i]? = some c → q.number c = i)
    (h : p.own.map (fun c => calls[c]?) = q.own.map fun c => calls'[c]?) (hx : x.1 ∈ p.own)
    (hy : y.1 ∈ q.own) (hxy : Prod.map p.number id x = Prod.map q.number id y) :
    p.own.map (fun c => (calls.modify x.1 (Call.settle x.2))[c]?) =
      q.own.map fun c => (calls'.modify y.1 (Call.settle y.2))[c]? := by
  obtain ⟨c, state⟩ := x
  obtain ⟨d, state'⟩ := y
  obtain ⟨hnumber, rfl⟩ : p.number c = q.number d ∧ state = state' := Prod.mk.inj hxy
  obtain ⟨i, hi⟩ := List.mem_iff_getElem?.1 hx
  obtain ⟨j, hj⟩ := List.mem_iff_getElem?.1 hy
  obtain rfl : i = j := by rw [← hp i c hi, ← hq j d hj, hnumber]
  refine List.ext_getElem? fun k => ?_
  have hk := congrArg (fun l => l[k]?) h
  simp only [List.getElem?_map, Array.getElem?_modify] at hk ⊢
  by_cases hki : k = i
  · subst hki
    simp only [hi, hj, Option.map_some, if_true, Option.some.injEq] at hk ⊢
    rw [hk]
  · cases hc : p.own[k]? with
    | none =>
      cases hd : q.own[k]? with
      | none => rfl
      | some d' => simp [hc, hd] at hk
    | some c' =>
      cases hd : q.own[k]? with
      | none => simp [hc, hd] at hk
      | some d' =>
        have hcc : c ≠ c' := by
          rintro rfl
          exact hki (by rw [← hp k c hc, ← hp i c hi])
        have hdd : d ≠ d' := by
          rintro rfl
          exact hki (by rw [← hq k d hd, ← hq i d hj])
        simpa only [hc, hd, Option.map_some, if_neg hcc, if_neg hdd] using hk

theorem settleAll_same {p q : Tally} {calls calls' : Array Call} {xs ys : List (CallRef × CallState)}
    (hp : ∀ i c, p.own[i]? = some c → p.number c = i)
    (hq : ∀ i c, q.own[i]? = some c → q.number c = i)
    (h : p.own.map (fun c => calls[c]?) = q.own.map fun c => calls'[c]?)
    (hxs : ∀ x ∈ xs, x.1 ∈ p.own) (hys : ∀ y ∈ ys, y.1 ∈ q.own)
    (hxy : xs.map (Prod.map p.number id) = ys.map (Prod.map q.number id)) :
    p.own.map (fun c => (settleAll calls xs)[c]?) = q.own.map fun c => (settleAll calls' ys)[c]? := by
  induction xs generalizing ys calls calls' with
  | nil =>
    obtain rfl : ys = [] := by simpa using hxy.symm
    exact h
  | cons x xs ih =>
    cases ys with
    | nil => cases hxy
    | cons y ys =>
      obtain ⟨hhead, htail⟩ := List.cons.inj hxy
      have hfirst := settle_same hp hq h (hxs x List.mem_cons_self) (hys y List.mem_cons_self) hhead
      have hrest := ih hfirst (fun z hz => hxs z (List.mem_cons_of_mem _ hz))
        (fun z hz => hys z (List.mem_cons_of_mem _ hz)) htail
      exact hrest

variable {D : Division κ} {p q : Tally} {s s' t t' : System κ} {act : Act κ} {r self : ActorRef}
  {a : Actor κ}

/-- The actors inside have replies of their own calls only, and the other actors have none of
these. -/
structure Owned (D : Division κ) (p : Tally) (s : System κ) : Prop where
  numbered : ∀ i c, p.own[i]? = some c → p.number c = i
  known : ∀ c ∈ p.own, c < s.calls.size
  held : ∀ r a, s.actor? r = some a → ∀ c ∈ a.ledger.senders,
    c < s.calls.size ∧ (c ∈ p.own ↔ D.inside r = true)

theorem Does.elim (h : Does act r s s') {r' : ActorRef} {a' : Actor κ} (ha' : s'.actor? r' = some a') :
    (r' = r ∧ ∃ a, s.actor? r = some a ∧ a' = (act a).1) ∨ r' ≠ r ∧ s.actor? r' = some a' := by
  rw [h.actor] at ha'
  by_cases hr : r' = r
  · subst hr
    rw [Function.update_self] at ha'
    obtain ⟨a, ha, rfl⟩ := Option.map_eq_some_iff.1 ha'
    exact .inl ⟨rfl, a, ha, rfl⟩
  · rw [Function.update_of_ne hr] at ha'
    exact .inr ⟨hr, ha'⟩

theorem Does.size (h : Does act r s s') : s'.calls.size = s.calls.size := by
  rw [h.calls, size_settleAll]

theorem Does.names (h : Does act r s s') (hname : ∀ a, (act a).1.name = a.name) (r' : ActorRef) :
    (s'.actor? r').map Actor.name = (s.actor? r').map Actor.name := by
  rw [h.actor]
  by_cases hr : r' = r
  · subst hr
    rw [Function.update_self, Option.map_map]
    cases s.actor? r' with
    | none => rfl
    | some a => exact congrArg some (hname a)
  · rw [Function.update_of_ne hr]

theorem mem_senders_enqueue {a : Actor κ} {e : Event κ} {c : CallRef} :
    c ∈ (a.enqueue e).ledger.senders ↔ c ∈ e.calls ∨ c ∈ a.ledger.senders := by
  have hledger : (a.enqueue e).ledger = a.ledger.accept e := by
    simp [Actor.enqueue, Actor.ledger, Actor.ledgerWith, Ledger.accept]
  rw [hledger]
  simp only [Ledger.senders, Ledger.stored, Ledger.accept, callsOf, List.flatMap_append,
    List.flatMap_singleton, List.mem_append]
  constructor <;> simp +contextual [or_imp]

theorem Act.mem_senders_accept {e : Event κ} {c : CallRef} (hc : c ∈ (Act.accept e a).1.ledger.senders) :
    c ∈ e.calls ∨ c ∈ a.ledger.senders := by
  unfold Act.accept at hc
  split at hc
  · exact .inr hc
  · exact mem_senders_enqueue.1 hc

theorem Act.settles_accept {e : Event κ} {x : CallRef × CallState} (hx : x ∈ (Act.accept e a).2) :
    x.1 ∈ e.calls := by
  unfold Act.accept at hx
  split at hx
  · obtain ⟨c, hc, rfl⟩ := List.mem_map.1 hx
    exact hc
  · cases hx

namespace Owned

theorem does (h : Owned D p s) (hd : Does act r s s') (hb : Act.Blind act) : Owned D p s' := by
  refine ⟨h.numbered, hd.size ▸ h.known, fun r' a' ha' c hc => ?_⟩
  rw [hd.size]
  rcases hd.elim ha' with ⟨rfl, a, ha, rfl⟩ | ⟨-, ha⟩
  · exact h.held r' a ha c (hb.senders hc)
  · exact h.held r' a' ha c hc

theorem of_same (h : Owned D p s) (hactor : s'.actor? = s.actor?)
    (hsize : s'.calls.size = s.calls.size) : Owned D p s' := by
  refine ⟨h.numbered, hsize ▸ h.known, fun r a ha => ?_⟩
  rw [hsize]
  exact h.held r a (hactor ▸ ha)

theorem settles (h : Owned D p s) (xs : List (CallRef × CallState)) :
    Owned D p { s with calls := settleAll s.calls xs } := h.of_same rfl (size_settleAll _ xs)

theorem push (h : Owned D p s) {e : Event κ}
    (he : ∀ c ∈ e.calls, c < s.calls.size ∧ (c ∈ p.own ↔ D.inside r = true)) :
    Owned D p (s.push r e) := by
  cases ha : s.actor? r with
  | none =>
    rw [push_refused (accepts_absent ha), giveUpAll_eq]
    exact h.settles _
  | some a =>
    have hd := push_does ha e
    refine ⟨h.numbered, hd.size ▸ h.known, fun r' a' ha' c hc => ?_⟩
    rw [hd.size]
    rcases hd.elim ha' with ⟨rfl, b, hb, rfl⟩ | ⟨-, hb⟩
    · rcases Act.mem_senders_accept hc with hc | hc
      · exact he c hc
      · exact h.held r' b hb c hc
    · exact h.held r' a' hb c hc

end Owned

/-- The actors inside are the same in both systems, but for the numbers of calls, and so is what has
become of the calls made to them. -/
structure Twins (D : Division κ) (p q : Tally) (s t : System κ) : Prop where
  outline : t.outline = s.outline
  names : ∀ r, (t.actor? r).map Actor.name = (s.actor? r).map Actor.name
  inside : ∀ r, D.inside r = true →
    (s.actor? r).map (Actor.renumber p.number) = (t.actor? r).map (Actor.renumber q.number)
  keeps : ∀ r a, D.inside r = true → s.actor? r = some a → a.Keeps D.ours
  calls : p.own.map (fun c => s.calls[c]?) = q.own.map fun c => t.calls[c]?
  left : Owned D p s
  right : Owned D q t

namespace Twins

theorem some (h : Twins D p q s t) (hr : D.inside r = true) (ha : s.actor? r = Option.some a) :
    ∃ a', t.actor? r = Option.some a' ∧ a.renumber p.number = a'.renumber q.number := by
  have hsame := h.inside r hr
  rw [ha, Option.map_some] at hsame
  obtain ⟨a', ha', heq⟩ := Option.map_eq_some_iff.1 hsame.symm
  exact ⟨a', ha', heq.symm⟩

theorem none (h : Twins D p q s t) (hr : D.inside r = true) (ha : s.actor? r = Option.none) :
    t.actor? r = Option.none := by
  have hsame := h.inside r hr
  rw [ha, Option.map_none] at hsame
  exact Option.map_eq_none_iff.1 hsame.symm

theorem symm (h : Twins D p q s t) : Twins D q p t s := by
  refine ⟨h.outline.symm, fun r => (h.names r).symm, fun r hr => (h.inside r hr).symm, ?_,
    h.calls.symm, h.right, h.left⟩
  intro r a' hr ha'
  cases ha : s.actor? r with
  | none =>
    rw [h.none hr ha] at ha'
    cases ha'
  | some a =>
    obtain ⟨b, hb, heq⟩ := h.some hr ha
    obtain rfl := Option.some.inj (hb.symm.trans ha')
    have hkeeps := Actor.Keeps.renumber_iff (f := p.number).2 (h.keeps r a hr ha)
    rw [heq] at hkeeps
    exact Actor.Keeps.renumber_iff.1 hkeeps

theorem clock (h : Twins D p q s t) : t.clock = s.clock := congrArg Frame.clock h.outline

theorem config (h : Twins D p q s t) : t.config = s.config := congrArg Frame.config h.outline

theorem size (h : Twins D p q s t) : t.actors.size = s.actors.size := congrArg Frame.size h.outline

/-- What an actor inside shows, but for the numbers of calls, is the same. -/
theorem view {β : Type} (h : Twins D p q s t) (hr : D.inside r = true) {π : Actor κ → β}
    (hπ : ∀ f a, π (a.renumber f) = π a) : (s.actor? r).map π = (t.actor? r).map π := by
  have hsame := congrArg (Option.map π) (h.inside r hr)
  simpa only [Option.map_map, Function.comp_def, hπ] using hsame

theorem ask {β : Type} (h : Twins D p q s t) (hr : D.inside r = true) (absent : β)
    {π : Actor κ → β} (hπ : ∀ f a, π (a.renumber f) = π a) :
    s.ask r absent π = t.ask r absent π :=
  congrArg (Option.getD · absent) (h.view hr hπ)

/-- What is done to an actor outside; the calls that are settled are not among those made to the
actors inside. -/
theorem beside (h : Twins D p q s t) (hd : Does act r s s') (hname : ∀ a, (act a).1.name = a.name)
    (hr : ∀ a, s.actor? r = Option.some a → D.inside r = false)
    (hx : ∀ a, s.actor? r = Option.some a → ∀ x ∈ (act a).2, x.1 ∉ p.own) (hleft : Owned D p s') :
    Twins D p q s' t := by
  have hsame : ∀ r', D.inside r' = true → s'.actor? r' = s.actor? r' := by
    intro r' hr'
    rw [hd.actor]
    by_cases heq : r' = r
    · subst heq
      cases ha : s.actor? r' with
      | none => simp
      | some a => simp [hr a ha] at hr'
    · rw [Function.update_of_ne heq]
  refine ⟨h.outline.trans hd.outline.symm, fun r' => (h.names r').trans (hd.names hname r').symm,
    fun r' hr' => ?_, fun r' a hr' ha => h.keeps r' a hr' (hsame r' hr' ▸ ha), ?_, hleft, h.right⟩
  · rw [hsame r' hr']
    exact h.inside r' hr'
  · rw [← h.calls, hd.calls]
    refine List.map_congr_left fun c hc => settleAll_other _ fun hmem => ?_
    cases ha : s.actor? r with
    | none => simp [ha] at hmem
    | some a =>
      rw [ha, Option.elim_some] at hmem
      obtain ⟨x, hxmem, rfl⟩ := List.mem_map.1 hmem
      exact hx a ha x hxmem hc

theorem aside (h : Twins D p q s t) (hd : Does act r s s') (hb : Act.Blind act)
    (hr : ∀ a, s.actor? r = Option.some a → D.inside r = false) : Twins D p q s' t := by
  refine h.beside hd hb.name hr (fun a ha x hx hmem => ?_) (h.left.does hd hb)
  have hinside := (h.left.held r a ha x.1 (hb.settles hx)).2.1 hmem
  rw [hr a ha] at hinside
  cases hinside

/-- What is done to an actor inside is done to it in both systems, but for the numbers of calls. -/
theorem pair {act' : Act κ} (h : Twins D p q s t) (hr : D.inside r = true) (hs : Does act r s s')
    (ht : Does act' r t t')
    (hact : ∀ {a a' : Actor κ}, a.renumber p.number = a'.renumber q.number →
      (act a).1.renumber p.number = (act' a').1.renumber q.number ∧
        (act a).2.map (Prod.map p.number id) = (act' a').2.map (Prod.map q.number id))
    (hname : ∀ a, (act a).1.name = a.name) (hname' : ∀ a, (act' a).1.name = a.name)
    (hk : Act.Keeping D.ours act)
    (hx : ∀ a, s.actor? r = Option.some a → ∀ x ∈ (act a).2, x.1 ∈ p.own)
    (hy : ∀ a, t.actor? r = Option.some a → ∀ x ∈ (act' a).2, x.1 ∈ q.own)
    (hleft : Owned D p s') (hright : Owned D q t') : Twins D p q s' t' := by
  refine ⟨?_, fun r' => ?_, fun r' hr' => ?_, fun r' a' hr' ha' => ?_, ?_, hleft, hright⟩
  · rw [hs.outline, ht.outline, h.outline]
  · rw [hs.names hname, ht.names hname', h.names]
  · rw [hs.actor, ht.actor]
    by_cases heq : r' = r
    · subst heq
      rw [Function.update_self, Function.update_self]
      cases ha : s.actor? r' with
      | none => rw [h.none hr' ha]; rfl
      | some a =>
        obtain ⟨a', ha', haa'⟩ := h.some hr' ha
        rw [ha']
        exact congrArg Option.some (hact haa').1
    · rw [Function.update_of_ne heq, Function.update_of_ne heq]
      exact h.inside r' hr'
  · rcases hs.elim ha' with ⟨rfl, a, ha, rfl⟩ | ⟨-, ha⟩
    · exact hk a (h.keeps r' a hr' ha)
    · exact h.keeps r' a' hr' ha
  · rw [hs.calls, ht.calls]
    cases ha : s.actor? r with
    | none =>
      rw [h.none hr ha]
      exact h.calls
    | some a =>
      obtain ⟨a', ha', haa'⟩ := h.some hr ha
      rw [ha', Option.elim_some, Option.elim_some]
      exact settleAll_same h.left.numbered h.right.numbered h.calls (hx a ha) (hy a' ha') (hact haa').2

theorem does (h : Twins D p q s t) (hr : D.inside r = true) (hs : Does act r s s')
    (ht : Does act r t t') (hb : Act.Blind act) (hk : Act.Keeping D.ours act) :
    Twins D p q s' t' := by
  refine h.pair hr hs ht (fun {a a'} haa' => ?_) hb.name hb.name hk (fun a ha x hx => ?_)
    (fun a ha x hx => ?_) (h.left.does hs hb) (h.right.does ht hb)
  · have hsame := congrArg act haa'
    rw [hb.renumber, hb.renumber] at hsame
    exact Prod.mk.inj hsame
  · exact (h.left.held r a ha x.1 (hb.settles hx)).2.2 hr
  · exact (h.right.held r a ha x.1 (hb.settles hx)).2.2 hr

theorem settles (h : Twins D p q s t) {xs ys : List (CallRef × CallState)}
    (hxs : ∀ x ∈ xs, x.1 ∈ p.own) (hys : ∀ y ∈ ys, y.1 ∈ q.own)
    (hxy : xs.map (Prod.map p.number id) = ys.map (Prod.map q.number id)) :
    Twins D p q { s with calls := settleAll s.calls xs } { t with calls := settleAll t.calls ys } :=
  ⟨h.outline, h.names, h.inside, h.keeps,
    settleAll_same h.left.numbered h.right.numbered h.calls hxs hys hxy, h.left.settles xs,
    h.right.settles ys⟩

theorem settles_aside (h : Twins D p q s t) {xs : List (CallRef × CallState)}
    (hxs : ∀ x ∈ xs, x.1 ∉ p.own) : Twins D p q { s with calls := settleAll s.calls xs } t := by
  refine ⟨h.outline, h.names, h.inside, h.keeps, ?_, h.left.settles xs, h.right⟩
  rw [← h.calls]
  refine List.map_congr_left fun c hc => settleAll_other _ fun hmem => ?_
  obtain ⟨x, hx, rfl⟩ := List.mem_map.1 hmem
  exact hxs x hx hc

/-- An event goes to an actor inside in both systems, with replies of the calls made to these. -/
theorem push (h : Twins D p q s t) (hr : D.inside r = true) {e e' : Event κ}
    (he : e.renumber p.number = e'.renumber q.number) (hk : ∀ k ∈ e.code?, D.ours k)
    (hp : ∀ c ∈ e.calls, c ∈ p.own) (hq : ∀ c ∈ e'.calls, c ∈ q.own) :
    Twins D p q (s.push r e) (t.push r e') := by
  have hcalls : (drops e.calls).map (Prod.map p.number id) = (drops e'.calls).map (Prod.map q.number id) := by
    rw [← Act.drops_renumber, ← Act.drops_renumber, ← e.calls_renumber, ← e'.calls_renumber, he]
  cases ha : s.actor? r with
  | none =>
    rw [push_refused (accepts_absent ha), push_refused (accepts_absent (h.none hr ha)), giveUpAll_eq,
      giveUpAll_eq]
    refine h.settles (fun x hx => ?_) (fun x hx => ?_) hcalls
    · obtain ⟨c, hc, rfl⟩ := List.mem_map.1 hx
      exact hp c hc
    · obtain ⟨c, hc, rfl⟩ := List.mem_map.1 hx
      exact hq c hc
  | some a =>
    obtain ⟨a', ha', -⟩ := h.some hr ha
    refine h.pair hr (push_does ha e) (push_does ha' e') (fun {a a'} haa' => ?_) (Act.accept_name e)
      (Act.accept_name e') (Act.accept_keeping hk) (fun a _ x hx => hp _ (Act.settles_accept hx))
      (fun a _ x hx => hq _ (Act.settles_accept hx))
      (h.left.push fun c hc => ⟨h.left.known c (hp c hc), iff_of_true (hp c hc) hr⟩)
      (h.right.push fun c hc => ⟨h.right.known c (hq c hc), iff_of_true (hq c hc) hr⟩)
    have hleft := Act.accept_renumber p.number e a
    rw [haa', he, Act.accept_renumber] at hleft
    exact Prod.mk.inj hleft.symm

theorem push_aside (h : Twins D p q s t) (hr : D.inside r = false) {e : Event κ}
    (he : ∀ c ∈ e.calls, c < s.calls.size ∧ c ∉ p.own) : Twins D p q (s.push r e) t := by
  cases ha : s.actor? r with
  | none =>
    rw [push_refused (accepts_absent ha), giveUpAll_eq]
    refine h.settles_aside fun x hx => ?_
    obtain ⟨c, hc, rfl⟩ := List.mem_map.1 hx
    exact (he c hc).2
  | some a =>
    refine h.beside (push_does ha e) (Act.accept_name e) (fun _ _ => hr)
      (fun a _ x hx => (he _ (Act.settles_accept hx)).2)
      (h.left.push fun c hc => ⟨(he c hc).1, iff_of_false (he c hc).2 ?_⟩)
    rw [hr]
    exact Bool.false_ne_true

theorem call (h : Twins D p q s t) {c d : CallRef} (hc : c ∈ p.own) (hd : d ∈ q.own)
    (hcd : p.number c = q.number d) : s.calls[c]? = t.calls[d]? := by
  obtain ⟨i, hi⟩ := List.mem_iff_getElem?.1 hc
  obtain ⟨j, hj⟩ := List.mem_iff_getElem?.1 hd
  obtain rfl : i = j := by rw [← h.left.numbered i c hi, ← h.right.numbered j d hj, hcd]
  have hcall := congrArg (fun l => l[i]?) h.calls
  simpa only [List.getElem?_map, hi, hj, Option.map_some, Option.some.injEq] using hcall

end Twins

theorem atActor_fst {α : Type} (s : System κ) (r : ActorRef) (absent : α) (F : Actor κ → α × Actor κ) :
    (s.atActor r absent F).1 = s.ask r absent fun a => (F a).1 := by
  cases ha : s.actor? r with
  | none => rw [atActor_absent ha, System.ask, ha]; rfl
  | some a => rw [atActor_eq ha, ask_eq ha]

theorem cancelTimer_fst (s : System κ) (r : ActorRef) (id : Timer.TimerId) :
    (s.cancelTimer r id).1 = s.ask r false fun a => (a.timers.delete id).1 := by
  simp only [cancelTimer_eq]
  cases ha : s.actor? r with
  | none => rw [atActor_absent ha, System.ask, ha]; rfl
  | some a => rw [atActor_eq ha, ask_eq ha, a.cancel_fst]

theorem takeOwned_fst (s : System κ) (r : ActorRef) (owned : List String) :
    (s.takeOwned r owned).1 = s.ask r .empty fun a => a.dispatch.hand.only owned := atActor_fst ..

theorem keepReply_fst (s : System κ) (r : ActorRef) (slot : String) :
    (s.keepReply r slot).1 = s.ask r false fun a => a.dispatch.reply.isSome := by
  unfold keepReply takeReply
  cases ha : s.actor? r with
  | none => rw [atActor_absent ha, System.ask, ha]; rfl
  | some a =>
    rw [atActor_eq ha, ask_eq ha]
    cases a.dispatch.reply <;> rfl

theorem dropKept_fst (s : System κ) (r : ActorRef) (slot : String) :
    (s.dropKept r slot).1 = s.ask r false fun a => (a.kept.get? slot).isSome := by
  unfold dropKept takeKept
  cases ha : s.actor? r with
  | none => rw [atActor_absent ha, System.ask, ha]; rfl
  | some a =>
    rw [atActor_eq ha, ask_eq ha]
    cases a.kept.get? slot <;> rfl

theorem unshelve_fst (s : System κ) (r : ActorRef) (slot : String) :
    (s.unshelve r slot).1 = s.ask r false fun a => (a.kept.get? slot).isSome := by
  unfold unshelve takeKept
  cases ha : s.actor? r with
  | none => rw [atActor_absent ha, System.ask, ha]; rfl
  | some a =>
    rw [atActor_eq ha, ask_eq ha]
    cases a.kept.get? slot <;> rfl

theorem shelve_fst (s : System κ) (r : ActorRef) (slot : String) :
    (s.shelve r slot).1 = s.ask r false fun a => (a.dispatch.hand.get? slot).isSome := by
  unfold shelve takeHeld
  cases ha : s.actor? r with
  | none => rw [atActor_absent ha, System.ask, ha]; rfl
  | some a =>
    rw [atActor_eq ha, ask_eq ha]
    cases a.dispatch.hand.get? slot <;> rfl

theorem release_fst (s : System κ) (r : ActorRef) (slot : String) :
    (s.release r slot).1 = s.ask r false fun a => (a.dispatch.hand.get? slot).isSome := by
  unfold release takeHeld
  cases ha : s.actor? r with
  | none => rw [atActor_absent ha, System.ask, ha]; rfl
  | some a =>
    rw [atActor_eq ha, ask_eq ha]
    cases a.dispatch.hand.get? slot <;> rfl

namespace Twins

/-- Replies that two actors have in the same place are of calls with the same fate. -/
theorem isWaiting (h : Twins D p q s t) (hr : D.inside r = true) {a a' : Actor κ}
    (ha : s.actor? r = Option.some a) (ha' : t.actor? r = Option.some a') {c d : CallRef}
    (hc : c ∈ a.ledger.senders) (hd : d ∈ a'.ledger.senders) (hcd : p.number c = q.number d) :
    s.isWaiting c = t.isWaiting d := by
  unfold System.isWaiting
  rw [h.call ((h.left.held r a ha c hc).2.2 hr) ((h.right.held r a' ha' d hd).2.2 hr) hcd]

theorem answer (h : Twins D p q s t) (hself : D.inside self = true) (vs : List Value) :
    (perform self (.answer vs) s).1 = (perform self (.answer vs) t).1 := by
  cases ha : s.actor? self with
  | none =>
    simp only [perform, answerCurrent, takeReply]
    rw [atActor_absent ha, atActor_absent (h.none hself ha)]
  | some a =>
    obtain ⟨a', ha', heq⟩ := h.some hself ha
    have hreply : a.dispatch.reply.map p.number = a'.dispatch.reply.map q.number :=
      congrArg (fun a => a.dispatch.reply) heq
    cases hc : a.dispatch.reply with
    | none =>
      have hd : a'.dispatch.reply = Option.none := by simpa [hc] using hreply.symm
      rw [perform_answer_none ha hc, perform_answer_none ha' hd]
    | some c =>
      rw [hc, Option.map_some] at hreply
      obtain ⟨d, hd, hcd⟩ := Option.map_eq_some_iff.1 hreply.symm
      rw [(perform_answer_some ha hc vs).1, (perform_answer_some ha' hd vs).1]
      have hheld : ∀ {a : Actor κ} {c : CallRef}, a.dispatch.reply = Option.some c →
          c ∈ a.ledger.senders := fun hc =>
        (Act.answer_blind vs).settles (x := (_, .answered vs)) (by simp [Act.answer, hc])
      exact h.isWaiting hself ha ha' (hheld hc) (hheld hd) hcd.symm

theorem answerKept (h : Twins D p q s t) (hself : D.inside self = true) (slot : String)
    (vs : List Value) :
    (perform self (.answerKept slot vs) s).1 = (perform self (.answerKept slot vs) t).1 := by
  cases ha : s.actor? self with
  | none =>
    simp only [perform, System.answerKept, takeKept]
    rw [atActor_absent ha, atActor_absent (h.none hself ha)]
  | some a =>
    obtain ⟨a', ha', heq⟩ := h.some hself ha
    have hkept : (a.kept.get? slot).map p.number = (a'.kept.get? slot).map q.number := by
      rw [← Table.get?_map, ← Table.get?_map]
      exact congrArg (fun a => a.kept.get? slot) heq
    cases hc : a.kept.get? slot with
    | none =>
      have hd : a'.kept.get? slot = Option.none := by simpa [hc] using hkept.symm
      rw [perform_answerKept_none ha hc, perform_answerKept_none ha' hd]
    | some c =>
      rw [hc, Option.map_some] at hkept
      obtain ⟨d, hd, hcd⟩ := Option.map_eq_some_iff.1 hkept.symm
      rw [(perform_answerKept_some ha hc vs).1, (perform_answerKept_some ha' hd vs).1]
      have hheld : ∀ {a : Actor κ} {c : CallRef}, a.kept.get? slot = Option.some c →
          c ∈ a.ledger.senders := fun hc =>
        (Act.useKept_blind slot (.answered vs)).settles (x := (_, .answered vs)) (by
          simp [Act.useKept, hc])
      exact congrArg Option.some (h.isWaiting hself ha ha' (hheld hc) (hheld hd) hcd.symm)

theorem locate (h : Twins D p q s t) (name : String) : s.locate name = t.locate name := by
  have hnames : t.names = s.names := congrArg Frame.names h.outline
  have hask : ∀ r, s.ask r false (fun a => a.name == name) = t.ask r false fun a => a.name == name := by
    intro r
    have hname := congrArg (fun x => (x.map (· == name)).getD false) (h.names r)
    simp only [Option.map_map] at hname
    exact hname.symm
  unfold System.locate refs
  simp only [hnames, hask, h.size]

/-- An operation of an actor inside is told the same, unless it looks at an actor outside. -/
theorem perform_fst (h : Twins D p q s t) (hself : D.inside self = true) (o : Op κ)
    (ho : o.reads D = false) : (perform self o s).1 = (perform self o t).1 := by
  cases o with
  | look => exact h.view hself fun _ _ => rfl
  | now => exact congrArg Clock.now h.clock.symm
  | lookup key => exact h.ask hself _ fun _ _ => rfl
  | erase key =>
    simp only [perform, atActor_fst]
    exact h.ask hself _ fun _ _ => rfl
  | answer vs => exact h.answer hself vs
  | keepReply slot =>
    simp only [perform, keepReply_fst]
    exact h.ask hself _ fun _ _ => Option.isSome_map
  | answerKept slot vs => exact h.answerKept hself slot vs
  | dropKept slot =>
    simp only [perform, dropKept_fst]
    refine h.ask hself _ fun f a => ?_
    exact (congrArg Option.isSome (Table.get?_map f a.kept slot)).trans Option.isSome_map
  | unshelve slot =>
    simp only [perform, unshelve_fst]
    refine h.ask hself _ fun f a => ?_
    exact (congrArg Option.isSome (Table.get?_map f a.kept slot)).trans Option.isSome_map
  | shelve slot =>
    simp only [perform, shelve_fst]
    refine h.ask hself _ fun f a => ?_
    exact (congrArg Option.isSome (Table.get?_map f a.dispatch.hand slot)).trans Option.isSome_map
  | release slot =>
    simp only [perform, release_fst]
    refine h.ask hself _ fun f a => ?_
    exact (congrArg Option.isSome (Table.get?_map f a.dispatch.hand slot)).trans Option.isSome_map
  | setTimer delay callback args owned =>
    simp only [perform, atActor_fst, h.clock]
    exact h.ask hself _ fun _ _ => rfl
  | cancelTimer id =>
    simp only [perform, cancelTimer_fst]
    exact h.ask hself _ fun _ _ => rfl
  | timerStats => exact h.view hself fun _ _ => rfl
  | agent id => exact h.ask hself _ fun _ _ => rfl
  | component id => exact h.ask hself _ fun _ _ => rfl
  | find name => exact h.locate name
  | registerMessage target proto handler =>
    have htarget : D.inside target = true := by simpa [Op.reads] using ho
    simp only [perform, registerMessage, atActor_fst]
    refine h.ask htarget _ fun f a => ?_
    have hcontains : (a.renumber f).onMessage.contains proto = a.onMessage.contains proto := rfl
    simp only [Actor.registerMessage, hcontains]
    split <;> rfl
  | registerRpc target name handler =>
    have htarget : D.inside target = true := by simpa [Op.reads] using ho
    simp only [perform, registerRpc, atActor_fst]
    refine h.ask htarget _ fun f a => ?_
    have hcontains : (a.renumber f).onRpc.contains name = a.onRpc.contains name := rfl
    simp only [Actor.registerRpc, hcontains]
    split <;> rfl
  | start target =>
    have htarget : D.inside target = true := by simpa [Op.reads] using ho
    simp only [perform, start, atActor_fst, h.clock, h.config]
    refine h.ask htarget _ fun f a => ?_
    have hdormant : (a.renumber f).dormant = a.dormant := rfl
    simp only [Actor.start, hdormant]
    split <;> rfl
  | inspect target =>
    have htarget : D.inside target = true := by simpa [Op.reads] using ho
    exact h.view htarget fun _ _ => rfl
  | backlog target =>
    have htarget : D.inside target = true := by simpa [Op.reads] using ho
    exact h.ask htarget _ fun _ _ => rfl
  | report | put | post | execute | call | await | close => rfl

/-- What code lets go of is the same in both systems, but for the numbers of calls. -/
theorem takeOwned (h : Twins D p q s t)
    (hself : D.inside self = true ∨ s.actor? self = Option.none ∧ t.actor? self = Option.none)
    (owned : List String) :
    (s.takeOwned self owned).1.map p.number = (t.takeOwned self owned).1.map q.number ∧
      (∀ c ∈ (s.takeOwned self owned).1.values, c ∈ p.own) ∧
      (∀ c ∈ (t.takeOwned self owned).1.values, c ∈ q.own) ∧
      Twins D p q (s.takeOwned self owned).2 (t.takeOwned self owned).2 := by
  have habsent : ∀ {s : System κ}, s.actor? self = Option.none →
      s.takeOwned self owned = (.empty, s) := fun ha => atActor_absent ha _ _
  rcases hself with hself | ⟨ha, ha'⟩
  · cases ha : s.actor? self with
    | none =>
      rw [habsent ha, habsent (h.none hself ha)]
      exact ⟨rfl, by simp [Table.values, Table.empty], by simp [Table.values, Table.empty], h⟩
    | some a =>
      obtain ⟨a', ha', heq⟩ := h.some hself ha
      have hboth := h.does hself (takeOwned_does s self owned) (takeOwned_does t self owned)
        (Act.entrust_blind owned)
        fun _ h => ⟨h.message, h.rpc, h.manager, h.batch, h.mailbox, h.timers⟩
      have hhand : a.dispatch.hand.map p.number = a'.dispatch.hand.map q.number :=
        congrArg (fun a => a.dispatch.hand) heq
      have hreplies : ∀ {s : System κ} {a : Actor κ}, s.actor? self = Option.some a →
          (s.takeOwned self owned).1 = a.dispatch.hand.only owned := fun ha => by
        rw [System.takeOwned, atActor_eq ha]
      have hheld : ∀ {a : Actor κ} {c : CallRef}, c ∈ (a.dispatch.hand.only owned).values →
          c ∈ a.ledger.senders := fun {a c} hc => by
        have hmem : c ∈ a.dispatch.hand.values :=
          (a.dispatch.hand.values_only owned).mem_iff.2 (List.mem_append_left _ hc)
        simp [Ledger.senders, Ledger.stored, Actor.ledger, hmem]
      rw [hreplies ha, hreplies ha']
      refine ⟨?_, fun c hc => ?_, fun c hc => ?_, hboth⟩
      · rw [Table.only, Table.only, ← Table.filter_map, ← Table.filter_map, hhand]
      · exact (h.left.held self a ha c (hheld hc)).2.2 hself
      · exact (h.right.held self a' ha' c (hheld hc)).2.2 hself
  · rw [habsent ha, habsent ha']
    exact ⟨rfl, by simp [Table.values, Table.empty], by simp [Table.values, Table.empty], h⟩

theorem execute (h : Twins D p q s t)
    (hself : D.inside self = true ∨ s.actor? self = Option.none ∧ t.actor? self = Option.none)
    {target : ActorRef} {action : κ} {owned : List String}
    (hleaks : (Op.execute target action owned).leaks D = false)
    (hours : D.inside target = true → D.ours action) :
    Twins D p q (s.execute self target action owned) (t.execute self target action owned) := by
  obtain ⟨hreplies, hp, hq, htaken⟩ := h.takeOwned hself owned
  rw [execute_eq, execute_eq]
  cases htarget : D.inside target with
  | true =>
    refine htaken.push htarget ?_ (fun k hk => ?_) hp hq
    · simp only [Event.renumber, hreplies]
    · obtain rfl : action = k := Option.some.inj hk
      exact hours htarget
  | false =>
    obtain rfl : owned = [] := by simpa [Op.leaks, htarget] using hleaks
    rw [takeOwned_nil, takeOwned_nil]
    have hleft := h.push_aside (e := .errand action .empty) htarget (by simp [Event.calls])
    exact (hleft.symm.push_aside (e := .errand action .empty) htarget (by simp [Event.calls])).symm

/-- An operation of nobody in particular, or of an actor inside. -/
theorem perform (h : Twins D p q s t) (o : Op κ)
    (hself : D.inside self = true ∨ s.actor? self = Option.none ∧ t.actor? self = Option.none)
    (hleaks : o.leaks D = false) (ho : D.inside (o.place self) = true → ∀ k ∈ o.hands, D.ours k) :
    Twins D p q (System.perform self o s).2 (System.perform self o t).2 := by
  cases hcrosses : o.crosses self with
  | true =>
    cases o with
    | execute target action owned => exact h.execute hself hleaks fun hr => ho hr action rfl
    | _ => cases hcrosses
  | false =>
    have hid : (s.actor? self).map Actor.id = (t.actor? self).map Actor.id := by
      rcases hself with hself | ⟨ha, ha'⟩
      · exact h.view hself fun _ _ => rfl
      · rw [ha, ha']
    have hs := perform_does self hcrosses s
    have ht := perform_does self hcrosses t
    rw [h.clock, h.config, ← hid] at ht
    have hblind := Act.op_blind s.clock.now s.config.maxDelayMs ((s.actor? self).map Actor.id) o
    cases hplace : D.inside (o.place self) with
    | true => exact h.does hplace hs ht hblind (Act.op_keeping _ _ _ (ho hplace))
    | false =>
      have hleft := h.aside hs hblind fun _ _ => hplace
      exact (hleft.symm.aside ht hblind fun _ _ => hplace).symm

theorem perform_aside (h : Twins D p q s t) {o : Op κ}
    (hself : ∀ a, s.actor? self = Option.some a → D.inside self = false) (ho : o.Harmless D) :
    Twins D p q (System.perform self o s).2 t := by
  cases hcrosses : o.crosses self with
  | true =>
    cases o with
    | execute target action owned =>
      have htaken := h.aside (takeOwned_does s self owned) (Act.entrust_blind owned) hself
      change Twins D p q (s.execute self target action owned) t
      rw [execute_eq]
      refine htaken.push_aside (ho target rfl) fun c hc => ?_
      have hsize : (s.takeOwned self owned).2.calls.size = s.calls.size :=
        (takeOwned_does s self owned).size
      rw [Event.calls, takeOwned_fst] at hc
      cases ha : s.actor? self with
      | none => simp [System.ask, ha] at hc
      | some a =>
        rw [ask_eq ha] at hc
        have hmem : c ∈ a.dispatch.hand.values :=
          (a.dispatch.hand.values_only owned).mem_iff.2 (List.mem_append_left _ hc)
        have hheld := h.left.held self a ha c
          (by simp [Ledger.senders, Ledger.stored, Actor.ledger, hmem])
        rw [hself a ha] at hheld
        exact ⟨hsize ▸ hheld.1, fun hown => Bool.false_ne_true (hheld.2.1 hown)⟩
    | _ => cases hcrosses
  | false =>
    refine h.aside (perform_does self hcrosses s) (Act.op_blind _ _ _ o) fun a ha => ?_
    cases haims : o.aims with
    | none =>
      rw [Op.place, haims, Option.getD_none] at ha ⊢
      exact hself a ha
    | some target =>
      rw [Op.place, haims, Option.getD_some]
      exact ho target haims

end Twins

def shown (D : Division κ) (xs : List (Done κ)) : List (Done κ) := xs.filter fun x => !x.op.reads D

theorem Twins.exec (h : Twins D p q s t) (hself : D.inside self = true) {code : Prog κ Unit}
    (hcode : code.Heedless D) :
    shown D (doings self code s) = shown D (doings self code t) ∧
      (System.exec self code s).1 = (System.exec self code t).1 ∧
      Twins D p q (System.exec self code s).2 (System.exec self code t).2 := by
  induction code generalizing s t with
  | pure x => exact ⟨rfl, rfl, h⟩
  | panic => exact ⟨rfl, rfl, h⟩
  | op o next ih =>
    obtain ⟨hgives, hleaks, hreads, hnext⟩ := hcode
    have hperform := h.perform o (.inl hself) hleaks fun hplace => hgives (Op.inside_aims hplace)
    cases ho : o.reads D with
    | false =>
      have hanswer := h.perform_fst hself o ho
      obtain ⟨hdoings, hresult, hexec⟩ := ih _ hperform (hnext _)
      simp only [doings, System.exec]
      rw [← hanswer]
      refine ⟨?_, hresult, hexec⟩
      simp only [shown, List.filter_cons, ho, Bool.not_false, if_true] at hdoings ⊢
      rw [hdoings]
    | true =>
      have hsame := hreads ho (System.perform self o s).1 (System.perform self o t).1
      obtain ⟨hdoings, hresult, hexec⟩ := ih _ hperform (hnext (System.perform self o s).1)
      simp only [doings, System.exec]
      rw [← hsame]
      refine ⟨?_, hresult, hexec⟩
      simpa only [shown, List.filter_cons, ho, Bool.not_true, Bool.false_eq_true, if_false]
        using hdoings

end System

end ActorSystem
