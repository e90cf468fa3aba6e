import ActorSystem.Proofs.Interleaving

/-!
Isolation. Whatever the actors outside are given and do, their panics included, as long as they
leave those inside alone, those inside do the same and end up the same.
-/

set_option autoImplicit false

namespace ActorSystem

variable {κ : Type} {D : Division κ}

def Stir.hands : Stir κ → Option κ
  | .outside o => o.hands
  | _ => none

/-- What a stir is to the actors inside, who know a call by its place among those made to them: it
may be nothing. -/
def Stir.seen (D : Division κ) (own : List CallRef) : Stir κ → Option (Stir κ)
  | .outside o => if o.aims.any D.inside then some (.outside o) else none
  | .request r name args => if D.inside r then some (.request r name args) else none
  | .expire c => if c ∈ own then some (.expire (own.idxOf c)) else none
  | .abandon c => if c ∈ own then some (.abandon (own.idxOf c)) else none
  | .spawn name => some (.spawn name)
  | .arrange clock ids started names pools => some (.arrange clock ids started names pools)
  | .turn r => if D.inside r then some (.turn r) else none
  | .run => some .run

def Stir.original (own : List CallRef) : Stir κ → Stir κ
  | .expire i => .expire (own.getD i 0)
  | .abandon i => .abandon (own.getD i 0)
  | x => x

theorem Stir.eq_original {own : List CallRef} {x z : Stir κ} (h : x.seen D own = some z) :
    x = z.original own := by
  have hget : ∀ {c}, c ∈ own → own.getD (own.idxOf c) 0 = c := fun hc => by
    rw [List.getD_eq_getElem?_getD, List.getElem?_idxOf hc, Option.getD_some]
  cases x with
  | outside | request | turn =>
    simp only [seen, Option.ite_none_right_eq_some, Option.some.injEq] at h
    obtain ⟨-, rfl⟩ := h
    rfl
  | spawn | arrange | run =>
    simp only [seen, Option.some.injEq] at h
    subst h
    rfl
  | expire c | abandon c =>
    simp only [seen, Option.ite_none_right_eq_some, Option.some.injEq] at h
    obtain ⟨hc, rfl⟩ := h
    simp only [original, hget hc]

namespace System

variable {p q : Tally} {s s' t t' : System κ} {r : ActorRef} {limit limit' : Nat}
  {code code' : κ → Invocation → Prog κ Unit} {ds es : List (Deed κ)} {x y z : Stir κ}

/-- What a call to an actor inside is answered at once, as far as a stir makes one. -/
def answered (D : Division κ) (s : System κ) : Stir κ → List (Except Error CallRef)
  | .request r name args => if D.inside r then [(s.request r name args).1] else []
  | _ => []

def opened (D : Division κ) (s : System κ) (x : Stir κ) : List CallRef :=
  (answered D s x).filterMap Except.toOption

/-- What the calls made to actors inside in a scenario are answered at once. -/
def answers (D : Division κ) (code : κ → Invocation → Prog κ Unit) (limit : Nat) :
    List (Stir κ) → System κ → List (Except Error CallRef)
  | [], _ => []
  | x :: xs, s =>
    answered D s x ++ ((stir code limit x s).map fun p => answers D code limit xs p.2).getD []

def made (D : Division κ) (code : κ → Invocation → Prog κ Unit) (limit : Nat) (xs : List (Stir κ))
    (s : System κ) : List CallRef :=
  (answers D code limit xs s).filterMap Except.toOption

/-- What the actors inside see of a scenario before which certain calls were made to them. -/
def witnessed (D : Division κ) (code : κ → Invocation → Prog κ Unit) (limit : Nat) :
    List (Stir κ) → List CallRef → System κ → List (Stir κ)
  | [], _, _ => []
  | x :: xs, own, s =>
    (x.seen D own).toList ++
      ((stir code limit x s).map fun p =>
        witnessed D code limit xs (own ++ opened D s x) p.2).getD []

theorem answers_cons (D : Division κ) (xs : List (Stir κ))
    (hs : stir code limit x s = some (ds, s')) :
    answers D code limit (x :: xs) s = answered D s x ++ answers D code limit xs s' := by
  simp only [answers, hs, Option.map_some, Option.getD_some]

theorem made_cons (D : Division κ) (xs : List (Stir κ)) (hs : stir code limit x s = some (ds, s')) :
    made D code limit (x :: xs) s = opened D s x ++ made D code limit xs s' := by
  rw [made, answers_cons D xs hs, List.filterMap_append]
  rfl

theorem witnessed_cons (D : Division κ) (xs : List (Stir κ)) (own : List CallRef)
    (hs : stir code limit x s = some (ds, s')) :
    witnessed D code limit (x :: xs) own s =
      (x.seen D own).toList ++ witnessed D code limit xs (own ++ opened D s x) s' := by
  simp only [witnessed, hs, Option.map_some, Option.getD_some]

theorem answered_request {r : ActorRef} {a : Actor κ} (hr : D.inside r = true)
    (ha : s.actor? r = some a) (name : String) (args : Args) :
    answered D s (.request r name args) =
      [if a.refuses then .error (.actorClosed a.name) else .ok s.calls.size] := by
  cases hopen : a.refuses with
  | true => simp [answered, hr, request, ha, hopen]
  | false => simp [answered, hr, request_open ha hopen]

/-- Two systems show the same inside after calls were answered and deeds done in each. -/
structure Abreast (D : Division κ) (p q : Tally) (told told' : List (Except Error CallRef))
    (ds es : List (Deed κ)) (s t : System κ) : Prop where
  answers : told.map (Except.map p.number) = told'.map (Except.map q.number)
  deeds : sightings D p.number ds = sightings D q.number es
  twins : Twins D (p.add (told.filterMap Except.toOption)) (q.add (told'.filterMap Except.toOption)) s t

namespace Abreast

variable {told told' later later' : List (Except Error CallRef)} {ds' es' : List (Deed κ)}

theorem of_twins (h : Twins D p q s t) (hseen : sightings D p.number ds = sightings D q.number es) :
    Abreast D p q [] [] ds es s t where
  answers := rfl
  deeds := hseen
  twins := by simpa only [List.filterMap_nil, Tally.add_nil] using h

theorem quiet (h : Abreast D p q [] [] ds es s t) : Twins D p q s t := by
  simpa only [List.filterMap_nil, Tally.add_nil] using h.twins

theorem nothing (h : Abreast D p q told [] ds es s t) : told = [] := List.map_eq_nil_iff.1 h.answers

theorem symm (h : Abreast D p q told told' ds es s t) : Abreast D q p told' told es ds t s :=
  ⟨h.answers.symm, h.deeds.symm, h.twins.symm⟩

theorem append (h : Abreast D p q told told' ds es s t)
    (h' : Abreast D (p.add (told.filterMap Except.toOption)) (q.add (told'.filterMap Except.toOption))
      later later' ds' es' s' t') :
    Abreast D p q (told ++ later) (told' ++ later') (ds ++ ds') (es ++ es') s' t' where
  answers := by
    rw [List.map_append, List.map_append, h.answers]
    exact congrArg (told'.map (Except.map q.number) ++ ·) h'.answers
  deeds := by
    rw [sightings_append, sightings_append, h.deeds]
    exact congrArg (sightings D q.number es ++ ·) h'.deeds
  twins := by
    have htwins := h'.twins
    rwa [Tally.add_add, Tally.add_add, ← List.filterMap_append, ← List.filterMap_append] at htwins

theorem quiet_append (h : Abreast D p q [] [] ds es s t)
    (h' : Abreast D p q later later' ds' es' s' t') :
    Abreast D p q later later' (ds ++ ds') (es ++ es') s' t' :=
  h.append (by simpa only [List.filterMap_nil, Tally.add_nil] using h')

end Abreast

namespace Twins

theorem stir_aside (h : Twins D p q s t) (hx : x.seen D p.own = Option.none)
    (hs : stir code limit x s = Option.some (ds, s')) (hds : D.Undisturbed ds) :
    Abreast D p q (answered D s x) [] ds [] s' t := by
  cases x with
  | outside o =>
    obtain ⟨rfl, rfl⟩ := Prod.mk.inj (Option.some.inj hs)
    refine .of_twins (h.perform_aside (fun a ha => by simp [actor?] at ha) fun r hr => ?_) rfl
    have haims : o.aims = Option.some r := hr
    simpa [Stir.seen, haims] using hx
  | request r name args =>
    obtain ⟨rfl, rfl⟩ := Prod.mk.inj (Option.some.inj hs)
    have hr : D.inside r = false := by simpa [Stir.seen] using hx
    have hnone : answered D s (.request r name args) = [] := by simp [answered, hr]
    rw [hnone]
    refine .of_twins ?_ rfl
    cases ha : s.actor? r with
    | none =>
      simp only [System.request, ha]
      exact h
    | some a =>
      rw [request_eq ha]
      split
      · exact h
      · exact h.opening_aside hr ha name args
  | expire c =>
    obtain ⟨rfl, rfl⟩ := Prod.mk.inj (Option.some.inj hs)
    exact .of_twins (h.settle_aside (by simpa [Stir.seen] using hx) _) rfl
  | abandon c =>
    obtain ⟨rfl, rfl⟩ := Prod.mk.inj (Option.some.inj hs)
    exact .of_twins (h.settle_aside (by simpa [Stir.seen] using hx) _) rfl
  | turn r =>
    have hr : D.inside r = false := by simpa [Stir.seen] using hx
    simp only [stir] at hs
    split at hs
    · obtain ⟨s₁, hturn, heq⟩ := Option.map_eq_some_iff.1 hs
      obtain ⟨rfl, rfl⟩ := Prod.mk.inj heq
      have hwithin : Within (Op.Harmless D) (turnDeeds code limit r s) := fun d hd =>
        hds d hd (turnDeeds_actor code r limit s d hd ▸ hr)
      obtain ⟨hturned, hnone⟩ := h.turn_aside hr hturn hwithin
      exact .of_twins hturned hnone
    · obtain ⟨rfl, rfl⟩ := Prod.mk.inj (Option.some.inj hs)
      exact .of_twins h rfl
  | spawn | arrange | run => simp [Stir.seen] at hx

theorem settle_seen (h : Twins D p q s t) {c d : CallRef} (hc : c ∈ p.own) (hd : d ∈ q.own)
    (hcd : p.own.idxOf c = q.own.idxOf d) (state : CallState) :
    Twins D p q (s.settle c state).2 (t.settle d state).2 := by
  refine h.settle hc hd ?_ state
  rw [h.left.numbered _ c (List.getElem?_idxOf hc), h.right.numbered _ d (List.getElem?_idxOf hd), hcd]

/-- A call to an actor inside: it is refused in both systems, or made in both. -/
theorem request_seen (h : Twins D p q s t) (hr : D.inside r = true) (name : String) (args : Args)
    (hp : ∀ c ∈ opened D s (.request r name args), p.number c = p.own.length)
    (hq : ∀ c ∈ opened D t (.request r name args), q.number c = q.own.length) :
    Abreast D p q (answered D s (.request r name args)) (answered D t (.request r name args)) [] []
      (s.request r name args).2 (t.request r name args).2 := by
  cases ha : s.actor? r with
  | none =>
    have ha' := h.none hr ha
    simp only [answered, hr, if_true, System.request, ha, ha']
    refine ⟨rfl, rfl, ?_⟩
    simpa only [List.filterMap_cons, Except.toOption, List.filterMap_nil, Tally.add_nil] using h
  | some a =>
    obtain ⟨a', ha', heq⟩ := h.some hr ha
    have hsame := congrArg Actor.refuses heq
    have hname := congrArg Actor.name heq
    change a.refuses = a'.refuses at hsame
    change a.name = a'.name at hname
    rw [opened, answered_request hr ha] at hp
    rw [opened, answered_request hr ha'] at hq
    rw [answered_request hr ha, answered_request hr ha', request_eq ha, request_eq ha', hsame, hname]
    rw [hsame] at hp
    cases hrefuses : a'.refuses with
    | true =>
      simp only [if_true]
      refine ⟨rfl, rfl, ?_⟩
      simpa only [List.filterMap_cons, Except.toOption, List.filterMap_nil, Tally.add_nil] using h
    | false =>
      simp only [hrefuses, Bool.false_eq_true, if_false, List.filterMap_cons, Except.toOption,
        List.filterMap_nil, List.mem_singleton, forall_eq] at hp hq ⊢
      refine ⟨?_, rfl, h.opening hr ha ha' hp hq name args⟩
      simp only [List.map_cons, List.map_nil, Except.map, hp, hq, h.length]

theorem stir_seen (h : Twins D p q s t) (hcode : D.Agree code code')
    (hx : x.seen D p.own = Option.some z) (hy : y.seen D q.own = Option.some z)
    (hz : ∀ k ∈ z.hands, D.ours k) (hs : stir code limit x s = Option.some (ds, s'))
    (ht : stir code' limit' y t = Option.some (es, t')) (hds : D.Undisturbed ds)
    (hes : D.Undisturbed es) (hp : ∀ c ∈ opened D s x, p.number c = p.own.length)
    (hq : ∀ c ∈ opened D t y, q.number c = q.own.length) :
    Abreast D p q (answered D s x) (answered D t y) ds es s' t' := by
  have hxz := Stir.eq_original hx
  have hyz := Stir.eq_original hy
  cases z with
  | outside o =>
    obtain rfl : x = .outside o := hxz
    obtain rfl : y = .outside o := hyz
    obtain ⟨rfl, rfl⟩ := Prod.mk.inj (Option.some.inj hs)
    obtain ⟨rfl, rfl⟩ := Prod.mk.inj (Option.some.inj ht)
    have hnobody : ∀ s : System κ, s.actor? s.actors.size = Option.none := fun s => by simp [actor?]
    have haims : o.aims.any D.inside = true := by simpa [Stir.seen] using hx
    have hleaks : o.leaks D = false := by
      cases o with
      | execute target action owned =>
        have hinside : D.inside target = true := by simpa [Op.aims] using haims
        simp [Op.leaks, hinside]
      | _ => rfl
    have hboth := h.perform o (.inr ⟨hnobody s, by rw [← h.size, hnobody t]⟩) hleaks fun _ => hz
    rw [h.size]
    exact .of_twins hboth rfl
  | request r name args =>
    obtain rfl : x = .request r name args := hxz
    obtain rfl : y = .request r name args := hyz
    obtain ⟨rfl, rfl⟩ := Prod.mk.inj (Option.some.inj hs)
    obtain ⟨rfl, rfl⟩ := Prod.mk.inj (Option.some.inj ht)
    exact h.request_seen (by simpa [Stir.seen] using hx) name args hp hq
  | expire i =>
    obtain rfl : x = .expire (p.own.getD i 0) := hxz
    obtain rfl : y = .expire (q.own.getD i 0) := hyz
    obtain ⟨rfl, rfl⟩ := Prod.mk.inj (Option.some.inj hs)
    obtain ⟨rfl, rfl⟩ := Prod.mk.inj (Option.some.inj ht)
    simp only [Stir.seen, Option.ite_none_right_eq_some, Option.some.injEq, Stir.expire.injEq] at hx hy
    exact .of_twins (h.settle_seen hx.1 hy.1 (hx.2.trans hy.2.symm) _) rfl
  | abandon i =>
    obtain rfl : x = .abandon (p.own.getD i 0) := hxz
    obtain rfl : y = .abandon (q.own.getD i 0) := hyz
    obtain ⟨rfl, rfl⟩ := Prod.mk.inj (Option.some.inj hs)
    obtain ⟨rfl, rfl⟩ := Prod.mk.inj (Option.some.inj ht)
    simp only [Stir.seen, Option.ite_none_right_eq_some, Option.some.injEq, Stir.abandon.injEq] at hx hy
    exact .of_twins (h.settle_seen hx.1 hy.1 (hx.2.trans hy.2.symm) _) rfl
  | spawn name =>
    obtain rfl : x = .spawn name := hxz
    obtain rfl : y = .spawn name := hyz
    obtain ⟨rfl, rfl⟩ := Prod.mk.inj (Option.some.inj hs)
    obtain ⟨rfl, rfl⟩ := Prod.mk.inj (Option.some.inj ht)
    exact .of_twins (h.spawn name) rfl
  | arrange clock ids started names pools =>
    obtain rfl : x = .arrange clock ids started names pools := hxz
    obtain rfl : y = .arrange clock ids started names pools := hyz
    obtain ⟨rfl, rfl⟩ := Prod.mk.inj (Option.some.inj hs)
    obtain ⟨rfl, rfl⟩ := Prod.mk.inj (Option.some.inj ht)
    exact .of_twins (h.arrange clock ids started names pools) rfl
  | turn r =>
    obtain rfl : x = .turn r := hxz
    obtain rfl : y = .turn r := hyz
    have hr : D.inside r = true := by simpa [Stir.seen] using hx
    have halive : s.ask r false Actor.alive = t.ask r false Actor.alive := h.ask hr _ fun _ _ => rfl
    simp only [stir, halive] at hs ht
    split at hs
    · rename_i hturn
      rw [if_pos hturn] at ht
      obtain ⟨s₁, hs₁, heq⟩ := Option.map_eq_some_iff.1 hs
      obtain ⟨rfl, rfl⟩ := Prod.mk.inj heq
      obtain ⟨t₁, ht₁, heq⟩ := Option.map_eq_some_iff.1 ht
      obtain ⟨rfl, rfl⟩ := Prod.mk.inj heq
      obtain ⟨hseen, hboth⟩ := h.turn hr hcode hs₁ ht₁
      exact .of_twins hboth hseen
    · rename_i hturn
      rw [if_neg hturn] at ht
      obtain ⟨rfl, rfl⟩ := Prod.mk.inj (Option.some.inj hs)
      obtain ⟨rfl, rfl⟩ := Prod.mk.inj (Option.some.inj ht)
      exact .of_twins h rfl
  | run =>
    obtain rfl : x = .run := hxz
    obtain rfl : y = .run := hyz
    obtain ⟨s₁, hs₁, heq⟩ := Option.map_eq_some_iff.1 hs
    obtain ⟨rfl, rfl⟩ := Prod.mk.inj heq
    obtain ⟨t₁, ht₁, heq⟩ := Option.map_eq_some_iff.1 ht
    obtain ⟨rfl, rfl⟩ := Prod.mk.inj heq
    obtain ⟨hseen, hboth⟩ := h.run hcode hs₁ ht₁ hds hes
    exact .of_twins hboth hseen

end Twins

/-- A scenario that comes to an end and in which the actors outside leave those inside alone, with
what these see of it; a call to one of them has the number that is its place in the end. -/
structure Play (D : Division κ) (code : κ → Invocation → Prog κ Unit) (limit : Nat) (p : Tally)
    (xs : List (Stir κ)) (s : System κ) (zs : List (Stir κ)) (ds : List (Deed κ)) (s' : System κ) :
    Prop where
  course : course code limit xs s = some (ds, s')
  undisturbed : D.Undisturbed ds
  witnessed : witnessed D code limit xs p.own s = zs
  number : p.number = (p.own ++ made D code limit xs s).idxOf

namespace Play

variable {xs : List (Stir κ)} {zs : List (Stir κ)}

theorem first (h : Play D code limit p (x :: xs) s zs ds s') :
    ∃ here s₁ there zs', stir code limit x s = some (here, s₁) ∧ D.Undisturbed here ∧
      ds = here ++ there ∧ zs = (x.seen D p.own).toList ++ zs' ∧
      Play D code limit (p.add (opened D s x)) xs s₁ zs' there s' := by
  obtain ⟨⟨here, s₁⟩, hstir, hrest⟩ := Option.bind_eq_some_iff.1 h.course
  obtain ⟨⟨there, s₂⟩, hcourse, heq⟩ := Option.map_eq_some_iff.1 hrest
  obtain ⟨rfl, rfl⟩ := Prod.mk.inj heq
  obtain ⟨hhere, hthere⟩ := Division.Undisturbed.append.1 h.undisturbed
  have hseen := h.witnessed
  have hnumber := h.number
  rw [witnessed_cons D xs p.own hstir] at hseen
  rw [made_cons D xs hstir, ← List.append_assoc] at hnumber
  exact ⟨here, s₁, there, _, hstir, hhere, rfl, hseen.symm, hcourse, hthere, rfl, hnumber⟩

theorem number_opened (h : Play D code limit p (x :: xs) s zs ds s') (hown : Owned D p s) :
    ∀ c ∈ opened D s x, p.number c = p.own.length := by
  intro c hc
  obtain ⟨here, s₁, there, zs', hstir, -⟩ := h.first
  have hone : opened D s x = [c] ∧ c = s.calls.size := by
    cases x with
    | request r name args =>
      cases hr : D.inside r with
      | false => simp [opened, answered, hr] at hc
      | true =>
        cases ha : s.actor? r with
        | none => simp [opened, answered, hr, request, ha, Except.toOption] at hc
        | some a =>
          rw [opened, answered_request hr ha] at hc ⊢
          cases hrefuses : a.refuses with
          | true => simp [hrefuses, Except.toOption] at hc
          | false =>
            obtain rfl : c = s.calls.size := by simpa [hrefuses, Except.toOption] using hc
            exact ⟨rfl, rfl⟩
    | _ => simp [opened, answered] at hc
  obtain ⟨hone, rfl⟩ := hone
  have hnot : s.calls.size ∉ p.own := fun hmem => Nat.lt_irrefl _ (hown.known _ hmem)
  calc p.number s.calls.size
      = (p.own ++ (s.calls.size :: made D code limit xs s₁)).idxOf s.calls.size := by
        rw [h.number, made_cons D xs hstir, hone, List.singleton_append]
    _ = p.own.length := by
        rw [List.idxOf_append_of_notMem hnot, List.idxOf_cons_self, Nat.add_zero]

end Play

namespace Twins

variable {xs ys : List (Stir κ)} {zs : List (Stir κ)}

theorem course_aside (h : Twins D p q s t) (hplay : Play D code limit p xs s [] ds s') :
    Abreast D p q (System.answers D code limit xs s) [] ds [] s' t := by
  induction xs generalizing s ds with
  | nil =>
    obtain ⟨rfl, rfl⟩ := Prod.mk.inj (Option.some.inj hplay.course)
    exact .of_twins h rfl
  | cons x xs ih =>
    obtain ⟨here, s₁, there, zs', hstir, hhere, rfl, hseen, hrest⟩ := hplay.first
    obtain ⟨hx, rfl⟩ := List.append_eq_nil_iff.1 hseen.symm
    have hfirst := h.stir_aside (Option.toList_eq_nil_iff.1 hx) hstir hhere
    have hnone := hfirst.nothing
    rw [hnone] at hfirst
    rw [opened, hnone, List.filterMap_nil, Tally.add_nil] at hrest
    rw [answers_cons D xs hstir, hnone, List.nil_append]
    exact hfirst.quiet_append (ih hfirst.quiet hrest)

theorem course_up_to (h : Twins D p q s t) (hplay : Play D code limit p xs s (z :: zs) ds s') :
    ∃ x later s₁ before rest, x.seen D p.own = Option.some z ∧
      Abreast D p q [] [] before [] s₁ t ∧ ds = before ++ rest ∧
      Play D code limit p (x :: later) s₁ (z :: zs) rest s' ∧
      System.answers D code limit xs s = System.answers D code limit (x :: later) s₁ := by
  induction xs generalizing s ds with
  | nil => cases hplay.witnessed
  | cons x xs ih =>
    cases hx : x.seen D p.own with
    | some z' =>
      obtain ⟨here, s₁, there, zs', -, -, -, hseen, -⟩ := hplay.first
      rw [hx, Option.toList_some, List.singleton_append] at hseen
      obtain ⟨rfl, -⟩ := List.cons.inj hseen
      exact ⟨x, xs, s, [], ds, hx, .of_twins h rfl, rfl, hplay, rfl⟩
    | none =>
      obtain ⟨here, s₁, there, zs', hstir, hhere, rfl, hseen, hrest⟩ := hplay.first
      rw [hx, Option.toList_none, List.nil_append] at hseen
      have hfirst := h.stir_aside hx hstir hhere
      have hnone := hfirst.nothing
      rw [hnone] at hfirst
      rw [opened, hnone, List.filterMap_nil, Tally.add_nil, ← hseen] at hrest
      obtain ⟨y, later, s₂, before, rest, hy, hbefore, rfl, hplay', hanswers⟩ :=
        ih hfirst.quiet hrest
      refine ⟨y, later, s₂, here ++ before, rest, hy, hfirst.quiet_append hbefore,
        (List.append_assoc ..).symm, hplay', ?_⟩
      rw [answers_cons D xs hstir, hnone, List.nil_append, hanswers]

theorem course (hcode : D.Agree code code') (zs : List (Stir κ)) {p q : Tally} {s t : System κ}
    {xs ys : List (Stir κ)} {ds es : List (Deed κ)} (h : Twins D p q s t)
    (hz : ∀ z ∈ zs, ∀ k ∈ z.hands, D.ours k) (hx : Play D code limit p xs s zs ds s')
    (hy : Play D code' limit' q ys t zs es t') :
    Abreast D p q (System.answers D code limit xs s) (System.answers D code' limit' ys t) ds es
      s' t' := by
  induction zs generalizing p q s t xs ys ds es with
  | nil =>
    have hleft := h.course_aside hx
    have hnone := hleft.nothing
    rw [hnone] at hleft ⊢
    have hright := hleft.quiet.symm.course_aside hy
    simpa only [List.append_nil, List.nil_append] using hleft.quiet_append hright.symm
  | cons z zs ih =>
    obtain ⟨x, xs, s₁, before, rest, hxz, hbefore, rfl, hx, hanswers⟩ := h.course_up_to hx
    obtain ⟨y, ys, t₁, before', rest', hyz, hbefore', rfl, hy, hanswers'⟩ :=
      hbefore.quiet.symm.course_up_to hy
    have hready := hbefore.quiet_append hbefore'.symm
    obtain ⟨here, s₂, there, zs₁, hs, hhere, rfl, hseen, hrest⟩ := hx.first
    obtain ⟨here', t₂, there', zs₂, ht, hhere', rfl, hseen', hrest'⟩ := hy.first
    rw [hxz, Option.toList_some, List.singleton_append] at hseen
    rw [hyz, Option.toList_some, List.singleton_append] at hseen'
    obtain ⟨-, rfl⟩ := List.cons.inj hseen
    obtain ⟨-, rfl⟩ := List.cons.inj hseen'
    have hboth := hready.quiet
    have hstir := hboth.stir_seen hcode hxz hyz (hz z List.mem_cons_self) hs ht hhere hhere'
      (hx.number_opened hboth.left) (hy.number_opened hboth.right)
    have hlater := ih hstir.twins (fun z hmem => hz z (List.mem_cons_of_mem _ hmem)) hrest hrest'
    rw [hanswers, hanswers', answers_cons D xs hs, answers_cons D ys ht]
    have hall := hready.quiet_append (hstir.append hlater)
    simpa using hall

end Twins

end System

end ActorSystem
