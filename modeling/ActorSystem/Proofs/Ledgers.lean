import ActorSystem.Proofs.Bookkeeping
import Mathlib.Algebra.BigOperators.Group.List.Basic

set_option autoImplicit false

namespace ActorSystem

namespace Ledger

variable {κ : Type} {config : Config} {mode mode' : Mode κ} {l l' : Ledger κ}

theorem alive_elim (h : l.alive = true) : l.dormant = false ∧ l.closed = false := by
  simpa [alive] using h

theorem open_of_refuses (h : l.refuses = false) : l.closed = false := by
  simp only [refuses, Bool.or_eq_false_iff] at h
  exact h.2

theorem dropped_or (config : Config) (l : Ledger κ) :
    (l.dropped config = l.batch ∧ (l.afterPanic config).batch = []) ∨
      (l.dropped config = [] ∧ (l.afterPanic config).batch = l.batch) := by
  unfold dropped afterPanic
  cases config.restartPolicy with
  | dropBatch => exact .inl ⟨rfl, rfl⟩
  | requeueRemaining => exact .inr ⟨rfl, rfl⟩

/-- Somebody has put an event into the queue and is about to count it. -/
theorem mem_count (h : l.uncounted ≠ 0) : .count ∈ l.legs := by
  by_contra hnone
  refine h (List.sum_eq_zero fun n hn => ?_)
  obtain ⟨leg, hleg, rfl⟩ := List.mem_map.1 hn
  cases leg with
  | count => exact absurd hleg hnone
  | _ => rfl

namespace Fit

theorem new (config : Config) : Fit config .ready (new : Ledger κ) := by
  constructor <;> simp [Ledger.new, uncounted, lifted, Ledger.halted]

theorem reply_ready (h : Fit config .ready l) : l.reply = none := by
  cases hr : l.reply with
  | none => rfl
  | some c =>
    obtain ⟨e, he, -⟩ := h.reply c hr
    cases he

/-- While code runs, the actor is neither new nor at its end. -/
theorem running (h : Fit config mode l) (hmode : mode ≠ .ready) :
    l.dormant = false ∧ l.closed = false ∧ l.halted = false := by
  refine ⟨?_, ?_, ?_⟩ <;> rw [Bool.eq_false_iff]
  · exact fun hd => hmode (h.dormant hd).1
  · exact fun hc => hmode (h.closed hc).1
  · exact fun hf => hmode (h.halted hf).1

theorem accept (h : Fit config mode l) (hopen : l.refuses = false) (e : Event κ) :
    Fit config mode (l.accept e) := by
  have hclosed := open_of_refuses hopen
  have hpending := h.pending
  refine { h with pending := ?_, cleared := ?_ }
  · simp only [Ledger.accept, uncounted, lifted, List.length_append, List.length_singleton] at hpending ⊢
    omega
  · exact fun hc => absurd (hclosed.symm.trans hc) Bool.false_ne_true

/-- A thread that is not half through with anything sets to work. -/
theorem board (h : Fit config mode l) {leg : Leg κ} (hcount : leg.uncounted = 0 ∧ leg.lifted = 0)
    (hsweeps : leg.sweeps = false)
    (hfinal : leg.isFinal = true → l.halted = false ∧ mode = .ready ∧ l.batch = [] ∧
      l.dormant = false ∧ l.closed = false ∧ (l.kept = .empty ∧ l.purses = [] ∨ leg = .mark true)) :
    Fit config mode (l.board leg) := by
  have hlegs : (l.board leg).legs = l.legs ++ [leg] := rfl
  have hpending := h.pending
  refine { h with
    pending := ?_, cleared := fun hc => ?_, left := fun hc => ?_, halted := fun hh => ?_, single := ?_
    sweeps := ?_ }
  · simp only [Ledger.board, uncounted, lifted, List.map_append, List.sum_append, List.map_cons,
      List.map_nil, List.sum_singleton, hcount.1, hcount.2] at hpending ⊢
    omega
  · obtain hnil | ⟨leg', hmem, hclears⟩ := h.cleared hc
    · exact .inl hnil
    · exact .inr ⟨leg', List.mem_append_left _ hmem, hclears⟩
  · obtain hnone | ⟨leg', hmem, hleaves⟩ := h.left hc
    · exact .inl hnone
    · exact .inr ⟨leg', List.mem_append_left _ hmem, hleaves⟩
  · simp only [Ledger.halted, hlegs, List.any_append, List.any_cons, List.any_nil, Bool.or_false,
      Bool.or_eq_true] at hh
    rcases hh with hold | hnew
    · obtain ⟨hmode, hbatch, hdormant, hclosed, hkept⟩ := h.halted hold
      exact ⟨hmode, hbatch, hdormant, hclosed, hkept.imp_right (List.mem_append_left _)⟩
    · obtain ⟨-, hmode, hbatch, hdormant, hclosed, hkept⟩ := hfinal hnew
      refine ⟨hmode, hbatch, hdormant, hclosed, hkept.imp_right fun heq => ?_⟩
      exact heq ▸ List.mem_append_right _ (List.mem_singleton_self _)
  · rw [hlegs, List.countP_append, List.countP_singleton]
    split
    · rename_i hnew
      have hnone : l.legs.countP Leg.isFinal = 0 := by
        have hany := (hfinal hnew).1
        simp only [Ledger.halted, List.any_eq_false] at hany
        exact List.countP_eq_zero.2 hany
      omega
    · exact h.single
  · intro leg' hmem hs
    rcases List.mem_append.1 hmem with hold | hnew
    · exact h.sweeps leg' hold hs
    · rw [List.mem_singleton.1 hnew, hsweeps] at hs
      cases hs

theorem swept (h : Fit config mode l) {gone rest : List (Event κ)} (hs : l.Swept gone rest) :
    l.pending - gone.length + l.uncounted = rest.length + l.lifted ∧
      (rest = [] ∨ ∃ leg ∈ l.legs, leg.clears = true) := by
  have hpending := h.pending
  rw [hs.inbox, List.length_append] at hpending
  refine ⟨by omega, hs.rest.imp_right fun hneg => ?_⟩
  -- More have been taken than were counted, so that somebody is about to count.
  exact ⟨.count, mem_count (by omega), rfl⟩

theorem afterPanic (h : Fit config mode l) (hmode : mode ≠ .ready) :
    Fit config .ready (l.afterPanic config) := by
  obtain ⟨hdormant, hclosed, hfree⟩ := h.running hmode
  refine { h with
    reply := by simp [Ledger.afterPanic], hand := fun _ => rfl, dormant := fun hd => ?_
    closed := by simp [Ledger.afterPanic], cleared := by simp [Ledger.afterPanic]
    left := by simp [Ledger.afterPanic], halted := fun hh => ?_, sweeps := fun leg hleg hs => ?_
    batch := ?_, handling := by simp, firing := by simp }
  · exact absurd (hdormant.symm.trans hd) Bool.false_ne_true
  · exact absurd (hfree.symm.trans hh) Bool.false_ne_true
  · exact absurd (hclosed.symm.trans (h.sweeps leg hleg hs)) Bool.false_ne_true
  · rcases dropped_or config l with ⟨-, hb⟩ | ⟨-, hb⟩ <;> rw [hb]
    · exact Nat.zero_le _
    · exact h.batch

end Fit

end Ledger

section

open Ledger (alive_elim)

variable {κ : Type} {config : Config} {mode mode' : Mode κ} {l l' : Ledger κ}
  {hs : List (Happening κ)} {xs : List (CallRef × CallState)} {ins outs : List CallRef}

/-- Replies come and go; the actor is not at its end, or it has no more of them than before. -/
theorem Ledger.Fit.carries (h : l.Fit config mode) {reply : Option CallRef} {hand kept : Replies}
    {purses : List (Timer.TimerId × Replies)} (hreply : reply = l.reply ∨ reply = none)
    (hhand : mode = .ready → hand = .empty)
    (hrest : mode ≠ .ready ∨ (l.kept = .empty → kept = .empty) ∧ (l.purses = [] → purses = [])) :
    Ledger.Fit config mode { l with reply, hand, kept, purses } := by
  have hkeeps : mode = .ready → (l.kept = .empty → kept = .empty) ∧ (l.purses = [] → purses = []) :=
    fun hmode => hrest.resolve_left (not_not.2 hmode)
  refine { h with
    reply := fun c hc => ?_, hand := hhand, dormant := fun hd => ?_, left := fun hc => ?_
    halted := fun hh => ?_ }
  · rcases hreply with rfl | rfl
    · exact h.reply c hc
    · cases hc
  · obtain ⟨hmode, hbatch, hk, hp⟩ := h.dormant hd
    exact ⟨hmode, hbatch, (hkeeps hmode).1 hk, (hkeeps hmode).2 hp⟩
  · refine (h.left hc).imp_left fun hnone => ?_
    have hmode := (h.closed hc).1
    exact ⟨(hkeeps hmode).1 hnone.1, (hkeeps hmode).2 hnone.2⟩
  · obtain ⟨hmode, hbatch, hd, hc, hk⟩ := h.halted hh
    exact ⟨hmode, hbatch, hd, hc, hk.imp_left fun hnone =>
      ⟨(hkeeps hmode).1 hnone.1, (hkeeps hmode).2 hnone.2⟩⟩

theorem Effect.fit (ha : Effect mode l ins hs xs outs l') (h : l.Fit config mode) :
    l'.Fit config mode := by
  cases ha with
  | accept e hcall hopen => exact h.accept hopen e
  | board e hcall hopen => exact h.board ⟨rfl, rfl⟩ rfl (by simp [Leg.isFinal])
  | start hd =>
    refine { h with dormant := by simp, closed := fun hc => ?_, halted := fun hh => ?_ }
    · obtain ⟨hmode, hbatch, -⟩ := h.closed hc
      exact ⟨hmode, hbatch, rfl⟩
    · obtain ⟨hmode, hbatch, -, hrest⟩ := h.halted hh
      exact ⟨hmode, hbatch, rfl, hrest⟩
  | close hd => exact { h with }
  | cancel gone rest hd hswept =>
    obtain ⟨hmode, hbatch, hkept, hpurses⟩ := h.dormant hd
    obtain ⟨hpending, hcleared⟩ := h.swept hswept
    exact { h with
      pending := hpending, dormant := by simp, closed := fun _ => ⟨hmode, hbatch, rfl⟩
      cleared := fun _ => hcleared, left := fun _ => .inl ⟨hkept, hpurses⟩
      halted := fun hh => absurd (hd.symm.trans (h.halted hh).2.2.1) Bool.noConfusion
      sweeps := fun _ _ _ => rfl }
  | claim hd =>
    obtain ⟨hmode, hbatch, hkept, hpurses⟩ := h.dormant hd
    have hfree : l.halted = false := by
      rw [Bool.eq_false_iff]
      exact fun hh => absurd (hd.symm.trans (h.halted hh).2.2.1) Bool.noConfusion
    have hopen : l.closed = false := by
      rw [Bool.eq_false_iff]
      exact fun hc => absurd (hd.symm.trans (h.closed hc).2.2) Bool.noConfusion
    have hroused : Ledger.Fit config mode { l with dormant := false } :=
      { h with
        dormant := by simp, closed := fun hc => absurd (hopen.symm.trans hc) Bool.noConfusion
        halted := fun hh => absurd (hfree.symm.trans hh) Bool.noConfusion }
    exact hroused.board ⟨rfl, rfl⟩ rfl fun _ =>
      ⟨hfree, hmode, hbatch, rfl, hopen, .inl ⟨hkept, hpurses⟩⟩
  | warn hd => exact h.board ⟨rfl, rfl⟩ rfl (by simp [Leg.isFinal])
  | answer c vs hr =>
    exact h.carries (.inr rfl) h.hand (.inr ⟨id, id⟩)
  | keep c slot hr =>
    obtain ⟨e, hmode, -⟩ := h.reply c hr
    exact h.carries (.inr rfl) h.hand (.inl (by simp [hmode]))
  | answerKept c slot vs hk =>
    exact h.carries (.inl rfl) h.hand (.inr ⟨fun hk => by simp [hk], id⟩)
  | dropKept slot => exact h.carries (.inl rfl) h.hand (.inr ⟨fun hk => by simp [hk], id⟩)
  | unshelve c slot hmode hk =>
    exact h.carries (.inl rfl) (fun hready => absurd hready hmode) (.inl hmode)
  | shelve c slot hmode hk =>
    exact h.carries (.inl rfl) (fun hready => absurd hready hmode) (.inl hmode)
  | release c slot hk =>
    exact h.carries (.inl rfl) (fun hready => by simp [h.hand hready]) (.inr ⟨id, id⟩)
  | entrust owned =>
    exact h.carries (.inl rfl) (fun hready => by simp [h.hand hready]) (.inr ⟨id, id⟩)
  | stow id owned hmode =>
    exact h.carries (.inl rfl) (fun hready => absurd hready hmode) (.inl hmode)
  | tear timer => exact h.carries (.inl rfl) h.hand (.inr ⟨id, fun hp => by simp [hp]⟩)

/-- A thread goes on, and the actor is closed or open as before. -/
theorem Ledger.Fit.goesOn {before after : List (Leg κ)} {leg : Leg κ} {next : Option (Leg κ)}
    {inbox : List (Event κ)} {pending : Int} {closing : Bool} {kept : Replies}
    {purses : List (Timer.TimerId × Replies)} (h : l.Fit config mode)
    (hlegs : l.legs = before ++ leg :: after)
    (hbalance : pending + (next.toList.map Leg.uncounted).sum + l.inbox.length + leg.lifted =
      l.pending + leg.uncounted + inbox.length + (next.toList.map Leg.lifted).sum)
    (hclear : l.closed = true → l.inbox = [] ∨ leg.clears = true →
      inbox = [] ∨ ∃ leg' ∈ before ++ next.toList ++ after, leg'.clears = true)
    (hleave : leg.leaves = true →
      (∃ leg' ∈ next, leg'.leaves = true) ∨ kept = .empty ∧ purses = [])
    (hkeep : (l.kept = .empty → kept = .empty) ∧ (l.purses = [] → purses = []))
    (hfinal : ∀ leg' ∈ next, leg'.isFinal = true → leg.isFinal = true) (hmark : leg ≠ .mark true)
    (hsweeps : ∀ leg' ∈ next, leg'.sweeps = true → l.closed = true) :
    Ledger.Fit config mode
      { l with inbox, pending, closing, kept, purses, legs := before ++ next.toList ++ after } := by
  have hold : ∀ {leg'}, leg' ∈ l.legs → leg' = leg ∨ leg' ∈ before ++ next.toList ++ after := by
    intro leg' hmem
    rw [hlegs] at hmem
    rcases List.mem_append.1 hmem with hmem | hmem
    · exact .inr (by simp [hmem])
    · exact (List.mem_cons.1 hmem).imp_right fun hmem => by simp [hmem]
  have hnew : ∀ {leg'}, leg' ∈ before ++ next.toList ++ after → leg' ∈ next ∨ leg' ∈ l.legs := by
    intro leg' hmem
    rw [hlegs]
    rcases List.mem_append.1 hmem with hmem | hmem
    · rcases List.mem_append.1 hmem with hmem | hmem
      · exact .inr (by simp [hmem])
      · exact .inl (Option.mem_toList.1 hmem)
    · exact .inr (by simp [hmem])
  refine { h with
    pending := ?_, dormant := fun hd => ?_, cleared := fun hc => ?_, left := fun hc => ?_
    halted := fun hh => ?_, single := ?_, sweeps := fun leg' hmem hs => ?_ }
  · have hpending := h.pending
    simp only [Ledger.uncounted, Ledger.lifted, hlegs, List.map_append, List.map_cons,
      List.sum_append, List.sum_cons] at hpending ⊢
    omega
  · obtain ⟨hmode, hbatch, hk, hp⟩ := h.dormant hd
    exact ⟨hmode, hbatch, hkeep.1 hk, hkeep.2 hp⟩
  · obtain hnil | ⟨leg', hmem, hclears⟩ := h.cleared hc
    · exact hclear hc (.inl hnil)
    · rcases hold hmem with rfl | hmem
      · exact hclear hc (.inr hclears)
      · exact .inr ⟨leg', hmem, hclears⟩
  · obtain ⟨hk, hp⟩ | ⟨leg', hmem, hleaves⟩ := h.left hc
    · exact .inl ⟨hkeep.1 hk, hkeep.2 hp⟩
    · rcases hold hmem with rfl | hmem
      · rcases hleave hleaves with ⟨leg', hmem, hleaves⟩ | hnone
        · exact .inr ⟨leg', by simp [Option.mem_def.1 hmem], hleaves⟩
        · exact .inl hnone
      · exact .inr ⟨leg', hmem, hleaves⟩
  · obtain ⟨leg', hmem, hf⟩ := List.any_eq_true.1 hh
    have hhalted : l.halted = true := by
      rcases hnew hmem with hmem | hmem
      · exact List.any_eq_true.2 ⟨leg, by simp [hlegs], hfinal leg' hmem hf⟩
      · exact List.any_eq_true.2 ⟨leg', hmem, hf⟩
    obtain ⟨hmode, hbatch, hd, hc, hk⟩ := h.halted hhalted
    refine ⟨hmode, hbatch, hd, hc, hk.imp (fun hk => ⟨hkeep.1 hk.1, hkeep.2 hk.2⟩) fun hmem => ?_⟩
    exact (hold hmem).resolve_left (Ne.symm hmark)
  · have hsingle := h.single
    have hcount : next.toList.countP Leg.isFinal ≤ if leg.isFinal then 1 else 0 := by
      cases next with
      | none => simp
      | some leg' =>
        have hf := hfinal leg' rfl
        simp only [Option.toList_some, List.countP_singleton]
        split <;> simp_all
    rw [hlegs] at hsingle
    simp only [List.countP_append, List.countP_cons] at hsingle ⊢
    omega
  · rcases hnew hmem with hmem | hmem
    · exact hsweeps leg' hmem hs
    · exact h.sweeps leg' hmem hs

theorem Ledger.Fit.marked {before after : List (Leg κ)} {own : Bool} (h : l.Fit config mode)
    (hlegs : l.legs = before ++ .mark own :: after) :
    Ledger.Fit config mode { l with closed := true, legs := before ++ [.look own] ++ after } := by
  have hmem : .mark own ∈ l.legs := by simp [hlegs]
  obtain ⟨hmode, hbatch, hdormant, -, hkept⟩ := h.halted (List.any_eq_true.2 ⟨_, hmem, rfl⟩)
  have hothers : ∀ leg ∈ before ++ after, leg.isFinal = false := by
    have hsingle := h.single
    simp only [hlegs, List.countP_append, List.countP_cons, Leg.isFinal, if_true] at hsingle
    intro leg hleg
    rw [Bool.eq_false_iff]
    intro hf
    have hpos := List.countP_pos_iff.2 ⟨leg, hleg, hf⟩
    rw [List.countP_append] at hpos
    omega
  have hfree : (before ++ [Leg.look own] ++ after).any Leg.isFinal = false := by
    simp only [List.any_eq_false, List.mem_append, List.mem_singleton]
    rintro leg ((hleg | rfl) | hleg)
    · simp [hothers leg (List.mem_append_left _ hleg)]
    · simp [Leg.isFinal]
    · simp [hothers leg (List.mem_append_right _ hleg)]
  refine { h with
    pending := ?_, closed := fun _ => ⟨hmode, hbatch, hdormant⟩
    cleared := fun _ => .inr ⟨.look own, by simp, rfl⟩, left := fun _ => ?_
    halted := fun hh => absurd (hfree.symm.trans hh) Bool.noConfusion, single := ?_
    sweeps := fun _ _ _ => rfl }
  · have hpending := h.pending
    simpa [Ledger.uncounted, Ledger.lifted, hlegs, Leg.uncounted, Leg.lifted] using hpending
  · cases own with
    | true => exact .inr ⟨.look true, by simp, rfl⟩
    | false =>
      refine .inl (hkept.resolve_right fun hmem => ?_)
      rw [hlegs] at hmem
      have hmem' : .mark true ∈ before ++ after := by simpa using hmem
      simpa [Leg.isFinal] using hothers _ hmem'
  · have hzero : (before ++ [Leg.look own] ++ after).countP Leg.isFinal = 0 :=
      List.countP_eq_zero.2 (List.any_eq_false.1 hfree)
    exact hzero ▸ Nat.zero_le 1

theorem Flies.fit {before after : List (Leg κ)} {leg : Leg κ} {next : Option (Leg κ)}
    (hf : Flies l leg next hs xs l') (h : l.Fit config mode)
    (hlegs : l.legs = before ++ leg :: after) :
    Ledger.Fit config mode { l' with legs := before ++ next.toList ++ after } := by
  have hmem : leg ∈ l.legs := by simp [hlegs]
  have hclosed := h.sweeps leg hmem
  cases hf with
  | put e =>
    exact h.goesOn hlegs (by simp [Leg.uncounted, Leg.lifted]; omega)
      (fun _ _ => .inr ⟨.count, by simp, rfl⟩) (by simp [Leg.leaves]) ⟨id, id⟩
      (by simp [Leg.isFinal]) (by simp) (by simp [Leg.sweeps])
  | count =>
    exact h.goesOn hlegs (by simp [Leg.uncounted, Leg.lifted])
      (fun _ _ => .inr ⟨.recheck, by simp, rfl⟩) (by simp [Leg.leaves]) ⟨id, id⟩
      (by simp [Leg.isFinal]) (by simp) (by simp [Leg.sweeps])
  | recheck =>
    refine h.goesOn hlegs ?_ (fun hc _ => .inr ⟨.look false, by simp [hc], rfl⟩)
      (by simp [Leg.leaves]) ⟨id, id⟩ ?_ (by simp) ?_
    · split <;> simp [Leg.uncounted, Leg.lifted]
    · split <;> simp [Leg.isFinal]
    · split <;> simp [*]
  | signal unstarted =>
    refine h.goesOn hlegs ?_ (fun hc hor => ?_) (by simp [Leg.leaves]) ⟨id, id⟩ ?_ (by simp) ?_
    · cases unstarted <;> simp [Leg.uncounted, Leg.lifted]
    · exact .inl (hor.resolve_right (by simp [Leg.clears]))
    · cases unstarted <;> simp [Leg.isFinal]
    · cases unstarted <;> simp [Leg.sweeps]
  | mark own => exact h.marked hlegs
  | look own =>
    exact h.goesOn hlegs (by simp [Leg.uncounted, Leg.lifted])
      (fun _ _ => .inr ⟨.lift own, by simp, rfl⟩) (fun hown => .inl ⟨_, rfl, hown⟩) ⟨id, id⟩
      (by simp [Leg.isFinal]) (by simp) (fun _ _ _ => hclosed rfl)
  | outrun own hneg =>
    refine h.goesOn hlegs ?_ (fun _ _ => ?_) ?_ ⟨id, id⟩ ?_ (by simp) fun _ _ _ => hclosed rfl
    · cases own <;> simp [Leg.rest, Leg.uncounted, Leg.lifted]
    · have hpending := h.pending
      have hcount : .count ∈ l.legs := Ledger.mem_count (by omega)
      rw [hlegs] at hcount
      exact .inr ⟨.count, by simpa using Or.imp_right Or.inr (by simpa using hcount), rfl⟩
    · cases own <;> simp [Leg.rest, Leg.leaves]
    · cases own <;> simp [Leg.rest, Leg.isFinal]
  | lift own es rest hinbox hes =>
    refine h.goesOn hlegs ?_ (fun _ _ => .inr ⟨.uncount own es, by simp, rfl⟩)
      (fun hown => .inl ⟨_, rfl, hown⟩) ⟨id, id⟩ (by simp [Leg.isFinal]) (by simp) fun _ _ _ => hclosed rfl
    simp [Leg.uncounted, Leg.lifted, hinbox]
    omega
  | void own hinbox =>
    refine h.goesOn hlegs ?_ (fun _ _ => .inl hinbox) ?_ ⟨id, id⟩ ?_ (by simp)
      fun _ _ _ => hclosed rfl
    · cases own <;> simp [Leg.rest, Leg.uncounted, Leg.lifted]
    · cases own <;> simp [Leg.rest, Leg.leaves]
    · cases own <;> simp [Leg.rest, Leg.isFinal]
  | uncount own es =>
    refine h.goesOn hlegs ?_ (fun _ _ => .inr ⟨.shed own es, by simp, rfl⟩)
      (fun hown => .inl ⟨_, rfl, hown⟩) ⟨id, id⟩ (by simp [Leg.isFinal]) (by simp) fun _ _ _ => hclosed rfl
    simp [Leg.uncounted, Leg.lifted]
    omega
  | shed own es =>
    exact h.goesOn hlegs (by simp [Leg.uncounted, Leg.lifted])
      (fun _ _ => .inr ⟨.look own, by simp, rfl⟩) (fun hown => .inl ⟨_, rfl, hown⟩) ⟨id, id⟩
      (by simp [Leg.isFinal]) (by simp) (fun _ _ _ => hclosed rfl)
  | leave =>
    exact h.goesOn hlegs (by simp [Leg.uncounted, Leg.lifted])
      (fun _ hor => .inl (hor.resolve_right (by simp [Leg.clears]))) (fun _ => .inr ⟨rfl, rfl⟩)
      ⟨fun _ => rfl, fun _ => rfl⟩ (by simp) (by simp) (by simp)

theorem Change.fit (hc : Change config mode l hs xs mode' l') (h : l.Fit config mode) :
    l'.Fit config mode' := by
  cases hc with
  | take items inbox halive hfree hbatch hinbox hsize hnone =>
    obtain ⟨hdormant, hclosed⟩ := alive_elim halive
    have hpending := h.pending
    rw [hinbox, List.length_append] at hpending
    exact { h with
      pending := by simp only [Ledger.uncounted, Ledger.lifted] at hpending ⊢; omega
      dormant := fun hd => absurd (hdormant.symm.trans hd) Bool.noConfusion
      closed := fun hc => absurd (hclosed.symm.trans hc) Bool.noConfusion
      cleared := fun hc => absurd (hclosed.symm.trans hc) Bool.noConfusion
      halted := fun hh => absurd (hfree.symm.trans hh) Bool.noConfusion
      batch := hsize, handling := by simp, firing := by simp }
  | begin e batch reply gone hfree hbatch hcall =>
    have hsize := h.batch
    have hne : l.batch ≠ [] := by simp [hbatch]
    rw [hbatch, List.length_cons] at hsize
    refine { h with
      reply := fun c hc => ⟨e, rfl, ?_⟩, hand := by simp
      dormant := fun hd => absurd (h.dormant hd).2.1 hne
      closed := fun hc => absurd (h.closed hc).2.1 hne
      halted := fun hh => absurd (hfree.symm.trans hh) Bool.noConfusion
      batch := Nat.le_of_succ_le hsize, handling := fun _ _ => hsize, firing := by simp }
    have hc' : reply = some c := hc
    have hmem : c ∈ e.call?.toList := by
      simpa [h.reply_ready] using hcall.subset (show c ∈ _ by simp [hc'])
    exact Option.mem_toList.1 hmem
  | complete e =>
    obtain ⟨hdormant, hclosed, hfree⟩ := h.running (by simp)
    exact { h with
      reply := by simp, hand := fun _ => rfl
      dormant := fun hd => absurd (hdormant.symm.trans hd) Bool.noConfusion
      closed := fun hc => absurd (hclosed.symm.trans hc) Bool.noConfusion
      halted := fun hh => absurd (hfree.symm.trans hh) Bool.noConfusion
      handling := by simp, firing := by simp }
  | panic e => exact h.afterPanic (by simp)
  | fire id halive hfree hbatch =>
    obtain ⟨hdormant, hclosed⟩ := alive_elim halive
    exact { h with
      reply := by simp [h.reply_ready], hand := by simp
      dormant := fun hd => absurd (hdormant.symm.trans hd) Bool.noConfusion
      closed := fun hc => absurd (hclosed.symm.trans hc) Bool.noConfusion
      left := fun hc => absurd (hclosed.symm.trans hc) Bool.noConfusion
      halted := fun hh => absurd (hfree.symm.trans hh) Bool.noConfusion
      handling := by simp, firing := fun _ => hbatch }
  | fired =>
    obtain ⟨hdormant, hclosed, hfree⟩ := h.running (by simp)
    exact { h with
      reply := by simp, hand := fun _ => rfl
      dormant := fun hd => absurd (hdormant.symm.trans hd) Bool.noConfusion
      closed := fun hc => absurd (hclosed.symm.trans hc) Bool.noConfusion
      halted := fun hh => absurd (hfree.symm.trans hh) Bool.noConfusion
      handling := by simp, firing := by simp }
  | timerPanic => exact h.afterPanic (by simp)
  | dismantle gone rest halive hfree hbatch hclosing hnone hswept =>
    obtain ⟨hdormant, hclosed⟩ := alive_elim halive
    obtain ⟨hpending, hcleared⟩ := h.swept hswept
    exact { h with
      pending := hpending
      dormant := fun hd => absurd (hdormant.symm.trans hd) Bool.noConfusion
      closed := fun _ => ⟨rfl, hbatch, hdormant⟩, cleared := fun _ => hcleared
      left := fun _ => .inl ⟨rfl, rfl⟩
      halted := fun hh => absurd (hfree.symm.trans hh) Bool.noConfusion
      sweeps := fun _ _ _ => rfl }
  | retire halive hfree hbatch hclosing hnone =>
    obtain ⟨hdormant, hclosed⟩ := alive_elim halive
    exact h.board ⟨rfl, rfl⟩ rfl fun _ => ⟨hfree, rfl, hbatch, hdormant, hclosed, .inr rfl⟩
  | fly before leg after next hlegs hf => exact hf.fit h hlegs

end

namespace Books

variable {κ : Type} {b b' : Books κ} {forgets : Option (CallRef × CallState)} {h : History κ}
  {r : ActorRef} {l l' : Ledger κ} {mode : Mode κ}

theorem Fit.lt (hb : b.Fit) (hl : b.ledger r = some l) : r < b.size := by
  by_contra hge
  simp [(hb.size r).2 (Nat.le_of_not_lt hge)] at hl

theorem Fit.change (hb : b.Fit) (hold : b.ledger r = some l) (hl : l'.Fit b.config mode)
    (xs : List (CallRef × CallState)) : (b.change r mode l' xs).Fit := by
  refine ⟨?_, ?_, fun r' => ?_, hb.abroad⟩
  · intro r' l₁ hl₁
    simp only [Books.change] at hl₁ ⊢
    by_cases hr : r' = r
    · subst hr
      simp only [Function.update_self, Option.some.injEq] at hl₁ ⊢
      exact hl₁ ▸ hl
    · simp only [Function.update_of_ne hr] at hl₁ ⊢
      exact hb.ledger r' l₁ hl₁
  · intro r' hnone
    simp only [Books.change] at hnone ⊢
    by_cases hr : r' = r
    · subst hr
      simp at hnone
    · simp only [Function.update_of_ne hr] at hnone ⊢
      exact hb.absent r' hnone
  · simp only [Books.change]
    by_cases hr : r' = r
    · subst hr
      simpa using hb.lt hold
    · simpa only [Function.update_of_ne hr] using hb.size r'

theorem Fit.act (hb : b.Fit) (hold : b.ledger r = some l) (hl : l'.Fit b.config (b.mode r))
    {abroad : List (ActorRef × CallRef)} (habroad : ∀ x ∈ abroad, x.1 = r ∨ x ∈ b.abroad)
    (xs : List (CallRef × CallState)) : (b.act r l' abroad xs).Fit := by
  have hchange := hb.change hold hl xs
  simp only [Books.change, Function.update_eq_self] at hchange
  refine ⟨hchange.ledger, hchange.absent, hchange.size, fun x hx => ?_⟩
  rcases habroad x hx with hr | hx
  · rw [hr]
    exact hb.lt hold
  · exact hb.abroad x hx

theorem Deal.fit (hd : b.Deal h b') (hb : b.Fit) : b'.Fit := by
  induction hd with
  | shuffle abroad habroad =>
    exact ⟨hb.ledger, hb.absent, hb.size, fun x hx => hb.abroad x (habroad.mem_iff.2 hx)⟩
  | act r taken abroad hl ha habroad hins =>
    refine hb.act hl (ha.fit (hb.ledger r _ hl)) (fun x hx => ?_) _
    have hmem := habroad.mem_iff.2 (List.mem_append_right taken hx)
    rcases List.mem_append.1 hmem with hold | hout
    · exact .inr hold
    · obtain ⟨c, -, rfl⟩ := List.mem_map.1 hout
      exact .inl rfl
  | waste x abroad habroad =>
    exact ⟨hb.ledger, hb.absent, hb.size, fun y hy =>
      hb.abroad y (habroad.mem_iff.2 (List.mem_cons_of_mem x hy))⟩
  | reply x vs abroad habroad =>
    exact ⟨hb.ledger, hb.absent, hb.size, fun y hy =>
      hb.abroad y (habroad.mem_iff.2 (List.mem_cons_of_mem x hy))⟩
  | both _ _ ih ih' => exact ih' (ih hb)

theorem Fit.spawn (hb : b.Fit) :
    Fit { b with size := b.size + 1, ledger := Function.update b.ledger b.size (some .new) } := by
  have hnone : b.ledger b.size = none := (hb.size b.size).2 (Nat.le_refl _)
  refine ⟨?_, ?_, fun r => ?_, fun x hx => Nat.lt_succ_of_lt (hb.abroad x hx)⟩
  · intro r l hl
    by_cases hr : r = b.size
    · subst hr
      simp only [Function.update_self, Option.some.injEq] at hl
      exact hl ▸ hb.absent _ hnone ▸ .new b.config
    · simp only [Function.update_of_ne hr] at hl
      exact hb.ledger r l hl
  · intro r hr
    by_cases heq : r = b.size
    · simp [heq] at hr
    · exact hb.absent r (by simpa [Function.update_of_ne heq] using hr)
  · by_cases hr : r = b.size
    · simp [hr]
    · simp only [Function.update_of_ne hr, hb.size r]
      exact ⟨fun hle => Nat.lt_of_le_of_ne hle (Ne.symm hr), Nat.le_of_succ_le⟩

theorem Fit.call (hb : b.Fit) (hold : b.ledger r = some l) (hl : l'.Fit b.config (b.mode r))
    (name : String) : (b.call r l' name).Fit := by
  have hact := hb.act hold hl (fun _ => .inr) []
  exact ⟨hact.ledger, hact.absent, hact.size, hact.abroad⟩

theorem Step.fit (hs : b.Step forgets h b') (hb : b.Fit) : b'.Fit := by
  cases hs with
  | deal hd => exact hd.fit hb
  | forget c state hopen => exact ⟨hb.ledger, hb.absent, hb.size, hb.abroad⟩
  | spawn => exact hb.spawn
  | request r name args hl hopen => exact hb.call hl ((hb.ledger r _ hl).accept hopen _) name
  | book r name args hl hopen =>
    exact hb.call hl ((hb.ledger r _ hl).board ⟨rfl, rfl⟩ rfl (by simp [Leg.isFinal])) name
  | change r hl hc => exact hb.change hl (hc.fit (hb.ledger r _ hl)) _

theorem start_fit (config : Config) (clock : Clock) :
    (Machine.resting (System.new config clock) : Machine κ).books.Fit := by
  constructor <;>
    simp [Machine.books, Machine.booksWith, Machine.resting, System.new, System.books, System.actor?]

end Books

section

variable {κ : Type}

def History.of (h : History κ) (r : ActorRef) : List (Happening κ) :=
  h.filterMap fun x => if x.1 = r then some x.2 else none

theorem History.of_append (h h' : History κ) (r : ActorRef) :
    History.of (h ++ h') r = h.of r ++ h'.of r := List.filterMap_append

theorem History.of_map (hs : List (Happening κ)) (r r' : ActorRef) :
    History.of (hs.map fun x => (r, x)) r' = if r = r' then hs else [] := by
  induction hs with
  | nil => simp [History.of]
  | cons x hs ih =>
    unfold History.of at ih ⊢
    by_cases hr : r = r' <;> simp_all

theorem History.mem_of {h : History κ} {r : ActorRef} {x : Happening κ} :
    x ∈ h.of r ↔ (r, x) ∈ h := by
  unfold of
  constructor
  · intro hx
    obtain ⟨⟨r', y⟩, hmem, heq⟩ := List.mem_filterMap.1 hx
    split at heq
    · rename_i hr
      obtain rfl := Option.some.inj heq
      exact hr ▸ hmem
    · cases heq
  · exact fun hx => List.mem_filterMap.2 ⟨_, hx, by simp⟩

structure Pervades (config : Config)
    (R : Mode κ → Ledger κ → List (Happening κ) → Mode κ → Ledger κ → Prop) : Prop where
  refl : ∀ mode l, R mode l [] mode l
  trans : ∀ {mode l hs l' hs' l''}, R mode l hs mode l' → R mode l' hs' mode l'' →
    R mode l (hs ++ hs') mode l''
  reply : ∀ mode l c vs, R mode l [.replied c vs] mode l
  effect : ∀ {mode l ins hs xs outs l'}, l.Fit config mode → Effect mode l ins hs xs outs l' →
    R mode l hs mode l'
  call : ∀ {mode l} (e : Event κ), l.refuses = false →
    R mode l [.accepted e] mode (l.accept e) ∧ R mode l [] mode (l.board (.put e))
  change : ∀ {mode l hs xs mode' l'}, l.Fit config mode → Change config mode l hs xs mode' l' →
    R mode l hs mode' l'

namespace Books

variable {b b' : Books κ} {forgets : Option (CallRef × CallState)} {h : History κ} {r : ActorRef}
  {R : Mode κ → Ledger κ → List (Happening κ) → Mode κ → Ledger κ → Prop}

theorem Deal.pervaded (hd : b.Deal h b') (hR : Pervades b.config R) (hb : b.Fit) {l : Ledger κ}
    (hl : b.ledger r = some l) :
    ∃ l', b'.ledger r = some l' ∧ R (b.mode r) l (h.of r) (b'.mode r) l' := by
  induction hd generalizing l with
  | shuffle | waste => exact ⟨l, hl, hR.refl _ l⟩
  | reply x vs =>
    refine ⟨l, hl, ?_⟩
    by_cases hr : x.1 = r
    · simpa [History.of, hr] using hR.reply _ l x.2 vs
    · simpa [History.of, hr] using hR.refl _ l
  | @act b l₁ _ hs _ _ l' r₁ taken abroad hl₁ he =>
    by_cases hr : r₁ = r
    · subst hr
      obtain rfl := Option.some.inj (hl₁.symm.trans hl)
      refine ⟨l', by simp [Books.act], ?_⟩
      rw [History.of_map, if_pos rfl]
      exact hR.effect (hb.ledger r₁ _ hl) he
    · refine ⟨l, by simpa [Books.act, Function.update_of_ne (Ne.symm hr)] using hl, ?_⟩
      rw [History.of_map, if_neg hr]
      exact hR.refl _ l
  | both hd hd' ih ih' =>
    obtain ⟨l₁, hl₁, h₁⟩ := ih hR hb hl
    obtain ⟨l₂, hl₂, h₂⟩ := ih' (hd.config ▸ hR) (hd.fit hb) hl₁
    rw [hd'.mode, hd.mode] at h₂ ⊢
    rw [hd.mode] at h₁
    exact ⟨l₂, hl₂, by rw [History.of_append]; exact hR.trans h₁ h₂⟩

theorem Step.pervaded (hs : b.Step forgets h b') (hR : Pervades b.config R) (hb : b.Fit)
    {l : Ledger κ} (hl : b.ledger r = some l) :
    ∃ l', b'.ledger r = some l' ∧ R (b.mode r) l (h.of r) (b'.mode r) l' := by
  cases hs with
  | deal hd => exact hd.pervaded hR hb hl
  | forget c state hopen => exact ⟨l, hl, hR.refl _ l⟩
  | spawn =>
    have hne : r ≠ b.size := fun heq => by
      rw [heq, (hb.size b.size).2 (Nat.le_refl _)] at hl
      cases hl
    exact ⟨l, by simpa [Function.update_of_ne hne] using hl, hR.refl _ l⟩
  | request r₁ name args hl₁ hopen =>
    by_cases hr : r₁ = r
    · subst hr
      obtain rfl := Option.some.inj (hl₁.symm.trans hl)
      refine ⟨_, Function.update_self .., ?_⟩
      simpa [History.of, Books.call] using (hR.call _ hopen).1
    · refine ⟨l, by simpa [Books.call, Function.update_of_ne (Ne.symm hr)] using hl, ?_⟩
      simpa [History.of, hr, Books.call] using hR.refl _ l
  | book r₁ name args hl₁ hopen =>
    by_cases hr : r₁ = r
    · subst hr
      obtain rfl := Option.some.inj (hl₁.symm.trans hl)
      exact ⟨_, Function.update_self .., (hR.call _ hopen).2⟩
    · exact ⟨l, by simpa [Books.call, Function.update_of_ne (Ne.symm hr)] using hl, hR.refl _ l⟩
  | change r₁ hl₁ hc =>
    by_cases hr : r₁ = r
    · subst hr
      obtain rfl := Option.some.inj (hl₁.symm.trans hl)
      refine ⟨_, Function.update_self .., ?_⟩
      simpa [History.of_map, Books.change] using hR.change (hb.ledger r₁ _ hl) hc
    · refine ⟨l, by simpa [Books.change, Function.update_of_ne (Ne.symm hr)] using hl, ?_⟩
      simpa [History.of_map, hr, Books.change, Function.update_of_ne (Ne.symm hr)] using hR.refl _ l

end Books

end

namespace Machine

variable {κ : Type}

/-- What every step of the books keeps holds after any moves. -/
theorem play_induction {code : κ → Invocation → Prog κ Unit} {P : History κ → Books κ → Prop}
    (hstep : ∀ h b forgets h' b', b.Fit → P h b → b.Step forgets h' b' → P (h ++ h') b')
    (mvs : List (Move κ)) {m : Machine κ} (hfit : m.books.Fit) {h : History κ} (hp : P h m.books) :
    (play code mvs m).2.books.Fit ∧ P (h ++ (play code mvs m).1) (play code mvs m).2.books := by
  induction mvs generalizing m h with
  | nil => exact ⟨hfit, by simpa [play] using hp⟩
  | cons mv mvs ih =>
    have hs := step_books code m mv hfit
    obtain ⟨hfit', hp'⟩ := ih (hs.fit hfit) (hstep _ _ _ _ _ hfit hp hs)
    exact ⟨hfit', by simpa [play] using hp'⟩

end Machine

end ActorSystem
