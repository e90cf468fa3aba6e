import ActorSystem.Proofs.Handlers
import ActorSystem.Proofs.Lines

/-!
Reading typed commands. Every line of a text that names an actor and one of its handlers becomes a
call, in order, and every other line is as if it had not been typed.
-/

set_option autoImplicit false

namespace ActorSystem

variable {κ : Type}

namespace Actor

def given (a : Actor κ) (qs : List Request) : Actor κ :=
  qs.foldl (fun a q => a.enqueue (.post (.rpc q))) a

/-- Calls have come in, behind all that was queued, and nothing else has changed. -/
structure Grown (a : Actor κ) (qs : List Request) (a' : Actor κ) : Prop where
  queue : a'.mailbox.toList = a.mailbox.toList ++ qs.map fun q => .post (.rpc q)
  pending : a'.mailbox.pending = a.mailbox.pending + qs.length
  rest : { a' with mailbox := a.mailbox, stirred := a.stirred } = a
  still : qs = [] → a' = a

theorem given_grown (a : Actor κ) (qs : List Request) : a.Grown qs (a.given qs) := by
  induction qs generalizing a with
  | nil => exact ⟨by simp [given], by simp [given], rfl, fun _ => rfl⟩
  | cons q qs ih =>
    have h := ih (a.enqueue (.post (.rpc q)))
    refine ⟨?_, ?_, ?_, nofun⟩
    · rw [given, List.foldl_cons]
      refine h.queue.trans ?_
      simp [enqueue]
    · refine h.pending.trans ?_
      simp only [enqueue, EventQueue.pending_push, List.length_cons]
      omega
    · exact congrArg (fun b : Actor κ => { b with mailbox := a.mailbox, stirred := a.stirred })
        h.rest

end Actor

namespace System

variable {s : System κ} {r : ActorRef} {q : Request} {line : String}

def typed? (s : System κ) (line : String) : Option (ActorRef × Request) :=
  (Command.parse line).bind fun c => (s.find c.target).bind fun r =>
    if (s.handler? r (.rpc c.rpc)).isSome then some (r, ⟨none, c.rpc, c.args⟩) else none

theorem typed?_eq_some :
    s.typed? line = some (r, q) ↔ ∃ target rpc rest, Text.words line = target :: rpc :: rest ∧
      s.names.get? target = some r ∧ (s.handler? r (.rpc rpc)).isSome ∧
      q = ⟨none, rpc, ⟨rest.map .str⟩⟩ := by
  unfold typed? Command.parse
  split
  · rename_i target rpc rest hwords
    rw [Option.bind_some, Option.bind_eq_some_iff]
    constructor
    · rintro ⟨r', hr', hcall⟩
      obtain ⟨hhandler, hcall⟩ := Option.ite_none_right_eq_some.1 hcall
      obtain ⟨rfl, rfl⟩ := Prod.mk.inj (Option.some.inj hcall)
      exact ⟨target, rpc, rest, hwords, hr', hhandler, rfl⟩
    · rintro ⟨target', rpc', rest', hwords', hr, hhandler, rfl⟩
      simp only [hwords, List.cons.injEq] at hwords'
      obtain ⟨rfl, rfl, rfl⟩ := hwords'
      exact ⟨r, hr, if_pos hhandler⟩
  · rename_i hfew
    rw [Option.bind_none]
    refine iff_of_false (by simp) ?_
    rintro ⟨target, rpc, rest, hwords, -⟩
    exact hfew target rpc rest hwords

theorem contains_onRpc (s : System κ) (r : ActorRef) (name : String) :
    (s.ask r false fun a => a.onRpc.contains name) = (s.handler? r (.rpc name)).isSome := by
  cases ha : s.actor? r with
  | none => simp [ask, ha, handler?_absent ha]
  | some a =>
    rw [ask_eq ha, handler?_eq ha]
    rfl

/-- A line is a call, or it is refused before anything is done. -/
theorem issue_eq (s : System κ) (line : String) :
    match s.typed? line with
    | some (r, q) => s.issue line = (.ok true, s.post r (.rpc q))
    | none => (s.issue line).1 ≠ .ok true ∧ (s.issue line).2 = s := by
  unfold typed? issue
  cases Command.parse line with
  | none => simp
  | some c =>
    simp only [Option.bind_some, require, contains_onRpc]
    cases s.find c.target with
    | none => simp
    | some r =>
      simp only [Option.bind_some]
      cases (s.handler? r (.rpc c.rpc)).isSome with
      | true => rfl
      | false => exact ⟨by simp, rfl⟩

theorem post_cases (s : System κ) (r : ActorRef) (p : Post κ) :
    s.post r p = s ∨ ∃ a, s.actor? r = some a ∧ s.post r p = s.put r (a.enqueue (.post p)) := by
  cases hopen : s.accepts r with
  | false => exact .inl (post_refused hopen p)
  | true =>
    cases ha : s.actor? r with
    | none => simp [accepts_absent ha] at hopen
    | some a => exact .inr ⟨a, rfl, push_open ha (by simpa [accepts_eq ha] using hopen) _⟩

theorem post_rest (s : System κ) (r : ActorRef) (p : Post κ) :
    (s.post r p).actors.size = s.actors.size ∧ { s.post r p with actors := s.actors } = s := by
  rcases s.post_cases r p with h | ⟨a, -, h⟩
  · rw [h]
    exact ⟨rfl, rfl⟩
  · rw [h]
    exact ⟨by simp [put], rfl⟩

theorem typed?_post (s : System κ) (r : ActorRef) (q : Request) :
    (s.post r (.rpc q)).typed? = s.typed? := by
  have hhandler : ∀ r' k, (s.post r (.rpc q)).handler? r' k = s.handler? r' k := fun r' k =>
    (handler?_perform r (.post r (.rpc q)) s r' k).trans Option.or_none
  have hnames : (s.post r (.rpc q)).names = s.names :=
    (congrArg System.names (s.post_rest r (.rpc q)).2 :)
  funext line
  unfold typed? find
  simp only [hhandler, hnames]

def deliver (s : System κ) (xs : List (ActorRef × Request)) : System κ :=
  xs.foldl (fun s x => s.post x.1 (.rpc x.2)) s

theorem typed?_deliver (s : System κ) (xs : List (ActorRef × Request)) :
    (s.deliver xs).typed? = s.typed? := by
  induction xs generalizing s with
  | nil => rfl
  | cons x xs ih => exact (ih _).trans (s.typed?_post x.1 x.2)

theorem issueLines_eq (lines : List String) (n : Nat) (s : System κ) :
    issueLines (lines.map Text.utf8) n s =
      (.ok (n + (lines.filterMap s.typed?).length), s.deliver (lines.filterMap s.typed?)) := by
  induction lines generalizing n s with
  | nil => rfl
  | cons line lines ih =>
    have hissue := s.issue_eq line
    simp only [List.map_cons, issueLines, Text.fromUTF8?_utf8]
    cases hline : s.typed? line with
    | none =>
      rw [hline] at hissue
      obtain ⟨hne, hsame⟩ := hissue
      rw [List.filterMap_cons_none hline]
      split
      · rename_i heq
        simp [heq] at hne
      · rename_i s' heq
        rw [heq] at hsame
        subst hsame
        exact ih n _
    | some x =>
      rw [hline] at hissue
      obtain ⟨r, q⟩ := x
      rw [hissue, List.filterMap_cons_some hline]
      dsimp only
      rw [ih, typed?_post, List.length_cons, Nat.add_assoc, Nat.add_comm 1]
      rfl

theorem issueStream_eq (d : Text.Document) (s : System κ) :
    s.issueStream (Text.utf8 d.text) =
      (.ok (d.lines.filterMap s.typed?).length, s.deliver (d.lines.filterMap s.typed?)) := by
  rw [issueStream, Text.Document.byteLines_text, issueLines_eq, Nat.zero_add]

def askedOf (r : ActorRef) (xs : List (ActorRef × Request)) : List Request :=
  (xs.filter fun x => x.1 == r).map Prod.snd

theorem actor?_deliver {a : Actor κ} (ha : s.actor? r = some a) (hopen : a.refuses = false)
    (xs : List (ActorRef × Request)) :
    (s.deliver xs).actor? r = some (a.given (askedOf r xs)) := by
  induction xs generalizing s a with
  | nil => exact ha
  | cons x xs ih =>
    obtain ⟨r', q⟩ := x
    by_cases hr : r' = r
    · subst hr
      have hpost : (s.post r' (.rpc q)).actor? r' = some (a.enqueue (.post (.rpc q))) := by
        rw [post, push_open ha hopen, actor?_put ha, Function.update_self]
      rw [askedOf, List.filter_cons_of_pos (by simp), List.map_cons]
      exact ih hpost hopen
    · have hpost : (s.post r' (.rpc q)).actor? r = some a := by
        rw [← ha]
        exact push_other (Ne.symm hr) s _
      rw [askedOf, List.filter_cons_of_neg (by simpa using hr)]
      exact ih hpost hopen

theorem deliver_rest (xs : List (ActorRef × Request)) (s : System κ) :
    (s.deliver xs).actors.size = s.actors.size ∧ { s.deliver xs with actors := s.actors } = s := by
  induction xs generalizing s with
  | nil => exact ⟨rfl, rfl⟩
  | cons x xs ih =>
    obtain ⟨hsize, hrest⟩ := ih (s.post x.1 (.rpc x.2))
    obtain ⟨hsize', hrest'⟩ := s.post_rest x.1 (.rpc x.2)
    refine ⟨hsize.trans hsize', ?_⟩
    exact (congrArg (fun s' : System κ => { s' with actors := s.actors }) hrest).trans hrest'

structure Reads (s : System κ) (lines : List String) (out : Except Error Nat × System κ) :
    Prop where
  count : out.1 = .ok (lines.countP fun line => (s.typed? line).isSome)
  actors : ∀ r a, s.actor? r = some a → ∃ a', out.2.actor? r = some a' ∧
    a' = a.given (askedOf r (lines.filterMap s.typed?)) ∧
    a.Grown (askedOf r (lines.filterMap s.typed?)) a'
  size : out.2.actors.size = s.actors.size
  rest : { out.2 with actors := s.actors } = s

structure Typing (s : System κ) : Prop where
  typed : ∀ line r q, s.typed? line = some (r, q) ↔
    ∃ target rpc rest, Text.words line = target :: rpc :: rest ∧ s.names.get? target = some r ∧
      (s.handler? r (.rpc rpc)).isSome ∧ q = ⟨none, rpc, ⟨rest.map .str⟩⟩
  texts : ∀ bytes text, String.fromUTF8? ⟨bytes.toArray⟩ = some text →
    ∃ d : Text.Document, d.text = text ∧ Text.utf8 d.text = bytes
  reads : ∀ d : Text.Document, s.Reads d.lines (s.issueStream (Text.utf8 d.text))
  idle : ∀ line, s.typed? line = none → (s.issue line).1 ≠ .ok true ∧ (s.issue line).2 = s
  alike : ∀ d d' : Text.Document, d.lines.filterMap s.typed? = d'.lines.filterMap s.typed? →
    s.issueStream (Text.utf8 d.text) = s.issueStream (Text.utf8 d'.text)
  joined : ∀ text text' : String, ∃ n n' s₁ s₂,
    s.issueStream (Text.utf8 (text ++ "\n")) = (.ok n, s₁) ∧
    s₁.issueStream (Text.utf8 text') = (.ok n', s₂) ∧
    s.issueStream (Text.utf8 (text ++ "\n" ++ text')) = (.ok (n + n'), s₂)

theorem issueStream_reads (hopen : ∀ r a, s.actor? r = some a → a.refuses = false)
    (d : Text.Document) : s.Reads d.lines (s.issueStream (Text.utf8 d.text)) := by
  rw [issueStream_eq]
  refine ⟨?_, fun r a ha => ?_, (deliver_rest _ s).1, (deliver_rest _ s).2⟩
  · rw [List.length_filterMap_eq_countP]
  · exact ⟨_, actor?_deliver ha (hopen r a ha) _, rfl, a.given_grown _⟩

theorem issueStream_append (text text' : String) (s : System κ) :
    ∃ n n' s₁ s₂, s.issueStream (Text.utf8 (text ++ "\n")) = (.ok n, s₁) ∧
      s₁.issueStream (Text.utf8 text') = (.ok n', s₂) ∧
      s.issueStream (Text.utf8 (text ++ "\n" ++ text')) = (.ok (n + n'), s₂) := by
  obtain ⟨d, hd⟩ := Text.Document.exists_document (text ++ "\n")
  obtain ⟨d', hd'⟩ := Text.Document.exists_document text'
  have hlines : Text.byteLines (Text.utf8 (text ++ "\n" ++ text')) =
      (d.lines ++ d'.lines).map Text.utf8 := by
    rw [Text.byteLines_append, ← hd, ← hd', Text.Document.byteLines_text,
      Text.Document.byteLines_text, List.map_append]
  have hwhole : s.issueStream (Text.utf8 (text ++ "\n" ++ text')) =
      (.ok ((d.lines.filterMap s.typed?).length + (d'.lines.filterMap s.typed?).length),
        (s.deliver (d.lines.filterMap s.typed?)).deliver (d'.lines.filterMap s.typed?)) := by
    rw [issueStream, hlines, issueLines_eq, Nat.zero_add, List.filterMap_append,
      List.length_append, deliver, List.foldl_append]
    rfl
  refine ⟨_, _, _, _, hd ▸ issueStream_eq d s, hd' ▸ issueStream_eq d' _, ?_⟩
  rw [hwhole, typed?_deliver]

/-- Of a text that is typed to actors which take events, exactly the lines that name one of them and
one of its handlers become calls. -/
theorem typing_exact (s : System κ) (hopen : ∀ r a, s.actor? r = some a → a.refuses = false) :
    s.Typing where
  typed _ _ _ := typed?_eq_some
  texts bytes text h := by
    obtain ⟨d, rfl⟩ := Text.Document.exists_document text
    exact ⟨d, rfl, Text.utf8_of_fromUTF8? h⟩
  reads := issueStream_reads hopen
  idle line hnone := by
    have h := s.issue_eq line
    rwa [hnone] at h
  alike d d' h := by rw [issueStream_eq, issueStream_eq, h]
  joined text text' := issueStream_append text text' s

/-- A call, a line for nobody, and half a command that nothing ends. -/
theorem typing_exact_echo :
    let s : System Unit := (((System.new {} ⟨0⟩).getOrCreate "Main").2.registerRpc 0 "echo" ()).2
    (∀ r a, s.actor? r = some a → a.refuses = false) ∧
      (s.issueStream (Text.utf8 "Main echo a  b\r\nNobody echo\nMain")).1 = .ok 1 := by
  intro s
  have hopen : ∀ r a, s.actor? r = some a → a.refuses = false := by
    intro r a ha
    cases r with
    | zero =>
      obtain rfl := Option.some.inj ha
      rfl
    | succ r => cases ha
  let d : Text.Document :=
    ⟨[("Main echo a  b", .crlf), ("Nobody echo", .lf)], "Main", by decide, by decide, by decide⟩
  have htext : d.text = "Main echo a  b\r\nNobody echo\nMain" := by decide
  have hcount := ((typing_exact s hopen).reads d).count
  rw [htext] at hcount
  exact ⟨hopen, hcount.trans (congrArg Except.ok (by decide))⟩

end System

end ActorSystem
