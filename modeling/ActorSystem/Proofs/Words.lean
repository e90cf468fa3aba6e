import ActorSystem.Console
import Mathlib.Data.List.Basic

/-!
Words and commands. The words of a text are its maximal runs of characters that are not blank, in
order, and they come back however they were typed. A command is told by the words of its line.
-/

set_option autoImplicit false

namespace ActorSystem.Text

def FullAt (cs : List Char) (k : Nat) : Prop := ∃ c, cs[k]? = some c ∧ isBlank c = false

/-- The places from `i` up to `j` are full, and no others that are next to them. -/
structure IsRun (cs : List Char) (i j : Nat) : Prop where
  lt : i < j
  full : ∀ k, i ≤ k → k < j → FullAt cs k
  before : ∀ k, k + 1 = i → ¬FullAt cs k
  after : ¬FullAt cs j

def slice (cs : List Char) (i j : Nat) : String := String.ofList ((cs.drop i).take (j - i))

/-- The runs in the order of reading; the one that is being read starts at `i` and has come to
`j`. -/
def runsFrom (i j : Nat) : List Char → List (Nat × Nat)
  | [] => if i = j then [] else [(i, j)]
  | c :: cs =>
    if isBlank c then
      if i = j then runsFrom (j + 1) (j + 1) cs else (i, j) :: runsFrom (j + 1) (j + 1) cs
    else runsFrom i (j + 1) cs

def runs (cs : List Char) : List (Nat × Nat) := runsFrom 0 0 cs

section

variable {cs rest : List Char} {i j p q : Nat}

theorem getElem?_of_drop {c : Char} (h : cs.drop j = c :: rest) :
    cs[j]? = some c ∧ cs.drop (j + 1) = rest := by
  have hhead := congrArg List.head? h
  refine ⟨by simpa using hhead, ?_⟩
  rw [← List.drop_drop, h]
  rfl

/-- A run from `i` on is the one that ends at `j`, or it starts behind `j`. -/
theorem isRun_iff_of_full (hij : i ≤ j) (hfull : ∀ k, i ≤ k → k < j → FullAt cs k)
    (hbefore : ∀ k, k + 1 = i → ¬FullAt cs k) (hafter : ¬FullAt cs j) :
    i ≤ p ∧ IsRun cs p q ↔ i < j ∧ p = i ∧ q = j ∨ j + 1 ≤ p ∧ IsRun cs p q := by
  constructor
  · rintro ⟨hip, h⟩
    rcases Nat.lt_trichotomy p j with hp | rfl | hp
    · have hpi : p = i := by
        by_contra hne
        exact h.before (p - 1) (by omega) (hfull (p - 1) (by omega) (by omega))
      have hq : q = j := by
        have hlt := h.lt
        rcases Nat.lt_trichotomy q j with hq | hq | hq
        · exact absurd (hfull q (by omega) hq) h.after
        · exact hq
        · exact absurd (h.full j (by omega) hq) hafter
      exact .inl ⟨by omega, hpi, hq⟩
    · exact absurd (h.full p (Nat.le_refl p) h.lt) hafter
    · exact .inr ⟨hp, h⟩
  · rintro (⟨hlt, rfl, rfl⟩ | ⟨hp, h⟩)
    · exact ⟨Nat.le_refl p, hlt, hfull, hbefore, hafter⟩
    · exact ⟨by omega, h⟩

theorem mem_runsFrom (hrest : cs.drop j = rest) (hij : i ≤ j)
    (hfull : ∀ k, i ≤ k → k < j → FullAt cs k) (hbefore : ∀ k, k + 1 = i → ¬FullAt cs k) :
    (p, q) ∈ runsFrom i j rest ↔ i ≤ p ∧ IsRun cs p q := by
  induction rest generalizing i j with
  | nil =>
    have hend : ∀ k, j ≤ k → ¬FullAt cs k := by
      rintro k hk ⟨c, hc, -⟩
      have hlen := List.drop_eq_nil_iff.1 hrest
      rw [List.getElem?_eq_none (by omega)] at hc
      cases hc
    have hnone : ¬(j + 1 ≤ p ∧ IsRun cs p q) := fun h =>
      hend p (by omega) (h.2.full p (Nat.le_refl p) h.2.lt)
    rw [isRun_iff_of_full hij hfull hbefore (hend j (Nat.le_refl j)), runsFrom]
    split
    · refine iff_of_false List.not_mem_nil ?_
      rintro (⟨hlt, -⟩ | hlater)
      · omega
      · exact hnone hlater
    · rw [List.mem_singleton, Prod.mk.injEq]
      constructor
      · rintro ⟨rfl, rfl⟩
        exact .inl ⟨by omega, rfl, rfl⟩
      · rintro (⟨-, heq⟩ | hlater)
        · exact heq
        · exact absurd hlater hnone
  | cons c rest ih =>
    obtain ⟨hget, hnext⟩ := getElem?_of_drop hrest
    have hc : FullAt cs j ↔ isBlank c = false := by simp [FullAt, hget]
    rw [runsFrom]
    split
    · rename_i hblank
      have hafter : ¬FullAt cs j := by simp [hc, hblank]
      have hlater := ih (i := j + 1) (j := j + 1) hnext (Nat.le_refl _) (by omega) fun k hk => by
        obtain rfl : k = j := by omega
        exact hafter
      rw [isRun_iff_of_full hij hfull hbefore hafter]
      split
      · rename_i heq
        simp [hlater, heq]
      · rename_i hne
        have hlt : i < j := by omega
        rw [List.mem_cons, hlater, Prod.mk.injEq]
        simp [hlt]
    · rename_i hword
      have hhere : FullAt cs j := hc.2 (by simpa using hword)
      refine ih hnext (by omega) (fun k hik hkj => ?_) hbefore
      rcases Nat.lt_or_eq_of_le (Nat.le_of_lt_succ hkj) with hlt | rfl
      · exact hfull k hik hlt
      · exact hhere

theorem mem_runs : (p, q) ∈ runs cs ↔ IsRun cs p q := by
  rw [runs, mem_runsFrom (show cs.drop 0 = cs from rfl) (Nat.le_refl 0) (by omega) (by omega)]
  simp

theorem le_of_mem_runsFrom {x : Nat × Nat} (hij : i ≤ j) (hx : x ∈ runsFrom i j rest) :
    i ≤ x.1 := by
  induction rest generalizing i j with
  | nil =>
    rw [runsFrom] at hx
    split at hx
    · cases hx
    · obtain rfl := List.mem_singleton.1 hx
      exact Nat.le_refl i
  | cons c rest ih =>
    rw [runsFrom] at hx
    split at hx
    · split at hx
      · have := ih (Nat.le_refl _) hx
        omega
      · rcases List.mem_cons.1 hx with rfl | hx
        · exact Nat.le_refl i
        · have := ih (Nat.le_refl _) hx
          omega
    · exact ih (by omega) hx

theorem pairwise_runsFrom (i j : Nat) (rest : List Char) :
    (runsFrom i j rest).Pairwise fun x y => x.2 < y.1 := by
  induction rest generalizing i j with
  | nil =>
    rw [runsFrom]
    split <;> simp
  | cons c rest ih =>
    rw [runsFrom]
    split
    · split
      · exact ih _ _
      · exact List.pairwise_cons.2 ⟨fun x hx => le_of_mem_runsFrom (Nat.le_refl _) hx, ih _ _⟩
    · exact ih _ _

theorem isEmpty_taken (hij : i ≤ j) (hj : j ≤ cs.length) :
    ((cs.drop i).take (j - i)).reverse.isEmpty = decide (i = j) := by
  rw [Bool.eq_iff_iff, List.isEmpty_reverse, List.isEmpty_iff_length_eq_zero, List.length_take,
    List.length_drop, decide_eq_true_eq]
  omega

theorem taken_succ {c : Char} (hij : i ≤ j) (hget : cs[j]? = some c) :
    ((cs.drop i).take (j + 1 - i)).reverse = c :: ((cs.drop i).take (j - i)).reverse := by
  have hsub : j + 1 - i = j - i + 1 := by omega
  rw [hsub, List.take_add_one, List.getElem?_drop, Nat.add_sub_cancel' hij, hget]
  simp

theorem wordsFrom_eq (hrest : cs.drop j = rest) (hij : i ≤ j) (hj : j ≤ cs.length) :
    wordsFrom ((cs.drop i).take (j - i)).reverse rest =
      (runsFrom i j rest).map fun x => slice cs x.1 x.2 := by
  induction rest generalizing i j with
  | nil =>
    rw [wordsFrom, runsFrom, isEmpty_taken hij hj]
    by_cases h : i = j <;> simp [h, slice]
  | cons c rest ih =>
    obtain ⟨hget, hnext⟩ := getElem?_of_drop hrest
    have hlt : j < cs.length := (List.getElem?_eq_some_iff.1 hget).1
    have hfresh := ih (i := j + 1) (j := j + 1) hnext (Nat.le_refl _) hlt
    rw [Nat.sub_self, List.take_zero, List.reverse_nil] at hfresh
    rw [wordsFrom, runsFrom, isEmpty_taken hij hj]
    by_cases hblank : isBlank c = true
    · by_cases h : i = j <;> simp [hblank, h, hfresh, slice]
    · have hword := ih (i := i) (j := j + 1) hnext (by omega) hlt
      rw [taken_succ hij hget] at hword
      simp [hblank, hword]

theorem words_eq (s : String) : words s = (runs s.toList).map fun x => slice s.toList x.1 x.2 := by
  have h := wordsFrom_eq (show s.toList.drop 0 = s.toList from rfl) (Nat.le_refl 0) (Nat.zero_le _)
  exact h

end

def Blank (s : String) : Prop := ∀ c ∈ s.toList, isBlank c = true

def IsWord (s : String) : Prop := s ≠ "" ∧ ∀ c ∈ s.toList, isBlank c = false

/-- Words as they may be typed, each with the blanks behind it; some more may stand in front. -/
structure Spelling where
  front : String
  fields : List (String × String)
  front_blank : Blank front
  fields_isWord : ∀ f ∈ fields, IsWord f.1
  fields_blank : ∀ f ∈ fields, Blank f.2
  apart : ∀ f ∈ fields.dropLast, f.2 ≠ ""

namespace Spelling

def words (p : Spelling) : List String := p.fields.map Prod.fst

def text (p : Spelling) : String := p.front ++ String.join (p.fields.map fun f => f.1 ++ f.2)

end Spelling

theorem wordsFrom_blank {gap : List Char} (h : ∀ c ∈ gap, isBlank c = true) (cs : List Char) :
    wordsFrom [] (gap ++ cs) = wordsFrom [] cs := by
  induction gap with
  | nil => rfl
  | cons c gap ih =>
    rw [List.cons_append, wordsFrom, if_pos (h c List.mem_cons_self), List.isEmpty_nil, if_pos rfl,
      ih fun c hc => h c (List.mem_cons_of_mem _ hc)]

theorem wordsFrom_word {w : List Char} (h : ∀ c ∈ w, isBlank c = false) (read cs : List Char) :
    wordsFrom read (w ++ cs) = wordsFrom (w.reverse ++ read) cs := by
  induction w generalizing read with
  | nil => rfl
  | cons c w ih =>
    rw [List.cons_append, wordsFrom, if_neg (by simp [h c List.mem_cons_self]),
      ih fun c hc => h c (List.mem_cons_of_mem _ hc)]
    simp

theorem wordsFrom_end {read cs : List Char} (hread : read ≠ [])
    (hcs : ∀ c, cs.head? = some c → isBlank c = true) :
    wordsFrom read cs = String.ofList read.reverse :: wordsFrom [] cs := by
  cases cs with
  | nil => simp [wordsFrom, hread]
  | cons c cs => simp [wordsFrom, hread, hcs c rfl]

theorem wordsFrom_fields (fields : List (String × String)) (hword : ∀ f ∈ fields, IsWord f.1)
    (hblank : ∀ f ∈ fields, Blank f.2) (hapart : ∀ f ∈ fields.dropLast, f.2 ≠ "") :
    wordsFrom [] (fields.flatMap fun f => f.1.toList ++ f.2.toList) = fields.map Prod.fst := by
  induction fields with
  | nil => rfl
  | cons f fields ih =>
    obtain ⟨hne, hfull⟩ := hword f List.mem_cons_self
    have hgap := hblank f List.mem_cons_self
    have hrest : wordsFrom [] (fields.flatMap fun f => f.1.toList ++ f.2.toList) =
        fields.map Prod.fst := by
      refine ih (fun g hg => hword g (List.mem_cons_of_mem _ hg))
        (fun g hg => hblank g (List.mem_cons_of_mem _ hg)) fun g hg => hapart g ?_
      cases fields with
      | nil => cases hg
      | cons g' fields => exact List.mem_cons_of_mem _ hg
    have hend : ∀ c,
        (f.2.toList ++ fields.flatMap fun f => f.1.toList ++ f.2.toList).head? = some c →
        isBlank c = true := by
      intro c hc
      cases hf : f.2.toList with
      | cons c' gap =>
        rw [hf] at hc
        obtain rfl := Option.some.inj hc
        exact hgap c' (hf ▸ List.mem_cons_self)
      | nil =>
        cases fields with
        | nil => simp [hf] at hc
        | cons g fields =>
          exact absurd (String.toList_eq_nil_iff.1 hf) (hapart f List.mem_cons_self)
    have hread : f.1.toList.reverse ++ [] ≠ [] := by
      simpa [String.toList_eq_nil_iff] using hne
    rw [List.flatMap_cons, List.append_assoc, wordsFrom_word hfull, wordsFrom_end hread hend,
      wordsFrom_blank hgap, hrest]
    simp

theorem Spelling.toList_text (p : Spelling) :
    p.text.toList = p.front.toList ++ p.fields.flatMap fun f => f.1.toList ++ f.2.toList := by
  simp [text, List.flatMap_map]

theorem words_text (p : Spelling) : words p.text = p.words := by
  rw [Text.words, p.toList_text, wordsFrom_blank p.front_blank]
  exact wordsFrom_fields p.fields p.fields_isWord p.fields_blank p.apart

theorem mem_slice {cs : List Char} {i j : Nat} {c : Char} :
    c ∈ (slice cs i j).toList ↔ ∃ k, i ≤ k ∧ k < j ∧ cs[k]? = some c := by
  rw [slice, String.toList_ofList, List.mem_iff_getElem?]
  simp only [List.getElem?_take, List.getElem?_drop, Option.ite_none_right_eq_some]
  constructor
  · rintro ⟨n, hn, hget⟩
    exact ⟨i + n, by omega, by omega, hget⟩
  · rintro ⟨k, hik, hkj, hget⟩
    refine ⟨k - i, by omega, ?_⟩
    rwa [Nat.add_sub_cancel' hik]

theorem isWord_of_mem_words {s w : String} (hw : w ∈ words s) : IsWord w := by
  rw [words_eq] at hw
  obtain ⟨⟨i, j⟩, hrun, rfl⟩ := List.mem_map.1 hw
  obtain ⟨hlt, hfull, -, -⟩ := mem_runs.1 hrun
  constructor
  · intro hempty
    obtain ⟨c, hget, -⟩ := hfull i (Nat.le_refl i) hlt
    have hmem : c ∈ (slice s.toList i j).toList := mem_slice.2 ⟨i, Nat.le_refl i, hlt, hget⟩
    rw [hempty] at hmem
    cases hmem
  · intro c hc
    obtain ⟨k, hik, hkj, hget⟩ := mem_slice.1 hc
    obtain ⟨c', hget', hfull⟩ := hfull k hik hkj
    obtain rfl := Option.some.inj (hget.symm.trans hget')
    exact hfull

def plainFields : List String → List (String × String)
  | [] => []
  | [w] => [(w, "")]
  | w :: w' :: ws => (w, " ") :: plainFields (w' :: ws)

theorem map_fst_plainFields (ws : List String) : (plainFields ws).map Prod.fst = ws := by
  fun_induction plainFields ws <;> simp_all

theorem blank_plainFields {ws : List String} {f : String × String} (hf : f ∈ plainFields ws) :
    Blank f.2 := by
  fun_induction plainFields ws with
  | case1 => cases hf
  | case2 w =>
    obtain rfl := List.mem_singleton.1 hf
    simp [Blank]
  | case3 w w' ws ih =>
    rcases List.mem_cons.1 hf with rfl | hf
    · simp [Blank]
      decide
    · exact ih hf

theorem apart_plainFields {ws : List String} {f : String × String}
    (hf : f ∈ (plainFields ws).dropLast) : f.2 ≠ "" := by
  fun_induction plainFields ws with
  | case1 | case2 => cases hf
  | case3 w w' ws ih =>
    have hne : plainFields (w' :: ws) ≠ [] := fun h => by
      have hwords := map_fst_plainFields (w' :: ws)
      rw [h] at hwords
      cases hwords
    rw [List.dropLast_cons_of_ne_nil hne] at hf
    rcases List.mem_cons.1 hf with rfl | hf
    · simp
    · exact ih hf

theorem join_plainFields (ws : List String) :
    String.join ((plainFields ws).map fun f => f.1 ++ f.2) = " ".intercalate ws := by
  fun_induction plainFields ws with
  | case1 => rfl
  | case2 w => simp
  | case3 w w' ws ih =>
    rw [List.map_cons, String.join_cons, ih, String.intercalate_cons_cons]

def Spelling.plain (ws : List String) (h : ∀ w ∈ ws, IsWord w) : Spelling where
  front := ""
  fields := plainFields ws
  front_blank := by simp [Blank]
  fields_isWord f hf := h f.1 (by
    have hmem := List.mem_map_of_mem (f := Prod.fst) hf
    rwa [map_fst_plainFields] at hmem)
  fields_blank _ := blank_plainFields
  apart _ := apart_plainFields

theorem words_intercalate {ws : List String} (h : ∀ w ∈ ws, IsWord w) :
    words (" ".intercalate ws) = ws := by
  have htext : (Spelling.plain ws h).text = " ".intercalate ws := by
    rw [Spelling.text, ← join_plainFields]
    exact String.empty_append
  rw [← htext, words_text]
  exact map_fst_plainFields ws

end ActorSystem.Text

namespace ActorSystem.Command

open Text (IsRun Spelling runs slice)

def words (c : Command) : List String := c.target :: c.rpc :: c.args.values.filterMap Value.asStr

def retyped (c : Command) : String := " ".intercalate c.words

theorem parse_congr {line line' : String} (h : Text.words line = Text.words line') :
    parse line = parse line' := by
  rw [parse, parse, h]

theorem parse_of_words {line target rpc : String} {rest : List String}
    (h : Text.words line = target :: rpc :: rest) :
    parse line = some ⟨target, rpc, ⟨rest.map .str⟩⟩ := by
  rw [parse, h]

theorem parse_eq_none_iff {line : String} : parse line = none ↔ (Text.words line).length < 2 := by
  unfold parse
  rcases Text.words line with - | ⟨target, - | ⟨rpc, rest⟩⟩ <;> simp

theorem words_of_parse {line : String} {c : Command} (h : parse line = some c) :
    c.words = Text.words line := by
  unfold parse at h
  split at h
  · rename_i target rpc rest hwords
    obtain rfl := Option.some.inj h
    have hargs : (rest.map Value.str).filterMap Value.asStr = rest := by
      rw [List.filterMap_map]
      exact List.filterMap_some
    rw [words, hargs, hwords]
  · cases h

theorem parse_retyped {line : String} {c : Command} (h : parse line = some c) :
    parse c.retyped = some c := by
  have hwords := words_of_parse h
  have hplain : Text.words c.retyped = c.words := by
    rw [retyped, hwords]
    exact Text.words_intercalate fun w hw => Text.isWord_of_mem_words hw
  rw [parse_congr (hplain.trans hwords), h]

/-- A line is a command if it has two words or more, these being its maximal runs of characters that
are not blank; how they are set apart does not matter. -/
theorem parse_exact :
    (∀ line : String, ∃ places : List (Nat × Nat),
      (places.Pairwise fun x y => x.2 < y.1) ∧
      (∀ i j, (i, j) ∈ places ↔ IsRun line.toList i j) ∧
      (parse line = none ↔ places.length < 2) ∧
      ∀ target rpc rest, places.map (fun x => slice line.toList x.1 x.2) = target :: rpc :: rest →
        parse line = some ⟨target, rpc, ⟨rest.map .str⟩⟩) ∧
    (∀ (p : Spelling) target rpc rest, p.words = target :: rpc :: rest →
      parse p.text = some ⟨target, rpc, ⟨rest.map .str⟩⟩) ∧
    ∀ line c, parse line = some c → parse c.retyped = some c := by
  refine ⟨fun line => ⟨runs line.toList, Text.pairwise_runsFrom 0 0 _, fun i j => Text.mem_runs,
    ?_, fun target rpc rest h => parse_of_words ((Text.words_eq line).trans h)⟩,
    fun p target rpc rest h => parse_of_words ((Text.words_text p).trans h),
    fun line c => parse_retyped⟩
  rw [parse_eq_none_iff, Text.words_eq, List.length_map]

/-- Blanks that are none of the usual ones: a line separator in front, an ideographic space between
the words, and a carriage return behind them. -/
example : parse "\u2028Main\u3000 echo\tone\r" = some ⟨"Main", "echo", ⟨[.str "one"]⟩⟩ := by
  rfl

end ActorSystem.Command
