import ActorSystem.Text.Blank
import Mathlib.Data.List.Basic

set_option autoImplicit false

namespace ActorSystem.Text

def utf8 (s : String) : List UInt8 := s.toUTF8.data.toList

theorem utf8_eq (s : String) : utf8 s = s.toList.flatMap String.utf8EncodeChar := by
  have hbytes : s.toUTF8 = (s.toList.flatMap String.utf8EncodeChar).toByteArray :=
    (String.utf8Encode_toList (b := s)).symm
  rw [utf8, hbytes, List.data_toByteArray]

@[simp] theorem utf8_append (s t : String) : utf8 (s ++ t) = utf8 s ++ utf8 t := by
  simp [utf8_eq]

theorem fromUTF8?_utf8 (s : String) : String.fromUTF8? ⟨(utf8 s).toArray⟩ = some s := by
  have hbytes : (⟨(utf8 s).toArray⟩ : ByteArray) = s.toByteArray := rfl
  rw [hbytes, String.fromUTF8?, dif_pos s.isValidUTF8]
  rfl

theorem utf8_of_fromUTF8? {bytes : List UInt8} {s : String}
    (h : String.fromUTF8? ⟨bytes.toArray⟩ = some s) : utf8 s = bytes := by
  unfold String.fromUTF8? at h
  split at h
  · rw [← Option.some.inj h]
    rfl
  · cases h

theorem utf8_eq_nil_iff {s : String} : utf8 s = [] ↔ s = "" := by
  rw [utf8_eq, List.flatMap_eq_nil_iff, ← String.toList_eq_nil_iff, List.eq_nil_iff_forall_not_mem]
  exact forall₂_congr fun c _ => iff_false_intro String.utf8EncodeChar_ne_nil

theorem toNat_of_mem_utf8EncodeChar {c : Char} {b : UInt8} (hb : b ∈ String.utf8EncodeChar c)
    (hsmall : b.toNat < 128) : c.toNat = b.toNat := by
  have hc : c.toNat = c.val.toNat := rfl
  unfold String.utf8EncodeChar at hb
  dsimp only at hb
  split at hb
  · simp only [List.mem_cons, List.not_mem_nil, or_false] at hb
    subst hb
    simp only [UInt8.toNat_ofNat'] at hsmall ⊢
    omega
  · split at hb
    · simp only [List.mem_cons, List.not_mem_nil, or_false] at hb
      rcases hb with rfl | rfl <;> simp only [UInt8.toNat_ofNat'] at hsmall <;> omega
    · split at hb
      · simp only [List.mem_cons, List.not_mem_nil, or_false] at hb
        rcases hb with rfl | rfl | rfl <;> simp only [UInt8.toNat_ofNat'] at hsmall <;> omega
      · simp only [List.mem_cons, List.not_mem_nil, or_false] at hb
        rcases hb with rfl | rfl | rfl | rfl <;> simp only [UInt8.toNat_ofNat'] at hsmall <;> omega

theorem eq_of_mem_utf8EncodeChar {c c' : Char} {b : UInt8} (hb : b ∈ String.utf8EncodeChar c)
    (hc : b.toNat = c'.toNat) (hsmall : b.toNat < 128) : c = c' :=
  Char.ext (UInt32.toNat_inj.1 ((toNat_of_mem_utf8EncodeChar hb hsmall).trans hc))

theorem lineFeed_not_mem {s : String} (h : '\n' ∉ s.toList) : (10 : UInt8) ∉ utf8 s := by
  intro hb
  rw [utf8_eq, List.mem_flatMap] at hb
  obtain ⟨c, hmem, hb⟩ := hb
  obtain rfl : c = '\n' := eq_of_mem_utf8EncodeChar hb rfl (by decide)
  exact h hmem

theorem carriageReturn_not_last {s : String} (h : s.toList.getLast? ≠ some '\r') :
    (utf8 s).getLast? ≠ some 13 := by
  intro hb
  rw [utf8_eq] at hb
  rcases List.eq_nil_or_concat s.toList with hnil | ⟨cs, c, hs⟩
  · simp [hnil] at hb
  · rw [hs, List.concat_eq_append] at hb h
    rw [List.flatMap_append, List.flatMap_singleton, 
      List.getLast?_append_of_ne_nil _ String.utf8EncodeChar_ne_nil] at hb
    obtain rfl : c = '\r' := eq_of_mem_utf8EncodeChar (List.mem_of_getLast? hb) rfl (by decide)
    exact h (by simp)

variable {bs : List UInt8}

theorem linesFrom_of_ne {b : UInt8} (hb : b ≠ 10) (line bs : List UInt8) :
    linesFrom line (b :: bs) = linesFrom (b :: line) bs := if_neg (by simpa using hb)

theorem linesFrom_cut (line bs : List UInt8) :
    linesFrom line (10 :: bs) = linesFrom line [10] ++ linesFrom [] bs := rfl

theorem linesFrom_line (line : List UInt8) (h : (10 : UInt8) ∉ bs) (rest : List UInt8) :
    linesFrom line (bs ++ rest) = linesFrom (bs.reverse ++ line) rest := by
  induction bs generalizing line with
  | nil => rfl
  | cons b bs ih =>
    obtain ⟨hb, hbs⟩ := not_or.1 (mt List.mem_cons.2 h)
    rw [List.cons_append, linesFrom_of_ne (Ne.symm hb), ih _ hbs, List.reverse_cons,
      List.append_assoc]
    rfl

theorem linesFrom_feed {line : List UInt8} (h : line.head? ≠ some 13) :
    linesFrom line [10] = [line.reverse] := by
  unfold linesFrom
  rw [if_pos BEq.rfl]
  split
  · exact absurd rfl h
  · rfl

theorem linesFrom_lf (h : (10 : UInt8) ∉ bs) (hlast : bs.getLast? ≠ some 13) (rest : List UInt8) :
    linesFrom [] (bs ++ 10 :: rest) = bs :: linesFrom [] rest := by
  rw [← List.head?_reverse] at hlast
  rw [linesFrom_line [] h, List.append_nil, linesFrom_cut, linesFrom_feed hlast,
    List.reverse_reverse]
  rfl

theorem linesFrom_crlf (h : (10 : UInt8) ∉ bs) (rest : List UInt8) :
    linesFrom [] (bs ++ 13 :: 10 :: rest) = bs :: linesFrom [] rest := by
  have hone : linesFrom (13 :: bs.reverse) [10] = [bs] :=
    congrArg (fun line => [line]) (List.reverse_reverse bs)
  rw [linesFrom_line [] h, List.append_nil, linesFrom_of_ne (by decide), linesFrom_cut, hone]
  rfl

theorem linesFrom_last (h : (10 : UInt8) ∉ bs) :
    linesFrom [] bs = if bs = [] then [] else [bs] := by
  have hcut := linesFrom_line [] h []
  rw [List.append_nil, List.append_nil] at hcut
  rw [hcut, linesFrom]
  simp

theorem linesFrom_append (line bs bs' : List UInt8) :
    linesFrom line (bs ++ 10 :: bs') = linesFrom line (bs ++ [10]) ++ linesFrom [] bs' := by
  induction bs generalizing line with
  | nil => exact linesFrom_cut line bs'
  | cons b bs ih =>
    by_cases hb : b = 10
    · subst hb
      rw [List.cons_append, List.cons_append, linesFrom_cut, linesFrom_cut line (bs ++ [10]), ih,
        List.append_assoc]
    · rw [List.cons_append, List.cons_append, linesFrom_of_ne hb, linesFrom_of_ne hb, ih]

theorem byteLines_append (s t : String) :
    byteLines (utf8 (s ++ "\n" ++ t)) = byteLines (utf8 (s ++ "\n")) ++ byteLines (utf8 t) := by
  have hfeed : utf8 "\n" = [10] := by decide
  rw [utf8_append, utf8_append, hfeed, List.append_assoc]
  exact linesFrom_append [] (utf8 s) (utf8 t)

inductive Ending where
  | lf
  | crlf
  deriving DecidableEq, Repr

def Ending.text : Ending → String
  | lf => "\n"
  | crlf => "\r\n"

/-- A text as it was written, line by line; behind the last ending there may be more. A carriage
return before a line feed belongs to the ending. -/
structure Document where
  ended : List (String × Ending)
  last : String
  whole : ∀ l ∈ ended, '\n' ∉ l.1.toList
  parted : ∀ l ∈ ended, l.2 = .lf → l.1.toList.getLast? ≠ some '\r'
  wholeLast : '\n' ∉ last.toList

namespace Document

def text (d : Document) : String := String.join (d.ended.map fun l => l.1 ++ l.2.text) ++ d.last

def lines (d : Document) : List String :=
  d.ended.map Prod.fst ++ if d.last = "" then [] else [d.last]

theorem byteLines_text (d : Document) : byteLines (utf8 d.text) = d.lines.map utf8 := by
  obtain ⟨ended, last, whole, parted, hlast⟩ := d
  simp only [byteLines, text, lines]
  induction ended with
  | nil =>
    rw [List.map_nil, String.join_nil, String.empty_append, linesFrom_last (lineFeed_not_mem hlast)]
    by_cases hempty : last = ""
    · rw [if_pos hempty, if_pos (utf8_eq_nil_iff.2 hempty)]
      rfl
    · rw [if_neg hempty, if_neg (mt utf8_eq_nil_iff.1 hempty)]
      rfl
  | cons l ended ih =>
    have hl := lineFeed_not_mem (whole l List.mem_cons_self)
    have hrest := ih (fun l hl => whole l (List.mem_cons_of_mem _ hl))
      (fun l hl => parted l (List.mem_cons_of_mem _ hl))
    rw [List.map_cons, String.join_cons, String.append_assoc, utf8_append, utf8_append,
      List.append_assoc, List.map_cons, List.cons_append, List.map_cons, ← hrest]
    obtain ⟨line, ending⟩ := l
    cases ending with
    | lf =>
      have hcr := carriageReturn_not_last (parted _ List.mem_cons_self rfl)
      exact linesFrom_lf hl hcr _
    | crlf => exact linesFrom_crlf hl _

/-- Every text is one: a character more at the front of a text begins a line of its own, is half of
the ending of an empty one, or goes to the front of the first line. -/
theorem exists_document (s : String) : ∃ d : Document, d.text = s := by
  rw [← String.ofList_toList (s := s)]
  induction s.toList with
  | nil => exact ⟨⟨[], "", by simp, by simp, by simp⟩, rfl⟩
  | cons c cs ih =>
    obtain ⟨⟨ended, last, whole, parted, wholeLast⟩, hd⟩ := ih
    rw [String.ofList_cons, ← hd]
    by_cases hfeed : c = '\n'
    · subst hfeed
      refine ⟨⟨("", .lf) :: ended, last, ?_, ?_, wholeLast⟩, ?_⟩
      · simpa using whole
      · simpa using parted
      · simp [text, Ending.text, String.append_assoc]
    · cases ended with
      | nil =>
        refine ⟨⟨[], String.singleton c ++ last, by simp, by simp, ?_⟩, by simp [text]⟩
        simp [Ne.symm hfeed, wholeLast]
      | cons l ended =>
        obtain ⟨line, ending⟩ := l
        obtain ⟨hwhole, hwholes⟩ := List.forall_mem_cons.1 whole
        obtain ⟨hparted, hparteds⟩ := List.forall_mem_cons.1 parted
        by_cases hcr : line = "" ∧ ending = .lf ∧ c = '\r'
        · obtain ⟨rfl, rfl, rfl⟩ := hcr
          refine ⟨⟨("", .crlf) :: ended, last, List.forall_mem_cons.2 ⟨hwhole, hwholes⟩,
            List.forall_mem_cons.2 ⟨by simp, hparteds⟩, wholeLast⟩, ?_⟩
          simp [text, Ending.text, ← String.append_assoc]
        · have hne : ending = .lf → (c :: line.toList).getLast? ≠ some '\r' := by
            intro hlf
            cases hline : line.toList with
            | nil =>
              have hc : c ≠ '\r' := fun h => hcr ⟨String.toList_eq_nil_iff.1 hline, hlf, h⟩
              simpa using hc
            | cons c' cs' =>
              have hlast := hparted hlf
              rw [hline] at hlast
              simpa using hlast
          refine ⟨⟨(String.singleton c ++ line, ending) :: ended, last,
            List.forall_mem_cons.2 ⟨by simp [Ne.symm hfeed, hwhole], hwholes⟩,
            List.forall_mem_cons.2 ⟨by simpa using hne, hparteds⟩, wholeLast⟩, ?_⟩
          simp [text, String.append_assoc]

end Document

end ActorSystem.Text
