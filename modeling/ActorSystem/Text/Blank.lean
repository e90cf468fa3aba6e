set_option autoImplicit false

namespace ActorSystem.Text

def isBlank (c : Char) : Bool :=
  let n := c.toNat
  n == 0x20 || decide (0x9 ≤ n ∧ n ≤ 0xd) || n == 0x85 || n == 0xa0 || n == 0x1680 ||
    decide (0x2000 ≤ n ∧ n ≤ 0x200a) || n == 0x2028 || n == 0x2029 || n == 0x202f ||
    n == 0x205f || n == 0x3000

theorem isBlank_of_isWhitespace {c : Char} (h : c.isWhitespace = true) : isBlank c = true := by
  simp only [Char.isWhitespace, Bool.or_eq_true, decide_eq_true_eq] at h
  rcases h with ((rfl | rfl) | rfl) | rfl <;> decide

/-- The maximal runs of characters that are not blank; `word` is the run being read, backwards. -/
def wordsFrom (word : List Char) : List Char → List String
  | [] => if word.isEmpty then [] else [String.ofList word.reverse]
  | c :: cs =>
    if isBlank c then
      if word.isEmpty then wordsFrom [] cs else String.ofList word.reverse :: wordsFrom [] cs
    else wordsFrom (c :: word) cs

def words (s : String) : List String := wordsFrom [] s.toList

/-- A line ends at a line feed, and a carriage return before that belongs to the end; what follows
the last line feed is a line unless it is empty. -/
def linesFrom (line : List UInt8) : List UInt8 → List (List UInt8)
  | [] => if line.isEmpty then [] else [line.reverse]
  | b :: bs =>
    if b == 10 then
      (match line with
        | 13 :: rest => rest.reverse
        | _ => line.reverse) :: linesFrom [] bs
    else linesFrom (b :: line) bs

def byteLines (bytes : List UInt8) : List (List UInt8) := linesFrom [] bytes

end ActorSystem.Text
