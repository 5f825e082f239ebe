/-!
# Blanks and words

The blanks of a text are the characters with the Unicode property White_Space.
Trimming drops them at both ends and `words` cuts a text at every run of them.
The zero-width space and the byte order mark do not have the property and
therefore stay inside a word.
-/

namespace Scriptorium.Text

/-- The character has the Unicode property White_Space. -/
def isBlank (c : Char) : Bool :=
  let n := c.toNat
  (0x09 ≤ n && n ≤ 0x0D) || n == 0x20 || n == 0x85 || n == 0xA0 || n == 0x1680 ||
    (0x2000 ≤ n && n ≤ 0x200A) || n == 0x2028 || n == 0x2029 || n == 0x202F ||
    n == 0x205F || n == 0x3000

/-- The text without its leading blanks. -/
def trimStart (cs : List Char) : List Char := cs.dropWhile isBlank

/-- The text without its trailing blanks. -/
def trimEnd (cs : List Char) : List Char := (cs.reverse.dropWhile isBlank).reverse

/-- The text without the blanks at either end. -/
def trim (cs : List Char) : List Char := trimEnd (trimStart cs)

/-- `trim` on strings. -/
def trimmed (s : String) : String := String.ofList (trim s.toList)

/-- A word in front of others, unless it is empty. -/
def consWord (w : List Char) (ws : List (List Char)) : List (List Char) :=
  match w with
  | [] => ws
  | _ => w :: ws

/-- The part before the first blank, and the words after it. -/
def cutWords : List Char → List Char × List (List Char)
  | [] => ([], [])
  | c :: cs =>
    let (w, ws) := cutWords cs
    if isBlank c then ([], consWord w ws) else (c :: w, ws)

/-- The maximal runs of characters other than blanks, in order. -/
def words (cs : List Char) : List (List Char) :=
  let (w, ws) := cutWords cs
  consWord w ws

/-- The text without any blank. -/
def compact (cs : List Char) : List Char := cs.filter (fun c => !isBlank c)

/-- The first word that is cut off is free of blanks. -/
theorem not_isBlank_of_mem_cutWords (cs : List Char) :
    ∀ c ∈ (cutWords cs).1, isBlank c = false := by
  induction cs with
  | nil => exact nofun
  | cons c cs ih =>
    by_cases hc : isBlank c
    · simp [cutWords, hc]
    · simpa [cutWords, hc] using ih

end Scriptorium.Text
