/-!
# Cutting a text at separators

A cut at every occurrence of a separator yields one piece more than there are
occurrences, so the pieces come as a first one and a list of others. The cuts
at the first and at the last occurrence yield nothing when there is none.
-/

namespace Scriptorium.Text

/-- The pieces between the occurrences of `sep`: the first one and the others. -/
def splitAt (sep : Char) : List Char → List Char × List (List Char)
  | [] => ([], [])
  | c :: cs =>
    let (w, ws) := splitAt sep cs
    if c = sep then ([], w :: ws) else (c :: w, ws)

/-- The texts before and after the first occurrence of `sep`. -/
def splitFirst? (sep : List Char) : List Char → Option (List Char × List Char)
  | [] => none
  | c :: cs =>
    if sep.isPrefixOf (c :: cs) then some ([], (c :: cs).drop sep.length)
    else (splitFirst? sep cs).map fun (before, after) => (c :: before, after)

/-- The texts before and after the last occurrence of `sep`. Of two overlapping
occurrences the later one counts. -/
def splitLast? (sep : List Char) : List Char → Option (List Char × List Char)
  | [] => none
  | c :: cs =>
    match splitLast? sep cs with
    | some (before, after) => some (c :: before, after)
    | none =>
      if sep.isPrefixOf (c :: cs) then some ([], (c :: cs).drop sep.length) else none

/-- Text between pieces put back together. -/
def joinWith (sep : List Char) : List Char × List (List Char) → List Char
  | (w, ws) => ws.foldl (fun acc piece => acc ++ sep ++ piece) w

/-- `splitAt` on strings. -/
def pieces (sep : Char) (s : String) : String × List String :=
  let (w, ws) := splitAt sep s.toList
  (String.ofList w, ws.map String.ofList)

theorem foldl_joinWith_cons (sep : List Char) (c : Char) (w : List Char)
    (ws : List (List Char)) :
    ws.foldl (fun acc piece => acc ++ sep ++ piece) (c :: w) =
      c :: ws.foldl (fun acc piece => acc ++ sep ++ piece) w := by
  induction ws generalizing w with
  | nil => rfl
  | cons v vs ih =>
    simp only [List.foldl_cons, List.cons_append]
    exact ih _

theorem foldl_joinWith_nil (sep : Char) (w : List Char) (ws : List (List Char)) :
    (w :: ws).foldl (fun acc piece => acc ++ [sep] ++ piece) [] =
      sep :: ws.foldl (fun acc piece => acc ++ [sep] ++ piece) w := by
  simp only [List.foldl_cons, List.nil_append]
  exact foldl_joinWith_cons [sep] sep w ws

/-- The pieces and the separators between them make up the text. -/
theorem joinWith_splitAt (sep : Char) (cs : List Char) :
    joinWith [sep] (splitAt sep cs) = cs := by
  induction cs with
  | nil => rfl
  | cons c cs ih =>
    simp only [joinWith] at ih
    by_cases h : c = sep
    · simp only [splitAt, h, if_true, joinWith]
      rw [foldl_joinWith_nil, ih]
    · simp only [splitAt, h, if_false, joinWith]
      rw [foldl_joinWith_cons, ih]

/-- No piece holds the separator. -/
theorem not_mem_splitAt (sep : Char) (cs : List Char) :
    sep ∉ (splitAt sep cs).1 ∧ ∀ w ∈ (splitAt sep cs).2, sep ∉ w := by
  induction cs with
  | nil => simp [splitAt]
  | cons c cs ih =>
    by_cases h : c = sep
    · simpa [splitAt, h] using ih
    · simpa [splitAt, h, Ne.symm h] using ih

end Scriptorium.Text
