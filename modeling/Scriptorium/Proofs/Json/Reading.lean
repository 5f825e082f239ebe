import Scriptorium.Proofs.Json.Escape
import Scriptorium.Proofs.Json.Numeral

/-!
# What is written is read back

A document whose numerals are cut off where they end, and whose texts end at
their closing quotes, is read back exactly as it was written. The fuel of the
reader is never used up, since every part of a document takes at least one
character.
-/

namespace Scriptorium.Json

mutual

/-- The numerals, texts and names of a document are spelled as the reader expects them. -/
def Spelled : Json → Prop
  | .number numeral => IsNumeral numeral
  | .string escaped => EndsAtQuote escaped
  | .array items => SpelledItems items
  | .object members => SpelledMembers members
  | _ => True

/-- Every one of several documents is well spelled. -/
def SpelledItems : List Json → Prop
  | [] => True
  | j :: js => Spelled j ∧ SpelledItems js

/-- Every member of an object is well spelled, its name included. -/
def SpelledMembers : List (List Char × Json) → Prop
  | [] => True
  | (key, j) :: rest => EndsAtQuote key ∧ Spelled j ∧ SpelledMembers rest

end

theorem spelledItems_iff {js : List Json} : SpelledItems js ↔ ∀ j ∈ js, j.Spelled := by
  induction js with
  | nil => simp [SpelledItems]
  | cons j js ih => simp [SpelledItems, ih]

theorem spelledMembers_iff {ms : List (List Char × Json)} :
    SpelledMembers ms ↔ ∀ m ∈ ms, EndsAtQuote m.1 ∧ m.2.Spelled := by
  induction ms with
  | nil => simp [SpelledMembers]
  | cons m ms ih => simp [SpelledMembers, ih, and_assoc]

/-- A numeral begins with a digit or a sign. -/
theorem IsNumeral.head {numeral : List Char} (h : IsNumeral numeral) :
    ∃ c cs, numeral = c :: cs ∧ (c = '-' ∨ c.isDigit = true) := by
  have hcut := h [] (by simp [EndsNumeral])
  rw [List.append_nil] at hcut
  cases numeral with
  | nil => simp [cutNumeral?, cutMinus, cutWhole?, cutDigits] at hcut
  | cons c cs =>
    refine ⟨c, cs, rfl, ?_⟩
    by_cases hminus : c = '-'
    · exact .inl hminus
    by_cases hdigit : c.isDigit = true
    · exact .inr hdigit
    have hzero : c ≠ '0' := by
      rintro rfl
      exact hdigit rfl
    simp [cutNumeral?, cutMinus, cutWhole?, cutDigits, hminus, hdigit, hzero] at hcut

/-- A document begins with a character that is neither blank nor a closing bracket. -/
theorem write_head {j : Json} (h : j.Spelled) :
    ∃ c cs, j.write = c :: cs ∧ isSpace c = false ∧ c ≠ ']' := by
  cases j with
  | null => exact ⟨_, _, rfl, rfl, by decide⟩
  | boolean b => cases b <;> exact ⟨_, _, rfl, rfl, by decide⟩
  | number numeral =>
    obtain ⟨c, cs, rfl, hc⟩ := IsNumeral.head h
    refine ⟨c, cs, rfl, ?_⟩
    rcases hc with rfl | hc
    · exact ⟨rfl, by decide⟩
    · constructor
      · unfold isSpace
        have hne : ∀ d, d.isDigit = false → (c == d) = false := by
          intro d hd
          refine beq_eq_false_iff_ne.mpr ?_
          rintro rfl
          rw [hd] at hc
          cases hc
        rw [hne ' ' rfl, hne '\t' rfl, hne '\n' rfl, hne '\r' rfl]
        rfl
      · rintro rfl
        cases hc
  | string escaped => exact ⟨_, _, rfl, rfl, by decide⟩
  | array items => exact ⟨_, _, rfl, rfl, by decide⟩
  | object members => exact ⟨_, _, rfl, rfl, by decide⟩

theorem skipSpace_cons {c : Char} (h : isSpace c = false) (cs : List Char) :
    skipSpace (c :: cs) = c :: cs := by
  simp [skipSpace, h]

theorem skipSpace_write {j : Json} (h : j.Spelled) (rest : List Char) :
    skipSpace (j.write ++ rest) = j.write ++ rest := by
  obtain ⟨c, cs, hwrite, hc, -⟩ := write_head h
  rw [hwrite]
  exact skipSpace_cons hc _

theorem writeItems_cons {j : Json} {js : List Json} (h : js ≠ []) :
    writeItems (j :: js) = j.write ++ ',' :: writeItems js := by
  cases js with
  | nil => exact absurd rfl h
  | cons k js => rfl

theorem writeMembers_cons {key : List Char} {j : Json} {ms : List (List Char × Json)}
    (h : ms ≠ []) :
    writeMembers ((key, j) :: ms) = quoted key ++ ':' :: j.write ++ ',' :: writeMembers ms := by
  cases ms with
  | nil => exact absurd rfl h
  | cons m ms => rfl

theorem readValue?_number {numeral rest : List Char} (h : IsNumeral numeral)
    (hrest : EndsNumeral rest) (fuel : Nat) :
    readValue? (fuel + 1) (numeral ++ rest) = some (.number numeral, rest) := by
  obtain ⟨c, cs, hnumeral, hc⟩ := h.head
  have hne {d : Char} (hd : d ≠ '-' ∧ d.isDigit = false) (tail : List Char) :
      numeral ++ rest = d :: tail → False := by
    intro heq
    rw [hnumeral] at heq
    obtain rfl := (List.cons.inj heq).1
    rcases hc with rfl | hc
    · exact hd.1 rfl
    · rw [hd.2] at hc
      cases hc
  rw [readValue?.eq_8 _ _ (fun _ => hne (by decide) _) (fun _ => hne (by decide) _)
    (fun _ => hne (by decide) _) (fun _ => hne (by decide) _) (fun _ => hne (by decide) _)
    (fun _ => hne (by decide) _), h rest hrest]
  rfl

theorem endsNumeral_cons {c : Char} (h : c.isDigit = false ∧ c ≠ '.' ∧ c ≠ 'e' ∧ c ≠ 'E')
    (cs : List Char) : EndsNumeral (c :: cs) := by
  intro d hd
  obtain rfl : c = d := by simpa using hd
  exact h

/-- The last item of an array is read up to the closing bracket. -/
theorem readItems?_last {j : Json} {cs rest : List Char} {fuel : Nat}
    (h : readValue? fuel cs = some (j, ']' :: rest)) :
    readItems? (fuel + 1) cs = some ([j], rest) := by
  rw [readItems?, h]
  rfl

/-- An item of an array is followed by the others. -/
theorem readItems?_next {j : Json} {js : List Json} {cs others rest : List Char} {fuel : Nat}
    (h : readValue? fuel cs = some (j, ',' :: others)) (hskip : skipSpace others = others)
    (hothers : readItems? fuel others = some (js, rest)) :
    readItems? (fuel + 1) cs = some (j :: js, rest) := by
  have hcomma : skipSpace (',' :: others) = ',' :: others := skipSpace_cons rfl others
  rw [readItems?, h]
  simp only [Option.bind_eq_bind, Option.bind_some, hcomma, hskip, hothers]
  rfl

/-- The last member of an object is read up to the closing brace. -/
theorem readMembers?_last {key : List Char} {j : Json} {cs rest : List Char} {fuel : Nat}
    (hkey : EndsAtQuote key) (hskip : skipSpace cs = cs)
    (h : readValue? fuel cs = some (j, '}' :: rest)) :
    readMembers? (fuel + 1) (quoted key ++ ':' :: cs) = some ([(key, j)], rest) := by
  have hquoted : quoted key ++ ':' :: cs = '"' :: (key ++ '"' :: ':' :: cs) := by simp [quoted]
  have hcolon : skipSpace (':' :: cs) = ':' :: cs := skipSpace_cons rfl cs
  have hbrace : skipSpace ('}' :: rest) = '}' :: rest := skipSpace_cons rfl rest
  rw [hquoted, readMembers?, if_neg (by simp), hkey]
  simp only [Option.bind_eq_bind, Option.bind_some, hcolon, hskip, h, hbrace]
  rfl

/-- A member of an object is followed by the others. -/
theorem readMembers?_next {key : List Char} {j : Json} {ms : List (List Char × Json)}
    {cs others rest : List Char} {fuel : Nat} (hkey : EndsAtQuote key) (hskip : skipSpace cs = cs)
    (h : readValue? fuel cs = some (j, ',' :: others)) (hnext : skipSpace others = others)
    (hothers : readMembers? fuel others = some (ms, rest)) :
    readMembers? (fuel + 1) (quoted key ++ ':' :: cs) = some ((key, j) :: ms, rest) := by
  have hquoted : quoted key ++ ':' :: cs = '"' :: (key ++ '"' :: ':' :: cs) := by simp [quoted]
  have hcolon : skipSpace (':' :: cs) = ':' :: cs := skipSpace_cons rfl cs
  have hcomma : skipSpace (',' :: others) = ',' :: others := skipSpace_cons rfl others
  rw [hquoted, readMembers?, if_neg (by simp), hkey]
  simp only [Option.bind_eq_bind, Option.bind_some, hcolon, hskip, h, hcomma, hnext, hothers]
  rfl

theorem skipSpace_writeItems {js : List Json} (h : SpelledItems js) (hne : js ≠ [])
    (rest : List Char) : skipSpace (writeItems js ++ rest) = writeItems js ++ rest := by
  cases js with
  | nil => exact absurd rfl hne
  | cons j js =>
    cases js with
    | nil => exact skipSpace_write h.1 rest
    | cons k js =>
      rw [writeItems_cons (List.cons_ne_nil k js), List.append_assoc]
      exact skipSpace_write h.1 _

theorem skipSpace_writeMembers {ms : List (List Char × Json)} (hne : ms ≠ [])
    (rest : List Char) : skipSpace (writeMembers ms ++ rest) = writeMembers ms ++ rest := by
  cases ms with
  | nil => exact absurd rfl hne
  | cons m ms => cases ms <;> exact skipSpace_cons rfl _

mutual

/-- A document is read back from its spelling, and what follows it remains. -/
theorem readValue?_write (j : Json) (h : j.Spelled) {rest : List Char} (hrest : EndsNumeral rest)
    {fuel : Nat} (hfuel : j.write.length ≤ fuel) :
    readValue? fuel (j.write ++ rest) = some (j, rest) := by
  have hpos : 0 < j.write.length := by
    obtain ⟨c, cs, hwrite, -⟩ := write_head h
    simp [hwrite]
  obtain ⟨fuel, rfl⟩ : ∃ n, fuel = n + 1 := ⟨fuel - 1, by omega⟩
  match j with
  | .null => rfl
  | .boolean true => rfl
  | .boolean false => rfl
  | .number numeral => exact readValue?_number h hrest fuel
  | .string escaped =>
    have hwrite : (string escaped).write ++ rest = '"' :: (escaped ++ '"' :: rest) := by
      simp [write, quoted]
    have hcut : cutString? (escaped ++ '"' :: rest) = some (escaped, rest) := h rest
    rw [hwrite, readValue?, hcut]
    rfl
  | .array [] => rfl
  | .array (k :: js) =>
    have hwrite : (array (k :: js)).write ++ rest = '[' :: (writeItems (k :: js) ++ ']' :: rest) := by
      simp [write]
    have hskip := skipSpace_writeItems h (List.cons_ne_nil k js) (']' :: rest)
    have hlength : (writeItems (k :: js)).length + 1 ≤ fuel := by
      simp [write] at hfuel
      omega
    have hitems := readItems?_write (k :: js) h (List.cons_ne_nil k js) rest hlength
    have hhead : ∀ tail, writeItems (k :: js) ++ ']' :: rest = ']' :: tail → False := by
      obtain ⟨c, cs, hk, -, hc⟩ := write_head h.1
      intro tail heq
      cases js with
      | nil =>
        rw [writeItems, hk] at heq
        exact hc (List.cons.inj heq).1
      | cons k' js =>
        rw [writeItems_cons (List.cons_ne_nil k' js), hk] at heq
        exact hc (List.cons.inj heq).1
    rw [hwrite, readValue?, hskip]
    split
    · next heq => exact absurd heq (hhead _)
    · rw [hitems]
      rfl
  | .object [] => rfl
  | .object (m :: ms) =>
    have hwrite : (object (m :: ms)).write ++ rest =
        '{' :: (writeMembers (m :: ms) ++ '}' :: rest) := by
      simp [write]
    have hskip := skipSpace_writeMembers (List.cons_ne_nil m ms) ('}' :: rest)
    have hlength : (writeMembers (m :: ms)).length + 1 ≤ fuel := by
      simp [write] at hfuel
      omega
    have hmembers := readMembers?_write (m :: ms) h (List.cons_ne_nil m ms) rest hlength
    have hhead : ∀ tail, writeMembers (m :: ms) ++ '}' :: rest = '}' :: tail → False := by
      intro tail heq
      cases ms <;> exact absurd (List.cons.inj heq).1 (by decide)
    rw [hwrite, readValue?, hskip]
    split
    · next heq => exact absurd heq (hhead _)
    · rw [hmembers]
      rfl

/-- The items of an array are read back up to the closing bracket. -/
theorem readItems?_write (js : List Json) (h : SpelledItems js) (hne : js ≠ []) (rest : List Char)
    {fuel : Nat} (hfuel : (writeItems js).length + 1 ≤ fuel) :
    readItems? fuel (writeItems js ++ ']' :: rest) = some (js, rest) := by
  obtain ⟨fuel, rfl⟩ : ∃ n, fuel = n + 1 := ⟨fuel - 1, by omega⟩
  match js with
  | [] => exact absurd rfl hne
  | [j] =>
    have hlength : j.write.length ≤ fuel := by
      simpa [writeItems] using hfuel
    exact readItems?_last
      (readValue?_write j h.1 (endsNumeral_cons (by decide) rest) hlength)
  | j :: k :: js =>
    rw [writeItems_cons (List.cons_ne_nil k js)] at hfuel ⊢
    simp only [List.length_append, List.length_cons] at hfuel
    have hlength : (writeItems (k :: js)).length + 1 ≤ fuel := by omega
    rw [List.append_assoc, List.cons_append]
    exact readItems?_next
      (readValue?_write j h.1 (endsNumeral_cons (by decide) _) (by omega))
      (skipSpace_writeItems h.2 (List.cons_ne_nil k js) _)
      (readItems?_write (k :: js) h.2 (List.cons_ne_nil k js) rest hlength)

/-- The members of an object are read back up to the closing brace. -/
theorem readMembers?_write (ms : List (List Char × Json)) (h : SpelledMembers ms) (hne : ms ≠ [])
    (rest : List Char) {fuel : Nat} (hfuel : (writeMembers ms).length + 1 ≤ fuel) :
    readMembers? fuel (writeMembers ms ++ '}' :: rest) = some (ms, rest) := by
  obtain ⟨fuel, rfl⟩ : ∃ n, fuel = n + 1 := ⟨fuel - 1, by omega⟩
  match ms with
  | [] => exact absurd rfl hne
  | [(key, j)] =>
    obtain ⟨hkey, hj, -⟩ := h
    have hlength : j.write.length ≤ fuel := by
      simp [writeMembers] at hfuel
      omega
    rw [writeMembers, List.append_assoc, List.cons_append]
    exact readMembers?_last hkey (skipSpace_write hj _)
      (readValue?_write j hj (endsNumeral_cons (by decide) rest) hlength)
  | (key, j) :: m :: ms =>
    obtain ⟨hkey, hj, hms⟩ := h
    rw [writeMembers_cons (List.cons_ne_nil m ms)] at hfuel ⊢
    simp only [List.length_append, List.length_cons] at hfuel
    have hlength : (writeMembers (m :: ms)).length + 1 ≤ fuel := by omega
    simp only [List.append_assoc, List.cons_append]
    exact readMembers?_next hkey (skipSpace_write hj _)
      (readValue?_write j hj (endsNumeral_cons (by decide) _) (by omega))
      (skipSpace_writeMembers (List.cons_ne_nil m ms) _)
      (readMembers?_write (m :: ms) hms (List.cons_ne_nil m ms) rest hlength)

end

/-- A well-spelled document is read back from its text. -/
theorem read?_write {j : Json} (h : j.Spelled) : read? j.write = some j := by
  have hskip : skipSpace j.write = j.write := by simpa using skipSpace_write h []
  have hread : readValue? (2 * j.write.length + 2) (j.write ++ []) = some (j, []) :=
    readValue?_write j h (by simp [EndsNumeral]) (by omega)
  rw [List.append_nil] at hread
  rw [read?, hskip, hread]
  rfl

end Scriptorium.Json
