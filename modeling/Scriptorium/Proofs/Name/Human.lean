import Scriptorium.Proofs.Name.Segments

/-!
# Names in the words of the person who chose them

The identifier spelling of a text without underscores is read back as the text.
Every token begins with an underscore and tells its own end, and what is no token
holds no underscore, so the reader is at the start of a token or of a character
whenever the writer was.

A name given by a person has its group in front of the last double colon. The
rest is its simple part: it is what the human name of a script or a record type
shows, and two names with different simple parts are different names.
-/

namespace Scriptorium

namespace Name

open Text

/-! ## Hexadecimal numbers -/

theorem hexDigit?_digitChar : ∀ d < 16, hexDigit? (Nat.digitChar d) = some d := by decide

/-- The value of hexadecimal digits behind those of a number. -/
theorem foldlM_toDigits (n : Nat) :
    (Nat.toDigits 16 n).foldlM (fun m c => (hexDigit? c).map (16 * m + ·)) 0 = some n := by
  induction n using Nat.strongRecOn with
  | ind n ih =>
    rw [Nat.toDigits_eq_if (by decide)]
    split
    · next hlt => simp [hexDigit?_digitChar n hlt]
    · have hdigit := hexDigit?_digitChar (n % 16) (Nat.mod_lt n (by decide))
      have hsum : 16 * (n / 16) + n % 16 = n := Nat.div_add_mod n 16
      simp [List.foldlM_append, ih (n / 16) (by omega), hdigit, hsum]

theorem hexValue?_hexNumber (n : Nat) : hexValue? (hexNumber n) = some n := by
  have hvalue := foldlM_toDigits n
  unfold hexNumber
  dsimp only
  split
  · -- A zero in front of the digits does not change the number.
    have hzero : hexDigit? '0' = some 0 := by decide
    simpa [hexValue?, hzero] using hvalue
  · have hne : Nat.toDigits 16 n ≠ [] := Nat.toDigits_ne_nil
    simpa [hexValue?, hne] using hvalue

theorem isAlphanum_hexNumber (n : Nat) : ∀ c ∈ hexNumber n, c.isAlphanum = true := by
  have hdigits := isAlphanum_toDigits n
  unfold hexNumber
  dsimp only
  split
  · exact List.forall_mem_cons.mpr ⟨by decide, hdigits⟩
  · exact hdigits

theorem charOfNat?_toNat (c : Char) : charOfNat? c.toNat = some c := by
  have hvalid : c.toNat.isValidChar := c.valid
  have hchar := Char.ofNat_toNat c
  rw [Char.ofNat, dif_pos hvalid] at hchar
  rw [charOfNat?, dif_pos hvalid, hchar]

theorem escapedChar?_hexNumber (c : Char) : escapedChar? (hexNumber c.toNat) = some c := by
  have hdigits := isAlphanum_hexNumber c.toNat
  unfold escapedChar?
  dsimp only
  split
  · next ds heq =>
    rw [heq] at hdigits
    exact absurd (hdigits '+' List.mem_cons_self) (by decide)
  · rw [hexValue?_hexNumber, Option.bind_some, charOfNat?_toNat]

/-! ## Tokens -/

/-- Wherever the token begins, it is read as the text. -/
def ReadsAs (token text : List Char) : Prop :=
  ∀ rest, token? (token ++ rest) = some (text, token.length)

theorem desanitizeFrom_append (read rest : List Char) :
    desanitizeFrom read.length (read ++ rest) = desanitizeFrom 0 rest := by
  induction read with
  | nil => rfl
  | cons c read ih => simpa [desanitizeFrom] using ih

/-- A token that is read leaves the reader behind it. -/
theorem ReadsAs.desanitizeFrom {token text : List Char} (h : ReadsAs token text)
    (hne : token ≠ []) (rest : List Char) :
    desanitizeFrom 0 (token ++ rest) = text ++ desanitizeFrom 0 rest := by
  obtain ⟨c, cs, rfl⟩ := List.exists_cons_of_ne_nil hne
  have htoken := h rest
  rw [List.cons_append] at htoken ⊢
  simp [Name.desanitizeFrom, htoken, desanitizeFrom_append]

/-- Only an underscore begins a token. -/
theorem token?_eq_none {c : Char} (h : c ≠ '_') (rest : List Char) : token? (c :: rest) = none := by
  unfold token?
  split <;> simp_all

theorem desanitizeFrom_cons {c : Char} (h : c ≠ '_') (rest : List Char) :
    desanitizeFrom 0 (c :: rest) = c :: desanitizeFrom 0 rest := by
  rw [desanitizeFrom, token?_eq_none h]

theorem escapeChar_ne_nil (c : Char) : escapeChar c ≠ [] := by
  unfold escapeChar
  split <;> exact List.cons_ne_nil _ _

/-- A character that is written by its number is read as the character. -/
theorem readsAs_escapeChar {c : Char} (h : isIdentifierPart c = false) :
    ReadsAs (escapeChar c) [c] := by
  have hcode : escapeChar c = '_' :: 'x' :: (hexNumber c.toNat ++ ['_']) := by
    unfold isIdentifierPart at h
    simp [escapeChar, h]
  have hplain : ∀ d ∈ hexNumber c.toNat, (d != '_') = true := by
    intro d hd
    have halnum := isAlphanum_hexNumber c.toNat d hd
    rw [bne_iff_ne]
    rintro rfl
    revert halnum
    decide
  intro rest
  have hdigits : (hexNumber c.toNat ++ '_' :: rest).takeWhile (· != '_') = hexNumber c.toNat := by
    simp [List.takeWhile_append_of_pos hplain]
  simp only [hcode, List.cons_append, List.append_assoc, List.nil_append, token?, hdigits]
  simp [escapedChar?_hexNumber]

/-- A text without underscores is read back from its identifier spelling. -/
theorem desanitize_sanitize {cs : List Char} (h : '_' ∉ cs) : desanitize (sanitize cs) = cs := by
  unfold desanitize
  fun_induction sanitize cs with
  | case10 c cs _ _ _ _ _ _ _ _ _ ih =>
    have hc : c ≠ '_' := fun heq => h (heq ▸ List.mem_cons_self)
    have hcs := ih fun hmem => h (List.mem_cons_of_mem c hmem)
    cases hpart : isIdentifierPart c with
    | true =>
      have hcode : escapeChar c = [c] := if_pos hpart
      rw [hcode, List.singleton_append, desanitizeFrom_cons hc, hcs]
    | false =>
      rw [(readsAs_escapeChar hpart).desanitizeFrom (escapeChar_ne_nil c), hcs,
        List.singleton_append]
  | case11 => rfl
  | _ =>
    rename_i cs ih
    have hcs := ih fun hmem => h (by simp [hmem])
    simpa [desanitizeFrom, token?] using hcs

/-- With underscores it may not be: this text and a point have one spelling. -/
example : sanitize ['_', 'd', 't', '_'] = sanitize ['.'] := by decide

/-! ## The simple part of a name -/

/-- The text behind the last double colon of a name, or all of it when there is none. -/
inductive SimplePart (name : List Char) : List Char → Prop
  | whole (h : ¬groupSeparator <:+: name) : SimplePart name name
  | behind {group simple : List Char} (hname : name = group ++ (groupSeparator ++ simple))
    (hlast : ¬groupSeparator <:+: ':' :: simple) : SimplePart name simple

/-- Every name has a simple part. -/
theorem exists_simplePart (name : List Char) : ∃ simple, SimplePart name simple := by
  induction name with
  | nil => exact ⟨[], .whole (by decide)⟩
  | cons c name ih =>
    obtain ⟨simple, h⟩ := ih
    cases h with
    | @behind group simple hname hlast =>
      have hname : c :: name = (c :: group) ++ (groupSeparator ++ simple) :=
        congrArg (c :: ·) hname
      exact ⟨simple, .behind hname hlast⟩
    | whole hnone =>
      by_cases hfront : groupSeparator <+: c :: name
      · obtain ⟨rest, hrest⟩ := hfront
        have hname : c :: name = [] ++ (groupSeparator ++ rest) := hrest.symm
        have htail : ':' :: rest = name := (List.cons.inj hrest).2
        exact ⟨rest, .behind hname (htail ▸ hnone)⟩
      · refine ⟨_, .whole fun hinfix => ?_⟩
        exact (List.infix_cons_iff.mp hinfix).elim hfront hnone

theorem splitLast?_eq_none {sep cs : List Char} (h : ¬sep <:+: cs) : splitLast? sep cs = none := by
  induction cs with
  | nil => rfl
  | cons c cs ih =>
    have hrest : ¬sep <:+: cs := fun hinfix => h (List.infix_cons hinfix)
    have hfront : ¬sep <+: c :: cs := fun hprefix => h hprefix.isInfix
    simp [splitLast?, ih hrest, hfront]

theorem splitLast?_behind (group : List Char) {simple : List Char}
    (h : ¬groupSeparator <:+: ':' :: simple) :
    splitLast? groupSeparator (group ++ (groupSeparator ++ simple)) = some (group, simple) := by
  induction group with
  | nil =>
    have hfront : [] ++ (groupSeparator ++ simple) = ':' :: (':' :: simple) := rfl
    rw [hfront, splitLast?, splitLast?_eq_none h]
    simp [groupSeparator]
  | cons c group ih => simp [splitLast?, ih]

theorem SimplePart.splitGroup {name simple : List Char} (h : SimplePart name simple) :
    (splitGroup name).2 = simple := by
  cases h with
  | whole hnone => rw [Name.splitGroup, splitLast?_eq_none hnone]
  | behind hname hlast => rw [Name.splitGroup, hname, splitLast?_behind _ hlast]

end Name

namespace QualifiedName

open Name

variable {name : String} {simple : List Char}

theorem simpleName_script (h : SimplePart (Text.trim name.toList) simple) :
    (script name).simpleName = String.ofList (sanitize simple) := by
  simp [simpleName, script, h.splitGroup]

theorem simpleName_record (h : SimplePart (Text.trim name.toList) simple) :
    (record name).simpleName = String.ofList (sanitize simple) := by
  simp [simpleName, record, h.splitGroup]

/-- A simple name that spells a text without underscores stands for the text. -/
theorem humanName_of_simpleName {n : QualifiedName}
    (h : n.simpleName = String.ofList (sanitize simple)) (hmark : '_' ∉ simple) :
    n.humanName = String.ofList simple := by
  rw [humanName, h, String.toList_ofList, desanitize_sanitize hmark]

/-- A simple name does not spell two texts without underscores. -/
theorem simple_unique {n : QualifiedName} {other : List Char}
    (h : n.simpleName = String.ofList (sanitize simple)) (hmark : '_' ∉ simple)
    (hother : n.simpleName = String.ofList (sanitize other)) (hotherMark : '_' ∉ other) :
    simple = other := by
  have hhuman := humanName_of_simpleName h hmark
  rw [humanName_of_simpleName hother hotherMark] at hhuman
  exact (String.ofList_injective hhuman).symm

/-- The identifier spelling of a text holds letters, digits and underscores only, and the text is
read back from it when it has no underscore. So the human name of a script or record type is the
simple part of the name it was given, if that has no underscore, and two such names are the same
only if their simple parts are. -/
theorem sanitize_lossless :
    (∀ cs : List Char, '_' ∉ cs →
      (∀ c ∈ sanitize cs, Text.isIdentifierPart c = true) ∧ desanitize (sanitize cs) = cs) ∧
    (∀ name : String, (∃ simple, SimplePart (Text.trim name.toList) simple) ∧
      ∀ simple, SimplePart (Text.trim name.toList) simple → '_' ∉ simple →
        (script name).humanName = String.ofList simple ∧
          (record name).humanName = String.ofList simple) ∧
    ∀ (name other : String) (simple otherSimple : List Char),
      SimplePart (Text.trim name.toList) simple → '_' ∉ simple →
      SimplePart (Text.trim other.toList) otherSimple → '_' ∉ otherSimple →
        script name = script other ∨ record name = record other → simple = otherSimple := by
  refine ⟨fun cs hcs => ⟨isIdentifierPart_sanitize cs, desanitize_sanitize hcs⟩,
    fun name => ⟨exists_simplePart _, fun simple h hmark => ?_⟩, ?_⟩
  · exact ⟨humanName_of_simpleName (simpleName_script h) hmark,
      humanName_of_simpleName (simpleName_record h) hmark⟩
  · intro name other simple otherSimple h hmark hother hotherMark hsame
    rcases hsame with hsame | hsame
    · have hname := hsame ▸ simpleName_script hother
      exact simple_unique (simpleName_script h) hmark hname hotherMark
    · have hname := hsame ▸ simpleName_record hother
      exact simple_unique (simpleName_record h) hmark hname hotherMark

/-- Symbols of one and of two characters, blanks and characters beyond ASCII are kept next to each
other, and of three colons the last two end the group. -/
theorem sanitize_lossless_symbols :
    let given := "Lab:::R&&&D |é|[😀]-x2d"
    let simple := "R&&&D |é|[😀]-x2d".toList
    SimplePart (Text.trim given.toList) simple ∧ '_' ∉ simple ∧
      sanitize simple = "R_And__x26_D_x20__x7c__xe9__x7c__Lb__x1f600__Rb__Mns_x2d".toList ∧
      desanitize (sanitize simple) = simple ∧
      (script given).humanName = String.ofList simple ∧
      script given ≠ script "Lab:::R&&D |é|[😀]-x2d" := by
  intro given simple
  have hpart : SimplePart (Text.trim given.toList) simple :=
    @SimplePart.behind _ "Lab:".toList simple (by decide +kernel) (by decide +kernel)
  have hother : SimplePart (Text.trim "Lab:::R&&D |é|[😀]-x2d".toList)
      "R&&D |é|[😀]-x2d".toList :=
    @SimplePart.behind _ "Lab:".toList _ (by decide +kernel) (by decide +kernel)
  have hmark : '_' ∉ simple := by decide +kernel
  obtain ⟨hspelling, hhuman, hdistinct⟩ := sanitize_lossless
  refine ⟨hpart, hmark, by decide +kernel, (hspelling simple hmark).2, ?_, fun hsame => ?_⟩
  · exact ((hhuman given).2 simple hpart hmark).1
  · have heq := hdistinct _ _ _ _ hpart hmark hother (by decide +kernel) (.inl hsame)
    exact absurd heq (by decide +kernel)

end QualifiedName

end Scriptorium
