import Scriptorium.Name.Basic

/-!
# Segments of names that people give

The identifier spelling of a text holds letters, digits and underscores only,
so the segments of the name of a script or a record type hold neither a point
nor a dollar sign. Such a name is read back from its text exactly when it is
well formed, whatever its discriminator is.
-/

namespace Scriptorium

namespace Text

theorem joinWith_cons (sep : Char) (w v : List Char) (vs : List (List Char)) :
    joinWith [sep] (w, v :: vs) = w ++ sep :: joinWith [sep] (v, vs) := by
  simp [joinWith]

theorem splitAt_of_not_mem {sep : Char} {w : List Char} (h : sep ∉ w) :
    splitAt sep w = (w, []) := by
  induction w with
  | nil => rfl
  | cons c w ih =>
    have hc : c ≠ sep := fun heq => h (heq ▸ List.mem_cons_self)
    rw [splitAt, ih fun hmem => h (List.mem_cons_of_mem _ hmem)]
    exact if_neg hc

theorem splitAt_append {sep : Char} {w : List Char} (h : sep ∉ w) (rest : List Char) :
    splitAt sep (w ++ sep :: rest) =
      (w, (splitAt sep rest).1 :: (splitAt sep rest).2) := by
  induction w with
  | nil =>
    rw [List.nil_append, splitAt]
    exact if_pos rfl
  | cons c w ih =>
    have hc : c ≠ sep := fun heq => h (heq ▸ List.mem_cons_self)
    rw [List.cons_append, splitAt, ih fun hmem => h (List.mem_cons_of_mem _ hmem)]
    exact if_neg hc

/-- Pieces that do not hold the separator are found again. -/
theorem splitAt_joinWith {sep : Char} {w : List Char} {ws : List (List Char)}
    (h : ∀ v ∈ w :: ws, sep ∉ v) : splitAt sep (joinWith [sep] (w, ws)) = (w, ws) := by
  induction ws generalizing w with
  | nil => exact splitAt_of_not_mem (h w List.mem_cons_self)
  | cons v vs ih =>
    have hw : sep ∉ w := h w List.mem_cons_self
    rw [joinWith_cons, splitAt_append hw, ih fun u hu => h u (List.mem_cons_of_mem _ hu)]

theorem not_mem_joinWith {sep c : Char} {w : List Char} {ws : List (List Char)} (hc : c ≠ sep)
    (h : ∀ v ∈ w :: ws, c ∉ v) : c ∉ joinWith [sep] (w, ws) := by
  induction ws generalizing w with
  | nil => exact h w List.mem_cons_self
  | cons v vs ih =>
    have hvs := ih fun u hu => h u (List.mem_cons_of_mem _ hu)
    have hw := h w List.mem_cons_self
    simp [joinWith_cons, hw, hc, hvs]

theorem splitFirst?_of_not_mem {c : Char} {sep cs : List Char} (h : c ∉ cs) :
    splitFirst? (c :: sep) cs = none := by
  induction cs with
  | nil => rfl
  | cons d cs ih =>
    have hd : c ≠ d := fun heq => h (heq ▸ List.mem_cons_self)
    have htail := ih fun hmem => h (List.mem_cons_of_mem _ hmem)
    simp [splitFirst?, hd, htail]

theorem splitFirst?_append {c : Char} {sep cs : List Char} (h : c ∉ cs) (rest : List Char) :
    splitFirst? (c :: sep) (cs ++ (c :: sep ++ rest)) = some (cs, rest) := by
  induction cs with
  | nil => simp [splitFirst?]
  | cons d cs ih =>
    have hd : c ≠ d := fun heq => h (heq ▸ List.mem_cons_self)
    have htail := ih fun hmem => h (List.mem_cons_of_mem _ hmem)
    rw [List.cons_append, splitFirst?, htail]
    simp [hd]

theorem splitFirst?_eq_some {sep cs before after : List Char}
    (h : splitFirst? sep cs = some (before, after)) : cs = before ++ (sep ++ after) := by
  induction cs generalizing before with
  | nil => cases h
  | cons d cs ih =>
    rw [splitFirst?] at h
    split at h
    · next hfront =>
      obtain ⟨rest, hrest⟩ := List.isPrefixOf_iff_prefix.mp hfront
      cases h
      rw [← hrest, List.drop_left, List.nil_append]
    · obtain ⟨⟨before', after'⟩, hsplit, heq⟩ := Option.map_eq_some_iff.mp h
      cases heq
      rw [ih hsplit, List.cons_append]

end Text

namespace Name

open Text

theorem isAlphanum_toDigits (n : Nat) : ∀ c ∈ Nat.toDigits 16 n, c.isAlphanum = true := by
  have hdigit : ∀ d < 16, (Nat.digitChar d).isAlphanum = true := by decide
  induction n using Nat.strongRecOn with
  | ind n ih =>
    rw [Nat.toDigits_eq_if (by decide)]
    split
    · next hlt => simpa using hdigit n hlt
    · intro c hc
      rcases List.mem_append.mp hc with hc | hc
      · exact ih (n / 16) (by omega) c hc
      · obtain rfl := List.mem_singleton.mp hc
        exact hdigit _ (Nat.mod_lt _ (by decide))

theorem isIdentifierPart_escapeChar (c : Char) :
    ∀ d ∈ escapeChar c, isIdentifierPart d = true := by
  unfold escapeChar
  split
  · next h => simpa [isIdentifierPart] using h
  · intro d hd
    have hhex : ∀ d ∈ hexNumber c.toNat, isIdentifierPart d = true := by
      intro d hd
      unfold hexNumber at hd
      dsimp only at hd
      have hall := isAlphanum_toDigits c.toNat
      split at hd
      · rcases List.mem_cons.mp hd with rfl | hd
        · rfl
        · simp [isIdentifierPart, hall d hd]
      · simp [isIdentifierPart, hall d hd]
    simp only [List.cons_append, List.mem_cons, List.mem_append, List.not_mem_nil, or_false] at hd
    rcases hd with rfl | rfl | hd | rfl
    · rfl
    · rfl
    · exact hhex d hd
    · rfl

/-- The identifier spelling holds letters, digits and underscores only. -/
theorem isIdentifierPart_sanitize (cs : List Char) :
    ∀ c ∈ sanitize cs, isIdentifierPart c = true := by
  have htoken {token rest : List Char} (ht : token.all isIdentifierPart = true)
      (hr : ∀ c ∈ rest, isIdentifierPart c = true) :
      ∀ c ∈ token ++ rest, isIdentifierPart c = true := by
    intro c hc
    rcases List.mem_append.mp hc with hc | hc
    · exact List.all_eq_true.mp ht c hc
    · exact hr c hc
  fun_induction sanitize cs with
  | case10 c cs _ _ _ _ _ _ _ _ _ ih =>
    exact htoken (List.all_eq_true.mpr (isIdentifierPart_escapeChar c)) ih
  | case11 => simp
  | _ => exact htoken (by decide) (by assumption)

theorem isIdentifierPart_toLower {c : Char} (h : isIdentifierPart c = true) :
    isIdentifierPart c.toLower = true := by
  unfold Char.toLower
  split
  · next hupper =>
    have hlow : 65 ≤ c.val.toNat := UInt32.le_iff_toNat_le.mp hupper.1
    have hhigh : c.val.toNat ≤ 90 := UInt32.le_iff_toNat_le.mp hupper.2
    have hsum : (c.val + ('a'.val - 'A'.val)).toNat = c.val.toNat + 32 := by
      rw [UInt32.toNat_add]
      exact Nat.mod_eq_of_lt (Nat.lt_of_le_of_lt (Nat.add_le_add_right hhigh _) (by decide))
    have hlower : 'a'.val ≤ c.val + ('a'.val - 'A'.val) ∧
        c.val + ('a'.val - 'A'.val) ≤ 'z'.val := by
      rw [UInt32.le_iff_toNat_le, UInt32.le_iff_toNat_le, hsum]
      exact ⟨Nat.add_le_add_right hlow 32, Nat.le_trans (Nat.add_le_add_right hhigh 32) (by decide)⟩
    have hletter (hv) : Char.isLower ⟨c.val + ('a'.val - 'A'.val), hv⟩ = true := by
      unfold Char.isLower
      rw [Bool.and_eq_true]
      exact ⟨decide_eq_true hlower.1, decide_eq_true hlower.2⟩
    have halpha (hv) : Char.isAlpha ⟨c.val + ('a'.val - 'A'.val), hv⟩ = true :=
      Bool.or_eq_true_iff.mpr (.inr (hletter hv))
    simp only [isIdentifierPart, Char.isAlphanum, halpha, Bool.true_or]
  · exact h

end Name

/-- There are segments below the root, and none of them holds a point or a dollar sign. -/
structure QualifiedName.Plain (n : QualifiedName) : Prop where
  nonempty : n.path ≠ []
  points : ∀ s ∈ n.path, '.' ∉ s.toList
  dollars : ∀ s ∈ n.path, '$' ∉ s.toList

namespace QualifiedName

open Name

theorem Plain.of_identifiers {n : QualifiedName} (hne : n.path ≠ [])
    (h : ∀ s ∈ n.path, ∀ c ∈ s.toList, Text.isIdentifierPart c = true) : n.Plain where
  nonempty := hne
  points s hs hmem := absurd (h s hs '.' hmem) (by decide)
  dollars s hs hmem := absurd (h s hs '$' hmem) (by decide)

theorem plain_groupSegments (group : Option (List Char)) :
    ∀ s ∈ groupSegments group, ∀ c ∈ s.toList, Text.isIdentifierPart c = true := by
  have hlevel (cs : List Char) : ∀ c ∈ (levelSegment cs).toList, Text.isIdentifierPart c = true := by
    intro c hc
    rw [levelSegment, String.toList_ofList] at hc
    obtain ⟨d, hd, rfl⟩ := List.mem_map.mp hc
    exact isIdentifierPart_toLower (isIdentifierPart_sanitize _ d hd)
  have hdefault : ∀ s ∈ [defaultGroup], ∀ c ∈ s.toList, Text.isIdentifierPart c = true := by
    intro s hs
    rw [List.mem_singleton.mp hs]
    exact List.all_eq_true.mp (by decide)
  unfold groupSegments
  split
  · exact hdefault
  · exact hdefault
  · intro s hs
    rcases List.mem_cons.mp hs with rfl | hs
    · exact hlevel _
    · obtain ⟨w, -, rfl⟩ := List.mem_map.mp hs
      exact hlevel w

theorem plain_script (name : String) : (script name).Plain := by
  refine .of_identifiers (by simp [script]) fun s hs => ?_
  rcases List.mem_append.mp hs with hs | hs
  · exact plain_groupSegments _ s hs
  · intro c hc
    simp only [List.mem_cons, List.not_mem_nil, or_false] at hs
    rcases hs with rfl | rfl
    · rw [String.toList_ofList] at hc
      obtain ⟨d, hd, rfl⟩ := List.mem_map.mp hc
      exact isIdentifierPart_toLower (isIdentifierPart_sanitize _ d hd)
    · rw [String.toList_ofList] at hc
      exact isIdentifierPart_sanitize _ c hc

theorem plain_record (name : String) : (record name).Plain := by
  refine .of_identifiers (by simp [record]) fun s hs => ?_
  rcases List.mem_append.mp hs with hs | hs
  · exact plain_groupSegments _ s hs
  · intro c hc
    obtain rfl := List.mem_singleton.mp hs
    rw [String.toList_ofList] at hc
    exact isIdentifierPart_sanitize _ c hc

theorem Plain.expression {n : QualifiedName} (h : n.Plain) (d : String) :
    (n.expression d).Plain := ⟨h.nonempty, h.points, h.dollars⟩

/-- No segment holds a character that neither the path nor the root holds. -/
theorem not_mem_segments {n : QualifiedName} {c : Char} (hpath : ∀ s ∈ n.path, c ∉ s.toList)
    (hroot : ∀ r : Root, c ∉ r.text.toList) :
    ∀ v ∈ n.root.text.toList :: n.path.map String.toList, c ∉ v := by
  intro v hv
  rcases List.mem_cons.mp hv with rfl | hv
  · exact hroot n.root
  · obtain ⟨s, hs, rfl⟩ := List.mem_map.mp hv
    exact hpath s hs

theorem Plain.not_mem_point {n : QualifiedName} (h : n.Plain) :
    ∀ v ∈ n.root.text.toList :: n.path.map String.toList, '.' ∉ v :=
  not_mem_segments h.points (by intro r; cases r <;> decide)

theorem Plain.not_mem_dollar {n : QualifiedName} (h : n.Plain) :
    ∀ v ∈ n.root.text.toList :: n.path.map String.toList, '$' ∉ v :=
  not_mem_segments h.dollars (by intro r; cases r <;> decide)

theorem Plain.splitAt_joinSegments {n : QualifiedName} (h : n.Plain) :
    Text.splitAt '.' (joinSegments n.root n.path) =
      (n.root.text.toList, n.path.map String.toList) := Text.splitAt_joinWith h.not_mem_point

/-- The path of a name, cut off from its discriminator. -/
theorem cut_text {n : QualifiedName} (h : n.Plain) :
    Text.splitFirst? discriminatorSeparator n.text.toList =
      n.discriminator.map fun d => (joinSegments n.root n.path, d.toList) := by
  have hdollar : '$' ∉ joinSegments n.root n.path :=
    Text.not_mem_joinWith (by decide) h.not_mem_dollar
  unfold text
  dsimp only
  cases n.discriminator with
  | none =>
    rw [String.toList_ofList]
    exact Text.splitFirst?_of_not_mem hdollar
  | some d =>
    have happend := List.append_assoc (joinSegments n.root n.path) discriminatorSeparator d.toList
    rw [String.toList_ofList]
    exact (congrArg _ happend).trans (Text.splitFirst?_append hdollar d.toList)

theorem isEmpty_toList (s : String) : s.toList.isEmpty = decide (s = "") := by
  by_cases h : s = ""
  · simp [h]
  · have hne : s.toList ≠ [] := fun hnil => h (String.toList_inj.mp hnil)
    simp [h, hne]

/-- A name with plain segments is read back exactly when it is well formed. -/
theorem parse?_text {n : QualifiedName} (h : n.Plain) :
    parse? n.text = if n.isWellFormed then some n else none := by
  have hcut := cut_text h
  obtain ⟨root, path, discriminator⟩ := n
  have hsegments : Text.splitAt '.' (joinSegments root path) =
      (root.text.toList, path.map String.toList) := h.splitAt_joinSegments
  have hroot : Root.ofText? root.text = some root := by
    cases root <;> rfl
  have hempty : (path.map String.toList).any List.isEmpty = !path.all (· ≠ "") := by
    simp [List.any_map, Function.comp_def, isEmpty_toList, List.not_all_eq_any_not]
  have hpath : (path.map String.toList).map String.ofList = path := by
    simp [Function.comp_def]
  obtain ⟨s, rest, hcons⟩ : ∃ s rest, path.map String.toList = s :: rest :=
    List.exists_cons_of_ne_nil (by simpa using h.nonempty)
  have hwell (d : Option String) :
      isWellFormed ⟨root, path, d⟩ = (path.all (· ≠ "") && d.all (· ≠ "")) := rfl
  unfold parse?
  rw [hcut, hwell]
  cases discriminator with
  | none =>
    have htext : (text ⟨root, path, none⟩).toList = joinSegments root path :=
      String.toList_ofList
    simp only [Option.map_none, Option.bind_some, htext, hsegments, hcons]
    rw [← hcons]
    simp only [hempty, hpath, String.ofList_toList, hroot]
    cases path.all (· ≠ "") <;> rfl
  | some d =>
    cases hd : d.toList with
    | nil =>
      obtain rfl : d = "" := String.toList_inj.mp hd
      simp
    | cons c cs =>
      have hne : d ≠ "" := by
        rintro rfl
        cases hd
      have hback : String.ofList (c :: cs) = d := by rw [← hd, String.ofList_toList]
      simp only [Option.map_some, hd, Option.bind_some, hsegments, hcons, hback]
      rw [← hcons]
      simp only [hempty, hpath, String.ofList_toList, hroot]
      cases path.all (· ≠ "") <;> simp [hne]

/-- No other name is read from the text of this one. -/
def Readable (n : QualifiedName) : Prop := ∀ m, parse? n.text = some m → m = n

theorem Plain.readable {n : QualifiedName} (h : n.Plain) : n.Readable := by
  intro m hm
  rw [parse?_text h] at hm
  split at hm
  · exact (Option.some.inj hm).symm
  · cases hm

/-- The expressions of a script named by a person have readable names. -/
theorem readable_script (name d : String) : ((script name).expression d).Readable :=
  ((plain_script name).expression d).readable

theorem readable_record (name : String) : (record name).Readable := (plain_record name).readable

end QualifiedName

end Scriptorium
