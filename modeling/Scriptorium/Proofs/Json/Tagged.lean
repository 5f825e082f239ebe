import Scriptorium.Json.Tagged
import Scriptorium.Proofs.Json.Reading

/-!
# Structures and alternatives are found again

The fields of a structure whose names are all different are found again in their
order, and an alternative is found again by its name. Every look into a
container takes one off the depth that is left.
-/

namespace Scriptorium.Json

theorem text?_ofText (s : String) : text? (ofText s) = some s := by
  simp [text?, ofText, unescape?_escape]

theorem alternative?_tag (depth : Nat) (name : String) :
    alternative? depth (tag name) = some (.name name) := by
  cases depth <;> simp [alternative?, tag, ofText, unescape?_escape]

theorem alternative?_tagged (depth : Nat) (name : String) (content : Json) :
    alternative? (depth + 1) (tagged name content) = some (.content name content depth) := by
  simp [alternative?, tagged, ofMembers, unescape?_escape]

theorem alternative?_zero (name : String) (content : Json) :
    alternative? 0 (tagged name content) = none := by
  simp [alternative?, tagged, ofMembers]

theorem oneOf?_tag {α : Type} (table : List (String × α)) (depth : Nat) (name : String) :
    oneOf? table depth (tag name) = table.lookup name := by
  simp [oneOf?, alternative?_tag, Alternative.tag?]

/-- A value is put in the place of its name, behind those of the names before it. -/
theorem place_append {before : List String} {name : String} (h : name ∉ before) (j : Json)
    {filled : List (Option Json)} (hlength : filled.length = before.length) (after : List String)
    (rest : List (Option Json)) :
    place (before ++ name :: after) name j (filled ++ none :: rest) =
      some (filled ++ some j :: rest) := by
  induction before generalizing filled with
  | nil =>
    obtain rfl := List.eq_nil_of_length_eq_zero hlength
    simp [place]
  | cons n before ih =>
    obtain ⟨slot, filled, rfl⟩ := List.exists_cons_of_length_eq_add_one hlength
    have hn : n ≠ name := fun heq => h (heq ▸ List.mem_cons_self)
    have hnot : name ∉ before := fun hmem => h (List.mem_cons_of_mem _ hmem)
    have := ih hnot (by simpa using hlength)
    simp [place, hn, this]

/-- Members in the order of their names fill the places behind those that are filled. -/
theorem collect_zip (before after : List String) (filled : List (Option Json)) (js : List Json)
    (h : (before ++ after).Nodup) (hjs : js.length = after.length)
    (hlength : filled.length = before.length) :
    collect (before ++ after) ((after.zip js).map fun m => (escape m.1.toList, m.2))
      (filled ++ after.map fun _ => none) = some (filled ++ js.map some) := by
  induction after generalizing before js filled with
  | nil =>
    obtain rfl := List.eq_nil_of_length_eq_zero hjs
    rfl
  | cons name after ih =>
    obtain ⟨j, js, rfl⟩ := List.exists_cons_of_length_eq_add_one hjs
    have hnot : name ∉ before := fun hmem =>
      (List.nodup_append.mp h).2.2 name hmem name List.mem_cons_self rfl
    have hplace := place_append hnot j hlength after (after.map fun _ => none)
    have hnext := ih (before ++ [name]) (filled ++ [some j]) js (by simpa using h)
      (by simpa using hjs) (by simpa using hlength)
    simp only [List.append_assoc, List.cons_append, List.nil_append] at hnext
    simp only [List.zip_cons_cons, List.map_cons, collect, unescape?_escape,
      Option.bind_eq_bind, Option.bind_some, String.ofList_toList, hplace, hnext]

/-- The fields of a structure are found in the order of their names. -/
theorem fields?_ofMembers {names : List String} (js : List Json) (h : names.Nodup)
    (hjs : js.length = names.length) (depth : Nat) :
    fields? names (depth + 1) (ofMembers (names.zip js)) = some (js.map some, depth) := by
  have := collect_zip [] names [] js h hjs rfl
  rw [List.nil_append, List.nil_append] at this
  rw [ofMembers, fields?, this]
  rfl

section Fields

variable {a b c d : String} (j k l m : Json) (depth : Nat)

theorem fields?_two (h : [a, b].Nodup) :
    fields? [a, b] (depth + 1) (ofMembers [(a, j), (b, k)]) = some ([some j, some k], depth) :=
  fields?_ofMembers [j, k] h rfl depth

theorem fields?_three (h : [a, b, c].Nodup) :
    fields? [a, b, c] (depth + 1) (ofMembers [(a, j), (b, k), (c, l)]) =
      some ([some j, some k, some l], depth) :=
  fields?_ofMembers [j, k, l] h rfl depth

theorem fields?_four (h : [a, b, c, d].Nodup) :
    fields? [a, b, c, d] (depth + 1) (ofMembers [(a, j), (b, k), (c, l), (d, m)]) =
      some ([some j, some k, some l, some m], depth) :=
  fields?_ofMembers [j, k, l, m] h rfl depth

end Fields

theorem fields?_zero (names : List String) (j : Json) : fields? names 0 j = none := by
  cases j <;> rfl

theorem items?_array {depth inner : Nat} {js items : List Json}
    (h : items? depth (.array js) = some (items, inner)) : items = js ∧ depth = inner + 1 := by
  cases depth with
  | zero => cases h
  | succ depth =>
    cases h
    exact ⟨rfl, rfl⟩

theorem depthItems_le {js : List Json} {depth : Nat} :
    depthItems js ≤ depth ↔ ∀ j ∈ js, j.depth ≤ depth := by
  induction js with
  | nil => simp [depthItems]
  | cons j js ih => rw [depthItems, Nat.max_le, ih, List.forall_mem_cons]

theorem depthMembers_le {ms : List (List Char × Json)} {depth : Nat} :
    depthMembers ms ≤ depth ↔ ∀ m ∈ ms, m.2.depth ≤ depth := by
  induction ms with
  | nil => simp [depthMembers]
  | cons m ms ih => rw [depthMembers, Nat.max_le, ih, List.forall_mem_cons]

/-- A depth that admits a container admits one level less for what is inside. -/
theorem succ_le_depth {n depth : Nat} :
    n + 1 ≤ depth ↔ ∃ inner, depth = inner + 1 ∧ n ≤ inner := by
  constructor
  · intro h
    exact ⟨depth - 1, by omega, by omega⟩
  · rintro ⟨inner, rfl, h⟩
    omega

theorem depth_array_le {js : List Json} {depth : Nat} :
    (Json.array js).depth ≤ depth ↔ ∃ inner, depth = inner + 1 ∧ ∀ j ∈ js, j.depth ≤ inner := by
  rw [Json.depth, succ_le_depth]
  simp only [depthItems_le]

theorem depth_object_le {ms : List (List Char × Json)} {depth : Nat} :
    (Json.object ms).depth ≤ depth ↔
      ∃ inner, depth = inner + 1 ∧ ∀ m ∈ ms, m.2.depth ≤ inner := by
  rw [Json.depth, succ_le_depth]
  simp only [depthMembers_le]

theorem depth_ofMembers_le {ms : List (String × Json)} {depth : Nat} :
    (ofMembers ms).depth ≤ depth ↔ ∃ inner, depth = inner + 1 ∧ ∀ m ∈ ms, m.2.depth ≤ inner := by
  rw [ofMembers, depth_object_le]
  simp only [List.forall_mem_map]

theorem depth_tagged_le {name : String} {content : Json} {depth : Nat} :
    (tagged name content).depth ≤ depth ↔ ∃ inner, depth = inner + 1 ∧ content.depth ≤ inner := by
  rw [tagged, depth_ofMembers_le]
  simp only [List.mem_singleton, forall_eq]

theorem spelled_ofText (s : String) : (ofText s).Spelled := endsAtQuote_escape _

theorem spelled_ofMembers {members : List (String × Json)} (h : ∀ m ∈ members, m.2.Spelled) :
    (ofMembers members).Spelled := by
  refine spelledMembers_iff.mpr fun m hm => ?_
  obtain ⟨member, hmember, rfl⟩ := List.mem_map.mp hm
  exact ⟨endsAtQuote_escape _, h member hmember⟩

theorem spelled_tagged {name : String} {content : Json} (h : content.Spelled) :
    (tagged name content).Spelled :=
  spelled_ofMembers (by simpa using h)

end Scriptorium.Json
