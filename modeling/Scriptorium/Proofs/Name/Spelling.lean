import Scriptorium.Proofs.Name.Segments

/-!
# Names and their texts

A name that is made of a name given by a person, with or without a discriminator,
is read back from its text exactly when it is well formed, and no two such names
have one text. Whatever text is read as a name is the text of that name.
-/

namespace Scriptorium

theorem Root.text_inj {r r' : Root} (h : r.text = r'.text) : r = r' := by
  cases r <;> cases r' <;> first | rfl | exact absurd h (by decide)

theorem Root.text_of_ofText? {s : String} {r : Root} (h : Root.ofText? s = some r) :
    r.text = s := by
  unfold Root.ofText? at h
  split at h
  · next hs =>
    cases h
    exact hs.symm
  · split at h
    · next hs =>
      cases h
      exact hs.symm
    · cases h

namespace QualifiedName

/-- The names of scripts and record types that a person names, and of expressions in them. -/
inductive Given : QualifiedName → Prop
  | script (name : String) : Given (script name)
  | record (name : String) : Given (record name)
  | expression {n : QualifiedName} (h : Given n) (d : String) : Given (n.expression d)

theorem Given.plain {n : QualifiedName} (h : n.Given) : n.Plain := by
  induction h with
  | script name => exact plain_script name
  | record name => exact plain_record name
  | expression h d ih => exact ih.expression d

/-- The segments between the points are the only ones. -/
theorem Plain.joinSegments_inj {n m : QualifiedName} (hn : n.Plain) (hm : m.Plain)
    (h : Name.joinSegments n.root n.path = Name.joinSegments m.root m.path) :
    n.root = m.root ∧ n.path = m.path := by
  have hsegments := hn.splitAt_joinSegments
  rw [h, hm.splitAt_joinSegments] at hsegments
  obtain ⟨hroot, hpath⟩ := Prod.mk.inj hsegments
  refine ⟨Root.text_inj (String.toList_inj.mp hroot.symm), ?_⟩
  exact (List.map_inj_right fun _ _ => String.toList_inj.mp).mp hpath.symm

/-- A name with plain segments has a text of its own. -/
theorem Plain.text_inj {n m : QualifiedName} (hn : n.Plain) (hm : m.Plain)
    (h : n.text = m.text) : n = m := by
  have hcut := cut_text hn
  rw [h, cut_text hm] at hcut
  obtain ⟨root, path, discriminator⟩ := n
  obtain ⟨root', path', discriminator'⟩ := m
  rcases discriminator with _ | d <;> rcases discriminator' with _ | d'
  · have hsame : root = root' ∧ path = path' := hn.joinSegments_inj hm (String.ofList_injective h)
    obtain ⟨rfl, rfl⟩ := hsame
    rfl
  · cases hcut
  · cases hcut
  · obtain ⟨hsegments, hd⟩ := Prod.mk.inj (Option.some.inj hcut)
    have hsame : root = root' ∧ path = path' := hn.joinSegments_inj hm hsegments.symm
    obtain ⟨rfl, rfl⟩ := hsame
    obtain rfl : d' = d := String.toList_inj.mp hd
    rfl

/-- What is read as a name is the text of the name. -/
theorem text_of_parse? {t : String} {n : QualifiedName} (h : parse? t = some n) : n.text = t := by
  unfold parse? at h
  obtain ⟨⟨path, discriminator⟩, hcut, h⟩ := Option.bind_eq_some_iff.mp h
  have hpath := Text.joinWith_splitAt '.' path
  dsimp only at h
  split at h
  · cases h
  · next first rest _ hsplit =>
    split at h
    · cases h
    · obtain ⟨root, hroot, rfl⟩ := Option.map_eq_some_iff.mp h
      have hjoin : Name.joinSegments root (rest.map String.ofList) = path := by
        rw [hsplit] at hpath
        rw [Name.joinSegments, Root.text_of_ofText? hroot, String.toList_ofList]
        simpa [Function.comp_def] using hpath
      unfold text
      simp only [hjoin]
      split at hcut
      · cases hcut
        exact String.ofList_toList
      · cases hcut
      · next before after hne hsplit =>
        cases hcut
        dsimp only
        rw [String.toList_ofList, List.append_assoc, ← Text.splitFirst?_eq_some hsplit]
        exact String.ofList_toList

/-- A name made of what a person gives is read back from its text exactly when it is well formed,
and the text is its own. What is read as a name has no other text. -/
theorem text_faithful :
    (∀ n : QualifiedName, n.Given → parse? n.text = if n.isWellFormed then some n else none) ∧
      (∀ n m : QualifiedName, n.Given → m.Given → n.text = m.text → n = m) ∧
      ∀ (t : String) (n : QualifiedName), parse? t = some n → n.text = t :=
  ⟨fun _ hn => parse?_text hn.plain, fun _ _ hn hm => hn.plain.text_inj hm.plain,
    fun _ _ => text_of_parse?⟩

/-- A discriminator with both separators in it is read back, a name with an empty level is not, and
group levels that differ only in case make one name. -/
theorem text_faithful_separators :
    let n := (script "Billing::Monthly Run").expression "$1.$$x"
    n.text = "script.billing.monthly_x20_run.Monthly_x20_Run$$$1.$$x" ∧ parse? n.text = some n ∧
      parse? (record "Billing::::Order").text = none ∧
      (script "Billing::Monthly Run").expression "$1.$$x" =
        (script " BILLING::Monthly Run").expression "$1.$$x" ∧
      (parse? "record.billing.Order$$.").map text = some "record.billing.Order$$." := by
  intro n
  have hgiven : n.Given := .expression (.script _) _
  obtain ⟨hread, hown, hback⟩ := text_faithful
  have hparse : parse? "record.billing.Order$$." =
      some ⟨.record, ["billing", "Order"], some "."⟩ := by rfl
  refine ⟨by decide +kernel, ?_, ?_, ?_, ?_⟩
  · exact (hread n hgiven).trans (if_pos (by decide))
  · exact (hread _ (.record "Billing::::Order")).trans (if_neg (by decide))
  · exact hown n _ hgiven (.expression (.script _) _) (by rfl)
  · rw [hparse, Option.map_some, hback _ _ hparse]

end QualifiedName

end Scriptorium
