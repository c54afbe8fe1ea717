import SettingsTree.Projection.Keys

/-! # Keys of members

The key of a collection's member is taken apart at its first colon, so type and name are recovered
whenever the type has no colon; the name may have any. Every key belongs to one type: the part
before the first colon, or all of it.
-/

namespace SettingsTree

namespace Text

theorem cutFirst_append {separator : Char} {front : List Char} (h : separator ∉ front)
    (rest : List Char) : cutFirst separator (front ++ separator :: rest) = some (front, rest) := by
  induction front with
  | nil => simp [cutFirst]
  | cons c front ih =>
    rw [List.mem_cons, not_or] at h
    rw [List.cons_append, cutFirst, if_neg (Ne.symm h.1), ih h.2]
    rfl

theorem eq_of_cutFirst {separator : Char} {text front rest : List Char}
    (h : cutFirst separator text = some (front, rest)) :
    text = front ++ separator :: rest ∧ separator ∉ front := by
  induction text generalizing front with
  | nil => simp [cutFirst] at h
  | cons c text ih =>
    rw [cutFirst] at h
    split at h
    · next hc =>
      cases h
      exact ⟨by rw [hc]; rfl, List.not_mem_nil⟩
    · next hc =>
      obtain ⟨parts, hcut, heq⟩ := Option.map_eq_some_iff.1 h
      cases heq
      obtain ⟨htext, hfront⟩ := ih hcut
      exact ⟨by rw [htext, List.cons_append], by simp [hfront, Ne.symm hc]⟩

theorem cutFirst_eq_none_iff {separator : Char} {text : List Char} :
    cutFirst separator text = none ↔ separator ∉ text := by
  induction text with
  | nil => simp [cutFirst]
  | cons c text ih =>
    rw [cutFirst]
    by_cases hc : c = separator
    · simp [hc]
    · simp [hc, ih, Ne.symm hc]

end Text

/-- A name that can stand before a colon: it has none itself. -/
def Plain (name : String) : Prop := ':' ∉ name.toList

instance (name : String) : Decidable (Plain name) :=
  inferInstanceAs (Decidable (':' ∉ name.toList))

theorem toList_memberKey (type name : String) :
    (memberKey type name).toList = type.toList ++ ':' :: name.toList := by
  simp [memberKey, Step.member, Step.render, Step.chars]

theorem splitMemberKey_eq_some_iff {key type name : String} :
    splitMemberKey key = some (type, name) ↔ key = memberKey type name ∧ Plain type := by
  rw [splitMemberKey, Text.cutString, Option.map_eq_some_iff]
  constructor
  · rintro ⟨⟨front, rest⟩, hcut, heq⟩
    cases heq
    obtain ⟨hkey, hplain⟩ := Text.eq_of_cutFirst hcut
    refine ⟨String.toList_injective ?_, by simpa [Plain] using hplain⟩
    rw [hkey, toList_memberKey, String.toList_ofList, String.toList_ofList]
  · rintro ⟨rfl, hplain⟩
    refine ⟨(type.toList, name.toList), ?_, by simp⟩
    rw [toList_memberKey]
    exact Text.cutFirst_append hplain name.toList

theorem splitMemberKey_eq_none_iff {key : String} : splitMemberKey key = none ↔ Plain key := by
  rw [splitMemberKey, Text.cutString, Option.map_eq_none_iff, Text.cutFirst_eq_none_iff, Plain]

theorem memberKey_injective (type : String) : Function.Injective (memberKey type) := by
  intro a b h
  have hlist := congrArg String.toList h
  rw [toList_memberKey, toList_memberKey, List.append_cancel_left_eq] at hlist
  exact String.toList_injective (List.cons.inj hlist).2

namespace Projection

theorem memberOf?_eq_some_iff {type key name : String} :
    memberOf? type key = some name ↔ key = memberKey type name ∧ Plain type := by
  rw [memberOf?, Option.bind_eq_some_iff]
  constructor
  · rintro ⟨⟨front, rest⟩, hsplit, h⟩
    split at h
    · next htype =>
      cases h
      subst htype
      exact splitMemberKey_eq_some_iff.1 hsplit
    · simp at h
  · intro h
    exact ⟨(type, name), splitMemberKey_eq_some_iff.2 h, by simp⟩

@[simp] theorem memberOf?_memberKey {type : String} (plain : Plain type) (name : String) :
    memberOf? type (memberKey type name) = some name := memberOf?_eq_some_iff.2 ⟨rfl, plain⟩

/-- The type to which a remote key belongs. -/
def keyType (key : String) : String := ((splitMemberKey key).map Prod.fst).getD key

theorem keyType_of_plain {key : String} (plain : Plain key) : keyType key = key := by
  rw [keyType, splitMemberKey_eq_none_iff.2 plain]
  rfl

theorem keyType_memberKey {type : String} (plain : Plain type) (name : String) :
    keyType (memberKey type name) = type := by
  rw [keyType, splitMemberKey_eq_some_iff.2 ⟨rfl, plain⟩]
  rfl

theorem keyType_of_memberOf? {type key name : String} (h : memberOf? type key = some name) :
    keyType key = type := by
  obtain ⟨rfl, plain⟩ := memberOf?_eq_some_iff.1 h
  exact keyType_memberKey plain name

end Projection

end SettingsTree
