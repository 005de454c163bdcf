import WorkflowEngine.Proofs.Wire.Steps

/-!
# Two readings of content

A value is taken for content by its kind, or a reader tries one form of content after the other. No
value has two forms, so it does not matter in which order they are tried, and both ways agree on
every value that is not a truth value: taken by its kind such a value is a text, and it has no form.
-/

namespace WorkflowEngine.Content

open Wire

variable {v : Json} {c : Content}

/-- Whichever form a value has, it is that of its kind. -/
theorem ofJson_of_form {form : Json → Option Content} (hform : form ∈ forms)
    (h : form v = some c) : ofJson v = some c := by
  simp only [forms, List.mem_cons, List.not_mem_nil, or_false] at hform
  rcases hform with rfl | rfl | rfl | rfl <;>
    obtain ⟨payload, hpayload, rfl⟩ := Option.map_eq_some_iff.1 h <;>
    cases v <;> cases hpayload <;> rfl

/-- Every value with content has a form, unless it is a truth value. -/
theorem exists_form (hv : v.bool? = none) (h : ofJson v = some c) :
    ∃ form ∈ forms, form v = some c := by
  cases v with
  | null => cases h
  | bool b => cases hv
  | str s => exact ⟨_, .head _, h⟩
  | int n => exact ⟨_, .tail _ (.head _), h⟩
  | float x => exact ⟨_, .tail _ (.head _), h⟩
  | obj members => exact ⟨_, .tail _ (.tail _ (.head _)), h⟩
  | arr items => exact ⟨_, .tail _ (.tail _ (.tail _ (.head _))), h⟩

/-- In whatever order the forms are tried, the first that a value has is that of its kind. -/
theorem findSome?_forms {order : List (Json → Option Content)} (horder : order.Perm forms)
    (hv : v.bool? = none) : order.findSome? (· v) = ofJson v := by
  cases hfound : order.findSome? (· v) with
  | some c =>
    obtain ⟨form, hform, hread⟩ := List.exists_of_findSome?_eq_some hfound
    exact (ofJson_of_form (horder.mem_iff.1 hform) hread).symm
  | none =>
    cases hkind : ofJson v with
    | none => rfl
    | some c =>
      obtain ⟨form, hform, hread⟩ := exists_form hv hkind
      have hnone := List.findSome?_eq_none_iff.1 hfound form (horder.mem_iff.2 hform)
      rw [hread] at hnone
      cases hnone

/-- Only null has no content. -/
theorem ofJson_ne_none (hv : v ≠ .null) : ∃ c, ofJson v = some c := by
  cases v with
  | null => exact absurd rfl hv
  | _ => exact ⟨_, rfl⟩

/-- A value is read as content or null unless it is a truth value, and then as the content of its
kind, which null has none of. -/
theorem decodeOption?_eq (v : Json) :
    decodeOption? v = if v.bool?.isSome then none else some (ofJson v) := by
  by_cases hnull : v = .null
  · subst hnull
    rfl
  rw [decodeOption?, nullable?_of_ne hnull]
  cases hbool : v.bool? with
  | some b =>
    obtain rfl : v = .bool b := by cases v <;> cases hbool <;> rfl
    rfl
  | none =>
    obtain ⟨c, hc⟩ := ofJson_ne_none hnull
    rw [decode?, findSome?_forms (.refl forms) hbool, hc]
    rfl

/-- The two ways from a value to content agree unless it is a truth value, which is not read: where
it stands by itself as well as in a field of a record, and whatever the order of the forms. Content
that can be written is written in a document as the value it stands for, and both ways give it
back. -/
theorem readings_agree (v : Json) (c : Content) :
    decodeOption? v = (if v.bool?.isSome then none else some (ofJson v)) ∧
      (∀ ms key, ms.lookup key = some v →
        optional? ms key decode? = if v.bool?.isSome then none else some (ofJson v)) ∧
      (∀ order : List (Json → Option Content), order.Perm forms → v.bool? = none →
        order.findSome? (· v) = ofJson v) ∧
      (c.Legible → encodeOption (some c) = c.toJson ∧ ofJson c.toJson = some c ∧
        decodeOption? c.toJson = some (some c)) := by
  refine ⟨decodeOption?_eq v, fun ms key hfield => ?_, fun order horder hv =>
    findSome?_forms horder hv, fun hc => ?_⟩
  · rw [optional?, defaulted?_eq, hfield]
    exact decodeOption?_eq v
  · have hread : decodeOption? c.toJson = some (some c) :=
      undoes_option.reads (some c) (by rintro _ ⟨⟩; exact hc)
    have hkind := decodeOption?_eq c.toJson
    rw [hread] at hkind
    split at hkind
    · cases hkind
    · exact ⟨rfl, (Option.some.inj hkind).symm, hread⟩

theorem readings_agree_half : (number ⟨0x3fe0000000000000⟩).Legible ∧
    decodeOption? (.float ⟨0x3fe0000000000000⟩) = some (some (number ⟨0x3fe0000000000000⟩)) := by
  have hfinite : (number ⟨0x3fe0000000000000⟩).Legible :=
    (by decide : Binary64.isFinite ⟨0x3fe0000000000000⟩ = true)
  exact ⟨hfinite, ((readings_agree .null _).2.2.2 hfinite).2.2⟩

/-- Taken by its kind a truth value is its word; where content may stand it is refused, and with it
the input whose message it is. -/
theorem truth_value_refused : ofJson (.bool true) = some (.text "true") ∧
    decodeOption? (.bool true) = none ∧
    ExecutionInput.decode? (.obj [("message", .bool true)]) = none :=
  ⟨rfl, rfl, rfl⟩

end WorkflowEngine.Content
