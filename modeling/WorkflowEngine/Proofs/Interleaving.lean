/-!
# Interleavings

A list whose entries come from others, each in its own order.
-/

namespace WorkflowEngine

variable {ε : Type}

/-- The third list interleaves the first two. -/
inductive Interleave : List ε → List ε → List ε → Prop
  | nil : Interleave [] [] []
  | left {a : ε} {l r t : List ε} (h : Interleave l r t) : Interleave (a :: l) r (a :: t)
  | right {a : ε} {l r t : List ε} (h : Interleave l r t) : Interleave l (a :: r) (a :: t)

namespace Interleave

theorem nil_left (r : List ε) : Interleave [] r r := by
  induction r with
  | nil => exact .nil
  | cons a r ih => exact .right ih

theorem nil_right (l : List ε) : Interleave l [] l := by
  induction l with
  | nil => exact .nil
  | cons a l ih => exact .left ih

theorem prepend_left {l r t : List ε} (m : List ε) (h : Interleave l r t) :
    Interleave (m ++ l) r (m ++ t) := by
  induction m with
  | nil => exact h
  | cons a m ih => exact .left ih

theorem prepend_right {l r t : List ε} (m : List ε) (h : Interleave l r t) :
    Interleave l (m ++ r) (m ++ t) := by
  induction m with
  | nil => exact h
  | cons a m ih => exact .right ih

theorem append (l r : List ε) : Interleave l r (l ++ r) := by
  simpa using (nil_left r).prepend_left l

theorem mem_iff {l r t : List ε} (h : Interleave l r t) {a : ε} : a ∈ t ↔ a ∈ l ∨ a ∈ r := by
  induction h with
  | nil => simp
  | left _ ih => simp only [List.mem_cons, ih, or_assoc]
  | right _ ih => simp only [List.mem_cons, ih, or_left_comm]

/-- A relation that holds forward within both lists, and between them either way, holds forward. -/
theorem pairwise {R : ε → ε → Prop} {l r t : List ε} (h : Interleave l r t) (hl : l.Pairwise R)
    (hr : r.Pairwise R) (hlr : ∀ a ∈ l, ∀ b ∈ r, R a b ∧ R b a) : t.Pairwise R := by
  induction h with
  | nil => exact .nil
  | left h ih =>
    obtain ⟨ha, hl⟩ := List.pairwise_cons.1 hl
    refine List.pairwise_cons.2 ⟨fun b hb => ?_, ih hl hr fun b hb => hlr b (by simp [hb])⟩
    rcases h.mem_iff.1 hb with hb | hb
    · exact ha b hb
    · exact (hlr _ (by simp) b hb).1
  | right h ih =>
    obtain ⟨ha, hr⟩ := List.pairwise_cons.1 hr
    have hrest := ih hl hr fun b hb c hc => hlr b hb c (by simp [hc])
    refine List.pairwise_cons.2 ⟨fun b hb => ?_, hrest⟩
    rcases h.mem_iff.1 hb with hb | hb
    · exact (hlr b hb _ (by simp)).2
    · exact ha b hb

theorem filterMap {δ : Type} (f : ε → Option δ) {l r t : List ε} (h : Interleave l r t) :
    Interleave (l.filterMap f) (r.filterMap f) (t.filterMap f) := by
  induction h with
  | nil => exact .nil
  | @left a l r t _ ih =>
    cases ha : f a with
    | none => simpa [ha] using ih
    | some b => simpa [ha] using ih.left
  | @right a l r t _ ih =>
    cases ha : f a with
    | none => simpa [ha] using ih
    | some b => simpa [ha] using ih.right

theorem symm {l r t : List ε} (h : Interleave l r t) : Interleave r l t := by
  induction h with
  | nil => exact .nil
  | left _ ih => exact ih.right
  | right _ ih => exact ih.left

/-- Two interleaved lists are told apart again by what holds of the first and of the second not. -/
theorem filter {p : ε → Bool} {l r t : List ε} (h : Interleave l r t) (hl : ∀ a ∈ l, p a)
    (hr : ∀ a ∈ r, p a = false) : t.filter p = l ∧ t.filter (fun a => !p a) = r := by
  induction h with
  | nil => exact ⟨rfl, rfl⟩
  | left h ih =>
    obtain ⟨hfl, hfr⟩ := ih (fun a ha => hl a (by simp [ha])) hr
    simp [hl, hfl, hfr]
  | right h ih =>
    obtain ⟨hfl, hfr⟩ := ih hl fun a ha => hr a (by simp [ha])
    simp [hr, hfl, hfr]

theorem perm {l r t : List ε} (h : Interleave l r t) : t.Perm (l ++ r) := by
  induction h with
  | nil => exact .nil
  | left _ ih => exact ih.cons _
  | right _ ih => exact (ih.cons _).trans List.perm_middle.symm

end Interleave

end WorkflowEngine
