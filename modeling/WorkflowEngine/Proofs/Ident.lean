import WorkflowEngine.Ident

/-!
# Identifiers are different

Different numbers give different identifiers.
-/

namespace WorkflowEngine.Ident

private def digit (c : Char) : Nat :=
  if c.toNat < 58 then c.toNat - 48 else c.toNat - 87

private def value (cs : List Char) : Nat := cs.foldl (fun n c => 16 * n + digit c) 0

private theorem digit_digitChar {d : Nat} (h : d < 16) : digit d.digitChar = d := by
  have hall : ∀ d : Fin 16, digit d.val.digitChar = d.val := by decide
  exact hall ⟨d, h⟩

private theorem value_concat (cs : List Char) (c : Char) :
    value (cs ++ [c]) = 16 * value cs + digit c := by
  simp [value]

private theorem value_toDigits (n : Nat) : value (Nat.toDigits 16 n) = n := by
  induction n using Nat.strongRecOn with
  | ind n ih =>
    rw [Nat.toDigits_eq_if (by decide)]
    split
    · rename_i h
      simp [value, digit_digitChar h]
    · rename_i h
      rw [value_concat, ih (n / 16) (by omega), digit_digitChar (Nat.mod_lt n (by decide))]
      omega

private theorem value_padded (k : Nat) (cs : List Char) :
    value (List.replicate k '0' ++ cs) = value cs := by
  induction k with
  | zero => rfl
  | succ k ih => exact ih

theorem ofNat_injective {m n : Nat} (h : ofNat m = ofNat n) : m = n := by
  have hdigits := String.append_right_inj _ |>.1 h
  have hlists := String.ofList_injective hdigits
  rw [← value_toDigits m, ← value_toDigits n, ← value_padded (12 - (Nat.toDigits 16 m).length),
    hlists, value_padded]

end WorkflowEngine.Ident
