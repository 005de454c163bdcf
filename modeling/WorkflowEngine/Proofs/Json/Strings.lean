import WorkflowEngine.Json.Printer
import WorkflowEngine.Json.Reader

/-!
# Strings read back

Every text is read back from its quoted form, whatever follows it.
-/

namespace WorkflowEngine.Json

theorem hexValue?_digitChar : ∀ d < 16, hexValue? (Nat.digitChar d) = some d := by decide

/-- Four hexadecimal digits stand for their number. -/
theorem unit?_hexDigits {n : Nat} (h : n < 65536) (rest : List Char) :
    unit? (hexDigits 4 n ++ rest) = some (n, rest) := by
  have hdigit (m : Nat) : hexValue? (Nat.digitChar (m % 16)) = some (m % 16) :=
    hexValue?_digitChar _ (Nat.mod_lt _ (by omega))
  have hsum : n / 16 / 16 / 16 % 16 * 4096 + n / 16 / 16 % 16 * 256 + n / 16 % 16 * 16 + n % 16 =
      n := by omega
  simp [hexDigits, unit?, hdigit, hsum]

/-- A control character is read back from its code. -/
theorem escaped?_code {c : Char} (h : c.toNat < 32) (rest : List Char) :
    escaped? false ('u' :: (hexDigits 4 c.toNat ++ rest)) = some (c, rest) := by
  have hlow : ¬ 0xd800 ≤ c.toNat := by omega
  have htail : ¬ 0xdc00 ≤ c.toNat := by omega
  simp [escaped?, unit?_hexDigits (Nat.lt_trans h (by omega)), hlow, htail]

/-- A character is read back from its escape in one step. -/
theorem stringBody?_escape (c : Char) (fuel : Nat) (read rest : List Char) :
    stringBody? false (fuel + 1) read (escape c ++ rest) =
      stringBody? false fuel (c :: read) rest := by
  have hescaped (cs : List Char) (h : escaped? false (cs ++ rest) = some (c, rest)) :
      stringBody? false (fuel + 1) read ('\\' :: (cs ++ rest)) =
        stringBody? false fuel (c :: read) rest := by
    simp [stringBody?, h]
  unfold escape
  split
  · exact hescaped ['"'] rfl
  · exact hescaped ['\\'] rfl
  · exact hescaped ['n'] rfl
  · exact hescaped ['r'] rfl
  · exact hescaped ['t'] rfl
  · rename_i hquote hslash _ _ _
    have hcode {n : Nat} (h : c.toNat = n) : c = Char.ofNat n := by rw [← h, Char.ofNat_toNat]
    split
    · rename_i h
      rw [hcode h]
      rw [hcode h] at hescaped
      exact hescaped ['b'] rfl
    · split
      · rename_i h
        rw [hcode h]
        rw [hcode h] at hescaped
        exact hescaped ['f'] rfl
      · split
        · rename_i h
          exact hescaped ('u' :: hexDigits 4 c.toNat) (escaped?_code h rest)
        · rename_i h
          have hplain : c ≠ '"' ∧ c ≠ '\\' := ⟨hquote, hslash⟩
          simp [stringBody?, hplain, h]

theorem stringBody?_flatMap {cs : List Char} {fuel : Nat} (h : cs.length < fuel)
    (read rest : List Char) : stringBody? false fuel read (cs.flatMap escape ++ '"' :: rest) =
      some (String.ofList (read.reverse ++ cs), rest) := by
  induction cs generalizing fuel read with
  | nil =>
    obtain ⟨fuel, rfl⟩ : ∃ k, fuel = k + 1 := ⟨fuel - 1, by simp at h; omega⟩
    simp [stringBody?]
  | cons c cs ih =>
    obtain ⟨fuel, rfl⟩ : ∃ k, fuel = k + 1 := ⟨fuel - 1, by simp at h; omega⟩
    rw [List.flatMap_cons, List.append_assoc, stringBody?_escape, ih (by simpa using h)]
    simp

theorem escape_ne_nil (c : Char) : escape c ≠ [] := by
  unfold escape
  repeat' split
  all_goals exact List.cons_ne_nil _ _

theorem length_le_flatMap (cs : List Char) : cs.length ≤ (cs.flatMap escape).length := by
  induction cs with
  | nil => simp
  | cons c cs ih =>
    have hpos := List.length_pos_iff.2 (escape_ne_nil c)
    simp only [List.flatMap_cons, List.length_append, List.length_cons]
    omega

theorem toList_quote (s : String) :
    (quote s).toList = '"' :: (s.toList.flatMap escape ++ ['"']) := by
  simp [quote]

/-- After its opening quote, a text is read back. -/
theorem string?_escaped (s : String) (rest : List Char) :
    string? false (s.toList.flatMap escape ++ '"' :: rest) = some (s, rest) := by
  have hlength := length_le_flatMap s.toList
  have hfuel : s.toList.length < (s.toList.flatMap escape ++ '"' :: rest).length + 1 := by
    rw [List.length_append]
    omega
  rw [string?, stringBody?_flatMap hfuel, List.reverse_nil, List.nil_append, String.ofList_toList]

end WorkflowEngine.Json
