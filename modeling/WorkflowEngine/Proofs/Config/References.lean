import Mathlib.Data.List.Basic
import Mathlib.Data.List.Infix
import WorkflowEngine.Config.Path

/-!
# References in a text

A text is cut in exactly one way at its references: what stands before one of them opens none, and
its name ends with the next closing mark. What follows the last reference is plain, up to a mark
that nothing closes. Expanding the text puts the value of each name that is set in the place of its
reference and leaves all else alone, except for such an open mark: what follows it is taken for a
name as well, which is closed if it is not set.
-/

namespace WorkflowEngine.Environment

/-- A reference as it is written. -/
def reference (name : List Char) : List Char := openMark ++ (name ++ ['\x7d'])

/-- What stands for a reference: the value of its name, or the reference if that is not set. -/
def replacement (env : Environment) (name : List Char) : List Char :=
  ((env (String.ofList name)).map String.toList).getD (reference name)

theorem valueOf_eq (env : Environment) (name : List Char) :
    env.valueOf name = env.replacement name := by
  unfold valueOf replacement
  cases env (String.ofList name) with
  | none => simp [reference]
  | some v => rfl

/-- A name that is not set stands for more than what it was read from, unless it was closed. -/
theorem replacement_eq_opened {env : Environment} {name : List Char} :
    env.replacement name = openMark ++ name ↔
      env (String.ofList name) = some (String.ofList (openMark ++ name)) := by
  unfold replacement
  cases hvalue : env (String.ofList name) with
  | none => simp [reference]
  | some v => simp [String.ext_iff]

/-- A text cut at its references. -/
structure Cut where
  /-- What stands before each reference, from the one before it on, and the name. -/
  references : List (List Char × List Char)
  /-- What follows the last reference, up to a mark that is left open. -/
  plain : List Char
  /-- What follows the mark that is left open, if there is one. -/
  opened : Option (List Char)

namespace Cut

/-- The text with other things in the places of its references and of what is left open. -/
def render (t : Cut) (closed opened : List Char → List Char) : List Char :=
  t.references.flatMap (fun p => p.1 ++ closed p.2) ++ (t.plain ++ (t.opened.map opened).getD [])

/-- The text that was cut. -/
def text (t : Cut) : List Char := t.render reference (openMark ++ ·)

/-- The text with values in the places of the references that are set, and nothing else changed. -/
def filled (env : Environment) (t : Cut) : List Char := t.render env.replacement (openMark ++ ·)

/-- Each reference is the leftmost one in what is left of the text, its name ends as soon as it
can, and there is none in what follows the last. -/
structure Sound (t : Cut) : Prop where
  before : ∀ p ∈ t.references, ¬ openMark <:+: p.1
  name : ∀ p ∈ t.references, '\x7d' ∉ p.2
  plain : ¬ openMark <:+: t.plain
  opened : ∀ name ∈ t.opened, '\x7d' ∉ name

variable {references : List (List Char × List Char)} {p : List Char × List Char}
  {plain : List Char} {opened : Option (List Char)} {t t' : Cut}

@[simp] theorem render_nil (closed left : List Char → List Char) :
    (Cut.mk [] plain opened).render closed left = plain ++ (opened.map left).getD [] := rfl

@[simp] theorem render_cons (closed left : List Char → List Char) :
    (Cut.mk (p :: references) plain opened).render closed left =
      p.1 ++ (closed p.2 ++ (Cut.mk references plain opened).render closed left) := by
  simp [render]

theorem Sound.tail (h : (Cut.mk (p :: references) plain opened).Sound) :
    (Cut.mk references plain opened).Sound :=
  ⟨fun q hq => h.before q (List.mem_cons_of_mem p hq), fun q hq => h.name q (List.mem_cons_of_mem p hq),
    h.plain, h.opened⟩

end Cut

/-! ## Scanning -/

section Scanning

variable {env : Environment} {cs name rest : List Char}

theorem expandFrom_cons {c : Char} (h : ¬ openMark <+: c :: cs) :
    expandFrom env none (c :: cs) = c :: expandFrom env none cs := by
  rw [expandFrom]
  rintro rest rfl rfl
  exact h ⟨rest, rfl⟩

/-- Text without a mark is let pass, if what follows it does not complete one. -/
theorem expandFrom_plain (h : ¬ openMark <:+: cs) (hrest : rest.head? ≠ some '\x7b') :
    expandFrom env none (cs ++ rest) = cs ++ expandFrom env none rest := by
  induction cs with
  | nil => rfl
  | cons c cs ih =>
    rw [List.infix_cons_iff, not_or] at h
    have hmark : ¬ openMark <+: c :: (cs ++ rest) := by
      rintro ⟨after, hafter⟩
      obtain ⟨rfl, hnext⟩ : c = '$' ∧ cs ++ rest = '\x7b' :: after := by
        simpa [openMark, eq_comm] using hafter
      cases cs with
      | nil => exact hrest (by simp_all)
      | cons d cs =>
        obtain ⟨rfl, -⟩ := List.cons.inj hnext
        exact h.1 ⟨cs, rfl⟩
    rw [List.cons_append, expandFrom_cons hmark, ih h.2, List.cons_append]

/-- A mark begins a name. -/
theorem expandFrom_openMark (cs : List Char) :
    expandFrom env none (openMark ++ cs) = expandFrom env (some []) cs := rfl

/-- Up to the next closing mark all belongs to the name. -/
theorem expandFrom_name (h : '\x7d' ∉ name) (read rest : List Char) :
    expandFrom env (some read) (name ++ rest) =
      expandFrom env (some (name.reverse ++ read)) rest := by
  induction name generalizing read with
  | nil => rfl
  | cons c name ih =>
    obtain ⟨hc, hname⟩ := not_or.1 (List.mem_cons.not.1 h)
    rw [List.cons_append, expandFrom, if_neg (Ne.symm hc), ih hname, List.reverse_cons,
      List.append_assoc, List.singleton_append]

/-- A name stands for its value, at a closing mark as well as at the end of the text. -/
theorem expandFrom_closed (h : '\x7d' ∉ name) (rest : List Char) :
    expandFrom env none (reference name ++ rest) =
      env.replacement name ++ expandFrom env none rest := by
  rw [reference, List.append_assoc, expandFrom_openMark, List.append_assoc, expandFrom_name h,
    List.append_nil, List.singleton_append, expandFrom, if_pos rfl, List.reverse_reverse, valueOf_eq]

theorem expandFrom_opened (h : '\x7d' ∉ name) :
    expandFrom env none (openMark ++ name) = env.replacement name := by
  have hscan : expandFrom env (some []) name = expandFrom env (some name.reverse) [] := by
    simpa using expandFrom_name h [] []
  rw [expandFrom_openMark, hscan, expandFrom, List.reverse_reverse, valueOf_eq]

/-- Scanning replaces the references, and what follows an open mark as if it were one. -/
theorem expandFrom_text {t : Cut} (h : t.Sound) :
    expandFrom env none t.text = t.render env.replacement env.replacement := by
  obtain ⟨references, plain, opened⟩ := t
  unfold Cut.text
  induction references with
  | nil =>
    rw [Cut.render_nil, Cut.render_nil]
    cases opened with
    | none =>
      have hplain : expandFrom env none (plain ++ []) = plain ++ expandFrom env none [] :=
        expandFrom_plain h.plain nofun
      exact hplain
    | some name =>
      rw [expandFrom_plain h.plain (by simp [openMark])]
      exact congrArg (plain ++ ·) (expandFrom_opened (h.opened name rfl))
  | cons p references ih =>
    have hname := h.name p List.mem_cons_self
    have hbefore := h.before p List.mem_cons_self
    rw [Cut.render_cons, Cut.render_cons, expandFrom_plain hbefore (by simp [reference, openMark]),
      expandFrom_closed hname, ih h.tail]

end Scanning

/-! ## Cutting -/

section Cutting

variable {cs before before' after after' : List Char}

/-- A text with a mark has a first one. -/
theorem exists_first_mark (h : openMark <:+: cs) :
    ∃ before after, cs = before ++ (openMark ++ after) ∧ ¬ openMark <:+: before := by
  induction cs with
  | nil => simp [openMark] at h
  | cons c cs ih =>
    by_cases hmark : openMark <+: c :: cs
    · obtain ⟨after, hafter⟩ := hmark
      exact ⟨[], after, hafter.symm, by simp [openMark]⟩
    · obtain ⟨before, after, rfl, hbefore⟩ := ih ((List.infix_cons_iff.1 h).resolve_left hmark)
      refine ⟨c :: before, after, rfl, fun hinside => ?_⟩
      obtain hfront | hinside := List.infix_cons_iff.1 hinside
      · exact hmark (hfront.trans ⟨openMark ++ after, by simp⟩)
      · exact hbefore hinside

/-- No mark begins within another one. -/
theorem nil_of_mark_append (h : openMark ++ after = before ++ (openMark ++ after'))
    (hbefore : ¬ openMark <:+: before) : before = [] := by
  match before with
  | [] => rfl
  | [c] => simp [openMark] at h
  | c :: d :: before =>
    obtain ⟨rfl, rfl, -⟩ : '$' = c ∧ '\x7b' = d ∧ after = before ++ (openMark ++ after') := by
      simpa [openMark] using h
    exact absurd ⟨[], before, rfl⟩ hbefore

/-- The first mark of a text stands in one place. -/
theorem first_mark_unique (h : before ++ (openMark ++ after) = before' ++ (openMark ++ after'))
    (hbefore : ¬ openMark <:+: before) (hbefore' : ¬ openMark <:+: before') :
    before = before' ∧ after = after' := by
  have hsame : before = before' := by
    -- one of the two begins with the other, and the mark behind it leaves no room for more
    obtain ⟨more, rfl, hmore⟩ | ⟨more, rfl, hmore⟩ := List.append_eq_append_iff.1 h
    · have hnone := nil_of_mark_append hmore fun hinside =>
        hbefore' (hinside.trans (List.suffix_append before more).isInfix)
      rw [hnone, List.append_nil]
    · have hnone := nil_of_mark_append hmore fun hinside =>
        hbefore (hinside.trans (List.suffix_append before' more).isInfix)
      rw [hnone, List.append_nil]
  subst hsame
  exact ⟨rfl, List.append_cancel_left (List.append_cancel_left h)⟩

/-- The first closing mark of a text stands in one place. -/
theorem name_unique {name name' rest rest' : List Char}
    (h : name ++ '\x7d' :: rest = name' ++ '\x7d' :: rest') (hname : '\x7d' ∉ name)
    (hname' : '\x7d' ∉ name') : name = name' ∧ rest = rest' := by
  have hfront {name rest : List Char} (hname : '\x7d' ∉ name) :
      (name ++ '\x7d' :: rest).takeWhile (· != '\x7d') = name := by
    rw [List.takeWhile_append_of_pos fun c hc => bne_iff_ne.2 (ne_of_mem_of_not_mem hc hname)]
    simp
  have hsame : name = name' := calc
    name = (name ++ '\x7d' :: rest).takeWhile (· != '\x7d') := (hfront hname).symm
    _ = (name' ++ '\x7d' :: rest').takeWhile (· != '\x7d') := by rw [h]
    _ = name' := hfront hname'
  subst hsame
  exact ⟨rfl, (List.cons.inj (List.append_cancel_left h)).2⟩

namespace Cut

variable {t t' : Cut}

/-- Every text can be cut. -/
theorem exists_sound (cs : List Char) : ∃ t : Cut, t.Sound ∧ t.text = cs := by
  by_cases hmark : openMark <:+: cs
  · obtain ⟨before, after, hcs, hbefore⟩ := exists_first_mark hmark
    by_cases hclosed : '\x7d' ∈ after
    · obtain ⟨name, rest, hafter, hname⟩ := List.eq_append_cons_of_mem hclosed
      have hshorter : rest.length < cs.length := by
        rw [hcs, hafter]
        simp
        omega
      obtain ⟨⟨references, plain, opened⟩, ht, hrest⟩ := exists_sound rest
      refine ⟨⟨(before, name) :: references, plain, opened⟩, ?_, ?_⟩
      · exact ⟨List.forall_mem_cons.2 ⟨hbefore, ht.before⟩, List.forall_mem_cons.2 ⟨hname, ht.name⟩,
          ht.plain, ht.opened⟩
      · rw [text] at hrest
        rw [text, render_cons, hrest, hcs, hafter]
        simp [reference]
    · refine ⟨⟨[], before, some after⟩, ⟨nofun, nofun, hbefore, ?_⟩, ?_⟩
      · rintro name ⟨⟩
        exact hclosed
      · exact hcs.symm
  · exact ⟨⟨[], cs, none⟩, ⟨nofun, nofun, hmark, nofun⟩, List.append_nil cs⟩
termination_by cs.length

/-- A text without a mark is plain. -/
theorem Sound.eq_plain (h : t.Sound) (hmark : ¬ openMark <:+: t.text) : t = ⟨[], t.text, none⟩ := by
  obtain ⟨references, plain, opened⟩ := t
  cases references with
  | nil =>
    cases opened with
    | none => simp [text]
    | some name => exact absurd ⟨plain, name, by simp [text]⟩ hmark
  | cons p references =>
    exact absurd ⟨p.1, p.2 ++ '\x7d' :: (Cut.mk references plain opened).text,
      by simp [text, reference]⟩ hmark

/-- At the first mark of a text there is either its first reference or the mark that is left open. -/
theorem Sound.cases_mark (h : t.Sound) (htext : t.text = before ++ (openMark ++ after))
    (hbefore : ¬ openMark <:+: before) :
    (t = ⟨[], before, some after⟩ ∧ '\x7d' ∉ after) ∨
      ∃ (name : List Char) (rest : Cut), t = ⟨(before, name) :: rest.references, rest.plain, rest.opened⟩ ∧
        rest.Sound ∧ after = name ++ '\x7d' :: rest.text ∧ '\x7d' ∉ name := by
  obtain ⟨references, plain, opened⟩ := t
  cases references with
  | nil =>
    cases opened with
    | none =>
      have hplain : plain = before ++ (openMark ++ after) := by simpa [text] using htext
      exact absurd ⟨before, after, by simp [hplain]⟩ h.plain
    | some name =>
      obtain ⟨rfl, rfl⟩ := first_mark_unique htext h.plain hbefore
      exact .inl ⟨rfl, h.opened name rfl⟩
  | cons p references =>
    have hfirst : p.1 ++ (openMark ++ (p.2 ++ '\x7d' :: (Cut.mk references plain opened).text)) =
        before ++ (openMark ++ after) := by
      rw [← htext]
      simp [text, reference]
    obtain ⟨rfl, rfl⟩ := first_mark_unique hfirst (h.before p List.mem_cons_self) hbefore
    exact .inr ⟨p.2, ⟨references, plain, opened⟩, rfl, h.tail, rfl, h.name p List.mem_cons_self⟩

/-- A text is cut in one way only. -/
theorem Sound.unique {t t' : Cut} (h : t.Sound) (h' : t'.Sound) (htext : t.text = t'.text) : t = t' := by
  by_cases hmark : openMark <:+: t.text
  · obtain ⟨before, after, hfirst, hbefore⟩ := exists_first_mark hmark
    obtain ⟨rfl, hopen⟩ | ⟨name, rest, rfl, hrest, rfl, hname⟩ := h.cases_mark hfirst hbefore
    · obtain ⟨rfl, -⟩ | ⟨name, rest, -, -, rfl, -⟩ := h'.cases_mark (htext ▸ hfirst) hbefore
      · rfl
      · simp at hopen
    · obtain ⟨-, hopen⟩ | ⟨name', rest', rfl, hrest', hsame, hname'⟩ :=
        h'.cases_mark (htext ▸ hfirst) hbefore
      · simp at hopen
      · obtain ⟨rfl, hafter⟩ := name_unique hsame hname hname'
        rw [Sound.unique hrest hrest' hafter]
  · rw [h.eq_plain hmark, h'.eq_plain (htext ▸ hmark), htext]
termination_by t.references.length

/-- What is filled in and what is scanned differ in what stands for the open mark only. -/
theorem render_eq_filled (env : Environment) (t : Cut) :
    t.render env.replacement env.replacement = t.filled env ↔
      ∀ name ∈ t.opened, env.replacement name = openMark ++ name := by
  unfold filled render
  cases t.opened <;> simp

/-- A text none of whose references is set is filled with itself. -/
theorem filled_eq_text {env : Environment}
    (h : ∀ p ∈ t.references, env (String.ofList p.2) = none) : t.filled env = t.text := by
  have hsame : ∀ p ∈ t.references, p.1 ++ env.replacement p.2 = p.1 ++ reference p.2 :=
    fun p hp => by simp [replacement, h p hp]
  unfold filled text render
  rw [List.flatMap_congr hsame]

end Cut

end Cutting

/-! ## Expanding -/

/-- A text is cut in one way at its references. Expanding it replaces each of them whose name is set
by the value as it is, and what follows an open mark as if it were a reference. So nothing else of
the text changes just when no mark is left open, or when what follows it is set to the very text from
the mark on; and a text without an open mark of whose names none is set is its own expansion. -/
theorem expand_exact (env : Environment) (text : String) :
    ∃ t : Cut, t.Sound ∧ t.text = text.toList ∧
      (∀ t' : Cut, t'.Sound → t'.text = text.toList → t' = t) ∧
      (env.expand text).toList = t.render env.replacement env.replacement ∧
      (env.expand text = String.ofList (t.filled env) ↔ ∀ name ∈ t.opened,
        env (String.ofList name) = some (String.ofList (openMark ++ name))) ∧
      (t.opened = none → (∀ p ∈ t.references, env (String.ofList p.2) = none) →
        env.expand text = text) := by
  obtain ⟨t, ht, htext⟩ := Cut.exists_sound text.toList
  have hscan : expandFrom env none text.toList = t.render env.replacement env.replacement :=
    htext ▸ expandFrom_text ht
  have hexact : env.expand text = String.ofList (t.filled env) ↔ ∀ name ∈ t.opened,
      env (String.ofList name) = some (String.ofList (openMark ++ name)) := by
    simp only [expand, String.ofList_inj, hscan, Cut.render_eq_filled, replacement_eq_opened]
  refine ⟨t, ht, htext, fun t' ht' htext' => ht'.unique ht (htext'.trans htext.symm), ?_, hexact, ?_⟩
  · simp [expand, hscan]
  · intro hopened hunset
    have hnone : ∀ name ∈ t.opened, env (String.ofList name) =
        some (String.ofList (openMark ++ name)) := by simp [hopened]
    rw [hexact.2 hnone, Cut.filled_eq_text hunset, htext, String.ofList_toList]

/-- A text that ends within a reference, cut where that begins. -/
def halfReference : Cut := ⟨[], "from ".toList, some "HOME".toList⟩

/-- A mark that is left open is closed if what follows is not set, and goes if it is. -/
theorem open_mark_expanded :
    halfReference.Sound ∧ halfReference.text = "from $\x7bHOME".toList ∧
      halfReference.filled (fun _ => none) = halfReference.text ∧
      expand (fun _ => none) "from $\x7bHOME" = "from $\x7bHOME\x7d" ∧
      halfReference.filled (fun _ => some "here") = halfReference.text ∧
      expand (fun _ => some "here") "from $\x7bHOME" = "from here" := by
  refine ⟨⟨nofun, nofun, by decide, ?_⟩, by decide, rfl, by decide, rfl, by decide⟩
  rintro name ⟨⟩
  decide

end WorkflowEngine.Environment
