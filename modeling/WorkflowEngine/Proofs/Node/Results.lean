import WorkflowEngine.Proofs.Node.Order
import WorkflowEngine.Proofs.Node.Visits

/-!
# Results of visits

What the output of a visit owes to the outputs given during it: it halts when one of them halts, it
fails exactly when a step failed, and outside of parallel nodes it is the output of the step that
halted, but for the termination of the outermost loop over that step.
-/

namespace WorkflowEngine

/-- An output without its duration and the loop it ended. -/
def StepOutput.bare (o : StepOutput) : StepOutput :=
  { o with durationMs := none, loopTermination := none }

namespace Node

/-- An output is that of a step, but for the outermost loop over the step: it was interrupted in the
iteration it had come to. -/
structure Carries (nodes : List Node) (t : List Happening) (x : String) (p o : StepOutput) :
    Prop where
  same : o.bare = p.bare
  termination : match outerLoop? nodes x with
    | none => o.loopTermination = p.loopTermination
    | some n => ∃ first rest, n.children = first :: rest ∧
        o.loopTermination = some ⟨.interrupted, t.countP (Happening.enters first.name)⟩

/-- What else is told does not matter as long as no node is entered. -/
theorem Carries.of_countP {nodes : List Node} {t u : List Happening} {x : String}
    {p o : StepOutput} (h : Carries nodes t x p o)
    (hu : ∀ y, u.countP (Happening.enters y) = t.countP (Happening.enters y)) :
    Carries nodes u x p o := by
  obtain ⟨hsame, hterm⟩ := h
  refine ⟨hsame, ?_⟩
  cases hl : outerLoop? nodes x with
  | none => simpa [hl] using hterm
  | some n =>
    rw [hl] at hterm
    obtain ⟨first, rest, hchildren, hk⟩ := hterm
    exact ⟨first, rest, hchildren, by rw [hu, hk]⟩

/-- The outermost loop over the step was interrupted. -/
theorem Carries.interrupted {nodes : List Node} {t : List Happening} {x : String}
    {p o : StepOutput} (h : Carries nodes t x p o) {n first : Node} {rest : List Node}
    (hl : outerLoop? nodes x = some n) (hn : n.children = first :: rest) :
    o.loopTermination = some ⟨.interrupted, t.countP (Happening.enters first.name)⟩ := by
  have hterm := h.termination
  rw [hl] at hterm
  obtain ⟨first', rest', hchildren, hk⟩ := hterm
  rw [hn] at hchildren
  cases hchildren
  exact hk

/-- What an output owes to those given during the history of some nodes. -/
structure Result (nodes : List Node) (t : List Happening) (o : StepOutput) : Prop where
  halts : ∀ x p, .gave x p ∈ t → p.halts → o.halts
  fails : ∀ x p, .gave x p ∈ t → p.success = false → o.success = false
  cause : o.success = false →
    ∃ s p, step s ∈ descendants nodes ∧ .gave s.name p ∈ t ∧ p.success = false
  carries : ∀ s p, step s ∈ descendants nodes → .gave s.name p ∈ t → p.halts →
    ¬ InParallel nodes s.name → Carries nodes t s.name p o

theorem countP_enters_eq_zero {t : List Happening} {x : String}
    (h : ∀ a ∈ t, ∀ y, a.node? = some y → y ≠ x) : t.countP (Happening.enters x) = 0 := by
  refine List.countP_eq_zero.2 fun a ha hx => ?_
  cases a with
  | entered y input => exact h _ ha y rfl (by simpa [Happening.enters] using hx)
  | began base | called y input | gave y o | ended fault run final => cases hx

/-- The first child of the outermost loop over a node lies below it. -/
theorem mem_names_of_outerLoop? {nodes : List Node} {x : String} {n first : Node}
    {rest : List Node} (h : outerLoop? nodes x = some n) (hn : n.children = first :: rest) :
    n ∈ descendants nodes ∧ first.name ∈ names n.children := by
  refine ⟨List.mem_of_find?_eq_some h, ?_⟩
  rw [hn]
  exact mem_names_of_mem (List.mem_cons_self ..) (name_mem_names first)

/-- No loop is over itself. -/
theorem outerLoop?_self {n : Node} (hn : n.name ∉ names n.children) :
    outerLoop? [n] n.name = none := by
  refine List.find?_eq_none.2 fun m hm hl => hn ?_
  have hx := names_of_loopsOver hl
  rw [descendants_singleton] at hm
  rcases List.mem_cons.1 hm with rfl | hm
  · exact hx
  · exact names_trans hm hx

namespace Result

variable {nodes part : List Node} {t u : List Happening} {o : StepOutput}

theorem of_calm (hc : Calm t) (ho : o.halts = false) : Result nodes t o where
  halts := fun x p hp hh => by
    rw [hc x p hp] at hh
    cases hh
  fails := fun x p hp hf => by
    rw [hc.success hp] at hf
    cases hf
  cause := fun hf => by simp [StepOutput.halts, hf] at ho
  carries := fun s p _ hp hh => by
    rw [hc _ p hp] at hh
    cases hh

/-- Without a halting output at its end nothing has halted. -/
theorem calm (h : Result nodes t o) (ho : o.halts = false) : Calm t := fun x p hp => by
  cases hh : p.halts with
  | false => rfl
  | true =>
    rw [h.halts x p hp hh] at ho
    cases ho

/-- The result of a part of some nodes, after a history of others in which nothing halts. -/
theorem within (hw : Within part nodes) (hn : (names nodes).Nodup) (hu : Order part u)
    (h : Result part u o) (hc : Calm t)
    (hd : ∀ a ∈ t, ∀ x, a.node? = some x → x ∉ names part) : Result nodes (t ++ u) o where
  halts := fun x p hp hh => by
    rcases List.mem_append.1 hp with hp | hp
    · rw [hc x p hp] at hh
      cases hh
    · exact h.halts x p hp hh
  fails := fun x p hp hf => by
    rcases List.mem_append.1 hp with hp | hp
    · rw [hc.success hp] at hf
      cases hf
    · exact h.fails x p hp hf
  cause := fun hf => by
    obtain ⟨s, p, hs, hp, hpf⟩ := h.cause hf
    exact ⟨s, p, hw.mem hs, List.mem_append_right _ hp, hpf⟩
  carries := fun s p hs hp hh hpar => by
    rcases List.mem_append.1 hp with hp | hp
    · rw [hc _ p hp] at hh
      cases hh
    · have hx : s.name ∈ names part := hu.node _ hp _ rfl
      obtain ⟨hsame, hterm⟩ := h.carries s p (hw.mem_of_name hn hs hx) hp hh
        fun hin => hpar (hw.inParallel hin)
      refine ⟨hsame, ?_⟩
      rw [hw.outerLoop? hx]
      cases hl : outerLoop? part s.name with
      | none => simpa [hl] using hterm
      | some n =>
        rw [hl] at hterm
        obtain ⟨first, rest, hchildren, hk⟩ := hterm
        obtain ⟨hmem, hfirst⟩ := mem_names_of_outerLoop? hl hchildren
        have hzero : t.countP (Happening.enters first.name) = 0 :=
          countP_enters_eq_zero fun a ha y hy hyx => hd a ha y hy (hyx ▸ names_trans hmem hfirst)
        exact ⟨first, rest, hchildren, by rw [List.countP_append, hzero, Nat.zero_add, hk]⟩

end Result

/-- The history of the work of a node. Only nodes below it are entered and give outputs. -/
structure Below (n : Node) (t : List Happening) : Prop where
  order : Order [n] t
  entered : ∀ x input, .entered x input ∈ t → x ∈ names n.children
  gave : ∀ x o, .gave x o ∈ t → x ∈ names n.children

theorem Below.of_order {n : Node} {t : List Happening} (h : Order n.children t) : Below n t :=
  ⟨h.mono fun _ hm => mem_descendants_children hm, fun x _ hx => h.node _ hx x rfl,
    fun x _ hx => h.node _ hx x rfl⟩

theorem Dates.bare {n : Node} {o o' : StepOutput} (h : n.Dates o o') :
    o'.bare = o.bare ∧ o'.loopTermination = o.loopTermination ∧ o'.success = o.success ∧
      o'.stop = o.stop := by
  obtain ⟨durationMs, rfl⟩ := h.exists_duration
  exact ⟨rfl, rfl, rfl, rfl⟩

/-- A visit of a node with the result of its work. -/
theorem Result.around {n : Node} {input : StepInput} {t : List Happening} {o o' : StepOutput}
    (hn : (names [n]).Nodup) (ht : Below n t) (h : Result [n] t o) (hd : n.Dates o o') :
    Result [n] (.entered n.name input :: (t ++ [.gave n.name o'])) o' := by
  obtain ⟨hbare, hterm, hsuccess, hstop⟩ := hd.bare
  have hhalts : o'.halts = o.halts := by simp [StepOutput.halts, hsuccess, hstop]
  rw [names_singleton] at hn
  have hname := (List.nodup_cons.1 hn).1
  have hmem {x : String} {p : StepOutput}
      (hp : .gave x p ∈ Happening.entered n.name input :: (t ++ [.gave n.name o'])) :
      .gave x p ∈ t ∨ x = n.name ∧ p = o' := by
    rcases List.mem_cons.1 hp with hp | hp
    · cases hp
    · rcases List.mem_append.1 hp with hp | hp
      · exact .inl hp
      · cases List.mem_singleton.1 hp
        exact .inr ⟨rfl, rfl⟩
  constructor
  case halts =>
    intro x p hp hh
    rcases hmem hp with hp | ⟨-, rfl⟩
    · rw [hhalts]
      exact h.halts x p hp hh
    · exact hh
  case fails =>
    intro x p hp hf
    rcases hmem hp with hp | ⟨-, rfl⟩
    · rw [hsuccess]
      exact h.fails x p hp hf
    · exact hf
  case cause =>
    intro hf
    obtain ⟨s, p, hs, hp, hpf⟩ := h.cause (hsuccess ▸ hf)
    exact ⟨s, p, hs, by simp [hp], hpf⟩
  case carries =>
    intro s p hs hp hh hpar
    rcases hmem hp with hp | ⟨hx, rfl⟩
    · obtain ⟨hsame, hk⟩ := h.carries s p hs hp hh hpar
      refine ⟨hbare.trans hsame, ?_⟩
      cases hl : outerLoop? [n] s.name with
      | none =>
        rw [hl] at hk
        exact hterm.trans hk
      | some m =>
        rw [hl] at hk
        obtain ⟨first, rest, hchildren, hk⟩ := hk
        obtain ⟨hm, hfirst⟩ := mem_names_of_outerLoop? hl hchildren
        refine ⟨first, rest, hchildren, hterm.trans (hk.trans ?_)⟩
        have hne : n.name ≠ first.name := by
          rintro heq
          rw [descendants_singleton] at hm
          rcases List.mem_cons.1 hm with rfl | hm
          · exact hname (heq ▸ hfirst)
          · exact hname (heq ▸ names_trans hm hfirst)
        simp [Happening.enters, hne]
    · refine ⟨rfl, ?_⟩
      rw [hx, outerLoop?_self hname]

/-- A step is told of around the calls of its executor. -/
theorem Result.leaf (s : Step) (input : StepInput) (n : Nat) (o : StepOutput) :
    Result [step s] (.entered s.name input ::
      (List.replicate n (.called s.name input) ++ [.gave s.name o])) o := by
  have hmem {x : String} {p : StepOutput} (hp : .gave x p ∈ Happening.entered s.name input ::
      (List.replicate n (.called s.name input) ++ [.gave s.name o])) : p = o := by
    rcases List.mem_cons.1 hp with hp | hp
    · cases hp
    · rcases List.mem_append.1 hp with hp | hp
      · cases List.eq_of_mem_replicate hp
      · cases List.mem_singleton.1 hp
        rfl
  refine ⟨fun x p hp hh => hmem hp ▸ hh, fun x p hp hf => hmem hp ▸ hf, fun hf => ?_,
    fun s' p hs hp _ _ => ?_⟩
  · exact ⟨s, o, by simp [descendants_singleton], by simp, hf⟩
  · obtain rfl := hmem hp
    have hdescendants : descendants [step s] = [step s] := by
      simp [descendants, inside]
    obtain rfl : s' = s := by simpa [hdescendants] using hs
    refine ⟨rfl, ?_⟩
    rw [outerLoop?, hdescendants]
    rfl

/-! ## Sequences -/

/-- How a sequence of nodes stands at the end of its history. -/
structure SequenceResult (nodes : List Node) (t : List Happening) (q : Sequence) : Prop where
  ends : match q with
    | .halted o => Result nodes t o ∧ o.halts = true
    | .completed o _ _ => Calm t ∧ o.halts = false
    | .empty _ => Calm t
  /-- The first node was entered once. -/
  first : ∀ n rest, nodes = n :: rest → t.countP (Happening.enters n.name) = 1

/-! ## Loops -/

/-- The output of a loop after a history of iterations, some of which came before it. -/
inductive Iterated (nodes : List Node) (done : Nat) (t : List Happening) (o : StepOutput) : Prop
  | calm (hc : Calm t) (ho : o.halts = false)
  | interrupted {t₁ t₂ : List Happening} {p : StepOutput} {k : Nat} (ht : t = t₁ ++ t₂)
      (hc : Calm t₁) (hr : Result nodes t₂ p) (hp : p.halts = true)
      (ho : o = { p with loopTermination := some ⟨.interrupted, k⟩ })
      (hk : ∀ n rest, nodes = n :: rest → done + t.countP (Happening.enters n.name) = k)

/-- Iterations after one in which nothing halted. -/
theorem Iterated.next {nodes : List Node} {done : Nat} {t u : List Happening} {o : StepOutput}
    (hc : Calm t) (hfirst : ∀ n rest, nodes = n :: rest →
      t.countP (Happening.enters n.name) = 1) (h : Iterated nodes (done + 1) u o) :
    Iterated nodes done (t ++ u) o := by
  cases h with
  | calm hu ho => exact .calm (hc.append hu) ho
  | @interrupted t₁ t₂ p k ht hc₁ hr hp ho hk =>
    have hsplit : t ++ u = t ++ t₁ ++ t₂ := by rw [ht, List.append_assoc]
    refine .interrupted hsplit (hc.append hc₁) hr hp ho fun n rest hn => ?_
    have hone := hfirst n rest hn
    have hcount := hk n rest hn
    rw [List.countP_append]
    omega

/-- The result of a loop. -/
theorem Iterated.result {name : String} {description : Option String} {maxIterations : Nat}
    {ends : Option (List StepOutput → Except String Bool)} {children : List Node}
    {t : List Happening} {o : StepOutput}
    (hn : (names [loop name description maxIterations ends children]).Nodup)
    (ht : Order children t) (h : Iterated children 0 t o) :
    Result [loop name description maxIterations ends children] t o := by
  cases h with
  | calm hc ho => exact .of_calm hc ho
  | @interrupted t₁ t₂ p k htt hc hr hp ho hk =>
    have hhalts : o.halts = p.halts := by rw [ho]; rfl
    have hsuccess : o.success = p.success := by rw [ho]
    have hlast {x : String} {q : StepOutput} (hq : .gave x q ∈ t) (hh : q.halts) :
        .gave x q ∈ t₂ := by
      rw [htt] at hq
      rcases List.mem_append.1 hq with hq | hq
      · rw [hc x q hq] at hh
        cases hh
      · exact hq
    have hfailed {q : StepOutput} (hf : q.success = false) : q.halts := by
      simp [StepOutput.halts, hf]
    constructor
    case halts =>
      intro x q hq hh
      rw [hhalts]
      exact hp
    case fails =>
      intro x q hq hf
      rw [hsuccess]
      exact hr.fails x q (hlast hq (hfailed hf)) hf
    case cause =>
      intro hf
      obtain ⟨s, q, hs, hq, hqf⟩ := hr.cause (hsuccess ▸ hf)
      exact ⟨s, q, mem_descendants_children hs, by simp [htt, hq], hqf⟩
    case carries =>
      intro s q hs hq hh hpar
      have hx : s.name ∈ names children := ht.node _ hq _ rfl
      have hloop : outerLoop? [loop name description maxIterations ends children] s.name =
          some (loop name description maxIterations ends children) := by
        simp [outerLoop?, descendants_singleton, loopsOver, hx]
      have hmem : step s ∈ descendants children := by
        rw [descendants_singleton] at hs
        simpa [Node.children] using hs
      have hinner : ¬ InParallel children s.name := by
        rintro ⟨name, description, inner, hp, hx⟩
        exact hpar ⟨name, description, inner, mem_descendants_children hp, hx⟩
      have hsame := (hr.carries s q hmem (hlast hq hh) hh hinner).same
      refine ⟨by rw [ho]; exact hsame, ?_⟩
      rw [hloop]
      obtain ⟨first, rest, hchildren⟩ : ∃ first rest, children = first :: rest := by
        cases children with
        | nil => simp [names, descendants] at hx
        | cons first rest => exact ⟨first, rest, rfl⟩
      refine ⟨first, rest, hchildren, ?_⟩
      rw [ho, ← hk first rest hchildren, Nat.zero_add]

end Node

end WorkflowEngine
