import WorkflowEngine.Proofs.Event.Arrangement
import WorkflowEngine.Proofs.Event.Ways
import WorkflowEngine.Proofs.Node.Tales

/-!
# Regrouped tales

The tales of parallel children are interleaved; arranged, the events of a log stand as if the children
had told theirs one after another. Main statement: for every tale there is one in which the children
stand in the order of declaration, of the same tellings, whose events are those of the first one,
arranged. This is so for the events of the bus as for those of the feed; and these differ by contents
of steps with a time limit only.
-/

namespace WorkflowEngine

open Node Arrangement TaskAccount Tale

open Telling

/-- Whether a step of some nodes has a time limit. -/
def Node.Limited (defaults : StepSection) (nodes : List Node) (x : String) : Prop :=
  ∃ s, .step s ∈ descendants nodes ∧ s.name = x ∧ (s.timeoutMs.or defaults.timeoutMs).isSome

theorem Node.Limited.mono {defaults : StepSection} {part whole : List Node}
    (h : ∀ m ∈ descendants part, m ∈ descendants whole) {x : String} :
    Limited defaults part x → Limited defaults whole x :=
  fun ⟨s, hs, hl⟩ => ⟨s, h _ hs, hl⟩

/-- A tale of some nodes and the one that it comes to when it is arranged in the log of a whole. -/
structure Regroups (defaults : StepSection) (whole own : List Node) {α : Type}
    (r : Option (Except Fault α)) (u t : List Telling) : Prop where
  perm : u.Perm t
  inner : ∀ a ∈ u, ∀ event, a.event? = some event →
    belongsTo (names own) event ∧ event.kind.isTerminal = false
  arranged : ∀ w : Way, arrange whole (w.events u) = w.events t
  /-- After a task that gave a value the log may go on. -/
  goesOn : ∀ a, r = some (.ok a) → ∀ (w : Way) (rest : List WorkflowEvent),
    arrange whole (w.events u ++ rest) = w.events t ++ arrange whole rest
  faithful : r.isSome → Faithful (Limited defaults own) t

variable {defaults : StepSection} {whole own : List Node} {α β : Type}

namespace Regroups

variable {r : Option (Except Fault α)} {u t : List Telling}

/-- A part of a log in which nothing runs in parallel. -/
theorem plain (h : ∀ a ∈ t, ∀ event, a.event? = some event →
      belongsTo (names own) event ∧ event.kind.isTerminal = false ∧
        ∀ name children, event.kind ≠ .parallelStarted name children)
    (hf : r.isSome → Faithful (Limited defaults own) t) :
    Regroups defaults whole own r t t := by
  have happend (w : Way) (rest : List WorkflowEvent) :
      arrange whole (w.events t ++ rest) = w.events t ++ arrange whole rest :=
    arrange_append fun e he => by
      obtain ⟨a, ha, hae⟩ := Way.mem_events he
      exact (h a ha e hae).2.2
  exact
    { perm := .refl _
      inner := fun a ha e he => ⟨(h a ha e he).1, (h a ha e he).2.1⟩
      arranged := fun w => by simpa using happend w []
      goesOn := fun _ _ => happend
      faithful := hf }

theorem nil : Regroups defaults whole own r [] [] := plain (by simp) fun _ => .nil

/-- The same tale with another result. -/
theorem recast {r' : Option (Except Fault β)} (h : Regroups defaults whole own r u t)
    (hok : ∀ b, r' = some (.ok b) → ∃ a, r = some (.ok a)) (hs : r'.isSome → r.isSome) :
    Regroups defaults whole own r' u t :=
  { h with
    goesOn := fun b hb => (hok b hb).elim h.goesOn
    faithful := fun hr => h.faithful (hs hr) }

theorem mono {part : List Node} (h : Regroups defaults whole part r u t)
    (hsub : ∀ m ∈ descendants part, m ∈ descendants own) : Regroups defaults whole own r u t := by
  exact
    { h with
      inner := fun a ha e he => (h.inner a ha e he).imp_left (belongsTo_mono hsub)
      faithful := fun hr => (h.faithful hr).mono fun x => Limited.mono hsub }

/-- A task and then another one. -/
theorem append {a : α} {r' : Option (Except Fault β)} {u' t' : List Telling}
    (h : Regroups defaults whole own (some (.ok a) : Option (Except Fault α)) u t)
    (h' : Regroups defaults whole own r' u' t') :
    Regroups defaults whole own r' (u ++ u') (t ++ t') where
  perm := h.perm.append h'.perm
  inner := fun b hb => (List.mem_append.1 hb).elim (h.inner b) (h'.inner b)
  arranged := fun w => by
    rw [Way.events_append, Way.events_append, h.goesOn a rfl, h'.arranged]
  goesOn := fun b hb w rest => by
    rw [Way.events_append, Way.events_append, List.append_assoc, List.append_assoc,
      h.goesOn a rfl, h'.goesOn b hb]
  faithful := fun hr => (h.faithful rfl).append (h'.faithful hr)

end Regroups

/-- Every tale of the first kind comes to one of the second kind when it is arranged. -/
def Regroup (defaults : StepSection) (whole own : List Node) (A B : Tale α) : Prop :=
  ∀ u r, A u r → ∃ t, B t r ∧ Regroups defaults whole own r u t

namespace Regroup

variable {A A' : Tale α} {B B' : α → Tale β}

theorem bind (h : Regroup defaults whole own A A')
    (hB : ∀ a, Regroup defaults whole own (B a) (B' a)) :
    Regroup defaults whole own (A.bind B) (A'.bind B') := by
  intro u r hu
  cases hu with
  | under hu =>
    obtain ⟨t, ht, hr⟩ := h u none hu
    exact ⟨t, .under ht, hr.recast nofun id⟩
  | fault hu =>
    obtain ⟨t, ht, hr⟩ := h u _ hu
    exact ⟨t, .fault ht, hr.recast nofun id⟩
  | next hu hv =>
    obtain ⟨t, ht, hr⟩ := h _ _ hu
    obtain ⟨t', ht', hr'⟩ := hB _ _ _ hv
    exact ⟨t ++ t', .next ht ht', hr.append hr'⟩

theorem map {g : α → β} (h : Regroup defaults whole own A A') :
    Regroup defaults whole own (A.map g) (A'.map g) := by
  rintro u _ ⟨q, hq, rfl⟩
  obtain ⟨t, ht, hr⟩ := h u q hq
  refine ⟨t, ⟨q, ht, rfl⟩, hr.recast (fun b hb => ?_) (by simp)⟩
  rcases q with _ | _ | a <;> cases hb
  exact ⟨a, rfl⟩

theorem mono {part : List Node} (h : Regroup defaults whole part A A')
    (hsub : ∀ m ∈ descendants part, m ∈ descendants own) : Regroup defaults whole own A A' :=
  fun u r hu => (h u r hu).imp fun _ ⟨ht, hr⟩ => ⟨ht, hr.mono hsub⟩

/-- What the children of a node tell is told inside it. -/
theorem inside {n : Node} (h : Regroup defaults whole n.children A A') :
    Regroup defaults whole [n] A A' :=
  h.mono fun _ => mem_descendants_children

theorem ofResult (q : Except Fault α) :
    Regroup defaults whole own (TaskAccount.ofResult q) (TaskAccount.ofResult q) := by
  rintro u r ⟨rfl, hr⟩
  exact ⟨[], ⟨rfl, hr⟩, .nil⟩

theorem ret (a : α) : Regroup defaults whole own (TaskAccount.ret a) (TaskAccount.ret a) :=
  ofResult _

theorem timed (f : Nat → α) : Regroup defaults whole own (Tale.timed f) (Tale.timed f) := by
  rintro u r ⟨ms⟩
  exact ⟨[], .done ms, .nil⟩

theorem note (h : Happening) : Regroup defaults whole own (Tale.note h) (Tale.note h) := by
  rintro u r (_ | _)
  · exact ⟨[], .idle, .nil⟩
  · exact ⟨_, .noted, .plain (by simp [event?]) fun _ => .noted .nil⟩

/-- An event of a node, but for the start of a parallel one. -/
theorem say {kind : EventKind} {x : String} (hs : kind.stepName? = some x) (hx : x ∈ names own)
    (hk : kind.isTerminal = false)
    (hp : ∀ name children, kind ≠ .parallelStarted name children) :
    Regroup defaults whole own (Tale.say kind) (Tale.say kind) := by
  have hevent {event : WorkflowEvent} (h : event.kind = kind) :
      belongsTo (names own) event ∧ event.kind.isTerminal = false ∧
        ∀ name children, event.kind ≠ .parallelStarted name children := by
    rw [h]
    exact ⟨belongsTo_iff.2 ⟨x, h ▸ hs, hx⟩, hk, hp⟩
  intro u r hu
  refine ⟨u, hu, ?_⟩
  cases hu with
  | idle => exact .nil
  | published h => exact .plain (by simpa [event?] using hevent h) nofun
  | delivered h => exact .plain (by simpa [event?] using hevent h) fun _ => .delivered .nil

end Regroup

/-! ## Steps -/

namespace Step

variable {s : Step}

/-- What a step passes on are contents of its own. -/
theorem deltas_of_passing {t : List Telling} {r : Option (Except Fault α)} (h : s.passing t r) :
    ∀ a ∈ t, ∀ event, a.event? = some event → ∃ delta, event.kind = .stepContentDelta s.name delta := by
  induction h with
  | idle => simp
  | published h => simpa [event?] using ⟨_, h⟩
  | delivered h _ ih => simpa [event?] using ⟨⟨_, h⟩, ih⟩

theorem faithful_of_passing {t : List Telling} {r : Option (Except Fault α)}
    (h : s.passing t r) : Faithful (· = s.name) t := by
  induction h with
  | idle => exact .nil
  | published h => exact .lost rfl h .nil
  | delivered _ _ ih => exact .delivered ih

/-- What a step passed on up to its end is delivered. -/
theorem faithful_of_passed {t : List Telling} {r : Option (Except Fault α)}
    (h : s.passing t r) (hr : r.isSome) : Faithful (fun _ => False) t := by
  induction h with
  | idle => exact .nil
  | published => cases hr
  | delivered _ _ ih => exact .delivered (ih hr)

theorem cases_calling {input : StepInput} {t : List Telling}
    {r : Option (Except Fault StepOutput)} (h : s.calling input t r) :
    t = [] ∧ r = none ∨ ∃ u, t = .noted (.called s.name input) :: u ∧ s.passing u r := by
  cases h with
  | under h =>
    cases h
    exact .inl ⟨rfl, rfl⟩
  | fault h => cases h
  | next h hp =>
    cases h
    exact .inr ⟨_, rfl, hp⟩

/-- What one attempt tells. It may lose a content only if it has a time limit. -/
theorem told_of_trying {input : StepInput} {limit : Option Nat} {t : List Telling}
    {r : Option (Except Fault StepOutput)} (h : s.trying input limit t r) :
    (∀ a ∈ t, ∀ event, a.event? = some event →
      ∃ delta, event.kind = .stepContentDelta s.name delta) ∧
    (r.isSome → Faithful (fun x => x = s.name ∧ limit.isSome) t) := by
  have hcalling {q : Option (Except Fault StepOutput)} (h : s.calling input t q) :
      (∀ a ∈ t, ∀ event, a.event? = some event →
        ∃ delta, event.kind = .stepContentDelta s.name delta) ∧
      Faithful (· = s.name) t ∧ (q.isSome → Faithful (fun _ => False) t) := by
    rcases cases_calling h with ⟨rfl, rfl⟩ | ⟨u, rfl, hu⟩
    · exact ⟨by simp, .nil, fun hq => by cases hq⟩
    · exact ⟨by simpa [event?] using deltas_of_passing hu, .noted (faithful_of_passing hu),
        fun hq => .noted (faithful_of_passed hu hq)⟩
  cases limit with
  | none =>
    obtain ⟨hd, -, hf⟩ := hcalling h
    exact ⟨hd, fun hr => (hf hr).mono fun _ hx => hx.elim⟩
  | some ms =>
    obtain ⟨q, hq, rfl⟩ := h
    obtain ⟨q', hq⟩ : ∃ q', s.calling input t q' := by
      cases hq with
      | under h => exact ⟨_, h⟩
      | stopped h => exact ⟨_, h⟩
    obtain ⟨hd, hf, -⟩ := hcalling hq
    exact ⟨hd, fun _ => hf.mono fun x hx => ⟨hx, rfl⟩⟩

/-- Nothing that a step tells runs in parallel. -/
theorem regroup_trying {input : StepInput} :
    Regroup defaults whole [.step s] (s.trying input (s.timeoutMs.or defaults.timeoutMs)).result
      (s.trying input (s.timeoutMs.or defaults.timeoutMs)).result := by
  rintro t _ ⟨q, hq, rfl⟩
  obtain ⟨hd, hf⟩ := told_of_trying hq
  refine ⟨t, ⟨q, hq, rfl⟩, .plain (fun a ha event he => ?_) fun hr => ?_⟩
  · obtain ⟨delta, hk⟩ := hd a ha event he
    have hname : event.kind.stepName? = some s.name := by rw [hk, EventKind.stepName?]
    rw [hk]
    exact ⟨belongsTo_iff.2 ⟨s.name, hname, name_mem_names (.step s)⟩, rfl, by simp⟩
  · refine (hf (by simpa using hr)).mono ?_
    rintro x ⟨rfl, hl⟩
    exact ⟨s, by simp [descendants_singleton], rfl, hl⟩

theorem regroup_attempting {input : StepInput} (retries : Nat) :
    Regroup defaults whole [.step s]
      (s.attempting input (s.timeoutMs.or defaults.timeoutMs) retries)
      (s.attempting input (s.timeoutMs.or defaults.timeoutMs) retries) := by
  have honce {otherwise : String → Tale (Except String StepOutput)}
      (ho : ∀ message, Regroup defaults whole [.step s] (otherwise message) (otherwise message)) :
      Regroup defaults whole [.step s]
        (attempting.once s input (s.timeoutMs.or defaults.timeoutMs) otherwise)
        (attempting.once s input (s.timeoutMs.or defaults.timeoutMs) otherwise) := by
    refine regroup_trying.bind fun r => ?_
    cases r with
    | ok output => exact .ret _
    | error fault =>
      dsimp only
      split
      · exact .ofResult _
      · exact ho _
  induction retries with
  | zero => exact honce fun _ => .ret _
  | succ retries ih => exact honce fun _ => ih

theorem regroup_tale (input : StepInput) :
    Regroup defaults whole [.step s] (s.tale defaults input) (s.tale defaults input) :=
  (regroup_attempting _).bind fun _ => .timed _

end Step

/-! ## Loops -/

namespace Loop

variable {name : String} {maxIterations : Nat}
  {ends : Option (List StepOutput → Except String Bool)} {body body' : StepInput → Tale Sequence}
  (hname : name ∈ names own) (hb : ∀ input, Regroup defaults whole own (body input) (body' input))
include hname hb

theorem regroup_turning {isLast : Bool} {done : List StepOutput} {input : StepInput}
    {otherwise otherwise' : StepOutput → List StepOutput → StepInput → Tale LoopResult}
    (ho : ∀ output done next,
      Regroup defaults whole own (otherwise output done next) (otherwise' output done next)) :
    Regroup defaults whole own (turning name maxIterations ends body isLast done input otherwise)
      (turning name maxIterations ends body' isLast done input otherwise') := by
  have hconclude (output : StepOutput) (next : StepInput) : Regroup defaults whole own
      (turning.conclude name ends isLast done otherwise output next)
      (turning.conclude name ends isLast done otherwise' output next) := by
    refine (Regroup.ofResult _).bind fun converged =>
      (Regroup.say rfl hname rfl (by simp)).bind fun _ => ?_
    cases converged with
    | true => exact .ret _
    | false => exact ho _ _ _
  refine (Regroup.say rfl hname rfl (by simp)).bind fun _ => (hb input).bind fun q => ?_
  cases q with
  | halted output => exact (Regroup.say rfl hname rfl (by simp)).bind fun _ => .ret _
  | completed output next produced => exact hconclude _ _
  | empty next => exact hconclude _ _

theorem regroup_iterating (left : Nat) (done : List StepOutput) (input : StepInput) :
    Regroup defaults whole own (iterating name maxIterations ends body left done input)
      (iterating name maxIterations ends body' left done input) := by
  induction left generalizing done input with
  | zero => exact regroup_turning hname hb fun _ _ _ => .ret _
  | succ left ih => exact regroup_turning hname hb fun _ _ _ => ih _ _

theorem regroup_tale (input : StepInput) :
    Regroup defaults whole own (tale name maxIterations ends body input)
      (tale name maxIterations ends body' input) := by
  cases maxIterations with
  | zero => exact .ofResult _
  | succ left => exact regroup_iterating hname hb left [] input

end Loop

/-! ## Children side by side -/

/-- The interleaved tales of children, and these tales one after another, each arranged in itself. -/
structure Dealt (defaults : StepSection) (children : List Node)
    (r : Option (List (Except Fault StepOutput))) (u t : List Telling) : Prop where
  perm : u.Perm t
  inner : ∀ a ∈ u, ∀ event, a.event? = some event →
    belongsTo (names children) event ∧ event.kind.isTerminal = false
  dealt : ∀ w : Way, deal (fun child => arrange [child]) children (w.events u) = w.events t
  faithful : r.isSome → Faithful (Limited defaults children) t

namespace Dealt

variable {child : Node} {children : List Node} {name : String} {description : Option String}
  {start : WorkflowEvent} {u v x t t' : List Telling}

theorem cons {q : Option (Except Fault StepOutput)}
    {r r' : Option (List (Except Fault StepOutput))} (hn : (names (child :: children)).Nodup)
    (h : Regroups defaults [child] [child] q u t) (h' : Dealt defaults children r v t')
    (hi : Interleave u v x) (hr : r'.isSome → q.isSome ∧ r.isSome) :
    Dealt defaults (child :: children) r' x (t ++ t') := by
  have hhead (m : Node) (hm : m ∈ descendants [child]) : m ∈ descendants (child :: children) :=
    mem_descendants_of_mem (List.mem_cons_self ..) hm
  have htail (m : Node) (hm : m ∈ descendants children) : m ∈ descendants (child :: children) :=
    mem_descendants_tail hm
  exact
    { perm := hi.perm.trans (h.perm.append h'.perm)
      inner := fun a ha event he => by
        rcases hi.mem_iff.1 ha with ha | ha
        · exact (h.inner a ha event he).imp_left (belongsTo_mono hhead)
        · exact (h'.inner a ha event he).imp_left (belongsTo_mono htail)
      dealt := fun w => by
        rw [deal_interleave (w.interleave hi) hn, h.arranged, h'.dealt, Way.events_append]
        · intro event he
          obtain ⟨a, ha, hae⟩ := Way.mem_events he
          exact (h.inner a ha event hae).1
        · intro event he
          obtain ⟨a, ha, hae⟩ := Way.mem_events he
          exact (h'.inner a ha event hae).1
      faithful := fun hsome => by
        obtain ⟨hq, hr⟩ := hr hsome
        exact ((h.faithful hq).mono fun x => Limited.mono hhead).append
          ((h'.faithful hr).mono fun x => Limited.mono htail) }

/-- The start of a parallel node belongs to it. -/
private theorem belongs_start (description : Option String)
    (hk : start.kind = .parallelStarted name (children.map Node.name)) :
    belongsTo (names [.parallel name description children]) start ∧
      start.kind.isTerminal = false :=
  ⟨belongsTo_iff.2 ⟨name, by rw [hk]; rfl, name_mem_names (.parallel name description children)⟩,
    by rw [hk]; rfl⟩

/-- The block of a parallel node that waits to tell of its start. -/
theorem started (hp : PartOf [.parallel name description children] whole)
    (hk : start.kind = .parallelStarted name (children.map Node.name)) :
    Regroups defaults whole [.parallel name description children]
      (none : Option (Except Fault StepOutput)) [.published start] [.published start] where
  perm := .refl _
  inner := fun a ha event he => by
    obtain rfl := List.mem_singleton.1 ha
    cases he
    exact belongs_start description hk
  arranged := fun w => by
    cases w with
    | feed => rfl
    | bus =>
      have hblock : arrange whole (start :: ([] ++ [])) = _ :=
        arrange_block hk hp.find? (by simp) (by simp)
      rw [deal_nil fun _ => arrange_nil _] at hblock
      exact hblock
  goesOn := nofun
  faithful := nofun

/-- The block of a parallel node: its start, what its children tell, and then at most its end. -/
theorem block (hp : PartOf [.parallel name description children] whole)
    (hk : start.kind = .parallelStarted name (children.map Node.name))
    {q : Option (List (Except Fault StepOutput))} (h : Dealt defaults children q u t)
    {last : List Telling} {r : Option (Except Fault StepOutput)} (hq : r.isSome → q.isSome)
    (hlast : last = [] ∧ (∀ output, r ≠ some (.ok output)) ∨ ∃ stop success,
      stop.kind = .parallelCompleted name success ∧
        (last = [.published stop] ∧ r = none ∨ last = [.published stop, .delivered stop])) :
    Regroups defaults whole [.parallel name description children] r
      (.published start :: .delivered start :: (u ++ last))
      (.published start :: .delivered start :: (t ++ last)) := by
  have hnode := name_mem_names (.parallel name description children)
  have hown : name ∉ names children := fun hx => by
    have hn := hp.nodup
    rw [names_singleton] at hn
    exact (List.nodup_cons.1 hn).1 hx
  have hevents (w : Way) (l : List Telling) :
      w.events (.published start :: .delivered start :: l) = start :: w.events l := by
    rw [show Telling.published start :: .delivered start :: l =
      [.published start, .delivered start] ++ l from rfl, Way.events_append, Way.events_pair]
    rfl
  have hstop {a : Telling} (ha : a ∈ last) {event : WorkflowEvent} (he : a.event? = some event) :
      ∃ success, event.kind = .parallelCompleted name success := by
    rcases hlast with ⟨rfl, -⟩ | ⟨stop, success, hs, ⟨rfl, -⟩ | rfl⟩
    · cases ha
    all_goals
      refine ⟨success, ?_⟩
      simp only [List.mem_cons, List.not_mem_nil, or_false] at ha
      rcases ha with rfl | rfl <;> cases he <;> exact hs
  have hnot {event : WorkflowEvent} {success : Bool}
      (he : event.kind = .parallelCompleted name success) :
      belongsTo (names children) event = false := by
    refine Bool.eq_false_iff.2 fun hb => ?_
    obtain ⟨x, hx, hmem⟩ := belongsTo_iff.1 hb
    rw [he] at hx
    obtain rfl : name = x := by simpa [EventKind.stepName?] using hx
    exact hown hmem
  -- The children end where the next event is none of theirs.
  have harrange (w : Way) (rest : List WorkflowEvent)
      (hr : ∀ event, rest.head? = some event → belongsTo (names children) event = false) :
      arrange whole (start :: (w.events u ++ rest)) =
        start :: (w.events t ++ arrange whole rest) := by
    rw [arrange_block hk hp.find? (fun event he => ?_) hr]
    · exact congrArg (fun l => start :: (l ++ _)) (h.dealt w)
    · obtain ⟨a, ha, hae⟩ := Way.mem_events he
      exact (h.inner a ha event hae).1
  have hplain (w : Way) (rest : List WorkflowEvent) :
      arrange whole (w.events last ++ rest) = w.events last ++ arrange whole rest :=
    arrange_append fun event he => by
      obtain ⟨a, ha, hae⟩ := Way.mem_events he
      obtain ⟨success, hs⟩ := hstop ha hae
      simp [hs]
  exact
    { perm := ((h.perm.append_right last).cons _).cons _
      inner := fun a ha event he => by
        have hstart := belongs_start description hk
        rcases List.mem_cons.1 ha with rfl | ha
        · cases he
          exact hstart
        rcases List.mem_cons.1 ha with rfl | ha
        · cases he
          exact hstart
        rcases List.mem_append.1 ha with ha | ha
        · exact (h.inner a ha event he).imp_left (belongsTo_mono fun m => mem_descendants_children)
        · obtain ⟨success, hs⟩ := hstop ha he
          exact ⟨belongsTo_iff.2 ⟨name, by rw [hs]; rfl, hnode⟩, by rw [hs]; rfl⟩
      arranged := fun w => by
        rw [hevents, hevents, Way.events_append, harrange, Way.events_append]
        · simpa using hplain w []
        · intro event he
          obtain ⟨a, ha, hae⟩ := Way.mem_events (List.mem_of_mem_head? he)
          obtain ⟨success, hs⟩ := hstop ha hae
          exact hnot hs
      goesOn := fun output hr w rest => by
        rcases hlast with ⟨-, hnone⟩ | ⟨stop, success, hs, ⟨-, rfl⟩ | rfl⟩
        · exact absurd hr (hnone output)
        · cases hr
        · rw [hevents, hevents, Way.events_append, List.cons_append, List.append_assoc, harrange,
            hplain, Way.events_append, List.cons_append, List.append_assoc]
          rw [Way.events_pair]
          intro event he
          obtain rfl : stop = event := by simpa using he
          exact hnot hs
      faithful := fun hsome => by
        refine .delivered (((h.faithful (hq hsome)).mono fun x => ?_).append ?_)
        · exact Limited.mono fun m hm =>
            mem_descendants_children (n := .parallel name description children) hm
        · rcases hlast with ⟨rfl, -⟩ | ⟨stop, success, hs, ⟨-, rfl⟩ | rfl⟩
          · exact .nil
          · cases hsome
          · exact .delivered .nil }

end Dealt

/-! ## Nodes -/

namespace Node

/-- The end of a parallel node tells of it when its children are joined. -/
theorem cases_joined {name : String} {q : Except Fault StepOutput} {last : List Telling}
    {r : Option (Except Fault StepOutput)}
    (h : ((TaskAccount.ofResult q).bind fun output =>
      (Tale.say (.parallelCompleted name output.success)).bind fun _ =>
        TaskAccount.ret output) last r) :
    last = [] ∧ (∀ output, r ≠ some (.ok output)) ∨ ∃ stop success,
      stop.kind = .parallelCompleted name success ∧
        (last = [.published stop] ∧ r = none ∨ last = [.published stop, .delivered stop]) := by
  cases h with
  | under h =>
    obtain ⟨rfl, -⟩ := h
    exact .inl ⟨rfl, nofun⟩
  | fault h =>
    obtain ⟨rfl, -⟩ := h
    exact .inl ⟨rfl, nofun⟩
  | next h hs =>
    obtain ⟨rfl, -⟩ := h
    cases hs with
    | under hs =>
      cases hs with
      | idle => exact .inl ⟨rfl, nofun⟩
      | published hk => exact .inr ⟨_, _, hk, .inl ⟨rfl, rfl⟩⟩
    | fault hs => cases hs
    | next hs hret =>
      cases hs with
      | delivered hk =>
        obtain ⟨rfl, -⟩ := hret
        exact .inr ⟨_, _, hk, .inr rfl⟩

/-- A parallel node whose children are told apart. -/
theorem regroup_parallel {name : String} {description : Option String} {children : List Node}
    {input : StepInput} (hp : PartOf [.parallel name description children] whole)
    (hc : ∀ u q, Account.together (taleOfEach .together defaults input children) u q →
      ∃ t, Account.inTurn (taleOfEach .inTurn defaults input children) t q ∧
        Dealt defaults children q u t) :
    Regroup defaults whole [.parallel name description children]
      (taleInside .together defaults input (.parallel name description children))
      (taleInside .inTurn defaults input (.parallel name description children)) := by
  intro u r hu
  unfold taleInside at hu ⊢
  cases hu with
  | under hu =>
    cases hu with
    | idle => exact ⟨[], .under .idle, .nil⟩
    | published hk => exact ⟨_, .under (.published hk), Dealt.started hp hk⟩
  | fault hu => cases hu
  | next hu hv =>
    cases hu with
    | delivered hk =>
      cases hv with
      | under hv =>
        obtain ⟨q, hq, hr⟩ := hv
        obtain ⟨t, ht, hd⟩ := hc _ _ hq
        refine ⟨_, .next (.delivered hk) (.under ⟨q, ht, hr⟩), ?_⟩
        simpa using hd.block (r := none) hp hk (fun hr => by cases hr)
          (.inl ⟨rfl, fun _ hr => by cases hr⟩)
      | fault hv =>
        obtain ⟨q, -, hr⟩ := hv
        cases q <;> cases hr
      | next hv hlast =>
        obtain ⟨q, hq, hr⟩ := hv
        obtain ⟨t, ht, hd⟩ := hc _ _ hq
        refine ⟨_, .next (.delivered hk) (.next ⟨q, ht, hr⟩ hlast), ?_⟩
        have hq : q.isSome := by
          cases q with
          | none => cases hr
          | some results => rfl
        exact hd.block hp hk (fun _ => hq) (cases_joined hlast)

variable {n : Node} {input : StepInput}

theorem regroup_block {work work' : Tale StepOutput} (hn : n.name ∈ names own)
    (h : Regroup defaults whole own work work') :
    Regroup defaults whole own (n.block input work) (n.block input work') :=
  (Regroup.note _).bind fun _ => (Regroup.say rfl hn rfl (by simp)).bind fun _ =>
    h.bind fun _ => (Regroup.timed _).bind fun _ => (Regroup.note _).bind fun _ =>
      (Regroup.say rfl hn rfl (by simp)).bind fun _ => .ret _

mutual

private theorem regroup_inside {whole : List Node} (input : StepInput) :
    (n : Node) → PartOf [n] whole →
    Regroup defaults whole [n] (taleInside .together defaults input n)
      (taleInside .inTurn defaults input n)
  | .step s, _ => by
    unfold taleInside
    exact s.regroup_tale input
  | .steps name _ children, hp => by
    unfold taleInside
    exact (Regroup.inside (regroup_inTurn children hp.children input)).map
  | .condition name description test children, hp => by
    unfold taleInside
    have hname := name_mem_names (.condition name description test children)
    refine (Regroup.ofResult _).bind fun holds =>
      (Regroup.say rfl hname rfl (by simp)).bind fun _ => ?_
    cases holds with
    | true => exact (Regroup.inside (regroup_inTurn children hp.children input)).map
    | false => exact .ret _
  | .loop name description maxIterations ends children, hp => by
    unfold taleInside
    have hname := name_mem_names (.loop name description maxIterations ends children)
    exact (Loop.regroup_tale hname (fun input =>
      .inside (regroup_inTurn children hp.children input)) input).map
  | .parallel name _ children, hp =>
    regroup_parallel hp (dealt_each input children hp.children.nodup)
  | .router name description select choices, hp => by
    unfold taleInside
    have hname := name_mem_names (.router name description select choices)
    exact (Regroup.ofResult _).bind fun choice =>
      (Regroup.say rfl hname rfl (by simp)).bind fun _ =>
        .inside (regroup_choice input choice.name choices hp.children)

private theorem regroup_inTurn {whole : List Node} :
    (nodes : List Node) → PartOf nodes whole → (input : StepInput) →
    Regroup defaults whole nodes (taleInTurn .together defaults nodes input)
      (taleInTurn .inTurn defaults nodes input)
  | [], _, input => .ret _
  | n :: rest, hp, input => by
    unfold taleInTurn
    have hhead (m : Node) (hm : m ∈ descendants [n]) : m ∈ descendants (n :: rest) :=
      mem_descendants_of_mem (List.mem_cons_self ..) hm
    refine ((regroup_block (name_mem_names n) (regroup_inside input n hp.head)).mono hhead).bind
      fun output => ?_
    split
    · exact .ret _
    · exact ((regroup_inTurn rest hp.tail _).mono fun m => mem_descendants_tail).map

private theorem dealt_each (input : StepInput) : (children : List Node) →
    (names children).Nodup → ∀ u q,
    Account.together (taleOfEach .together defaults input children) u q →
      ∃ t, Account.inTurn (taleOfEach .inTurn defaults input children) t q ∧
        Dealt defaults children q u t
  | [], _, u, q, hu => by
    obtain ⟨rfl, hq⟩ := hu
    exact ⟨[], ⟨rfl, hq⟩, .nil, by simp, fun w => by simp [deal], fun _ => .nil⟩
  | n :: rest, hn, u, q, hu => by
    obtain ⟨v, r, v', r', hv, hv', hi, hq⟩ := hu
    have hp : PartOf [n] [n] := .refl (PartOf.refl hn).head.nodup
    obtain ⟨t, ht, hr⟩ := regroup_block (name_mem_names n) (regroup_inside input n hp) v r hv
    obtain ⟨t', ht', hd⟩ := dealt_each input rest (PartOf.refl hn).tail.nodup v' r' hv'
    refine ⟨t ++ t', ⟨t, r, t', r', ht, ht', rfl, hq⟩, .cons hn hr hd hi fun hsome => ?_⟩
    obtain ⟨results, rfl⟩ := Option.isSome_iff_exists.1 hsome
    obtain ⟨a, as, rfl, rfl, -⟩ := hq results rfl
    exact ⟨rfl, rfl⟩

private theorem regroup_choice {whole : List Node} (input : StepInput) (name : String) :
    (choices : List Node) → PartOf choices whole →
    Regroup defaults whole choices (taleOfChoice .together defaults input name choices)
      (taleOfChoice .inTurn defaults input name choices)
  | [], _ => .ofResult _
  | n :: rest, hp => by
    unfold taleOfChoice
    split
    · exact (regroup_block (name_mem_names n) (regroup_inside input n hp.head)).mono
        fun m => mem_descendants_of_mem (List.mem_cons_self ..)
    · exact (regroup_choice input name rest hp.tail).mono fun m => mem_descendants_tail

end

/-- The tale of a node, arranged, is one in which the children of its parallel nodes stand in the
order of declaration. -/
theorem regroup_tale (n : Node) (hp : PartOf [n] whole) (input : StepInput) :
    Regroup defaults whole [n] (n.tale .together defaults input) (n.tale .inTurn defaults input) :=
  regroup_block (name_mem_names n) (regroup_inside input n hp)

end Node

end WorkflowEngine
