import Mathlib.Logic.Relation
import WorkflowEngine.Proofs.Session.Standing

/-!
# Overlapping runs

Any number of runs of a workflow and its clones on one session, whose fibers move in any order.
Main statement: at every moment the committed state is the state of the session at the start,
overridden by the stored one, into which the completed runs were merged in the order of their ends.
-/

namespace WorkflowEngine

open Relation

/-- The runs under way on one engine. -/
structure Situation where
  engine : Engine
  tasks : List (Fiber Engine (Except Fault WorkflowRun)) := []

namespace Situation

open Workflow

/-- A run starts, one strand of a run moves, a run is given up, or others act. -/
inductive Step (home : Workflow) : Situation → Situation → Prop
  | run {s : Situation} {w : Workflow} (hw : home.Shares w) (input : ExecutionInput)
      (token : Ref CancelToken) :
      Step home s { s with tasks := s.tasks ++ [w.run input token] }
  | stream {s : Situation} {w : Workflow} (hw : home.Shares w) (input : ExecutionInput)
      (token : Ref CancelToken) (feed : Ref Feed) :
      Step home s ⟨s.engine.freshId.2,
        s.tasks ++ [w.executeRun input s.engine.freshId.1 token (some feed)]⟩
  | spawn {s : Situation} {w : Workflow} {runId : String} {e : Engine} (hw : home.Shares w)
      (input : ExecutionInput) (token : Ref CancelToken)
      (h : w.announceRun s.engine = (.ok runId, e)) :
      Step home s ⟨e, s.tasks ++ [w.executeRun input runId token none]⟩
  | refuse {s : Situation} {w : Workflow} {fault : Fault} {e : Engine} (hw : home.Shares w)
      (h : w.announceRun s.engine = (.error fault, e)) : Step home s { s with engine := e }
  | move {e e' : Engine} {p p' : Fiber Engine (Except Fault WorkflowRun)}
      {before after : List (Fiber Engine (Except Fault WorkflowRun))}
      (hm : Fiber.Moves p e p' e') :
      Step home ⟨e, before ++ p :: after⟩ ⟨e', before ++ p' :: after⟩
  | crash {e e' : Engine} {p : Fiber Engine (Except Fault WorkflowRun)}
      {before after : List (Fiber Engine (Except Fault WorkflowRun))} (hc : Fiber.Crashes p e e') :
      Step home ⟨e, before ++ p :: after⟩ ⟨e', before ++ after⟩
  | drop {e : Engine} {p : Fiber Engine (Except Fault WorkflowRun)}
      {before after : List (Fiber Engine (Except Fault WorkflowRun))} :
      Step home ⟨e, before ++ p :: after⟩ ⟨e, before ++ after⟩
  | other {s : Situation} {e : Engine} (h : home.Apart s.engine e) :
      Step home s { s with engine := e }

/-- What comes of a situation in any number of steps. -/
abbrev Leads (home : Workflow) : Situation → Situation → Prop := ReflTransGen (Step home)

/-- No run has started yet, and the session is there. -/
structure Idle (home : Workflow) (s : Situation) : Prop where
  tasks : s.tasks = []
  journal : s.engine.journal = []
  slot : home.slot.index < s.engine.slots.items.length
  state : (home.session s.engine).state.index < s.engine.states.items.length

def loaded (home : Workflow) (s : Situation) : Bool := (home.session s.engine).loaded

def committed (home : Workflow) (s : Situation) : SessionState := home.sessionState s.engine

/-- The state that all changes are merged into: the one at the start, overridden by what the store
held when the first run took it over. -/
inductive Origin (home : Workflow) (s₀ s : Situation) : SessionState → Prop
  | kept (h : loaded home s₀ = true) : Origin home s₀ s (committed home s₀)
  | taken {s₁ s₂ : Situation} {found : Option SessionRecord} (h₁ : Leads home s₀ s₁)
      (hs : Step home s₁ s₂) (h₂ : Leads home s₂ s) (hl₁ : loaded home s₁ = false)
      (hl₂ : loaded home s₂ = true)
      (hf : (home.storedSession (home.sessionId s₁.engine) s₁.engine).1 = .ok found) :
      Origin home s₀ s ((committed home s₀).overridden found)

theorem Origin.step {home : Workflow} {s₀ s s' : Situation} {state : SessionState}
    (h : Origin home s₀ s state) (hs : Step home s s') : Origin home s₀ s' state := by
  cases h with
  | kept h => exact .kept h
  | taken h₁ hs₁ h₂ hl₁ hl₂ hf => exact .taken h₁ hs₁ (h₂.tail hs) hl₁ hl₂ hf

variable {home : Workflow} {s₀ s s' : Situation}

/-- The runs under way with their identifiers, no two of which are the same. -/
structure Roll (home : Workflow) (s : Situation)
    (roll : List (Option String × Fiber Engine (Except Fault WorkflowRun))) : Prop where
  tasks : s.tasks = roll.map Prod.snd
  stands : ∀ entry ∈ roll, home.Stands s.engine entry.1 entry.2
  distinct : roll.Pairwise fun a b => ∀ runId, a.1 = some runId → b.1 ≠ some runId

/-- What holds of every situation that comes of an idle one. -/
structure Sound (home : Workflow) (s₀ s : Situation) : Prop where
  slot : home.slot.index < s.engine.slots.items.length
  state : (home.session s.engine).state.index < s.engine.states.items.length
  roll : ∃ roll, Roll home s roll
  begun : ∀ runId base, s.engine.journal.base? runId = some base → Given s.engine runId
  law : loaded home s = false ∧ committed home s = committed home s₀ ∧
      s.engine.journal.completions = [] ∨
    loaded home s = true ∧ ∃ origin, Origin home s₀ s origin ∧
      committed home s = origin.mergeAll s.engine.journal.completions

theorem Idle.sound (h : Idle home s₀) : Sound home s₀ s₀ := by
  refine ⟨h.slot, h.state, ⟨[], h.tasks, by simp, .nil⟩, ?_, ?_⟩
  · rw [h.journal]
    exact fun _ _ h => nomatch h
  have hnone : s₀.engine.journal.completions = [] := by rw [h.journal]; rfl
  cases hl : loaded home s₀ with
  | false => exact .inl ⟨rfl, rfl, hnone⟩
  | true => exact .inr ⟨rfl, committed home s₀, .kept hl, by rw [hnone]; rfl⟩

/-- Runs begin under identifiers that were given. -/
theorem Sound.begun_of_effect (h : Sound home s₀ s)
    (hg : s.engine.generated ≤ s'.engine.generated) (he : home.Effect s.engine s'.engine) :
    ∀ runId base, s'.engine.journal.base? runId = some base → Given s'.engine runId := by
  intro runId base hb
  cases he with
  | spared hsp => exact (h.begun runId base (hsp.base runId ▸ hb)).mono hg
  | begun hgiven hnone hl hc hj =>
    rw [hj, Journal.base?] at hb
    split at hb
    · rename_i hid
      exact hid ▸ hgiven.mono hg
    · exact (h.begun runId base hb).mono hg
  | taken hl hl' hj hf hc => exact (h.begun runId base (hj ▸ hb)).mono hg
  | ended hl hl' hbase hj hm =>
    rw [hj] at hb
    exact (h.begun runId base hb).mono hg

/-- The law of the committed state after a step with a known effect. -/
theorem Sound.law_of_effect (h : Sound home s₀ s) (hr : Leads home s₀ s) (hs : Step home s s')
    (he : home.Effect s.engine s'.engine) :
    loaded home s' = false ∧ committed home s' = committed home s₀ ∧
      s'.engine.journal.completions = [] ∨
    loaded home s' = true ∧ ∃ origin, Origin home s₀ s' origin ∧
      committed home s' = origin.mergeAll s'.engine.journal.completions := by
  cases he with
  | spared hsp =>
    rcases h.law with ⟨hl, hc, hn⟩ | ⟨hl, origin, ho, hc⟩
    · exact .inl ⟨hsp.loaded.trans hl, hsp.committed.trans hc, hsp.completions.trans hn⟩
    · refine .inr ⟨hsp.loaded.trans hl, origin, ho.step hs, ?_⟩
      rw [hsp.completions]
      exact hsp.committed.trans hc
  | begun hg hb hl hc hj =>
    have hn : s'.engine.journal.completions = s.engine.journal.completions := by rw [hj]; rfl
    rcases h.law with ⟨hl₀, hc₀, hn₀⟩ | ⟨hl₀, origin, ho, hc₀⟩
    · exact .inl ⟨hl.trans hl₀, hc.trans hc₀, hn.trans hn₀⟩
    · exact .inr ⟨hl.trans hl₀, origin, ho.step hs, by rw [hn]; exact hc.trans hc₀⟩
  | taken hl hl' hj hf hc =>
    rcases h.law with ⟨-, hc₀, hn⟩ | ⟨hl'', -⟩
    · refine .inr ⟨hl', _, .taken hr hs .refl hl hl' hf, ?_⟩
      rw [hj, hn, ← hc₀]
      exact hc
    · exact absurd (hl''.symm.trans hl) (by decide)
  | ended hl hl' hb hj hm =>
    rcases h.law with ⟨hl'', -⟩ | ⟨-, origin, ho, hc⟩
    · exact absurd (hl''.symm.trans hl) (by decide)
    · exact .inr ⟨hl', origin, ho.step hs, hm origin hc⟩

namespace Roll

variable {roll : List (Option String × Fiber Engine (Except Fault WorkflowRun))} {e : Engine}

/-- The roll after an act of somebody else. -/
theorem respected (h : Roll home s roll) (hr : home.Respects none s.engine e) :
    Roll home { s with engine := e } roll where
  tasks := h.tasks
  stands := fun entry he => (h.stands entry he).respected hr fun _ _ h => nomatch h
  distinct := h.distinct

/-- The roll after a run was started. -/
theorem add (h : Roll home s roll) {id : Option String}
    {p : Fiber Engine (Except Fault WorkflowRun)} (hp : home.Stands s.engine id p)
    (hid : ∀ runId, id = some runId → ∀ entry ∈ roll, entry.1 ≠ some runId) :
    Roll home { s with tasks := s.tasks ++ [p] } (roll ++ [(id, p)]) where
  tasks := by simp [h.tasks]
  stands := by
    intro entry he
    rcases List.mem_append.1 he with he | he
    · exact h.stands entry he
    · obtain rfl := List.mem_singleton.1 he
      exact hp
  distinct := by
    refine List.pairwise_append.2 ⟨h.distinct, List.pairwise_singleton _ _, ?_⟩
    intro entry he entry' he' runId hrun hid'
    obtain rfl := List.mem_singleton.1 he'
    exact hid runId hid' entry he hrun

/-- An identifier that is given next is not on the roll. -/
theorem fresh (h : Roll home s roll) {n : Nat} (hn : s.engine.generated ≤ n) :
    ∀ entry ∈ roll, entry.1 ≠ some (Ident.ofNat n) := by
  rintro ⟨id, p⟩ he rfl
  obtain ⟨m, hm, heq⟩ := (h.stands _ he).given
  exact Nat.ne_of_gt (Nat.lt_of_lt_of_le hm hn) (Ident.ofNat_injective heq)

/-- The place of a run on the roll. -/
theorem split {before after : List (Fiber Engine (Except Fault WorkflowRun))}
    {p : Fiber Engine (Except Fault WorkflowRun)} (h : Roll home ⟨e, before ++ p :: after⟩ roll) :
    ∃ l₁ id l₂, roll = l₁ ++ (id, p) :: l₂ ∧ before = l₁.map Prod.snd ∧
      after = l₂.map Prod.snd := by
  obtain ⟨l₁, l', rfl, rfl, hl'⟩ := List.append_eq_map_iff.1 h.tasks
  obtain ⟨⟨id, q⟩, l₂, rfl, rfl, rfl⟩ := List.map_eq_cons_iff.1 hl'
  exact ⟨l₁, id, l₂, rfl, rfl, rfl⟩

section Members

variable {l₁ l₂ : List (Option String × Fiber Engine (Except Fault WorkflowRun))}
  {id id' : Option String} {p p' : Fiber Engine (Except Fault WorkflowRun)}

private theorem apart (h : Roll home s (l₁ ++ (id, p) :: l₂)) :
    ∀ entry ∈ l₁ ++ l₂, ∀ runId, entry.1 = some runId → id ≠ some runId := by
  obtain ⟨-, hp, hd⟩ := List.pairwise_append.1 h.distinct
  intro entry he runId hrun hid
  rcases List.mem_append.1 he with he | he
  · exact hd entry he (id, p) (List.mem_cons_self ..) runId hrun hid
  · exact (List.pairwise_cons.1 hp).1 entry he runId hid hrun

theorem member (h : Roll home s (l₁ ++ (id, p) :: l₂)) : home.Stands s.engine id p :=
  h.stands (id, p) (by simp)

private theorem mem_of_mem_rest {entry : Option String × Fiber Engine (Except Fault WorkflowRun)}
    (he : entry ∈ l₁ ++ l₂) : entry ∈ l₁ ++ (id, p) :: l₂ := by
  rcases List.mem_append.1 he with he | he <;> simp [he]

/-- The roll without one of its runs, after an act of that run. -/
theorem without (h : Roll home s (l₁ ++ (id, p) :: l₂)) (hr : home.Respects id s.engine e) :
    Roll home ⟨e, l₁.map Prod.snd ++ l₂.map Prod.snd⟩ (l₁ ++ l₂) where
  tasks := by simp
  stands := fun entry he => (h.stands entry (mem_of_mem_rest he)).respected hr (h.apart entry he)
  distinct := by
    obtain ⟨hd₁, hd₂, hd⟩ := List.pairwise_append.1 h.distinct
    exact List.pairwise_append.2 ⟨hd₁, (List.pairwise_cons.1 hd₂).2,
      fun a ha b hb => hd a ha b (List.mem_cons_of_mem _ hb)⟩

/-- The roll after a move of one of its runs. -/
theorem move (h : Roll home s (l₁ ++ (id, p) :: l₂)) (hr : home.Respects id s.engine e)
    (hid : Fresh s.engine e id id') (hp' : home.Stands e id' p') :
    Roll home ⟨e, l₁.map Prod.snd ++ p' :: l₂.map Prod.snd⟩ (l₁ ++ (id', p') :: l₂) := by
  obtain ⟨-, hstands, hdistinct⟩ := h.without hr
  obtain ⟨hd₁, hd₂, hd⟩ := List.pairwise_append.1 hdistinct
  have hother : ∀ entry ∈ l₁ ++ l₂, ∀ runId, id' = some runId → entry.1 ≠ some runId := by
    intro entry he runId hrun hentry
    rcases hid runId hrun with rfl | ⟨n, hn, -, rfl⟩
    · exact h.apart entry he runId hentry rfl
    · exact h.fresh hn entry (mem_of_mem_rest he) hentry
  refine ⟨by simp, fun entry he => ?_, List.pairwise_append.2 ⟨hd₁, List.pairwise_cons.2
    ⟨fun b hb => hother b (by simp [hb]), hd₂⟩, fun a ha b hb => ?_⟩⟩
  · rcases List.mem_cons.1 (List.perm_middle.mem_iff.1 he) with rfl | he
    · exact hp'
    · exact hstands entry he
  · rcases List.mem_cons.1 hb with rfl | hb
    · exact fun runId ha' hb' => hother a (by simp [ha]) runId hb' ha'
    · exact hd a ha b hb

end Members

end Roll

/-- Every step respects the session, has a known effect on it and keeps a roll. -/
theorem Sound.effect (h : Sound home s₀ s) (hs : Step home s s') :
    ∃ own, home.Respects own s.engine s'.engine ∧ home.Effect s.engine s'.engine ∧
      ∃ roll, Roll home s' roll := by
  obtain ⟨roll, hroll⟩ := h.roll
  cases hs with
  | run hw input token =>
    exact ⟨none, .refl home none _, .spared (.refl home _), _,
      hroll.add (.called hw) fun _ h => nomatch h⟩
  | stream hw input token feed =>
    have hresp : home.Respects none s.engine s.engine.freshId.2 := respects_freshId s.engine
    refine ⟨none, hresp, .spared (spares_frame _ _ _), _, (hroll.respected hresp).add
      (.entering hw ⟨s.engine.generated, Nat.lt_succ_self _, rfl⟩
        (base_of_fresh h.begun (Nat.le_refl _))) ?_⟩
    rintro runId ⟨⟩
    exact hroll.fresh (Nat.le_refl _)
  | spawn hw input token ha =>
    have hresp := respects_announceRun hw h.slot none ha
    obtain ⟨n, hn, hlt, rfl⟩ := given_announceRun hw h.slot ha
    have hbase := (hresp.base _ fun h => nomatch h).trans (base_of_fresh h.begun hn)
    refine ⟨none, hresp, effect_announceRun hw h.slot h.state ha, _, (hroll.respected hresp).add
      (.entering hw ⟨n, hlt, rfl⟩ hbase) ?_⟩
    rintro runId ⟨⟩
    exact hroll.fresh hn
  | refuse hw ha =>
    have hresp := respects_announceRun hw h.slot none ha
    exact ⟨none, hresp, effect_announceRun hw h.slot h.state ha, _, hroll.respected hresp⟩
  | move hm =>
    obtain ⟨l₁, id, l₂, rfl, rfl, rfl⟩ := hroll.split
    obtain ⟨hresp, heffect, id', hid, hp'⟩ :=
      hroll.member.moves h.slot h.state h.begun hm
    exact ⟨id, hresp, heffect, _, hroll.move hresp hid hp'⟩
  | crash hc =>
    obtain ⟨l₁, id, l₂, rfl, rfl, rfl⟩ := hroll.split
    obtain ⟨hresp, hspares⟩ := hroll.member.crashes hc
    exact ⟨id, hresp, .spared hspares, _, hroll.without hresp⟩
  | drop =>
    obtain ⟨l₁, id, l₂, rfl, rfl, rfl⟩ := hroll.split
    exact ⟨id, .refl home id _, .spared (.refl home _), _, hroll.without (.refl home id _)⟩
  | other ha =>
    have hresp := respects_apart ha none
    exact ⟨none, hresp, .spared (spares_apart ha h.state), _, hroll.respected hresp⟩

theorem Sound.step (h : Sound home s₀ s) (hr : Leads home s₀ s) (hs : Step home s s') :
    Sound home s₀ s' := by
  obtain ⟨own, hresp, heffect, hroll⟩ := h.effect hs
  refine ⟨hresp.slot h.slot, ?_, hroll, h.begun_of_effect hresp.generated heffect,
    h.law_of_effect hr hs heffect⟩
  rw [hresp.place]
  exact Nat.lt_of_lt_of_le h.state hresp.states

theorem Leads.sound (h₀ : Idle home s₀) (h : Leads home s₀ s) : Sound home s₀ s := by
  induction h with
  | refl => exact h₀.sound
  | tail hr hs ih => exact ih.step hr hs

/-- A run began in a step on the way, and the state it began on was the committed one. -/
def Began (home : Workflow) (s₀ s : Situation) (runId : String) (base : SessionState) : Prop :=
  ∃ s₁ s₂, Leads home s₀ s₁ ∧ Step home s₁ s₂ ∧ Leads home s₂ s ∧
    s₂.engine.journal = (runId, .began base) :: s₁.engine.journal ∧ base = committed home s₁

theorem Began.step {runId : String} {base : SessionState} (h : Began home s₀ s runId base)
    (hs : Step home s s') : Began home s₀ s' runId base := by
  obtain ⟨s₁, s₂, h₁, hs₁, h₂, hj, hb⟩ := h
  exact ⟨s₁, s₂, h₁, hs₁, h₂.tail hs, hj, hb⟩

/-- What a run is said to have begun on was the committed state when it began. -/
theorem Leads.began (h₀ : Idle home s₀) (h : Leads home s₀ s) {runId : String}
    {base : SessionState} (hb : s.engine.journal.base? runId = some base) :
    Began home s₀ s runId base := by
  induction h with
  | refl =>
    rw [h₀.journal] at hb
    cases hb
  | @tail s s' hr hs ih =>
    obtain ⟨own, -, heffect, -⟩ := (Leads.sound h₀ hr).effect hs
    cases heffect with
    | spared h => exact (ih (h.base runId ▸ hb)).step hs
    | @begun id hg hnone hl hc hj =>
      rw [hj, Journal.base?] at hb
      split at hb
      · rename_i hid
        cases hb
        exact ⟨s, s', hr, hs, .refl, hid ▸ hj, rfl⟩
      · exact (ih hb).step hs
    | taken hl hl' hj hf hc => exact (ih (hj ▸ hb)).step hs
    | ended hl hl' hbase hj h =>
      rw [hj] at hb
      exact (ih hb).step hs

/-- What a run began on stays the same. -/
theorem base_of_effect (he : home.Effect s.engine s'.engine) {runId : String} {base : SessionState}
    (hb : s.engine.journal.base? runId = some base) :
    s'.engine.journal.base? runId = some base := by
  cases he with
  | spared h => exact (h.base runId).trans hb
  | @begun id hg hnone hl hc hj =>
    rw [hj, Journal.base?, if_neg, hb]
    rintro rfl
    rw [hnone] at hb
    cases hb
  | taken hl hl' hj hf hc => rwa [hj]
  | ended hl hl' hbase hj hm =>
    rw [hj]
    exact hb

/-- Every run that ended began. -/
theorem Leads.base_of_ended (h₀ : Idle home s₀) (h : Leads home s₀ s) {runId : String}
    {fault : Option Fault} {run : WorkflowRun} {final : SessionState}
    (he : (runId, .ended fault run final) ∈ s.engine.journal) :
    ∃ base, s.engine.journal.base? runId = some base := by
  induction h with
  | refl =>
    rw [h₀.journal] at he
    cases he
  | @tail s s' hr hs ih =>
    obtain ⟨own, -, heffect, -⟩ := (Leads.sound h₀ hr).effect hs
    have hearlier (he : (runId, .ended fault run final) ∈ s.engine.journal) :
        ∃ base, s'.engine.journal.base? runId = some base := by
      obtain ⟨base, hb⟩ := ih he
      exact ⟨base, base_of_effect heffect hb⟩
    cases hcases : heffect with
    | spared h => exact hearlier (h.ended _ _ _ _ he)
    | begun hg hnone hl hc hj =>
      rw [hj] at he
      rcases List.mem_cons.1 he with he | he
      · cases he
      · exact hearlier he
    | taken hl hl' hj hf hc => exact hearlier (hj ▸ he)
    | ended hl hl' hbase hj hm =>
      rw [hj] at he
      rcases List.mem_cons.1 he with he | he
      · cases he
        exact ⟨_, base_of_effect heffect hbase⟩
      · exact hearlier he

/-- At every moment the committed state is the state at the start, overridden by the stored one,
into which the changes of the completed runs were merged in the order of their ends, each relative
to the committed state it began on. So under each key stands what the last completed run left there
that changed it. -/
theorem committed_of_leads (h₀ : Idle home s₀) (h : Leads home s₀ s) :
    (loaded home s = false ∧ committed home s = committed home s₀ ∧
        s.engine.journal.completions = [] ∨
      loaded home s = true ∧ ∃ origin, Origin home s₀ s origin ∧
        committed home s = origin.mergeAll s.engine.journal.completions ∧
        ∀ key, (committed home s).get? key =
          match SessionState.lastChange? key s.engine.journal.completions with
          | some run => run.2.get? key
          | none => origin.get? key) ∧
    ∀ runId fault run final, (runId, .ended fault run final) ∈ s.engine.journal →
      ∃ base, s.engine.journal.base? runId = some base ∧ Began home s₀ s runId base := by
  refine ⟨?_, fun runId fault run final he => ?_⟩
  · rcases (Leads.sound h₀ h).law with hlaw | ⟨hl, origin, ho, hc⟩
    · exact .inl hlaw
    · refine .inr ⟨hl, origin, ho, hc, fun key => ?_⟩
      rw [hc]
      exact SessionState.get?_mergeAll origin _ key
  · obtain ⟨base, hb⟩ := Leads.base_of_ended h₀ h he
    exact ⟨base, hb, Leads.began h₀ h hb⟩

/-! ## Turns -/

section Turns

variable (before after : List (Fiber Engine (Except Fault WorkflowRun)))

theorem leads_of_evolves {e e' : Engine} {p p' : Fiber Engine (Except Fault WorkflowRun)}
    (h : Fiber.Evolves (fun _ _ => False) p e p' e') :
    Leads home ⟨e, before ++ p :: after⟩ ⟨e', before ++ p' :: after⟩ := by
  induction h with
  | refl => exact .refl
  | move _ hm ih => exact ih.tail (.move hm)
  | other _ ho => exact ho.elim

/-- The rest of the runs after one of them was polled. -/
def rest : Progress Engine (Except Fault WorkflowRun) → Situation
  | .waiting p e => ⟨e, before ++ p :: after⟩
  | .done _ e | .aborted _ e => ⟨e, before ++ after⟩

theorem leads_poll (p : Fiber Engine (Except Fault WorkflowRun)) (e : Engine) :
    Leads home ⟨e, before ++ p :: after⟩ (rest before after (p.poll e)) := by
  have harrives : Fiber.Arrives (fun _ _ => False) p e (p.poll e) := Fiber.arrives_poll p e
  cases hp : p.poll e with
  | waiting p' e' =>
    rw [hp] at harrives
    exact leads_of_evolves before after harrives
  | done r e' =>
    rw [hp] at harrives
    exact (leads_of_evolves before after harrives).tail .drop
  | aborted message e' =>
    rw [hp] at harrives
    obtain ⟨q, t, hq, hc⟩ := harrives
    exact (leads_of_evolves before after hq).tail (.crash hc)

end Turns

/-- A turn of one of the runs under way, which leaves when it has ended. -/
def turn (s : Situation) (i : Nat) : Situation :=
  match s.tasks[i]? with
  | none => s
  | some p => rest (s.tasks.take i) (s.tasks.drop (i + 1)) (p.poll s.engine)

/-- Every turn is made of steps. -/
theorem leads_turn (s : Situation) (i : Nat) : Leads home s (s.turn i) := by
  obtain ⟨e, tasks⟩ := s
  unfold turn
  cases hi : tasks[i]? with
  | none => simpa [hi] using ReflTransGen.refl
  | some p =>
    obtain ⟨hlt, hget⟩ := List.getElem?_eq_some_iff.1 hi
    have htasks : tasks = tasks.take i ++ p :: tasks.drop (i + 1) := by
      rw [← hget, List.getElem_cons_drop, List.take_append_drop]
    have hl : Leads home ⟨e, tasks.take i ++ p :: tasks.drop (i + 1)⟩ _ := leads_poll _ _ p e
    rwa [← htasks] at hl

/-- Time passes. -/
def pass (s : Situation) (ms : Nat) : Situation :=
  { s with engine := { s.engine with now := s.engine.now + ms } }

theorem leads_pass (s : Situation) (ms : Nat) : Leads home s (s.pass ms) :=
  .single (.other ⟨rfl, fun _ _ => rfl, Nat.le_refl _, rfl, Nat.le_refl _⟩)

/-- A workflow that sets a key after a while. -/
private def setter (key : String) (ms : Nat) : Workflow where
  id := "setter"
  name := "setter"
  plan := .function fun _ _ =>
    .sleep ms (.change (·.insert key (.str key)) (.finish (.text key)))
  slot := ⟨0⟩

private def start : Situation where
  engine :=
    { start := ⟨0, 0⟩
      states := ⟨[∅]⟩
      tokens := ⟨[{}]⟩
      slots := ⟨[{ id := "session", state := ⟨0⟩ }]⟩ }

/-- Both runs are under way. -/
private def started : Situation where
  engine := start.engine
  tasks := [(setter "a" 2).run {} ⟨0⟩, (setter "b" 1).run {} ⟨0⟩]

private theorem leads_started : Leads (setter "a" 2) start started := by
  have hfirst : (setter "a" 2).Shares (setter "a" 2) := ⟨rfl, rfl⟩
  have hsecond : (setter "a" 2).Shares (setter "b" 1) := ⟨rfl, rfl⟩
  exact .tail (.single (.run hfirst {} ⟨0⟩)) (.run hsecond {} ⟨0⟩)

/-- The run that starts last ends first. -/
private def overlapped : Situation :=
  (((((started.turn 0).turn 1).pass 1).turn 1).pass 1).turn 0

private theorem leads_overlapped : Leads (setter "a" 2) start overlapped :=
  leads_started.trans <| (leads_turn started 0).trans <| (leads_turn _ 1).trans <|
    (leads_pass _ 1).trans <| (leads_turn _ 1).trans <| (leads_pass _ 1).trans (leads_turn _ 0)

/-- Two overlapping runs of workflows on one session both leave their change. -/
theorem committed_of_two_runs :
    overlapped.engine.journal.completions.length = 2 ∧
    (committed (setter "a" 2) overlapped).keys = ["a", "b"] ∧
    (Idle (setter "a" 2) start ∧ Leads (setter "a" 2) start overlapped) ∧
    ∃ origin, Origin (setter "a" 2) start overlapped origin ∧
      committed (setter "a" 2) overlapped =
        origin.mergeAll overlapped.engine.journal.completions := by
  have hidle : Idle (setter "a" 2) start := ⟨rfl, rfl, by decide, by decide⟩
  have hlength : overlapped.engine.journal.completions.length = 2 := by decide +kernel
  refine ⟨hlength, by decide +kernel, ⟨hidle, leads_overlapped⟩, ?_⟩
  rcases (committed_of_leads hidle leads_overlapped).1 with ⟨-, -, hnone⟩ | ⟨-, origin, ho, hc, -⟩
  · rw [hnone] at hlength
    cases hlength
  · exact ⟨origin, ho, hc⟩

end Situation

end WorkflowEngine
