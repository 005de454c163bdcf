import WorkflowEngine.Proofs.Session.Marks
import WorkflowEngine.Proofs.Session.Memory

/-!
# Announced runs

A run in the background is announced in one session and begins in the one that is at hand when its
fiber moves first, with anything in between. Main statement: it is kept in these two sessions and in
no other, as pending in the first unless both are one, and with its outcome in the second.
-/

namespace WorkflowEngine

namespace Workflow

open Situation (Kind)

variable {home w : Workflow} {e e' : Engine} {id runId announced : String} {kind : Kind}
  {points points' : List Point} {point point' : Point}

/-- A step of another run leaves what is kept of a run. -/
theorem Passes.status_of_other (h : home.Passes point e point' e') (hs : home.Serves e)
    (ha : (home.storeOf e').Answers) (hne : point.runId? ≠ some runId) :
    (home.storeOf e').Filed ∧ ∀ id, home.status? id runId e' = home.status? id runId e := by
  have hun (hun : home.Unmarked e e') : (home.storeOf e').Filed ∧
      ∀ id, home.status? id runId e' = home.status? id runId e :=
    ⟨hun.filed, fun id => hun.status id runId⟩
  cases h with
  | call => exact hun (hs.unmarked_of_stores rfl)
  | refuse hp => exact hun (hs.prepareSession hp).1
  | enter hp => exact hun (hs.prepareSession hp).1
  | begin hw hb =>
    obtain ⟨-, -, hrun, -, -, hmarked⟩ := hs.beginRun hw hb ha
    exact ⟨hmarked.filed, hmarked.status_ne fun heq => hne (congrArg some (heq.trans hrun).symm)⟩
  | work ht => exact hun (hs.unmarked_of_stores ht.stores)
  | leave hw hrun hterminal =>
    have hmarked := hs.endRun hw _ _ _ _ _ ha
    exact ⟨hmarked.filed,
      hmarked.status_ne fun heq => hne (congrArg some (heq.trans hrun.runId).symm)⟩
  | tell ht => exact hun (hs.unmarked_of_stores ht.stores)

/-- A call from outside leaves what is kept of a run, unless it announces that run. -/
theorem Call.status {started : List Point} (h : home.Call kind e started e') (hs : home.Serves e)
    (ha : (home.storeOf e').Answers) (hfresh : ¬ Fresh e e' none (some runId)) :
    (home.storeOf e').Filed ∧ ∀ id, home.status? id runId e' = home.status? id runId e := by
  have hun (hun : home.Unmarked e e') : (home.storeOf e').Filed ∧
      ∀ id, home.status? id runId e' = home.status? id runId e :=
    ⟨hun.filed, fun id => hun.status id runId⟩
  cases h with
  | run => exact hun (hs.unmarked rfl)
  | stream => exact hun (hs.unmarked_of_stores rfl)
  | spawn hw h =>
    obtain ⟨-, ⟨⟨fault, hr⟩, -⟩ | ⟨_, now, hr, hmarked⟩⟩ := hs.announceRun hw h ha
    · cases hr
    · cases hr
      exact ⟨hmarked.filed, hmarked.status_ne fun heq => hfresh (heq ▸ hw.fresh_announceRun h)⟩
  | refuse hw h =>
    obtain ⟨-, ⟨-, hunmarked⟩ | ⟨_, now, hr, -⟩⟩ := hs.announceRun hw h ha
    · exact hun hunmarked
    · cases hr
  | other ho =>
    obtain ⟨store, hstore, -⟩ := hs.ref
    refine hun (hs.unmarked ?_)
    rw [storeOf_eq hstore, storeOf_eq hstore, ho.get_store hstore]
  | rename hstore sessionId name => exact hun (hs.renameSession hstore sessionId name ha)
  | fresh => exact hun (hs.unmarked_of_stores rfl)
  | attach sessionId => exact hun (hs.unmarked_of_stores rfl)

private theorem not_fresh {n : Nat} (h : n < e.generated ∨ e'.generated ≤ n) :
    ¬ Fresh e e' none (some (Ident.ofNat n)) := by
  intro hfresh
  obtain ⟨m, hm, hlt, heq⟩ := (hfresh _ rfl).resolve_left nofun
  have := Ident.ofNat_injective heq
  omega

private theorem getElem?_of_ne {α : Type*} {before after : List α} {a b : α} {i : Nat}
    (hne : i ≠ before.length) (hi : (before ++ b :: after)[i]? = some a) :
    a ∈ before ++ after ∧ ∀ c, (before ++ c :: after)[i]? = some a := by
  rcases Nat.lt_or_gt_of_ne hne with hlt | hgt
  · rw [List.getElem?_append_left hlt] at hi
    exact ⟨List.mem_append_left _ (List.mem_of_getElem? hi),
      fun c => (List.getElem?_append_left hlt).trans hi⟩
  · obtain ⟨k, rfl⟩ := Nat.exists_eq_add_of_lt hgt
    have hk : before.length + k + 1 - before.length = k + 1 := by omega
    rw [List.getElem?_append_right (by omega), hk, List.getElem?_cons_succ] at hi
    refine ⟨List.mem_append_right _ (List.mem_of_getElem? hi), fun c => ?_⟩
    rw [List.getElem?_append_right (by omega), hk, List.getElem?_cons_succ, hi]

/-- Whatever happens, either a run passes from its point or what is kept of it stays. -/
theorem Turn.focus {i : Nat} (h : home.Turn kind e points e' points') (hk : kind ≠ .abort)
    (hs : home.Serves e) (ha : (home.storeOf e').Answers) (hd : Distinct e points)
    (hi : points[i]? = some point) (hid : point.runId? = some runId) :
    points'[i]? = some point ∧ (∀ id, home.status? id runId e' = home.status? id runId e) ∨
      kind = .work ∧ ∃ point', home.Passes point e point' e' ∧ points'[i]? = some point' := by
  cases h with
  | @call _ _ _ _ started hc =>
    obtain ⟨hlt, -⟩ := List.getElem?_eq_some_iff.1 hi
    obtain ⟨n, hn, rfl⟩ := hd.given point (List.mem_of_getElem? hi) runId hid
    exact .inl ⟨(List.getElem?_append_left hlt).trans hi,
      (hc.status hs ha (not_fresh (.inl hn))).2⟩
  | @pass _ _ q q' before after hp =>
    by_cases heq : i = before.length
    · subst heq
      have hq : q = point := by simpa using hi
      exact .inr ⟨rfl, q', hq ▸ hp, by simp⟩
    · obtain ⟨hother, hrest⟩ := getElem?_of_ne heq hi
      have hne : q.runId? ≠ some runId := fun hq => hd.others hq point hother hid
      exact .inl ⟨hrest q', (hp.status_of_other hs ha hne).2⟩
  | abort h => exact absurd rfl hk

/-- Nothing is kept of a run whose identifier is yet to be given. -/
theorem Turn.status_of_unused {n : Nat} (h : home.Turn kind e points e' points')
    (hk : kind ≠ .abort) (hs : home.Serves e) (ha : (home.storeOf e').Answers)
    (hd : Distinct e points) (hn : e'.generated ≤ n) : (home.storeOf e').Filed ∧
      ∀ id, home.status? id (Ident.ofNat n) e' = home.status? id (Ident.ofNat n) e := by
  have hn₀ := Nat.le_trans h.grows.generated hn
  cases h with
  | call hc => exact hc.status hs ha (not_fresh (.inr hn))
  | pass hp => exact hp.status_of_other hs ha (hd.ne_of_fresh (by simp) hn₀)
  | abort h => exact absurd rfl hk

/-- What is kept of a run in a session: as pending where it was announced, and its status where it
began. -/
def keptIn (announced : String) (began : Option (String × RunStatus)) (id : String) :
    Option RunStatus :=
  match began with
  | some (place, status) =>
    if id = place then some status else if id = announced then some .pending else none
  | none => if id = announced then some .pending else none

/-- What is kept of an announced run at a point on its way, with the session it began in. -/
inductive Tracked (home : Workflow) (runId announced : String) (e : Engine) :
    Option String → Point → Prop
  | waiting (h : ∀ id, home.status? id runId e = keptIn announced none id) :
      Tracked home runId announced e none (.entering runId)
  | prepared {place : String} {committed : Ref SessionState}
      (h : ∀ id, home.status? id runId e = keptIn announced none id) :
      Tracked home runId announced e (some place) (.starting runId place committed)
  | running {ctx : RunContext} {committed : Ref SessionState} {base : SessionState}
      (hid : ctx.runId = runId)
      (h : ∀ id, home.status? id runId e =
        keptIn announced (some (ctx.sessionId, .running)) id) :
      Tracked home runId announced e (some ctx.sessionId) (.working ctx committed base)
  | finished {ctx : RunContext} {run : WorkflowRun} (hid : ctx.runId = runId) (hrun : run.Of ctx)
      (hterminal : run.status.isTerminal = true)
      (h : ∀ id, home.status? id runId e =
        keptIn announced (some (ctx.sessionId, run.status)) id) :
      Tracked home runId announced e (some ctx.sessionId) (.ended ctx run)

theorem Tracked.runId? {place : Option String} (h : home.Tracked runId announced e place point) :
    point.runId? = some runId := by
  cases h with
  | waiting h => rfl
  | prepared h => rfl
  | running hid h => exact congrArg some hid
  | finished hid hrun hterminal h => exact congrArg some hid

theorem Tracked.congr {place : Option String} (h : home.Tracked runId announced e place point)
    (heq : ∀ id, home.status? id runId e' = home.status? id runId e) :
    home.Tracked runId announced e' place point := by
  cases h with
  | waiting h => exact .waiting fun id => (heq id).trans (h id)
  | prepared h => exact .prepared fun id => (heq id).trans (h id)
  | running hid h => exact .running hid fun id => (heq id).trans (h id)
  | finished hid hrun hterminal h => exact .finished hid hrun hterminal fun id => (heq id).trans (h id)

/-- A run that is marked in a session is kept there with its status, and elsewhere as before. -/
private theorem keptIn_marked {run : WorkflowRun} (hm : home.Marked run e e')
    (hid : run.runId = runId) {began : Option (String × RunStatus)}
    (hb : ∀ place status, began = some (place, status) → place = run.sessionId)
    (h : ∀ id, home.status? id runId e = keptIn announced began id) (id : String) :
    home.status? id runId e' = keptIn announced (some (run.sessionId, run.status)) id := by
  subst hid
  rw [hm.status, h]
  by_cases hsession : id = run.sessionId
  · simp [keptIn, hsession]
  · rcases began with _ | ⟨place, status⟩
    · simp [keptIn, hsession]
    · obtain rfl := hb place status rfl
      simp [keptIn, hsession]

/-- A run that passes from its point is kept as it should be. It goes over to the session at hand
in its first step. -/
theorem Tracked.passes {place : Option String} (h : home.Tracked runId announced e place point)
    (hp : home.Passes point e point' e') (hs : home.Serves e) (ha : (home.storeOf e').Answers) :
    ∃ place', home.Tracked runId announced e' (some place') point' ∧
      (place = some place' ∨ place' = home.sessionId e ∧ point = .entering runId ∧
        ∃ committed, point' = .starting runId place' committed) := by
  cases h with
  | waiting h =>
    cases hp with
    | refuse hp =>
      obtain ⟨-, -, -, committed, hr⟩ := hs.prepareSession hp
      cases hr
    | enter hp =>
      obtain ⟨hun, -, -, committed', hr⟩ := hs.prepareSession hp
      cases hr
      exact ⟨_, .prepared fun id => (hun.status id runId).trans (h id),
        .inr ⟨rfl, rfl, _, rfl⟩⟩
  | prepared h =>
    cases hp with
    | begin hw hb =>
      obtain ⟨hid, hsession, hrun, hplace, hstatus, hm⟩ := hs.beginRun hw hb ha
      subst hsession
      refine ⟨_, .running hid fun id => ?_, .inl rfl⟩
      rw [keptIn_marked hm hrun (fun _ _ heq => by cases heq) h, hplace, hstatus]
  | running hid h =>
    cases hp with
    | work ht =>
      have hun := hs.unmarked_of_stores ht.stores
      exact ⟨_, .running hid fun id => (hun.status id runId).trans (h id), .inl rfl⟩
    | leave hw hrun hterminal =>
      have hm := hs.endRun hw _ _ _ _ _ ha
      refine ⟨_, .finished hid hrun hterminal fun id => ?_, .inl rfl⟩
      rw [← hrun.sessionId] at h ⊢
      exact keptIn_marked hm (hrun.runId.trans hid)
        (fun place status heq => by cases heq; rfl) h id
  | finished hid hrun hterminal h =>
    cases hp with
    | tell ht =>
      have hun := hs.unmarked_of_stores ht.stores
      exact ⟨_, .finished hid hrun hterminal fun id => (hun.status id runId).trans (h id), .inl rfl⟩

/-- The session in which a run has begun, with its status. -/
def Point.began? : Point → Option (String × RunStatus)
  | working ctx _ _ => some (ctx.sessionId, .running)
  | ended _ run => some (run.sessionId, run.status)
  | called | entering _ | starting _ _ _ | refused | aborted => none

theorem Tracked.status {place : Option String} (h : home.Tracked runId announced e place point)
    (id : String) : home.status? id runId e = keptIn announced point.began? id := by
  cases h with
  | waiting h => exact h id
  | prepared h => exact h id
  | running hid h => exact h id
  | finished hid hrun hterminal h =>
    rw [Point.began?, hrun.sessionId]
    exact h id

theorem Tracked.place {place : Option String} (h : home.Tracked runId announced e place point) :
    ∀ began ∈ point.began?, place = some began.1 := by
  cases h with
  | waiting h => exact nofun
  | prepared h => exact nofun
  | running hid h =>
    rintro _ ⟨⟩
    rfl
  | finished hid hrun hterminal h =>
    rintro _ ⟨⟩
    rw [hrun.sessionId]

theorem Tracked.ended {place : Option String} {ctx : RunContext} {run : WorkflowRun}
    (h : home.Tracked runId announced e place (.ended ctx run)) :
    run.runId = runId ∧ run.status.isTerminal = true := by
  cases h with
  | finished hid hrun hterminal h => exact ⟨hrun.runId.trans hid, hterminal⟩

/-- A run that has gone over to a session is not over with a fault. -/
theorem Tracked.faultless {place : String} {fault : Fault}
    (h : home.Tracked runId announced e (some place) point)
    (hat : home.At point (.done (.error fault))) : False := by
  generalize hp : (Fiber.done (.error fault) : Fiber Engine (Except Fault WorkflowRun)) = p at hat
  cases h with
  | prepared h =>
    cases hat with
    | starting hw => cases hp
  | running hid h =>
    cases hat with
    | @working _ _ _ _ q A hw hq hA => cases q <;> cases hp
  | finished hid hrun hterminal h =>
    cases hat with
    | ended hrun hterminal hev =>
      rcases leaving_cases hev with rfl | rfl | ⟨f, event, -, rfl⟩ <;> cases hp

theorem InMemory.answers (h : home.InMemory e) : (home.storeOf e).Answers := by
  obtain ⟨store, records, hstore, -, hget⟩ := h
  rw [storeOf_eq hstore, hget]
  exact Store.answers_memory records

end Workflow

namespace Situation

open Relation Workflow

variable {home w : Workflow} {s₀ s₁ s s' : Situation} {runId announced : String}

/-- Anything happens but that a run is aborted, and the store answers all along. -/
abbrev Follows (home : Workflow) : Situation → Situation → Prop := ReflTransGen fun s s' =>
  (∃ kind : Kind, kind ≠ .abort ∧ Deed home kind s s') ∧ (home.storeOf s'.engine).Answers

/-- No run has started yet, and no identifier that is yet to be given is in the store. -/
structure Unstarted (home : Workflow) (s : Situation) : Prop where
  tasks : s.tasks = []
  serves : home.Serves s.engine
  unused : ∀ id n, s.engine.generated ≤ n → home.stored? id (Ident.ofNat n) s.engine = none

/-- What holds of every situation that follows. -/
structure Orderly (home : Workflow) (points : List Point) (s : Situation) : Prop where
  stand : Stand home points s
  serves : home.Serves s.engine
  distinct : Distinct s.engine points
  unused : ∀ id n, s.engine.generated ≤ n → home.status? id (Ident.ofNat n) s.engine = none

theorem Unstarted.orderly (h : Unstarted home s) : Orderly home [] s where
  stand := by
    rw [Stand, h.tasks]
    exact .nil
  serves := h.serves
  distinct := .nil
  unused := fun id n hn => by
    obtain ⟨store, hstore, -⟩ := h.serves.ref
    rw [← status_stored? hstore h.serves.answers, h.unused id n hn]
    rfl

theorem Orderly.turn {kind : Kind} {points points' : List Point} (h : Orderly home points s)
    (ht : home.Turn kind s.engine points s'.engine points') (hk : kind ≠ .abort)
    (ha : (home.storeOf s'.engine).Answers) (hstand : Stand home points' s') :
    Orderly home points' s' := by
  have hstatus {n : Nat} (hn : s'.engine.generated ≤ n) :=
    ht.status_of_unused hk h.serves ha h.distinct hn
  refine ⟨hstand, ⟨ht.grows.seated h.serves.seated, h.serves.store, ha,
    (hstatus (Nat.le_refl _)).1⟩, ht.distinct h.distinct, fun id n hn => ?_⟩
  rw [(hstatus hn).2]
  exact h.unused id n (Nat.le_trans ht.grows.generated hn)

theorem Follows.orderly {points : List Point} (h : Follows home s s')
    (h₀ : Orderly home points s) : ∃ points', Orderly home points' s' := by
  induction h with
  | refl => exact ⟨points, h₀⟩
  | tail _ hd ih =>
    obtain ⟨points, hpoints⟩ := ih
    obtain ⟨⟨kind, hk, hd⟩, ha⟩ := hd
    obtain ⟨points', ht, hstand⟩ := hd.turn hpoints.stand
    exact ⟨points', hpoints.turn ht hk ha hstand⟩

/-- A run made its first step, which took it into the session that was at hand then. -/
def BeganIn (home : Workflow) (s s' : Situation) (i : Nat) (runId place : String) : Prop :=
  ∃ s₁ s₂ p p' committed, Follows home s s₁ ∧ Deed home .work s₁ s₂ ∧ Follows home s₂ s' ∧
    s₁.tasks[i]? = some p ∧ home.At (.entering runId) p ∧
    s₂.tasks[i]? = some p' ∧ home.At (.starting runId place committed) p' ∧
    place = home.sessionId s₁.engine

/-- Nothing but a move of its own changes a task. -/
theorem Deed.task {kind : Kind} {p : Fiber Engine (Except Fault WorkflowRun)} {i : Nat}
    (h : Deed home kind s s') (hk : kind ≠ .abort) (hi : s.tasks[i]? = some p) :
    s'.tasks[i]? = some p ∨
      ∃ p', Fiber.Moves p s.engine p' s'.engine ∧ s'.tasks[i]? = some p' := by
  have hadd (q : Fiber Engine (Except Fault WorkflowRun)) : (s.tasks ++ [q])[i]? = some p :=
    (List.getElem?_append_left (List.getElem?_eq_some_iff.1 hi).1).trans hi
  cases h with
  | run hw input token => exact .inl (hadd _)
  | stream hw input token feed => exact .inl (hadd _)
  | spawn hw input token h => exact .inl (hadd _)
  | @move _ _ q q' before after hm =>
    by_cases heq : i = before.length
    · subst heq
      have hq : q = p := by simpa using hi
      exact .inr ⟨q', hq ▸ hm, by simp⟩
    · exact .inl ((getElem?_of_ne heq hi).2 q')
  | abort hc => exact absurd rfl hk
  | refuse hw h => exact .inl hi
  | other h => exact .inl hi
  | rename hs sessionId name => exact .inl hi
  | fresh hw => exact .inl hi
  | attach hw sessionId => exact .inl hi

/-- An announced run, at its place among the tasks. -/
structure Attended (home : Workflow) (runId announced : String) (i : Nat) (s₀ s : Situation)
    (points : List Point) (place : Option String) : Prop where
  orderly : Orderly home points s
  tracked : ∃ point, points[i]? = some point ∧
    home.Tracked runId announced s.engine place point
  began : ∀ place', place = some place' → BeganIn home s₀ s i runId place'
  faultless : ∀ fault, s.tasks[i]? ≠ some (.done (.error fault))

/-- Whatever happens but an abortion, an announced run goes on to be kept as it should be. -/
theorem Attended.deed {kind : Kind} {points : List Point} {place : Option String} {i : Nat}
    (h : Attended home runId announced i s₀ s points place) (hf : Follows home s₀ s)
    (hd : Deed home kind s s') (hk : kind ≠ .abort) (ha : (home.storeOf s'.engine).Answers) :
    ∃ points' place', Attended home runId announced i s₀ s' points' place' := by
  obtain ⟨points', ht, hstand⟩ := hd.turn h.orderly.stand
  have horderly := h.orderly.turn ht hk ha hstand
  have hon : ∀ place', BeganIn home s₀ s i runId place' → BeganIn home s₀ s' i runId place' := by
    rintro place' ⟨s₁, s₂, p, p', committed, h₁, hd', h₂, hrest⟩
    exact ⟨s₁, s₂, p, p', committed, h₁, hd', h₂.tail ⟨⟨kind, hk, hd⟩, ha⟩, hrest⟩
  obtain ⟨point, hi, htracked⟩ := h.tracked
  obtain ⟨p, hp, hat⟩ := h.orderly.stand.getElem? hi
  -- The task is as it was, or it moved to a point where it is not over with a fault.
  have hfaultless : ∀ fault, s'.tasks[i]? ≠ some (.done (.error fault)) := by
    intro fault hdone
    rcases hd.task hk hp with hsame | ⟨p', hm, hp'⟩
    · exact h.faultless fault (hp.trans (hsame.symm.trans hdone))
    · obtain ⟨point', hpass, hat'⟩ := hat.moves hm
      obtain ⟨place', htracked', -⟩ := htracked.passes hpass h.orderly.serves ha
      obtain rfl := Option.some.inj (hp'.symm.trans hdone)
      exact htracked'.faultless hat'
  rcases ht.focus hk h.orderly.serves ha h.orderly.distinct hi htracked.runId? with
    ⟨hi', hstatus⟩ | ⟨rfl, point', hpass, hi'⟩
  · exact ⟨points', place, horderly, ⟨point, hi', htracked.congr hstatus⟩,
      fun place' heq => hon place' (h.began place' heq), hfaultless⟩
  · obtain ⟨place', htracked', hplace⟩ := htracked.passes hpass h.orderly.serves ha
    refine ⟨points', some place', horderly, ⟨point', hi', htracked'⟩, ?_, hfaultless⟩
    rintro _ ⟨⟩
    rcases hplace with hplace | ⟨hplace, rfl, committed, rfl⟩
    · exact hon _ (h.began _ hplace)
    · obtain ⟨p', hp', hat'⟩ := hstand.getElem? hi'
      exact ⟨s, s', p, p', committed, hf, hd, .refl, hp, hat, hp', hat', hplace⟩

theorem Attended.follows {points : List Point} {place : Option String} {i : Nat}
    (h : Attended home runId announced i s₀ s₀ points place) (hf : Follows home s₀ s) :
    ∃ points' place', Attended home runId announced i s₀ s points' place' := by
  induction hf with
  | refl => exact ⟨points, place, h⟩
  | tail hf hd ih =>
    obtain ⟨points', place', hatt⟩ := ih
    obtain ⟨⟨kind, hk, hd⟩, ha⟩ := hd
    exact hatt.deed hf hd hk ha

/-- An announcement comes with a run that is kept as pending in the session at hand. -/
theorem Orderly.attended {points : List Point} {e : Engine} (h : Orderly home points s)
    (hw : home.Shares w) (ha : w.announceRun s.engine = (.ok runId, e))
    (hans : (home.storeOf e).Answers) (input : ExecutionInput) (token : Ref CancelToken) :
    Attended home runId (home.sessionId s.engine) s.tasks.length
      ⟨e, s.tasks ++ [w.executeRun input runId token none]⟩
      ⟨e, s.tasks ++ [w.executeRun input runId token none]⟩ (points ++ [.entering runId])
      none := by
  have hturn : home.Turn .work s.engine points e (points ++ [.entering runId]) :=
    .call (.spawn hw ha)
  have hstand : Stand home (points ++ [.entering runId])
      ⟨e, s.tasks ++ [w.executeRun input runId token none]⟩ :=
    List.rel_append h.stand (.cons (.entering hw) .nil)
  refine ⟨h.turn hturn (by simp) hans hstand, ⟨.entering runId, ?_, .waiting fun id => ?_⟩,
    nofun, fun fault hdone => ?_⟩
  · rw [← h.stand.length_eq]
    simp
  · obtain ⟨-, ⟨⟨fault, hr⟩, -⟩ | ⟨_, now, hr, hmarked⟩⟩ := h.serves.announceRun hw ha hans
    · cases hr
    · cases hr
      obtain ⟨n, hn, rfl⟩ :
          ∃ n, s.engine.generated ≤ n ∧ runId = Ident.ofNat n := by
        obtain ⟨n, hn, -, heq⟩ := (hw.fresh_announceRun ha _ rfl).resolve_left nofun
        exact ⟨n, hn, heq⟩
      rw [hmarked.status, h.unused id n hn]
      simp [keptIn, WorkflowRun.pending]
  · have hvalid : w.validate = .ok () := by
      unfold Workflow.announceRun at ha
      split at ha
      · cases ha
      · assumption
    rw [List.getElem?_concat_length, Workflow.executeRun, hvalid] at hdone
    cases hdone

/-- A run in the background is kept as pending in the session at hand when it is announced, and in
no other. It stays so until it begins; from then on its status is kept in the session that was at
hand at its first step, and if this is another one, then the run stays pending where it was
announced. A task that is over gives the run with its outcome, which is the one that is kept. -/
theorem kept_of_announced (h₀ : Unstarted home s₀) (h₁ : Follows home s₀ s₁) (hw : home.Shares w)
    {e : Engine} (ha : w.announceRun s₁.engine = (.ok runId, e))
    (hans : (home.storeOf e).Answers) {input : ExecutionInput} {token : Ref CancelToken}
    (h₂ : Follows home ⟨e, s₁.tasks ++ [w.executeRun input runId token none]⟩ s) :
    (∀ id, (home.stored? id runId e).map WorkflowRun.status =
      keptIn (home.sessionId s₁.engine) none id) ∧
    ∃ began : Option (String × RunStatus),
      (∀ id, (home.stored? id runId s.engine).map WorkflowRun.status =
        keptIn (home.sessionId s₁.engine) began id) ∧
      (∀ place status, began = some (place, status) →
        BeganIn home ⟨e, s₁.tasks ++ [w.executeRun input runId token none]⟩ s s₁.tasks.length
          runId place) ∧
      ∀ r, s.tasks[s₁.tasks.length]? = some (.done r) →
        ∃ run, r = .ok run ∧ run.runId = runId ∧ run.status.isTerminal = true ∧
          began = some (run.sessionId, run.status) := by
  obtain ⟨points₁, horderly⟩ := h₁.orderly h₀.orderly
  have hatt₀ := horderly.attended hw ha hans input token
  obtain ⟨store, hstore, -⟩ := hatt₀.orderly.serves.ref
  obtain ⟨points, place, hatt⟩ := hatt₀.follows h₂
  obtain ⟨point, hi, htracked⟩ := hatt.tracked
  refine ⟨fun id => ?_, point.began?, fun id => ?_, fun place' status hbegan => ?_, fun r hr => ?_⟩
  · rw [status_stored? hstore hatt₀.orderly.serves.answers]
    obtain ⟨point₀, -, htracked₀⟩ := hatt₀.tracked
    cases htracked₀ with
    | waiting h => exact h id
  · rw [status_stored? hstore hatt.orderly.serves.answers]
    exact htracked.status id
  · exact hatt.began place' (htracked.place _ hbegan)
  · obtain ⟨p, hp, hat⟩ := hatt.orderly.stand.getElem? hi
    obtain rfl := Option.some.inj (hp.symm.trans hr)
    cases r with
    | error fault => exact absurd hr (hatt.faultless fault)
    | ok run =>
      obtain ⟨ctx, rfl⟩ := hat.ended_of_done
      obtain ⟨hid, hterminal⟩ := htracked.ended
      exact ⟨run, rfl, hid, hterminal, rfl⟩

/-- A store in memory answers all along. -/
theorem follows_of_works (h : Works home s s') (hm : home.InMemory s.engine)
    (hs : home.Seated s.engine) {points : List Point} (hstand : Stand home points s) :
    Follows home s s' := by
  suffices hall : Follows home s s' ∧ home.InMemory s'.engine ∧ home.Seated s'.engine ∧
      ∃ points', Stand home points' s' from hall.1
  induction h with
  | refl => exact ⟨.refl, hm, hs, points, hstand⟩
  | tail _ hd ih =>
    obtain ⟨hf, hm, hs, points, hstand⟩ := ih
    obtain ⟨points', hturn, hstand'⟩ := hd.turn hstand
    have hm' := hm.turn hs hturn
    exact ⟨hf.tail ⟨⟨.work, nofun, hd⟩, hm'.answers⟩, hm', hturn.grows.seated hs, points', hstand'⟩

/-- A workflow that gives a text at once. -/
private def errand : Workflow where
  id := "errand"
  name := "errand"
  plan := .function fun _ _ => .finish (.text "done")
  store := some ⟨0⟩
  slot := ⟨0⟩

private def idle : Situation where
  engine :=
    { start := ⟨0, 0⟩
      states := ⟨[∅]⟩
      tokens := ⟨[{}]⟩
      slots := ⟨[{ id := "session", state := ⟨0⟩ }]⟩
      stores := ⟨[.memory ∅]⟩ }

private def sent : Situation :=
  ⟨(errand.announceRun idle.engine).2, [errand.executeRun {} (Ident.ofNat 0) ⟨0⟩ none]⟩

/-- A new session begins after the run was announced. -/
private def moved : Situation := { sent with engine := (errand.newSession sent.engine).2 }

private def back : Situation := moved.go 0

private theorem unstarted_idle : Unstarted errand idle := by
  refine ⟨rfl, ⟨⟨by decide, by decide, ?_⟩, rfl, Store.answers_memory ∅, ?_⟩, fun id n hn => rfl⟩
  · rintro store ⟨⟩
    decide
  · exact fun id held h => nomatch h

private theorem announce_idle :
    errand.announceRun idle.engine = (.ok (Ident.ofNat 0), sent.engine) := rfl

private theorem follows_back : Follows errand sent back := by
  have hat : Stand errand [.entering (Ident.ofNat 0)] moved := .cons (.entering ⟨rfl, rfl⟩) .nil
  have hmemory : errand.InMemory moved.engine := ⟨⟨0⟩, _, rfl, by decide, rfl⟩
  have hseated : errand.Seated moved.engine := by
    refine ⟨by decide, by decide, ?_⟩
    rintro store ⟨⟩
    decide
  have hfresh : Follows errand sent moved :=
    .single ⟨⟨.fresh, nofun, .fresh ⟨rfl, rfl⟩⟩, hmemory.answers⟩
  exact hfresh.trans (follows_of_works (works_go moved 0) hmemory hseated hat)

/-- A run that was announced before a new session began is kept as pending in the first session,
and with its outcome in the second. -/
theorem left_pending : Unstarted errand idle ∧
    errand.announceRun idle.engine = (.ok (Ident.ofNat 0), sent.engine) ∧
    Follows errand sent back ∧
    (∃ run, back.tasks = [.done (.ok run)] ∧ run.runId = Ident.ofNat 0 ∧
      run.status = .completed ∧ run.sessionId ≠ errand.sessionId idle.engine) ∧
    ((errand.stored? (errand.sessionId idle.engine) (Ident.ofNat 0) back.engine).map
      WorkflowRun.status) = some .pending ∧
    ((errand.stored? (errand.sessionId back.engine) (Ident.ofNat 0) back.engine).map
      WorkflowRun.status) = some .completed := by
  refine ⟨unstarted_idle, announce_idle, follows_back, ?_, by decide +kernel, by decide +kernel⟩
  exact ⟨_, rfl, by decide +kernel, by decide +kernel, by decide +kernel⟩

/-- What is kept of it in any session. -/
theorem kept_of_announced_errand : Unstarted errand idle ∧
    errand.announceRun idle.engine = (.ok (Ident.ofNat 0), sent.engine) ∧
    Follows errand sent back ∧ ∃ began,
      (∀ id, (errand.stored? id (Ident.ofNat 0) back.engine).map WorkflowRun.status =
        keptIn "session" began id) ∧
      began = some (Ident.ofNat 1, .completed) := by
  have hback : Follows errand ⟨sent.engine,
      idle.tasks ++ [errand.executeRun {} (Ident.ofNat 0) ⟨0⟩ none]⟩ back := follows_back
  obtain ⟨-, began, hkept, -, hdone⟩ := kept_of_announced unstarted_idle .refl ⟨rfl, rfl⟩
    announce_idle (Store.answers_memory _) hback
  obtain ⟨run, hrun, -, -, hbegan⟩ := hdone _ rfl
  cases hrun
  exact ⟨unstarted_idle, announce_idle, follows_back, began, hkept, hbegan⟩

end Situation

end WorkflowEngine
