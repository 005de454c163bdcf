import WorkflowEngine.Proofs.Session.Overlap
import WorkflowEngine.Proofs.Session.Points
import WorkflowEngine.Proofs.Workflow.Writes

/-!
# Deeds on a session

What may happen to a session that a workflow shares with its clones, in any order: runs start and
move, sessions are renamed, left for new ones or changed for others, and runs are aborted. Every run
keeps its place among those that were started. Main statement: what happens is followed, deed by
deed, by the points at which the runs stand.
-/

namespace WorkflowEngine

open Workflow

/-- What everyone else may do to the engine: anything but touch the session, the states in use, the
journal and the store, or take back an identifier. -/
structure Workflow.Aside (home : Workflow) (e e' : Engine) : Prop extends home.Apart e e' where
  stores : ∀ store, home.store = some store → e'.stores.get? store = e.stores.get? store

theorem Workflow.Aside.get_store {home : Workflow} {e e' : Engine} {store : Ref Store}
    (h : home.Aside e e') (hstore : home.store = some store) :
    e'.stores.get store = e.stores.get store := by
  rw [Pool.get, Pool.get, h.stores store hstore]

namespace Situation

/-- What a deed is to the session. -/
inductive Kind where
  /-- A run starts or goes on, or others act. -/
  | work
  | abort
  | rename
  /-- A new session begins. -/
  | fresh
  /-- The session is changed for one with an identifier. -/
  | attach (sessionId : String)

/-- What may happen to the session. -/
inductive Deed (home : Workflow) : Kind → Situation → Situation → Prop
  | run {s : Situation} {w : Workflow} (hw : home.Shares w) (input : ExecutionInput)
      (token : Ref CancelToken) :
      Deed home .work s { s with tasks := s.tasks ++ [w.run input token] }
  | stream {s : Situation} {w : Workflow} (hw : home.Shares w) (input : ExecutionInput)
      (token : Ref CancelToken) (feed : Ref Feed) :
      Deed home .work s ⟨s.engine.freshId.2,
        s.tasks ++ [w.executeRun input s.engine.freshId.1 token (some feed)]⟩
  | spawn {s : Situation} {w : Workflow} {runId : String} {e : Engine} (hw : home.Shares w)
      (input : ExecutionInput) (token : Ref CancelToken)
      (h : w.announceRun s.engine = (.ok runId, e)) :
      Deed home .work s ⟨e, s.tasks ++ [w.executeRun input runId token none]⟩
  | refuse {s : Situation} {w : Workflow} {fault : Fault} {e : Engine} (hw : home.Shares w)
      (h : w.announceRun s.engine = (.error fault, e)) : Deed home .work s { s with engine := e }
  | move {e e' : Engine} {p p' : Fiber Engine (Except Fault WorkflowRun)}
      {before after : List (Fiber Engine (Except Fault WorkflowRun))}
      (hm : Fiber.Moves p e p' e') :
      Deed home .work ⟨e, before ++ p :: after⟩ ⟨e', before ++ p' :: after⟩
  | other {s : Situation} {e : Engine} (h : home.Aside s.engine e) :
      Deed home .work s { s with engine := e }
  | abort {e e' : Engine} {p : Fiber Engine (Except Fault WorkflowRun)}
      {before after : List (Fiber Engine (Except Fault WorkflowRun))} {message : String}
      (hc : Fiber.Crashes p e e') :
      Deed home .abort ⟨e, before ++ p :: after⟩ ⟨e', before ++ .abort message :: after⟩
  | rename {s : Situation} {store : Ref Store} (hs : home.store = some store)
      (sessionId name : String) :
      Deed home .rename s { s with engine := (s.engine.renameSession store sessionId name).2 }
  | fresh {s : Situation} {w : Workflow} (hw : home.Shares w) :
      Deed home .fresh s { s with engine := (w.newSession s.engine).2 }
  | attach {s : Situation} {w : Workflow} (hw : home.Shares w) (sessionId : String) :
      Deed home (.attach sessionId) s { s with engine := w.attach sessionId s.engine }

end Situation

namespace Workflow

open Situation (Kind)

/-- What is called from outside of the runs, with the points of the runs that start by it. -/
inductive Call (home : Workflow) : Kind → Engine → List Point → Engine → Prop
  | run {e : Engine} : Call home .work e [.called] e
  | stream {e : Engine} : Call home .work e [.entering e.freshId.1] e.freshId.2
  | spawn {e e' : Engine} {w : Workflow} {runId : String} (hw : home.Shares w)
      (h : w.announceRun e = (.ok runId, e')) : Call home .work e [.entering runId] e'
  | refuse {e e' : Engine} {w : Workflow} {fault : Fault} (hw : home.Shares w)
      (h : w.announceRun e = (.error fault, e')) : Call home .work e [] e'
  | other {e e' : Engine} (h : home.Aside e e') : Call home .work e [] e'
  | rename {e : Engine} {store : Ref Store} (hs : home.store = some store)
      (sessionId name : String) :
      Call home .rename e [] (e.renameSession store sessionId name).2
  | fresh {e : Engine} : Call home .fresh e [] (home.newSession e).2
  | attach {e : Engine} (sessionId : String) :
      Call home (.attach sessionId) e [] (home.attach sessionId e)

/-- What happens to the engine and to the points of the runs. -/
inductive Turn (home : Workflow) : Kind → Engine → List Point → Engine → List Point → Prop
  | call {kind : Kind} {e e' : Engine} {points started : List Point}
      (h : home.Call kind e started e') : Turn home kind e points e' (points ++ started)
  | pass {e e' : Engine} {point point' : Point} {before after : List Point}
      (h : home.Passes point e point' e') :
      Turn home .work e (before ++ point :: after) e' (before ++ point' :: after)
  | abort {e e' : Engine} {point : Point} {before after : List Point} (h : Aborts point e e') :
      Turn home .abort e (before ++ point :: after) e' (before ++ .aborted :: after)

theorem Shares.newSession {home w : Workflow} (hw : home.Shares w) (e : Engine) :
    w.newSession e = home.newSession e := by
  unfold Workflow.newSession modifySession
  rw [hw.1]

theorem Shares.attach {home w : Workflow} (hw : home.Shares w) (sessionId : String) (e : Engine) :
    w.attach sessionId e = home.attach sessionId e := by
  unfold Workflow.attach modifySession
  rw [hw.1]

end Workflow

namespace Situation

variable {home : Workflow} {kind : Kind} {s s' : Situation} {points : List Point}

/-- The runs stand at points. -/
abbrev Stand (home : Workflow) (points : List Point) (s : Situation) : Prop :=
  List.Forall₂ home.At points s.tasks

theorem Stand.split {e : Engine} {p : Fiber Engine (Except Fault WorkflowRun)}
    {before after : List (Fiber Engine (Except Fault WorkflowRun))}
    (h : Stand home points ⟨e, before ++ p :: after⟩) :
    ∃ before' point after', points = before' ++ point :: after' ∧ home.At point p ∧
      ∀ e' point' p', home.At point' p' →
        Stand home (before' ++ point' :: after') ⟨e', before ++ p' :: after⟩ := by
  have hb := List.forall₂_take_append points before (p :: after) h
  have hrest := List.forall₂_drop_append points before (p :: after) h
  obtain ⟨point, after', hp, ha, hsplit⟩ := List.forall₂_cons_right_iff.1 hrest
  refine ⟨points.take before.length, point, after', ?_, hp, fun _ _ _ hp' => ?_⟩
  · rw [← hsplit, List.take_append_drop]
  · exact List.rel_append hb (.cons hp' ha)

theorem Stand.getElem? {point : Point} {i : Nat}
    (h : Stand home points s) (hi : points[i]? = some point) :
    ∃ p, s.tasks[i]? = some p ∧ home.At point p := by
  obtain ⟨hlt, rfl⟩ := List.getElem?_eq_some_iff.1 hi
  have hlt' : i < s.tasks.length := h.length_eq ▸ hlt
  exact ⟨_, List.getElem?_eq_getElem hlt', h.get hlt hlt'⟩

theorem Stand.point_of_task {p : Fiber Engine (Except Fault WorkflowRun)} {i : Nat}
    (h : Stand home points s) (hi : s.tasks[i]? = some p) :
    ∃ point, points[i]? = some point ∧ home.At point p := by
  obtain ⟨hlt, rfl⟩ := List.getElem?_eq_some_iff.1 hi
  have hlt' : i < points.length := h.length_eq ▸ hlt
  exact ⟨_, List.getElem?_eq_getElem hlt', h.get hlt' hlt⟩

theorem Stand.point_of_mem {p : Fiber Engine (Except Fault WorkflowRun)}
    (h : Stand home points s) (hp : p ∈ s.tasks) : ∃ point ∈ points, home.At point p := by
  obtain ⟨i, hi⟩ := List.mem_iff_getElem?.1 hp
  obtain ⟨point, hpoint, hat⟩ := h.point_of_task hi
  exact ⟨point, List.mem_of_getElem? hpoint, hat⟩

/-- Whatever happens, the points of the runs follow. -/
theorem Deed.turn (h : Deed home kind s s') (hp : Stand home points s) :
    ∃ points', home.Turn kind s.engine points s'.engine points' ∧ Stand home points' s' := by
  have hadd {p : Fiber Engine (Except Fault WorkflowRun)} {point : Point}
      (hat : home.At point p) : List.Forall₂ home.At (points ++ [point]) (s.tasks ++ [p]) :=
    List.rel_append hp (.cons hat .nil)
  have hnone {e : Engine} (h : home.Call kind s.engine [] e) :
      ∃ points', home.Turn kind s.engine points e points' ∧
        Stand home points' { s with engine := e } :=
    ⟨points ++ [], .call h, by rwa [List.append_nil]⟩
  cases h with
  | run hw input token => exact ⟨_, .call .run, hadd (.called hw)⟩
  | stream hw input token feed => exact ⟨_, .call .stream, hadd (.entering hw)⟩
  | spawn hw input token h => exact ⟨_, .call (.spawn hw h), hadd (.entering hw)⟩
  | refuse hw h => exact hnone (.refuse hw h)
  | move hm =>
    obtain ⟨before', point, after', rfl, hpoint, hnext⟩ := hp.split
    obtain ⟨point', hpass, hpoint'⟩ := hpoint.moves hm
    exact ⟨_, .pass hpass, hnext _ _ _ hpoint'⟩
  | other h => exact hnone (.other h)
  | abort hc =>
    obtain ⟨before', point, after', rfl, hpoint, hnext⟩ := hp.split
    exact ⟨_, .abort (hpoint.crashes hc), hnext _ _ _ .aborted⟩
  | rename hs sessionId name => exact hnone (.rename hs sessionId name)
  | fresh hw => exact hnone (hw.newSession s.engine ▸ .fresh)
  | attach hw sessionId => exact hnone (hw.attach sessionId s.engine ▸ .attach sessionId)

/-- Runs start and go on, and others act. -/
abbrev Works (home : Workflow) : Situation → Situation → Prop :=
  Relation.ReflTransGen (Deed home .work)

theorem works_of_evolves {e e' : Engine} {p p' : Fiber Engine (Except Fault WorkflowRun)}
    (before after : List (Fiber Engine (Except Fault WorkflowRun)))
    (h : Fiber.Evolves (fun _ _ => False) p e p' e') :
    Works home ⟨e, before ++ p :: after⟩ ⟨e', before ++ p' :: after⟩ := by
  induction h with
  | refl => exact .refl
  | move _ hm ih => exact ih.tail (.move hm)
  | other _ ho => exact ho.elim

/-- A turn of one of the runs, which keeps its place. -/
def go (s : Situation) (i : Nat) : Situation :=
  match s.tasks[i]? with
  | none => s
  | some p =>
    match p.poll s.engine with
    | .waiting p' e => ⟨e, s.tasks.take i ++ p' :: s.tasks.drop (i + 1)⟩
    | .done r e => ⟨e, s.tasks.take i ++ .done r :: s.tasks.drop (i + 1)⟩
    | .aborted _ _ => s

/-- Every turn is made of deeds. -/
theorem works_go (s : Situation) (i : Nat) : Works home s (s.go i) := by
  obtain ⟨e, tasks⟩ := s
  unfold go
  cases hi : tasks[i]? with
  | none => simpa [hi] using Relation.ReflTransGen.refl
  | some p =>
    obtain ⟨hlt, hget⟩ := List.getElem?_eq_some_iff.1 hi
    have htasks : tasks = tasks.take i ++ p :: tasks.drop (i + 1) := by
      rw [← hget, List.getElem_cons_drop, List.take_append_drop]
    have hturn (p' : Fiber Engine (Except Fault WorkflowRun)) (e' : Engine)
        (h : Fiber.Evolves (fun _ _ => False) p e p' e') :
        Works home ⟨e, tasks⟩ ⟨e', tasks.take i ++ p' :: tasks.drop (i + 1)⟩ := by
      have hw : Works home ⟨e, tasks.take i ++ p :: tasks.drop (i + 1)⟩ _ :=
        works_of_evolves _ _ h
      rwa [← htasks] at hw
    dsimp only
    cases hp : p.poll e with
    | waiting p' e' => exact hturn p' e' (Fiber.evolves_of_poll_waiting hp)
    | done r e' => exact hturn (.done r) e' (Fiber.evolves_of_poll_done hp)
    | aborted message e' => exact .refl

theorem works_pass (s : Situation) (ms : Nat) : Works home s (s.pass ms) :=
  .single (.other { slot := rfl, states := fun _ _ => rfl, size := Nat.le_refl _, journal := rfl,
                    generated := Nat.le_refl _, stores := fun _ _ => rfl })

end Situation

end WorkflowEngine
