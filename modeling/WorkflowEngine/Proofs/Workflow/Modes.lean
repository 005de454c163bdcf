import WorkflowEngine.Executor.Ready
import WorkflowEngine.Proofs.Workflow.Hosted

/-!
# Modes of runs

The ways in which a run can be called for: its caller awaits it, has it awaited on a host of its own, waits
for it while it goes on in the background, or follows its stream for as long as the caller likes. Main
statement: whatever the mode, the run of a modeless workflow comes to the same, apart from all times, and
leaves the same session.
-/

namespace WorkflowEngine

open Host Fiber

/-- How a run is called for. -/
inductive Mode where
  /-- Its caller awaits it, -/
  | awaited
  /-- or awaits it on a host of its own, -/
  | blocking
  /-- or has it go on in the background and waits for its outcome, -/
  | spawned
  /-- or follows its stream. -/
  | streamed (reader : Reader)

namespace Executor.Modeless

variable {r : Realm}

theorem streaming (r : Realm) (name : String) (chunks : List String) :
    (Executor.streaming name chunks).Modeless r where
  call input c := trivial
  stream input c := by
    unfold Executor.streaming
    dsimp only
    generalize String.join chunks = text
    induction chunks with
    | nil => trivial
    | cons chunk rest ih => exact ih
  untimed input c := rfl
  streams input c v := by
    unfold Executor.streaming
    dsimp only
    generalize String.join chunks = text
    induction chunks with
    | nil => rfl
    | cons chunk rest ih => exact ih

theorem stateWriter {key : String} (h : r.writes key) (name : String) (value : Json) :
    (Executor.stateWriter name key value).Modeless r := by
  refine .of_call (fun input c => ⟨fun s other ho => ?_, fun s s' hs other ho => ?_, trivial⟩)
    (fun _ _ => rfl) fun _ _ => rfl
  · rw [SessionState.get?_insert, if_neg fun he : other = key => ho (he ▸ h)]
  · rw [SessionState.get?_insert, SessionState.get?_insert]
    split
    · rfl
    · exact hs other (.inr ho)

end Executor.Modeless

namespace Workflow

/-- How a run comes out in a number of rounds of its host, and the engine that it leaves. -/
def comesOut (w : Workflow) (input : ExecutionInput) (rounds : Nat) :
    Mode → Engine → Awaited (Except Fault WorkflowRun) × Engine
  | .awaited, e =>
    let (token, e) := e.addToken
    let (r, h) := Host.await { engine := e } (w.run input token) rounds
    (r, h.engine)
  | .blocking, e => Host.runBlocking false w input e rounds
  | .spawned, e =>
    match Host.spawn { engine := e } w input with
    | (.error fault, h) => (.done (.error fault), h.engine)
    | (.ok run, h) =>
      let (r, h) := h.await run.wait rounds
      (r, h.engine)
  | .streamed reader, e =>
    match Host.stream { engine := e } w input with
    | (.aborted message, h) => (.aborted message, h.engine)
    | (.stuck, h) => (.stuck, h.engine)
    | (.done s, h) =>
      let (r, h) := h.await (s.follow reader) rounds
      (r, h.engine)

/-- In enough rounds, a run comes out so. -/
def ComesTo (w : Workflow) (input : ExecutionInput) (mode : Mode) (e : Engine)
    (r : Except Fault WorkflowRun) (f : Engine) : Prop :=
  ∃ enough, ∀ rounds, enough ≤ rounds → w.comesOut input rounds mode e = (.done r, f)

/-- While a run is under way nobody cancels it, nothing is aborted and no time limit is hit. -/
def Undisturbed (w : Workflow) (input : ExecutionInput) : Mode → Engine → Prop
  | .awaited, e | .blocking, e =>
    Calm (fun d => d.isCancelled e.addToken.1) (w.run input e.addToken.1) { engine := e.addToken.2 }
  | .spawned, e => ∀ run h, Host.spawn { engine := e } w input = (.ok run, h) →
    Calm (fun d => d.isCancelled run.token) run.wait h
  | .streamed reader, e => ∀ s h, Host.stream { engine := e } w input = (.done s, h) →
    Calm (fun d => d.isCancelled s.token) (s.follow reader) h

/-- Whether a run comes out within a number of rounds in which nothing is disturbed. -/
def undisturbedWithin (w : Workflow) (input : ExecutionInput) (rounds : Nat) : Mode → Engine → Bool
  | .awaited, e | .blocking, e =>
    calmWithin (fun d => d.isCancelled e.addToken.1) rounds (w.run input e.addToken.1)
      { engine := e.addToken.2 }
  | .spawned, e =>
    match Host.spawn { engine := e } w input with
    | (.ok run, h) => calmWithin (fun d => d.isCancelled run.token) rounds run.wait h
    | (.error _, _) => true
  | .streamed reader, e =>
    match Host.stream { engine := e } w input with
    | (.done s, h) => calmWithin (fun d => d.isCancelled s.token) rounds (s.follow reader) h
    | (.aborted _, _) | (.stuck, _) => true

variable {w : Workflow} {input : ExecutionInput} {e f : Engine} {P : Store → Prop} {mode : Mode}
  {rounds : Nat} {r : Except Fault WorkflowRun}

theorem undisturbed_of_within (h : w.undisturbedWithin input rounds mode e = true) :
    w.Undisturbed input mode e := by
  cases mode with
  | awaited | blocking => exact .of_within h
  | spawned =>
    intro run d hspawn
    rw [undisturbedWithin, hspawn] at h
    exact .of_within h
  | streamed reader =>
    intro s d hstream
    rw [undisturbedWithin, hstream] at h
    exact .of_within h

/-- What a fiber comes out with in some rounds, it comes out with in more of them. -/
private theorem await_engine {main : Fiber Engine (Except Fault WorkflowRun)} {h : Host} {more : Nat}
    (hd : ((h.await main rounds).1, (h.await main rounds).2.engine) = (.done r, f)) (hle : rounds ≤ more) :
    ((h.await main more).1, (h.await main more).2.engine) = (.done r, f) := by
  obtain ⟨hr, hf⟩ := Prod.mk.inj hd
  have hawait : h.await main rounds = (.done r, (h.await main rounds).2) := Prod.ext hr rfl
  rw [await_of_le hawait hle, hf]

/-- A run that comes out in some rounds comes to that. -/
theorem comesTo_of_comesOut (rounds : Nat) (h : w.comesOut input rounds mode e = (.done r, f)) :
    w.ComesTo input mode e r f := by
  refine ⟨rounds, fun more hle => ?_⟩
  cases mode with
  | awaited | blocking => exact await_engine h hle
  | spawned =>
    simp only [comesOut] at h ⊢
    rcases hspawn : Host.spawn { engine := e } w input with ⟨fault | run, d⟩
    · rwa [hspawn] at h
    · rw [hspawn] at h
      exact await_engine h hle
  | streamed reader =>
    simp only [comesOut] at h ⊢
    rcases hstream : Host.stream { engine := e } w input with ⟨s | message | -, d⟩
    · rw [hstream] at h
      exact await_engine h hle
    · rwa [hstream] at h
    · rwa [hstream] at h

/-- A run that is announced goes on in the background. -/
private theorem spawn_eq (input : ExecutionInput) {runId : String} {d : Engine}
    (h : w.announceRun e = (.ok runId, d)) :
    ∃ r, r.token = ⟨d.tokens.items.length⟩ ∧ r.outcome = ⟨d.outcomes.items.length⟩ ∧
      Host.spawn { engine := e } w input = (.ok r, {
        engine := { d with tokens := (d.tokens.add {}).2, outcomes := (d.outcomes.add none).2 }
        tasks := [r.task (w.executeRun input runId ⟨d.tokens.items.length⟩ none)] }) := by
  refine ⟨⟨runId, _, _⟩, rfl, rfl, ?_⟩
  unfold Host.spawn
  rw [h]
  rfl

/-- An engine on which a run with a stream was called for. -/
private def streaming (w : Workflow) (e : Engine) : Engine :=
  { e with
    tokens := (e.tokens.add {}).2
    generated := e.generated + 1
    feeds := (e.feeds.add ⟨w.eventBuffer, [], false⟩).2
    outcomes := (e.outcomes.add none).2 }

/-- A run whose feed is not too large goes on beside its reader. -/
private theorem stream_eq (input : ExecutionInput) (hmax : w.eventBuffer ≤ Feed.maxCapacity) :
    ∃ s : RunStream, s.token = ⟨e.tokens.items.length⟩ ∧ s.outcome = ⟨e.outcomes.items.length⟩ ∧
      s.feed = ⟨e.feeds.items.length⟩ ∧ Host.stream { engine := e } w input = (.done s, {
        engine := w.streaming e
        tasks := [s.task (w.executeRun input e.freshId.1 ⟨e.tokens.items.length⟩ (some s.feed))] }) := by
  refine ⟨⟨⟨e.freshId.1, _, _⟩, _⟩, rfl, rfl, rfl, ?_⟩
  unfold Host.stream
  rw [if_neg (Nat.not_lt.2 hmax)]
  rfl

private theorem roomy_streaming {f : Ref Feed} (hf : f = ⟨e.feeds.items.length⟩) (hroom : 0 < w.eventBuffer) :
    (w.streaming e).Roomy (some f) := by
  intro f' hf'
  obtain rfl : f = f' := Option.some.inj hf'
  have hget : (w.streaming e).feeds.get f = ⟨w.eventBuffer, [], false⟩ :=
    hf ▸ Pool.get_of_get? (Pool.get?_add _ _)
  rw [hget]
  exact hroom

/-- The outcome of the run is still to come. -/
private theorem pending_streaming {r : Ref Outcome} (hr : r = ⟨e.outcomes.items.length⟩) :
    (w.streaming e).outcomes.get r = none ∧ r.index < (w.streaming e).outcomes.items.length := by
  subst hr
  exact ⟨Pool.get_of_get? (Pool.get?_add _ _), by simp [streaming, Pool.add]⟩

section Results

variable (hseat : w.Seated e) (hsv : w.Accepts input e P)
  (hst : ∀ store, w.store = some store → P (e.stores.get store)) (hmode : w.Modeless)
  (hv : w.validate = .ok ())

include hseat hsv hst hmode hv

private theorem results_awaited (h : w.Undisturbed input .awaited e) :
    ∃ r f, w.ComesTo input .awaited e r f ∧ w.Results input e r f := by
  obtain ⟨rounds, r, f, hawait, hr⟩ := finishes_run hseat hsv hst hmode hv h
  exact ⟨r, f.engine, comesTo_of_comesOut rounds (congrArg (fun q => (q.1, q.2.engine)) hawait), hr⟩

private theorem results_spawned (h : w.Undisturbed input .spawned e) :
    ∃ r f, w.ComesTo input .spawned e r f ∧ w.Results input e r f := by
  obtain ⟨d, hannounce, hr, hm, hsize, htallies, htokens⟩ := announceRun_ready hseat hsv hst hv
  obtain ⟨run, htoken, houtcome, hspawn⟩ := spawn_eq input hannounce
  rw [htokens] at htoken hspawn
  have hcalm := h _ _ hspawn
  rw [htoken] at hcalm
  have hcalled : w.Called e P none { d with
      tokens := (e.tokens.add {}).2, outcomes := (d.outcomes.add none).2 } :=
    .of_ready (hr.congr rfl rfl rfl) ⟨hm.start, hm.now, hm.readings⟩ hsize htallies fun _ hf => nomatch hf
  obtain ⟨rounds, q, f, hawait, hq⟩ := ends_attending (r := run) hseat hsv hmode hv hcalled
    (.waiting fun _ hf => nomatch hf) (houtcome ▸ Pool.get_of_get? (Pool.get?_add _ _))
    (houtcome ▸ by simp [Pool.add]) hcalm
  refine ⟨q, f.engine, comesTo_of_comesOut rounds ?_, hq⟩
  simp only [comesOut, hspawn]
  exact congrArg (fun q => (q.1, q.2.engine)) hawait

private theorem results_streamed (hroom : 0 < w.eventBuffer) (hmax : w.eventBuffer ≤ Feed.maxCapacity)
    {reader : Reader} (h : w.Undisturbed input (.streamed reader) e) :
    ∃ r f, w.ComesTo input (.streamed reader) e r f ∧ w.Results input e r f := by
  obtain ⟨s, htoken, houtcome, hfeed, hstream⟩ := stream_eq input (e := e) hmax
  have hcalm := h _ _ hstream
  rw [htoken] at hcalm
  have hcalled : w.Called e P (some s.feed) (w.streaming e) :=
    .of_seated hseat hsv hst (roomy_streaming hfeed hroom)
  obtain ⟨rounds, q, f, hawait, hq⟩ := ends_attending (r := s.toBackgroundRun) hseat hsv hmode hv hcalled
    (.follows rfl reader) (pending_streaming houtcome).1 (pending_streaming houtcome).2 hcalm
  refine ⟨q, f.engine, comesTo_of_comesOut rounds ?_, hq⟩
  simp only [comesOut, hstream]
  exact congrArg (fun q => (q.1, q.2.engine)) hawait

end Results

/-- What a refused run comes to: nothing of any session is touched. -/
private def Refuses (e : Engine) (fault : Fault) (r : Except Fault WorkflowRun) (f : Engine) : Prop :=
  r = .error fault ∧ f.slots = e.slots ∧ f.states = e.states ∧ f.stores = e.stores

private theorem steady_refuses {fault : Fault} : BackgroundRun.Steady (Refuses e fault) := by
  rintro q d d' ⟨now, feeds, rfl, -⟩ h
  exact h

private theorem refuses_streamed {fault : Fault} (hv : w.validate = .error fault) (hroom : 0 < w.eventBuffer)
    (hmax : w.eventBuffer ≤ Feed.maxCapacity) (reader : Reader) :
    ∃ r f, w.ComesTo input (.streamed reader) e r f ∧ Refuses e fault r f := by
  obtain ⟨s, htoken, houtcome, hfeed, hstream⟩ := stream_eq input (e := e) hmax
  rw [executeRun_refused hv] at hstream
  obtain ⟨hpending, hplaced⟩ := pending_streaming (w := w) houtcome
  obtain ⟨m, d, hpoll, hreads, hm⟩ := (BackgroundRun.Attends.follows rfl reader).poll_pending hpending
    (roomy_streaming hfeed hroom)
  have hround : Host.round (s.follow reader) ⟨w.streaming e, [s.task (.done (.error fault))]⟩ =
      afterTurns m [] (BackgroundRun.settle s.outcome (.error fault) d) := by
    rw [Host.round, hpoll]
    rfl
  have hsettled : s.Settled (some s.feed) m (.error fault)
      (BackgroundRun.settle s.outcome (.error fault) d) := by
    refine ⟨Pool.get_set_self ?_ _, hreads.idles.roomy (roomy_streaming hfeed hroom),
      hm.keep fun _ hc => hc⟩
    rw [hreads.outcomes]
    exact hplaced
  have hrefuses : Refuses e fault (.error fault) (BackgroundRun.settle s.outcome (.error fault) d) := by
    obtain ⟨feeds, rfl, -⟩ := hreads
    exact ⟨rfl, rfl, rfl, rfl⟩
  obtain ⟨rounds, r, f, hawait, hr⟩ := hsettled.ends steady_refuses hrefuses hround
  refine ⟨r, f.engine, comesTo_of_comesOut rounds ?_, hr⟩
  simp only [comesOut, hstream]
  exact congrArg (fun q => (q.1, q.2.engine)) hawait

/-- Whatever the mode, an invalid workflow is refused. -/
private theorem refuses_comesOut (input : ExecutionInput) {fault : Fault} (hv : w.validate = .error fault)
    (hroom : 0 < w.eventBuffer) (hmax : w.eventBuffer ≤ Feed.maxCapacity) (mode : Mode) :
    ∃ r f, w.ComesTo input mode e r f ∧ Refuses e fault r f := by
  have hrun (token : Ref CancelToken) (e : Engine) :
      Host.await { engine := e } (w.run input token) 1 =
        (.done (.error fault), { engine := e.freshId.2 }) := by
    rw [Host.await, awaitWithin_succ, Host.round, run]
    simp only [executeRun_refused hv]
    rfl
  cases mode with
  | awaited =>
    refine ⟨.error fault, e.addToken.2.freshId.2, comesTo_of_comesOut 1 ?_, rfl, rfl, rfl, rfl⟩
    exact congrArg (fun q => (q.1, q.2.engine)) (hrun _ _)
  | blocking =>
    refine ⟨.error fault, e.addToken.2.freshId.2, comesTo_of_comesOut 1 ?_, rfl, rfl, rfl, rfl⟩
    exact congrArg (fun q => (q.1, q.2.engine)) (hrun _ _)
  | spawned =>
    refine ⟨.error fault, e, ⟨0, fun _ _ => ?_⟩, rfl, rfl, rfl, rfl⟩
    simp only [comesOut, Host.spawn, announceRun, hv]
  | streamed reader => exact refuses_streamed hv hroom hmax reader

/-- All modes agree. Whatever workflow is called for in a session that its store takes, if it depends on
neither the mode of its run nor on durations and its parallel children are independent, there is one run
apart from all times, one committed state and one stored state that every undisturbed run comes to and leaves,
however it is called for: awaited, blocking, in the background or with a stream that is read, left off at any
point or read to its end, through a feed of any size. An invalid workflow is refused with one fault in every
mode, and its session is left as it is. -/
theorem modes_agree {w : Workflow} {input : ExecutionInput} {e : Engine} (hseat : w.Seated e)
    (hstore : w.StoreTakes input e) (hmode : w.Modeless) (hroom : 0 < w.eventBuffer)
    (hmax : w.eventBuffer ≤ Feed.maxCapacity) :
    (w.validate = .ok () → ∃ outcome final stored, ∀ mode, w.Undisturbed input mode e →
      ∃ run f, w.ComesTo input mode e (.ok run) f ∧ run.untimed = outcome ∧
        w.sessionState f = final ∧ w.storedState f = stored) ∧
    ∀ fault, w.validate = .error fault → ∀ mode, ∃ f, w.ComesTo input mode e (.error fault) f ∧
      w.sessionState f = w.sessionState e ∧ w.storedState f = w.storedState e := by
  obtain ⟨P, hsv, hst⟩ := hstore
  constructor
  · intro hv
    refine ⟨w.outcome input e, w.finalState input e, w.store.bind fun store =>
      if (e.stores.get store).isTable then (w.finalState input e).reread? else some (w.finalState input e),
      fun mode hmodes => ?_⟩
    obtain ⟨_, f, hout, run, rfl, hrun, hd⟩ : ∃ r f, w.ComesTo input mode e r f ∧
        w.Results input e r f := by
      cases mode with
      | awaited | blocking => exact results_awaited hseat hsv hst hmode hv hmodes
      | spawned => exact results_spawned hseat hsv hst hmode hv hmodes
      | streamed reader => exact results_streamed hseat hsv hst hmode hv hroom hmax hmodes
    exact ⟨run, f, hout, hrun, hd.committed, hd.stored⟩
  · intro fault hv mode
    obtain ⟨_, f, hout, rfl, hslots, hstates, hstores⟩ := refuses_comesOut input (e := e) hv hroom hmax mode
    refine ⟨f, hout, ?_, ?_⟩
    · rw [sessionState, session, hslots, hstates, sessionState, session]
    · rw [storedState, sessionId, session, hslots, hstores, storedState, sessionId, session]

/-- A place for one session. -/
private def parlour (stores : List Store) : Engine :=
  { start := ⟨0, 0⟩
    states := ⟨[∅]⟩
    slots := ⟨[{ id := "session", state := ⟨0⟩ }]⟩
    stores := ⟨stores⟩ }

/-- Talks and keeps a note at once. -/
private def relaying : Workflow where
  id := "relaying"
  name := "relaying"
  plan := .nodes [.parallel "both" none [
    .step { name := "talk", executor := .streaming "voice" ["one", "two"] },
    .step { name := "keep", executor := .stateWriter "keeper" "kept" (.bool true) }]]
  store := some ⟨0⟩
  eventBuffer := 1
  slot := ⟨0⟩

private theorem modeless_relaying : relaying.Modeless := by
  simp only [Modeless, relaying, Node.AllModeless, Node.Modeless, and_true]
  refine ⟨[Realm.nothing, ⟨fun _ => False, (· = "kept"), fun _ => False⟩], ?_, ?_, ?_⟩
  · simp only [List.pairwise_cons, List.mem_singleton, forall_eq, List.not_mem_nil, false_imp_iff,
      implies_true, List.Pairwise.nil, and_true]
    exact Realm.apart_nothing _ |>.symm
  · exact fun r _ => Realm.under_everything fun _ _ => trivial
  · simp only [Node.EachModeless, Node.Modeless, and_true]
    exact ⟨.streaming _ _ _, .stateWriter rfl _ _⟩

/-- Talking and keeping a note comes to the same when it is awaited, goes on in the background, or is
followed through a feed of one place, for one event after a pause or to its end. -/
theorem modes_agree_relaying : relaying.Seated (parlour [.memory ∅]) ∧
    relaying.StoreTakes {} (parlour [.memory ∅]) ∧ relaying.Modeless ∧ 0 < relaying.eventBuffer ∧
    relaying.eventBuffer ≤ Feed.maxCapacity ∧ relaying.validate = .ok () ∧
    relaying.Undisturbed {} .awaited (parlour [.memory ∅]) ∧
    relaying.Undisturbed {} .spawned (parlour [.memory ∅]) ∧
    relaying.Undisturbed {} (.streamed (.pause 10 (.read fun _ => .finish))) (parlour [.memory ∅]) ∧
    relaying.Undisturbed {} (.streamed (.drain 20)) (parlour [.memory ∅]) ∧
    ∃ outcome final stored, ∀ mode, relaying.Undisturbed {} mode (parlour [.memory ∅]) →
      ∃ run f, relaying.ComesTo {} mode (parlour [.memory ∅]) (.ok run) f ∧ run.untimed = outcome ∧
        relaying.sessionState f = final ∧ relaying.storedState f = stored := by
  have hseat : relaying.Seated (parlour [.memory ∅]) :=
    ⟨by decide, by decide, fun store hs => by cases hs; decide⟩
  have hstore : relaying.StoreTakes {} (parlour [.memory ∅]) :=
    storeTakes_of_memory {} rfl rfl fun r hr => by cases hr
  have hvalid : relaying.validate = .ok () := by rfl
  have hawaited : relaying.undisturbedWithin {} 20 .awaited (parlour [.memory ∅]) = true := by
    decide +kernel
  have hspawned : relaying.undisturbedWithin {} 20 .spawned (parlour [.memory ∅]) = true := by
    decide +kernel
  have hstreamed : relaying.undisturbedWithin {} 20 (.streamed (.pause 10 (.read fun _ => .finish)))
      (parlour [.memory ∅]) = true := by
    decide +kernel
  have hdrained : relaying.undisturbedWithin {} 20 (.streamed (.drain 20)) (parlour [.memory ∅]) = true := by
    decide +kernel
  have hmax : relaying.eventBuffer ≤ Feed.maxCapacity := by simp [relaying, Feed.maxCapacity]
  exact ⟨hseat, hstore, modeless_relaying, Nat.one_pos, hmax, hvalid, undisturbed_of_within hawaited,
    undisturbed_of_within hspawned, undisturbed_of_within hstreamed, undisturbed_of_within hdrained,
    (modes_agree hseat hstore modeless_relaying Nat.one_pos hmax).1 hvalid⟩

/-! ## Where modes differ -/

/-- Tells whether its run is streamed. -/
private def telltale : Workflow where
  id := "telltale"
  name := "telltale"
  plan := .function fun _ ctx => .finish (.text (if ctx.feed.isSome then "streamed" else "awaited"))
  slot := ⟨0⟩

/-- Adds a note when it took time to talk. -/
private def hurried : Workflow where
  id := "hurried"
  name := "hurried"
  plan := .nodes [.step { name := "talk", executor := .streaming "voice" ["word"] },
    .condition "slow" none (fun input => .ok ((input.output? "talk").any (·.durationMs != some 0)))
      [.step { name := "note", executor := .ofFunction "note" fun _ => .ok (.ofText "late") }]]
  eventBuffer := 2
  slot := ⟨0⟩

/-- Keeps its session in a store that refuses the first record. -/
private def frugal : Workflow where
  id := "frugal"
  name := "frugal"
  plan := .function fun _ _ => .finish (.text "done")
  store := some ⟨0⟩
  slot := ⟨0⟩

/-- Asks for a feed that cannot be made. -/
private def vast : Workflow where
  id := "vast"
  name := "vast"
  plan := .function fun _ _ => .finish (.text "done")
  eventBuffer := 2 ^ 62
  slot := ⟨0⟩

/-- The text that a run comes out with in some rounds. -/
private def wording (w : Workflow) (mode : Mode) (e : Engine) : Option String :=
  match w.comesOut {} 10 mode e with
  | (.done (.ok run), _) => run.content.bind Content.asText?
  | _ => none

private theorem comesTo_of_wording {text : String} (h : wording w mode e = some text) :
    ∃ run f, w.ComesTo {} mode e (.ok run) f ∧ run.content.bind Content.asText? = some text := by
  unfold wording at h
  split at h
  · rename_i run f hout
    exact ⟨run, f, comesTo_of_comesOut 10 hout, h⟩
  · cases h

/-- Modes differ for a function that asks whether its run is streamed, for a condition that looks at how
long a step took, for a store that refuses the record of a run that is announced, and for a feed that is too
large. -/
theorem modes_differ :
    (∃ run run' f f', telltale.Undisturbed {} .awaited (parlour []) ∧
      telltale.Undisturbed {} (.streamed .finish) (parlour []) ∧
      telltale.ComesTo {} .awaited (parlour []) (.ok run) f ∧
      telltale.ComesTo {} (.streamed .finish) (parlour []) (.ok run') f' ∧
      run.content.bind Content.asText? = some "awaited" ∧
      run'.content.bind Content.asText? = some "streamed") ∧
    (∃ run run' f f', hurried.Undisturbed {} .awaited (parlour []) ∧
      hurried.Undisturbed {} (.streamed (.pause 100 .finish)) (parlour []) ∧
      hurried.ComesTo {} .awaited (parlour []) (.ok run) f ∧
      hurried.ComesTo {} (.streamed (.pause 100 .finish)) (parlour []) (.ok run') f' ∧
      run.content.bind Content.asText? = some "word" ∧
      run'.content.bind Content.asText? = some "late") ∧
    (∃ run fault f f', frugal.Undisturbed {} .awaited (parlour [.refusing ⟨[], [1]⟩ 0 0 ∅]) ∧
      frugal.ComesTo {} .awaited (parlour [.refusing ⟨[], [1]⟩ 0 0 ∅]) (.ok run) f ∧
      frugal.ComesTo {} .spawned (parlour [.refusing ⟨[], [1]⟩ 0 0 ∅]) (.error fault) f') ∧
    ∃ run message f f', vast.Undisturbed {} .awaited (parlour []) ∧
      vast.ComesTo {} .awaited (parlour []) (.ok run) f ∧
      ∀ rounds, vast.comesOut {} rounds (.streamed .finish) (parlour []) = (.aborted message, f') := by
  refine ⟨?_, ?_, ?_, ?_⟩
  · have hawaited : wording telltale .awaited (parlour []) = some "awaited" := by decide +kernel
    have hstreamed : wording telltale (.streamed .finish) (parlour []) = some "streamed" := by decide +kernel
    obtain ⟨run, f, hout, htext⟩ := comesTo_of_wording hawaited
    obtain ⟨run', f', hout', htext'⟩ := comesTo_of_wording hstreamed
    have hcalm : telltale.undisturbedWithin {} 10 .awaited (parlour []) = true := by decide +kernel
    have hcalm' : telltale.undisturbedWithin {} 10 (.streamed .finish) (parlour []) = true := by
      decide +kernel
    exact ⟨run, run', f, f', undisturbed_of_within hcalm, undisturbed_of_within hcalm', hout, hout', htext,
      htext'⟩
  · have hawaited : wording hurried .awaited (parlour []) = some "word" := by decide +kernel
    have hstreamed : wording hurried (.streamed (.pause 100 .finish)) (parlour []) = some "late" := by
      decide +kernel
    obtain ⟨run, f, hout, htext⟩ := comesTo_of_wording hawaited
    obtain ⟨run', f', hout', htext'⟩ := comesTo_of_wording hstreamed
    have hcalm : hurried.undisturbedWithin {} 10 .awaited (parlour []) = true := by decide +kernel
    have hcalm' : hurried.undisturbedWithin {} 10 (.streamed (.pause 100 .finish)) (parlour []) = true := by
      decide +kernel
    exact ⟨run, run', f, f', undisturbed_of_within hcalm, undisturbed_of_within hcalm', hout, hout', htext,
      htext'⟩
  · have hawaited : wording frugal .awaited (parlour [.refusing ⟨[], [1]⟩ 0 0 ∅]) = some "done" := by
      decide +kernel
    obtain ⟨run, f, hout, -⟩ := comesTo_of_wording hawaited
    have hcalm : frugal.undisturbedWithin {} 10 .awaited (parlour [.refusing ⟨[], [1]⟩ 0 0 ∅]) = true := by
      decide +kernel
    exact ⟨run, _, f, _, undisturbed_of_within hcalm, hout, 0, fun _ _ => rfl⟩
  · have hawaited : wording vast .awaited (parlour []) = some "done" := by decide +kernel
    obtain ⟨run, f, hout, -⟩ := comesTo_of_wording hawaited
    have hcalm : vast.undisturbedWithin {} 10 .awaited (parlour []) = true := by decide +kernel
    exact ⟨run, _, f, _, undisturbed_of_within hcalm, hout, fun _ => rfl⟩

end Workflow

end WorkflowEngine
