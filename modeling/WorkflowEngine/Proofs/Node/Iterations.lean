import Mathlib.Order.Bounds.Defs
import WorkflowEngine.Executor.Ready
import WorkflowEngine.Proofs.Node.Rounds

/-!
# Iterations of loops

How often a loop runs its body, when it asks its end condition, and what comes of it. Main statement: a
loop ends with the first iteration that halts, meets the end condition or reaches the cap; its iterations
are one sequence over the body written that many times.
-/

namespace WorkflowEngine

open TaskAccount

namespace Loop

/-! ## Loops that are over -/

section Law

variable (name : String) (maxIterations : Nat)
  (ends : Option (List StepOutput → Except String Bool)) (children : List Node) (input : StepInput)

/-- A loop is over after iterations with some outputs: the last of them halted, the end condition holds,
or the cap is reached. -/
def Over (outputs : List StepOutput) : Prop :=
  (∃ o, outputs.getLast? = some o ∧ o.halts) ∨ converged name ends outputs = .ok true ∨
    outputs.length = maxIterations

/-- How a loop ends that is over. -/
def stateAfter (outputs : List StepOutput) (last : StepOutput) : LoopState :=
  if last.halts then .interrupted
  else match converged name ends outputs with
    | .ok true => .converged
    | _ => .exhausted

/-- A loop that gave a result, and what it told. -/
structure Ran (t : List Happening) (r : LoopResult) : Prop where
  /-- It iterates at least once and not above the cap, -/
  bounds : 1 ≤ r.iterations.length ∧ r.iterations.length ≤ maxIterations
  /-- and ends as soon as it is over. -/
  least : IsLeast {i | 0 < i ∧ Over name maxIterations ends (r.iterations.take i)} r.iterations.length
  /-- The end condition answered after each iteration that did not halt. -/
  answered : ∀ i o, r.iterations[i]? = some o → o.halts = false →
    ∃ holds, converged name ends (r.iterations.take (i + 1)) = .ok holds
  /-- The result is the output of the last iteration, under the loop's name unless that one halted. -/
  result : ∃ last, r.iterations.getLast? = some last ∧
    r.termination = ⟨stateAfter name ends r.iterations last, r.iterations.length⟩ ∧
    r.output =
      if last.halts then { last with loopTermination := some r.termination }
      else
        { last with
          stepName := name
          executorKind := .loop
          executorName := name
          loopTermination := some r.termination }
  /-- Its iterations are those of a sequence over the body written as many times. -/
  repeats : Repeats name children input r.iterations t

/-- A loop that ended with a fault, and what it told. -/
inductive Failed (t : List Happening) : Fault → Prop
  /-- The run was cancelled between two iterations, or before the first. -/
  | cancelled {n : Nat} {q : Sequence} {courses : List Course} (hn : n < maxIterations)
      (h : Node.visitSequence (List.replicate n children).flatten input t (some (.ok (q, courses))))
      (hq : q.next?.isSome) : Failed t .cancelled
  /-- The last iteration ended with a fault of the body. -/
  | body {n : Nat} {fault : Fault} (hn : n < maxIterations)
      (h : Node.visitSequence (List.replicate (n + 1) children).flatten input t (some (.error fault))) :
      Failed t fault
  /-- The end condition failed when it was asked about the outputs so far. -/
  | condition {outputs : List StepOutput} {test : List StepOutput → Except String Bool}
      {message : String} (hends : ends = some test) (hfail : test outputs = .error message)
      (hpos : 0 < outputs.length) (hle : outputs.length ≤ maxIterations)
      (hcalm : ∀ o ∈ outputs, o.halts = false)
      (hbefore : ∀ i, 0 < i → i < outputs.length →
        converged name ends (outputs.take i) = .ok false)
      (hrepeats : Repeats name children input outputs t) : Failed t (.evaluator name message)

/-- The rounds of a loop that gave a result, and what was told when its end condition was asked. -/
structure Asked (Q : List StepOutput → TaskAccount Bool) (t : List Happening) (r : LoopResult)
    (rounds : List Round) : Prop where
  outputs : rounds.map Round.output = r.iterations
  /-- Each iteration tells what its body tells and then what is told when the end condition is asked, -/
  told : t = Loop.told rounds
  /-- which is once, about all outputs so far, after an iteration that did not halt, -/
  asked : ∀ i x, rounds[i]? = some x → x.output.halts = false →
    Q (r.iterations.take (i + 1)) x.asked
      (some (.ok (i + 1 == r.iterations.length && r.termination.state == .converged)))
  /-- and never after one that halted. -/
  halted : ∀ x ∈ rounds, x.output.halts → x.asked = []
  /-- Only the last iteration may halt, -/
  calm : ∀ o ∈ r.iterations.dropLast, o.halts = false
  /-- and it does, or the end condition holds, or the cap is reached. -/
  finished : (∃ o, r.iterations.getLast? = some o ∧ o.halts) ∨ r.termination.state = .converged ∨
    r.iterations.length = maxIterations
  repeats : Repeats name children input r.iterations (bodies rounds)

end Law

section Results

variable {name : String} {maxIterations : Nat}
  {ends : Option (List StepOutput → Except String Bool)} {children : List Node}
  {input current : StepInput} {rounds : List Round} {t : List Happening} {q : Sequence}
  {cs : List Course} {state : LoopState}

/-- A loop whose end condition tells nothing tells what its bodies tell. -/
theorem Goes.told_eq_bodies {B : StepInput → TaskAccount Sequence}
    (h : Goes name B (fun done => ofResult (converged name ends done)) input rounds current) :
    told rounds = bodies rounds := by
  refine List.flatMap_congr fun x hx => ?_
  obtain ⟨i, hi⟩ := List.getElem?_of_mem hx
  rw [(h.asked hi).1, List.append_nil]

theorem Goes.converged {B : StepInput → TaskAccount Sequence}
    (h : Goes name B (fun done => ofResult (converged name ends done)) input rounds current) {i : Nat}
    (hi : i < rounds.length) :
    converged name ends ((rounds.map Round.output).take (i + 1)) = .ok false :=
  ((h.asked (List.getElem?_eq_getElem hi)).2 _ rfl).symm

theorem stateAfter_eq_interrupted {outputs : List StepOutput} {last : StepOutput} :
    stateAfter name ends outputs last = .interrupted ↔ last.halts := by
  unfold stateAfter
  split
  · simp [*]
  · split <;> simp [*]

theorem output_finish (outputs : List StepOutput) (last : StepOutput) :
    (finish name last outputs (stateAfter name ends outputs last)).output =
      if last.halts then
        { last with loopTermination := some ⟨stateAfter name ends outputs last, outputs.length⟩ }
      else
        { last with
          stepName := name
          executorKind := .loop
          executorName := name
          loopTermination := some ⟨stateAfter name ends outputs last, outputs.length⟩ } := by
  simp only [finish, stateAfter_eq_interrupted]
  split <;> rfl

section Over

variable
  (h : Goes name (bodyOf children) (fun done => ofResult (Loop.converged name ends done)) input
    rounds current)

include h

/-- Before its last iteration a loop is not over. -/
theorem Goes.least {o : StepOutput} (hlt : rounds.length < maxIterations)
    (hover : Over name maxIterations ends (rounds.map Round.output ++ [o])) :
    IsLeast {i | 0 < i ∧ Over name maxIterations ends ((rounds.map Round.output ++ [o]).take i)}
      (rounds.map Round.output ++ [o]).length := by
  refine ⟨⟨by simp, by rwa [List.take_length]⟩, ?_⟩
  rintro i ⟨hi, hearly⟩
  rw [List.length_append, List.length_map, List.length_singleton]
  by_contra hle
  obtain ⟨k, rfl⟩ : ∃ k, i = k + 1 := ⟨i - 1, by omega⟩
  have hk : k < rounds.length := by omega
  rw [List.take_append_of_le_length (by rwa [List.length_map])] at hearly
  rcases hearly with ⟨o, ho, hhalt⟩ | hconv | hcap
  · obtain ⟨x, hx, rfl⟩ := List.mem_map.1 (List.mem_of_mem_take (List.mem_of_getLast? ho))
    rw [h.calm x hx] at hhalt
    cases hhalt
  · rw [h.converged hk] at hconv
    cases hconv
  · rw [List.length_take, List.length_map] at hcap
    omega

/-- Rounds and an iteration after which the loop is over. -/
theorem Goes.ran (hlt : rounds.length < maxIterations)
    (ht : Node.visitSequence children current t (some (.ok (q, cs))))
    (ha : q.next?.isSome →
      ∃ holds, Loop.converged name ends (rounds.map Round.output ++ [q.output name]) = .ok holds)
    (hover : Over name maxIterations ends (rounds.map Round.output ++ [q.output name])) :
    Ran name maxIterations ends children input (told rounds ++ t)
      (finish name (q.output name) (rounds.map Round.output ++ [q.output name])
        (stateAfter name ends (rounds.map Round.output ++ [q.output name]) (q.output name))) where
  bounds := by
    simp only [finish, List.length_append, List.length_map, List.length_singleton]
    omega
  least := h.least hlt hover
  answered := fun i o ho hcalm => by
    dsimp only [finish] at ho ⊢
    have hi := (List.getElem?_eq_some_iff.1 ho).1
    rw [List.length_append, List.length_map, List.length_singleton] at hi
    rcases Nat.lt_succ_iff_lt_or_eq.1 hi with hlt | rfl
    · rw [List.take_append_of_le_length (by rwa [List.length_map])]
      exact ⟨false, h.converged hlt⟩
    · rw [List.take_of_length_le (by simp)]
      obtain rfl : q.output name = o := by simpa using ho
      rw [halts_output ht] at hcalm
      exact ha (by simpa using hcalm)
  result := ⟨q.output name, by simp [finish], rfl, output_finish _ _⟩
  repeats := by
    rw [h.told_eq_bodies]
    exact h.repeats_concat ht h.repeats

end Over

/-- What comes of a loop. -/
theorem ran_of_iterates {r : LoopResult}
    (h : Iterates name maxIterations (bodyOf children)
      (fun done => ofResult (Loop.converged name ends done)) input t (some (.ok r))) :
    Ran name maxIterations ends children input t r := by
  cases h with
  | @interrupted rounds current t o _ h hlt hb hr =>
    cases hr _ rfl
    obtain ⟨_ | _ | ⟨q, cs⟩, ht, hq⟩ := hb <;> cases hq
    have hhalts : o.halts = true := Node.ends_of_visitSequence ht
    have hran := h.ran hlt ht nofun (.inl ⟨o, by simp [Sequence.output], hhalts⟩)
    dsimp only [Sequence.output] at hran
    rwa [stateAfter_eq_interrupted.2 hhalts] at hran
  | @ended rounds current next t u q holds _ h hlt hb hq ha hover hr =>
    cases hr _ rfl
    obtain ⟨rfl, ha⟩ := ha
    obtain ⟨_ | _ | ⟨q, cs⟩, ht, hq'⟩ := hb <;> cases hq'
    have hholds := (ha _ rfl).symm
    have hcalm : (q.output name).halts = false := by rw [halts_output ht, hq]; rfl
    have hran := h.ran hlt ht (fun _ => ⟨holds, hholds⟩) ?_
    · have hstate : stateAfter name ends (rounds.map Round.output ++ [q.output name])
          (q.output name) = if holds then .converged else .exhausted := by
        rw [stateAfter, hcalm, hholds]
        cases holds <;> rfl
      rwa [hstate, ← List.append_nil t] at hran
    · rcases hover with rfl | hcap
      · exact .inr (.inl hholds)
      · exact .inr (.inr (by simpa using hcap))

theorem failed_of_iterates {fault : Fault}
    (h : Iterates name maxIterations (bodyOf children)
      (fun done => ofResult (Loop.converged name ends done)) input t (some (.error fault))) :
    Failed name maxIterations ends children input t fault := by
  cases h with
  | cancelled h hlt =>
    obtain ⟨q, cs, hq, hnext⟩ := h.sequence
    rw [h.told_eq_bodies]
    exact .cancelled hlt hq (by rw [hnext]; rfl)
  | broken h hlt hb =>
    obtain ⟨q, cs, hq, hnext⟩ := h.sequence
    obtain ⟨_ | _ | _, ht, hr⟩ := hb <;> cases hr
    have happend := Node.visitSequence_append hq hnext ht
    rw [← flatten_replicate_concat] at happend
    rw [h.told_eq_bodies]
    exact .body hlt happend
  | interrupted h hlt hb hr => cases hr _ rfl
  | ended h hlt hb hq ha hover hr => cases hr _ rfl
  | @failed rounds current next t u q _ h hlt hb hq ha =>
    obtain ⟨rfl, ha⟩ := ha
    obtain ⟨_ | _ | ⟨q, cs⟩, ht, hq'⟩ := hb <;> cases hq'
    have hfail := (ha _ rfl).symm
    unfold Loop.converged at hfail
    cases ends with
    | none => cases hfail
    | some test =>
      dsimp only at hfail
      cases hmessage : test (rounds.map Round.output ++ [q.output name]) with
      | ok holds =>
        rw [hmessage] at hfail
        cases hfail
      | error message =>
        rw [hmessage] at hfail
        cases hfail
        rw [List.append_nil, h.told_eq_bodies]
        refine .condition rfl hmessage (by simp)
          (by rw [List.length_append, List.length_map]; exact hlt) (fun o ho => ?_)
          (fun i hi hlen => ?_) (h.repeats_concat ht h.repeats)
        · rcases List.mem_append.1 ho with ho | ho
          · obtain ⟨x, hx, rfl⟩ := List.mem_map.1 ho
            exact h.calm x hx
          · rw [List.mem_singleton.1 ho, halts_output ht, hq]
            rfl
        · rw [List.length_append, List.length_map, List.length_singleton] at hlen
          obtain ⟨k, rfl⟩ : ∃ k, i = k + 1 := ⟨i - 1, by omega⟩
          rw [List.take_append_of_le_length (by rw [List.length_map]; omega)]
          exact h.converged (by omega)

/-- Rounds and a last iteration, with what was told when the end condition was asked about it. -/
private theorem asked_of_goes {Q : List StepOutput → TaskAccount Bool} {u : List Happening}
    (h : Goes name (bodyOf children) Q input rounds current)
    (ht : Node.visitSequence children current t (some (.ok (q, cs))))
    (hu : (q.output name).halts → u = [])
    (ha : (q.output name).halts = false →
      Q (rounds.map Round.output ++ [q.output name]) u (some (.ok (state == .converged))))
    (hover : (q.output name).halts ∨ state = .converged ∨ rounds.length + 1 = maxIterations) :
    Asked name maxIterations children input Q (told rounds ++ (t ++ u))
      (finish name (q.output name) (rounds.map Round.output ++ [q.output name]) state)
      (rounds ++ [⟨t, q.output name, u⟩]) where
  outputs := by simp [finish]
  told := (told_concat rounds ⟨t, q.output name, u⟩).symm
  asked := fun i x hx hcalm => by
    dsimp only [finish]
    have hi := (List.getElem?_eq_some_iff.1 hx).1
    rw [List.length_append, List.length_singleton] at hi
    rcases Nat.lt_succ_iff_lt_or_eq.1 hi with hlt | rfl
    · rw [List.getElem?_append_left hlt] at hx
      rw [List.take_append_of_le_length (by rwa [List.length_map])]
      have hne : (i + 1 == (rounds.map Round.output ++ [q.output name]).length) = false := by
        simpa using Nat.ne_of_lt hlt
      rw [hne, Bool.false_and]
      exact h.asked hx
    · rw [List.getElem?_concat_length] at hx
      cases hx
      rw [List.take_of_length_le (by simp)]
      simpa using ha hcalm
  halted := fun x hx hhalts => by
    rcases List.mem_append.1 hx with hx | hx
    · rw [h.calm x hx] at hhalts
      cases hhalts
    · cases List.mem_singleton.1 hx
      exact hu hhalts
  calm := fun o ho => by
    rw [finish, List.dropLast_concat] at ho
    obtain ⟨x, hx, rfl⟩ := List.mem_map.1 ho
    exact h.calm x hx
  finished := by
    refine hover.imp (fun hhalts => ⟨q.output name, by simp [finish], hhalts⟩) fun hover => ?_
    simpa [finish] using hover
  repeats := by
    have hrepeats := h.repeats_concat ht h.repeats
    simpa [finish, bodies] using hrepeats

theorem asked_of_iterates {Q : List StepOutput → TaskAccount Bool} {r : LoopResult}
    (h : Iterates name maxIterations (bodyOf children) Q input t (some (.ok r))) :
    ∃ rounds, Asked name maxIterations children input Q t r rounds := by
  cases h with
  | @interrupted rounds current t o _ h hlt hb hr =>
    cases hr _ rfl
    obtain ⟨_ | _ | ⟨q, cs⟩, ht, hq⟩ := hb <;> cases hq
    have hhalts : o.halts = true := Node.ends_of_visitSequence ht
    have happend : told rounds ++ t = told rounds ++ (t ++ []) := by rw [List.append_nil]
    refine ⟨rounds ++ [⟨t, o, []⟩], ?_⟩
    rw [happend]
    exact asked_of_goes h ht (fun _ => rfl) (fun hcalm => nomatch hhalts.symm.trans hcalm) (.inl hhalts)
  | @ended rounds current next t u q holds _ h hlt hb hq ha hover hr =>
    cases hr _ rfl
    obtain ⟨_ | _ | ⟨q, cs⟩, ht, hq'⟩ := hb <;> cases hq'
    have hcalm : (q.output name).halts = false := by rw [halts_output ht, hq]; rfl
    refine ⟨_, asked_of_goes h ht (fun hhalts => ?_) (fun _ => ?_) (.inr (hover.imp_left ?_))⟩
    · cases hcalm.symm.trans hhalts
    · cases holds <;> exact ha
    · rintro rfl
      rfl

end Results

/-- The law of a loop that may iterate, over any nodes and among any others. It iterates until an
iteration halts, the end condition holds of the outputs so far, or the cap is reached, and no further; its
iterations are one sequence over the body written as many times, and its result is the output of the last
one. It gives no result only for a cancellation, a fault of the body or a failure of the end condition,
which becomes a fault that names the loop; and it always comes to its end when its executors do. The end
condition may be any task that tells of itself: it is asked once after each iteration that did not halt,
about all outputs so far, and never otherwise. -/
theorem iterates_least {name : String} {maxIterations : Nat} (hm : 0 < maxIterations)
    {ends : Option (List StepOutput → Except String Bool)} {children : List Node} {ctx : RunContext}
    {input : StepInput} {others : Engine → Engine → Prop} {e e' : Engine}
    {p : Fiber Engine (Except Fault LoopResult)}
    (h : Fiber.Evolves others
      (run name maxIterations ends ctx (Node.runSequence ctx children) input).run e p e') :
    (∃ t, Fiber.Adds ctx.discipline others
        (run name maxIterations ends ctx (Node.runSequence ctx children) input).run e t p e' ∧
      (∀ r, p = .done (.ok r) → Ran name maxIterations ends children input t r) ∧
      ∀ fault, p = .done (.error fault) →
        Failed name maxIterations ends children input t fault) ∧
    (Node.Steady children → (audience ctx.feed).sound e' →
      ∃ r e'', Fiber.Evolves (audience ctx.feed).helps p e' (.done r) e'') ∧
    run name maxIterations ends ctx (Node.runSequence ctx children) input =
      runAsking name maxIterations (fun done => RunTask.ofResult (converged name ends done)) ctx
        (Node.runSequence ctx children) input ∧
    ∀ (ask : List StepOutput → RunTask Bool) (Q : List StepOutput → TaskAccount Bool),
      (∀ done, RunTask.Obeys ctx (ask done) (Q done)) →
      ∀ {e e' : Engine} {p : Fiber Engine (Except Fault LoopResult)},
        Fiber.Evolves others
          (runAsking name maxIterations ask ctx (Node.runSequence ctx children) input).run e p e' →
        ∃ t, Fiber.Adds ctx.discipline others
          (runAsking name maxIterations ask ctx (Node.runSequence ctx children) input).run e t p e' ∧
          ∀ r, p = .done (.ok r) →
            ∃ rounds, Asked name maxIterations children input Q t r rounds := by
  have hbody (input : StepInput) :
      RunTask.Obeys ctx (Node.runSequence ctx children input) (bodyOf children input) :=
    Node.obeys_runSequence ctx children input
  have hbegins (input : StepInput) : bodyOf children input [] none :=
    map_begins (Node.visitSequence_begins children input)
  have hrun : run name maxIterations ends ctx (Node.runSequence ctx children) input = _ :=
    run_eq_runAsking hm input
  refine ⟨?_, fun hs hsound => ?_, hrun, fun ask Q hask e e' p h => ?_⟩
  · have hobeys : RunTask.Obeys ctx
        (run name maxIterations ends ctx (Node.runSequence ctx children) input)
        (Iterates name maxIterations (bodyOf children)
          (fun done => ofResult (converged name ends done)) input) := by
      rw [hrun]
      exact obeys_runAsking hm hbody hbegins
        (fun done => .ofResult (ofResult_some (converged name ends done))) input
    obtain ⟨t, ht, hp⟩ := Fiber.Obeys.adds hobeys h
    refine ⟨t, ht, ?_, ?_⟩
    · rintro r rfl
      exact ran_of_iterates ((Account.after_nil_apply _ _ _).1 hp)
    · rintro fault rfl
      exact failed_of_iterates ((Account.after_nil_apply _ _ _).1 hp)
  · have hlively : RunTask.Lively (audience ctx.feed) (run name maxIterations ends ctx _ input) :=
      lively_run (Node.lively_runSequence children hs) input
    refine Node.finishes_of_tells hlively (fun feed hfeed => ?_) h hsound
    have hserves : Outlet.Serves ⟨ctx.runId, ctx.token, feed, ctx.bus⟩ ctx := ⟨rfl, rfl, hfeed, rfl⟩
    exact ⟨_, tells_run hserves (Node.tells_runSequence hserves children) input⟩
  · obtain ⟨t, ht, hp⟩ := Fiber.Obeys.adds (obeys_runAsking hm hbody hbegins hask input) h
    refine ⟨t, ht, ?_⟩
    rintro r rfl
    exact asked_of_iterates ((Account.after_nil_apply _ _ _).1 hp)

/-- A page is drafted up to three times, until there are two drafts. -/
private def drafting : List Node :=
  [.step { name := "draft", executor := .ofFunction "draft" fun _ => .ok (.ofText "page") }]

private def drafted (done : List StepOutput) : Except String Bool := .ok (2 ≤ done.length)

private def author : RunContext :=
  { sessionId := "session", runId := "run", state := ⟨0⟩, token := ⟨0⟩ }

private def attic : Engine :=
  { start := ⟨0, 0⟩, states := ⟨[∅]⟩, tokens := ⟨[{}]⟩ }

private theorem poll_drafting :
    (match (run "book" 3 (some drafted) author (Node.runSequence author drafting) {}).run.poll attic with
      | .done (.ok r) _ => r.termination == ⟨.converged, 2⟩
      | _ => false) = true := by
  decide +kernel

/-- A loop that meets its end condition below the cap: it ran its body twice. -/
theorem iterates_least_drafting : 0 < 3 ∧ ∃ r e t,
    Fiber.Adds author.discipline (fun _ _ => False)
      (run "book" 3 (some drafted) author (Node.runSequence author drafting) {}).run attic t
      (.done (.ok r)) e ∧
    Ran "book" 3 (some drafted) drafting {} t r ∧ r.termination = ⟨.converged, 2⟩ := by
  have hends := poll_drafting
  cases hpoll :
      (run "book" 3 (some drafted) author (Node.runSequence author drafting) {}).run.poll attic with
  | waiting p e | aborted message e =>
    rw [hpoll] at hends
    cases hends
  | done r e =>
    rw [hpoll] at hends
    cases r with
    | error fault => cases hends
    | ok r =>
      have h : Fiber.Evolves (fun _ _ => False)
          (run "book" 3 (some drafted) author (Node.runSequence author drafting) {}).run attic
          (.done (.ok r)) e := Fiber.evolves_of_poll_done hpoll
      obtain ⟨⟨t, ht, hran, -⟩, -⟩ := iterates_least (by decide) h
      exact ⟨by decide, r, e, t, ht, hran r rfl, beq_iff_eq.1 hends⟩

end Loop

end WorkflowEngine
