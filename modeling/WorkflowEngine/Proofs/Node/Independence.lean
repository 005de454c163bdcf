import WorkflowEngine.Executor.Ready
import WorkflowEngine.Proofs.Node.Confined
import WorkflowEngine.Proofs.Node.Joining
import WorkflowEngine.Proofs.Node.Liveliness
import WorkflowEngine.Proofs.Session.Merge

/-!
# Independence of parallel children

Children of a parallel node whose executors share no tally, and of which none writes what another one reads
or writes, do not notice each other. Main statement: outside of streaming mode and without cancellation the
node ends as if its children ran one after another, each to its end, in whatever order their turns fall.
-/

namespace WorkflowEngine

open Realm

namespace Fiber

variable {α β : Type} {ctx : RunContext} {others : Engine → Engine → Prop} {e e' f f' : Engine}
  {realms : List Realm} {ps ps' : List (Fiber Engine α)} {m m' : Fiber Engine (List α)}

/-! ## Rows -/

/-- How the row of some fibers stands. -/
inductive Row : List (Fiber Engine α) → Fiber Engine (List α) → Prop
  | ended (as : List α) : Row (as.map .done) (.done as)
  | cons {p : Fiber Engine α} {rest : List (Fiber Engine α)} {m : Fiber Engine (List α)}
      (h : Row rest m) : Row (p :: rest) (.both p m fun a as => .done (a :: as))

/-- One of some fibers takes a turn. -/
inductive OneTurn : List (Fiber Engine α) → Engine → List (Fiber Engine α) → Engine → Prop
  | here {p p' : Fiber Engine α} {rest : List (Fiber Engine α)} {e e' : Engine}
      (h : TakesTurn p e p' e') : OneTurn (p :: rest) e (p' :: rest) e'
  | there {p : Fiber Engine α} {rest rest' : List (Fiber Engine α)} {e e' : Engine}
      (h : OneTurn rest e rest' e') : OneTurn (p :: rest) e (p :: rest') e'

namespace Row

theorem all (ps : List (Fiber Engine α)) : Row ps (Fiber.all ps) := by
  induction ps with
  | nil => exact .ended []
  | cons p rest ih => exact .cons ih

theorem of_done {as : List α} (h : Row ps (.done as)) : ps = as.map .done := by
  cases h
  rfl

/-- A stride of a row is a turn of one of its fibers, or brings their values together. -/
theorem stride (h : Row ps m) (hs : Strides m e m' e') :
    ∃ ps', Row ps' m' ∧ (OneTurn ps e ps' e' ∨ ps' = ps ∧ e' = e) := by
  induction h generalizing m' with
  | ended as =>
    cases hs with
    | move _ hm => cases hm
  | @cons p rest m hrow ih =>
    cases hs with
    | move hp => cases hp
    | left ht => exact ⟨_, .cons hrow, .inl (.here ht)⟩
    | right hs =>
      obtain ⟨rest', hrow', hturn | ⟨rfl, rfl⟩⟩ := ih hs
      · exact ⟨_, .cons hrow', .inl (.there hturn)⟩
      · exact ⟨_, .cons hrow', .inr ⟨rfl, rfl⟩⟩
    | @join _ _ _ a as =>
      obtain rfl := hrow.of_done
      exact ⟨_, .ended (a :: as), .inr ⟨rfl, rfl⟩⟩

private theorem idle (h : Row ps m) (hm : m.isDone = true ∨ m.canGoOn e = false) :
    ∀ p ∈ ps, p.isDone = true ∨ p.canGoOn e = false := by
  induction h with
  | ended as =>
    intro p hp
    obtain ⟨a, -, rfl⟩ := List.mem_map.1 hp
    exact .inl rfl
  | @cons p rest m hrow ih =>
    have hboth : (both p m fun a as => done (a :: as)).canGoOn e = false := by
      simpa [isDone] using hm
    simp only [canGoOn, Bool.or_eq_false_iff, Bool.and_eq_false_iff, Bool.not_eq_false'] at hboth
    intro q hq
    rcases List.mem_cons.1 hq with rfl | hq
    · exact hboth.1.2
    · exact ih hboth.2 q hq

private theorem due_le (h : Row ps m) : ∀ p ∈ ps, ∀ d, p.due = some d → ∃ d', m.due = some d' ∧ d' ≤ d := by
  induction h with
  | ended as =>
    intro p hp d hd
    obtain ⟨a, -, rfl⟩ := List.mem_map.1 hp
    cases hd
  | @cons p rest m hrow ih =>
    intro q hq d hd
    rw [due]
    rcases List.mem_cons.1 hq with rfl | hq
    · rw [hd]
      cases m.due with
      | none => exact ⟨d, rfl, Nat.le_refl _⟩
      | some d' => exact ⟨min d d', rfl, Nat.min_le_left _ _⟩
    · obtain ⟨d', hm, hle⟩ := ih q hq d hd
      rw [hm]
      cases p.due with
      | none => exact ⟨d', rfl, hle⟩
      | some d'' => exact ⟨min d'' d', rfl, Nat.le_trans (Nat.min_le_right _ _) hle⟩

/-- While a row stands still, each of its fibers does. -/
theorem meanwhile (h : Row ps m) (hm : Meanwhile others m e e') : ∀ p ∈ ps, Meanwhile others p e e' := by
  intro p hp
  cases hm with
  | act ho => exact .act ho
  | time ms hidle hdue =>
    refine .time ms (h.idle hidle p hp) fun d hd => ?_
    obtain ⟨d', hm, hle⟩ := h.due_le p hp d hd
    exact Nat.le_trans (hdue d' hm) hle

end Row

/-- Fibers that run by themselves, each in its realm. -/
inductive Alone (ctx : RunContext) (e f : Engine) :
    List Realm → List (Fiber Engine α) → List (Fiber Engine α) → Prop
  | nil : Alone ctx e f [] [] []
  | cons {r : Realm} {rest : List Realm} {p p' : Fiber Engine α} {ps ps' : List (Fiber Engine α)}
      (h : Solo (r.Spared ctx) p e p' f) (ht : Alone ctx e f rest ps ps') :
      Alone ctx e f (r :: rest) (p :: ps) (p' :: ps')

/-- Fibers each of which keeps to its realm. -/
abbrev Kept (ctx : RunContext) (realms : List Realm) (ps : List (Fiber Engine α)) : Prop :=
  List.Forall₂ (fun r p => Alike r ctx 0 p p) realms ps

namespace Alone

theorem refl (h : Kept ctx realms ps) : Alone ctx e e realms ps ps := by
  induction h with
  | nil => exact .nil
  | cons _ _ ih => exact .cons .refl ih

theorem spared (h : Alone ctx e' f realms ps ps') (hs : ∀ r ∈ realms, r.Spared ctx e e') :
    Alone ctx e f realms ps ps' := by
  induction h with
  | nil => exact .nil
  | cons hp _ ih =>
    exact .cons (.meanwhile (.act (hs _ (by simp))) hp) (ih fun r hr => hs r (by simp [hr]))

/-- What happens while all of them stand still. -/
theorem meanwhile (h : Alone ctx e' f realms ps ps') (ho : ∀ e e', others e e' → ∀ r ∈ realms, r.Spared ctx e e')
    (hm : ∀ p ∈ ps, Meanwhile others p e e') : Alone ctx e f realms ps ps' := by
  induction h with
  | nil => exact .nil
  | @cons r rest p p' ps ps' hp _ ih =>
    refine .cons (.meanwhile ((hm p (by simp)).mono fun e e' h => ho e e' h r (by simp)) hp) ?_
    exact ih (fun e e' h r hr => ho e e' h r (by simp [hr])) fun q hq => hm q (by simp [hq])

end Alone

/-- A turn of one of some fibers is not noticed outside of its realm. -/
theorem OneTurn.kept (h : OneTurn ps e ps' e') (hk : Kept ctx realms ps)
    (hapart : realms.Pairwise Apart) (he : e.isCancelled ctx.token = false) :
    Kept ctx realms ps' ∧ e'.isCancelled ctx.token = false ∧
      (∀ r, (∀ r' ∈ realms, r'.Apart r) → r.Spared ctx e e') ∧
      ∀ f qs, Alone ctx e' f realms ps' qs → Alone ctx e f realms ps qs := by
  induction h generalizing realms with
  | @here p p' rest e e' ht =>
    cases hk with
    | @cons r _ rs _ hp hrest =>
      obtain ⟨hfirst, hapart⟩ := List.pairwise_cons.1 hapart
      obtain ⟨hp', hframe⟩ := hp.turn he ht
      refine ⟨.cons hp' hrest, hframe.cancelled.trans he, fun r' hr' => hframe.spared (hr' r (by simp)), ?_⟩
      intro f qs hqs
      cases hqs with
      | cons hq hqs => exact .cons (.go ht hq) (hqs.spared fun r' hr' => hframe.spared (hfirst r' hr'))
  | there _ ih =>
    cases hk with
    | @cons r _ rs _ hp hrest =>
      obtain ⟨hfirst, hapart⟩ := List.pairwise_cons.1 hapart
      obtain ⟨hrest', he', hspared, hback⟩ := ih hrest hapart he
      refine ⟨.cons hp hrest', he', fun r' hr' => hspared r' fun r'' hr'' => hr' r'' (by simp [hr'']), ?_⟩
      intro f qs hqs
      cases hqs with
      | cons hq hqs =>
        exact .cons (.meanwhile (.act (hspared r fun r' hr' => (hfirst r' hr').symm)) hq) (hback f _ hqs)

/-- In a row of fibers with realms apart each one runs as if it were alone, and whoever looks on from
outside sees nothing. -/
theorem alone_of_inRow {tallies : Ref Tally → Prop} (hk : Kept ctx realms ps)
    (hapart : realms.Pairwise Apart) (hunder : ∀ r ∈ realms, r.Under (everything tallies))
    (ho : ∀ e e', others e e' → (everything tallies).Spared ctx e e') (hrow : Row ps m)
    (he : e.isCancelled ctx.token = false) (h : InRow others m e m' f) :
    (∃ ps', Row ps' m' ∧ Alone ctx e f realms ps ps') ∧ f.isCancelled ctx.token = false ∧
      ∀ r : Realm, r.Under (everything tallies) → (∀ r' ∈ realms, r'.Apart r) → r.Same ctx e f := by
  induction h generalizing ps with
  | refl => exact ⟨⟨ps, hrow, .refl hk⟩, he, fun r _ _ => .refl r ctx _⟩
  | go hs _ ih =>
    obtain ⟨ps₁, hrow₁, hturn | ⟨rfl, rfl⟩⟩ := hrow.stride hs
    · obtain ⟨hk₁, he₁, hspared, hback⟩ := hturn.kept hk hapart he
      obtain ⟨⟨ps', hrow', halone⟩, hf, hsame⟩ := ih hk₁ hrow₁ he₁
      exact ⟨⟨ps', hrow', hback _ _ halone⟩, hf,
        fun r hr hra => (hspared r hra).same.trans (hsame r hr hra)⟩
    · exact ih hk hrow₁ he
  | @meanwhile p q e e' f hm _ ih =>
    obtain ⟨hstill, hcancelled⟩ : (everything tallies).Same ctx e e' ∧
        e'.isCancelled ctx.token = e.isCancelled ctx.token := by
      cases hm with
      | act h => exact ⟨(ho _ _ h).same, (ho _ _ h).cancelled⟩
      | time ms _ _ => exact ⟨.later _ ctx _ _, rfl⟩
    obtain ⟨⟨ps', hrow', halone⟩, hf, hsame⟩ := ih hk hrow (hcancelled.trans he)
    refine ⟨⟨ps', hrow', halone.meanwhile ?_ (hrow.meanwhile hm)⟩, hf,
      fun r hr hra => (hstill.mono hr).trans (hsame r hr hra)⟩
    exact fun e e' h r hr => (ho e e' h).mono (hunder r hr)

/-! ## One after another -/

/-- Fibers that run one after another are not noticed outside of their realms. -/
theorem InOrder.same {r : Realm} {as : List α} (hk : Kept ctx realms ps)
    (hr : ∀ r' ∈ realms, r'.Apart r) (ho : ∀ e e', others e e' → r.Spared ctx e e')
    (he : e.isCancelled ctx.token = false) (h : InOrder others ps e as f) :
    r.Same ctx e f ∧ f.isCancelled ctx.token = false := by
  induction h generalizing realms with
  | nil => exact ⟨.refl r ctx _, he⟩
  | cons hs _ ih =>
    cases hk with
    | cons hp hrest =>
      obtain ⟨hsame, he', -⟩ := hp.same_of_solo he (hr _ (by simp)) ho hs
      obtain ⟨hsame', hf⟩ := ih hrest (fun r' hr' => hr r' (by simp [hr'])) he'
      exact ⟨hsame.trans hsame', hf⟩

/-- Fibers that are not aborted come to their ends one after another. -/
theorem InOrder.completes {S : Support Engine}
    (hc : ∀ e e', others e e' → e'.isCancelled ctx.token = e.isCancelled ctx.token)
    (hk : Kept ctx realms ps) (hl : ∀ p ∈ ps, Lively S p) (he : e.isCancelled ctx.token = false) :
    ∃ as f, InOrder others ps e as f := by
  induction hk generalizing e with
  | nil => exact ⟨[], e, .nil⟩
  | @cons r p realms ps hp _ ih =>
    obtain ⟨a, e₁, hs⟩ := hp.completes (hl p (by simp)) he
    obtain ⟨-, he₁⟩ := hp.kept_of_elapses (fun ht h he => h.turn he ht) hc he hs
    obtain ⟨as, f, hrest⟩ := ih (fun q hq => hl q (by simp [hq])) he₁
    exact ⟨a :: as, f, .cons hs hrest⟩

/-- Fibers that depend on their realms, apart from each other, end alike when each runs alone from one time
on and when they run one after another. -/
theorem agree_of_alone {as bs : List α}
    (hk : List.Forall₂ (fun r p => ∀ lag, Alike r ctx lag p p) realms ps)
    (hapart : realms.Pairwise Apart) (ho : ∀ e e', others e e' → ∀ r ∈ realms, r.Spared ctx e e')
    (he : e.isCancelled ctx.token = false) (he' : e'.isCancelled ctx.token = false)
    (hnow : e.now ≤ e'.now) (hs : ∀ r ∈ realms, r.Same ctx e e')
    (h : Alone ctx e f realms ps (as.map .done)) (h' : InOrder others ps e' bs f') :
    bs = as ∧ ∀ r ∈ realms, r.Same ctx f f' := by
  induction hk generalizing as bs e' with
  | nil =>
    cases h' with
    | nil =>
      generalize hqs : as.map Fiber.done = qs at h
      cases h with
      | nil => exact ⟨(List.map_eq_nil_iff.1 hqs).symm, by simp⟩
  | @cons r p realms ps hp hrest ih =>
    obtain ⟨hfirst, hapart⟩ := List.pairwise_cons.1 hapart
    generalize hqs : as.map Fiber.done = qs at h
    cases h with
    | cons hsolo hrests =>
      obtain ⟨a, as, rfl, rfl, rfl⟩ := List.map_eq_cons_iff.1 hqs
      cases h' with
      | @cons _ _ b bs _ e₁ _ hsolo' hrests' =>
        have hspared {r' : Realm} (hr : r' ∈ r :: realms) :
            ∀ e e', others e e' → r'.Spared ctx e e' := fun e e' h => ho e e' h r' hr
        obtain ⟨lag, hlag⟩ := Nat.exists_eq_add_of_le hnow
        obtain ⟨rfl, hsame⟩ := (hp lag).determined (hs r (by simp)) he he'
          (fun hd => by rw [hlag, (hp lag).wakes_eq _ hd]) hsolo (hsolo'.mono (hspared (by simp)))
        obtain ⟨-, he₁, hnow₁⟩ := (hp 0).same_of_solo he' (apart_nothing r)
          (fun e e' h => (hspared (by simp) e e' h).mono (nothing_under r)) hsolo'
        obtain ⟨rfl, hrest'⟩ := ih hapart (fun e e' h r' hr => hspared (by simp [hr]) e e' h) he₁
          (Nat.le_trans hnow hnow₁)
          (fun r' hr => (hs r' (by simp [hr])).trans
            ((hp 0).same_of_solo he' (hfirst r' hr) (hspared (by simp [hr])) hsolo').1) hrests hrests'
        refine ⟨rfl, fun r' hr => ?_⟩
        rcases List.mem_cons.1 hr with rfl | hr
        · have hkept : Kept ctx realms ps := hrest.imp fun _ _ h => h 0
          exact hsame.trans (hrests'.same hkept (fun r'' hr'' => (hfirst r'' hr'').symm)
            (hspared (by simp)) he₁).1
        · exact hrest' r' hr

/-! ## Around the row -/

/-- A fiber that acts without waiting and without a trace in any realm while its run goes on, and ends with
a value of a kind. -/
def Brief (ctx : RunContext) : {α : Type} → Fiber Engine α → (α → Prop) → Prop
  | _, done a, V => V a
  | _, act step next, V => ∀ e : Engine, e.isCancelled ctx.token = false →
    (∀ r : Realm, r.Frame ctx e (step e).2) ∧ Brief ctx (next (step e).1) V
  | _, wait _ _ _, _ | _, race _ _ _ _ _, _ | _, both _ _ _, _ | _, abort _, _ => False

namespace Brief

variable {tallies : Ref Tally → Prop} {p : Fiber Engine α} {V : α → Prop}

theorem look {g : Engine → α}
    (h : ∀ e : Engine, e.isCancelled ctx.token = false → V (g e)) : Brief ctx (Fiber.look g) V :=
  fun e he => ⟨fun r => .refl r ctx e, h e he⟩

theorem note (h : Happening) : Brief ctx (ctx.note h) fun _ => True :=
  fun _ _ => ⟨fun _ => .of_eq rfl rfl rfl rfl, trivial⟩

theorem emit (hf : ctx.feed = none) (kind : EventKind) :
    Brief ctx (ctx.emit kind) fun _ => True := by
  unfold RunContext.emit
  rw [hf]
  split
  · trivial
  · exact fun _ _ => ⟨fun _ => .announce _ _, trivial⟩

/-- Before a fiber acts there is no time for anything but acts of others. -/
private theorem before_act {step : Engine → α × Engine} {next : α → Fiber Engine β} {b : β}
    (ho : ∀ e e', others e e' → (everything tallies).Spared ctx e e')
    (h : InRow others (.act step next) e (.done b) f) : ∃ e₁, (everything tallies).Spared ctx e e₁ ∧
      InRow others (next (step e₁).1) (step e₁).2 (.done b) f := by
  generalize hp : (Fiber.act step next : Fiber Engine β) = p at h
  generalize hq : (Fiber.done b : Fiber Engine β) = q at h
  induction h with
  | refl =>
    subst hp
    cases hq
  | go hs hrest _ =>
    subst hp hq
    cases hs with
    | move _ hm =>
      cases hm
      exact ⟨_, .refl _ ctx _, hrest⟩
  | meanwhile hm _ ih =>
    obtain ⟨e₁, hs, hrest⟩ := ih hp hq
    subst hp
    cases hm with
    | act h =>
      exact ⟨e₁, (ho _ _ h).trans hs, hrest⟩
    | time ms hidle _ => rcases hidle with hidle | hidle <;> cases hidle

/-- A brief beginning of a sequence takes no time and leaves no trace. -/
theorem run {k : α → Fiber Engine β} {b : β} (h : Brief ctx p V)
    (ho : ∀ e e', others e e' → (everything tallies).Spared ctx e e')
    (he : e.isCancelled ctx.token = false) (hr : InRow others (p.bind k) e (.done b) f) :
    ∃ a e', V a ∧ (everything tallies).Spared ctx e e' ∧ InRow others (k a) e' (.done b) f := by
  induction p generalizing e with
  | done a => exact ⟨a, e, h, .refl _ ctx e, hr⟩
  | act step next ih =>
    obtain ⟨e₁, hs₁, hr⟩ := before_act ho hr
    have he₁ : e₁.isCancelled ctx.token = false := hs₁.cancelled.trans he
    obtain ⟨hframe, hn⟩ := h e₁ he₁
    obtain ⟨a, e', ha, hs, hr⟩ := ih _ hn ((hframe nothing).cancelled.trans he₁) hr
    have hacts : (everything tallies).Spared ctx e₁ (step e₁).2 :=
      (hframe nothing).spared (apart_nothing _).symm
    exact ⟨a, e', ha, hs₁.trans (hacts.trans hs), hr⟩
  | wait | race | both | abort => exact h.elim

/-- A brief beginning of a task that takes no time and leaves no trace. -/
theorem run_lift {p : Fiber Engine α} {V : α → Prop} {f : α → RunTask β} {b : Except Fault β}
    {g : Engine} (h : Brief ctx p V)
    (ho : ∀ e e', others e e' → (everything tallies).Spared ctx e e')
    (he : e.isCancelled ctx.token = false)
    (hr : InRow others ((liftM p : RunTask α) >>= f).run e (.done b) g) :
    ∃ a e', V a ∧ (everything tallies).Spared ctx e e' ∧ InRow others (f a).run e' (.done b) g := by
  rw [RunTask.run_lift_bind] at hr
  exact h.run ho he hr

theorem run_checkCancelled {f : Unit → RunTask β} {b : Except Fault β} {g : Engine}
    (ho : ∀ e e', others e e' → (everything tallies).Spared ctx e e')
    (he : e.isCancelled ctx.token = false)
    (hr : InRow others (ctx.checkCancelled >>= f).run e (.done b) g) :
    ∃ e', (everything tallies).Spared ctx e e' ∧ InRow others (f ()).run e' (.done b) g := by
  unfold RunContext.checkCancelled at hr
  rw [LawfulMonad.bind_assoc] at hr
  have hgoes : Brief ctx ctx.isCancelled (· = false) := look fun _ he => he
  obtain ⟨_, e', rfl, hs, hr⟩ := hgoes.run_lift ho he hr
  exact ⟨e', hs, hr⟩

end Brief

/-- What is done stays so, and nobody changes what it left. -/
private theorem done_of_inRow {tallies : Ref Tally → Prop} {a : α} {q : Fiber Engine α}
    (ho : ∀ e e', others e e' → (everything tallies).Spared ctx e e')
    (h : InRow others (.done a) e q f) : q = .done a ∧ (everything tallies).Same ctx e f ∧
      f.isCancelled ctx.token = e.isCancelled ctx.token := by
  generalize hp : (Fiber.done a : Fiber Engine α) = p at h
  induction h with
  | refl => exact ⟨rfl, .refl _ ctx _, rfl⟩
  | go hs _ _ =>
    subst hp
    cases hs with
    | move _ hm => cases hm
  | meanwhile hm _ ih =>
    obtain ⟨hq, hs, hc⟩ := ih hp
    cases hm with
    | act h => exact ⟨hq, (ho _ _ h).same.trans hs, hc.trans (ho _ _ h).cancelled⟩
    | time ms _ _ => exact ⟨hq, (Same.later _ ctx _ _).trans hs, hc⟩

end Fiber

namespace Node

open Fiber

variable {ctx : RunContext} {others : Engine → Engine → Prop} {e f : Engine}
  {tallies : Ref Tally → Prop}

/-- A parallel node runs its children in a row and joins their results. -/
private theorem inRow_parallel {name : String} {description : Option String} {children : List Node}
    {input : StepInput} {o : Except Fault StepOutput} (hf : ctx.feed = none)
    (ho : ∀ e e', others e e' → (everything tallies).Spared ctx e e')
    (he : e.isCancelled ctx.token = false)
    (h : InRow others ((parallel name description children).execute input ctx).run e (.done o) f) :
    ∃ results e₁ e₂, (everything tallies).Spared ctx e e₁ ∧
      InRow others (Fiber.all (runAll input ctx children)) e₁ (.done results) e₂ ∧
      (e₂.isCancelled ctx.token = false → (everything tallies).Same ctx e₂ f ∧ ∃ ms,
        o = (Join.result name (children.map Node.name) results).map fun o =>
          { o with durationMs := some ms }) := by
  unfold execute reported perform at h
  obtain ⟨e₁, hs₁, h⟩ := Brief.run_checkCancelled ho he h
  obtain ⟨_, e₂, -, hs₂, h⟩ := (Brief.note _).run_lift ho (hs₁.cancelled.trans he) h
  have hs₂ := hs₁.trans hs₂
  obtain ⟨_, e₃, -, hs₃, h⟩ := (Brief.emit hf _).run_lift ho (hs₂.cancelled.trans he) h
  have hs₃ := hs₂.trans hs₃
  have htime : Brief ctx Fiber.time fun _ => True := .look fun _ _ => trivial
  obtain ⟨started, e₄, -, hs₄, h⟩ := htime.run_lift ho (hs₃.cancelled.trans he) h
  have hs₄ := hs₃.trans hs₄
  rw [RunTask.run_bind] at h
  obtain ⟨q, e₇, hwork, h⟩ := inRow_of_bind h
  obtain ⟨_, e₅, -, hs₅, hwork⟩ := (Brief.emit hf _).run_lift ho (hs₄.cancelled.trans he) hwork
  have hs₅ := hs₄.trans hs₅
  rw [RunTask.run_lift_bind] at hwork
  obtain ⟨results, e₆, hall, hwork⟩ := inRow_of_bind hwork
  refine ⟨results, e₅, e₆, hs₅, hall, fun he₆ => ?_⟩
  cases hresult : Join.result name (children.map Node.name) results with
  | error fault =>
    rw [hresult] at hwork
    obtain ⟨hq, hsame, -⟩ := done_of_inRow ho hwork
    cases hq
    obtain ⟨ho, hsame', -⟩ := done_of_inRow ho h
    cases ho
    exact ⟨hsame.trans hsame', 0, rfl⟩
  | ok output =>
    rw [hresult] at hwork
    obtain ⟨_, e₈, -, hs₈, hwork⟩ := (Brief.emit hf _).run_lift ho he₆ hwork
    obtain ⟨hq, hsame, hc⟩ := done_of_inRow ho hwork
    cases hq
    have he₇ : e₇.isCancelled ctx.token = false := hc.trans (hs₈.cancelled.trans he₆)
    obtain ⟨ended, e₉, -, hs₉, h⟩ := htime.run_lift ho he₇ h
    obtain ⟨_, e₁₀, -, hs₁₀, h⟩ := (Brief.note _).run_lift ho (hs₉.cancelled.trans he₇) h
    have hs₁₀ := hs₉.trans hs₁₀
    obtain ⟨_, e₁₁, -, hs₁₁, h⟩ := (Brief.emit hf _).run_lift ho (hs₁₀.cancelled.trans he₇) h
    obtain ⟨ho, hend, -⟩ := done_of_inRow ho h
    cases ho
    refine ⟨hs₈.same.trans (hsame.trans ((hs₁₀.trans hs₁₁).same.trans hend)), ended - started, ?_⟩
    have hname : output.stepName = name := by
      unfold Join.result at hresult
      split at hresult
      · cases hresult
      · cases hresult
        rfl
    simp [Except.map, isLeaf, Node.name, hname]

/-- The children of a parallel node, each in its realm. -/
private theorem alike_children {realms : List Realm} {children : List Node} {input : StepInput}
    (hf : ctx.feed = none) (hk : List.Forall₂ (fun r n => KeepTo r [n]) realms children) :
    List.Forall₂ (fun r p => ∀ lag, Fiber.Alike r ctx lag p p) realms (runAll input ctx children) := by
  induction hk with
  | nil => simp [runAll]
  | cons hn _ ih =>
    unfold runAll
    exact .cons (fun lag => alike_execute hf hn input) ih

private theorem keepTo_union {realms : List Realm} {children : List Node}
    (hk : List.Forall₂ (fun r n => KeepTo r [n]) realms children) :
    KeepTo (union realms) children := by
  induction hk with
  | nil =>
    intro s hs
    simp [descendants] at hs
  | @cons r n realms rest hn _ ih =>
    intro s hs
    rw [descendants_cons] at hs
    rcases List.mem_append.1 hs with hs | hs
    · exact hn.mono (under_union (by simp)) s hs
    · have hlater : (union realms).Under (union (r :: realms)) := by
        refine ⟨?_, ?_, ?_⟩ <;> exact fun _ ⟨r', hr', h⟩ => ⟨r', List.mem_cons_of_mem _ hr', h⟩
      exact ih.mono hlater s hs

/-- A parallel node whose children do not read or write what another one writes, and share no executor,
ends with what its children give when they run one after another, and leaves the same session state. When
no executor aborts, both ways come to their end. -/
theorem parallel_agrees_in_order {name : String} {description : Option String} {children : List Node}
    {realms : List Realm} {input : StepInput} (hf : ctx.feed = none)
    (hk : List.Forall₂ (fun r n => KeepTo r [n]) realms children) (hapart : realms.Pairwise Apart)
    (ho : ∀ e e', others e e' → (everything (union realms).tallies).Spared ctx e e')
    (he : e.isCancelled ctx.token = false) :
    (∀ o f results f',
      InRow others ((parallel name description children).execute input ctx).run e (.done o) f →
      InOrder others (children.map fun n => (n.execute input ctx).run) e results f' →
      (∃ ms, o = (Join.result name (children.map Node.name) results).map fun o =>
        { o with durationMs := some ms }) ∧
      f.states.get ctx.state = f'.states.get ctx.state) ∧
    (Steady children →
      (∀ p f, InRow others ((parallel name description children).execute input ctx).run e p f →
        ∃ o f', InRow others p f (.done o) f') ∧
      ∃ results f', InOrder others (children.map fun n => (n.execute input ctx).run) e results f') := by
  have halike : List.Forall₂ (fun r p => ∀ lag, Fiber.Alike r ctx lag p p) realms
      (runAll input ctx children) := alike_children hf hk
  have hkept : Kept ctx realms (runAll input ctx children) := halike.imp fun _ _ h => h 0
  have hunder : ∀ r ∈ realms, r.Under (everything (union realms).tallies) :=
    fun r hr => under_everything (under_union hr).tallies
  rw [← runAll_eq_map]
  refine ⟨fun o f results f' hrow horder => ?_, fun hsteady => ⟨fun p f hrow => ?_, ?_⟩⟩
  · obtain ⟨results', e₁, e₂, hs₁, hall, hend⟩ := inRow_parallel hf ho he hrow
    have he₁ : e₁.isCancelled ctx.token = false := hs₁.cancelled.trans he
    obtain ⟨⟨ps, hps, halone⟩, he₂, hlook⟩ :=
      alone_of_inRow hkept hapart hunder ho (.all _) he₁ hall
    rw [hps.of_done] at halone
    obtain ⟨rfl, hsame⟩ := agree_of_alone halike hapart (fun e e' h r hr => (ho e e' h).mono (hunder r hr))
      he₁ he (Nat.le_of_eq hs₁.now) (fun r hr => (hs₁.same.mono (hunder r hr)).symm) halone horder
    obtain ⟨hf₂, hout⟩ := hend he₂
    refine ⟨hout, SessionState.ext_get? fun key => ?_⟩
    rw [← hf₂.keys key (.inl trivial)]
    by_cases hkey : ∃ r ∈ realms, r.writes key
    · obtain ⟨r, hr, hw⟩ := hkey
      exact (hsame r hr).keys key (.inr hw)
    · -- A key that no child writes stays as it was.
      have hun : (onlooker key).Under (everything (union realms).tallies) :=
        under_everything fun _ h => h.elim
      have hra : ∀ r ∈ realms, r.Apart (onlooker key) :=
        fun r hr => apart_onlooker fun hw => hkey ⟨r, hr, hw⟩
      have hin := (horder.same hkept hra (fun e e' h => (ho e e' h).mono hun) he).1
      have hstart := (hs₁.same.mono hun).symm
      exact ((hlook _ hun hra).symm.trans (hstart.trans hin)).keys key (.inl rfl)
  · have hsteps {s : Step} (hs : step s ∈ descendants [parallel name description children]) :
        step s ∈ descendants children := by
      simpa [descendants, inside] using hs
    have hlively : RunTask.Lively (audience ctx.feed)
        ((parallel name description children).execute input ctx) :=
      lively_execute _ (fun s hs => hsteady s (hsteps hs)) input
    have hnode : RunTask.Alike (union realms) ctx 0
        ((parallel name description children).execute input ctx)
        ((parallel name description children).execute input ctx) :=
      alike_execute hf (fun s hs => keepTo_union hk s (hsteps hs)) input
    obtain ⟨hp, hf₁⟩ := hnode.kept_of_elapses (fun hs h he => h.stride he hs)
      (fun e e' h => (ho e e' h).cancelled) he hrow
    obtain ⟨o, f', hsolo⟩ := hp.completes (hlively.of_inRow hrow) hf₁
    exact ⟨o, f', hsolo.inRow⟩
  · refine InOrder.completes (S := audience ctx.feed) (fun e e' h => (ho e e' h).cancelled) hkept ?_ he
    rw [runAll_eq_map]
    intro p hp
    obtain ⟨n, hn, rfl⟩ := List.mem_map.1 hp
    exact lively_execute n (fun s hs => hsteady s (mem_descendants_of_mem hn hs)) input

private def errands : List Node :=
  [step { name := "count", executor := .counting "counter" (.text "one") ⟨0⟩ },
    step { name := "write", executor := .stateWriter "writer" "key" (.int 1) },
    step { name := "wait", executor := .slow "sleeper" 20 (.text "late"), timeoutMs := some 50 }]

private def morning : Engine :=
  { start := ⟨0, 0⟩, states := ⟨[∅]⟩, tokens := ⟨[{}]⟩, tallies := ⟨[{}]⟩ }

private def day : RunContext := { sessionId := "session", runId := "run", state := ⟨0⟩, token := ⟨0⟩ }

/-- Three errands at once come to what they come to one after another. -/
theorem parallel_agrees_in_order_errands : ∃ o f results f' ms,
    InRow (fun _ _ => False) ((parallel "errands" none errands).execute {} day).run morning (.done o) f ∧
    InOrder (fun _ _ => False) (errands.map fun n => (n.execute {} day).run) morning results f' ∧
    o = (Join.result "errands" (errands.map Node.name) results).map (fun o =>
      { o with durationMs := some ms }) ∧
    f.states.get day.state = f'.states.get day.state := by
  let counted : Realm := ⟨fun _ => False, fun _ => False, (· = ⟨0⟩)⟩
  let written : Realm := ⟨fun _ => False, (· = "key"), fun _ => False⟩
  have hkeeps : List.Forall₂ (fun r n => KeepTo r [n]) [counted, written, nothing] errands := by
    refine .cons ?_ (.cons ?_ (.cons ?_ .nil)) <;> intro s hs <;>
      simp only [descendants, inside, List.append_nil, List.mem_singleton, step.injEq] at hs <;> subst hs
    · exact fun _ _ => ⟨rfl, fun _ => trivial⟩
    · refine fun _ _ => ⟨fun s key hk => ?_, fun s s' _ key hk => ?_, trivial⟩
      · rw [SessionState.get?_insert, if_neg hk]
      · rw [SessionState.get?_insert, SessionState.get?_insert, if_pos hk, if_pos hk]
    · exact fun _ _ => trivial
  have hapart : [counted, written, nothing].Pairwise Apart := by
    refine .cons (fun r hr => ?_) (.cons (fun r hr => ?_) (.cons (by simp) .nil))
    · rcases List.mem_cons.1 hr with rfl | hr
      · exact ⟨fun _ h => h.elim, fun _ _ h => h.elim id id, fun _ _ h => h⟩
      · rw [List.mem_singleton.1 hr]
        exact apart_nothing _
    · rw [List.mem_singleton.1 hr]
      exact apart_nothing _
  have hsteady : Steady errands := by
    intro s hs
    simp only [errands, descendants, inside, List.nil_append, List.mem_cons, List.not_mem_nil, or_false,
      step.injEq] at hs
    rcases hs with rfl | rfl | rfl
    · exact fun _ _ => ⟨fun _ => trivial, fun _ => trivial⟩
    · exact fun _ _ => ⟨trivial, trivial⟩
    · exact fun _ _ => ⟨trivial, trivial⟩
  obtain ⟨hagree, hends⟩ := @parallel_agrees_in_order day (fun _ _ => False) morning "errands" none errands
    [counted, written, nothing] {} rfl hkeeps hapart (fun _ _ h => h.elim) rfl
  obtain ⟨hrow, results, f', horder⟩ := hends hsteady
  obtain ⟨o, f, hrun⟩ := hrow _ _ .refl
  obtain ⟨⟨ms, ho⟩, hstate⟩ := hagree o f results f' hrun horder
  exact ⟨o, f, results, f', ms, hrun, horder, ho, hstate⟩

end Node

end WorkflowEngine
