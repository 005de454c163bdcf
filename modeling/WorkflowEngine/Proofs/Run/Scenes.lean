import WorkflowEngine.Proofs.Run.Realms
import WorkflowEngine.Proofs.Session.Merge

/-!
# Scenes

What the executors of a run find and leave: the working copy of the session state and the tallies of their
calls. A script is reckoned on a scene without time passing, and without anybody who would be told of it.
Main statement: the reckoning of a script that stays in a realm leaves everything outside of it alone.
-/

namespace WorkflowEngine

structure Scene where
  state : SessionState
  tallies : Pool Tally

/-- The scene of a run. -/
def Engine.scene (e : Engine) (ctx : RunContext) : Scene := ⟨e.states.get ctx.state, e.tallies⟩

/-! ## Reckoning -/

/-- What work comes to on a scene: a value or a fault, and the scene that it leaves. -/
def Reckoning (α : Type) := Scene → Except Fault α × Scene

namespace Reckoning

variable {α β : Type}

instance : Monad Reckoning where
  pure a v := (.ok a, v)
  bind m k v := match m v with
    | (.ok a, v) => k a v
    | (.error fault, v) => (.error fault, v)

def ofResult (q : Except Fault α) : Reckoning α := fun v => (q, v)

/-- The result of a reckoning, be it a value or a fault. -/
def result (m : Reckoning α) : Reckoning (Except Fault α) := fun v => (.ok (m v).1, (m v).2)

theorem bind_apply (m : Reckoning α) (k : α → Reckoning β) (v : Scene) :
    (m >>= k) v = match m v with
      | (.ok a, v) => k a v
      | (.error fault, v) => (.error fault, v) :=
  rfl

theorem bind_ok {m : Reckoning α} {v v' : Scene} {a : α} (h : m v = (.ok a, v'))
    (k : α → Reckoning β) : (m >>= k) v = k a v' := by
  rw [bind_apply, h]

theorem bind_error {m : Reckoning α} {v v' : Scene} {fault : Fault} (h : m v = (.error fault, v'))
    (k : α → Reckoning β) : (m >>= k) v = (.error fault, v') := by
  rw [bind_apply, h]

theorem bind_pure (m : Reckoning α) : (m >>= Pure.pure) = m := by
  funext v
  rw [bind_apply]
  generalize m v = q
  obtain ⟨q, w⟩ := q
  cases q <;> rfl

end Reckoning

/-- What a script comes to when nobody cancels its run and nothing is aborted. -/
def Script.reckon {ε α : Type} : Script ε α → Reckoning α
  | finish a, v => (.ok a, v)
  | fail fault, v => (.error fault, v)
  | look next, v => (next v.state).reckon v
  | change f next, v => next.reckon { v with state := f v.state }
  | sleep _ next, v | cancel next, v | emit _ next, v => next.reckon v
  | cancelled next, v => (next false).reckon v
  | count tally next, v =>
    (next (v.tallies.get tally).calls).reckon
      { v with tallies := v.tallies.modify tally fun t => ⟨t.calls + 1⟩ }
  | abort message, v => (.error (.runtime message), v)

/-! ## Realms of scenes -/

namespace Realm

variable {r r' : Realm} {v v' v'' w : Scene}

/-- A realm looks the same on two scenes. -/
structure Agree (r : Realm) (v v' : Scene) : Prop where
  keys : v.state.AgreeOn r.sees v'.state
  tallies : ∀ tally, r.tallies tally → v.tallies.get? tally = v'.tallies.get? tally

namespace Agree

theorem refl (r : Realm) (v : Scene) : r.Agree v v := ⟨fun _ _ => rfl, fun _ _ => rfl⟩

theorem symm (h : r.Agree v v') : r.Agree v' v :=
  ⟨fun key hk => (h.keys key hk).symm, fun tally ht => (h.tallies tally ht).symm⟩

theorem trans (h : r.Agree v v') (h' : r.Agree v' v'') : r.Agree v v'' :=
  ⟨fun key hk => (h.keys key hk).trans (h'.keys key hk),
    fun tally ht => (h.tallies tally ht).trans (h'.tallies tally ht)⟩

theorem mono (h : r'.Agree v v') (hr : r.Under r') : r.Agree v v' :=
  ⟨fun key hk => h.keys key (hr.sees hk), fun tally ht => h.tallies tally (hr.tallies tally ht)⟩

end Agree

/-- What work within a realm leaves alone on a scene. -/
structure Spans (r : Realm) (v v' : Scene) : Prop where
  keys : ∀ key, ¬ r.writes key → v'.state.get? key = v.state.get? key
  tallies : ∀ tally, ¬ r.tallies tally → v'.tallies.get? tally = v.tallies.get? tally

namespace Spans

theorem refl (r : Realm) (v : Scene) : r.Spans v v := ⟨fun _ _ => rfl, fun _ _ => rfl⟩

theorem trans (h : r.Spans v v') (h' : r.Spans v' v'') : r.Spans v v'' :=
  ⟨fun key hk => (h'.keys key hk).trans (h.keys key hk),
    fun tally ht => (h'.tallies tally ht).trans (h.tallies tally ht)⟩

theorem mono (h : r.Spans v v') (hr : r.Under r') : r'.Spans v v' :=
  ⟨fun key hk => h.keys key fun hw => hk (hr.writes key hw),
    fun tally ht => h.tallies tally fun hw => ht (hr.tallies tally hw)⟩

theorem agree (h : r.Spans v v') (hr : r.Apart r') : r'.Agree v v' :=
  ⟨fun key hk => (h.keys key fun hw => hr.left key hw hk).symm,
    fun tally ht => (h.tallies tally fun hw => hr.tallies tally hw ht).symm⟩

end Spans

/-- Work on a scene as a run shows it. -/
structure Shows (r : Realm) (ctx : RunContext) (e : Engine) (v : Scene) : Prop where
  copy : (e.states.get? ctx.state).isSome
  agree : r.Agree (e.scene ctx) v

namespace Shows

variable {ctx : RunContext} {e e' : Engine}

theorem mono (h : r'.Shows ctx e v) (hr : r.Under r') : r.Shows ctx e v := ⟨h.copy, h.agree.mono hr⟩

theorem recast (h : r.Shows ctx e v) (ha : r.Agree v v') : r.Shows ctx e v' :=
  ⟨h.copy, h.agree.trans ha⟩

theorem same (h : r.Shows ctx e v) (hs : r.Same ctx e e') : r.Shows ctx e' v :=
  ⟨hs.copy ▸ h.copy, ⟨fun key hk => (hs.keys key hk).symm.trans (h.agree.keys key hk),
    fun tally ht => (hs.tallies tally ht).symm.trans (h.agree.tallies tally ht)⟩⟩

end Shows

end Realm

/-! ## Scripts -/

/-- A script that looks at the session state and changes it within a realm and counts on its tallies. -/
def Script.StaysIn (r : Realm) {ε α : Type} : Script ε α → Prop
  | finish _ | fail _ | abort _ => True
  | look next =>
    (∀ s s', SessionState.AgreeOn r.sees s s' → next s = next s') ∧ ∀ s, (next s).StaysIn r
  | change f next =>
    (∀ s key, ¬ r.writes key → (f s).get? key = s.get? key) ∧
      (∀ s s', SessionState.AgreeOn r.sees s s' → SessionState.AgreeOn r.writes (f s) (f s')) ∧
      next.StaysIn r
  | sleep _ next | emit _ next | cancel next => next.StaysIn r
  | cancelled next => (next false).StaysIn r
  | count tally next => r.tallies tally ∧ ∀ calls, (next calls).StaysIn r

namespace Script

variable {r : Realm} {ε α : Type} {script : Script ε α}

/-- Every script stays in the realm of everything. -/
theorem staysIn_everything (script : Script ε α) :
    script.StaysIn (Realm.everything fun _ => True) := by
  have hsame {s s' : SessionState}
      (h : SessionState.AgreeOn (Realm.everything fun _ => True).sees s s') : s = s' :=
    SessionState.ext_get? fun key => h key (.inl trivial)
  induction script with
  | finish a | fail fault | abort message => trivial
  | look next ih => exact ⟨fun s s' hs => congrArg next (hsame hs), ih⟩
  | change f next ih =>
    refine ⟨fun s key hk => (hk trivial).elim, fun s s' hs key _ => ?_, ih⟩
    rw [hsame hs]
  | sleep ms next ih | emit event next ih | cancel next ih => exact ih
  | cancelled next ih => exact ih false
  | count tally next ih => exact ⟨trivial, ih⟩

theorem reckon_silent (script : Script Empty α) : (script.silent : Script ε α).reckon = script.reckon := by
  funext v
  induction script generalizing v with
  | finish a | fail fault | abort message => rfl
  | look next ih | cancelled next ih | count tally next ih => exact ih _ _
  | change f next ih | sleep ms next ih | cancel next ih => exact ih _
  | emit event next => exact event.elim

theorem StaysIn.silent {script : Script Empty α} (h : script.StaysIn r) :
    (script.silent : Script ε α).StaysIn r := by
  induction script with
  | finish a | fail fault | abort message => trivial
  | look next ih => exact ⟨fun s s' hs => congrArg Script.silent (h.1 s s' hs), fun s => ih s (h.2 s)⟩
  | change f next ih => exact ⟨h.1, h.2.1, ih h.2.2⟩
  | sleep ms next ih | cancel next ih => exact ih h
  | cancelled next ih => exact ih false h
  | emit event next => exact event.elim
  | count tally next ih => exact ⟨h.1, fun calls => ih calls (h.2 calls)⟩

theorem reckon_map {β : Type} (script : Script ε α) (f : α → β) (v : Scene) :
    (script.bind fun a => .finish (f a)).reckon v = ((script.reckon v).1.map f, (script.reckon v).2) := by
  induction script generalizing v with
  | finish a | fail fault | abort message => rfl
  | look next ih | cancelled next ih | count tally next ih => exact ih _ _
  | change f next ih | sleep ms next ih | cancel next ih | emit event next ih => exact ih _

theorem StaysIn.map {β : Type} (h : script.StaysIn r) (f : α → β) :
    (script.bind fun a => .finish (f a)).StaysIn r := by
  induction script with
  | finish a | fail fault | abort message => trivial
  | look next ih =>
    exact ⟨fun s s' hs => congrArg (Script.bind · _) (h.1 s s' hs), fun s => ih s (h.2 s)⟩
  | change f next ih => exact ⟨h.1, h.2.1, ih h.2.2⟩
  | sleep ms next ih | cancel next ih | emit event next ih => exact ih h
  | cancelled next ih => exact ih false h
  | count tally next ih => exact ⟨h.1, fun calls => ih calls (h.2 calls)⟩

/-- The reckoning of a script that stays in a realm leaves everything outside of it alone. -/
theorem StaysIn.spans (h : script.StaysIn r) (v : Scene) : r.Spans v (script.reckon v).2 := by
  induction script generalizing v with
  | finish a | fail fault | abort message => exact .refl r v
  | look next ih => exact ih _ (h.2 _) v
  | change f next ih =>
    have hchange : r.Spans v { v with state := f v.state } := ⟨h.1 v.state, fun _ _ => rfl⟩
    exact hchange.trans (ih h.2.2 _)
  | sleep ms next ih | emit event next ih | cancel next ih => exact ih h v
  | cancelled next ih => exact ih false h v
  | count tally next ih =>
    have hcount : r.Spans v { v with tallies := v.tallies.modify tally fun t => ⟨t.calls + 1⟩ } :=
      ⟨fun _ _ => rfl, fun t ht => Pool.get?_modify_ne _ (fun he : t = tally => ht (he ▸ h.1)) _⟩
    exact hcount.trans (ih _ (h.2 _) _)

end Script

end WorkflowEngine
