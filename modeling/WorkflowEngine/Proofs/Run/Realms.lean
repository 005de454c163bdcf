import WorkflowEngine.Run.Context

/-!
# Realms

What some executors read and write: keys of the session state and the tallies of their calls. Work within
one realm is not seen in another one that is apart from it. Main statements: a script within a realm does
the same wherever the realm looks the same, and leaves everything outside of the realm alone.
-/

namespace WorkflowEngine

structure Realm where
  reads : String → Prop
  writes : String → Prop
  tallies : Ref Tally → Prop

namespace SessionState

/-- Two states hold the same under some keys. -/
def AgreeOn (keys : String → Prop) (s s' : SessionState) : Prop :=
  ∀ key, keys key → s.get? key = s'.get? key

end SessionState

namespace Realm

/-- The keys that matter to work within a realm. -/
def sees (r : Realm) (key : String) : Prop := r.reads key ∨ r.writes key

/-- A realm lies within another one. -/
structure Under (r r' : Realm) : Prop where
  reads : ∀ key, r.reads key → r'.reads key
  writes : ∀ key, r.writes key → r'.writes key
  tallies : ∀ tally, r.tallies tally → r'.tallies tally

theorem Under.refl (r : Realm) : r.Under r := ⟨fun _ h => h, fun _ h => h, fun _ h => h⟩

theorem Under.sees {r r' : Realm} (h : r.Under r') {key : String} (hk : r.sees key) :
    r'.sees key :=
  hk.imp (h.reads key) (h.writes key)

/-- No key that one of two realms writes matters to the other one, and no tally is shared. -/
structure Apart (r r' : Realm) : Prop where
  left : ∀ key, r.writes key → ¬ r'.sees key
  right : ∀ key, r'.writes key → ¬ r.sees key
  tallies : ∀ tally, r.tallies tally → ¬ r'.tallies tally

theorem Apart.symm {r r' : Realm} (h : r.Apart r') : r'.Apart r :=
  ⟨h.right, h.left, fun tally ht hr => h.tallies tally hr ht⟩

/-- All of some realms together. -/
def union (realms : List Realm) : Realm where
  reads key := ∃ r ∈ realms, r.reads key
  writes key := ∃ r ∈ realms, r.writes key
  tallies tally := ∃ r ∈ realms, r.tallies tally

theorem under_union {r : Realm} {realms : List Realm} (h : r ∈ realms) : r.Under (union realms) :=
  ⟨fun _ hk => ⟨r, h, hk⟩, fun _ hk => ⟨r, h, hk⟩, fun _ ht => ⟨r, h, ht⟩⟩

theorem union_under {r : Realm} {realms : List Realm} (h : ∀ r' ∈ realms, r'.Under r) :
    (union realms).Under r where
  reads := fun key ⟨r', hr, hk⟩ => (h r' hr).reads key hk
  writes := fun key ⟨r', hr, hk⟩ => (h r' hr).writes key hk
  tallies := fun tally ⟨r', hr, ht⟩ => (h r' hr).tallies tally ht

theorem apart_union {r : Realm} {realms : List Realm} (h : ∀ r' ∈ realms, r.Apart r') :
    r.Apart (union realms) where
  left := by
    rintro key hw (⟨r', hr, hk⟩ | ⟨r', hr, hk⟩)
    · exact (h r' hr).left key hw (.inl hk)
    · exact (h r' hr).left key hw (.inr hk)
  right := fun key ⟨r', hr, hw⟩ => (h r' hr).right key hw
  tallies := fun tally ht ⟨r', hr, ht'⟩ => (h r' hr).tallies tally ht ht'

/-- Every key of the session state, and some tallies. -/
def everything (tallies : Ref Tally → Prop) : Realm := ⟨fun _ => True, fun _ => True, tallies⟩

theorem under_everything {r : Realm} {tallies : Ref Tally → Prop}
    (h : ∀ tally, r.tallies tally → tallies tally) : r.Under (everything tallies) :=
  ⟨fun _ _ => trivial, fun _ _ => trivial, h⟩

def nothing : Realm := ⟨fun _ => False, fun _ => False, fun _ => False⟩

theorem nothing_under (r : Realm) : nothing.Under r :=
  ⟨fun _ h => h.elim, fun _ h => h.elim, fun _ h => h.elim⟩

theorem apart_nothing (r : Realm) : r.Apart nothing :=
  ⟨fun _ _ hk => hk.elim id id, fun _ hk => hk.elim, fun _ _ ht => ht⟩

/-- The realm of one who looks at a key only. -/
def onlooker (key : String) : Realm where
  reads := (· = key)
  writes _ := False
  tallies _ := False

theorem apart_onlooker {r : Realm} {key : String} (h : ¬ r.writes key) :
    r.Apart (onlooker key) where
  left := by
    rintro _ hw (rfl | hk)
    · exact h hw
    · exact hk
  right _ hk := hk.elim
  tallies _ _ ht := ht

variable {r r' : Realm} {ctx : RunContext} {e e' e'' f f' : Engine}

/-- A realm looks the same in two engines, as far as the working copy of a run shows. -/
structure Same (r : Realm) (ctx : RunContext) (e e' : Engine) : Prop where
  copy : (e.states.get? ctx.state).isSome = (e'.states.get? ctx.state).isSome
  keys : SessionState.AgreeOn r.sees (e.states.get ctx.state) (e'.states.get ctx.state)
  tallies : ∀ tally, r.tallies tally → e.tallies.get? tally = e'.tallies.get? tally

namespace Same

theorem refl (r : Realm) (ctx : RunContext) (e : Engine) : r.Same ctx e e :=
  ⟨rfl, fun _ _ => rfl, fun _ _ => rfl⟩

theorem symm (h : r.Same ctx e e') : r.Same ctx e' e :=
  ⟨h.copy.symm, fun key hk => (h.keys key hk).symm, fun tally ht => (h.tallies tally ht).symm⟩

theorem trans (h : r.Same ctx e e') (h' : r.Same ctx e' e'') : r.Same ctx e e'' :=
  ⟨h.copy.trans h'.copy, fun key hk => (h.keys key hk).trans (h'.keys key hk),
    fun tally ht => (h.tallies tally ht).trans (h'.tallies tally ht)⟩

theorem mono (h : r'.Same ctx e e') (hr : r.Under r') : r.Same ctx e e' :=
  ⟨h.copy, fun key hk => h.keys key (hr.sees hk), fun tally ht => h.tallies tally (hr.tallies tally ht)⟩

/-- Time is nothing that a realm shows. -/
theorem later (r : Realm) (ctx : RunContext) (e : Engine) (now : Nat) :
    r.Same ctx e { e with now } :=
  ⟨rfl, fun _ _ => rfl, fun _ _ => rfl⟩

end Same

/-- What an act within a realm leaves alone. -/
structure Frame (r : Realm) (ctx : RunContext) (e e' : Engine) : Prop where
  copy : (e'.states.get? ctx.state).isSome = (e.states.get? ctx.state).isSome
  keys : ∀ key, ¬ r.writes key →
    (e'.states.get ctx.state).get? key = (e.states.get ctx.state).get? key
  tallies : ∀ tally, ¬ r.tallies tally → e'.tallies.get? tally = e.tallies.get? tally
  now : e'.now = e.now
  cancelled : e'.isCancelled ctx.token = e.isCancelled ctx.token

namespace Frame

theorem refl (r : Realm) (ctx : RunContext) (e : Engine) : r.Frame ctx e e :=
  ⟨rfl, fun _ _ => rfl, fun _ _ => rfl, rfl, rfl⟩

theorem trans (h : r.Frame ctx e e') (h' : r.Frame ctx e' e'') : r.Frame ctx e e'' where
  copy := h'.copy.trans h.copy
  keys key hk := (h'.keys key hk).trans (h.keys key hk)
  tallies tally ht := (h'.tallies tally ht).trans (h.tallies tally ht)
  now := h'.now.trans h.now
  cancelled := h'.cancelled.trans h.cancelled

/-- Work within a realm shows in no realm apart from it. -/
theorem same (h : r.Frame ctx e e') (hr : r.Apart r') : r'.Same ctx e e' where
  copy := h.copy.symm
  keys key hk := (h.keys key fun hw => hr.left key hw hk).symm
  tallies tally ht := (h.tallies tally fun hw => hr.tallies tally hw ht).symm

end Frame

/-- An act that neither shows in a realm nor takes time nor cancels the run. -/
structure Spared (r : Realm) (ctx : RunContext) (e e' : Engine) : Prop where
  same : r.Same ctx e e'
  now : e'.now = e.now
  cancelled : e'.isCancelled ctx.token = e.isCancelled ctx.token

theorem Spared.refl (r : Realm) (ctx : RunContext) (e : Engine) : r.Spared ctx e e :=
  ⟨.refl r ctx e, rfl, rfl⟩

theorem Spared.trans (h : r.Spared ctx e e') (h' : r.Spared ctx e' e'') : r.Spared ctx e e'' :=
  ⟨h.same.trans h'.same, h'.now.trans h.now, h'.cancelled.trans h.cancelled⟩

theorem Frame.spared (h : r.Frame ctx e e') (hr : r.Apart r') : r'.Spared ctx e e' :=
  ⟨h.same hr, h.now, h.cancelled⟩

theorem Spared.mono (h : r'.Spared ctx e e') (hr : r.Under r') : r.Spared ctx e e' :=
  ⟨h.same.mono hr, h.now, h.cancelled⟩

end Realm

/-! ## Scripts within a realm -/

/-- A script that looks at the session state and changes it within a realm, counts on its tallies and does
not cancel the run. -/
def Script.KeepsTo (r : Realm) {ε α : Type} : Script ε α → Prop
  | finish _ | fail _ | abort _ => True
  | look next =>
    (∀ s s', SessionState.AgreeOn r.sees s s' → next s = next s') ∧ ∀ s, (next s).KeepsTo r
  | change f next =>
    (∀ s key, ¬ r.writes key → (f s).get? key = s.get? key) ∧
      (∀ s s', SessionState.AgreeOn r.sees s s' → SessionState.AgreeOn r.writes (f s) (f s')) ∧
      next.KeepsTo r
  | sleep _ next | emit _ next => next.KeepsTo r
  | cancel _ => False
  | cancelled next => (next false).KeepsTo r
  | count tally next => r.tallies tally ∧ ∀ calls, (next calls).KeepsTo r

/-- An executor whose calls keep within a realm. -/
def Executor.KeepsTo (r : Realm) (x : Executor) : Prop :=
  ∀ input ctx, (x.call input ctx).KeepsTo r

namespace Script.KeepsTo

variable {r r' : Realm}

theorem mono {ε α : Type} {script : Script ε α} (h : script.KeepsTo r) (hr : r.Under r') :
    script.KeepsTo r' := by
  have hsees {s s' : SessionState} (hs : SessionState.AgreeOn r'.sees s s') :
      SessionState.AgreeOn r.sees s s' := fun key hk => hs key (hr.sees hk)
  induction script with
  | finish a | fail fault | abort message => trivial
  | look next ih => exact ⟨fun s s' hs => h.1 s s' (hsees hs), fun s => ih s (h.2 s)⟩
  | change f next ih =>
    obtain ⟨hkeep, hsame, hn⟩ := h
    refine ⟨fun s key hk => hkeep s key fun hw => hk (hr.writes key hw), fun s s' hs key hk => ?_, ih hn⟩
    by_cases hw : r.writes key
    · exact hsame s s' (hsees hs) key hw
    · rw [hkeep s key hw, hkeep s' key hw, hs key (.inr hk)]
  | sleep ms next ih | emit event next ih => exact ih h
  | cancel next => exact h
  | cancelled next ih => exact ih false h
  | count tally next ih => exact ⟨hr.tallies tally h.1, fun calls => ih calls (h.2 calls)⟩

end Script.KeepsTo

end WorkflowEngine
