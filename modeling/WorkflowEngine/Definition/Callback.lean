import WorkflowEngine.Definition.Expression

/-!
# Callbacks

The tests of conditions, the end conditions of loops and the selections of routers, as they are
written in documents.
-/

namespace WorkflowEngine

/-- A number that a content stands for, at least as large as another. -/
def Content.isAtLeast (limit : Binary64) (c : Option Content) : Bool :=
  match c.bind Content.asNumber? with
  | some x => limit.le x
  | none => false

/-- The test of a condition. -/
inductive Test where
  | always (b : Bool)
  | fails (message : String)
  | equal (a b : Expression)
  | contains (e : Expression) (part : String)
  | endsWith (e : Expression) (part : String)
  | atLeast (e : Expression) (limit : Binary64)
  | isEmpty (e : Expression)

namespace Test

def sameContent : Option Content → Option Content → Bool
  | some a, some b => a.same b
  | none, none => true
  | _, _ => false

def eval (input : StepInput) : Test → Except String Bool
  | always b => .ok b
  | fails message => .error message
  | equal a b => .ok (sameContent (a.eval { input }) (b.eval { input }))
  | contains e part => .ok (Text.containsText (Content.textOf (e.eval { input })) part)
  | endsWith e part => .ok ((Content.textOf (e.eval { input })).endsWith part)
  | atLeast e limit => .ok (Content.isAtLeast limit (e.eval { input }))
  | isEmpty e => .ok ((e.eval { input }).all Content.isEmpty)

def ofJson? : Json → Option Test
  | .obj [("const", .bool b)] => some (always b)
  | .obj [("error", .str message)] => some (fails message)
  | .obj [("eq", .arr [a, b])] => do
    return equal (← Expression.ofJson? a) (← Expression.ofJson? b)
  | .obj [("contains", .arr [e, .str part])] => do return contains (← Expression.ofJson? e) part
  | .obj [("ends_with", .arr [e, .str part])] => do return endsWith (← Expression.ofJson? e) part
  | .obj [("ge", .arr [e, n])] => do return atLeast (← Expression.ofJson? e) (← n.number?)
  | .obj [("empty", e)] => do return isEmpty (← Expression.ofJson? e)
  | _ => none

end Test

/-- The end condition of a loop. -/
inductive EndTest where
  | always (b : Bool)
  | fails (message : String)
  /-- Fails when there are as many outputs. -/
  | failsAt (count : Nat) (message : String)
  | countAtLeast (least : Nat)
  | lastAtLeast (limit : Binary64)
  | lastContains (part : String)
  | sumAtLeast (limit : Binary64)

namespace EndTest

def last (outputs : List StepOutput) : Option Content := outputs.getLast?.bind StepOutput.content

def sum (outputs : List StepOutput) : Binary64 :=
  (outputs.filterMap fun o => o.content.bind Content.asNumber?).foldl Binary64.add .zero

def eval (outputs : List StepOutput) : EndTest → Except String Bool
  | always b => .ok b
  | fails message => .error message
  | failsAt count message => if outputs.length = count then .error message else .ok false
  | countAtLeast least => .ok (least ≤ outputs.length)
  | lastAtLeast limit => .ok (Content.isAtLeast limit (last outputs))
  | lastContains part => .ok (Text.containsText (Content.textOf (last outputs)) part)
  | sumAtLeast limit => .ok (limit.le (sum outputs))

def ofJson? : Json → Option EndTest
  | .obj [("const", .bool b)] => some (always b)
  | .obj [("error", .str message)] => some (fails message)
  | .obj [("error_at", .arr [n, .str message])] => do return failsAt (← n.word?) message
  | .obj [("count_ge", n)] => do return countAtLeast (← n.word?)
  | .obj [("last_ge", n)] => do return lastAtLeast (← n.number?)
  | .obj [("last_contains", .str part)] => some (lastContains part)
  | .obj [("sum_ge", n)] => do return sumAtLeast (← n.number?)
  | _ => none

end EndTest

/-- The selection of a router. -/
inductive Selection where
  | fails (message : String)
  | text (e : Expression)

namespace Selection

def eval (input : StepInput) : Selection → Except String String
  | fails message => .error message
  | text e => .ok (Content.textOf (e.eval { input }))

def ofJson? : Json → Option Selection
  | .obj [("error", .str message)] => some (fails message)
  | v => (Expression.ofJson? v).map text

end Selection

end WorkflowEngine
