import WorkflowEngine.Decimal.Layout
import WorkflowEngine.Decimal.Reading
import WorkflowEngine.Json.Printer
import WorkflowEngine.Text.Blank

/-!
# Content

What messages and step results carry: a text, a number, an object or a list.
-/

namespace WorkflowEngine

inductive Content where
  | text (s : String)
  | number (x : Binary64)
  | object (members : KeyMap Json)
  | list (items : List Json)
deriving Inhabited

namespace Content

/-- The content of a JSON value. A truth value becomes its word, and null has no content. -/
def ofJson : Json → Option Content
  | .null => none
  | .bool b => some (.text (if b then "true" else "false"))
  | .int n => some (.number (Binary64.ofInt n))
  | .float x => some (.number x)
  | .str s => some (.text s)
  | .obj members => some (.object (KeyMap.ofList members))
  | .arr items => some (.list items)

/-- A number that is not finite has no JSON value but null. -/
def toJson : Content → Json
  | .text s => .str s
  | .number x => if x.isFinite then .float x else .null
  | .object members => Json.ofMap members
  | .list items => .arr items

/-- The forms of content, each with its own reader, in the order in which they are tried. -/
def forms : List (Json → Option Content) :=
  [fun v => v.text?.map text, fun v => v.number?.map number,
   fun v => v.members?.map fun members => object (KeyMap.ofList members),
   fun v => v.items?.map list]

/-- Reads content in the first form that a value has. Truth values and null have none. -/
def decode? (v : Json) : Option Content := forms.findSome? (· v)

def asText? : Content → Option String
  | .text s => some s
  | _ => none

/-- The number a content stands for; a text counts when a number is all it holds. -/
def asNumber? : Content → Option Binary64
  | .number x => some x
  | .text s => Decimal.ofText? (Text.trim s)
  | _ => none

/-- The text of a content: texts as they are, numbers in running form, the rest over lines. -/
def toText : Content → String
  | .text s => s
  | .number x => Decimal.write Decimal.running x
  | c => c.toJson.pretty

def isEmpty : Content → Bool
  | .text s => s.isEmpty
  | .number _ => false
  | .object members => members.isEmpty
  | .list items => items.isEmpty

/-- Equality of contents, numbers and JSON values compared as such. -/
def same : Content → Content → Bool
  | .text a, .text b => a == b
  | .number a, .number b => a.same b
  | .object a, .object b => Json.sameMembers a.entries b.entries
  | .list a, .list b => Json.sameItems a b
  | _, _ => false

/-- The text of an optional content, empty for none. -/
def textOf (c : Option Content) : String := (c.map toText).getD ""

end Content

end WorkflowEngine
