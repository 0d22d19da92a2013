import Stencil.Json.View
import Stencil.Operator
import Stencil.Render.Failure

/-!
# Inspectors

An inspector is a named way to look into a value: it finds what a path addresses, compares the value
with a text, and lists its elements; it may also convert a value when it is bound. Three inspectors
serve the three shapes of values. The general one takes the shape of each value it meets, and the
converting ones behave like it after the conversion.
-/

set_option autoImplicit false

namespace Stencil

/-- A way of looking at values: how paths lead into them, how they are compared and listed, and what
becomes of them when they are bound. -/
structure Inspector where
  name : Bytes
  /-- What a path addresses inside a value. -/
  find? : Json → List Bytes → Option Json
  /-- Whether a comparison of a value with a text holds. -/
  compare : Json → Operator → Bytes → Except Failure Bool
  /-- The keys and elements that a loop over a value visits. -/
  elements : Json → Except Failure (List (Json × Json))
  /-- What becomes of a value that is bound to a variable. -/
  bind : Json → Except Failure Json

/-- The three shapes of a value. -/
inductive Shape where
  | scalar
  | sequence
  | mapping
  deriving DecidableEq, Repr

namespace Shape

/-- The name of a shape, which is that of the inspector for it. -/
def name : Shape → Bytes
  | scalar => ascii "scalar"
  | sequence => ascii "sequence"
  | mapping => ascii "mapping"

end Shape

namespace Json

/-- The shape of a value: arrays are sequences, objects mappings, and all else is scalar. -/
def shape : Json → Shape
  | .arr _ => .sequence
  | .obj _ => .mapping
  | _ => .scalar

/-- The item of a list that a path segment numbers. -/
def item? (items : List Json) (segment : Bytes) : Option Json :=
  match Numeral.word? segment with
  | some n => if n.toInt < 0 then none else items[n.toInt.toNat]?
  | none => none

/-- What a path addresses inside a value: items by number, fields by key. -/
def find? : Json → List Bytes → Option Json
  | value, [] => some value
  | .arr items, segment :: path =>
    match item? items segment with
    | some item => find? item path
    | none => none
  | .obj fields, segment :: path =>
    match Table.find? fields segment with
    | some entry => find? entry path
    | none => none
  | _, _ :: _ => none
termination_by _ path => path.length

variable [JsonLibrary]

/-- Whether a comparison of a number with a text holds: as numbers when the text holds one, else as
texts. -/
def compareNumber (number : Binary64) (text : Bytes) (op : Operator) (rhs : Bytes) : Bool :=
  match Numeral.real? rhs with
  | some r => op.holdsReal number r
  | none => op.holdsText text rhs

/-- Whether a comparison of a scalar with a text holds. Null equals the empty text and the words for
null, and is in no order with anything. Strings are equal as texts and ordered as numbers when both
hold one. -/
def compareScalar (value : Json) (op : Operator) (rhs : Bytes) : Except JsonFault Bool :=
  match value with
  | .null =>
    let isNull := rhs.isEmpty || rhs == ascii "nil" || rhs == ascii "null"
    .ok (match op with
      | .equal => isNull
      | .notEqual => !isNull
      | _ => false)
  | .bool truth =>
    let text := ascii (if truth then "true" else "false")
    if rhs == ascii "true" || rhs == ascii "false" then
      .ok (op.holdsInt truth.toNat (rhs == ascii "true").toNat)
    else .ok (op.holdsText text rhs)
  | .int n =>
    match Word.ofInt? n, Numeral.word? rhs with
    | some l, some r => .ok (op.holdsInt l.toInt r.toInt)
    | _, _ => .ok (compareNumber (Binary64.ofInt n) (Decimal.ofInt n) op rhs)
  | .float x => .ok (compareNumber x (floatText x) op rhs)
  | .str text =>
    match Numeral.real? text, Numeral.real? rhs with
    | some l, some r =>
      if op == .equal || op == .notEqual then .ok (op.holdsText text rhs)
      else .ok (op.holdsReal l r)
    | _, _ => .ok (op.holdsText text rhs)
  | value => do return op.holdsText (← value.print) rhs

/-- Whether a comparison of a container with a text holds: its size with the integer that the text
holds, else its compact form with the text. -/
def compareContainer (value : Json) (op : Operator) (rhs : Bytes) : Except JsonFault Bool :=
  match Numeral.word? rhs with
  | some r => .ok (op.holdsInt value.size r.toInt)
  | none => do return op.holdsText (← value.print) rhs

/-- The items of an array with their numbers. -/
def sequenceElements : Json → List (Json × Json)
  | .arr items => items.zipIdx.map fun (item, i) => (.int i, item)
  | _ => []

/-- The fields of an object with their keys. -/
def mappingElements : Json → List (Json × Json)
  | .obj fields => fields.map fun (key, value) => (.str key, value)
  | _ => []

end Json

namespace Inspector

variable [JsonLibrary]

/-- The inspector of scalars: it looks into nothing. -/
def scalar : Inspector where
  name := Shape.scalar.name
  find? value path := if path.isEmpty then some value else none
  compare value op rhs := Failure.ofJson (value.compareScalar op rhs)
  elements _ := .ok []
  bind := .ok

/-- Looks into arrays only, and compares and lists every value as a sequence. -/
def sequence : Inspector where
  name := Shape.sequence.name
  find? value path :=
    match value, path with
    | value, [] => some value
    | .arr items, path => (Json.arr items).find? path
    | _, _ => none
  compare value op rhs := Failure.ofJson (value.compareContainer op rhs)
  elements value := .ok value.sequenceElements
  bind := .ok

/-- Looks into objects only, and compares and lists every value as a mapping. -/
def mapping : Inspector where
  name := Shape.mapping.name
  find? value path :=
    match value, path with
    | value, [] => some value
    | .obj fields, path => (Json.obj fields).find? path
    | _, _ => none
  compare value op rhs := Failure.ofJson (value.compareContainer op rhs)
  elements value := .ok value.mappingElements
  bind := .ok

/-- The inspector for values of a shape. -/
def ofShape : Shape → Inspector
  | .scalar => scalar
  | .sequence => sequence
  | .mapping => mapping

/-- The general inspector: that of the shape of each value. -/
def json : Inspector where
  name := ascii "json"
  find? value path := (ofShape value.shape).find? value path
  compare value op rhs := (ofShape value.shape).compare value op rhs
  elements value := (ofShape value.shape).elements value
  bind := .ok

/-- The kinds that a value can be turned into when it is bound. -/
inductive Conversion where
  | string
  | int
  | float
  | bool
  /-- A string becomes the document that it holds. -/
  | document
  deriving DecidableEq, Repr

namespace Conversion

/-- The name of the inspector of a conversion. -/
def name : Conversion → Bytes
  | string => ascii "string"
  | int => ascii "int"
  | float => ascii "float"
  | bool => ascii "bool"
  | document => ascii "jsonstr"

/-- What a value becomes through a conversion, or why it has no such form. -/
def apply (conversion : Conversion) (value : Json) : Except Failure Json :=
  match conversion with
  | string => do return .str (← Failure.ofJson value.toText)
  | int =>
    match value.toWord? with
    | some n => .ok (Json.ofWord n)
    | none => do .error (.notInteger (← Failure.ofJson value.print))
  | float =>
    match value.toReal? with
    | some x => .ok (.float x)
    | none => do .error (.notNumber (← Failure.ofJson value.print))
  | bool =>
    match value with
    | .str text =>
      if text == ascii "true" then .ok (.bool true)
      else if text == ascii "false" then .ok (.bool false)
      else .ok (.bool !value.isEmpty)
    | value => .ok (.bool !value.isEmpty)
  | document =>
    match value with
    | .str text =>
      match JsonLibrary.parse text with
      | .ok parsed => .ok parsed
      | .error .malformed => .error .notDocument
      | .error fault => .error (.json fault)
    | value => .ok value

end Conversion

/-- The general inspector with a conversion of the values it binds. -/
def converting (conversion : Conversion) : Inspector :=
  { json with name := conversion.name, bind := conversion.apply }

/-- The inspectors that every registry begins with, under their names. -/
def builtins : Table Inspector :=
  [json, scalar, sequence, mapping, converting .string, converting .int, converting .float,
    converting .bool, converting .document].map fun inspector => (inspector.name, inspector)

end Inspector

end Stencil
