import Stencil.Proofs.Render.Shape

/-!
# Longer paths

A path that goes on after a dot goes on from what its first part finds. Inside a value this holds of
every split of the segments (`Json.find?_append`), and of an inspector when the first part leads to
a value that it looks into as the general one does (`Inspector.find?_append`).
-/

set_option autoImplicit false

namespace Stencil

namespace Json

/-- Without segments a value finds itself. -/
theorem find?_nil (value : Json) : value.find? [] = some value := by
  cases value <;> rw [find?]

/-- No segment leads into a scalar. -/
theorem find?_of_scalar {value : Json} (h : value.shape = .scalar) (segment : Bytes)
    (segments : List Bytes) : value.find? (segment :: segments) = none := by
  cases value with
  | arr | obj => cases h
  | _ => rw [find?] <;> simp

/-- A path inside a value goes on from what its first part finds. The induction is on the first
part. -/
theorem find?_append (value : Json) (segments more : List Bytes) :
    value.find? (segments ++ more) = (value.find? segments).bind (·.find? more) := by
  induction segments generalizing value with
  | nil => rw [List.nil_append, find?_nil, Option.bind_some]
  | cons segment rest ih =>
    cases value with
    | arr items =>
      rw [List.cons_append, find?, find?]
      cases item? items segment with
      | none => rfl
      | some item => exact ih item
    | obj fields =>
      rw [List.cons_append, find?, find?]
      cases Table.find? fields segment with
      | none => rfl
      | some entry => exact ih entry
    | _ =>
      rw [List.cons_append, find?_of_scalar rfl, find?_of_scalar rfl]
      rfl

end Json

namespace Inspector

/-- The general inspector looks into a value as far as a path goes. -/
theorem find?_json [JsonLibrary] (value : Json) (segments : List Bytes) :
    json.find? value segments = value.find? segments := by
  cases segments with
  | nil =>
    rw [Json.find?_nil]
    cases value <;> rfl
  | cons segment rest =>
    cases value with
    | arr | obj => rfl
    | _ =>
      rw [Json.find?_of_scalar rfl]
      rfl

/-- What the inspector of a shape finds inside a value is what the general one finds. -/
theorem find?_of_ofShape [JsonLibrary] {shape : Shape} {value found : Json} {segment : Bytes}
    {segments : List Bytes}
    (h : (ofShape shape).find? value (segment :: segments) = some found) (more : List Bytes) :
    (ofShape shape).find? value (segment :: segments ++ more) =
      value.find? (segment :: segments ++ more) := by
  cases shape with
  | scalar => cases h
  | sequence | mapping =>
    cases value <;> first | rfl | cases h

/-- A path goes on from what its first part finds, when the inspector looks into that as the general
one does. -/
theorem find?_append [JsonLibrary] {shape : Shape} {value found : Json} {segment next : Bytes}
    {segments : List Bytes}
    (h : (ofShape shape).find? value (segment :: segments) = some found)
    (hspans : shape.Spans found) (more : List Bytes) :
    (ofShape shape).find? value (segment :: segments ++ next :: more) =
      (ofShape shape).find? found (next :: more) := by
  have hfound : value.find? (segment :: segments) = some found := by
    have hgeneral := find?_of_ofShape h []
    rw [List.append_nil] at hgeneral
    exact hgeneral.symm.trans h
  rw [find?_of_ofShape h, Json.find?_append, hfound, Option.bind_some, find?_ofShape hspans,
    find?_json]

end Inspector

namespace Variable

/-- A path that goes on after a dot looks into the variable with the segments of both parts. -/
theorem lookUp_append {bindings : Table Variable} {path name : Bytes} {segments : List Bytes}
    (hsplit : path.splitOn Byte.dot = name :: segments) (rest : Bytes) :
    lookUp bindings (path ++ Byte.dot :: rest) =
      match bindings.find? name with
      | none => (none, none)
      | some found =>
        (some found, found.inspector.find? found.value (segments ++ rest.splitOn Byte.dot)) := by
  have hrest : (segments ++ rest.splitOn Byte.dot).isEmpty = false := by
    simp [List.splitOn_ne_nil]
  rw [lookUp, List.splitOn_append_cons_self, hsplit, List.cons_append]
  cases hname : bindings.find? name with
  | none => simp only [hname]
  | some found => simp only [hname, hrest, Bool.false_eq_true, if_false]

end Variable

end Stencil
