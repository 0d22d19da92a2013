import Stencil.Json.Strict
import Stencil.Proofs.Context.Bound

/-!
# Paths in parts

A path may be followed in parts. Inside a value, what a path finds is what its second part finds in
what its first part finds, whatever arrays, objects and scalars lie on the way; in an array a
segment addresses the item that it numbers and nothing else (`Json.find?_arr_cons`). A path in a
template is a name and segments with dots between them, so this holds of what is read from a context
too (`Context.find?_joined`).
-/

set_option autoImplicit false

namespace Stencil

namespace Json

/-- A segment addresses an item of an array when it holds an integer that is an index of it. -/
theorem item?_eq_some_iff {items : List Json} {segment : Bytes} {item : Json} :
    item? items segment = some item ↔ ∃ (index : Nat) (hindex : index < items.length),
      (Numeral.word? segment).map Int64.toInt = some (index : Int) ∧ items[index] = item := by
  rw [item?]
  cases Numeral.word? segment with
  | none => simp
  | some n =>
    simp only [Option.map_some, Option.some.injEq]
    by_cases hnegative : n.toInt < 0
    · rw [if_pos hnegative]
      constructor
      · simp
      · rintro ⟨index, -, hword, -⟩
        omega
    · rw [if_neg hnegative, List.getElem?_eq_some_iff]
      constructor
      · rintro ⟨hindex, hitem⟩
        exact ⟨n.toInt.toNat, hindex, by omega, hitem⟩
      · rintro ⟨index, hindex, hword, hitem⟩
        obtain rfl : n.toInt.toNat = index := by omega
        exact ⟨hindex, hitem⟩

/-- A path into an array goes on in the item that its first segment numbers. -/
theorem find?_arr_cons {items : List Json} {segment : Bytes} {segments : List Bytes}
    {found : Json} :
    (arr items).find? (segment :: segments) = some found ↔
      ∃ (index : Nat) (hindex : index < items.length),
        (Numeral.word? segment).map Int64.toInt = some (index : Int) ∧
          items[index].find? segments = some found := by
  rw [find?]
  constructor
  · intro h
    cases hitem : item? items segment with
    | none => simp [hitem] at h
    | some item =>
      obtain ⟨index, hindex, hword, rfl⟩ := item?_eq_some_iff.mp hitem
      exact ⟨index, hindex, hword, by simpa [hitem] using h⟩
  · rintro ⟨index, hindex, hword, hfound⟩
    rw [item?_eq_some_iff.mpr ⟨index, hindex, hword, rfl⟩]
    exact hfound

end Json

/-- The path of a variable with segments inside its value. -/
def Variable.joined (name : Bytes) (segments : List Bytes) : Bytes :=
  [Byte.dot].intercalate (name :: segments)

/-- A path of a variable that was bound through the general inspector is followed in its value. -/
theorem Context.find?_joined_eq [JsonLibrary] {context : Context} {name : Bytes} {value : Json}
    {segments : List Bytes} (hname : Byte.dot ∉ name)
    (hsegments : ∀ segment ∈ segments, Byte.dot ∉ segment)
    (hbound : context.bindings.find? name = some { value, inspector := .json }) :
    context.find? (Variable.joined name segments) = value.find? segments := by
  have hsplit : (Variable.joined name segments).splitOn Byte.dot = name :: segments :=
    List.splitOn_intercalate Byte.dot (List.forall_mem_cons.mpr ⟨hname, hsegments⟩) (by simp)
  rw [find?, Variable.lookUp, hsplit]
  simp only [hbound]
  cases segments with
  | nil => exact (Json.find?_nil value).symm
  | cons segment rest => exact Inspector.find?_json value (segment :: rest)

/-- Paths compose. In every value the general inspector finds with one path after another what it
finds with the second one in what it finds with the first one. In an array it finds only what stands
at an index below the size, which the segment holds as an integer, whatever else the segment may be.
So for a variable that was bound through it, with a name and segments that hold no dot, a longer
path finds what its last segments find in what the path without them finds. -/
theorem Context.find?_joined [JsonLibrary] :
    (∀ (value : Json) (first second : List Bytes) (found : Json),
      Inspector.json.find? value (first ++ second) = some found ↔
        ∃ between, Inspector.json.find? value first = some between ∧
          Inspector.json.find? between second = some found) ∧
    (∀ (items : List Json) (segment : Bytes) (segments : List Bytes) (found : Json),
      Inspector.json.find? (.arr items) (segment :: segments) = some found ↔
        ∃ (index : Nat) (hindex : index < items.length),
          (Numeral.word? segment).map Int64.toInt = some (index : Int) ∧
            Inspector.json.find? items[index] segments = some found) ∧
    ∀ (context : Context) (name : Bytes) (value : Json) (first second : List Bytes),
      Byte.dot ∉ name → (∀ segment ∈ first ++ second, Byte.dot ∉ segment) →
      context.bindings.find? name = some { value, inspector := .json } →
        context.find? (Variable.joined name (first ++ second)) =
          (context.find? (Variable.joined name first)).bind (Inspector.json.find? · second) := by
  simp only [Inspector.find?_json]
  refine ⟨?_, fun items segment segments found => Json.find?_arr_cons, ?_⟩
  · intro value first second found
    rw [Json.find?_append, Option.bind_eq_some_iff]
  · intro context name value first second hname hsegments hbound
    have hfirst : ∀ segment ∈ first, Byte.dot ∉ segment :=
      fun segment hmem => hsegments segment (List.mem_append_left second hmem)
    rw [find?_joined_eq hname hsegments hbound, find?_joined_eq hname hfirst hbound,
      Json.find?_append]

/-- An array of an array and an object. -/
def Json.rows : Json :=
  .arr [.arr [.int 10, .int 20], .obj [(ascii "q", .arr [.int 30, .int 40])]]

open scoped JsonLibrary.Strict

/-- A path through an array, an object and an array again is followed in two parts; a segment may
number an item with a sign and blanks around. A segment that is negative, the size of the array, or
beyond all words addresses nothing. -/
theorem Context.find?_joined_rows :
    let context := ({} : Context).assign (ascii "x") .rows .json
    context.find? (ascii "x.1.q. +1 ") = some (.int 40) ∧
      ∀ segment ∈ [ascii "-1", ascii "2", ascii "18446744073709551616"],
        Inspector.json.find? .rows [segment] = none := by
  intro context
  obtain ⟨-, hitems, hjoined⟩ := find?_joined
  refine ⟨?_, ?_⟩
  · have hparts := hjoined context (ascii "x") .rows [ascii "1"] [ascii "q", ascii " +1 "]
      (by decide) (by decide) rfl
    calc context.find? (ascii "x.1.q. +1 ")
        = (context.find? (ascii "x.1")).bind (Inspector.json.find? · [ascii "q", ascii " +1 "]) :=
          hparts
      _ = some (.int 40) := by with_unfolding_all rfl
  · intro segment hsegment
    rw [Option.eq_none_iff_forall_ne_some]
    intro found hfound
    obtain ⟨index, hindex, hword, -⟩ := (hitems _ segment [] found).mp hfound
    have hindices : index = 0 ∨ index = 1 := by
      simp only [List.length_cons, List.length_nil] at hindex
      omega
    simp only [List.mem_cons, List.not_mem_nil, or_false] at hsegment
    obtain rfl | rfl := hindices <;> obtain rfl | rfl | rfl := hsegment <;>
      exact absurd hword (by decide)

end Stencil
