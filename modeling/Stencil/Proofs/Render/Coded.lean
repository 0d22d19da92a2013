import Stencil.Proofs.Json.Strict
import Stencil.Proofs.Render.Obedience
import Stencil.Proofs.Template.Encoding
import Stencil.Proofs.Template.Markup

/-!
# Failures with a code

What can go wrong between the text of a template and its output: the template is refused, a variable
cannot be bound, or the rendering fails. With the built-in host everything that goes wrong has a
code, but for two faults of JSON values and one of messages (`Source.code?_of_fails`): a string is
to be written that is not UTF-8, a number is read that is too large, or a message quotes a value
that is too long. The first one needs such a string in the template or in the variables.
-/

set_option autoImplicit false

namespace Stencil

/-! ## Two disciplines -/

/-- A text that is refused as a document without being malformed has a number that is too large. -/
theorem Json.eq_outOfRange_of_parse [JsonLibrary] [LawfulDocuments] {text : Bytes}
    {fault : JsonFault} (h : JsonLibrary.parse text = .error fault) (hfault : fault ≠ .malformed) :
    fault = .outOfRange :=
  (LawfulDocuments.eq_or_eq_of_parse h).resolve_left hfault

/-- Every value is allowed. A failure without a code is that of a value that cannot be written, of a
number that cannot be read, or of a message that would be too long. -/
def Discipline.ofBytes [JsonLibrary] [LawfulDocuments] : Discipline where
  value _ := True
  failure cause := cause.code? ≠ none ∨ cause = .json .notUtf8 ∨ cause = .json .outOfRange ∨
    cause = .messageTooLong
  coded hcode _ := .inl hcode
  unwritable {given fault} _ h :=
    .inr (.inl (congrArg Failure.json (Json.Unwritable.print given fault h)))
  unreadable _ h hfault :=
    .inr (.inr (.inl (congrArg Failure.json (Json.eq_outOfRange_of_parse h hfault))))
  tooLong := .inr (.inr (.inr rfl))
  document _ _ := trivial
  null := trivial
  bool _ := trivial
  int _ := trivial
  float _ := trivial
  items _ _ _ := trivial
  fields _ _ _ := ⟨trivial, trivial⟩
  text _ _ := trivial
  escaped _ _ _ := trivial

/-- Values in UTF-8 are allowed, which can all be written. -/
def Discipline.ofUtf8 [JsonLibrary] [LawfulFloatText] [LawfulDocuments] : Discipline where
  value := Json.Encoded
  failure cause := cause.code? ≠ none ∨ cause = .json .outOfRange ∨ cause = .messageTooLong
  coded hcode _ := .inl hcode
  unwritable {given fault} hgiven h := by
    obtain ⟨text, htext⟩ := Json.Encoded.exists_print given hgiven
    rw [htext] at h
    cases h
  unreadable _ h hfault :=
    .inr (.inl (congrArg Failure.json (Json.eq_outOfRange_of_parse h hfault)))
  tooLong := .inr (.inr rfl)
  document _ h := LawfulDocuments.encoded_parse h
  null := .null
  bool := .bool
  int := .int
  float := .float
  items := Json.Encoded.items
  fields h entry hmem := ⟨.str (h.fields entry hmem).1, (h.fields entry hmem).2⟩
  text hgiven h := .str (hgiven.isValid_toText h)
  escaped {text} htext := by
    have hvalid := htext.text
    have hescape : Utf8.isValid (Modifier.jsonEscape text) = true := by
      rw [Modifier.jsonEscape, Utf8.repair_of_isValid hvalid]
      exact Json.isValid_escape hvalid
    have hquote : Utf8.isValid (Modifier.jsonQuote text) = true := by
      rw [Modifier.jsonQuote, List.cons_append, Utf8.isValid_cons (by decide)]
      exact Utf8.isValid_append hescape rfl
    simp only [List.forall_mem_cons]
    exact ⟨.str hescape, .str hquote, .str (Html.isValid_escape hvalid),
      .str (Utf8.isValid_of_isAscii (Url.isAscii_encode text)), by simp⟩

/-! ## Binding variables -/

/-- A value given to a template: the name it is bound to, and the kind of the inspector. -/
structure Supply where
  name : Bytes
  value : Json
  kind : Bytes

/-- Binds values one after another. -/
def Context.bindAll [JsonLibrary] (registry : Registry) (context : Context) :
    List Supply → Except Failure Context :=
  List.foldlM (fun context supply => context.bind registry supply.name supply.value supply.kind)
    context

section Binding

variable [JsonLibrary] {discipline : Discipline} {registry : Registry} {context : Context}

/-- Binding an allowed value gives a context that obeys, or an allowed failure. -/
theorem Context.yields_bind (hregistry : registry.Obeys discipline)
    (h : context.Obeys discipline) (name : Bytes) {value : Json} (hvalue : discipline.value value)
    (kind : Bytes) :
    discipline.Yields (Context.Obeys discipline) (context.bind registry name value kind) :=
  .bind (Variable.yields_bound hregistry.inspectors hvalue kind) fun _ hfound => h.insert hfound

/-- Binding allowed values one after another gives a context that obeys, or an allowed failure. -/
theorem Context.yields_bindAll (hregistry : registry.Obeys discipline)
    (h : context.Obeys discipline) {supplies : List Supply}
    (hvalues : ∀ supply ∈ supplies, discipline.value supply.value) :
    discipline.Yields (Context.Obeys discipline) (context.bindAll registry supplies) := by
  induction supplies generalizing context with
  | nil => exact h
  | cons supply rest ih =>
    rw [List.forall_mem_cons] at hvalues
    exact .bind (Context.yields_bind hregistry h supply.name hvalues.1 supply.kind)
      fun _ hbound => ih hbound hvalues.2

end Binding

/-! ## What goes wrong with a template -/

namespace Source

/-- What can go wrong between a template text and what is written. -/
inductive Fault where
  /-- The template is refused. -/
  | refused (error : ParseError)
  /-- A variable cannot be bound, or the rendering fails. -/
  | failed (cause : Failure)

/-- The code of a fault, if it has one. -/
def Fault.code? : Fault → Option ErrorCode
  | refused error => some error.fault.code
  | failed cause => cause.code?

/-- What goes wrong when a template is parsed, values are bound with the built-in host, and the
template is rendered with them. -/
inductive Fails [JsonLibrary] (keepFormatting : Bool) (text : Bytes) (supplies : List Supply) :
    Fault → Prop
  | parsing {error : ParseError} (h : Tree.parse keepFormatting text = .error error) :
    Fails keepFormatting text supplies (.refused error)
  | binding {cause : Failure}
    (h : ({} : Context).bindAll Registry.standard supplies = .error cause) :
    Fails keepFormatting text supplies (.failed cause)
  | rendering {tree : Tree} {context : Context} {cause : Failure}
    (hparse : Tree.parse keepFormatting text = .ok tree)
    (hbind : ({} : Context).bindAll Registry.standard supplies = .ok context)
    (h : (tree.render Registry.standard context).result = .error (.failed cause)) :
    Fails keepFormatting text supplies (.failed cause)

/-- What goes wrong is allowed by a discipline that allows the values and the literals of the
template. -/
theorem Fails.failure [JsonLibrary] {discipline : Discipline} {keepFormatting : Bool} {text : Bytes}
    {supplies : List Supply} {cause : Failure}
    (h : Fails keepFormatting text supplies (.failed cause))
    (hvalues : ∀ supply ∈ supplies, discipline.value supply.value)
    (hliterals : ∀ tree, Tree.parse keepFormatting text = .ok tree →
      ∀ token ∈ Node.walkAll tree.nodes, token.Obeys discipline) :
    discipline.failure cause := by
  have hempty : ({} : Context).Obeys discipline := by simp [Context.Obeys, Variable.AllObey]
  have hbound := Context.yields_bindAll Registry.obeys_standard hempty hvalues
  cases h with
  | binding hbind =>
    rw [hbind] at hbound
    exact hbound
  | @rendering tree context _ hparse hbind hrender =>
    rw [hbind] at hbound
    obtain ⟨-, hformed⟩ := Tree.isBody_of_parse hparse
    have houtcome := Node.obeys_renderAll Node.defaultIterations Registry.obeys_standard tree.nodes
      hformed (hliterals tree hparse) context hbound
    exact houtcome.error cause hrender

/-- Whatever goes wrong with a template, with any values, has a code, unless a string is to be
written that is not UTF-8, a number is to be read that is too large, or a message is to be made that
is too long. The first never happens when the template and the values are UTF-8. -/
theorem code?_of_fails [JsonLibrary] [LawfulFloatText] [LawfulDocuments] {keepFormatting : Bool}
    {text : Bytes} {supplies : List Supply} {fault : Fault}
    (h : Fails keepFormatting text supplies fault) :
    (fault.code? = none →
        fault = .failed (.json .notUtf8) ∨ fault = .failed (.json .outOfRange) ∨
          fault = .failed .messageTooLong) ∧
      (Utf8.isValid text = true → (∀ supply ∈ supplies, supply.value.Encoded) →
        fault ≠ .failed (.json .notUtf8)) := by
  constructor
  · intro hcode
    cases fault with
    | refused error => cases hcode
    | failed cause =>
      have hfailure : Discipline.ofBytes.failure cause :=
        h.failure (fun _ _ => trivial) fun _ _ token _ => token.obeys_of_forall fun _ => trivial
      obtain hsome | rfl | rfl | rfl := hfailure
      · exact absurd hcode hsome
      · exact .inl rfl
      · exact .inr (.inl rfl)
      · exact .inr (.inr rfl)
  · rintro htext hvalues rfl
    have hliterals : ∀ tree, Tree.parse keepFormatting text = .ok tree →
        ∀ token ∈ Node.walkAll tree.nodes, token.Obeys Discipline.ofUtf8 :=
      fun tree hparse token htoken operand hmem =>
        Operand.encoded_literal (isValid_prepare keepFormatting htext)
          (Tree.isReadFrom_of_parse hparse token htoken operand hmem)
    have hfailure : Discipline.ofUtf8.failure (.json .notUtf8) := h.failure hvalues hliterals
    obtain hsome | hother | hother := hfailure
    · exact hsome rfl
    · cases hother
    · cases hother

end Source

/-! ## A number that is too large -/

/-- A number that no finite number comes near is out of range. -/
theorem Json.parse_large : Json.parse (ascii "1e999") = .error .outOfRange := by
  have hlarge : (Numeral.rounded (ascii "1e999")).isFinite = false := by decide +kernel
  have hinteger : Numeral.integer? (ascii "1e999") = none := rfl
  have hnumeral : ofNumeral (ascii "1e999") = .error .outOfRange := by
    simp only [ofNumeral, hinteger, hlarge]
    rfl
  have hread : readNumber (ascii "1e999") = .error .outOfRange := by
    have hrun : numberBytes (ascii "1e999") = (ascii "1e999", []) := rfl
    have hskip : skipNumber? (ascii "1e999") = some [] := rfl
    rw [readNumber, hrun]
    simp only [hskip]
    show (ofNumeral (ascii "1e999") >>= _) = _
    rw [hnumeral]
    rfl
  have hvalue : readValue 12 (ascii "1e999") = .error .outOfRange := by
    show readAtom (ascii "1e999") = _
    rw [readAtom]
    exact hread
  show (readValue 12 (ascii "1e999") >>= _) = _
  rw [hvalue]
  rfl

/-- A string that holds a document with such a number. -/
def Supply.large : Supply where
  name := ascii "x"
  value := .str (ascii "1e999")
  kind := ascii "json"

/-- A template that binds a document. -/
def Source.documenting : Bytes := markup (ascii " context y = x as jsonstr ")

/-- The statement that binds the document in a string. -/
def Binding.documenting : Binding where
  target := ascii "y"
  source := Operand.parse (ascii "x")
  kind := ascii "jsonstr"

/-- The template of that statement is parsed as it. -/
theorem Tree.parse_documenting :
    parse false Source.documenting = .ok ⟨[.bind Binding.documenting]⟩ := by
  have hplain : Source.IsPlain (ascii " context y = x as jsonstr ") := .of_notMem (by decide)
  exact parse_of_isSettled (.markup hplain) (.markup_node rfl (List.append_nil _).symm hplain rfl
    rfl (.end_of_template rfl rfl)) false

/-- Binding a document fails as its conversion does. -/
theorem Binding.result_render_documenting [JsonLibrary] {value : Json} {cause : Failure}
    (h : Inspector.Conversion.document.apply value = .error cause) :
    (documenting.render Registry.standard
      { bindings := [(ascii "x", ⟨value, Inspector.json⟩)] }).result = .error (.failed cause) := by
  have hevaluate : documenting.evaluate Registry.standard
      { bindings := [(ascii "x", ⟨value, Inspector.json⟩)] } = .error cause := by
    show (Inspector.Conversion.document.apply value >>= _) = _
    rw [h]
    rfl
  rw [render, RenderM.context_bind, hevaluate]
  rfl

open scoped JsonLibrary.Strict

/-- The rendering of a template in UTF-8 with a value in UTF-8 fails without a code. -/
theorem Source.code?_large :
    Fails false documenting [.large] (.failed (.json .outOfRange)) ∧
      Fault.code? (.failed (.json .outOfRange)) = none ∧
      Utf8.isValid documenting = true ∧ Supply.large.value.Encoded ∧
      Fault.failed (.json .outOfRange) ≠ .failed (.json .notUtf8) := by
  have hconvert : Inspector.Conversion.document.apply Supply.large.value =
      .error (.json .outOfRange) := by
    have hparse : JsonLibrary.parse (ascii "1e999") = .error .outOfRange := Json.parse_large
    simp only [Supply.large, Inspector.Conversion.apply, hparse]
  have hfails : Fails false documenting [.large] (.failed (.json .outOfRange)) := by
    have hbound : ({} : Context).bindAll Registry.standard [.large] =
        .ok { bindings := [(ascii "x", ⟨Supply.large.value, Inspector.json⟩)] } := rfl
    refine .rendering Tree.parse_documenting hbound ?_
    rw [Tree.render, Node.renderAll, Node.render,
      RenderM.bind_of_error (Binding.result_render_documenting hconvert)]
  have hencoded : Supply.large.value.Encoded := .str rfl
  exact ⟨hfails, rfl, rfl, hencoded,
    (code?_of_fails hfails).2 rfl (List.forall_mem_singleton.mpr hencoded)⟩

/-! ## A string that is not UTF-8 -/

/-- A string that is not UTF-8, bound as an integer. -/
def Supply.malformed : Supply where
  name := ascii "x"
  value := .str [0xff]
  kind := ascii "int"

/-- Not everything that goes wrong has a code: the value is no integer, and the message is to quote
it. -/
theorem Source.code?_malformed :
    Fails false (markup (ascii "= x ")) [.malformed] (.failed (.json .notUtf8)) ∧
      Fault.code? (.failed (.json .notUtf8)) = none :=
  ⟨.binding rfl, rfl⟩

end Stencil
