import Stencil.Json.Strict
import Stencil.Proofs.Render.Literal
import Stencil.Proofs.Text.Html

/-!
# Printing in an escaping mode

The mode letter of a print statement stands for a modifier in front of the written ones. A text that
is printed in the mode for HTML comes out as its escape (`Source.renders_html`), which is safe and
loses nothing (`Html.escape_faithful`).
-/

set_option autoImplicit false

namespace Stencil

/-- A print statement with a mode letter that stands for an escape. -/
theorem Print.parse_escaping (written : WrittenPrint) (hmistaken : written.isMistaken = false)
    (letter : UInt8) {name : Bytes} (hrounding : roundingMode? letter = none)
    (hescape : escapeMode? letter = some name) :
    Statement.parse (letter :: Byte.equals :: written.expression) =
      .ok (.print { written.statement with
        modifiers := { name } :: written.statement.modifiers }) := by
  have hmode : readMode? (letter :: Byte.equals :: written.expression) =
      some ([{ name }], written.expression) := by
    simp [readMode?, hrounding, hescape, Statement.dropByte?]
  have hclauses := written.splitClauses_expression hmistaken
  have hvalue : parseValue written.lead =
      .ok (written.value.operand, written.modifiers.map WrittenModifier.call) :=
    written.parseValue_core
  rw [Statement.parse, parse?, hmode]
  simp only [Option.map_some, hclauses, hvalue]
  rfl

/-- The built-in escape for HTML of a text. -/
theorem ModifierCall.applyAll_htmlEscape [JsonLibrary] {registry : Registry}
    (hescape : registry.modifiers.find? (ascii "htmlEscape") =
      some (Modifier.ofFunction (Modifier.applyToText Html.escape))) (v : Bytes)
    (context : Context) :
    applyAll registry [{ name := ascii "htmlEscape" }] (.str v) context =
      { written := [], context, result := .ok (.str (Html.escape v)) } := by
  rw [applyAll, hescape]
  rfl

/-- Escaping a text leaves something of it. -/
theorem Html.escape_ne_nil {v : Bytes} (hv : v ≠ []) : escape v ≠ [] := by
  intro hnil
  have hdecode := decode_escape v
  rw [hnil, decode_nil] at hdecode
  exact hv hdecode.symm

/-- A variable that holds a text is printed in the mode for HTML as the escape of the text. -/
theorem Source.renders_html [JsonLibrary] {registry : Registry}
    (hescape : registry.modifiers.find? (ascii "htmlEscape") =
      some (Modifier.ofFunction (Modifier.applyToText Html.escape)))
    {path : DottedPath} (hdynamic : (Operand.parse path.text).isStatic = false)
    {context : Context} {v : Bytes} (hv : v ≠ [])
    (hfound : context.find? path.text = some (.str v)) :
    Renders registry context (markup (ascii "h= " ++ path.text ++ ascii " ")) (Html.escape v) := by
  let written : WrittenPrint := { value := .dotted path hdynamic }
  have hinside : ascii "h= " ++ path.text ++ ascii " " = 0x68 :: written.inside := by
    have hcore : written.core = path.text := List.intercalate_singleton
    have hclauses : written.clauses = [] := rfl
    rw [WrittenPrint.inside, WrittenPrint.expression, hcore, hclauses, List.append_nil]
    rfl
  have hplain : IsPlain (0x68 :: written.inside) :=
    (IsPlain.of_notMem (s := [0x68]) (by decide)).append written.isPlain_inside
  have hmistaken : written.isMistaken = false := Bool.and_false _
  have hparse := Print.parse_escaping written hmistaken 0x68 rfl rfl
  have htrimmed : Bytes.IsTrimmed (0x68 :: Byte.equals :: written.expression) :=
    Bytes.IsTrimmed.around (s := [0x68]) ⟨rfl, rfl⟩ written.isTrimmed_expression []
  have hstrip : Bytes.strip (0x68 :: written.inside) =
      0x68 :: Byte.equals :: written.expression :=
    Bytes.strip_append [] _ [Byte.space] rfl rfl htrimmed.first htrimmed.last
  have hvalue : context.resolve { text := path.text } = .str v := by
    simp [Context.resolve, hfound]
  have hrender : Print.render registry
      { value := { text := path.text }, modifiers := [{ name := ascii "htmlEscape" }] } context =
        { written := Html.escape v, context, result := .ok .done } := by
    have happlied := ModifierCall.applyAll_htmlEscape hescape v context
    rw [← hvalue] at happlied
    rw [Print.render_of_applyAll [] [] happlied (Html.escape_ne_nil hv), List.nil_append,
      List.append_nil]
  rw [hinside]
  exact renders_print hplain (hstrip ▸ hparse) hrender

/-- Escaping for HTML is safe and loses nothing. In what it gives, none of the bytes that end a text
or an attribute occurs, every ampersand begins one of the five entities, and reading the entities
from left to right gives the text back, so that different texts have different escapes; and the mode
for HTML prints a variable that holds a text as exactly that escape. -/
theorem Html.escape_faithful [JsonLibrary] {registry : Registry}
    (hescape : registry.modifiers.find? (ascii "htmlEscape") =
      some (Modifier.ofFunction (Modifier.applyToText escape))) :
    (∀ s : Bytes,
      (∀ b ∈ escape s,
        b ∉ [Byte.lessThan, Byte.greaterThan, Byte.doubleQuote, Byte.apostrophe]) ∧
      (∀ before after, escape s = before ++ Byte.ampersand :: after →
        ∃ entity ∈ entities, entity.2 <+: Byte.ampersand :: after) ∧
      decode (escape s) = s) ∧
    Function.Injective escape ∧
    ∀ (context : Context) (path : DottedPath) (v : Bytes),
      (Operand.parse path.text).isStatic = false → v ≠ [] →
      context.find? path.text = some (.str v) →
      Source.Renders registry context (Source.markup (ascii "h= " ++ path.text ++ ascii " "))
        (escape v) := by
  exact ⟨fun s => ⟨fun b => notMem_of_mem_escape, fun before after => exists_entity_of_ampersand,
    decode_escape s⟩, escape_injective, fun context path v hdynamic hv hfound =>
      Source.renders_html hescape hdynamic hv hfound⟩

/-- A text that holds each of the five bytes, an entity, and pieces of entities. -/
def Bytes.entangled : Bytes := ascii "&amp;<'&lt\"&#39>"

open scoped JsonLibrary.Strict

/-- The law at a text that holds every byte with a meaning, and references to them. -/
theorem Html.escape_faithful_entangled :
    escape Bytes.entangled = ascii "&amp;amp;&lt;&#39;&amp;lt&quot;&amp;#39&gt;" ∧
    decode (escape Bytes.entangled) = Bytes.entangled ∧
    Source.Renders Registry.standard
      { bindings := [(ascii "x", { value := .str Bytes.entangled, inspector := .json })] }
      (Source.markup (ascii "h= x ")) (escape Bytes.entangled) := by
  obtain ⟨htexts, -, hprints⟩ := @escape_faithful _ Registry.standard rfl
  exact ⟨by decide +kernel, (htexts Bytes.entangled).2.2,
    hprints _ ⟨[ascii "x"], by decide, by decide⟩ Bytes.entangled rfl (by decide) rfl⟩

end Stencil
