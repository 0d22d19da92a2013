import Stencil.Proofs.Bytes.Literal
import Stencil.Proofs.Template.Grammar

/-!
# Templates written as markup

A template may be written region by region, with nothing between them. Such a text is prepared to
itself when no region holds a comment or a line break (`Source.prepare_of_isSettled`), and the
reader meets each region in turn (`Reader.Meets.markup`) when no inside holds a closer. What the
regions say is left to whoever writes them.
-/

set_option autoImplicit false

namespace Stencil

namespace Source

/-- A region with a given inside. -/
def markup (inside : Bytes) : Bytes := Segment.opener ++ inside ++ Segment.closer

/-- A text that may stand inside a region: no line break, comment or end of a region is in it. -/
structure IsPlain (inside : Bytes) : Prop where
  newline : Byte.newline ∉ inside
  comment : Bytes.Protects 0x23 inside
  closer : Bytes.Protects Byte.closeBrace inside

namespace IsPlain

/-- Two plain texts in a row are plain. -/
theorem append {s t : Bytes} (hs : IsPlain s) (ht : IsPlain t) : IsPlain (s ++ t) where
  newline := by simp [hs.newline, ht.newline]
  comment := hs.comment.append ht.comment
  closer := hs.closer.append ht.closer

/-- Words without any of the bytes in question. -/
theorem of_notMem {s : Bytes} (h : Byte.newline ∉ s ∧ 0x23 ∉ s ∧ Byte.closeBrace ∉ s) :
    IsPlain s :=
  ⟨h.1, .of_notMem h.2.1, .of_notMem h.2.2⟩

/-- A quoted literal is plain, whatever it quotes. -/
theorem encode (s : Bytes) : IsPlain (Quoted.encode s) :=
  ⟨Quoted.newline_notMem_encode s, Quoted.protects_encode (.inr rfl) s,
    Quoted.protects_encode (.inl rfl) s⟩

end IsPlain

/-- A text that begins and ends with a brace and holds no line break and no comment. -/
structure IsSettled (text : Bytes) : Prop where
  first : text.head? = some Byte.openBrace
  last : text.getLast? = some Byte.closeBrace
  newline : Byte.newline ∉ text
  comment : Bytes.Protects 0x23 text

namespace IsSettled

variable {s t inside : Bytes}

/-- Two settled texts in a row are settled. -/
theorem append (hs : IsSettled s) (ht : IsSettled t) : IsSettled (s ++ t) where
  first := by simp [List.head?_append, hs.first]
  last := by simp [List.getLast?_append, ht.last]
  newline := by simp [hs.newline, ht.newline]
  comment := hs.comment.append ht.comment

/-- A region with a plain inside is settled. -/
theorem markup (h : IsPlain inside) : IsSettled (markup inside) where
  first := by simp [Source.markup, Segment.opener]
  last := by simp [Source.markup, Segment.closer]
  newline := by
    have hmarks : Byte.newline ∉ Segment.opener ∧ Byte.newline ∉ Segment.closer := by decide
    simp [Source.markup, hmarks, h.newline]
  comment := by
    refine .append (.append (.of_notMem ?_) h.comment) (.of_notMem ?_) <;> decide

end IsSettled

/-- A text without newlines has no line break to fold away. -/
theorem foldLines_of_notMem {text : Bytes} (h : Byte.newline ∉ text) : foldLines text = text := by
  induction text with
  | nil => rw [foldLines]
  | cons b rest ih =>
    rw [List.mem_cons, not_or] at h
    rw [foldLines, if_neg (by simpa using Ne.symm h.1), ih h.2]

/-- A settled text is scanned as it is, whether its formatting is kept or not. -/
theorem prepare_of_isSettled {text : Bytes} (h : IsSettled text) (keepFormatting : Bool) :
    prepare keepFormatting text = text := by
  have hcomments : cutComments text = text :=
    cutComments_of_none (h.comment.breakOn_eq_none (by decide))
  have hends : text.stripOf (ascii " \t\n") = text :=
    Bytes.stripOf_eq_self (by rw [h.first]; rfl) (by rw [h.last]; rfl)
  rw [prepare]
  simp only [hcomments, foldLines_of_notMem h.newline, hends, ite_self]

end Source

/-- The reader meets a region at the start of what is left. -/
theorem Reader.Meets.markup {reader : Reader} {inside rest : Bytes} (hdone : reader.isDone = false)
    (hrest : reader.rest = Source.markup inside ++ rest)
    (hinside : Source.IsPlain inside) : reader.Meets [] inside rest := by
  refine ⟨hdone, inside ++ Segment.closer ++ rest, ?_, ?_⟩
  · have hopen := Bytes.breakOn_append Segment.opener [] (inside ++ Segment.closer ++ rest)
      (by decide) (by simp)
    rw [hrest, ← hopen]
    simp [Source.markup]
  · exact hinside.closer.breakOn_append (by decide) (by decide) rest

/-- A settled text that a reader reads is a template, whether its formatting is kept or not. -/
theorem Tree.parse_of_isSettled {text : Bytes} {reading : Reading} (h : Source.IsSettled text)
    (hreads : Reads (Reader.start text) reading) (keepFormatting : Bool) :
    parse keepFormatting text = .ok ⟨reading.nodes⟩ := by
  rw [parse, Source.prepare_of_isSettled h, ofSource,
    Reader.parseSource_eq_ok_iff.mpr ⟨reading, hreads, rfl⟩]

/-- A region that is a node by itself, and what is read after it. -/
theorem Reads.markup_node {reader : Reader} {inside rest : Bytes} {statement : Statement}
    {node : Node} {more : Reading} (hdone : reader.isDone = false)
    (hrest : reader.rest = Source.markup inside ++ rest)
    (hinside : Source.IsPlain inside)
    (hparse : Statement.parse inside.strip = .ok statement)
    (hpart : statement.part reader.body reader.depth = .ok (.node node))
    (hmore : Reads (reader.pass [] inside rest) more) :
    Reads reader { more with nodes := node :: more.nodes } :=
  .node (.markup hdone hrest hinside) hparse hpart hmore

/-- The end of a template. -/
theorem Reads.end_of_template {reader : Reader} (hbody : reader.body = .template)
    (hrest : reader.rest = []) :
    Reads reader { nodes := [], depth := reader.depth, offset := reader.offset, rest := [] } := by
  have hdone : reader.isDone = false := by simp [Reader.isDone, hbody]
  have hfinish := Reads.finish hdone hbody (by rw [hrest]; rfl)
  rw [hrest] at hfinish
  exact hfinish

/-- A template of one construct, with nothing around it. -/
theorem Tree.parse_construct (construct : Construct) {opening body : Bytes} {inner : Reading}
    {node : Node} (hopening : Source.IsPlain opening) (hbody : Source.IsSettled body)
    (hparse : Statement.parse opening.strip = .ok construct.opening)
    (hinner : Reads ((Reader.start (Source.markup opening ++ body)).enter construct [] opening body)
      inner)
    (hrest : inner.rest = []) (hnode : construct.node? inner.nodes = some node)
    (keepFormatting : Bool) :
    parse keepFormatting (Source.markup opening ++ body) = .ok ⟨[node]⟩ :=
  parse_of_isSettled (.append (.markup hopening) hbody)
    (.construct (.markup rfl rfl hopening) hparse (Statement.part_eq_opens_iff.mpr rfl) hinner hnode
      (.end_of_template rfl hrest)) keepFormatting

section Region

variable {inside : Bytes} (hplain : Source.IsPlain inside) (keepFormatting : Bool)
include hplain

/-- A template of one region that is a node by itself. -/
theorem Tree.parse_markup {statement : Statement} {node : Node}
    (hparse : Statement.parse inside.strip = .ok statement)
    (hpart : statement.part .template {} = .ok (.node node)) :
    parse keepFormatting (Source.markup inside) = .ok ⟨[node]⟩ :=
  parse_of_isSettled (.markup hplain) (.markup_node rfl (List.append_nil _).symm hplain hparse hpart
    (.end_of_template rfl rfl)) keepFormatting

/-- A template whose first region is no statement is refused for what is wrong with it. -/
theorem Tree.parse_markup_append_error {rest : Bytes} {fault : TemplateFault}
    (hsettled : Source.IsSettled (Source.markup inside ++ rest))
    (hparse : Statement.parse inside.strip = .error fault) :
    parse keepFormatting (Source.markup inside ++ rest) =
      .error { fault, source := Source.markup inside ++ rest, offset := 0 } := by
  have hmeets : (Reader.start (Source.markup inside ++ rest)).Meets [] inside rest :=
    .markup rfl rfl hplain
  have hregion : (Reader.start (Source.markup inside ++ rest)).regionOutcome [] inside rest =
      .error (fault, 0) := by
    rw [Reader.regionOutcome_eq, hparse]
    rfl
  have houtcome : (Reader.start (Source.markup inside ++ rest)).outcome = .error (fault, 0) := by
    rw [Reader.outcome_of_meets hmeets, hregion]
    rfl
  rw [parse, Source.prepare_of_isSettled hsettled, ofSource, Reader.parseSource, houtcome]

/-- A template of one region that is no statement is refused for what is wrong with it. -/
theorem Tree.parse_markup_error {fault : TemplateFault}
    (hparse : Statement.parse inside.strip = .error fault) :
    parse keepFormatting (Source.markup inside) =
      .error { fault, source := Source.markup inside, offset := 0 } := by
  have hsettled : Source.IsSettled (Source.markup inside ++ []) := by
    rw [List.append_nil]
    exact .markup hplain
  have herror := parse_markup_append_error hplain keepFormatting hsettled hparse
  rwa [List.append_nil] at herror

end Region

end Stencil
