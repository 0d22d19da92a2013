import Stencil.Proofs.Bytes.Passing
import Stencil.Template.Statement

/-!
# Statements with literals

What a literal by itself is read as, and the statements that hold one, for every text that the
literal may be of: the source of a context statement and the separator of a loop. The walks over the
statement step through the words around the literal and pass it as one piece.
-/

set_option autoImplicit false

namespace Stencil

/-! ## Literals by themselves -/

namespace Quoted

/-- A quoted literal ends with its quote. -/
theorem getLast?_encode (s : Bytes) : (encode s).getLast? = some Byte.doubleQuote := by
  rw [encode, List.getLast?_concat]

/-- A literal is left when what stands before it is stripped. -/
theorem strip_encode (lead s : Bytes) (hlead : lead.all Bytes.isGap = true) :
    Bytes.strip (lead ++ encode s) = encode s :=
  Bytes.strip_lead lead (encode s) hlead rfl (by rw [getLast?_encode]; rfl)

/-- The text of a clause that holds a literal and blanks before it. -/
theorem literalOrText_encode (lead s : Bytes) (hlead : lead.all Bytes.isGap = true) :
    literalOrText (lead ++ encode s) = s := by
  rw [literalOrText, strip_encode lead s hlead, decode?_encode, Option.getD_some]

end Quoted

/-- The operand that stands for a text. -/
def Operand.ofText (s : Bytes) : Operand := { text := s, isStatic := true, isQuoted := true }

/-- A quoted literal is read as what it quotes. -/
theorem Operand.parse_encode (s : Bytes) : parse (Quoted.encode s) = ofText s := by
  have hstrip : (Quoted.encode s).strip = Quoted.encode s := Quoted.strip_encode [] s rfl
  exact parse_of_decode?_eq_some (by rw [hstrip, Quoted.decode?_encode])

/-! ## Context statements and loops -/

/-- A source that ends in neither a blank nor a word has no kind after it. -/
theorem Binding.splitKind_of_last {source : Bytes} {last : UInt8}
    (hlast : source.getLast? = some last) (hgap : last ∉ ascii " \t\n\r")
    (hword : Byte.isWord last = false) : splitKind source = (source, []) := by
  obtain ⟨more, hreverse⟩ : ∃ more, source.reverse = last :: more := by
    rw [← List.head?_reverse] at hlast
    cases hreverse : source.reverse with
    | nil => simp [hreverse] at hlast
    | cons first more =>
      rw [hreverse, List.head?_cons, Option.some.injEq] at hlast
      exact ⟨more, by rw [hlast]⟩
  rw [splitKind]
  cases hsplit : splitLastBlank? source with
  | none => rfl
  | some parts =>
    obtain ⟨front, kind⟩ := parts
    have hkind : kind.isWord = false := by
      rw [splitLastBlank?, hreverse] at hsplit
      split at hsplit
      · cases hsplit
      · obtain ⟨-, rfl⟩ := Prod.mk.inj (Option.some.inj hsplit)
        have hmem : last ∈
            ((last :: more).takeWhile (!(ascii " \t\n\r").contains ·)).reverse := by
          simp [hgap]
        rw [Bytes.isWord, List.all_eq_false.mpr ⟨last, hmem, by simp [hword]⟩, Bool.and_false]
    simp only [hkind, Bool.false_eq_true, if_false]

/-- A literal as the source of a context statement. -/
theorem Binding.parse_literal (s : Bytes) :
    Statement.parse (ascii "context y = " ++ Quoted.encode s) =
      .ok (.bind { target := ascii "y", source := Operand.ofText s }) := by
  have hmark : Statement.parse (ascii "context y = " ++ Quoted.encode s) =
      (parse (ascii "context y = " ++ Quoted.encode s)).map Statement.bind := rfl
  have hstrip : Bytes.strip (ascii " " ++ Quoted.encode s) = Quoted.encode s :=
    Quoted.strip_encode _ s rfl
  have hkind : splitKind (Quoted.encode s) = (Quoted.encode s, []) :=
    splitKind_of_last (Quoted.getLast?_encode s) (by decide) rfl
  have hname : Statement.readWord (Bytes.skipBlanks
      ((ascii "context y = " ++ Quoted.encode s).drop keyword.length)) =
        (ascii "y", ascii " = " ++ Quoted.encode s) := rfl
  have hassign : Statement.dropByte? Byte.equals (Bytes.skipBlanks
      (ascii " = " ++ Quoted.encode s)) = some (ascii " " ++ Quoted.encode s) := rfl
  rw [hmark, parse]
  simp only [hname, hassign, hstrip, hkind, Operand.parse_encode]
  rfl

/-- A literal as the separator of a loop. -/
theorem LoopHead.parse_separator (s : Bytes) :
    Statement.parse (ascii "for v := range items sep " ++ Quoted.encode s) =
      .ok (.forOpen (.range
        { key := [], value := ascii "v", source := ascii "items", separator := s })) := by
  have hmark : Statement.parse (ascii "for v := range items sep " ++ Quoted.encode s) =
      (parse (ascii "for v := range items sep " ++ Quoted.encode s)).map Statement.forOpen := rfl
  have hfind : Bytes.findTopLevel (ascii "sep")
      (ascii "for v := range items sep " ++ (Quoted.encode s ++ [])) = [21] := by
    have hwalk : Bytes.findTopLevelFrom (ascii "sep") (Scan.outside 0) 25 (Quoted.encode s ++ []) =
        Bytes.findTopLevelFrom (ascii "sep") (Scan.outside 0) (25 + (Quoted.encode s).length) [] :=
      Bytes.findTopLevelFrom_of_passes (.encode (by decide) s) 25 []
    rw [Bytes.findTopLevel_eq]
    exact congrArg (21 :: ·) hwalk
  have hclause : splitClause? (ascii "for v := range items sep " ++ Quoted.encode s) 21 =
      some (ascii "for v := range items", s) := by
    have hliteral : Quoted.literalOrText (ascii " " ++ Quoted.encode s) = s :=
      Quoted.literalOrText_encode _ s rfl
    show some (ascii "for v := range items",
      Quoted.literalOrText (ascii " " ++ Quoted.encode s)) = _
    rw [hliteral]
  rw [List.append_nil] at hfind
  rw [hmark, parse, readings, hfind, List.filterMap_cons_some hclause]
  rfl

end Stencil
