import Mathlib.Data.List.TakeWhile
import Stencil.Proofs.Bytes.Passing
import Stencil.Proofs.Template.Grammar

/-!
# Where faults are reported

A fault is reported where a region of the source opens (`Fails.opens`): what is wrong with a region
at that region, and a body without an end at the region that opens it. The row and the column of the
report lead to this opener (`Position.exists_rows_ofOffset`), and the rows around it are found
without leaving the source (`Position.excerpt?_eq`). The main statement is
`Tree.blames_region_of_parse`.
-/

set_option autoImplicit false

namespace Stencil

/-! ## Regions and where they open -/

namespace Segment

/-- The offset at which a region opens. -/
def opensAt? : Segment → Option Nat
  | text _ => none
  | region offset _ | unclosed offset => some offset

/-- A raw text opens no region. -/
theorem opensAt?_ofText {raw : Bytes} {segment : Segment} (h : segment ∈ ofText raw) :
    segment.opensAt? = none := by
  unfold ofText at h
  split at h
  · cases h
  · rw [List.mem_singleton.mp h]
    rfl

/-- Where a region opens there stands an opener. -/
theorem opener_isPrefix_of_opensAt? {start place : Nat} {s : Bytes} {segment : Segment}
    (hmem : segment ∈ scanFrom start s) (hopens : segment.opensAt? = some place) :
    ∃ k, place = start + k ∧ opener <+: s.drop k := by
  induction hn : s.length using Nat.strongRecOn generalizing start s with
  | ind n ih =>
    have htext : ∀ raw, segment ∉ ofText raw := by
      intro raw hraw
      rw [opensAt?_ofText hraw] at hopens
      cases hopens
    cases hopen : Bytes.breakOn opener s with
    | none =>
      rw [scanFrom_of_none hopen] at hmem
      exact absurd hmem (htext s)
    | some parts =>
      obtain ⟨raw, afterOpener⟩ := parts
      have hs := Bytes.eq_append_of_breakOn hopen
      have hhere : opener <+: s.drop raw.length := by
        rw [hs, List.append_assoc, List.drop_left]
        exact List.prefix_append _ _
      cases hclose : Bytes.breakOn closer afterOpener with
      | none =>
        rw [scanFrom_of_unclosed hopen hclose, List.mem_append, List.mem_singleton] at hmem
        obtain rfl := hmem.resolve_left (htext raw)
        exact ⟨raw.length, (Option.some.inj hopens).symm, hhere⟩
      | some parts =>
        obtain ⟨inside, after⟩ := parts
        rw [scanFrom_of_region hopen hclose, List.mem_append, List.mem_cons] at hmem
        obtain rfl | hlater := hmem.resolve_left (htext raw)
        · exact ⟨raw.length, (Option.some.inj hopens).symm, hhere⟩
        · have hafterOpener := Bytes.eq_append_of_breakOn hclose
          have hshort := Bytes.length_after_lt (by decide) hopen
          have hshorter := Bytes.length_after_lt (by decide) hclose
          obtain ⟨k, rfl, hprefix⟩ := ih after.length (by omega) hlater rfl
          -- What follows the region begins that many bytes further on in the source.
          refine ⟨(raw ++ opener ++ (inside ++ closer)).length + k, ?_, ?_⟩
          · simp only [List.length_append]
            omega
          · have hparts : s = raw ++ opener ++ (inside ++ closer) ++ after := by
              rw [hs, hafterOpener, ← List.append_assoc]
            rw [hparts, ← List.drop_drop, List.drop_left]
            exact hprefix

end Segment

/-- The segments that a body leaves end the segments that it was read from. -/
theorem Reads.scanFrom_isSuffix {reader : Reader} {reading : Reading} (h : Reads reader reading)
    (hdepth : reader.depth = reader.target.enter reader.body) :
    Segment.scanFrom reading.offset reading.rest <:+
      Segment.scanFrom reader.offset reader.rest := by
  obtain ⟨inner, ending, hscan, hends, -⟩ := h.spells hdepth
  have hending : Segment.scanFrom reading.offset reading.rest <:+ ending := by
    generalize Segment.scanFrom reading.offset reading.rest = left at hends
    cases hends with
    | source hbody => exact List.suffix_rfl
    | terminator hterminator hparse => exact List.suffix_cons _ _
  rw [hscan]
  exact hending.trans (List.suffix_append _ _)

namespace Reader

variable {reader next : Reader} {raw inside rest : Bytes} {place : Nat}

/-- Whether a region opens at an offset in what a reader has left to read. -/
def OpensAt (reader : Reader) (place : Nat) : Prop :=
  ∃ segment ∈ Segment.scanFrom reader.offset reader.rest, segment.opensAt? = some place

/-- What opens in the rest of a source opens in the source. -/
theorem OpensAt.of_isSuffix (h : next.OpensAt place)
    (hsuffix : Segment.scanFrom next.offset next.rest <:+
      Segment.scanFrom reader.offset reader.rest) : reader.OpensAt place := by
  obtain ⟨segment, hmem, hopens⟩ := h
  exact ⟨segment, hsuffix.subset hmem, hopens⟩

/-- The region that a reader meets opens where it meets it. -/
theorem Meets.opensAt (hmeets : reader.Meets raw inside rest) :
    reader.OpensAt (reader.regionStart raw) := by
  refine ⟨.region (reader.regionStart raw) inside, ?_, rfl⟩
  rw [hmeets.scanFrom_eq]
  exact List.mem_append_right _ List.mem_cons_self

/-- What follows a region ends what the reader has left. -/
theorem Meets.scanFrom_isSuffix (hmeets : reader.Meets raw inside rest) :
    Segment.scanFrom (reader.regionEnd raw inside) rest <:+
      Segment.scanFrom reader.offset reader.rest := by
  rw [hmeets.scanFrom_eq]
  exact (List.suffix_cons _ _).trans (List.suffix_append _ _)

end Reader

/-- A fault is reported where a region opens in what the reader has left, or where the construct
opens whose body the reader reads. -/
theorem Fails.opens {reader : Reader} {fault : TemplateFault × Nat} (h : Fails reader fault)
    (hdepth : reader.depth = reader.target.enter reader.body) :
    reader.body ≠ .template ∧ fault.2 = reader.opened ∨ reader.OpensAt fault.2 := by
  induction h with
  | unterminated hdone hbody hopen => exact .inl ⟨hbody, rfl⟩
  | @unclosed reader raw afterOpener hdone hopen hclose =>
    refine .inr ⟨.unclosed (reader.regionStart raw), ?_, rfl⟩
    rw [Segment.scanFrom_of_unclosed hopen hclose]
    exact List.mem_append_right _ List.mem_cons_self
  | statement hmeets hparse => exact .inr hmeets.opensAt
  | misplaced hmeets hparse hpart => exact .inr hmeets.opensAt
  | inner hmeets hparse hpart hinner ih =>
    obtain ⟨-, hopened⟩ | hopens := ih rfl
    · rw [hopened]
      exact .inr hmeets.opensAt
    · exact .inr (hopens.of_isSuffix hmeets.scanFrom_isSuffix)
  | divided hmeets hparse hpart hinner hnode => exact .inr hmeets.opensAt
  | afterNode hmeets hparse hpart hmore ih =>
    obtain hopened | hopens := ih hdepth
    · exact .inl hopened
    · exact .inr (hopens.of_isSuffix hmeets.scanFrom_isSuffix)
  | @afterConstruct reader raw inside rest statement construct inner node fault hmeets hparse hpart
      hinner hnode hmore ih =>
    have hdepthAfter : inner.depth = reader.depth := hinner.depth_eq rfl
    obtain hopened | hopens := ih (hdepthAfter.trans hdepth)
    · exact .inl hopened
    · exact .inr (hopens.of_isSuffix
        ((hinner.scanFrom_isSuffix rfl).trans hmeets.scanFrom_isSuffix))

/-- A source is refused at the opener of one of its regions. -/
theorem Reader.opensAt_of_parseSource {source : Bytes} {fault : TemplateFault} {place : Nat}
    (h : parseSource source = .error (fault, place)) :
    ∃ segment ∈ Segment.scan source, segment.opensAt? = some place := by
  obtain ⟨hbody, -⟩ | hopens := (fails_of_parseSource h).opens rfl
  · exact absurd rfl hbody
  · exact hopens

/-! ## Rows -/

namespace Position

/-- The rows of a source, without their line ends. -/
def rows (source : Bytes) : List Bytes := source.splitOn Byte.newline

/-- The first row ends at the first line end, and the others follow it. -/
theorem rows_eq (source : Bytes) :
    rows source = source.takeWhile (· != Byte.newline) ::
      match source.dropWhile (· != Byte.newline) with
      | [] => []
      | _ :: rest => rows rest := by
  have hfirst : Byte.newline ∉ source.takeWhile (· != Byte.newline) := fun hmem => by
    simpa using List.mem_takeWhile_imp hmem
  have hsource := List.takeWhile_append_dropWhile (p := (· != Byte.newline)) (l := source)
  cases hrest : source.dropWhile (· != Byte.newline) with
  | nil =>
    rw [hrest, List.append_nil] at hsource
    rw [hsource] at hfirst ⊢
    exact List.splitOn_eq_singleton hfirst
  | cons b rest =>
    have hb : b = Byte.newline := by
      have hhead := List.head?_dropWhile_not (· != Byte.newline) source
      rw [hrest] at hhead
      simpa using hhead
    rw [hrest, hb] at hsource
    conv => lhs; rw [← hsource]
    rw [rows, List.splitOn, List.splitOnP_append_cons _ _ (by simp)]
    exact congrArg (· ++ rows rest) (List.splitOn_eq_singleton hfirst)

/-- There are as many rows as are counted. -/
theorem length_rows (source : Bytes) : (rows source).length = rowCount source := by
  induction source with
  | nil => rfl
  | cons b rest ih =>
    rw [rows, List.splitOn_cons_eq_if_modifyHead]
    rw [rows, rowCount] at ih
    rw [rowCount, List.count_cons]
    split
    · rw [List.length_cons, ih]
    · rw [List.length_modifyHead, ih]

/-- The rows with their line ends are the source with a line end of its own. -/
theorem flatMap_rows (source : Bytes) :
    (rows source).flatMap (· ++ [Byte.newline]) = source ++ [Byte.newline] := by
  have hended : ∀ (first : Bytes) (others : List Bytes),
      (first :: others).flatMap (· ++ [Byte.newline]) =
        [Byte.newline].intercalate (first :: others) ++ [Byte.newline] := by
    intro first others
    induction others generalizing first with
    | nil => simp [List.intercalate]
    | cons next later ih =>
      rw [List.flatMap_cons, ih next, List.intercalate_cons_of_ne_nil (List.cons_ne_nil _ _)]
      simp
  have hsource : [Byte.newline].intercalate (rows source) = source :=
    List.intercalate_splitOn Byte.newline
  rw [rows_eq] at hsource ⊢
  rw [hended, hsource]

/-- The walk to a row finds it exactly when the source has it. -/
theorem findRow?_eq (source : Bytes) (n : Nat) : findRow? source (n + 1) = (rows source)[n]? := by
  induction n generalizing source with
  | zero =>
    rw [rows_eq]
    rfl
  | succ n ih =>
    rw [rows_eq, findRow?, Nat.add_sub_cancel, skipRows?]
    cases source.dropWhile (· != Byte.newline) with
    | nil => rfl
    | cons b rest => exact ih rest

/-- The row behind the rows before it is shown with its newline. -/
theorem showRow?_eq {source row : Bytes} {before after : List Bytes}
    (hrows : rows source = before ++ row :: after) :
    showRow? source (before.length + 1) = some (row ++ [Byte.newline]) := by
  rw [showRow?, findRow?_eq, hrows, List.getElem?_append_right (Nat.le_refl _), Nat.sub_self]
  rfl

/-- A row between its neighbours, as far as there are any, with a caret under a column. -/
def context (before : List Bytes) (row : Bytes) (after : List Bytes) (column : Nat) : Bytes :=
  before.getLast?.elim [] (· ++ [Byte.newline]) ++ (row ++ [Byte.newline]) ++
    List.replicate (column - 1) Byte.space ++ ascii "^\n" ++
    after.head?.elim [] (· ++ [Byte.newline])

/-- No walk to a row that an excerpt shows leaves the source. -/
theorem excerpt?_eq {source row : Bytes} {before after : List Bytes} {position : Position}
    (hrows : rows source = before ++ row :: after) (hrow : before.length + 1 = position.row) :
    excerpt? source position = some (context before row after position.column) := by
  have hbefore : showNeighbour? (1 < position.row) source (position.row - 1) =
      some (before.getLast?.elim [] (· ++ [Byte.newline])) := by
    rw [← hrow, Nat.add_sub_cancel, showNeighbour?]
    obtain rfl | ⟨lead, last, rfl⟩ := List.eq_nil_or_concat before
    · rfl
    · rw [List.concat_eq_append, List.append_assoc, List.singleton_append] at hrows
      rw [if_pos (by simp), List.length_concat, showRow?_eq hrows]
      simp
  have hafter : showNeighbour? (position.row < rowCount source) source (position.row + 1) =
      some (after.head?.elim [] (· ++ [Byte.newline])) := by
    rw [← hrow, ← length_rows, hrows, List.length_append, List.length_cons, showNeighbour?]
    cases after with
    | nil => simp
    | cons next later =>
      have hnext : rows source = (before ++ [row]) ++ next :: later := by
        rw [hrows, List.append_assoc, List.singleton_append]
      have hshow := showRow?_eq hnext
      rw [List.length_append, List.length_singleton] at hshow
      rw [if_pos (by simp), hshow]
      rfl
  rw [excerpt?, hbefore, hafter, ← hrow, showRow?_eq hrows]
  rfl

/-- What follows the last line end of a text, or the text when it has none. -/
def lastRow (s : Bytes) : Bytes := (s.reverse.takeWhile (· != Byte.newline)).reverse

/-- The last row holds no newline. -/
theorem forall_mem_lastRow {s : Bytes} : ∀ b ∈ lastRow s, (b != Byte.newline) = true := by
  intro b hb
  rw [lastRow, List.mem_reverse] at hb
  exact List.mem_takeWhile_imp (p := (· != Byte.newline)) hb

/-- The rows of a source before the row in which a part of it ends. -/
theorem exists_rows_append (head tail : Bytes) :
    ∃ before, rows (head ++ tail) = before ++ rows (lastRow head ++ tail) ∧
      before.flatMap (· ++ [Byte.newline]) ++ lastRow head = head ∧
      before.length = head.count Byte.newline := by
  have hsplit : (head.reverse.dropWhile (· != Byte.newline)).reverse ++ lastRow head = head := by
    rw [lastRow, ← List.reverse_append, List.takeWhile_append_dropWhile, List.reverse_reverse]
  have hnone : (lastRow head).count Byte.newline = 0 :=
    List.count_eq_zero.mpr fun hmem => by simpa using forall_mem_lastRow _ hmem
  cases hfront : head.reverse.dropWhile (· != Byte.newline) with
  | nil =>
    rw [hfront, List.reverse_nil, List.nil_append] at hsplit
    rw [hsplit] at hnone ⊢
    exact ⟨[], rfl, rfl, hnone.symm⟩
  | cons b front =>
    have hb : b = Byte.newline := by
      have hlast := List.head?_dropWhile_not (· != Byte.newline) head.reverse
      rw [hfront] at hlast
      simpa using hlast
    rw [hfront, List.reverse_cons, hb] at hsplit
    refine ⟨rows front.reverse, ?_, by rw [flatMap_rows, hsplit], ?_⟩
    · conv => lhs; rw [← hsplit]
      rw [List.append_assoc, List.append_assoc, List.singleton_append, rows, List.splitOn,
        List.splitOnP_append_cons _ _ (by simp)]
      rfl
    · conv => rhs; rw [← hsplit]
      rw [length_rows, rowCount, List.count_append, List.count_append, hnone]
      rfl

/-- The row and the column of an offset lead to what stands there. -/
theorem exists_rows_ofOffset (source : Bytes) (offset : Nat) :
    ∃ before lead after,
      rows source =
        before ++ (lead ++ (source.drop offset).takeWhile (· != Byte.newline)) :: after ∧
      before.flatMap (· ++ [Byte.newline]) ++ lead = source.take offset ∧
      before.length + 1 = (ofOffset source offset).row ∧
      lead.length + 1 = (ofOffset source offset).column := by
  obtain ⟨before, hrows, hbefore, hcount⟩ :=
    exists_rows_append (source.take offset) (source.drop offset)
  rw [List.take_append_drop, rows_eq (lastRow _ ++ _),
    List.takeWhile_append_of_pos forall_mem_lastRow] at hrows
  refine ⟨before, lastRow (source.take offset), _, hrows, hbefore, ?_, ?_⟩
  · rw [hcount]
    rfl
  · rw [lastRow, List.length_reverse]
    rfl

end Position

/-- A template that is refused is refused at a region of its prepared source: the row and the column
of the report are those of the opener of the region, and the report shows the row between its
neighbours, with a caret under the opener. -/
theorem Tree.blames_region_of_parse {keepFormatting : Bool} {text : Bytes} {error : ParseError}
    (h : parse keepFormatting text = .error error) :
    error.source = Source.prepare keepFormatting text ∧
      (∃ segment ∈ Segment.scan error.source, segment.opensAt? = some error.offset) ∧
      1 ≤ error.position.row ∧ 1 ≤ error.position.column ∧
      ∃ before row after,
        Position.rows error.source = before ++ row :: after ∧
          before.length + 1 = error.position.row ∧
          before.flatMap (· ++ [Byte.newline]) ++ row.take (error.position.column - 1) =
            error.source.take error.offset ∧
          Segment.opener <+: row.drop (error.position.column - 1) ∧
          Position.excerpt? error.source error.position =
            some (Position.context before row after error.position.column) ∧
          error.message = error.fault.message ++ (ascii " at row " ++
            Decimal.ofNat error.position.row ++ ascii ", column " ++
            Decimal.ofNat error.position.column ++ ascii ":\n" ++
            Position.context before row after error.position.column) := by
  obtain ⟨hsource, hscan⟩ : error.source = Source.prepare keepFormatting text ∧
      ∃ segment ∈ Segment.scan error.source, segment.opensAt? = some error.offset := by
    rw [parse, ofSource] at h
    split at h
    · cases h
    · rename_i fault place hparse
      cases h
      exact ⟨rfl, Reader.opensAt_of_parseSource hparse⟩
  have hopener : Segment.opener <+: error.source.drop error.offset := by
    obtain ⟨segment, hmem, hopens⟩ := hscan
    obtain ⟨k, hk, hprefix⟩ := Segment.opener_isPrefix_of_opensAt? hmem hopens
    rwa [hk, Nat.zero_add]
  obtain ⟨before, lead, after, hrows, hbefore, hrow, hcolumn⟩ :=
    Position.exists_rows_ofOffset error.source error.offset
  change before.length + 1 = error.position.row at hrow
  change lead.length + 1 = error.position.column at hcolumn
  have hlead : lead.length = error.position.column - 1 := Nat.eq_sub_of_add_eq hcolumn
  have hexcerpt : Position.excerpt? error.source error.position = some _ :=
    Position.excerpt?_eq hrows hrow
  refine ⟨hsource, hscan, by omega, by omega, before, _, after, hrows, hrow, ?_, ?_, hexcerpt, ?_⟩
  · rw [← hlead, List.take_left, hbefore]
  · -- An opener lies within one row.
    obtain ⟨rest, hrest⟩ := hopener
    rw [← hlead, List.drop_left, ← hrest, List.takeWhile_append_of_pos (by decide +kernel)]
    exact List.prefix_append _ _
  · rw [ParseError.message, Position.suffix, hexcerpt]
    rfl

/-- A template whose second row holds a region that is no statement. -/
theorem Tree.blames_second_row :
    let text := ascii "one\ntwo \x7b% three %\x7d\nfour"
    let error : ParseError :=
      { fault := .unknownStatement (ascii "three"), source := text, offset := 8 }
    parse true text = .error error ∧ error.position = { row := 2, column := 5 } ∧
      Position.excerpt? text error.position =
        some (ascii "one\ntwo \x7b% three %\x7d\n    ^\nfour\n") ∧
      ∃ segment ∈ Segment.scan text, segment.opensAt? = some 8 := by
  intro text error
  have hprepare : Source.prepare true text = text := Source.cutComments_of_none rfl
  have hmeets : (Reader.start text).Meets (ascii "one\ntwo ") (ascii " three ") (ascii "\nfour") :=
    ⟨rfl, _, rfl, rfl⟩
  have hregion : (Reader.start text).regionOutcome (ascii "one\ntwo ") (ascii " three ")
      (ascii "\nfour") = .error (.unknownStatement (ascii "three"), 8) := by
    rw [Reader.regionOutcome_eq]
    rfl
  have hrefused : parse true text = .error error := by
    rw [parse, hprepare, ofSource, Reader.parseSource, Reader.outcome_of_meets hmeets, hregion]
    rfl
  exact ⟨hrefused, rfl, rfl, (blames_region_of_parse hrefused).2.1⟩

end Stencil
