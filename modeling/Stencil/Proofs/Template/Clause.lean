import Stencil.Proofs.Template.Written

/-!
# Clauses of print statements

Of all places where the words of a clause stand between spaces at top level the last one is taken
(`Print.lastClause?_eq_some`, `Print.lastClause?_eq_none`). A clause that is written as its word and
a literal is such a place, and there is none inside it (`Print.findTopLevelFrom_clause`).
-/

set_option autoImplicit false

namespace Stencil

namespace Print

/-! ## The last of several clauses -/

/-- The later of two places, the first one when they have one offset. -/
def later (best : Option (Nat × Nat)) (place : Nat × Nat) : Option (Nat × Nat) :=
  match best with
  | some found => if found.1 < place.1 then some place else some found
  | none => some place

/-- What is found is a place of greatest offset, or there is none. -/
def IsLast (places : List (Nat × Nat)) : Option (Nat × Nat) → Prop
  | none => places = []
  | some found => found ∈ places ∧ ∀ place ∈ places, place.1 ≤ found.1

/-- The later of the last place and another is the last of them all. -/
theorem IsLast.later {places : List (Nat × Nat)} {best : Option (Nat × Nat)}
    (h : IsLast places best) (place : Nat × Nat) :
    IsLast (places ++ [place]) (later best place) := by
  cases best with
  | none =>
    obtain rfl : places = [] := h
    exact ⟨.head _, by simp⟩
  | some found =>
    obtain ⟨hmem, hlast⟩ := h
    rw [Print.later]
    split
    · rename_i hless
      refine ⟨by simp, fun other hother => ?_⟩
      obtain hother | hother := List.mem_append.mp hother
      · exact Nat.le_trans (hlast other hother) (Nat.le_of_lt hless)
      · exact Nat.le_of_eq (congrArg Prod.fst (List.mem_singleton.mp hother))
    · rename_i hless
      refine ⟨List.mem_append_left _ hmem, fun other hother => ?_⟩
      obtain hother | hother := List.mem_append.mp hother
      · exact hlast other hother
      · rw [List.mem_singleton.mp hother]
        exact Nat.not_lt.mp hless

/-- The last of all places is found by taking the later one each time. -/
theorem IsLast.foldl {seen : List (Nat × Nat)} {best : Option (Nat × Nat)} (h : IsLast seen best)
    (places : List (Nat × Nat)) : IsLast (seen ++ places) (places.foldl Print.later best) := by
  induction places generalizing seen best with
  | nil => rwa [List.append_nil]
  | cons place rest ih =>
    have hrest := ih (h.later place)
    rwa [List.append_assoc, List.singleton_append] at hrest

/-- A place where one of two clause words opens a clause that ends at or before a limit. -/
structure IsClause (words : List Bytes) (limit : Nat) (expression : Bytes) (place : Nat × Nat) :
    Prop where
  opens : ∃ word ∈ words, place.1 ∈ Bytes.findTopLevel (clauseMark word) expression ∧
    place.2 = (clauseMark word).length
  ends : place.1 + place.2 ≤ limit

/-- The clauses that a word opens, in increasing order. -/
def clausePlaces (word : Bytes) (limit : Nat) (expression : Bytes) : List (Nat × Nat) :=
  ((Bytes.findTopLevel (clauseMark word) expression).filter
    (· + (clauseMark word).length ≤ limit)).map fun offset => (offset, (clauseMark word).length)

/-- The places of a word are those where its mark stands at top level and ends by the limit. -/
theorem mem_clausePlaces {word expression : Bytes} {limit : Nat} {place : Nat × Nat} :
    place ∈ clausePlaces word limit expression ↔
      (place.1 ∈ Bytes.findTopLevel (clauseMark word) expression ∧
        place.2 = (clauseMark word).length) ∧ place.1 + place.2 ≤ limit := by
  obtain ⟨offset, length⟩ := place
  simp only [clausePlaces, List.mem_map, List.mem_filter, decide_eq_true_eq, Prod.mk.injEq]
  constructor
  · rintro ⟨_, ⟨hfound, hlimit⟩, rfl, rfl⟩
    exact ⟨⟨hfound, rfl⟩, hlimit⟩
  · rintro ⟨⟨hfound, rfl⟩, hlimit⟩
    exact ⟨offset, ⟨hfound, hlimit⟩, rfl, rfl⟩

/-- What is found is a clause of greatest offset. -/
theorem exists_isLast_lastClause? (long short : Bytes) (limit : Nat) (expression : Bytes) :
    ∃ places, IsLast places (lastClause? long short limit expression) ∧
      ∀ place, place ∈ places ↔ IsClause [long, short] limit expression place := by
  have hstart : IsLast [] none := rfl
  refine ⟨_, hstart.foldl (clausePlaces long limit expression ++
    clausePlaces short limit expression), fun place => ?_⟩
  rw [List.nil_append, List.mem_append, mem_clausePlaces, mem_clausePlaces]
  constructor
  · rintro (⟨hopens, hends⟩ | ⟨hopens, hends⟩)
    · exact ⟨⟨long, by simp, hopens⟩, hends⟩
    · exact ⟨⟨short, by simp, hopens⟩, hends⟩
  · rintro ⟨⟨word, hword, hopens⟩, hends⟩
    obtain rfl | rfl : word = long ∨ word = short := by simpa using hword
    · exact .inl ⟨hopens, hends⟩
    · exact .inr ⟨hopens, hends⟩

/-- Without a clause none is found. -/
theorem lastClause?_eq_none {long short : Bytes} {limit : Nat} {expression : Bytes}
    (h : ∀ place, ¬ IsClause [long, short] limit expression place) :
    lastClause? long short limit expression = none := by
  obtain ⟨places, hlast, hplaces⟩ := exists_isLast_lastClause? long short limit expression
  cases hfound : lastClause? long short limit expression with
  | none => rfl
  | some found =>
    rw [hfound] at hlast
    exact absurd ((hplaces found).mp hlast.1) (h found)

/-- The clause behind all other ones is found. -/
theorem lastClause?_eq_some {long short : Bytes} {limit : Nat} {expression : Bytes}
    {place : Nat × Nat} (hplace : IsClause [long, short] limit expression place)
    (hlast : ∀ other, IsClause [long, short] limit expression other →
      other = place ∨ other.1 < place.1) :
    lastClause? long short limit expression = some place := by
  obtain ⟨places, hfound, hplaces⟩ := exists_isLast_lastClause? long short limit expression
  cases heq : lastClause? long short limit expression with
  | none =>
    rw [heq] at hfound
    obtain rfl : places = [] := hfound
    exact absurd ((hplaces place).mpr hplace) List.not_mem_nil
  | some found =>
    rw [heq] at hfound
    have hle := hfound.2 place ((hplaces place).mpr hplace)
    obtain rfl | hless := hlast found ((hplaces found).mp hfound.1)
    · rfl
    · omega

/-- What is found is a clause. -/
theorem isClause_of_lastClause? {long short : Bytes} {limit : Nat} {expression : Bytes}
    {place : Nat × Nat} (h : lastClause? long short limit expression = some place) :
    IsClause [long, short] limit expression place := by
  obtain ⟨places, hfound, hplaces⟩ := exists_isLast_lastClause? long short limit expression
  rw [h] at hfound
  exact (hplaces place).mp hfound.1

/-! ## Clauses in writing -/

/-- A clause as it is written, or nothing. -/
def clause (word : Bytes) : Option Bytes → Bytes
  | none => []
  | some s => clauseMark word ++ Quoted.encode s

/-- The text of a clause that ends the expression. -/
theorem clauseText_clause (lead word s : Bytes) :
    clauseText (lead.length, (clauseMark word).length) (lead ++ clause word (some s)) = s := by
  rw [clauseText, clause, List.drop_length_add_append, List.drop_left]
  exact Quoted.literalOrText_encode [] s rfl

/-- A word between spaces stands at the start of a text that begins with a space and a run of bytes
of a path exactly when the run is the word and a space follows it. -/
theorem isPrefixOf_clauseMark {word s rest : Bytes} (hword : Bytes.IsOfPath word)
    (hs : Bytes.IsOfPath s) (hrest : ∀ b, rest.head? = some b → Byte.isOfPath b = false) :
    (clauseMark word).isPrefixOf (Byte.space :: (s ++ rest)) = true ↔
      word = s ∧ rest.head? = some Byte.space := by
  have hmark : clauseMark word = Byte.space :: (word ++ [Byte.space]) := rfl
  rw [List.isPrefixOf_iff_prefix, hmark, List.cons_prefix_cons]
  constructor
  · rintro ⟨-, more, hmore⟩
    rw [List.append_assoc, List.singleton_append] at hmore
    have hstop : ∀ b, (Byte.space :: more).head? = some b → Byte.isOfPath b = false := by
      rintro b ⟨⟩
      rfl
    have hread : (word, Byte.space :: more) = (s, rest) := by
      rw [← Bytes.readWhile_append _ hword.bytes hstop, hmore,
        Bytes.readWhile_append _ hs.bytes hrest]
    obtain ⟨rfl, rfl⟩ := Prod.mk.inj hread
    exact ⟨rfl, rfl⟩
  · rintro ⟨rfl, hhead⟩
    obtain ⟨more, rfl⟩ := List.head?_eq_some_iff.mp hhead
    exact ⟨rfl, more, by simp⟩

/-- No word begins with the quote of a literal. -/
theorem isPrefixOf_clauseMark_encode {word : Bytes} (hword : Bytes.IsOfPath word) (s rest : Bytes) :
    (clauseMark word).isPrefixOf (Byte.space :: (Quoted.encode s ++ rest)) = false := by
  obtain ⟨first, more, rfl⟩ := List.exists_cons_of_ne_nil hword.nonempty
  have hquote : first ≠ Byte.doubleQuote := by
    rintro rfl
    exact absurd (hword.bytes Byte.doubleQuote (.head _)) (by decide)
  simp [clauseMark, Quoted.encode, List.isPrefixOf, hquote]

section Walk

variable (word : Bytes) (offset : Nat)

/-- A space at top level is looked at as the start of a clause. -/
theorem findTopLevelFrom_space (rest : Bytes) :
    Bytes.findTopLevelFrom (clauseMark word) (Scan.outside 0) offset (Byte.space :: rest) =
      (if (clauseMark word).isPrefixOf (Byte.space :: rest) then [offset] else []) ++
        Bytes.findTopLevelFrom (clauseMark word) (Scan.outside 0) (offset + 1) rest := by
  have hspace : (Scan.outside 0).step Byte.space = Scan.outside 0 := rfl
  have htop : (Scan.outside 0).isTopLevel = true := rfl
  rw [Bytes.findTopLevelFrom, hspace, htop]
  simp only [Bool.true_and]
  split <;> rfl

/-- No clause opens in a text that shows no space. -/
theorem findTopLevelFrom_of_passes {s : Bytes} (h : Scan.Passes Byte.space 0 s) (rest : Bytes) :
    Bytes.findTopLevelFrom (clauseMark word) (Scan.outside 0) offset (s ++ rest) =
      Bytes.findTopLevelFrom (clauseMark word) (Scan.outside 0) (offset + s.length) rest :=
  Bytes.findTopLevelFrom_of_passes h offset rest

end Walk

/-- The mark of a clause is found at its start, and nothing in the clause behind it. -/
theorem findTopLevelFrom_clause {word other : Bytes} (hword : Bytes.IsOfPath word)
    (hother : Bytes.IsOfPath other) (s : Option Bytes) (offset : Nat) (rest : Bytes) :
    Bytes.findTopLevelFrom (clauseMark word) (Scan.outside 0) offset (clause other s ++ rest) =
      (if word = other ∧ s.isSome then [offset] else []) ++
        Bytes.findTopLevelFrom (clauseMark word) (Scan.outside 0)
          (offset + (clause other s).length) rest := by
  cases s with
  | none => simp [clause]
  | some s =>
    let literal := Quoted.encode s
    have htext : clause other (some s) ++ rest =
        Byte.space :: (other ++ (Byte.space :: (literal ++ rest))) := by
      simp [clause, clauseMark, literal]
    have hopens : (clauseMark word).isPrefixOf
        (Byte.space :: (other ++ (Byte.space :: (literal ++ rest)))) = decide (word = other) := by
      rw [Bool.eq_iff_iff, isPrefixOf_clauseMark hword hother (by rintro b ⟨⟩; rfl)]
      simp
    have hcloses := isPrefixOf_clauseMark_encode hword s rest
    have hlength : offset + 1 + other.length + 1 + literal.length =
        offset + (clause other (some s)).length := by
      simp [clause, clauseMark, literal]
      omega
    rw [htext, findTopLevelFrom_space, hopens,
      findTopLevelFrom_of_passes word _ (hother.passes rfl 0), findTopLevelFrom_space, hcloses,
      findTopLevelFrom_of_passes word _ (.encode (by decide) s), hlength]
    simp

end Print

end Stencil
