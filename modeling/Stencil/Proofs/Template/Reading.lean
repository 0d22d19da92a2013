import Stencil.Template.Body

/-!
# What a reader does, as rules

`Reads` and `Fails` say by rules how a reader of a body comes to its end and how it is stopped by a
fault, one rule for each way through `Reader.read`. Whatever is shown about the outcome of reading
is shown by induction on them: `Reader.sound` leads from the reader to the rules, and
`Reads.outcome_eq` leads back. The first fact drawn from the rules is the one about the counters,
`Reads.depth_eq`: a body that has been read leaves them as they were before its construct.
-/

set_option autoImplicit false

namespace Stencil

namespace Reader

/-- The reader goes on and meets a closed region after a raw text. -/
structure Meets (reader : Reader) (raw inside rest : Bytes) : Prop where
  goesOn : reader.isDone = false
  cut : ∃ afterOpener, Bytes.breakOn Segment.opener reader.rest = some (raw, afterOpener) ∧
    Bytes.breakOn Segment.closer afterOpener = some (inside, rest)

/-- The reader after a region that is a node of its body. -/
def pass (reader : Reader) (raw inside rest : Bytes) : Reader :=
  { reader with begun := true, offset := reader.regionEnd raw inside, rest }

/-- The reader of the body that the next region opens. -/
def enter (reader : Reader) (construct : Construct) (raw inside rest : Bytes) : Reader :=
  Reader.inside construct (reader.regionStart raw) reader.depth (reader.regionEnd raw inside) rest

end Reader

/-- A reader comes to the end of its body. -/
inductive Reads : Reader → Reading → Prop
  /-- The counters are back where they were. -/
  | done {reader : Reader} (hdone : reader.isDone = true) :
    Reads reader { nodes := [], depth := reader.depth, offset := reader.offset,
                   rest := reader.rest }
  /-- The source of a template is at its end. -/
  | finish {reader : Reader} (hdone : reader.isDone = false) (hbody : reader.body = .template)
    (hopen : Bytes.breakOn Segment.opener reader.rest = none) :
    Reads reader { nodes := Node.ofText reader.rest, depth := reader.depth,
                   offset := reader.offset + reader.rest.length, rest := [] }
  /-- A region ends the body. -/
  | ends {reader : Reader} {raw inside rest : Bytes} {statement : Statement}
    (hmeets : reader.Meets raw inside rest) (hparse : Statement.parse inside.strip = .ok statement)
    (hpart : statement.part reader.body reader.depth = .ok .ends) :
    Reads reader { nodes := Node.ofText raw, depth := reader.depth.leave reader.body,
                   offset := reader.regionEnd raw inside, rest }
  /-- A region is a node of the body. -/
  | node {reader : Reader} {raw inside rest : Bytes} {statement : Statement} {node : Node}
    {more : Reading} (hmeets : reader.Meets raw inside rest)
    (hparse : Statement.parse inside.strip = .ok statement)
    (hpart : statement.part reader.body reader.depth = .ok (.node node))
    (hmore : Reads (reader.pass raw inside rest) more) :
    Reads reader { more with nodes := Node.ofText raw ++ node :: more.nodes }
  /-- A region opens a construct, whose body is read first. -/
  | construct {reader : Reader} {raw inside rest : Bytes} {statement : Statement}
    {construct : Construct} {inner more : Reading} {node : Node}
    (hmeets : reader.Meets raw inside rest) (hparse : Statement.parse inside.strip = .ok statement)
    (hpart : statement.part reader.body reader.depth = .ok (.opens construct))
    (hinner : Reads (reader.enter construct raw inside rest) inner)
    (hnode : construct.node? inner.nodes = some node) (hmore : Reads (reader.after inner) more) :
    Reads reader { more with nodes := Node.ofText raw ++ node :: more.nodes }

/-- A reader is stopped by a fault. -/
inductive Fails : Reader → TemplateFault × Nat → Prop
  /-- The source ends inside the body of a construct. -/
  | unterminated {reader : Reader} (hdone : reader.isDone = false)
    (hbody : reader.body ≠ .template)
    (hopen : Bytes.breakOn Segment.opener reader.rest = none) :
    Fails reader (.unterminated, reader.opened)
  /-- A region is never closed. -/
  | unclosed {reader : Reader} {raw afterOpener : Bytes} (hdone : reader.isDone = false)
    (hopen : Bytes.breakOn Segment.opener reader.rest = some (raw, afterOpener))
    (hclose : Bytes.breakOn Segment.closer afterOpener = none) :
    Fails reader (.unterminated, reader.regionStart raw)
  /-- A region is no statement. -/
  | statement {reader : Reader} {raw inside rest : Bytes} {fault : TemplateFault}
    (hmeets : reader.Meets raw inside rest)
    (hparse : Statement.parse inside.strip = .error fault) :
    Fails reader (fault, reader.regionStart raw)
  /-- A mark stands where it must not. -/
  | misplaced {reader : Reader} {raw inside rest : Bytes} {statement : Statement}
    {fault : TemplateFault} (hmeets : reader.Meets raw inside rest)
    (hparse : Statement.parse inside.strip = .ok statement)
    (hpart : statement.part reader.body reader.depth = .error fault) :
    Fails reader (fault, reader.regionStart raw)
  /-- The body of a construct is stopped by a fault. -/
  | inner {reader : Reader} {raw inside rest : Bytes} {statement : Statement}
    {construct : Construct} {fault : TemplateFault × Nat} (hmeets : reader.Meets raw inside rest)
    (hparse : Statement.parse inside.strip = .ok statement)
    (hpart : statement.part reader.body reader.depth = .ok (.opens construct))
    (hinner : Fails (reader.enter construct raw inside rest) fault) : Fails reader fault
  /-- The body of a condition is divided twice. -/
  | divided {reader : Reader} {raw inside rest : Bytes} {statement : Statement}
    {construct : Construct} {inner : Reading} (hmeets : reader.Meets raw inside rest)
    (hparse : Statement.parse inside.strip = .ok statement)
    (hpart : statement.part reader.body reader.depth = .ok (.opens construct))
    (hinner : Reads (reader.enter construct raw inside rest) inner)
    (hnode : construct.node? inner.nodes = none) :
    Fails reader (.secondDivider, reader.regionStart raw)
  /-- The fault comes after a region that is a node. -/
  | afterNode {reader : Reader} {raw inside rest : Bytes} {statement : Statement} {node : Node}
    {fault : TemplateFault × Nat} (hmeets : reader.Meets raw inside rest)
    (hparse : Statement.parse inside.strip = .ok statement)
    (hpart : statement.part reader.body reader.depth = .ok (.node node))
    (hmore : Fails (reader.pass raw inside rest) fault) : Fails reader fault
  /-- The fault comes after a construct. -/
  | afterConstruct {reader : Reader} {raw inside rest : Bytes} {statement : Statement}
    {construct : Construct} {inner : Reading} {node : Node} {fault : TemplateFault × Nat}
    (hmeets : reader.Meets raw inside rest) (hparse : Statement.parse inside.strip = .ok statement)
    (hpart : statement.part reader.body reader.depth = .ok (.opens construct))
    (hinner : Reads (reader.enter construct raw inside rest) inner)
    (hnode : construct.node? inner.nodes = some node) (hmore : Fails (reader.after inner) fault) :
    Fails reader fault

/-! ## From the reader to the rules -/

namespace Reader

/-- The way through a body whose next region is closed. -/
theorem outcome_of_meets {reader : Reader} {raw inside rest : Bytes}
    (hmeets : reader.Meets raw inside rest) :
    reader.outcome = reader.goOn raw (reader.regionOutcome raw inside rest) := by
  obtain ⟨hdone, afterOpener, hopen, hclose⟩ := hmeets
  rw [outcome_eq]
  simp only [hdone, Bool.false_eq_true, if_false, hopen, hclose]

/-- Behind a region there is less left to read. -/
theorem Meets.length_lt {reader : Reader} {raw inside rest : Bytes}
    (hmeets : reader.Meets raw inside rest) : rest.length < reader.rest.length := by
  obtain ⟨-, afterOpener, hopen, hclose⟩ := hmeets
  have hopener := Bytes.length_after_lt (by decide) hopen
  have hcloser := Bytes.length_after_lt (by decide) hclose
  omega

/-- Reading a region does not go back. -/
theorem length_le_of_regionOutcome {reader : Reader} {raw inside rest : Bytes} {region : Reading}
    {ended : Bool} (h : reader.regionOutcome raw inside rest = .ok (region, ended)) :
    region.rest.length ≤ rest.length := by
  rw [regionOutcome] at h
  cases hread : reader.readRegion (reader.regionStart raw) inside (reader.regionEnd raw inside) rest
  with
  | error fault => simp [hread, Except.map] at h
  | ok result =>
    obtain hresult : result.val = (region, ended) := by simpa [hread, Except.map] using h
    simpa [hresult] using result.property

/-- The outcome of a reader is one that the rules allow. -/
structure Sound (reader : Reader) : Prop where
  reads : ∀ reading, reader.outcome = .ok reading → Reads reader reading
  fails : ∀ fault, reader.outcome = .error fault → Fails reader fault

/-- A reader is sound when what it reads is a reading. -/
theorem Sound.of_ok {reader : Reader} {reading : Reading} (hread : reader.outcome = .ok reading)
    (hreads : Reads reader reading) : reader.Sound := by
  constructor
  · intro reading' hread'
    obtain rfl : reading = reading' := by simpa using hread.symm.trans hread'
    exact hreads
  · intro fault hfault
    simp [hread] at hfault

/-- A reader is sound when its fault is one. -/
theorem Sound.of_error {reader : Reader} {fault : TemplateFault × Nat}
    (hread : reader.outcome = .error fault) (hfails : Fails reader fault) : reader.Sound := by
  constructor
  · intro reading hread'
    simp [hread] at hread'
  · intro fault' hread'
    obtain rfl : fault = fault' := by simpa using hread.symm.trans hread'
    exact hfails

/-- What comes of the next region is what the rules allow, whatever is shown of the rest. -/
structure SoundRegion (reader : Reader) (raw : Bytes)
    (outcome : Except (TemplateFault × Nat) (Reading × Bool)) : Prop where
  ends : ∀ region, outcome = .ok (region, true) →
    Reads reader { region with nodes := Node.ofText raw ++ region.nodes }
  reads : ∀ region more, outcome = .ok (region, false) → Reads (reader.after region) more →
    Reads reader { more with nodes := Node.ofText raw ++ region.nodes ++ more.nodes }
  failsAfter : ∀ region fault, outcome = .ok (region, false) →
    Fails (reader.after region) fault → Fails reader fault
  fails : ∀ fault, outcome = .error fault → Fails reader fault

/-- The region of a reader is sound when its fault is one of the reader. -/
theorem SoundRegion.of_error {reader : Reader} {raw : Bytes} {fault : TemplateFault × Nat}
    (hfails : Fails reader fault) : reader.SoundRegion raw (.error fault) := by
  refine ⟨by simp, by simp, by simp, ?_⟩
  rintro fault' heq
  cases heq
  exact hfails

/-- A region is read by the rules when the body that it may open is. -/
theorem soundRegion {reader : Reader} {raw inside rest : Bytes}
    (hmeets : reader.Meets raw inside rest)
    (hinner : ∀ construct, (reader.enter construct raw inside rest).Sound) :
    reader.SoundRegion raw (reader.regionOutcome raw inside rest) := by
  rw [regionOutcome_eq]
  cases hparse : Statement.parse inside.strip with
  | error fault => exact .of_error (.statement hmeets hparse)
  | ok statement =>
    cases hpart : statement.part reader.body reader.depth with
    | error fault =>
      simp only [hpart]
      exact .of_error (.misplaced hmeets hparse hpart)
    | ok part =>
      simp only [hpart]
      cases part with
      | node node =>
        refine ⟨by simp, ?_, ?_, by simp⟩
        · rintro region more heq hmore
          cases heq
          simpa using Reads.node hmeets hparse hpart hmore
        · rintro region fault heq hfails
          cases heq
          exact .afterNode hmeets hparse hpart hfails
      | ends =>
        refine ⟨?_, by simp, by simp, by simp⟩
        rintro region heq
        cases heq
        simpa using Reads.ends hmeets hparse hpart
      | opens construct =>
        have hsound := hinner construct
        rw [enter] at hsound
        cases hread : (Reader.inside construct (reader.regionStart raw) reader.depth
            (reader.regionEnd raw inside) rest).outcome with
        | error fault =>
          simp only [hread]
          exact .of_error (.inner hmeets hparse hpart (hsound.fails fault hread))
        | ok inner =>
          simp only [hread]
          have hreads := hsound.reads inner hread
          cases hnode : construct.node? inner.nodes with
          | none =>
            exact .of_error (.divided hmeets hparse hpart hreads hnode)
          | some node =>
            refine ⟨by simp, ?_, ?_, by simp⟩
            · rintro region more heq hmore
              cases heq
              simpa using Reads.construct hmeets hparse hpart hreads hnode hmore
            · rintro region fault heq hfails
              cases heq
              exact .afterConstruct hmeets hparse hpart hreads hnode hfails

/-- A reader does what the rules say. The induction is on what is left of the source: the body that
a region opens and what follows the region are both shorter. -/
theorem sound (reader : Reader) : reader.Sound := by
  induction hn : reader.rest.length using Nat.strongRecOn generalizing reader with
  | ind n ih =>
    subst hn
    have hread := outcome_eq reader
    cases hdone : reader.isDone with
    | true =>
      simp only [hdone, if_true] at hread
      exact .of_ok hread (.done hdone)
    | false =>
      simp only [hdone, Bool.false_eq_true, if_false] at hread
      cases hopen : Bytes.breakOn Segment.opener reader.rest with
      | none =>
        simp only [hopen] at hread
        split at hread
        · rename_i hbody
          exact .of_ok hread (.finish hdone hbody hopen)
        · rename_i hbody
          exact .of_error hread (.unterminated hdone hbody hopen)
      | some parts =>
        obtain ⟨raw, afterOpener⟩ := parts
        cases hclose : Bytes.breakOn Segment.closer afterOpener with
        | none =>
          simp only [hopen, hclose] at hread
          exact .of_error hread (.unclosed hdone hopen hclose)
        | some parts =>
          obtain ⟨inside, rest⟩ := parts
          have hmeets : reader.Meets raw inside rest := ⟨hdone, afterOpener, hopen, hclose⟩
          have hregion := soundRegion hmeets fun construct =>
            ih rest.length hmeets.length_lt (reader.enter construct raw inside rest) rfl
          replace hread := outcome_of_meets hmeets
          cases hout : reader.regionOutcome raw inside rest with
          | error fault =>
            simp only [hout, goOn] at hread
            exact .of_error hread (hregion.fails fault hout)
          | ok result =>
            obtain ⟨region, ended⟩ := result
            have hlength := length_le_of_regionOutcome hout
            cases ended with
            | true =>
              simp only [hout, goOn] at hread
              exact .of_ok hread (hregion.ends region hout)
            | false =>
              have hafter : (reader.after region).Sound :=
                ih region.rest.length (Nat.lt_of_le_of_lt hlength hmeets.length_lt) _ rfl
              cases hmore : (reader.after region).outcome with
              | error fault =>
                simp only [hout, goOn, hmore, Except.map] at hread
                exact .of_error hread
                  (hregion.failsAfter region fault hout (hafter.fails fault hmore))
              | ok more =>
                simp only [hout, goOn, hmore, Except.map] at hread
                exact .of_ok hread (hregion.reads region more hout (hafter.reads more hmore))

end Reader

/-! ## From the rules to the reader -/

/-- What the rules allow is what the reader does. -/
theorem Reads.outcome_eq {reader : Reader} {reading : Reading} (h : Reads reader reading) :
    reader.outcome = .ok reading := by
  induction h with
  | done hdone => simp [Reader.outcome_eq, hdone]
  | finish hdone hbody hopen => simp [Reader.outcome_eq, hdone, hopen, hbody]
  | ends hmeets hparse hpart =>
    simp [Reader.outcome_of_meets hmeets, Reader.regionOutcome_eq, hparse, hpart, Reader.goOn]
  | node hmeets hparse hpart hmore ih =>
    simp only [Reader.pass] at ih
    simp [Reader.outcome_of_meets hmeets, Reader.regionOutcome_eq, hparse, hpart, Reader.goOn,
      Reader.after, ih, Except.map]
  | construct hmeets hparse hpart hinner hnode hmore ihinner ihmore =>
    simp only [Reader.enter] at ihinner
    simp only [Reader.after] at ihmore
    simp [Reader.outcome_of_meets hmeets, Reader.regionOutcome_eq, hparse, hpart, ihinner, hnode,
      Reader.goOn, Reader.after, ihmore, Except.map]

/-- Reading a body that was entered properly leaves the counters as they were before its
construct. -/
theorem Reads.depth_eq {reader : Reader} {reading : Reading} (h : Reads reader reading)
    (hdepth : reader.depth = reader.target.enter reader.body) : reading.depth = reader.target := by
  induction h with
  | done hdone =>
    simp only [Reader.isDone, Bool.and_eq_true, beq_iff_eq] at hdone
    exact hdone.2
  | finish hdone hbody hopen => simpa [hbody, Depth.enter] using hdepth
  | ends hmeets hparse hpart => simp [hdepth]
  | node hmeets hparse hpart hmore ih => exact ih hdepth
  | construct hmeets hparse hpart hinner hnode hmore ihinner ihmore =>
    exact ihmore ((ihinner rfl).trans hdepth)

namespace Reader

/-- A source has the nodes that the reader of a template reads: the check of the counters at its end
never fails. -/
theorem parseSource_eq_ok_iff {source : Bytes} {nodes : List Node} :
    parseSource source = .ok nodes ↔
      ∃ reading, Reads (start source) reading ∧ reading.nodes = nodes := by
  constructor
  · intro h
    rw [parseSource] at h
    cases hread : (start source).outcome with
    | error fault => simp [hread] at h
    | ok reading =>
      simp only [hread] at h
      split at h
      · exact ⟨reading, (sound _).reads reading hread, Except.ok.inj h⟩
      · cases h
  · rintro ⟨reading, hreads, rfl⟩
    have hread := hreads.outcome_eq
    have hdepth : reading.depth = {} := hreads.depth_eq rfl
    simp [parseSource, hread, hdepth]

/-- A source is refused for a fault that stops the reader of a template. -/
theorem fails_of_parseSource {source : Bytes} {fault : TemplateFault × Nat}
    (h : parseSource source = .error fault) : Fails (start source) fault := by
  rw [parseSource] at h
  cases hread : (start source).outcome with
  | error fault' =>
    obtain rfl : fault' = fault := by simpa [hread] using h
    exact (sound _).fails fault' hread
  | ok reading =>
    have hdepth : reading.depth = {} := ((sound _).reads reading hread).depth_eq rfl
    simp [hread, hdepth] at h

end Reader

end Stencil
