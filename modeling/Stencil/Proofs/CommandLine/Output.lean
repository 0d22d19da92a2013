import Stencil.CommandLine
import Stencil.Json.Strict
import Stencil.Proofs.Render.Literal

/-!
# The output option

An invocation that names an output file does what the invocation without that option does in the
directory in which the file is empty, and leaves in the file what would go to the standard output.
The file is emptied before anything is read, so this is the directory as it was unless the file is
one of the inputs (`CommandLine.run_output`); a template that is its own output is lost
(`CommandLine.run_output_ne`).
-/

set_option autoImplicit false

namespace Stencil

namespace CommandLine

/-! ## Argument lists -/

/-- The arguments that name an output. -/
def outputFlags : List Bytes := [ascii "-o", ascii "--output"]

/-- Whether one of the options in an argument list names an output. -/
def setsOutput : List Bytes → Bool
  | [] => false
  | [arg] => outputFlags.contains arg
  | arg :: value :: rest =>
    outputFlags.contains arg ||
      if (takesValue? arg).isSome then setsOutput rest else setsOutput (value :: rest)

/-- An argument list with an output option put in where an option may stand. -/
inductive AddsOutput (file : Bytes) : List Bytes → List Bytes → Prop
  | here {flag : Bytes} {rest : List Bytes} (hflag : flag ∈ outputFlags) :
    AddsOutput file rest (flag :: file :: rest)
  | behindSwitch {arg : Bytes} {rest longer : List Bytes} {change : Options → Options}
    (hswitch : switch? arg = some change) (h : AddsOutput file rest longer) :
    AddsOutput file (arg :: rest) (arg :: longer)
  | behindValue {arg value : Bytes} {rest longer : List Bytes} {change : Options → Bytes → Options}
    (hvalue : takesValue? arg = some change) (h : AddsOutput file rest longer) :
    AddsOutput file (arg :: value :: rest) (arg :: value :: longer)

/-- The switches are three, and one of them has two spellings. -/
theorem eq_of_switch? {arg : Bytes} {change : Options → Options} (h : switch? arg = some change) :
    arg = ascii "--keep-fmt" ∨ arg = ascii "--dump" ∨ arg = ascii "-v" ∨
      arg = ascii "--verbose" := by
  rw [switch?] at h
  split at h
  · simp_all
  split at h
  · simp_all
  split at h
  · simp_all
  · cases h

/-- The options that take a value are three, each with a short and a long spelling. -/
theorem eq_of_takesValue? {arg : Bytes} {change : Options → Bytes → Options}
    (h : takesValue? arg = some change) :
    (arg = ascii "-t" ∨ arg = ascii "--template") ∨ (arg = ascii "-d" ∨ arg = ascii "--data") ∨
      (arg = ascii "-o" ∨ arg = ascii "--output") := by
  rw [takesValue?] at h
  split at h
  · exact .inl (by simp_all)
  split at h
  · exact .inr (.inl (by simp_all))
  split at h
  · exact .inr (.inr (by simp_all))
  · cases h

/-- A switch is read by itself. -/
theorem readArguments_switch {arg : Bytes} {change : Options → Options}
    (h : switch? arg = some change) (options : Options) (rest : List Bytes) :
    readArguments options (arg :: rest) = readArguments (change options) rest := by
  obtain rfl | rfl | rfl | rfl := eq_of_switch? h <;> cases h <;> rfl

/-- An option with a value is read together with the argument behind it. -/
theorem readArguments_value {arg : Bytes} {change : Options → Bytes → Options}
    (h : takesValue? arg = some change) (options : Options) (value : Bytes) (rest : List Bytes) :
    readArguments options (arg :: value :: rest) = readArguments (change options value) rest := by
  obtain (rfl | rfl) | (rfl | rfl) | rfl | rfl := eq_of_takesValue? h <;> cases h <;> rfl

/-- No switch has to do with the output. -/
theorem output_of_switch? {arg : Bytes} {change : Options → Options} (h : switch? arg = some change)
    (options : Options) :
    (change options).output = options.output ∧
      ∀ file, change { options with output := file } = { change options with output := file } := by
  obtain rfl | rfl | rfl | rfl := eq_of_switch? h <;> cases h <;> exact ⟨rfl, fun _ => rfl⟩

/-- An option that takes a value and is not for the output leaves the output as it is. -/
theorem output_of_takesValue? {arg : Bytes} {change : Options → Bytes → Options}
    (h : takesValue? arg = some change) (hflag : outputFlags.contains arg = false)
    (options : Options) (value : Bytes) :
    (change options value).output = options.output ∧
      ∀ file, change { options with output := file } value =
        { change options value with output := file } := by
  obtain (rfl | rfl) | (rfl | rfl) | rfl | rfl := eq_of_takesValue? h
  · cases h; exact ⟨rfl, fun _ => rfl⟩
  · cases h; exact ⟨rfl, fun _ => rfl⟩
  · cases h; exact ⟨rfl, fun _ => rfl⟩
  · cases h; exact ⟨rfl, fun _ => rfl⟩
  · cases hflag
  · cases hflag

/-- An argument that takes no value sets the output only when it is the output flag itself. -/
theorem setsOutput_cons_of_none {arg : Bytes} (h : takesValue? arg = none) (rest : List Bytes) :
    setsOutput (arg :: rest) = (outputFlags.contains arg || setsOutput rest) := by
  cases rest with
  | nil => simp [setsOutput]
  | cons value rest => simp [setsOutput, h]

/-- What reading an argument list without an output option gives, with any output put in. -/
theorem readArguments_output {args : List Bytes} {options parsed : Options}
    (hnone : setsOutput args = false) (h : readArguments options args = .run parsed) :
    parsed.output = options.output ∧
      ∀ file, readArguments { options with output := file } args =
        .run { parsed with output := file } := by
  induction options, args using readArguments.induct with
  | case1 options htemplate => simp [readArguments, htemplate] at h
  | case2 options htemplate =>
    simp only [readArguments, htemplate, Bool.false_eq_true, if_false, Request.run.injEq] at h
    subst h
    exact ⟨rfl, fun file => by simp [readArguments, htemplate]⟩
  | case3 options arg rest hhelp => simp [readArguments, hhelp] at h
  | case4 options arg hhelp change hvalue value rest ih =>
    have hparts : outputFlags.contains arg = false ∧ setsOutput rest = false := by
      simpa [setsOutput, hvalue] using hnone
    obtain ⟨hsame, hput⟩ := output_of_takesValue? hvalue hparts.1 options value
    rw [readArguments_value hvalue] at h
    obtain ⟨houtput, hread⟩ := ih hparts.2 h
    refine ⟨houtput.trans hsame, fun file => ?_⟩
    rw [readArguments_value hvalue, hput, hread]
  | case5 options arg hhelp change hvalue => simp [readArguments, hhelp, hvalue] at h
  | case6 options arg rest hhelp change hswitch hvalue ih =>
    have hrest : setsOutput rest = false := by
      rw [setsOutput_cons_of_none hvalue, Bool.or_eq_false_iff] at hnone
      exact hnone.2
    obtain ⟨hsame, hput⟩ := output_of_switch? hswitch options
    rw [readArguments_switch hswitch] at h
    obtain ⟨houtput, hread⟩ := ih hrest h
    refine ⟨houtput.trans hsame, fun file => ?_⟩
    rw [readArguments_switch hswitch, hput, hread]
  | case7 options arg rest hhelp hswitch hvalue =>
    simp [readArguments, hhelp, hvalue, hswitch] at h

/-- An output option is read wherever it is put in. -/
theorem readArguments_of_addsOutput {file : Bytes} {args longer : List Bytes}
    {options parsed : Options} (hadds : AddsOutput file args longer)
    (hnone : setsOutput args = false) (h : readArguments options args = .run parsed) :
    readArguments options longer = .run { parsed with output := file } := by
  induction hadds generalizing options with
  | @here flag rest hflag =>
    have hput : readArguments options (flag :: file :: rest) =
        readArguments { options with output := file } rest := by
      obtain rfl | rfl : flag = ascii "-o" ∨ flag = ascii "--output" := by
        simpa [outputFlags] using hflag
      · rfl
      · rfl
    rw [hput, (readArguments_output hnone h).2]
  | @behindSwitch arg rest longer change hswitch _ ih =>
    have hvalue : takesValue? arg = none := by
      obtain rfl | rfl | rfl | rfl := eq_of_switch? hswitch <;> rfl
    rw [setsOutput_cons_of_none hvalue, Bool.or_eq_false_iff] at hnone
    rw [readArguments_switch hswitch] at h ⊢
    exact ih hnone.2 h
  | @behindValue arg value rest longer change hvalue _ ih =>
    have hrest : setsOutput rest = false := by
      have hparts : outputFlags.contains arg = false ∧ setsOutput rest = false := by
        simpa [setsOutput, hvalue] using hnone
      exact hparts.2
    rw [readArguments_value hvalue] at h ⊢
    exact ih hrest h

/-! ## Files -/

/-- A name of a file of the directory itself. -/
structure IsPlainName (name : Bytes) : Prop where
  nonempty : name ≠ []
  slash : 0x2f ∉ name
  dot : name ≠ ascii "."
  dots : name ≠ ascii ".."

/-- A plain name names a file of the directory. -/
theorem Place.ofPath_of_isPlainName {name : Bytes} (h : IsPlainName name) :
    Place.ofPath name = .file name := by
  have hsplit : name.splitOn 0x2f = [name] :=
    List.splitOnP_eq_singleton fun b hb => beq_false_of_ne fun heq => h.slash (heq ▸ hb)
  have hempty : name.isEmpty = false := by simpa using h.nonempty
  have hroot : name.startsWith (ascii "/") = false := by
    rw [Bool.eq_false_iff]
    intro hstarts
    obtain ⟨rest, rfl⟩ := List.isPrefixOf_iff_prefix.mp hstarts
    exact h.slash (List.mem_append_left rest (.head _))
  have hdevice : (name == ascii "/dev/null") = false := by
    rw [beq_eq_false_iff_ne]
    rintro rfl
    exact h.slash (.head _)
  rw [ofPath, ofRelative, hsplit]
  simp [hempty, hroot, hdevice, h.dot, h.dots]

/-- The files of the directory after an invocation. -/
def Result.directory (result : Result) (files : Table Bytes) : Table Bytes :=
  match result.file with
  | none => files
  | some (name, content) => files.insert name content

/-- The paths that an invocation opens to read: the template, and the data when there is a template
to render with it. -/
def inputs (options : Options) (files : Bytes → Option Bytes) : List Bytes :=
  options.template ::
    match (files options.template).map (Tree.parse options.keepFormatting) with
    | some (.ok _) => if options.dump || options.data.isEmpty then [] else [options.data]
    | _ => []

/-- Without data the template is the only input. -/
theorem inputs_of_data_nil {options : Options} (h : options.data = [])
    (files : Bytes → Option Bytes) : inputs options files = [options.template] := by
  rw [inputs]
  split
  · simp [h]
  · rfl

/-- Reading the data depends on the file of the data alone, and on no file when there is none. -/
theorem readData_congr [JsonLibrary] {files others : Bytes → Option Bytes} {path : Bytes}
    (registry : Registry) (h : path ≠ [] → others path = files path) :
    readData registry others path = readData registry files path := by
  rw [readData, readData]
  by_cases hpath : path = []
  · simp [hpath]
  · rw [h hpath]

/-- What an invocation does with its files depends on those that it opens. -/
theorem process_congr [JsonLibrary] {options : Options} {files others : Bytes → Option Bytes}
    (h : ∀ path ∈ inputs options files, others path = files path) :
    process options others = process options files := by
  have htemplate : others options.template = files options.template := h _ (.head _)
  rw [process, process, htemplate]
  cases htext : files options.template with
  | none => rfl
  | some text =>
    simp only
    cases hparse : Tree.parse options.keepFormatting text with
    | error => rfl
    | ok tree =>
      cases hdump : options.dump with
      | true => rfl
      | false =>
        have hdata : options.data ≠ [] → others options.data = files options.data := by
          intro hdata
          apply h
          simp [inputs, htext, hparse, hdump, hdata]
        simp only [renderTree, readData_congr Registry.standard hdata]

/-- What is read under a path stays when another file is written. -/
theorem readPath_insert {files : Table Bytes} {name path : Bytes} (content : Bytes)
    (h : Place.ofPath path ≠ .file name) :
    readPath (files.insert name content) path = readPath files path := by
  rw [readPath, readPath]
  cases hplace : Place.ofPath path with
  | file other =>
    have hother : other ≠ name := fun hsame => h (hsame ▸ hplace)
    exact files.find?_insert_of_ne content hother
  | directory | nullDevice | nowhere => rfl

/-- An invocation and one that is redirected into a file: they end alike and say the same, and what
the one writes to the standard output is what the other one leaves in the file, and all that it
changes. -/
structure Result.Redirects (redirected plain : Result) (files : Table Bytes) (file : Bytes) :
    Prop where
  exitCode : redirected.exitCode = plain.exitCode
  errors : redirected.errors = plain.errors
  output : redirected.output = []
  content : (redirected.directory files).find? file = some plain.output
  others : ∀ other, other ≠ file → (redirected.directory files).find? other = files.find? other

/-- Without an output file all is written to the two streams, and no file is made. -/
theorem run_of_output_nil [JsonLibrary] (program : Bytes) {args : List Bytes} (files : Table Bytes)
    {options : Options} (h : readArguments {} args = .run options) (hnone : options.output = []) :
    run program args files =
      { exitCode := (process options (readPath files)).exitCode
        output := (process options (readPath files)).written
        errors := (process options (readPath files)).errors } := by
  rw [run, h]
  simp [hnone]

/-- An invocation that names an output is redirected from what it does without the output, once the
file is emptied. -/
theorem redirects_run [JsonLibrary] (program : Bytes) {args longer : List Bytes} {file : Bytes}
    (files : Table Bytes) {options : Options} (haccepted : readArguments {} args = .run options)
    (hnone : setsOutput args = false) (hadds : AddsOutput file args longer)
    (hplain : IsPlainName file) :
    (run program longer files).Redirects (run program args (files.insert file [])) files file := by
  have houtput : options.output = [] := (readArguments_output hnone haccepted).1
  have hlonger := readArguments_of_addsOutput hadds hnone haccepted
  have hpresent : file.isEmpty = false := by simpa using hplain.nonempty
  let outcome := process options (readPath (files.insert file []))
  have hredirected : run program longer files =
      { exitCode := outcome.exitCode, output := [], errors := outcome.errors
        file := if files.find? file = some outcome.written then none
                else some (file, outcome.written) } := by
    rw [run, hlonger]
    simp only [hpresent, Place.ofPath_of_isPlainName hplain, Bool.false_eq_true, if_false]
    rfl
  have hdirectory : (run program longer files).directory files =
      if files.find? file = some outcome.written then files
      else files.insert file outcome.written := by
    rw [hredirected]
    by_cases hsame : files.find? file = some outcome.written
    · simp [Result.directory, hsame]
    · simp [Result.directory, hsame]
  rw [run_of_output_nil program _ haccepted houtput]
  refine ⟨by rw [hredirected], by rw [hredirected], by rw [hredirected], ?_, fun other hother => ?_⟩
  · rw [hdirectory]
    split
    · assumption
    · exact files.find?_insert_self file outcome.written
  · rw [hdirectory]
    split
    · rfl
    · exact files.find?_insert_of_ne outcome.written hother

/-- An output option redirects an invocation: it does what the invocation would do if the file were
empty, and what the invocation does in the directory as it is unless the file is one that the
invocation reads. -/
theorem run_output [JsonLibrary] (program : Bytes) {args longer : List Bytes} {file : Bytes}
    (files : Table Bytes) {options : Options} (haccepted : readArguments {} args = .run options)
    (hnone : setsOutput args = false) (hadds : AddsOutput file args longer)
    (hplain : IsPlainName file) :
    (run program longer files).Redirects (run program args (files.insert file [])) files file ∧
      ((∀ path ∈ inputs options (readPath files), Place.ofPath path ≠ .file file) →
        (run program longer files).Redirects (run program args files) files file) := by
  have hredirects := redirects_run program files haccepted hnone hadds hplain
  refine ⟨hredirects, fun hinputs => ?_⟩
  have houtput : options.output = [] := (readArguments_output hnone haccepted).1
  have hprocess : process options (readPath (files.insert file [])) =
      process options (readPath files) :=
    process_congr fun path hpath => readPath_insert [] (hinputs path hpath)
  rw [run_of_output_nil program _ haccepted houtput, hprocess] at hredirects
  rwa [run_of_output_nil program files haccepted houtput]

open scoped JsonLibrary.Strict

/-- The output option between two others, with an old output and the template in the directory. -/
theorem run_output_between :
    let args := [ascii "--keep-fmt", ascii "-t", ascii "t", ascii "-v"]
    let longer := [ascii "--keep-fmt", ascii "-t", ascii "t", ascii "-o", ascii "out", ascii "-v"]
    let files : Table Bytes :=
      [(ascii "t", Source.markup (ascii "= " ++ Quoted.encode (ascii "x") ++ ascii " ")),
        (ascii "out", ascii "old")]
    let options : Options := { template := ascii "t", keepFormatting := true, verbose := true }
    readArguments {} args = .run options ∧ setsOutput args = false ∧
      AddsOutput (ascii "out") args longer ∧ IsPlainName (ascii "out") ∧
      (run (ascii "render") longer files).Redirects (run (ascii "render") args files) files
        (ascii "out") := by
  intro args longer files options
  have haccepted : readArguments {} args = .run options := rfl
  have hadds : AddsOutput (ascii "out") args longer :=
    .behindSwitch rfl (.behindValue rfl (.here (.head _)))
  have hplain : IsPlainName (ascii "out") := ⟨by decide, by decide, by decide, by decide⟩
  have hinputs : ∀ path ∈ inputs options (readPath files),
      Place.ofPath path ≠ .file (ascii "out") := by
    rw [inputs_of_data_nil rfl]
    decide
  exact ⟨haccepted, rfl, hadds, hplain,
    (run_output (ascii "render") files haccepted rfl hadds hplain).2 hinputs⟩

/-- What an invocation that renders without data writes. -/
theorem written_of_renders [JsonLibrary] {options : Options} {files : Bytes → Option Bytes}
    {text out : Bytes} (hdump : options.dump = false) (hdata : options.data = [])
    (htemplate : files options.template = some text)
    (h : Source.Renders Registry.standard {} text out) : (process options files).written = out := by
  obtain ⟨tree, hparse, hwritten, hresult⟩ := h options.keepFormatting
  have hread : readData Registry.standard files [] = .ok {} := rfl
  rw [process, htemplate]
  simp only [hparse, hdump, hdata, renderTree, hread, hresult, Bool.false_eq_true, if_false]
  exact hwritten

/-- The empty template writes nothing. -/
theorem renders_nil [JsonLibrary] : Source.Renders Registry.standard {} [] [] := by
  have hparse : ∀ keepFormatting, Tree.parse keepFormatting [] = .ok ⟨[]⟩
    | false => by cbv
    | true => by cbv
  exact fun keepFormatting => ⟨⟨[]⟩, hparse keepFormatting, rfl, rfl⟩

/-- A template that is its own output is empty when it is read, and stays empty. -/
theorem run_output_ne :
    let args := [ascii "-t", ascii "t"]
    let longer := [ascii "-t", ascii "t", ascii "-o", ascii "t"]
    let files : Table Bytes :=
      [(ascii "t", Source.markup (ascii "= " ++ Quoted.encode (ascii "x") ++ ascii " "))]
    readArguments {} args = .run { template := ascii "t" } ∧ setsOutput args = false ∧
      AddsOutput (ascii "t") args longer ∧ IsPlainName (ascii "t") ∧
      (run (ascii "render") args files).output = ascii "x" ∧
      ((run (ascii "render") longer files).directory files).find? (ascii "t") = some [] ∧
      ¬ (run (ascii "render") longer files).Redirects (run (ascii "render") args files) files
        (ascii "t") := by
  intro args longer files
  have haccepted : readArguments {} args = .run { template := ascii "t" } := rfl
  have hadds : AddsOutput (ascii "t") args longer := .behindValue rfl (.here (.head _))
  have hplain : IsPlainName (ascii "t") := ⟨by decide, by decide, by decide, by decide⟩
  have hdirect : (run (ascii "render") args files).output = ascii "x" := by
    rw [run_of_output_nil _ _ haccepted rfl]
    exact written_of_renders rfl rfl rfl (Source.renders_value (by decide))
  have hemptied : (run (ascii "render") args (files.insert (ascii "t") [])).output = [] := by
    rw [run_of_output_nil _ _ haccepted rfl]
    exact written_of_renders rfl rfl rfl renders_nil
  have hlost : ((run (ascii "render") longer files).directory files).find? (ascii "t") =
      some [] := by
    rw [(redirects_run (ascii "render") files haccepted rfl hadds hplain).content, hemptied]
  refine ⟨haccepted, rfl, hadds, hplain, hdirect, hlost, fun hredirects => ?_⟩
  have hkept := hredirects.content
  rw [hdirect, hlost] at hkept
  cases hkept

end CommandLine

end Stencil
