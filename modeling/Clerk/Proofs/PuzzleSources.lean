import Clerk.Command.Execute
import Clerk.Proofs.PuzzleFiles
import Clerk.Proofs.ValueLists

/-!
# Two ways to give a puzzle

A puzzle is given to the command `run` either in a file or by lists of values and a number of
cells.  The arguments may come in any order and a flag may be spelled in two ways; the values are
cut at commas on one way and taken from JSON on the other.  A puzzle that can be given in both ways
is answered alike.

* `Command.Spelled` — the settings that a list of arguments spells out;
* `Command.Spelled.addAll`, `Command.putAll_perm` — the arguments are taken as these settings, and
  their order does not matter;
* `Command.loadSource_given_eq_file` — both ways lead to the same puzzle and input;
* `Command.given_alike_text` — and to the same response, for any file that is read as the puzzle;
* `Command.given_alike_file` — so for the file that is written for it.
-/

set_option autoImplicit false

namespace Clerk

namespace Command

/-! ## Settings and how they are spelled -/

/-- One thing that the arguments of `run` can say: the path of the program, or a flag with its
value.  That of the flag `json` counts for nothing. -/
inductive Setting where
  | program (path : String)
  | flag (flag : Flag) (text : String)
  deriving DecidableEq, Repr

/-- The arguments that spell out settings, in their order.  After two hyphens there are only paths;
the value of a flag is an argument of its own or comes after an equals sign. -/
inductive Spelled : List Setting → List String → Prop where
  | none : Spelled [] []
  | paths (paths : List String) : Spelled (paths.map .program) ("--" :: paths)
  | path {path : String} {rest : List String} {settings : List Setting}
      (hpath : looksLikeFlag path = false) (h : Spelled settings rest) :
      Spelled (.program path :: settings) (path :: rest)
  | apart {flag : Flag} {text : String} {rest : List String} {settings : List Setting}
      (htext : flag.takes text = true) (h : Spelled settings rest) :
      Spelled (.flag flag text :: settings) (flag.text :: text :: rest)
  | attached {flag : Flag} {text : String} {rest : List String} {settings : List Setting}
      (hflag : flag ≠ .json) (h : Spelled settings rest) :
      Spelled (.flag flag text :: settings) ((flag.text ++ "=" ++ text) :: rest)
  | json {rest : List String} {settings : List Setting} (h : Spelled settings rest) :
      Spelled (.flag .json "" :: settings) (Flag.json.text :: rest)

/-- The arguments say the settings, in whatever order. -/
def Says (arguments : List String) (settings : List Setting) : Prop :=
  ∃ order, Spelled order arguments ∧ order.Perm settings

/-- What is given together with one more setting. -/
def Given.put (given : Given) : Setting → Option Given
  | .program path => given.addPath path
  | .flag .json _ => given.addJson
  | .flag flag text => given.addValue flag text

/-- What is given together with more settings, taken one after the other. -/
def putAll (given : Option Given) (settings : List Setting) : Option Given :=
  settings.foldl (fun given setting => given.bind fun taken => taken.put setting) given

theorem putAll_none (settings : List Setting) : putAll none settings = none := by
  unfold putAll
  induction settings with
  | nil => rfl
  | cons setting rest ih => exact ih

theorem bind_putAll (given : Option Given) (settings : List Setting) :
    (given.bind fun taken => putAll (some taken) settings) = putAll given settings := by
  cases given with
  | none => exact (putAll_none settings).symm
  | some taken => rfl

/-! ## Arguments are taken as the settings they spell out -/

theorem addPaths_eq_putAll (given : Given) (paths : List String) :
    given.addPaths paths = putAll (some given) (paths.map .program) := by
  induction paths generalizing given with
  | nil => rfl
  | cons path rest ih =>
    rw [Given.addPaths, funext ih]
    exact bind_putAll _ _

theorem ofString_path {path : String} (h : looksLikeFlag path = false) :
    Argument.ofString path = .path path := by
  unfold Argument.ofString
  split
  · rename_i heq
    simp [looksLikeFlag, heq] at h
  · rw [h]
    rfl

theorem ofString_flag (flag : Flag) : Argument.ofString flag.text = .flag flag none := by
  cases flag <;> decide

theorem ofString_attached (flag : Flag) (text : String) :
    Argument.ofString (flag.text ++ "=" ++ text) = .flag flag (some text) := by
  unfold Argument.ofString
  rw [String.toList_append, String.toList_append]
  cases flag <;> simp [Flag.text, splitFlag, Flag.ofName?]

theorem Spelled.addAll {arguments : List String} {settings : List Setting}
    (h : Spelled settings arguments) (given : Given) :
    given.addAll arguments = putAll (some given) settings := by
  have hdashes : Argument.ofString "--" = .unknown := by decide
  induction h generalizing given with
  | none => rfl
  | paths paths => exact addPaths_eq_putAll given paths
  | @path path rest settings hpath _ ih =>
    have hne : path ≠ "--" := by
      rintro rfl
      exact absurd hpath (by decide)
    rw [Given.addAll, if_neg hne, ofString_path hpath]
    simp only [ih]
    exact bind_putAll _ _
  | @apart flag text rest settings htext _ ih =>
    have hne : flag.text ≠ "--" := by cases flag <;> decide
    rw [Given.addAll, if_neg hne, ofString_flag]
    cases flag with
    | json => cases htext
    | puzzle | input | expect | memory =>
      simp only [htext, if_true, ih]
      exact bind_putAll _ _
  | @attached flag text rest settings hflag _ ih =>
    have hargument := ofString_attached flag text
    have hne : flag.text ++ "=" ++ text ≠ "--" := by
      intro heq
      rw [heq, hdashes] at hargument
      cases hargument
    rw [Given.addAll, if_neg hne, hargument]
    simp only [ih]
    cases flag with
    | json => exact absurd rfl hflag
    | puzzle | input | expect | memory => exact bind_putAll _ _
  | @json rest settings _ ih =>
    have hne : Flag.json.text ≠ "--" := by decide
    rw [Given.addAll, if_neg hne, ofString_flag]
    simp only [ih]
    exact bind_putAll _ _

/-! ## Their order does not matter -/

/-- Where a setting goes: to the program or to a flag. -/
def Setting.place : Setting → Option Flag
  | .program _ => none
  | .flag known _ => some known

/-- A place takes one setting only. -/
theorem put_again (given : Given) {first second : Setting} (h : first.place = second.place) :
    (given.put first).bind (·.put second) = none := by
  cases first with
  | program path =>
    cases second with
    | program path' =>
      simp only [Given.put, Given.addPath]
      split <;> rfl
    | flag flag' text' => cases h
  | flag flag text =>
    cases second with
    | program path' => cases h
    | flag flag' text' =>
      cases h
      cases flag with
      | puzzle | input | expect | memory | json =>
        simp only [Given.put, Given.addValue, Given.addJson]
        split <;> rfl

/-- Two guarded steps may be swapped if neither changes what the other one asks. -/
theorem bind_guarded_comm {α : Type} {c d : Prop} [Decidable c] [Decidable d] {a b both : α}
    {f g : α → Option α} (hf : f a = if d then none else some both)
    (hg : g b = if c then none else some both) :
    (if c then none else some a).bind f = (if d then none else some b).bind g := by
  by_cases hc : c
  · by_cases hd : d
    · rw [if_pos hc, if_pos hd]
      rfl
    · rw [if_pos hc, if_neg hd]
      exact (hg.trans (if_pos hc)).symm
  · by_cases hd : d
    · rw [if_neg hc, if_pos hd]
      exact hf.trans (if_pos hd)
    · rw [if_neg hc, if_neg hd]
      exact (hf.trans (if_neg hd)).trans (hg.trans (if_neg hc)).symm

theorem put_comm (given : Given) (first second : Setting) :
    (given.put first).bind (·.put second) = (given.put second).bind (·.put first) := by
  by_cases hplace : first.place = second.place
  · rw [put_again given hplace, put_again given hplace.symm]
  · cases first with
    | program path =>
      cases second with
      | program path' => exact absurd rfl hplace
      | flag flag' text' => cases flag' <;> exact bind_guarded_comm rfl rfl
    | flag flag text =>
      cases second with
      | program path' => cases flag <;> exact bind_guarded_comm rfl rfl
      | flag flag' text' =>
        cases flag <;> cases flag'
        case puzzle.puzzle | input.input | expect.expect | memory.memory | json.json =>
          exact absurd rfl hplace
        all_goals exact bind_guarded_comm rfl rfl

theorem putAll_perm {settings settings' : List Setting} (h : settings.Perm settings')
    (given : Option Given) : putAll given settings = putAll given settings' := by
  unfold putAll
  apply h.foldl_eq'
  intro first _ second _ taken
  cases taken with
  | none => rfl
  | some taken => exact put_comm taken first second

theorem Says.addAll {arguments : List String} {settings : List Setting}
    (h : Says arguments settings) : Given.addAll {} arguments = putAll (some {}) settings := by
  obtain ⟨order, hspelled, hperm⟩ := h
  rw [hspelled.addAll, putAll_perm hperm]

/-! ## Commands -/

/-- The settings that both ways share: the program and whether the report is in JSON. -/
def sharedSettings (program : String) (json : Bool) : List Setting :=
  .program program :: if json then [.flag .json ""] else []

/-- The settings that give a puzzle by values. -/
def givenSettings (memorySize : UInt64) (input expected : List Value) : List Setting :=
  [.flag .input (Value.listText input), .flag .expect (Value.listText expected),
    .flag .memory (Decimal.text memorySize.toNat)]

/-- The settings that give a puzzle by a file. -/
def fileSettings (path : String) : List Setting :=
  [.flag .puzzle path]

theorem cells?_text (memorySize : UInt64) :
    Given.cells? (Decimal.text memorySize.toNat) = some memorySize := by
  have hplus : ∀ digits, Decimal.ofNat memorySize.toNat ≠ '+' :: digits := by
    intro digits heq
    have hdigit := Decimal.isDigit_of_mem_ofNat (n := memorySize.toNat) (c := '+') (by simp [heq])
    exact absurd hdigit (by decide)
  unfold Given.cells? Decimal.text
  rw [String.toList_ofList]
  split
  · rename_i digits heq
    exact absurd heq (hplus digits)
  · show (Decimal.toNat? (Decimal.ofNat memorySize.toNat)).bind _ = _
    rw [Decimal.toNat?_ofNat, Option.bind_some, dif_pos memorySize.toNat_lt,
      UInt64.ofNatLT_toNat]

variable {program path : String} {json : Bool} {arguments : List String}

theorem putAll_shared (hprogram : program ≠ "") (json : Bool) (settings : List Setting) :
    putAll (some {}) (sharedSettings program json ++ settings) =
      putAll (some { program := some program, json := json }) settings := by
  have hpath : Given.addPath {} program = some { program := some program } := by
    simp [Given.addPath, hprogram]
  unfold putAll sharedSettings
  rw [List.foldl_append, List.foldl_cons]
  show List.foldl _ (List.foldl _ (Given.addPath {} program) _) _ = _
  rw [hpath]
  cases json <;> rfl

theorem ofArguments?_given {memorySize : UInt64} {input expected : List Value}
    (hprogram : program ≠ "")
    (h : Says arguments (sharedSettings program json ++ givenSettings memorySize input expected)) :
    ofArguments? ("run" :: arguments) =
      some (.run program (.given (Value.listText input) (Value.listText expected) memorySize)
        json) := by
  show runOfArguments? arguments = _
  unfold runOfArguments?
  rw [h.addAll, putAll_shared hprogram]
  have hsource : Given.source? ⟨some program, none, some (Value.listText input),
      some (Value.listText expected), some (Decimal.text memorySize.toNat), json⟩ =
        some (.given (Value.listText input) (Value.listText expected) memorySize) := by
    show (Given.cells? (Decimal.text memorySize.toNat)).map _ = _
    rw [cells?_text]
    rfl
  show (Given.source? _).bind _ = _
  rw [hsource]
  rfl

theorem ofArguments?_file (hprogram : program ≠ "") (hpath : path ≠ "")
    (h : Says arguments (sharedSettings program json ++ fileSettings path)) :
    ofArguments? ("run" :: arguments) = some (.run program (.file path) json) := by
  have hput : putAll (some { program := some program, json := json }) (fileSettings path) =
      some { program := some program, puzzle := some path, json := json } := by
    simp [putAll, fileSettings, Given.put, Given.addValue, hpath]
  show runOfArguments? arguments = _
  unfold runOfArguments?
  rw [h.addAll, putAll_shared hprogram, hput]
  rfl

/-! ## Responses -/

section Loading

variable {files : Files} {text : String} {file : PuzzleFile}

/-- A puzzle is loaded from any text that is read as it. -/
theorem loadPuzzle_of_ofJson? (hfile : files path = .ok text)
    (hread : PuzzleFile.ofJson? text = some file) : loadPuzzle files path = .ok file := by
  have hload : load files path = .ok text := by
    unfold load
    rw [hfile]
  unfold loadPuzzle
  simp only [hload, bind, Except.bind, hread]

theorem readValues_listText {values : List Value} (h : ∀ value ∈ values, value.isListable = true)
    (flag : Flag) : readValues flag (Value.listText values) = .ok values := by
  unfold readValues
  rw [Value.listOfText_listText h]

/-- **Both ways lead to the same puzzle and input.**  The name and the description are left behind
in the file. -/
theorem loadSource_given_eq_file (hfile : files path = .ok text)
    (hread : PuzzleFile.ofJson? text = some file)
    (hinput : ∀ value ∈ file.input, value.isListable = true)
    (hexpected : ∀ value ∈ file.expected, value.isListable = true) :
    loadSource files (.given (Value.listText file.input) (Value.listText file.expected)
      file.memorySize) = loadSource files (.file path) := by
  unfold loadSource
  simp only [readValues_listText hinput, readValues_listText hexpected,
    loadPuzzle_of_ofJson? hfile hread]
  rfl

/-- **A puzzle may be given by values or by any file that is read as it.**  The file may have its
members in another order and blanks between them, as one that was written by hand has.  The
arguments say the same program and the same choice of JSON, some with the values and the number of
cells of the puzzle and some with the path of the file, each in any order and spelling.  Both are
commands, and their responses agree. -/
theorem given_alike_text {arguments' : List String} (hprogram : program ≠ "") (hpath : path ≠ "")
    (hfile : files path = .ok text) (hread : PuzzleFile.ofJson? text = some file)
    (hinput : ∀ value ∈ file.input, value.isListable = true)
    (hexpected : ∀ value ∈ file.expected, value.isListable = true)
    (hgiven : Says arguments (sharedSettings program json ++
      givenSettings file.memorySize file.input file.expected))
    (hnamed : Says arguments' (sharedSettings program json ++ fileSettings path)) :
    ∃ command command', ofArguments? ("run" :: arguments) = some command ∧
      ofArguments? ("run" :: arguments') = some command' ∧
        ∀ limit, command.execute files limit = command'.execute files limit := by
  refine ⟨_, _, ofArguments?_given hprogram hgiven, ofArguments?_file hprogram hpath hnamed, ?_⟩
  intro limit
  unfold execute
  simp only [loadSource_given_eq_file hfile hread hinput hexpected]

end Loading

-- Such a file: the members are in another order, and on several lines.
example : PuzzleFile.ofJson? ("\x7b\"expected\": [],\n \"input\": [ \"a\" ],\n" ++
    " \"memory_size\": 1, \"name\": \"\", \"description\": \"\"\x7d\n") =
      some ⟨"", "", 1, [.character 'a'], []⟩ := by decide +kernel

/-- **A puzzle may be given by values or by a file.**  Take a puzzle file whose values can all stand
in a list, and arguments that say the same program and the same choice of JSON, some with the
values and the number of cells of the file and some with its path, each in any order and spelling.
Both are commands, and their responses agree: what is printed, the exit code and the error, for
every limit on the steps. -/
theorem given_alike_file {files : Files} {file : PuzzleFile} {arguments' : List String}
    (hprogram : program ≠ "") (hpath : path ≠ "") (hfile : files path = .ok file.json)
    (hinput : ∀ value ∈ file.input, value.isListable = true)
    (hexpected : ∀ value ∈ file.expected, value.isListable = true)
    (hgiven : Says arguments (sharedSettings program json ++
      givenSettings file.memorySize file.input file.expected))
    (hnamed : Says arguments' (sharedSettings program json ++ fileSettings path)) :
    ∃ command command', ofArguments? ("run" :: arguments) = some command ∧
      ofArguments? ("run" :: arguments') = some command' ∧
        ∀ limit, command.execute files limit = command'.execute files limit :=
  given_alike_text hprogram hpath hfile (PuzzleFile.ofJson?_of_readsTo file.readsTo_json) hinput
    hexpected hgiven hnamed

/-- A puzzle with the smallest number, a sign, a quote and a letter that is not ASCII. -/
def signs : PuzzleFile :=
  ⟨"1, 2", "a \"quoted\" name", 3,
    [.number ⟨-9223372036854775808, by decide, by decide⟩, .character '-', .character '"'],
    [.character 'é', .number Number.zero]⟩

/-- A directory with a program and that puzzle. -/
def signsFiles : Files
  | "copy" => .ok "start:\nINBOX\nOUTBOX\nJUMP start"
  | "signs.json" => .ok signs.json
  | _ => .error Files.Obstacle.missing.text

theorem given_alike_file_signs :
    ∃ command command',
      ofArguments? ["run", "--expect", "é, 0", "--memory=3", "--json", "copy", "--input",
        "-9223372036854775808, -, \""] = some command ∧
      ofArguments? ["run", "--json", "--puzzle", "signs.json", "--", "copy"] = some command' ∧
        ∀ limit, command.execute signsFiles limit = command'.execute signsFiles limit := by
  have hgiven : Says ["--expect", "é, 0", "--memory=3", "--json", "copy", "--input",
      "-9223372036854775808, -, \""]
      (sharedSettings "copy" true ++ givenSettings signs.memorySize signs.input signs.expected) := by
    refine ⟨[.flag .expect "é, 0", .flag .memory "3", .flag .json "", .program "copy",
      .flag .input "-9223372036854775808, -, \""], ?_, by decide +kernel⟩
    refine .apart ?_ (.attached ?_ (.json (.path ?_ (.apart ?_ .none)))) <;> decide
  have hnamed : Says ["--json", "--puzzle", "signs.json", "--", "copy"]
      (sharedSettings "copy" true ++ fileSettings "signs.json") := by
    refine ⟨[.flag .json "", .flag .puzzle "signs.json", .program "copy"], ?_, by decide⟩
    refine .json (.apart ?_ (.paths ["copy"]))
    decide
  exact given_alike_file (by decide) (by decide) rfl (by decide) (by decide) hgiven hnamed

end Command

end Clerk
