import Mathlib.Data.List.TakeWhile
import Pratt.Command
import Pratt.Proofs.Arithmetic
import Pratt.Proofs.Naming

set_option autoImplicit false

/-!
# Ways to give a text to a command

A text is given to a command behind `--`, on the standard input, or in a file
(`Command.Given`). All of them lead to the same outcome, up to the name that a
report calls the text by (`Command.run_of_given`), so a command agrees with
the library. The tokens of a text may as well be listed by one command and
parsed by another one.

The words of a command are sorted one option at a time
(`Command.Arguments.collect?_option`), in any order.
-/

namespace Pratt

/-- The name of a format. -/
def Format.name : Format → String
  | .tree => "tree"
  | .json => "json"
  | .debug => "debug"

theorem Format.ofName?_name (format : Format) :
    ofName? format.name = some format := by
  cases format <;> rfl

theorem decodeText_toUTF8 (text : String) : decodeText text.toUTF8 = .ok text := by
  have hdecode : String.fromUTF8? text.toUTF8 = some text :=
    dif_pos text.isValidUTF8
  rw [decodeText, hdecode]

namespace Command

/-! ## Options -/

/-- The words for an option and its value. -/
inductive OptionWords (option value : String) : List String → Prop
  /-- The value is the next word, which must not look like an option itself. -/
  | apart (h : Arguments.isOption value = false) :
      OptionWords option value [option, value]
  /-- The value is behind an equals sign. -/
  | joined : OptionWords option value [option ++ "=" ++ value]

/-- The words that ask for a format, if one is asked for. -/
inductive FormatWords : Option Format → List String → Prop
  /-- No format is asked for. -/
  | none : FormatWords none []
  /-- The format is the value of an option. -/
  | some {format : Format} {words : List String}
      (h : OptionWords "--format" format.name words) :
      FormatWords (some format) words

namespace Arguments

variable {a : Arguments} {option value path : String} {format : Option Format}
  {words : List String}

theorem collect?_dashes (a : Arguments) (rest : List String) :
    collect? a ("--" :: rest) = rest.foldlM addSource? a := by
  rw [collect?.eq_def]
  exact if_pos rfl

/-- The name of an option starts with a hyphen, is more than that, and ends in
front of an equals sign. -/
structure IsOptionName (option : String) : Prop where
  looks : isOption option = true
  ends : '=' ∉ option.toList
  ne : option ≠ "--"

theorem isOptionName_file : IsOptionName "--file" :=
  ⟨by decide, by decide, by decide⟩

theorem isOptionName_format : IsOptionName "--format" :=
  ⟨by decide, by decide, by decide⟩

theorem isOption_append (h : isOption option = true) (rest : String) :
    isOption (option ++ rest) = true := by
  unfold isOption at h ⊢
  rw [String.toList_append]
  split at h
  · next heq =>
    rw [heq]
    rfl
  · cases h

/-- An option is added with its value, however it is written, before the words
behind it. -/
theorem collect?_option (hoption : IsOptionName option)
    (hwords : OptionWords option value words) (a : Arguments)
    (rest : List String) :
    collect? a (words ++ rest) =
      (a.addOption? option value).bind fun b => collect? b rest := by
  have hends : ∀ c ∈ option.toList, decide (c ≠ '=') = true :=
    fun c hc => decide_eq_true (ne_of_mem_of_not_mem hc hoption.ends)
  cases hwords with
  | apart hvalue =>
    have htake :
        option.toList.takeWhile (fun c => decide (c ≠ '=')) = option.toList :=
      List.takeWhile_eq_self_iff.mpr hends
    rw [collect?.eq_def]
    simp only [List.cons_append, List.nil_append, hoption.ne, hoption.looks,
      htake, List.drop_length, hvalue, if_false, Bool.not_true,
      Bool.false_eq_true]
    rfl
  | joined =>
    have htext :
        (option ++ "=" ++ value).toList =
          option.toList ++ '=' :: value.toList := by
      simp
    have hne : option ++ "=" ++ value ≠ "--" := by
      intro heq
      have hmem : '=' ∈ "--".toList := by
        rw [← heq, htext]
        exact List.mem_append_right _ List.mem_cons_self
      exact absurd hmem (by decide)
    have hlooks : isOption (option ++ "=" ++ value) = true := by
      rw [String.append_assoc]
      exact isOption_append hoption.looks _
    have htake :
        (option.toList ++ '=' :: value.toList).takeWhile
          (fun c => decide (c ≠ '=')) = option.toList := by
      rw [List.takeWhile_append_of_pos hends]
      simp
    rw [collect?.eq_def]
    simp only [List.cons_append, List.nil_append, hne, hlooks, htext, htake,
      List.drop_left, String.ofList_toList, if_false, Bool.not_true,
      Bool.false_eq_true]
    rfl

/-- A format is collected that was not asked for before. -/
theorem collect?_format (h : FormatWords format words) (ha : a.format = none)
    (rest : List String) :
    collect? a (words ++ rest) = collect? { a with format } rest := by
  cases h with
  | none =>
    rw [← ha]
    rfl
  | @some format words hwords =>
    have hadd :
        a.addOption? "--format" format.name =
          some { a with format := some format } := by
      simp [addOption?, ha, Format.ofName?_name]
    rw [collect?_option isOptionName_format hwords, hadd]
    rfl

/-- A path is collected if it is the first one. -/
theorem collect?_file (h : OptionWords "--file" path words) (hpath : path ≠ "")
    (ha : a.file = none) (rest : List String) :
    collect? a (words ++ rest) =
      collect? { a with file := some path } rest := by
  have hadd : a.addOption? "--file" path = some { a with file := some path } := by
    simp [addOption?, ha, hpath]
  rw [collect?_option isOptionName_file h, hadd]
  rfl

end Arguments

/-! ## Texts -/

/-- The words of a command, its standard input and the files give a text to
it, and a format if it takes one. Reports call the text by the name of its
file if it has one. -/
inductive Given (text : String) (format : Option Format) :
    List String → ByteArray → FileSystem → Option String → Prop
  /-- The text is behind two hyphens, so it may start with a hyphen itself. -/
  | argument {options : List String} (h : FormatWords format options)
      (stdin : ByteArray) (files : FileSystem) :
      Given text format (options ++ ["--", text]) stdin files none
  /-- The text is the standard input. -/
  | input {words : List String} (h : FormatWords format words)
      (files : FileSystem) :
      Given text format words text.toUTF8 files none
  /-- The text is in a file, wherever its path leads. The empty path leads to no
  file. -/
  | file {path : String} {options place words : List String}
      {files : FileSystem} (h : FormatWords format options)
      (hplace : OptionWords "--file" path place)
      (horder : words = options ++ place ∨ words = place ++ options)
      (hpath : path ≠ "") (hread : files.read path = .ok text.toUTF8)
      (stdin : ByteArray) :
      Given text format words stdin files (some path)

namespace Given

variable {text : String} {format : Option Format} {words : List String}
  {stdin : ByteArray} {files : FileSystem} {name : Option String}

/-- The words are sorted into the format and the place that the text is read
from. -/
theorem exists_origin (h : Given text format words stdin files name) :
    ∃ arguments origin,
      Arguments.collect? ⟨none, none, none⟩ words = some arguments ∧
      arguments.format = format ∧
      arguments.origin? = some origin ∧
      origin.name? = name ∧
      ∀ task, Command.sourceOf ⟨task, origin⟩ stdin files = .ok text := by
  cases h with
  | argument h =>
    refine ⟨⟨some text, none, format⟩, .argument text, ?_, rfl, rfl, rfl,
      fun _ => rfl⟩
    rw [Arguments.collect?_format h rfl, Arguments.collect?_dashes]
    rfl
  | input h =>
    refine ⟨⟨none, none, format⟩, .standardInput, ?_, rfl, rfl, rfl,
      fun _ => decodeText_toUTF8 text⟩
    rw [← List.append_nil words, Arguments.collect?_format h rfl]
    rfl
  | @file path options place words files h hplace horder hpath hread =>
    refine ⟨⟨none, some path, format⟩, .file path, ?_, rfl, rfl, rfl,
      fun task => ?_⟩
    · rcases horder with rfl | rfl
      · rw [Arguments.collect?_format h rfl, ← List.append_nil place,
          Arguments.collect?_file hplace hpath rfl]
        rfl
      · rw [Arguments.collect?_file hplace hpath rfl, ← List.append_nil options,
          Arguments.collect?_format h rfl]
        rfl
    · have hsource :
          Command.sourceOf ⟨task, .file path⟩ stdin files =
            (files.read path).bind decodeText := rfl
      rw [hsource, hread]
      exact decodeText_toUTF8 text

/-- However it is given, the text is parsed. -/
theorem run_parse (h : Given text format words stdin files name) :
    run ("parse" :: words) stdin files =
      (Task.parse (format.getD .tree)).outcome text name := by
  obtain ⟨arguments, origin, hcollect, rfl, horigin, rfl, hsource⟩ :=
    h.exists_origin
  have hcommand :
      ofArguments? ("parse" :: words) =
        some ⟨.parse (arguments.format.getD .tree), origin⟩ := by
    simp [ofArguments?, hcollect, horigin]
  rw [run_of_ofArguments? hcommand, hsource]
  rfl

/-- Without a format, its tokens are listed. -/
theorem run_tokenize (h : Given text none words stdin files name) :
    run ("tokenize" :: words) stdin files = Task.tokenize.outcome text name := by
  obtain ⟨arguments, origin, hcollect, hformat, horigin, rfl, hsource⟩ :=
    h.exists_origin
  have hcommand :
      ofArguments? ("tokenize" :: words) = some ⟨.tokenize, origin⟩ := by
    simp [ofArguments?, hcollect, horigin, hformat]
  rw [run_of_ofArguments? hcommand, hsource]
  rfl

end Given

/-! ## Outcomes -/

/-- The outcome tells what a text is parsed as, and reports call the text by a
name if it has one. -/
structure Tells (outcome : Outcome) (text : String) (format : Format)
    (name : Option String) : Prop where
  /-- The tree is written in the format, on a line of its own or several. -/
  parsed : ∀ e, parse text = .ok e → outcome = ⟨0, format.render e ++ "\n", ""⟩
  /-- The error is reported, which is the one that the library finds. -/
  refused : ∀ error, parse text = .error error →
    outcome = ⟨65, "", (error.inFile (name.getD "shell")).report text⟩ ∧
    parse text name = .error (error.inFile (name.getD "shell"))

theorem tells_outcome (text : String) (format : Format) (name : Option String) :
    Tells ((Task.parse format).outcome text name) text format name := by
  have hname :
      parse text name =
        (parse text).mapError (ParseError.inFile (name.getD "shell")) :=
    parseWith_eq_mapError_inFile .arithmetic text none name
  constructor
  · intro e he
    simp only [Task.outcome, hname, he, Except.mapError]
  · intro error herror
    rw [herror] at hname
    constructor
    · rw [Task.outcome, hname]
      rfl
    · exact hname

/-- Texts with the same tokens are parsed with the same code and the
same standard output. -/
theorem outcome_of_lexemes_eq {text other : String}
    (h : lexemes text.toList = lexemes other.toList) (format : Format)
    (name called : Option String) :
    ((Task.parse format).outcome text name).code =
      ((Task.parse format).outcome other called).code ∧
      ((Task.parse format).outcome text name).stdout =
        ((Task.parse format).outcome other called).stdout := by
  have hiff : ∀ e, parse text name = .ok e ↔ parse other called = .ok e := by
    intro e
    rw [parse_eq_ok_iff, parse_eq_ok_iff, map_text_tokenize, map_text_tokenize, h]
  unfold Task.outcome
  cases htext : parse text name with
  | ok e =>
    rw [(hiff e).mp htext]
    exact ⟨rfl, rfl⟩
  | error error =>
    cases hother : parse other called with
    | ok e => cases htext.symm.trans ((hiff e).mpr hother)
    | error error' => exact ⟨rfl, rfl⟩

/-- The tokens of a text are listed so that they are cut apart again. -/
theorem lexemes_stdout_tokenize (text : String) (name : Option String) :
    lexemes (Task.tokenize.outcome text name).stdout.toList =
      lexemes text.toList := by
  have hnewline : isBlank '\n' = true := by decide
  have hlisting :
      (Task.tokenize.outcome text name).stdout.toList =
        (lexemes text.toList).flatMap fun token => token.toList ++ ['\n'] := by
    rw [Task.outcome, ← map_text_tokenize text name, List.flatMap_map]
    simp [List.flatMap_map]
  rw [hlisting, lexemes_separated hnewline fun token => isToken_of_mem_lexemes]

/-- However a text is given to a command, it is parsed as the library does, and
what differs is the name that a report calls it by. Its tokens can be listed,
and to parse the list leads to the same code and the same standard output. -/
theorem run_of_given :
    (∀ (text : String) (format : Option Format) (words : List String)
      (stdin : ByteArray) (files : FileSystem) (name : Option String),
      Given text format words stdin files name →
      Tells (run ("parse" :: words) stdin files) text (format.getD .tree) name) ∧
    (∀ (error : ParseError) (text : String), ∃ above below, ∀ name,
      (error.inFile name).report text = above ++ name ++ below) ∧
    ∀ (text : String) (words : List String) (stdin : ByteArray)
      (files : FileSystem) (name : Option String),
      Given text none words stdin files name →
      ∃ listing, run ("tokenize" :: words) stdin files = ⟨0, listing, ""⟩ ∧
        ∀ (format : Option Format) (first second : List String)
          (stdin stdin' : ByteArray) (files files' : FileSystem)
          (name name' : Option String),
          Given text format first stdin files name →
          Given listing format second stdin' files' name' →
          (run ("parse" :: second) stdin' files').code =
            (run ("parse" :: first) stdin files).code ∧
          (run ("parse" :: second) stdin' files').stdout =
            (run ("parse" :: first) stdin files).stdout := by
  refine ⟨?_, ParseError.exists_report_inFile_eq, ?_⟩
  · intro text format words stdin files name hgiven
    rw [hgiven.run_parse]
    exact tells_outcome text (format.getD .tree) name
  · intro text words stdin files name hgiven
    refine ⟨_, hgiven.run_tokenize, ?_⟩
    intro format first second _ _ _ _ _ _ hfirst hsecond
    rw [hfirst.run_parse, hsecond.run_parse]
    exact outcome_of_lexemes_eq (lexemes_stdout_tokenize text name) _ _ _

/-- Where a file stands whose name starts with a hyphen: in the working
directory, above it, and elsewhere. -/
def hyphenPaths : List String := ["-x", "../-x", "/tmp/-x"]

/-- The same bytes at each of the paths, and no other file. -/
def hyphenTree : FileTree where
  files := [(["-x"], "(a ] b".toUTF8)]
  above steps :=
    if steps = ["-x"] then .ok "(a ] b".toUTF8 else FileTree.nowhere steps
  root steps :=
    if steps = ["tmp", "-x"] then .ok "(a ] b".toUTF8 else FileTree.nowhere steps

def hyphenFiles : FileSystem := ⟨hyphenTree.read⟩

theorem read_hyphenFiles {path : String} (h : path ∈ hyphenPaths) :
    hyphenFiles.read path = .ok "(a ] b".toUTF8 := by
  rcases List.mem_cons.mp h with rfl | h
  · have hread : hyphenTree.read "-x" = .ok "(a ] b".toUTF8 :=
      FileTree.read_of_file? (by decide) rfl
    exact hread
  rcases List.mem_cons.mp h with rfl | h
  · rfl
  obtain rfl := List.mem_singleton.mp h
  rfl

/-- A text and paths that start with hyphens, and a list of tokens that is
parsed in place of a text. -/
theorem run_of_hyphens :
    run ["parse", "--format", "tree", "--", "-a * f(1)"] .empty hyphenFiles =
      ⟨0, "((-a) * f(1))\n", ""⟩ ∧
    (∀ path ∈ hyphenPaths,
      run ["parse", "--file=" ++ path] .empty hyphenFiles =
        ⟨65, "",
          "Error: MismatchedDelimiter (Expected \x60)\x60 here, found \x60]\x60)\n" ++
            "-> " ++ path ++ "\n  |\n1 | (a ] b\n  | ---^\n"⟩) ∧
    (run ["parse"] "(\na\n]\nb\n".toUTF8 hyphenFiles).code = 65 := by
  obtain ⟨hparse, -, htokenize⟩ := run_of_given
  have htree : FormatWords (some .tree) ["--format", "tree"] :=
    .some (.apart (by decide))
  have hfile : ∀ path ∈ hyphenPaths,
      Given "(a ] b" none ["--file=" ++ path] .empty hyphenFiles (some path) := by
    intro path hpath
    have hne : path ≠ "" := ne_of_mem_of_not_mem hpath (by decide)
    exact .file .none .joined (.inl rfl) hne (read_hyphenFiles hpath) .empty
  have hproduct :
      parse "-a * f(1)" =
        .ok (.binary "*" (.unary "-" (.value "a"))
          (.call (.value "f") [.value "1"])) := by
    decide +kernel
  have hbracket :
      parse "(a ] b" =
        .error ⟨.mismatchedDelimiter ")" (some "]"), ⟨3, "shell"⟩⟩ := by
    decide +kernel
  refine ⟨?_, ?_, ?_⟩
  · have htells := hparse "-a * f(1)" _ _ _ _ _ (.argument htree .empty hyphenFiles)
    exact htells.parsed _ hproduct
  · intro path hpath
    have htells := hparse _ _ _ _ _ _ (hfile path hpath)
    rw [(htells.refused _ hbracket).1]
    rcases List.mem_cons.mp hpath with rfl | hpath
    · rfl
    rcases List.mem_cons.mp hpath with rfl | hpath
    · rfl
    obtain rfl := List.mem_singleton.mp hpath
    rfl
  · have hlisted :
        Task.tokenize.outcome "(a ] b" (some "-x") =
          ⟨0, "(\na\n]\nb\n", ""⟩ := by
      decide +kernel
    have hgiven :
        Given "(a ] b" none ["--file=-x"] .empty hyphenFiles (some "-x") :=
      hfile "-x" (by decide)
    have htells := hparse _ _ _ _ _ _ hgiven
    obtain ⟨listing, hlisting, hsame⟩ := htokenize _ _ _ _ _ hgiven
    rw [hgiven.run_tokenize, hlisted] at hlisting
    obtain rfl : "(\na\n]\nb\n" = listing := congrArg Outcome.stdout hlisting
    have hcode :=
      (hsame none ["--file=-x"] [] _ _ _ _ _ _ hgiven
        (.input .none hyphenFiles)).1
    rw [hcode, (htells.refused _ hbracket).1]

end Command

end Pratt
