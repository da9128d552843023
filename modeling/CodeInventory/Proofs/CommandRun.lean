import CodeInventory.CommandLine
import CodeInventory.Proofs.Placement

set_option autoImplicit false

namespace CodeInventory

variable {config : Config} {chunker : Chunker} {parse : SyntaxParser} {read : FileReader}
  {path : List UInt8} {identifier source : String} {language : Language} {inventory : Inventory}

theorem FileReader.text_eq_ok_iff :
    read.text path = .ok source ↔
      ∃ octets, read path = .ok octets ∧ Text.decodeStrict? octets = some source := by
  cases reading : read path with
  | error cause => simp [FileReader.text, reading, bind, Except.bind]
  | ok octets =>
    cases decoded : Text.decodeStrict? octets <;>
      simp [FileReader.text, reading, decoded, bind, Except.bind]

namespace Chunker

theorem hasGrammar_of_ok (done : (chunker.ofText parse source language).result = .ok inventory) :
    language.hasGrammar := by
  cases grammar : language.hasGrammar with
  | true => rfl
  | false => simp [ofText, grammar, Survey.failed] at done

theorem ofFile_eq_ok_iff :
    (chunker.ofFile parse read path).result = .ok inventory ↔
      ∃ source, read.text path = .ok source ∧
        (chunker.ofText parse source (Path.language path)).result = .ok inventory := by
  by_cases grammar : (Path.language path).hasGrammar
  · cases reading : read.text path <;> simp [ofFile, grammar, reading, Survey.failed]
  · constructor
    · intro done
      simp [ofFile, grammar, Survey.failed] at done
    · rintro ⟨source, -, done⟩
      exact absurd (hasGrammar_of_ok done) grammar

theorem ofNamedText_eq_ok_iff :
    (chunker.ofNamedText parse source identifier).result = .ok inventory ↔
      ∃ language, Language.ofIdentifier? identifier = some language ∧
        (chunker.ofText parse source language).result = .ok inventory := by
  cases named : Language.ofIdentifier? identifier <;> simp [ofNamedText, named, Survey.failed]

end Chunker

namespace CommandLine

variable {surroundings : Surroundings} {invocation : Invocation}

theorem except_mapError_eq_ok_iff {ε ε' α : Type} {result : Except ε α} {report : ε → ε'}
    {value : α} : result.mapError report = .ok value ↔ result = .ok value := by
  cases result <;> simp [Except.mapError]

theorem sourceOf_eq_ok_iff :
    sourceOf surroundings path = .ok source ↔
      if path = stdinPath then Text.decodeStrict? surroundings.stdin = some source
      else surroundings.read.text path = .ok source := by
  unfold sourceOf
  split
  · cases Text.decodeStrict? surroundings.stdin <;> simp
  · exact except_mapError_eq_ok_iff

theorem languageOf_eq_ok_iff_of_none (undeclared : invocation.language = none) :
    languageOf invocation = .ok language ↔
      invocation.path ≠ stdinPath ∧ Path.language invocation.path ≠ .unknown ∧
        Path.language invocation.path = language := by
  unfold languageOf
  rw [undeclared]
  by_cases fromInput : invocation.path = stdinPath
  · simp [fromInput]
  · by_cases undetected : Path.language invocation.path = .unknown <;> simp [fromInput, undetected]

theorem languageOf_eq_ok_iff_of_some (declared : invocation.language = some identifier) :
    languageOf invocation = .ok language ↔ Language.ofIdentifier? identifier = some language := by
  unfold languageOf
  rw [declared]
  cases named : Language.ofIdentifier? identifier <;> simp [named]

def settingsOf (invocation : Invocation) (config : Config) : Config :=
  if invocation.strict then { config with collisionPolicy := .error } else config

theorem job_of_run (done : (run surroundings invocation).result = .ok inventory) :
    ∃ job, prepare surroundings invocation = .ok job ∧
      (job.chunker.ofText surroundings.parse job.source job.language).result = .ok inventory := by
  cases prepared : prepare surroundings invocation with
  | error failure => simp [run, prepared] at done
  | ok job =>
    simp only [run, prepared, except_mapError_eq_ok_iff] at done
    exact ⟨job, rfl, done⟩

theorem run_eq_ok_iff (loaded : loadConfig surroundings invocation.config = .ok config) :
    (run surroundings invocation).result = .ok inventory ↔
      ∃ chunker language source,
        Chunker.ofConfig (settingsOf invocation config) = .ok chunker ∧
          languageOf invocation = .ok language ∧
          sourceOf surroundings invocation.path = .ok source ∧
          (chunker.ofText surroundings.parse source language).result = .ok inventory := by
  have settings : configOf surroundings invocation = .ok (settingsOf invocation config) := by
    simp [configOf, loaded, settingsOf, Config.refusingCollisions, bind, Except.bind]
  constructor
  · intro done
    obtain ⟨job, prepared, chunked⟩ := job_of_run done
    simp only [prepare, settings, except_bind_eq_ok_iff, except_mapError_eq_ok_iff,
      Except.ok.injEq, exists_eq_left'] at prepared
    obtain ⟨chunker, valid, language, told, source, given, rfl⟩ := prepared
    exact ⟨chunker, language, source, valid, told, given, chunked⟩
  · rintro ⟨chunker, language, source, valid, told, given, done⟩
    have prepared : prepare surroundings invocation = .ok ⟨chunker, language, source⟩ := by
      simp [prepare, settings, valid, told, given, Except.mapError, bind, Except.bind]
    simp only [run, prepared, done, Except.mapError]

theorem language_of_stdinPath : Path.language stdinPath = .unknown := by
  decide +kernel

theorem run_eq_ok_iff_ofFile (loaded : loadConfig surroundings invocation.config = .ok config)
    (undeclared : invocation.language = none) :
    (run surroundings invocation).result = .ok inventory ↔
      ∃ chunker, Chunker.ofConfig (settingsOf invocation config) = .ok chunker ∧
        (chunker.ofFile surroundings.parse surroundings.read invocation.path).result =
          .ok inventory := by
  simp only [run_eq_ok_iff loaded, languageOf_eq_ok_iff_of_none undeclared, sourceOf_eq_ok_iff,
    Chunker.ofFile_eq_ok_iff]
  constructor
  · rintro ⟨chunker, language, source, valid, ⟨fromFile, -, rfl⟩, given, done⟩
    rw [if_neg fromFile] at given
    exact ⟨chunker, valid, source, given, done⟩
  · rintro ⟨chunker, valid, source, given, done⟩
    -- A language with a grammar is a known one, and standard input tells none.
    have grammar := Chunker.hasGrammar_of_ok done
    have known : Path.language invocation.path ≠ .unknown := by
      intro unknown
      simp [unknown, Language.hasGrammar] at grammar
    have fromFile : invocation.path ≠ stdinPath := by
      intro fromInput
      exact known (fromInput ▸ language_of_stdinPath)
    exact ⟨chunker, _, source, valid, ⟨fromFile, known, rfl⟩, by rwa [if_neg fromFile], done⟩

theorem run_eq_ok_iff_ofNamedText
    (loaded : loadConfig surroundings invocation.config = .ok config)
    (declared : invocation.language = some identifier) :
    (run surroundings invocation).result = .ok inventory ↔
      ∃ chunker source, Chunker.ofConfig (settingsOf invocation config) = .ok chunker ∧
        sourceOf surroundings invocation.path = .ok source ∧
        (chunker.ofNamedText surroundings.parse source identifier).result = .ok inventory := by
  simp only [run_eq_ok_iff loaded, languageOf_eq_ok_iff_of_some declared,
    Chunker.ofNamedText_eq_ok_iff]
  constructor
  · rintro ⟨chunker, language, source, valid, named, given, done⟩
    exact ⟨chunker, source, valid, given, language, named, done⟩
  · rintro ⟨chunker, source, valid, given, language, named, done⟩
    exact ⟨chunker, language, source, valid, named, given, done⟩

/-- A run succeeds with an inventory just when the library does with the same settings: on the file
whose extension tells the language, or on the text of the file or of standard input in the language
that is named. Standard input without a named language fails on both sides. -/
theorem run_agrees_with_library (surroundings : Surroundings) (invocation : Invocation)
    (config : Config) (loaded : loadConfig surroundings invocation.config = .ok config)
    (inventory : Inventory) :
    let settings := if invocation.strict then { config with collisionPolicy := .error } else config
    let fromFile := fun chunker : Chunker =>
      (chunker.ofFile surroundings.parse surroundings.read invocation.path).result
    (invocation.language = none →
      ((run surroundings invocation).result = .ok inventory ↔
        ∃ chunker, Chunker.ofConfig settings = .ok chunker ∧ fromFile chunker = .ok inventory)) ∧
      (invocation.language = none → invocation.path = Text.octets "-" →
        (run surroundings invocation).result ≠ .ok inventory ∧
          ∀ chunker, fromFile chunker ≠ .ok inventory) ∧
      ∀ identifier, invocation.language = some identifier →
        ((run surroundings invocation).result = .ok inventory ↔
          ∃ chunker source, Chunker.ofConfig settings = .ok chunker ∧
            (if invocation.path = Text.octets "-" then
                Text.decodeStrict? surroundings.stdin = some source
              else ∃ octets, surroundings.read invocation.path = .ok octets ∧
                Text.decodeStrict? octets = some source) ∧
            (chunker.ofNamedText surroundings.parse source identifier).result = .ok inventory) := by
  intro settings fromFile
  refine ⟨run_eq_ok_iff_ofFile loaded, ?_, ?_⟩
  · intro undeclared fromInput
    have refused (chunker : Chunker) : fromFile chunker ≠ .ok inventory := by
      intro done
      obtain ⟨source, -, done⟩ := Chunker.ofFile_eq_ok_iff.mp done
      have grammar := Chunker.hasGrammar_of_ok done
      have unknown : Path.language invocation.path = .unknown := fromInput ▸ language_of_stdinPath
      simp [unknown, Language.hasGrammar] at grammar
    refine ⟨?_, refused⟩
    intro done
    obtain ⟨chunker, -, done⟩ := (run_eq_ok_iff_ofFile loaded undeclared).mp done
    exact refused chunker done
  · intro identifier declared
    rw [run_eq_ok_iff_ofNamedText loaded declared]
    simp only [sourceOf_eq_ok_iff, FileReader.text_eq_ok_iff]
    rfl

def markedSurroundings : Surroundings where
  read path :=
    if path = Text.octets "a.js" then .ok (Text.octets Walk.markedSource)
    else if path = Text.octets "c.toml" then
      .ok (Text.octets "collision_policy = \"overwrite\"\n")
    else .error .notFound
  stdin := Text.octets Walk.markedSource
  logging := none
  clock _ := ""
  parse _ _ := some Walk.markedTree
  tomlFault _ := ""
  panicNote _ := ""

def markedInvocation (path : String) (language : Option String) : Invocation :=
  ⟨Text.octets path, language, some (Text.octets "c.toml"), false, false, true, false, false⟩

def strictChunker : Chunker :=
  ⟨.strict, rfl⟩

theorem run_agrees_with_library_strict :
    loadConfig markedSurroundings (some (Text.octets "c.toml")) = .ok .standard ∧
      (run markedSurroundings (markedInvocation "a.js" none)).result = .ok Walk.markedInventory ∧
      (run markedSurroundings (markedInvocation "-" (some " JS"))).result =
        .ok Walk.markedInventory ∧
      (run markedSurroundings (markedInvocation "-" none)).result ≠ .ok Walk.markedInventory := by
  have loaded : loadConfig markedSurroundings (some (Text.octets "c.toml")) = .ok .standard := by
    decide +kernel
  have text : (strictChunker.ofText markedSurroundings.parse Walk.markedSource .javaScript).result =
      .ok Walk.markedInventory := by
    simp only [Chunker.ofText, Chunker.ofTree, Walk.walk_eq_follow]
    decide +kernel
  obtain ⟨fromFile, -, -⟩ := run_agrees_with_library markedSurroundings
    (markedInvocation "a.js" none) .standard loaded Walk.markedInventory
  obtain ⟨-, -, fromText⟩ := run_agrees_with_library markedSurroundings
    (markedInvocation "-" (some " JS")) .standard loaded Walk.markedInventory
  obtain ⟨-, untold, -⟩ := run_agrees_with_library markedSurroundings
    (markedInvocation "-" none) .standard loaded Walk.markedInventory
  refine ⟨loaded, (fromFile rfl).mpr ?_, (fromText " JS" rfl).mpr ?_, (untold rfl rfl).1⟩
  · refine ⟨strictChunker, rfl, Chunker.ofFile_eq_ok_iff.mpr ⟨Walk.markedSource, ?_, text⟩⟩
    decide +kernel
  · refine ⟨strictChunker, Walk.markedSource, rfl, ?_,
      Chunker.ofNamedText_eq_ok_iff.mpr ⟨.javaScript, ?_, text⟩⟩
    · have fromInput : (markedInvocation "-" (some " JS")).path = Text.octets "-" := rfl
      rw [if_pos fromInput]
      decide +kernel
    · decide +kernel

end CommandLine

end CodeInventory
