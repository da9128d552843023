import CodeInventory.Proofs.CommandRun
import CodeInventory.Proofs.InventoryText
import CodeInventory.Proofs.SourceOrder

set_option autoImplicit false

namespace CodeInventory

open Walk

theorem Walk.strict_agrees_or_collides (rules : WalkRules) (before : Inventory)
    (tree : SyntaxTree) :
    ((walk { rules with policy := .error } before tree).halt = (walk rules before tree).halt ∧
        (walk { rules with policy := .error } before tree).inventory =
          (walk rules before tree).inventory) ∨
      ∃ category name, (walk { rules with policy := .error } before tree).halt =
        some (.fault (.nameCollision category name)) := by
  obtain ⟨language, source, policy, maxDepth⟩ := rules
  cases policy with
  | error => exact .inl ⟨rfl, rfl⟩
  | overwrite =>
    rcases collisionFree_or_first before
        (reached ⟨language, source, .overwrite, maxDepth⟩ tree) with
      free | ⟨earlier, construct, collision⟩
    · obtain ⟨sameEnd, sameInventory⟩ := strict_eq_lenient free
      exact .inl ⟨sameEnd, sameInventory.symm⟩
    · have strict : (WalkRules.mk language source .error maxDepth).policy = .error := rfl
      exact .inr ⟨_, _, (walk_of_first_collision strict collision).1⟩

namespace Chunker

def refusingCollisions (chunker : Chunker) : Chunker :=
  ⟨chunker.config.refusingCollisions, chunker.sound⟩

theorem ofConfig_of_sound {config : Config} (sound : config.fault? = none) :
    ofConfig config = .ok ⟨config, sound⟩ := by
  unfold ofConfig validated
  split
  · rfl
  · simp_all

theorem ofConfig_of_fault {config : Config} {fault : ConfigFault}
    (unsound : config.fault? = some fault) :
    ofConfig config = .error (.invalidConfig fault.message) := by
  unfold ofConfig validated
  split
  · simp_all
  · simp_all [Except.mapError]

theorem ofConfig_refusingCollisions (config : Config) :
    ofConfig config.refusingCollisions = (ofConfig config).map refusingCollisions := by
  -- Whether a configuration makes sense does not hang on its policy.
  have same : config.refusingCollisions.fault? = config.fault? := rfl
  cases fault : config.fault? with
  | none =>
    rw [ofConfig_of_sound fault, ofConfig_of_sound (same.trans fault)]
    rfl
  | some fault' =>
    rw [ofConfig_of_fault fault, ofConfig_of_fault (same.trans fault)]
    rfl

theorem result_ofTree (chunker : Chunker) (source : String) (language : Language)
    (tree : SyntaxTree) :
    (chunker.ofTree source language tree).result =
      match (walk (chunker.rules source language) .empty tree).halt with
      | some halt => .error halt
      | none => .ok (chunker.complete source
          (walk (chunker.rules source language) .empty tree).inventory) := by
  cases ending : (walk (chunker.rules source language) .empty tree).halt <;> simp [ofTree, ending]

theorem ofText_agrees_or_collides (chunker : Chunker) (parse : SyntaxParser) (source : String)
    (language : Language) :
    (chunker.refusingCollisions.ofText parse source language).result =
        (chunker.ofText parse source language).result ∨
      ∃ category name, (chunker.refusingCollisions.ofText parse source language).result =
        .error (.fault (.nameCollision category name)) := by
  have admits : chunker.refusingCollisions.config.admits language =
      chunker.config.admits language := rfl
  have rules : chunker.refusingCollisions.rules source language =
      { chunker.rules source language with policy := .error } := rfl
  by_cases refused : !chunker.config.admits language || !language.hasGrammar
  · exact .inl (by simp only [ofText, admits, if_pos refused])
  · simp only [ofText, admits, if_neg refused]
    cases parse source language with
    | none => exact .inl rfl
    | some tree =>
      rcases Walk.strict_agrees_or_collides (chunker.rules source language) .empty tree with
        ⟨sameEnd, sameInventory⟩ | ⟨category, name, refused⟩
      · left
        simp only [result_ofTree, rules, sameEnd, sameInventory]
        rfl
      · right
        simp only [result_ofTree, rules, refused]
        exact ⟨category, name, rfl⟩

end Chunker

-- Rows that are words of 64 bits also when they are counted from one.
def SyntaxTree.RowsFit (node : SyntaxTree) : Prop :=
  node.span.startRow + 1 < Json.wordLimit ∧ node.span.endRow + 1 < Json.wordLimit

instance : DecidablePred SyntaxTree.RowsFit :=
  fun _ => inferInstanceAs (Decidable (_ ∧ _))

theorem Chunker.fits_of_ok {chunker : Chunker} {parse : SyntaxParser} {source : String}
    {language : Language} {inventory : Inventory}
    (rows : ∀ source language tree, parse source language = some tree →
      tree.Everywhere SyntaxTree.RowsFit)
    (done : (chunker.ofText parse source language).result = .ok inventory) : inventory.Fits := by
  obtain ⟨tree, parsed, finished, rfl⟩ := finished_of_ok done
  intro chunk member
  obtain ⟨address, construct, found, rfl⟩ := exists_construct_of_mem_chunks finished member
  obtain ⟨node, at', chunk⟩ := node_of_constructAt? found
  have fit := (rows source language tree parsed).at at'
  have within := Recognition.lineSpan_within node.span
  rw [chunk]
  simp only [SyntaxTree.RowsFit] at fit
  simp only [Chunk.Fits, Recognition.chunkOf]
  omega

namespace CommandLine

variable {surroundings : Surroundings} {invocation first second : Invocation}
  {failure : Failure} {inventory : Inventory}

def Invocation.SameTask (first second : Invocation) : Prop :=
  first.path = second.path ∧ first.language = second.language ∧ first.config = second.config ∧
    first.strict = second.strict

theorem run_of_sameTask (surroundings : Surroundings) (same : first.SameTask second) :
    run surroundings first = run surroundings second := by
  obtain ⟨path, language, config, pretty, stats, strict, verbose, quiet⟩ := first
  obtain ⟨path', language', config', pretty', stats', strict', verbose', quiet'⟩ := second
  obtain ⟨rfl, rfl, rfl, rfl⟩ := same
  rfl

-- The part of the error output that comes before any report.
def logOf (surroundings : Surroundings) (invocation : Invocation) : String :=
  filterWarnings surroundings.logging ++
    logText surroundings.clock (filterOf surroundings.logging invocation)
      (run surroundings invocation).events

theorem perform_of_error (failed : (run surroundings invocation).result = .error failure) :
    perform surroundings invocation =
      ⟨failure.exit, "", logOf surroundings invocation ++ failure.report⟩ := by
  simp [perform, failed, logOf]

theorem perform_of_ok (done : (run surroundings invocation).result = .ok inventory) :
    (perform surroundings invocation).exit = 0 ∧
      (perform surroundings invocation).stdout = render invocation.pretty inventory ++ "\n" := by
  simp [perform, done]

theorem exit_ne_zero (failure : Failure) : failure.exit ≠ 0 := by
  cases failure <;> simp [Failure.exit]

theorem read?_render (fits : inventory.Fits) (pretty : Bool) :
    Inventory.read? (render pretty inventory) = some inventory := by
  cases pretty with
  | true => exact Inventory.read?_pretty fits
  | false => exact Inventory.read?_compact fits

theorem fits_of_run
    (rows : ∀ source language tree, surroundings.parse source language = some tree →
      tree.Everywhere SyntaxTree.RowsFit)
    (done : (run surroundings invocation).result = .ok inventory) : inventory.Fits := by
  obtain ⟨job, -, chunked⟩ := job_of_run done
  exact Chunker.fits_of_ok rows chunked

theorem prepare_strict (surroundings : Surroundings) (invocation : Invocation) :
    prepare surroundings { invocation with strict := true } =
      (prepare surroundings { invocation with strict := false }).map fun job =>
        { job with chunker := job.chunker.refusingCollisions } := by
  have sameLanguage : languageOf { invocation with strict := true } =
      languageOf { invocation with strict := false } := rfl
  unfold prepare configOf
  rw [sameLanguage]
  cases loadConfig surroundings invocation.config with
  | error failure => rfl
  | ok config =>
    simp only [bind, Except.bind, if_true, Bool.false_eq_true, if_false,
      Chunker.ofConfig_refusingCollisions]
    cases Chunker.ofConfig config with
    | error fault => rfl
    | ok chunker =>
      cases languageOf { invocation with strict := false } with
      | error failure => rfl
      | ok language => cases sourceOf surroundings invocation.path <;> rfl

theorem run_agrees_or_collides (surroundings : Surroundings) (strict : invocation.strict) :
    (run surroundings invocation).result =
        (run surroundings { invocation with strict := false }).result ∨
      ∃ category name, (run surroundings invocation).result =
        .error (.chunking (Path.shown invocation.path) (.nameCollision category name)) := by
  have strictly : { invocation with strict := true } = invocation := by rw [← strict]
  have preparedStrictly := prepare_strict surroundings invocation
  rw [strictly] at preparedStrictly
  cases prepared : prepare surroundings { invocation with strict := false } with
  | error failure =>
    rw [prepared] at preparedStrictly
    exact .inl (by simp only [run, prepared, preparedStrictly, Except.map])
  | ok job =>
    rw [prepared] at preparedStrictly
    simp only [run, prepared, preparedStrictly, Except.map]
    rcases job.chunker.ofText_agrees_or_collides surroundings.parse job.source job.language with
      same | ⟨category, name, refused⟩
    · exact .inl (by rw [same])
    · exact .inr ⟨category, name, by rw [refused]; rfl⟩

theorem exists_ok_of_exit (succeeded : (perform surroundings invocation).exit = 0) :
    ∃ inventory, (run surroundings invocation).result = .ok inventory := by
  cases ran : (run surroundings invocation).result with
  | error failure =>
    rw [perform_of_error ran] at succeeded
    exact absurd succeeded (exit_ne_zero failure)
  | ok inventory => exact ⟨inventory, rfl⟩

theorem perform_of_clock (surroundings : Surroundings) (clock' : Nat → String)
    (invocation : Invocation) :
    (perform { surroundings with clock := clock' } invocation).exit =
        (perform surroundings invocation).exit ∧
      (perform { surroundings with clock := clock' } invocation).stdout =
        (perform surroundings invocation).stdout := by
  have same : run { surroundings with clock := clock' } invocation =
      run surroundings invocation := rfl
  cases ran : (run surroundings invocation).result with
  | error failure =>
    have ran' := (congrArg Run.result same).trans ran
    simp only [perform_of_error ran, perform_of_error ran', and_self]
  | ok inventory =>
    obtain ⟨exit, stdout⟩ := perform_of_ok ran
    obtain ⟨exit', stdout'⟩ := perform_of_ok ((congrArg Run.result same).trans ran)
    exact ⟨exit'.trans exit.symm, stdout'.trans stdout.symm⟩

theorem perform_of_strict_success (strict : invocation.strict)
    (succeeded : (perform surroundings invocation).exit = 0) :
    (perform surroundings { invocation with strict := false }).exit = 0 ∧
      (perform surroundings { invocation with strict := false }).stdout =
        (perform surroundings invocation).stdout := by
  obtain ⟨inventory, ran⟩ := exists_ok_of_exit succeeded
  rcases run_agrees_or_collides surroundings strict with same | ⟨category, name, refused⟩
  · obtain ⟨exit, stdout⟩ := perform_of_ok (same.symm.trans ran)
    exact ⟨exit, stdout.trans (perform_of_ok ran).2.symm⟩
  · simp [ran] at refused

theorem collision_of_strict_failure (strict : invocation.strict)
    (failed : (perform surroundings invocation).exit ≠ 0)
    (succeeded : (perform surroundings { invocation with strict := false }).exit = 0) :
    ∃ category name, (run surroundings invocation).result =
      .error (.chunking (Path.shown invocation.path) (.nameCollision category name)) := by
  obtain ⟨inventory, ran⟩ := exists_ok_of_exit succeeded
  rcases run_agrees_or_collides surroundings strict with same | collided
  · exact absurd (perform_of_ok (same.trans ran)).1 failed
  · exact collided

/-- Two command lines that ask for the same task exit alike, fail with the same report and nothing
printed, and print texts that read as the same inventory, whatever flags say about layout,
statistics and log and whatever the clock shows. Of two that differ in strictness, the strict one
prints the same if it succeeds, and if it alone fails it has met a collision. -/
theorem flags_do_not_interfere (surroundings : Surroundings) (clock' : Nat → String)
    (rows : ∀ source language tree, surroundings.parse source language = some tree →
      tree.Everywhere SyntaxTree.RowsFit)
    (arguments arguments' : List (List UInt8)) (invocation invocation' : Invocation)
    (given : Invocation.ofArguments arguments = .ok invocation)
    (given' : Invocation.ofArguments arguments' = .ok invocation') :
    let surroundings' := { surroundings with clock := clock' }
    let output := execute surroundings arguments
    let output' := execute surroundings' arguments'
    (invocation.SameTask invocation' →
      output.exit = output'.exit ∧
      (output.exit ≠ 0 → output.stdout = "" ∧ output'.stdout = "" ∧
        ∃ failure, (run surroundings invocation).result = .error failure ∧
          output.stderr = logOf surroundings invocation ++ failure.report ∧
          output'.stderr = logOf surroundings' invocation' ++ failure.report) ∧
      (output.exit = 0 → ∃ text text' inventory,
        (run surroundings invocation).result = .ok inventory ∧
          output.stdout = text ++ "\n" ∧ output'.stdout = text' ++ "\n" ∧
          Inventory.read? text = some inventory ∧ Inventory.read? text' = some inventory)) ∧
    (invocation.strict → invocation' = { invocation with strict := false } →
      (output.exit = 0 → output'.exit = 0 ∧ output'.stdout = output.stdout) ∧
      (output.exit ≠ 0 → output'.exit = 0 → ∃ category name,
        let failure := Failure.chunking (Path.shown invocation.path) (.nameCollision category name)
        (run surroundings invocation).result = .error failure ∧
          output.stderr = logOf surroundings invocation ++ failure.report)) := by
  intro surroundings' output output'
  have executed : output = perform surroundings invocation := by
    simp only [output, execute, given]
  have executed' : output' = perform surroundings' invocation' := by
    simp only [output', execute, given']
  rw [executed, executed']
  constructor
  · intro same
    have sameRun : run surroundings invocation = run surroundings' invocation' :=
      run_of_sameTask surroundings same
    cases ran : (run surroundings invocation).result with
    | error failure =>
      rw [perform_of_error ran, perform_of_error (sameRun ▸ ran)]
      simp [exit_ne_zero]
    | ok inventory =>
      obtain ⟨exit, stdout⟩ := perform_of_ok ran
      obtain ⟨exit', stdout'⟩ := perform_of_ok (sameRun ▸ ran)
      have fits := fits_of_run rows ran
      refine ⟨exit.trans exit'.symm, fun failed => absurd exit failed, fun _ => ?_⟩
      exact ⟨_, _, inventory, rfl, stdout, stdout', read?_render fits _, read?_render fits _⟩
  · rintro strict rfl
    obtain ⟨sameExit, sameStdout⟩ := perform_of_clock surroundings clock'
      { invocation with strict := false }
    rw [sameExit, sameStdout]
    refine ⟨perform_of_strict_success strict, fun failed succeeded => ?_⟩
    obtain ⟨category, name, collided⟩ := collision_of_strict_failure strict failed succeeded
    exact ⟨category, name, collided, by rw [perform_of_error collided]⟩

def twinSurroundings : Surroundings where
  read path :=
    if path = Text.octets "twins.rs" then .ok (Text.octets twinSource) else .error .notFound
  stdin := []
  logging := some "trace"
  clock line := toString line
  parse _ _ := some twins
  tomlFault _ := ""
  panicNote _ := ""

def twinInvocation (pretty stats strict verbose quiet : Bool) : Invocation :=
  ⟨Text.octets "twins.rs", none, none, pretty, stats, strict, verbose, quiet⟩

def twinArguments (options : List String) : List (List UInt8) :=
  ("twins.rs" :: options).map Text.octets

theorem flags_do_not_interfere_twins :
    twins.Everywhere SyntaxTree.RowsFit ∧
      (∃ text text' inventory,
        (execute twinSurroundings (twinArguments ["--pretty", "-v"])).stdout = text ++ "\n" ∧
          (execute twinSurroundings (twinArguments ["--quiet", "--stats"])).stdout =
            text' ++ "\n" ∧
          Inventory.read? text = some inventory ∧ Inventory.read? text' = some inventory) ∧
      ∃ category name, (execute twinSurroundings (twinArguments ["--strict"])).stderr =
        logOf twinSurroundings (twinInvocation false false true false false) ++
          (Failure.chunking "twins.rs" (.nameCollision category name)).report := by
  have fits : twins.Everywhere SyntaxTree.RowsFit := by decide +kernel
  have rows : ∀ source language tree, twinSurroundings.parse source language = some tree →
      tree.Everywhere SyntaxTree.RowsFit := by
    intro source language tree parsed
    exact Option.some.inj parsed ▸ fits
  have name : Path.shown (Text.octets "twins.rs") = "twins.rs" := by decide +kernel
  obtain ⟨shown, -⟩ := flags_do_not_interfere twinSurroundings twinSurroundings.clock rows
    (twinArguments ["--pretty", "-v"]) (twinArguments ["--quiet", "--stats"])
    (twinInvocation true false false true false) (twinInvocation false true false false true)
    (by decide +kernel) (by decide +kernel)
  obtain ⟨-, refused⟩ := flags_do_not_interfere twinSurroundings twinSurroundings.clock rows
    (twinArguments ["--strict"]) (twinArguments [])
    (twinInvocation false false true false false) (twinInvocation false false false false false)
    (by decide +kernel) (by decide +kernel)
  have exits : (execute twinSurroundings (twinArguments ["--pretty", "-v"])).exit = 0 ∧
      (execute twinSurroundings (twinArguments [])).exit = 0 ∧
      (execute twinSurroundings (twinArguments ["--strict"])).exit ≠ 0 := by
    simp only [execute, perform, run, Chunker.ofText, Chunker.ofTree, walk_eq_follow]
    decide +kernel
  obtain ⟨succeeded, lenient, strict⟩ := exits
  obtain ⟨category, twin, -, report⟩ := (refused rfl rfl).2 strict lenient
  obtain ⟨text, text', inventory, -, printed⟩ := (shown ⟨rfl, rfl, rfl, rfl⟩).2.2 succeeded
  refine ⟨fits, ⟨text, text', inventory, printed⟩, category, twin, ?_⟩
  rw [← name]
  exact report

end CommandLine

end CodeInventory
