import KeyedPaths.CommandLine

/-!
# Argument lists

Two hyphens alone end the options of an argument list.  Before them every
argument that starts with two hyphens must be a flag, and the others are
segments.  Behind them every argument is a segment.

Parsing takes one argument after the other.  Its result depends only on which
flags occur and on the segments in their order, and every choice of options is
the result for some argument list.
-/

namespace KeyedPaths

namespace CommandLine

/-- The arguments before the two hyphens that end the options. -/
def optionPart (arguments : List String) : List String :=
  arguments.takeWhile (· ≠ "--")

/-- The arguments behind the two hyphens that end the options. -/
def segmentPart (arguments : List String) : List String :=
  (arguments.dropWhile (· ≠ "--")).tail

def flagNames : List String :=
  ["--wildcard", "--json", "--dump-rules"]

/-- Whether an argument looks like an option but is no flag. -/
def isUnknown (argument : String) : Bool :=
  isOption argument && !flagNames.contains argument

namespace Options

/-- The flags that are set. -/
def flags (options : Options) : List String :=
  (if options.wildcard then ["--wildcard"] else []) ++
    (if options.json then ["--json"] else []) ++
    (if options.dumpRules then ["--dump-rules"] else [])

/-- Options to which flags and segments are added, and further segments behind
them. -/
def extend (options : Options) (before behind : List String) : Options where
  schemaPath := options.schemaPath
  wildcard := options.wildcard || before.contains "--wildcard"
  json := options.json || before.contains "--json"
  dumpRules := options.dumpRules || before.contains "--dump-rules"
  segments := options.segments ++
    before.filter (fun argument => !isOption argument) ++ behind

variable (options : Options)

theorem extend_nil (behind : List String) :
    options.extend [] behind =
      { options with segments := options.segments ++ behind } := by
  simp [extend]

theorem extend_extend (first second behind : List String) :
    (options.extend first []).extend second behind =
      options.extend (first ++ second) behind := by
  simp [extend, Bool.or_assoc]

theorem addSegment_eq {argument : String}
    (isSegment : isOption argument = false) :
    options.addSegment argument = options.extend [argument] [] := by
  have noFlag (flag : String) (isFlag : isOption flag = true) :
      flag ≠ argument := by
    rintro rfl
    simp [isFlag] at isSegment
  simp [addSegment, extend, isSegment, noFlag "--wildcard" (by decide),
    noFlag "--json" (by decide), noFlag "--dump-rules" (by decide)]

theorem setFlag_eq {argument : String} (isFlag : isOption argument = true) :
    options.setFlag argument =
      if isUnknown argument then .error (.unknownOption argument)
      else .ok (options.extend [argument] []) := by
  unfold setFlag
  by_cases isWildcard : argument = "--wildcard"
  · subst isWildcard
    simp [isUnknown, flagNames, extend, isFlag]
  by_cases isJson : argument = "--json"
  · subst isJson
    simp [isUnknown, flagNames, extend, isFlag]
  by_cases isDump : argument = "--dump-rules"
  · subst isDump
    simp [isUnknown, flagNames, extend, isFlag]
  · simp [isUnknown, flagNames, isFlag, isWildcard, isJson, isDump]

/-- Behind the end of the options every argument is added to the segments. -/
theorem setAll_true (arguments : List String) :
    options.setAll true arguments =
      .ok { options with segments := options.segments ++ arguments } := by
  induction arguments generalizing options with
  | nil => simp [setAll]
  | cons argument rest ih =>
      rw [setAll, Bool.true_or, if_pos rfl, ih]
      simp [addSegment]

/-- Before the end of the options an argument sets its flag or is added to the
segments, unless it is an unknown option. -/
theorem setAll_false_cons {argument : String} (notEnd : argument ≠ "--")
    (rest : List String) :
    options.setAll false (argument :: rest) =
      if isUnknown argument then .error (.unknownOption argument)
      else (options.extend [argument] []).setAll false rest := by
  rw [setAll, Bool.false_or]
  cases isFlag : isOption argument with
  | false =>
      have isKnown : isUnknown argument = false := by simp [isUnknown, isFlag]
      rw [Bool.not_false, if_pos rfl, addSegment_eq options isFlag, isKnown,
        if_neg Bool.false_ne_true]
  | true =>
      rw [Bool.not_true, if_neg Bool.false_ne_true, if_neg notEnd,
        setFlag_eq options isFlag]
      cases isUnknown argument <;> rfl

theorem setAll_false (arguments : List String) :
    options.setAll false arguments =
      match (optionPart arguments).find? isUnknown with
      | some argument => .error (.unknownOption argument)
      | none =>
          .ok (options.extend (optionPart arguments) (segmentPart arguments)) := by
  induction arguments generalizing options with
  | nil => simp [setAll, optionPart, segmentPart, extend]
  | cons argument rest ih =>
      by_cases isEnd : argument = "--"
      · subst isEnd
        rw [setAll, if_neg (by decide), if_pos rfl, setAll_true]
        simp [optionPart, segmentPart, extend_nil]
      · have isFirst : optionPart (argument :: rest) =
            argument :: optionPart rest := by
          simp [optionPart, isEnd]
        have sameSegments : segmentPart (argument :: rest) =
            segmentPart rest := by
          simp [segmentPart, isEnd]
        rw [setAll_false_cons options isEnd, isFirst, sameSegments,
          List.find?_cons]
        cases isUnknown argument with
        | true => rfl
        | false =>
            rw [if_neg Bool.false_ne_true, ih, extend_extend,
              List.singleton_append]

theorem mem_flags (argument : String) :
    argument ∈ options.flags ↔
      (options.wildcard = true ∧ argument = "--wildcard") ∨
        (options.json = true ∧ argument = "--json") ∨
          (options.dumpRules = true ∧ argument = "--dump-rules") := by
  obtain ⟨schemaPath, wildcard, json, dumpRules, segments⟩ := options
  cases wildcard <;> cases json <;> cases dumpRules <;> simp [flags]

end Options

section Parts

variable {before : List String} (noEnd : "--" ∉ before) (behind : List String)

include noEnd

theorem goesOn_of_mem_before : ∀ argument ∈ before,
    decide (argument ≠ "--") = true := by
  intro argument isBefore
  simpa using ne_of_mem_of_not_mem isBefore noEnd

theorem optionPart_append : optionPart (before ++ "--" :: behind) = before := by
  rw [optionPart, List.takeWhile_append_of_pos (goesOn_of_mem_before noEnd)]
  simp

theorem segmentPart_append :
    segmentPart (before ++ "--" :: behind) = behind := by
  rw [segmentPart, List.dropWhile_append_of_pos (goesOn_of_mem_before noEnd)]
  simp

end Parts

theorem find?_isUnknown_eq_none_iff {arguments : List String} :
    arguments.find? isUnknown = none ↔
      ∀ argument ∈ arguments, isOption argument = true →
        argument ∈ flagNames := by
  simp [List.find?_eq_none, isUnknown]

/-- What parsing finds after the path of the schema. -/
theorem parse_cons (schemaPath : String) (later : List String) :
    parse (schemaPath :: later) =
      if isOption schemaPath then .error .usage
      else
        match (optionPart later).find? isUnknown with
        | some argument => .error (.unknownOption argument)
        | none =>
            .ok (Options.extend ⟨schemaPath, false, false, false, []⟩
              (optionPart later) (segmentPart later)) := by
  rw [parse, Options.setAll_false]

theorem exists_parse_cons_iff {schemaPath : String} {later : List String} :
    (∃ options, parse (schemaPath :: later) = .ok options) ↔
      isOption schemaPath = false ∧
        ∀ argument ∈ optionPart later, isOption argument = true →
          argument ∈ flagNames := by
  rw [← find?_isUnknown_eq_none_iff, parse_cons]
  cases isOption schemaPath <;>
    cases (optionPart later).find? isUnknown <;> simp

theorem parse_cons_eq_usage_iff {schemaPath : String} {later : List String} :
    parse (schemaPath :: later) = .error .usage ↔
      isOption schemaPath = true := by
  rw [parse_cons]
  cases isOption schemaPath <;>
    cases (optionPart later).find? isUnknown <;> simp

/-- Flags in any order and number, and then the segments behind two hyphens, are
parsed as the options in which these flags are set. -/
theorem parse_flags_segments {options : Options} {given : List String}
    (isPath : isOption options.schemaPath = false)
    (areFlags : ∀ argument, argument ∈ given ↔ argument ∈ options.flags) :
    parse (options.schemaPath :: (given ++ "--" :: options.segments)) =
      .ok options := by
  simp only [Options.mem_flags] at areFlags
  have noEnd : "--" ∉ given := by
    simp [areFlags]
  have areKnown : ∀ argument ∈ given, isOption argument = true ∧
      argument ∈ flagNames := by
    intro argument isGiven
    rcases (areFlags argument).1 isGiven with
      ⟨-, rfl⟩ | ⟨-, rfl⟩ | ⟨-, rfl⟩ <;> decide
  have noUnknown : given.find? isUnknown = none :=
    find?_isUnknown_eq_none_iff.2 fun argument isGiven _ =>
      (areKnown argument isGiven).2
  have noSegments : given.filter (fun argument => !isOption argument) = [] := by
    simpa using fun argument isGiven => (areKnown argument isGiven).1
  rw [parse_cons, isPath, optionPart_append noEnd, segmentPart_append noEnd,
    noUnknown]
  simp [Options.extend, noSegments, areFlags]

/-- What parsing finds.  It succeeds exactly for a first argument that is no
option and is followed by no unknown option before two hyphens alone; the flags
that are set are then those that occur before them, and the segments are the
other arguments before them and all behind them.  A first argument that is
missing or looks like an option is one error, and the first unknown option is the
other.  Every choice of options is found for the argument list that sets its
flags in any order and lists its segments behind two hyphens. -/
theorem parse_by_parts :
    (∀ arguments : List String,
      ((∃ options, parse arguments = .ok options) ↔
        ∃ schemaPath later, arguments = schemaPath :: later ∧
          isOption schemaPath = false ∧
            ∀ argument ∈ optionPart later, isOption argument = true →
              argument ∈ flagNames) ∧
      (parse arguments = .error .usage ↔
        ∀ schemaPath ∈ arguments.head?, isOption schemaPath = true)) ∧
    (∀ (schemaPath : String) (later : List String),
      (∀ options, parse (schemaPath :: later) = .ok options →
        options.schemaPath = schemaPath ∧
          (options.wildcard = true ↔ "--wildcard" ∈ optionPart later) ∧
          (options.json = true ↔ "--json" ∈ optionPart later) ∧
          (options.dumpRules = true ↔ "--dump-rules" ∈ optionPart later) ∧
          options.segments =
            (optionPart later).filter (fun argument => !isOption argument) ++
              segmentPart later) ∧
      ∀ argument,
        parse (schemaPath :: later) = .error (.unknownOption argument) ↔
          isOption schemaPath = false ∧
            (optionPart later).find? isUnknown = some argument) ∧
    ∀ (options : Options) (given : List String),
      isOption options.schemaPath = false →
        (∀ argument, argument ∈ given ↔ argument ∈ options.flags) →
          parse (options.schemaPath :: (given ++ "--" :: options.segments)) =
            .ok options := by
  refine ⟨fun arguments => ?_, fun schemaPath later => ?_,
    fun options given isPath areFlags => parse_flags_segments isPath areFlags⟩
  · cases arguments with
    | nil => simp [parse]
    | cons schemaPath later =>
        rw [exists_parse_cons_iff, parse_cons_eq_usage_iff]
        constructor
        · constructor
          · intro isParsed
            exact ⟨schemaPath, later, rfl, isParsed⟩
          · rintro ⟨_, _, ⟨⟩, isParsed⟩
            exact isParsed
        · simp
  · rw [parse_cons]
    cases isOption schemaPath <;>
      cases (optionPart later).find? isUnknown <;> simp
    simp [Options.extend]

def crowdedOptions : Options where
  schemaPath := "s.json"
  wildcard := false
  json := true
  dumpRules := true
  segments := ["--wildcard", "a", "--"]

/-- A flag that is set twice, and a flag and two hyphens among the segments. -/
theorem crowdedOptions_parse :
    parse ["s.json", "--json", "--dump-rules", "--json", "--", "--wildcard",
        "a", "--"] = .ok crowdedOptions ∧
      (∃ options,
        parse ["s.json", "-", "--json", "--", "--wildcard"] = .ok options ∧
          options.json = true ∧ options.segments = ["-", "--wildcard"]) ∧
      parse ["s.json", "a", "--nope", "--none", "--"] =
        .error (.unknownOption "--nope") ∧
      parse ["--json", "s.json"] = .error .usage := by
  obtain ⟨outcomes, found, restored⟩ := parse_by_parts
  obtain ⟨options, isParsed⟩ :=
    (outcomes ["s.json", "-", "--json", "--", "--wildcard"]).1.2
      ⟨"s.json", ["-", "--json", "--", "--wildcard"], rfl, by decide,
        by decide⟩
  obtain ⟨-, -, hasJson, -, areSegments⟩ := (found _ _).1 options isParsed
  refine ⟨?_, ⟨options, isParsed, hasJson.2 (by decide), ?_⟩, ?_, ?_⟩
  · exact restored crowdedOptions ["--json", "--dump-rules", "--json"]
      (by decide) (by simp [Options.mem_flags, crowdedOptions, or_comm])
  · rw [areSegments]
    decide
  · exact ((found _ _).2 _).2 (by decide)
  · exact (outcomes _).2.2 (by decide)

end CommandLine

end KeyedPaths
