import CommittedRegex.CommandLine.Options

/-! # Groups of arguments

An option and its value make one group, and so does any other argument; behind two hyphens that are no
value every argument is a positional one. Reading the arguments is reading their groups one after the
other, and each group changes one part of the options. -/
namespace CommittedRegex.CommandLine

/-- The arguments that belong together. A value is missing only at the end of all. -/
inductive Group
  | help
  | version
  | output (path : Option String)
  | maxSteps (count : Option String)
  | showPattern
  | faithful
  | verbose
  | trace
  | unknown (argument : String)
  | positional (argument : String)
  deriving DecidableEq, Inhabited

def groups : List String → List Group
  | [] => []
  | argument :: rest =>
    match ArgumentKind.of argument with
    | .endOfOptions => rest.map .positional
    | .help => .help :: groups rest
    | .version => .version :: groups rest
    | .output =>
      match rest with
      | [] => [.output none]
      | path :: rest => .output (some path) :: groups rest
    | .maxSteps =>
      match rest with
      | [] => [.maxSteps none]
      | count :: rest => .maxSteps (some count) :: groups rest
    | .showPattern => .showPattern :: groups rest
    | .faithful => .faithful :: groups rest
    | .verbose => .verbose :: groups rest
    | .trace => .trace :: groups rest
    | .unknown => .unknown argument :: groups rest
    | .positional => .positional argument :: groups rest

/-- The step count that a group gives, as it is written. -/
def Group.count? : Group → Option String
  | maxSteps count => count
  | _ => none

namespace Options

/-- What a group makes of the options, unless it decides alone. -/
def add (options : Options) : Group → Except Stop Options
  | .help => .error .help
  | .version => .error .version
  | .output none => .error (.fault .noOutputFile)
  | .output (some path) => .ok { options with output := some path }
  | .maxSteps none => .error (.fault .noStepCount)
  | .maxSteps (some count) =>
    match Text.word? count.toList with
    | none => .error (.fault (.badStepCount count))
    | some limit => .ok { options with maxSteps := some limit }
  | .showPattern => .ok { options with showPattern := true }
  | .faithful => .ok { options with faithful := true }
  | .verbose => .ok { options with logLevel := options.logLevel.max .summaries }
  | .trace => .ok { options with logLevel := .everything }
  | .unknown argument => .error (.fault (.unknownOption argument))
  | .positional argument => .ok (options.addPositional argument)

theorem foldlM_cons_add (options : Options) (group : Group) (rest : List Group) :
    (group :: rest).foldlM add options = (options.add group).bind fun next => rest.foldlM add next := rfl

theorem foldlM_positional (options : Options) (arguments : List String) :
    (arguments.map Group.positional).foldlM add options = .ok (arguments.foldl addPositional options) := by
  induction arguments generalizing options with
  | nil => rfl
  | cons argument arguments ih => exact ih (options.addPositional argument)

/-- The arguments are read group by group. -/
theorem read_eq_foldlM (options : Options) (arguments : List String) :
    options.read arguments = (groups arguments).foldlM add options := by
  fun_induction read options arguments <;> rw [groups.eq_def]
  case case1 => rfl
  all_goals simp only [foldlM_cons_add, foldlM_positional, add, Except.bind, *]

section

variable {options next result : Options} {group : Group} {rest : List Group}

theorem addPositional_maxSteps (options : Options) (argument : String) :
    (options.addPositional argument).maxSteps = options.maxSteps := by
  rw [addPositional]
  split <;> rfl

theorem addPositional_faithful (options : Options) (argument : String) :
    (options.addPositional argument).faithful = options.faithful := by
  rw [addPositional]
  split <;> rfl

theorem add_maxSteps_eq_ok {count : Option String} (h : options.add (.maxSteps count) = .ok next) :
    ∃ text limit, count = some text ∧ Text.word? text.toList = some limit ∧
      next = { options with maxSteps := some limit } := by
  cases count with
  | none => cases h
  | some text =>
    rw [add] at h
    cases hlimit : Text.word? text.toList with
    | none => simp [hlimit] at h
    | some limit => exact ⟨text, limit, rfl, hlimit, by simpa [hlimit, eq_comm] using h⟩

/-- A group changes the limit only by a step count of its own, which is then a number. -/
theorem maxSteps_of_add (h : options.add group = .ok next) :
    group.count? = none ∧ next.maxSteps = options.maxSteps ∨
      ∃ count limit, group.count? = some count ∧ Text.word? count.toList = some limit ∧
        next.maxSteps = some limit := by
  cases group with
  | maxSteps count =>
    obtain ⟨text, limit, rfl, hlimit, rfl⟩ := add_maxSteps_eq_ok h
    exact Or.inr ⟨text, limit, rfl, hlimit, rfl⟩
  | output path =>
    cases path <;> cases h
    exact Or.inl ⟨rfl, rfl⟩
  | positional argument =>
    cases h
    exact Or.inl ⟨rfl, addPositional_maxSteps options argument⟩
  | _ => cases h <;> exact Or.inl ⟨rfl, rfl⟩

theorem faithful_of_add (h : options.add group = .ok next) :
    next.faithful = true ↔ options.faithful = true ∨ group = .faithful := by
  cases group with
  | maxSteps count =>
    obtain ⟨text, limit, rfl, -, rfl⟩ := add_maxSteps_eq_ok h
    simp
  | output path =>
    cases path <;> cases h
    simp
  | positional argument =>
    cases h
    simp [addPositional_faithful]
  | _ => cases h <;> simp

theorem foldlM_cons_eq_ok (h : (group :: rest).foldlM add options = .ok result) :
    ∃ next, options.add group = .ok next ∧ rest.foldlM add next = .ok result := by
  rw [foldlM_cons_add] at h
  cases hnext : options.add group with
  | error stop => simp [hnext, Except.bind] at h
  | ok next => exact ⟨next, rfl, by simpa [hnext, Except.bind] using h⟩

/-- After all groups the limit is the last step count, or what it was. -/
theorem maxSteps_of_foldlM {all : List Group} (h : all.foldlM add options = .ok result) :
    (all.filterMap Group.count?).getLast? = none ∧ result.maxSteps = options.maxSteps ∨
      ∃ count limit, (all.filterMap Group.count?).getLast? = some count ∧
        Text.word? count.toList = some limit ∧ result.maxSteps = some limit := by
  induction all generalizing options with
  | nil =>
    cases h
    exact Or.inl ⟨rfl, rfl⟩
  | cons group rest ih =>
    obtain ⟨next, hadd, hrest⟩ := foldlM_cons_eq_ok h
    rcases maxSteps_of_add hadd with ⟨hcount, hsame⟩ | ⟨count, limit, hcount, hlimit, hset⟩
    · rw [List.filterMap_cons_none hcount, ← hsame]
      exact ih hrest
    · rw [List.filterMap_cons_some hcount, List.getLast?_cons]
      rcases ih hrest with ⟨hnone, hresult⟩ | ⟨last, value, hlast, hvalue, hresult⟩
      · rw [hnone, hresult, hset]
        exact Or.inr ⟨count, limit, rfl, hlimit, rfl⟩
      · rw [hlast]
        exact Or.inr ⟨last, value, rfl, hvalue, hresult⟩

theorem faithful_of_foldlM {all : List Group} (h : all.foldlM add options = .ok result) :
    result.faithful = true ↔ options.faithful = true ∨ .faithful ∈ all := by
  induction all generalizing options with
  | nil =>
    cases h
    simp
  | cons group rest ih =>
    obtain ⟨next, hadd, hrest⟩ := foldlM_cons_eq_ok h
    rw [ih hrest, faithful_of_add hadd, List.mem_cons, or_assoc, eq_comm (a := group)]

end

end Options

end CommittedRegex.CommandLine
