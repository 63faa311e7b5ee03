import CommittedRegex.Proofs.CommandLine.Arguments
import CommittedRegex.Proofs.Text.Numeral
import Mathlib.Tactic.SplitIfs

/-! # The grammar of the arguments

From the left the arguments are complete groups, as far as they go: an option, an option with the argument
behind it as its value, or a positional argument. What stands behind them is nothing, two hyphens with
positional arguments only, or an option without its value. The first group that decides alone is all that
counts; without one, each part of the options is told by the groups that are about it. So a complete group
may stand anywhere among the complete groups, as long as groups about the same part keep their order. -/
namespace CommittedRegex.CommandLine

/-! ## Kinds of arguments -/

/-- The arguments that begin with a hyphen and have a meaning. -/
def optionNames : List String :=
  ["--", "-h", "--help", "-v", "--version", "-o", "--output", "--max-steps", "--show", "--faithful", "--verbose",
    "--trace"]

/-- The arguments of a kind. -/
def ArgumentKind.Names : ArgumentKind → String → Prop
  | endOfOptions, argument => argument = "--"
  | help, argument => argument = "-h" ∨ argument = "--help"
  | version, argument => argument = "-v" ∨ argument = "--version"
  | output, argument => argument = "-o" ∨ argument = "--output"
  | maxSteps, argument => argument = "--max-steps"
  | showPattern, argument => argument = "--show"
  | faithful, argument => argument = "--faithful"
  | verbose, argument => argument = "--verbose"
  | trace, argument => argument = "--trace"
  | unknown, argument => argument.toList.head? = some '-' ∧ argument ≠ "-" ∧ argument ∉ optionNames
  | positional, argument => argument = "-" ∨ argument.toList.head? ≠ some '-'

theorem head?_of_mem_optionNames {name : String} (h : name ∈ optionNames) : name.toList.head? = some '-' := by
  revert name
  decide

namespace ArgumentKind

private theorem names_ite {condition : Prop} [Decidable condition] {kind other : ArgumentKind} {argument : String}
    (h : condition → kind.Names argument) (hother : ¬ condition → other.Names argument) :
    (if condition then kind else other).Names argument := by
  split
  case isTrue hcondition => exact h hcondition
  case isFalse hcondition => exact hother hcondition

private theorem names_of (argument : String) : (ArgumentKind.of argument).Names argument := by
  refine names_ite id fun hend => names_ite id fun hhelp => names_ite id fun hversion =>
    names_ite id fun houtput => names_ite id fun hsteps => names_ite id fun hshow =>
    names_ite id fun hfaithful => names_ite id fun hverbose => names_ite id fun htrace =>
    names_ite (fun hhyphen => ⟨hhyphen.2, hhyphen.1, ?_⟩) fun hplain => ?_
  · rw [not_or] at hhelp hversion houtput
    simp [optionNames, hend, hhelp, hversion, houtput, hsteps, hshow, hfaithful, hverbose, htrace]
  · exact (Decidable.not_and_iff_not_or_not.mp hplain).imp Decidable.not_not.mp id

private theorem of_eq_of_names {kind : ArgumentKind} {argument : String} (h : kind.Names argument) :
    ArgumentKind.of argument = kind := by
  cases kind with
  | unknown =>
    obtain ⟨hhyphen, hmark, hother⟩ := h
    simp only [optionNames, List.mem_cons, List.not_mem_nil, or_false, not_or] at hother
    simp [ArgumentKind.of, hhyphen, hmark, hother]
  | positional =>
    have hother : argument ∉ optionNames := by
      intro hmem
      rcases h with rfl | hplain
      · exact absurd hmem (by decide)
      · exact hplain (head?_of_mem_optionNames hmem)
    have hplain : ¬ (argument ≠ "-" ∧ argument.toList.head? = some '-') := by
      rintro ⟨hmark, hhyphen⟩
      exact h.elim hmark fun hplain => hplain hhyphen
    simp only [optionNames, List.mem_cons, List.not_mem_nil, or_false, not_or] at hother
    simp [ArgumentKind.of, hplain, hother]
  | help | version | output => rcases h with rfl | rfl <;> decide
  | _ =>
    obtain rfl := h
    decide

theorem of_eq_iff {kind : ArgumentKind} {argument : String} :
    ArgumentKind.of argument = kind ↔ kind.Names argument :=
  ⟨fun h => h ▸ names_of argument, of_eq_of_names⟩

end ArgumentKind

/-! ## Complete groups and what stands behind them -/

/-- The arguments of a complete group. A value may look like anything, also like an option. -/
inductive IsGroup : List String → Group → Prop
  | help {word : String} (h : ArgumentKind.help.Names word) : IsGroup [word] .help
  | version {word : String} (h : ArgumentKind.version.Names word) : IsGroup [word] .version
  | output {word : String} (h : ArgumentKind.output.Names word) (path : String) :
      IsGroup [word, path] (.output (some path))
  | maxSteps {word : String} (h : ArgumentKind.maxSteps.Names word) (count : String) :
      IsGroup [word, count] (.maxSteps (some count))
  | showPattern {word : String} (h : ArgumentKind.showPattern.Names word) : IsGroup [word] .showPattern
  | faithful {word : String} (h : ArgumentKind.faithful.Names word) : IsGroup [word] .faithful
  | verbose {word : String} (h : ArgumentKind.verbose.Names word) : IsGroup [word] .verbose
  | trace {word : String} (h : ArgumentKind.trace.Names word) : IsGroup [word] .trace
  | unknown {word : String} (h : ArgumentKind.unknown.Names word) : IsGroup [word] (.unknown word)
  | positional {word : String} (h : ArgumentKind.positional.Names word) : IsGroup [word] (.positional word)

/-- What may stand behind the complete groups, with the groups that it makes. -/
inductive IsEnding : List String → List Group → Prop
  | nothing : IsEnding [] []
  | separator {word : String} (h : ArgumentKind.endOfOptions.Names word) (rest : List String) :
      IsEnding (word :: rest) (rest.map .positional)
  | noPath {word : String} (h : ArgumentKind.output.Names word) : IsEnding [word] [.output none]
  | noCount {word : String} (h : ArgumentKind.maxSteps.Names word) : IsEnding [word] [.maxSteps none]

/-- Complete groups with their arguments, and what stands behind them with its groups. -/
structure Grouping where
  front : List (List String × Group)
  ending : List String
  back : List Group

namespace Grouping

def arguments (grouping : Grouping) : List String := grouping.front.flatMap Prod.fst ++ grouping.ending

def groups (grouping : Grouping) : List Group := grouping.front.map Prod.snd ++ grouping.back

structure IsValid (grouping : Grouping) : Prop where
  front : ∀ part ∈ grouping.front, IsGroup part.1 part.2
  back : IsEnding grouping.ending grouping.back

end Grouping

theorem IsGroup.groups_append {words : List String} {group : Group} (h : IsGroup words group)
    (rest : List String) : groups (words ++ rest) = group :: groups rest := by
  cases h with
  | _ h => simp only [List.cons_append, List.nil_append, groups.eq_def (_ :: _), ArgumentKind.of_eq_iff.mpr h]

theorem IsEnding.groups_eq {ending : List String} {back : List Group} (h : IsEnding ending back) :
    groups ending = back := by
  cases h with
  | nothing => rfl
  | _ h => simp only [groups.eq_def (_ :: _), ArgumentKind.of_eq_iff.mpr h]

theorem Grouping.IsValid.groups_eq {grouping : Grouping} (h : grouping.IsValid) :
    CommandLine.groups grouping.arguments = grouping.groups := by
  obtain ⟨front, ending, back⟩ := grouping
  obtain ⟨hfront, hback⟩ := h
  induction front with
  | nil => exact hback.groups_eq
  | cons part front ih =>
    have hrest := ih (fun other hother => hfront other (List.mem_cons_of_mem part hother)) hback
    simp only [arguments, groups, List.flatMap_cons, List.map_cons, List.append_assoc, List.cons_append]
      at hrest ⊢
    rw [(hfront part List.mem_cons_self).groups_append, hrest]

/-- A group is put before the complete groups. -/
theorem Grouping.exists_cons {words rest : List String} {group : Group} (h : IsGroup words group)
    (hrest : ∃ grouping : Grouping, grouping.IsValid ∧ grouping.arguments = rest) :
    ∃ grouping : Grouping, grouping.IsValid ∧ grouping.arguments = words ++ rest := by
  obtain ⟨⟨front, ending, back⟩, ⟨hfront, hback⟩, rfl⟩ := hrest
  exact ⟨⟨(words, group) :: front, ending, back⟩, ⟨List.forall_mem_cons.mpr ⟨h, hfront⟩, hback⟩,
    by simp [arguments]⟩

/-- How many arguments a complete group has. -/
def Group.width : Group → Nat
  | output _ => 2
  | maxSteps _ => 2
  | _ => 1

theorem IsGroup.length_eq {words : List String} {group : Group} (h : IsGroup words group) :
    words.length = group.width := by
  cases h <;> rfl

/-- Where a complete group stands there is no ending. -/
theorem IsGroup.not_isEnding {words rest : List String} {group : Group} {back : List Group}
    (h : IsGroup words group) : ¬ IsEnding (words ++ rest) back := by
  intro hending
  have hgroups := hending.groups_eq
  rw [h.groups_append] at hgroups
  generalize hall : words ++ rest = all at hending
  cases hending with
  | nothing => cases hgroups
  | separator hword others =>
    have hkind := ArgumentKind.of_eq_iff.mpr hword
    cases h with
    | _ h =>
      obtain rfl := (List.cons.inj hall).1
      rw [ArgumentKind.of_eq_iff.mpr h] at hkind
      cases hkind
  | noPath =>
    obtain rfl := (List.cons.inj hgroups).1
    cases h
  | noCount =>
    obtain rfl := (List.cons.inj hgroups).1
    cases h

theorem Grouping.IsValid.eq {grouping other : Grouping} (h : grouping.IsValid) (h' : other.IsValid)
    (harguments : grouping.arguments = other.arguments) : grouping = other := by
  obtain ⟨front, ending, back⟩ := grouping
  obtain ⟨front', ending', back'⟩ := other
  obtain ⟨hfront, hback⟩ := h
  obtain ⟨hfront', hback'⟩ := h'
  simp only [arguments] at harguments hfront hback hfront' hback'
  induction front generalizing front' with
  | nil =>
    cases front' with
    | nil =>
      obtain rfl : ending = ending' := harguments
      obtain rfl : back = back' := hback.groups_eq.symm.trans hback'.groups_eq
      rfl
    | cons part' front' =>
      rw [List.flatMap_nil, List.nil_append, List.flatMap_cons, List.append_assoc] at harguments
      exact absurd (harguments ▸ hback) (hfront' part' List.mem_cons_self).not_isEnding
  | cons part front ih =>
    have hpart := hfront part List.mem_cons_self
    cases front' with
    | nil =>
      rw [List.flatMap_nil, List.nil_append, List.flatMap_cons, List.append_assoc] at harguments
      exact absurd (harguments ▸ hback') hpart.not_isEnding
    | cons part' front' =>
      have hpart' := hfront' part' List.mem_cons_self
      rw [List.flatMap_cons, List.flatMap_cons, List.append_assoc, List.append_assoc] at harguments
      -- The groups begin alike, so they take as many arguments.
      have hgroup : part.2 = part'.2 := by
        have hgroups := congrArg CommandLine.groups harguments
        rw [hpart.groups_append, hpart'.groups_append] at hgroups
        exact (List.cons.inj hgroups).1
      have hlength : part.1.length = part'.1.length := by
        rw [hpart.length_eq, hpart'.length_eq, hgroup]
      obtain ⟨hwords, hrest⟩ := List.append_inj harguments hlength
      have heq := ih front' hrest (fun p hp => hfront p (List.mem_cons_of_mem part hp))
        (fun p hp => hfront' p (List.mem_cons_of_mem part' hp))
      simp only [Grouping.mk.injEq] at heq ⊢
      exact ⟨by rw [Prod.ext hwords hgroup, heq.1], heq.2⟩

theorem exists_grouping (arguments : List String) :
    ∃ grouping : Grouping, grouping.IsValid ∧ grouping.arguments = arguments := by
  have ending {ending : List String} {back : List Group} (h : IsEnding ending back) :
      ∃ grouping : Grouping, grouping.IsValid ∧ grouping.arguments = ending :=
    ⟨⟨[], ending, back⟩, ⟨nofun, h⟩, rfl⟩
  fun_induction groups arguments with
  | case1 => exact ending .nothing
  | case2 word rest hkind => exact ending (.separator (ArgumentKind.of_eq_iff.mp hkind) rest)
  | case3 word rest hkind ih => exact Grouping.exists_cons (.help (ArgumentKind.of_eq_iff.mp hkind)) ih
  | case4 word rest hkind ih => exact Grouping.exists_cons (.version (ArgumentKind.of_eq_iff.mp hkind)) ih
  | case5 word hkind => exact ending (.noPath (ArgumentKind.of_eq_iff.mp hkind))
  | case6 word hkind path rest ih =>
    exact Grouping.exists_cons (.output (ArgumentKind.of_eq_iff.mp hkind) path) ih
  | case7 word hkind => exact ending (.noCount (ArgumentKind.of_eq_iff.mp hkind))
  | case8 word hkind count rest ih =>
    exact Grouping.exists_cons (.maxSteps (ArgumentKind.of_eq_iff.mp hkind) count) ih
  | case9 word rest hkind ih => exact Grouping.exists_cons (.showPattern (ArgumentKind.of_eq_iff.mp hkind)) ih
  | case10 word rest hkind ih => exact Grouping.exists_cons (.faithful (ArgumentKind.of_eq_iff.mp hkind)) ih
  | case11 word rest hkind ih => exact Grouping.exists_cons (.verbose (ArgumentKind.of_eq_iff.mp hkind)) ih
  | case12 word rest hkind ih => exact Grouping.exists_cons (.trace (ArgumentKind.of_eq_iff.mp hkind)) ih
  | case13 word rest hkind ih => exact Grouping.exists_cons (.unknown (ArgumentKind.of_eq_iff.mp hkind)) ih
  | case14 word rest hkind ih => exact Grouping.exists_cons (.positional (ArgumentKind.of_eq_iff.mp hkind)) ih

/-! ## Groups that decide alone -/

/-- Reading stops at the group, whatever stands behind it. -/
inductive Decides : Group → Stop → Prop
  | help : Decides .help .help
  | version : Decides .version .version
  | unknown (argument : String) : Decides (.unknown argument) (.fault (.unknownOption argument))
  | noPath : Decides (.output none) (.fault .noOutputFile)
  | noCount : Decides (.maxSteps none) (.fault .noStepCount)
  | badCount {count : String} (h : ∀ n, ¬ Text.IsNumeral count.toList n) :
      Decides (.maxSteps (some count)) (.fault (.badStepCount count))

/-- No group decides alone. -/
def Undecided (groups : List Group) : Prop := ∀ group ∈ groups, ∀ stop, ¬ Decides group stop

section

variable {options result : Options} {group : Group} {before rest all : List Group} {stop : Stop}

theorem undecided_cons : Undecided (group :: rest) ↔ (∀ stop, ¬ Decides group stop) ∧ Undecided rest :=
  List.forall_mem_cons

theorem add_eq_error_iff : options.add group = .error stop ↔ Decides group stop := by
  constructor
  · intro h
    cases group with
    | output path =>
      cases path with
      | none => cases h; exact .noPath
      | some path => cases h
    | maxSteps count =>
      cases count with
      | none => cases h; exact .noCount
      | some count =>
        rw [Options.add] at h
        cases hword : Text.word? count.toList with
        | some limit => simp [hword] at h
        | none =>
          obtain rfl : .fault (.badStepCount count) = stop := by simpa [hword] using h
          refine .badCount fun n hn => ?_
          simp [Text.word?_eq_some_iff.mpr hn] at hword
    | help => cases h; exact .help
    | version => cases h; exact .version
    | unknown argument => cases h; exact .unknown argument
    | _ => cases h
  · intro h
    cases h with
    | @badCount count h =>
      have hword : Text.word? count.toList = none :=
        Option.eq_none_iff_forall_ne_some.mpr fun n hn => h n (Text.word?_eq_some_iff.mp hn)
      simp [Options.add, hword]
    | _ => rfl

theorem exists_add_eq_ok (h : ∀ stop, ¬ Decides group stop) (options : Options) :
    ∃ next, options.add group = .ok next := by
  cases hadd : options.add group with
  | ok next => exact ⟨next, rfl⟩
  | error stop => exact absurd (add_eq_error_iff.mp hadd) (h stop)

theorem exists_foldlM_eq_ok (h : Undecided all) (options : Options) :
    ∃ result, all.foldlM Options.add options = .ok result := by
  induction all generalizing options with
  | nil => exact ⟨options, rfl⟩
  | cons group rest ih =>
    obtain ⟨hgroup, hrest⟩ := undecided_cons.mp h
    obtain ⟨next, hnext⟩ := exists_add_eq_ok hgroup options
    rw [Options.foldlM_cons_add, hnext]
    exact ih hrest next

theorem undecided_of_foldlM (h : all.foldlM Options.add options = .ok result) : Undecided all := by
  induction all generalizing options with
  | nil => exact List.forall_mem_nil _
  | cons group rest ih =>
    obtain ⟨next, hnext, hrest⟩ := Options.foldlM_cons_eq_ok h
    refine undecided_cons.mpr ⟨fun stop hstop => ?_, ih hrest⟩
    rw [← add_eq_error_iff, hnext] at hstop
    cases hstop

/-- The first group that decides is all that counts. -/
theorem foldlM_eq_error (hbefore : Undecided before) (hgroup : Decides group stop) (options : Options)
    (after : List Group) : (before ++ group :: after).foldlM Options.add options = .error stop := by
  induction before generalizing options with
  | nil => rw [List.nil_append, Options.foldlM_cons_add, add_eq_error_iff.mpr hgroup]; rfl
  | cons first before ih =>
    obtain ⟨hfirst, hrest⟩ := undecided_cons.mp hbefore
    obtain ⟨next, hnext⟩ := exists_add_eq_ok hfirst options
    rw [List.cons_append, Options.foldlM_cons_add, hnext]
    exact ih hrest next

end

/-! ## What the groups make of the options -/

/-- The part of the options that a group is about. -/
def Group.kind : Group → ArgumentKind
  | help => .help
  | version => .version
  | output _ => .output
  | maxSteps _ => .maxSteps
  | showPattern => .showPattern
  | faithful => .faithful
  | verbose => .verbose
  | trace => .trace
  | unknown _ => .unknown
  | positional _ => .positional

/-- The output file that a group names. -/
@[simp] def Group.path? : Group → Option String
  | output path => path
  | _ => none

@[simp] def Group.argument? : Group → Option String
  | positional argument => some argument
  | _ => none

attribute [simp] Group.count?

theorem Group.path?_eq_none (group : Group) (h : group.kind ≠ .output) : group.path? = none := by
  cases group <;> simp_all [kind]

theorem Group.argument?_eq_none (group : Group) (h : group.kind ≠ .positional) : group.argument? = none := by
  cases group <;> simp_all [kind]

theorem Group.count?_eq_none (group : Group) (h : group.kind ≠ .maxSteps) : group.count? = none := by
  cases group <;> simp_all [kind]

/-- Each part of the options is told by the groups that are about it: the positional arguments by their
order, what has a value by its last one, a flag by being there, and the log by the most verbose request. -/
structure Gathers (groups : List Group) (options : Options) : Prop where
  patternFile : options.patternFile = (groups.filterMap Group.argument?).head?
  inputs : options.inputs = (groups.filterMap Group.argument?).tail
  output : options.output = (groups.filterMap Group.path?).getLast?
  maxSteps : ∀ n, options.maxSteps = some n ↔
    ∃ count, (groups.filterMap Group.count?).getLast? = some count ∧ Text.IsNumeral count.toList n
  showPattern : options.showPattern = true ↔ .showPattern ∈ groups
  faithful : options.faithful = true ↔ .faithful ∈ groups
  logLevel : options.logLevel =
    if .trace ∈ groups then .everything else if .verbose ∈ groups then .summaries else .nothing

section

variable {before after all : List Group} {options next result : Options} {group : Group}

theorem gathers_nil : Gathers [] {} := by
  constructor <;> simp

theorem filterMap_concat (f : Group → Option String) (before : List Group) (group : Group) :
    (before ++ [group]).filterMap f = before.filterMap f ++ (f group).toList := by
  rw [List.filterMap_append, List.filterMap_cons, List.filterMap_nil]
  cases f group <;> rfl

/-- A positional argument comes behind those before it. -/
theorem addPositional_eq (hfile : options.patternFile = (before.filterMap Group.argument?).head?)
    (hinputs : options.inputs = (before.filterMap Group.argument?).tail) (argument : String) :
    options.addPositional argument =
      { options with
        patternFile := (before.filterMap Group.argument? ++ [argument]).head?
        inputs := (before.filterMap Group.argument? ++ [argument]).tail } := by
  rw [Options.addPositional, hfile, hinputs]
  cases before.filterMap Group.argument? <;> rfl

/-- What the last group is not about is as the groups before it told. -/
theorem Gathers.add (h : Gathers before options) (hadd : options.add group = .ok next) :
    Gathers (before ++ [group]) next := by
  obtain ⟨hfile, hinputs, houtput, hsteps, hshow, hfaithful, hlog⟩ := h
  cases group with
  | positional argument =>
    obtain rfl : options.addPositional argument = next := Except.ok.inj hadd
    rw [addPositional_eq hfile hinputs]
    constructor <;> simp only [filterMap_concat, List.mem_append, List.mem_singleton] <;> simp [*]
  | maxSteps count =>
    obtain ⟨text, limit, rfl, hlimit, rfl⟩ := Options.add_maxSteps_eq_ok hadd
    have hnumeral (n : Nat) : limit = n ↔ Text.IsNumeral text.toList n := by
      rw [← Text.word?_eq_some_iff, hlimit, Option.some.injEq]
    constructor <;> simp only [filterMap_concat, List.mem_append, List.mem_singleton] <;> simp [*]
  | verbose =>
    cases hadd
    have hlevel : options.logLevel.max .summaries = if .trace ∈ before then .everything else .summaries := by
      rw [hlog]
      split_ifs <;> rfl
    clear hlog
    constructor <;> simp only [filterMap_concat, List.mem_append, List.mem_singleton] <;> simp [*]
  | output path =>
    cases path <;> cases hadd
    constructor <;> simp only [filterMap_concat, List.mem_append, List.mem_singleton] <;> simp [*]
  | _ =>
    cases hadd <;> constructor <;> simp only [filterMap_concat, List.mem_append, List.mem_singleton] <;> simp [*]

theorem Gathers.foldlM (h : Gathers before options) (hread : after.foldlM Options.add options = .ok result) :
    Gathers (before ++ after) result := by
  induction after generalizing before options with
  | nil =>
    cases hread
    rwa [List.append_nil]
  | cons group after ih =>
    obtain ⟨next, hadd, hrest⟩ := Options.foldlM_cons_eq_ok hread
    have hall := ih (h.add hadd) hrest
    rwa [List.append_assoc] at hall

theorem Gathers.eq (h : Gathers all options) (h' : Gathers all result) : options = result := by
  have hsteps : options.maxSteps = result.maxSteps :=
    Option.ext fun n => (h.maxSteps n).trans (h'.maxSteps n).symm
  have hshow : options.showPattern = result.showPattern :=
    Bool.eq_iff_iff.mpr (h.showPattern.trans h'.showPattern.symm)
  have hfaithful : options.faithful = result.faithful :=
    Bool.eq_iff_iff.mpr (h.faithful.trans h'.faithful.symm)
  cases options
  cases result
  simp only [Options.mk.injEq]
  exact ⟨h.patternFile.trans h'.patternFile.symm, h.inputs.trans h'.inputs.symm, h.output.trans h'.output.symm,
    hshow, hsteps, hfaithful, h.logLevel.trans h'.logLevel.symm⟩

end

/-! ## Another order of the complete groups -/

/-- The complete groups come in another order, but those that are about the same part keep theirs. -/
def IsRearrangement (moved front : List (List String × Group)) : Prop :=
  ∀ kind, moved.filter (fun part => part.2.kind = kind) = front.filter (fun part => part.2.kind = kind)

namespace IsRearrangement

variable {moved front : List (List String × Group)} {back : List Group} {options : Options}

theorem mem_iff (h : IsRearrangement moved front) (part : List String × Group) :
    part ∈ moved ↔ part ∈ front := by
  have hmem : part ∈ moved.filter (fun other => other.2.kind = part.2.kind) ↔
      part ∈ front.filter (fun other => other.2.kind = part.2.kind) := by
    rw [h]
  simpa using hmem

/-- What the groups about one part say does not depend on the order of the others. -/
theorem filterMap_eq (h : IsRearrangement moved front) (back : List Group) {f : Group → Option String}
    (kind : ArgumentKind) (hf : ∀ group, group.kind ≠ kind → f group = none) :
    (moved.map Prod.snd ++ back).filterMap f = (front.map Prod.snd ++ back).filterMap f := by
  have about (parts : List (List String × Group)) : (parts.map Prod.snd).filterMap f =
      (parts.filter fun part => part.2.kind = kind).filterMap (f ∘ Prod.snd) := by
    rw [List.filterMap_map, List.filterMap_filter]
    congr 1
    funext part
    by_cases hkind : part.2.kind = kind
    · simp [hkind]
    · simp [hkind, hf part.2 hkind]
  rw [List.filterMap_append, List.filterMap_append, about, about, h]

theorem mem_groups_iff (h : IsRearrangement moved front) (back : List Group) (group : Group) :
    group ∈ moved.map Prod.snd ++ back ↔ group ∈ front.map Prod.snd ++ back := by
  simp only [List.mem_append, List.mem_map, h.mem_iff]

theorem gathers (h : IsRearrangement moved front) (hgathers : Gathers (front.map Prod.snd ++ back) options) :
    Gathers (moved.map Prod.snd ++ back) options := by
  have harguments := h.filterMap_eq back .positional Group.argument?_eq_none
  have hpaths := h.filterMap_eq back .output Group.path?_eq_none
  have hcounts := h.filterMap_eq back .maxSteps Group.count?_eq_none
  obtain ⟨hfile, hinputs, houtput, hsteps, hshow, hfaithful, hlog⟩ := hgathers
  constructor
  · rw [harguments, hfile]
  · rw [harguments, hinputs]
  · rw [hpaths, houtput]
  · rw [hcounts]
    exact hsteps
  · rw [h.mem_groups_iff, hshow]
  · rw [h.mem_groups_iff, hfaithful]
  · simp only [h.mem_groups_iff, hlog]

end IsRearrangement

/-- Every list of arguments has groups, and they are all that counts, whatever the arguments look like.
The first one that decides alone makes the outcome; if none does, the options are what the groups tell.
Then the complete groups may also come in any other order in which those about the same part keep
theirs. -/
theorem arguments_follow_grammar (arguments : List String) :
    (∃! grouping : Grouping, grouping.IsValid ∧ grouping.arguments = arguments) ∧
      ∀ grouping : Grouping, grouping.IsValid → grouping.arguments = arguments →
        (∀ before group after stop, grouping.groups = before ++ group :: after → Undecided before →
          Decides group stop → Options.ofArguments arguments = .error stop) ∧
        (Undecided grouping.groups →
          ∃ options, Options.ofArguments arguments = .ok options ∧ Gathers grouping.groups options) ∧
        ∀ options, Options.ofArguments arguments = .ok options →
          ∀ moved, IsRearrangement moved grouping.front →
            Options.ofArguments (moved.flatMap Prod.fst ++ grouping.ending) = .ok options := by
  constructor
  · obtain ⟨grouping, hvalid, harguments⟩ := exists_grouping arguments
    refine ⟨grouping, ⟨hvalid, harguments⟩, ?_⟩
    rintro other ⟨hother, hsame⟩
    exact hother.eq hvalid (hsame.trans harguments.symm)
  · rintro grouping hvalid rfl
    have hread {other : Grouping} (hother : other.IsValid) : Options.ofArguments other.arguments =
        other.groups.foldlM Options.add {} := by
      rw [Options.ofArguments, Options.read_eq_foldlM, hother.groups_eq]
    rw [hread hvalid]
    refine ⟨?_, ?_, ?_⟩
    · intro before group after stop hgroups hbefore hstop
      rw [hgroups]
      exact foldlM_eq_error hbefore hstop {} after
    · intro hundecided
      obtain ⟨options, hoptions⟩ := exists_foldlM_eq_ok hundecided {}
      exact ⟨options, hoptions, gathers_nil.foldlM hoptions⟩
    · intro options hoptions moved hmoved
      have hvalidMoved : Grouping.IsValid ⟨moved, grouping.ending, grouping.back⟩ :=
        ⟨fun part hpart => hvalid.front part ((hmoved.mem_iff part).mp hpart), hvalid.back⟩
      have hgathers := hmoved.gathers (gathers_nil.foldlM hoptions)
      have hundecided : Undecided (Grouping.groups ⟨moved, grouping.ending, grouping.back⟩) :=
        fun group hgroup => undecided_of_foldlM hoptions group ((hmoved.mem_groups_iff _ group).mp hgroup)
      obtain ⟨result, hresult⟩ := exists_foldlM_eq_ok hundecided {}
      obtain rfl := (gathers_nil.foldlM hresult).eq hgathers
      exact (hread hvalidMoved).trans hresult

/-- Arguments with two hyphens as a value and two hyphens behind which there are no options. -/
private def hyphens : Grouping where
  front := [(["--trace"], .trace), (["-o", "--"], .output (some "--")), (["p"], .positional "p"),
    (["--max-steps", "7"], .maxSteps (some "7")), (["-"], .positional "-")]
  ending := ["--", "-h"]
  back := [.positional "-h"]

/-- Arguments with a hyphened value, a count that is none, and a request for help. -/
private def refused : Grouping where
  front := [(["-o", "-h"], .output (some "-h")), (["--max-steps", "x"], .maxSteps (some "x")), (["-h"], .help)]
  ending := []
  back := []

/-- The two hyphens behind an option are its value; the next ones end the options. The argument that asks
for help behind a wrong count is not heard. -/
theorem value_may_be_two_hyphens :
    (∃ options,
      Options.ofArguments ["--trace", "-o", "--", "p", "--max-steps", "7", "-", "--", "-h"] = .ok options ∧
      options.output = some "--" ∧ options.inputs = ["-", "-h"] ∧
      Options.ofArguments ["p", "--max-steps", "7", "-", "-o", "--", "--trace", "--", "-h"] = .ok options) ∧
    Options.ofArguments ["-o", "-h", "--max-steps", "x", "-h"] = .error (.fault (.badStepCount "x")) := by
  constructor
  · have hvalid : hyphens.IsValid := by
      refine ⟨?_, .separator rfl ["-h"]⟩
      simp only [hyphens, List.forall_mem_cons]
      exact ⟨.trace rfl, .output (Or.inl rfl) "--", .positional (Or.inr (by decide)), .maxSteps rfl "7",
        .positional (Or.inl rfl), nofun⟩
    have hfold : hyphens.groups.foldlM Options.add {} = .ok
        { patternFile := some "p", inputs := ["-", "-h"], output := some "--", maxSteps := some 7,
          logLevel := .everything } := rfl
    obtain ⟨-, hread, hmove⟩ := (arguments_follow_grammar _).2 hyphens hvalid rfl
    obtain ⟨options, hoptions, hgathers⟩ := hread (undecided_of_foldlM hfold)
    refine ⟨options, hoptions, hgathers.output, hgathers.inputs, ?_⟩
    refine hmove options hoptions [(["p"], .positional "p"), (["--max-steps", "7"], .maxSteps (some "7")),
      (["-"], .positional "-"), (["-o", "--"], .output (some "--")), (["--trace"], .trace)] ?_
    intro kind
    cases kind <;> rfl
  · have hvalid : refused.IsValid := by
      refine ⟨?_, .nothing⟩
      simp only [refused, List.forall_mem_cons]
      exact ⟨.output (Or.inl rfl) "-h", .maxSteps rfl "x", .help (Or.inl rfl), nofun⟩
    have hfold : [Group.output (some "-h")].foldlM Options.add {} = .ok { output := some "-h" } := rfl
    have hcount (n : Nat) : ¬ Text.IsNumeral "x".toList n := by
      rw [← Text.word?_eq_some_iff]
      exact nofun
    obtain ⟨hstop, -⟩ := (arguments_follow_grammar _).2 refused hvalid rfl
    exact hstop [.output (some "-h")] (.maxSteps (some "x")) [.help] _ rfl (undecided_of_foldlM hfold)
      (.badCount hcount)

end CommittedRegex.CommandLine
