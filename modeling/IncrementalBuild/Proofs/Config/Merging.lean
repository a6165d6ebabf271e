import IncrementalBuild.Command.Line

/-!
# Options read apart and together

Options are merged field by field, so that merging is associative and the options of an empty
command line change nothing. To read one more argument is to merge the options of that argument
alone (`OptionArg.apply_eq_merge`). Hence a command line may be cut anywhere and its parts be read
on their own, down to single arguments.

## Main results

* `BuildOptions.parse_append`: a command line in two parts.
* `BuildOptions.readOptions_eq_parse`: a command line read argument by argument.
-/

set_option autoImplicit false

namespace IncrementalBuild

namespace Verbosity

theorem merge_assoc (a b c : Verbosity) : (a.merge b).merge c = a.merge (b.merge c) := by
  simp only [merge, Bool.or_assoc]

theorem merge_default (a : Verbosity) : a.merge {} = a := by simp only [merge, Bool.or_false]

theorem default_merge (a : Verbosity) : merge {} a = a := by simp only [merge, Bool.false_or]

end Verbosity

namespace BuildOptions

/-! ## Merging -/

theorem merge_assoc (a b c : BuildOptions) : (a.merge b).merge c = a.merge (b.merge c) := by
  simp only [merge, Bool.or_assoc, List.append_assoc, Option.orElse_eq_orElse,
    Option.orElse_eq_or, Option.or_assoc, Verbosity.merge_assoc]

theorem merge_default (a : BuildOptions) : a.merge {} = a := by
  simp only [merge, Bool.or_false, List.append_nil, Option.orElse_eq_orElse,
    Option.orElse_eq_or, Option.none_or, Verbosity.merge_default]

theorem default_merge (a : BuildOptions) : merge {} a = a := by
  simp only [merge, Bool.false_or, List.nil_append, Option.orElse_eq_orElse,
    Option.orElse_eq_or, Option.or_none, Verbosity.default_merge]

end BuildOptions

/-! ## One argument more -/

/-- Reading an argument merges the options that it stands for alone. -/
theorem OptionArg.apply_eq_merge (o : BuildOptions) (arg : OptionArg) :
    arg.apply o = o.merge (arg.apply {}) := by
  cases arg <;>
    simp only [apply, BuildOptions.merge, Option.orElse_eq_orElse, Option.orElse_eq_or,
      Option.none_or, Option.some_or, Bool.or_false, Bool.or_true, List.append_nil,
      List.nil_append, Verbosity.merge_default, Verbosity.default_merge]

namespace BuildOptions

theorem foldl_apply (args : List OptionArg) (o : BuildOptions) :
    args.foldl OptionArg.apply o = o.merge (args.foldl OptionArg.apply {}) := by
  induction args generalizing o with
  | nil => exact o.merge_default.symm
  | cons arg args ih =>
    calc (arg :: args).foldl OptionArg.apply o
        = (arg.apply o).merge (args.foldl OptionArg.apply {}) := ih (arg.apply o)
      _ = o.merge ((arg.apply {}).merge (args.foldl OptionArg.apply {})) := by
          rw [arg.apply_eq_merge o, merge_assoc]
      _ = o.merge ((arg :: args).foldl OptionArg.apply {}) := by rw [← ih, List.foldl_cons]

/-- A command line in two parts has the options of both, merged, and the warnings of both. -/
theorem parse_append (a b : List String) :
    parse (a ++ b) = ((parse a).1.merge (parse b).1, (parse a).2 ++ (parse b).2) := by
  simp only [parse, List.map_append, List.foldl_append, List.filterMap_append]
  rw [foldl_apply]

/-- A command line read argument by argument, each merged into those before it, has the options and
the warnings it has when it is read at once. -/
theorem readOptions_eq_parse (args : List String) :
    CommandLine.readOptions args = parse args := by
  -- what was read before the first argument stays in front of what is read after it
  have hfold (before : List String) : args.foldl
      (fun read arg => (read.1.merge (parse [arg]).1, read.2 ++ (parse [arg]).2)) (parse before) =
        parse (before ++ args) := by
    induction args generalizing before with
    | nil => rw [List.append_nil]; rfl
    | cons arg args ih =>
      rw [List.foldl_cons, List.append_cons, ← ih, parse_append before [arg]]
  exact hfold []

/-- Reading options takes lists of arguments to options and warnings, one after another to merged.
Merging is associative, with the options of no arguments as what changes nothing. So a command line
that is read one argument at a time is read as a whole. -/
theorem options_of_parts_merge :
    (∀ a b : List String,
      parse (a ++ b) = ((parse a).1.merge (parse b).1, (parse a).2 ++ (parse b).2)) ∧
    (∀ a b c : BuildOptions, (a.merge b).merge c = a.merge (b.merge c)) ∧
    (∀ a : BuildOptions, a.merge {} = a ∧ merge {} a = a) ∧
    parse [] = ({}, []) ∧
    ∀ args : List String, CommandLine.readOptions args = parse args :=
  ⟨parse_append, merge_assoc, fun a => ⟨a.merge_default, a.default_merge⟩, rfl,
    readOptions_eq_parse⟩

end BuildOptions

end IncrementalBuild
